import ChangeControl.Proofs.Evaluation.Semantics
import ChangeControl.Proofs.Rule.WellFormed
import ChangeControl.Workflow.Check
import Mathlib.Data.List.Forall2
/-!
Checked formulas are evaluated without surprises.

The load-time checks know the kind of every variable and of most terms, the evaluator their values.
Where the checks find no fault, every variable has a value of the kind they expect, and every
argument has a value of the kind that its predicate asks for; except for a literal in the place of a
task or a commit, which is looked up when the formula is evaluated.  This carries over from a
formula to its instances, so that a literal that names nothing is the only thing that can go wrong.

Main definitions:

* `Value.HasKind`, `Typed` — values of a kind, and bindings that respect the kinds of variables;
* `Dangles` — a literal argument names no task or no commit;
* `Scope.Checks` — the instances of formulas that were checked.

Main results:

* `Scope.Checks.reaches` — **instances of checked formulas are checked**;
* `Scope.Checks.dangles` — **a checked instance is at fault only for a literal**;
* `Scope.Checks.dangles_of_error` — so is a checked formula.
-/

set_option autoImplicit false

namespace ChangeControl

open Rule (Term Formula anyWord)

/-! ### Values and kinds -/

/-- The value is of the kind. -/
inductive Value.HasKind : Value → ValueKind → Prop
  | task (t : Task) : HasKind (.task t) .task
  | commit (c : Commit) : HasKind (.commit c) .commit
  | text (s : String) : HasKind (.text s) .state
  | list (vs : List Value) : HasKind (.list vs) .domain

/-- The members of a domain are of its kind. -/
theorem Domain.hasKind_of_mem {d : Domain} {p : Project} {states : List String} {x : Value}
    (hx : x ∈ d.members p states) : x.HasKind d.kind := by
  cases d with
  | tasks | backlog | changelog | journal =>
    obtain ⟨t, -, rfl⟩ := List.mem_map.1 hx
    exact .task t
  | commits =>
    obtain ⟨c, -, rfl⟩ := List.mem_map.1 hx
    exact .commit c
  | states =>
    obtain ⟨s, -, rfl⟩ := List.mem_map.1 hx
    exact .text s

/-- Every variable in scope has a kind, and a value of that kind. -/
def Typed (kinds : KindEnv) (env : Bindings) : Prop :=
  ∀ v ∈ kinds.map Prod.fst, ∃ k x, kinds.find? v = some k ∧ env.find? v = some x ∧ x.HasKind k

theorem typed_nil : Typed [] [] := fun _ hv => absurd hv List.not_mem_nil

theorem Typed.bind {kinds : KindEnv} {env : Bindings} (typed : Typed kinds env) (v : String)
    {k : ValueKind} {x : Value} (hx : x.HasKind k) :
    Typed ((v, some k) :: kinds) (env ++ [(v, x)]) := by
  intro w hw
  rw [Bindings.find?_concat]
  by_cases same : v = w
  · subst same
    exact ⟨k, x, by simp [KindEnv.find?], by simp, hx⟩
  · have hw : w ∈ kinds.map Prod.fst := by
      rcases List.mem_cons.1 hw with rfl | hw
      · exact absurd rfl same
      · exact hw
    obtain ⟨k', x', hkind, hvalue, hx'⟩ := typed w hw
    refine ⟨k', x', ?_, ?_, hx'⟩
    · rw [← hkind]
      simp [KindEnv.find?, same]
    · rw [Function.update_of_ne (Ne.symm same), hvalue]

/-! ### Literals that name nothing -/

/-- Some literal argument stands for a task or a commit that the project does not have. -/
inductive Dangles (p : Project) (args : List Term) (params : List ValueKind) : CallFault → Prop
  | task {id : String} : (.literal id, .task) ∈ args.zip params → p.task? id = none →
      Dangles p args params (.noTask id)
  | commit {id : String} : (.literal id, .commit) ∈ args.zip params → p.commit? id = none →
      Dangles p args params (.noCommit id)

/-- The value is of the kind, or it is that of a literal that may name something of the kind. -/
inductive Fits : Term × ValueKind → Value → Prop
  | value {t : Term} {k : ValueKind} {x : Value} : x.HasKind k → Fits (t, k) x
  | literal {id : String} {k : ValueKind} : k ≠ .domain → Fits (.literal id, k) (.text id)

section Arguments

variable {p : Project} {t u : Term} {x y : Value} {fault : CallFault}

theorem Fits.asTask (fits : Fits (t, .task) x) (h : Predicate.asTask p x = .error fault) :
    ∃ id, t = .literal id ∧ p.task? id = none ∧ fault = .noTask id := by
  cases fits with
  | value hx =>
    cases hx
    cases h
  | @literal id _ _ =>
    rw [Predicate.asTask] at h
    cases hid : p.task? id with
    | some t => simp [hid] at h
    | none => exact ⟨id, rfl, hid, by simpa [hid, eq_comm] using h⟩

theorem Fits.asCommit (fits : Fits (t, .commit) x) (h : Predicate.asCommit p x = .error fault) :
    ∃ id, t = .literal id ∧ p.commit? id = none ∧ fault = .noCommit id := by
  cases fits with
  | value hx =>
    cases hx
    cases h
  | @literal id _ _ =>
    rw [Predicate.asCommit] at h
    cases hid : p.commit? id with
    | some c => simp [hid] at h
    | none => exact ⟨id, rfl, hid, by simpa [hid, eq_comm] using h⟩

theorem Fits.asState (fits : Fits (t, .state) x) : ∃ s, Predicate.asState x = .ok s := by
  cases fits with
  | value hx =>
    cases hx
    exact ⟨_, rfl⟩
  | literal _ => exact ⟨_, rfl⟩

theorem Fits.asDomain (fits : Fits (t, .domain) x) : ∃ vs, Predicate.asDomain x = .ok vs := by
  cases fits with
  | value hx =>
    cases hx
    exact ⟨_, rfl⟩
  | literal h => exact absurd rfl h

theorem exists_of_fits_one {args : List Term} {xs : List Value} {k : ValueKind}
    (length : args.length = 1) (fits : List.Forall₂ Fits (args.zip [k]) xs) :
    ∃ t x, args = [t] ∧ xs = [x] ∧ Fits (t, k) x := by
  obtain ⟨t, rfl⟩ := List.length_eq_one_iff.1 length
  cases fits with
  | cons fit rest =>
    cases rest
    exact ⟨t, _, rfl, rfl, fit⟩

theorem exists_of_fits_two {args : List Term} {xs : List Value} {k l : ValueKind}
    (length : args.length = 2) (fits : List.Forall₂ Fits (args.zip [k, l]) xs) :
    ∃ t x u y, args = [t, u] ∧ xs = [x, y] ∧ Fits (t, k) x ∧ Fits (u, l) y := by
  obtain ⟨t, u, rfl⟩ := List.length_eq_two.1 length
  cases fits with
  | cons fit rest =>
    cases rest with
    | cons fit' rest =>
      cases rest
      exact ⟨t, _, u, _, rfl, rfl, fit, fit'⟩

/-- A predicate whose arguments fit can only be at fault for a literal that dangles. -/
theorem dangles_of_apply {q : Predicate} {args : List Term} {xs : List Value}
    (length : args.length = q.params.length) (fits : List.Forall₂ Fits (args.zip q.params) xs)
    (h : q.apply p xs = .error fault) : Dangles p args q.params fault := by
  cases q with
  | completed | committed =>
    obtain ⟨t, x, rfl, rfl, fit⟩ := exists_of_fits_one length fits
    cases hx : Predicate.asTask p x with
    | ok t => simp [Predicate.apply, hx] at h
    | error e =>
      obtain ⟨id, rfl, missing, rfl⟩ := fit.asTask hx
      simp only [Predicate.apply, hx] at h
      cases h
      exact .task (List.mem_singleton_self _) missing
  | mentioned =>
    obtain ⟨t, x, rfl, rfl, fit⟩ := exists_of_fits_one length fits
    cases hlast : p.commits.getLast? with
    | none => simp [Predicate.apply, hlast] at h
    | some c =>
      cases hx : Predicate.asTask p x with
      | ok t => simp [Predicate.apply, hlast, hx] at h
      | error e =>
        obtain ⟨id, rfl, missing, rfl⟩ := fit.asTask hx
        simp only [Predicate.apply, hlast, hx] at h
        cases h
        exact .task (List.mem_singleton_self _) missing
  | validated | revertible =>
    obtain ⟨t, x, rfl, rfl, fit⟩ := exists_of_fits_one length fits
    cases hx : Predicate.asCommit p x with
    | ok t => simp [Predicate.apply, hx] at h
    | error e =>
      obtain ⟨id, rfl, missing, rfl⟩ := fit.asCommit hx
      simp only [Predicate.apply, hx] at h
      cases h
      exact .commit (List.mem_singleton_self _) missing
  | reverts =>
    obtain ⟨t, x, u, y, rfl, rfl, fit, fit'⟩ := exists_of_fits_two length fits
    cases hx : Predicate.asCommit p x with
    | error e =>
      obtain ⟨id, rfl, missing, rfl⟩ := fit.asCommit hx
      simp only [Predicate.apply, hx] at h
      cases h
      exact .commit List.mem_cons_self missing
    | ok c =>
      cases hy : Predicate.asCommit p y with
      | ok d =>
        simp only [Predicate.apply, hx, hy] at h
        cases h
      | error e =>
        obtain ⟨id, rfl, missing, rfl⟩ := fit'.asCommit hy
        simp only [Predicate.apply, hx, hy] at h
        cases h
        exact .commit (List.mem_cons_of_mem _ List.mem_cons_self) missing
  | mentions =>
    obtain ⟨t, x, u, y, rfl, rfl, fit, fit'⟩ := exists_of_fits_two length fits
    cases hy : Predicate.asTask p y with
    | error e =>
      obtain ⟨id, rfl, missing, rfl⟩ := fit'.asTask hy
      simp only [Predicate.apply, hy] at h
      cases h
      exact .task (List.mem_cons_of_mem _ List.mem_cons_self) missing
    | ok task =>
      cases hx : Predicate.asCommit p x with
      | ok d =>
        simp only [Predicate.apply, hx, hy] at h
        cases h
      | error e =>
        obtain ⟨id, rfl, missing, rfl⟩ := fit.asCommit hx
        simp only [Predicate.apply, hx, hy] at h
        cases h
        exact .commit List.mem_cons_self missing
  | empty | nonempty =>
    obtain ⟨t, x, rfl, rfl, fit⟩ := exists_of_fits_one length fits
    obtain ⟨vs, hx⟩ := fit.asDomain
    simp [Predicate.apply, hx] at h
  | inState =>
    obtain ⟨t, x, rfl, rfl, fit⟩ := exists_of_fits_one length fits
    obtain ⟨state, hx⟩ := fit.asState
    simp [Predicate.apply, hx] at h

end Arguments

/-! ### Checked instances -/

namespace Scope

variable {s : Scope} {kinds : KindEnv} {m : Setting} {env env' : Bindings} {t : Term}
  {f g place : Formula}

theorem exists_of_domainFaults {d : String} (h : s.domainFaults d = []) :
    ∃ dom, Domain.ofName? d = some dom := by
  unfold domainFaults at h
  cases hd : Domain.ofName? d with
  | none => simp [hd] at h
  | some dom => exact ⟨dom, rfl⟩

/-- The instance was checked: without faults, for variables of these kinds, in a scope that has
just these variables. -/
structure Checks (s : Scope) (kinds : KindEnv) (f : Formula) (env : Bindings) : Prop where
  faultless : s.formulaFaults f kinds = []
  wellFormed : f.WellFormed anyWord (kinds.map Prod.fst)
  bound : f.freeVariables (kinds.map Prod.fst) = []
  typed : Typed kinds env

/-- The value of a term without faults, whose variable is bound. -/
theorem exists_value (m : Setting) (place : Formula) (typed : Typed kinds env)
    (faultless : (s.termFaults kinds t).1 = [])
    (wf : t.WellFormed anyWord (kinds.map Prod.fst))
    (bound : ∀ v, t = .var v → v ∈ kinds.map Prod.fst) :
    ∃ x, m.value env place t = .ok x ∧
      ∀ k, (s.termFaults kinds t).2 = some k → x.HasKind k := by
  cases t with
  | var v =>
    obtain ⟨k, x, hkind, hvalue, hx⟩ := typed v (bound v rfl)
    refine ⟨x, by simp [Setting.value, hvalue], fun k' hk' => ?_⟩
    rw [termFaults, hkind] at hk'
    exact Option.some.inj hk' ▸ hx
  | domain d =>
    obtain ⟨dom, hdom⟩ := exists_of_domainFaults faultless
    refine ⟨.list (dom.members m.project m.states), ?_, fun k hk => ?_⟩
    · simp [Setting.value, Setting.members_eq hdom]
    · cases hk
      exact .list _
  | state name =>
    refine ⟨.text name, rfl, fun k hk => ?_⟩
    cases hk
    exact .text name
  | literal value => exact ⟨.text value, rfl, fun k hk => by cases hk⟩
  | bare => exact absurd wf id

/-- The value of an argument without faults fits. -/
theorem exists_fits {predicate : String} {k : ValueKind} (m : Setting) (place : Formula)
    (typed : Typed kinds env)
    (faultless : s.argumentFaults kinds predicate t k = [])
    (wf : t.WellFormed anyWord (kinds.map Prod.fst))
    (bound : ∀ v, t = .var v → v ∈ kinds.map Prod.fst) :
    ∃ x, m.value env place t = .ok x ∧ Fits (t, k) x := by
  rw [argumentFaults, List.append_eq_nil_iff] at faultless
  obtain ⟨clean, kindOk⟩ := faultless
  obtain ⟨x, hvalue, hkind⟩ := exists_value m place typed clean wf bound
  refine ⟨x, hvalue, ?_⟩
  cases t with
  | literal id =>
    cases hvalue
    refine .literal fun hdomain => ?_
    simp [hdomain] at kindOk
  | bare => exact absurd wf id
  | var v =>
    obtain ⟨k', -, hv, -⟩ := typed v (bound v rfl)
    simp only [termFaults, hv] at kindOk hkind
    have same : k' = k := by
      by_contra differ
      simp [differ] at kindOk
    exact .value (same ▸ hkind k' rfl)
  | domain d =>
    have same : ValueKind.domain = k := by
      by_contra differ
      simp [termFaults, differ] at kindOk
    exact .value (same ▸ hkind .domain rfl)
  | state name =>
    have same : ValueKind.state = k := by
      by_contra differ
      simp [termFaults, differ] at kindOk
    exact .value (same ▸ hkind .state rfl)

theorem exists_fits_all {predicate : String} {args : List Term} {params : List ValueKind}
    (m : Setting) (place : Formula) (typed : Typed kinds env) (length : args.length = params.length)
    (faultless : ((args.zip params).flatMap fun a => s.argumentFaults kinds predicate a.1 a.2) = [])
    (wf : ∀ t ∈ args, t.WellFormed anyWord (kinds.map Prod.fst))
    (bound : ∀ v, .var v ∈ args → v ∈ kinds.map Prod.fst) :
    ∃ xs, m.values env place args = .ok xs ∧ List.Forall₂ Fits (args.zip params) xs := by
  induction args generalizing params with
  | nil => exact ⟨[], rfl, .nil⟩
  | cons t args ih =>
    obtain ⟨k, params, rfl⟩ := List.exists_of_length_succ params length.symm
    rw [List.zip_cons_cons, List.flatMap_cons, List.append_eq_nil_iff] at faultless
    rw [List.forall_mem_cons] at wf
    obtain ⟨x, hx, fit⟩ := exists_fits m place typed faultless.1 wf.1
      fun v hv => bound v (hv ▸ List.mem_cons_self)
    obtain ⟨xs, hxs, fits⟩ := ih (Nat.succ.inj length) faultless.2 wf.2
      fun v hv => bound v (List.mem_cons_of_mem _ hv)
    exact ⟨x :: xs, by simp [Setting.values, hx, hxs], .cons fit fits⟩

/-- The variables among the arguments of an atom without free variables are bound. -/
theorem mem_of_filter_eq_nil {args : List Term} {bound : List String}
    (h : (Rule.Formula.termVariables args).filter (fun v => !bound.contains v) = []) {v : String}
    (hv : .var v ∈ args) : v ∈ bound := by
  have hmem : v ∈ Rule.Formula.termVariables args := List.mem_filterMap.2 ⟨.var v, hv, rfl⟩
  simpa using List.filter_eq_nil_iff.1 h v hmem

theorem variableKind_eq {d : String} {dom : Domain} (faultless : s.domainFaults d = [])
    (hdom : Domain.ofName? d = some dom) : s.variableKind d = some dom.kind := by
  simp [variableKind, faultless, hdom]

/-- The body of a checked quantified formula is checked for every member of the domain. -/
theorem Checks.body {v d : String} {vs : List Value} {x : Value}
    (faultless : s.domainFaults d ++ s.formulaFaults f ((v, s.variableKind d) :: kinds) = [])
    (wf : f.WellFormed anyWord (v :: kinds.map Prod.fst))
    (bound : f.freeVariables (v :: kinds.map Prod.fst) = []) (typed : Typed kinds env)
    (hvs : m.members d = .ok vs) (hx : x ∈ vs) :
    ∃ kinds', s.Checks kinds' f (env ++ [(v, x)]) := by
  obtain ⟨domainOk, bodyOk⟩ := List.append_eq_nil_iff.1 faultless
  obtain ⟨dom, hdom⟩ := exists_of_domainFaults domainOk
  rw [Setting.members_eq hdom] at hvs
  cases hvs
  rw [variableKind_eq domainOk hdom] at bodyOk
  exact ⟨_, bodyOk, wf, bound, typed.bind v (Domain.hasKind_of_mem hx)⟩

theorem mem_formulasFaults {fs : List Formula} (h : s.formulasFaults fs kinds = [])
    (hf : f ∈ fs) : s.formulaFaults f kinds = [] := by
  induction fs with
  | nil => exact absurd hf List.not_mem_nil
  | cons g fs ih =>
    rw [formulasFaults, List.append_eq_nil_iff] at h
    rcases List.mem_cons.1 hf with rfl | hf
    · exact h.1
    · exact ih h.2 hf

/-- **Instances of checked formulas are checked.** -/
theorem Checks.reaches (checks : s.Checks kinds f env) (h : m.Reaches f env g env') :
    ∃ kinds', s.Checks kinds' g env' := by
  induction h generalizing kinds with
  | here => exact ⟨kinds, checks⟩
  | not _ ih =>
    obtain ⟨faultless, wf, bound, typed⟩ := checks
    exact ih ⟨faultless, wf, bound, typed⟩
  | @and fs f _ _ _ hf _ ih | @or fs f _ _ _ hf _ ih =>
    obtain ⟨faultless, wf, bound, typed⟩ := checks
    refine ih ⟨mem_formulasFaults faultless hf, Formula.wellFormedAll_iff.1 wf.2 f hf, ?_, typed⟩
    refine List.eq_nil_iff_forall_not_mem.2 fun v hv => ?_
    exact List.eq_nil_iff_forall_not_mem.1 bound v (Formula.mem_freeVariablesOf.2 ⟨f, hf, hv⟩)
  | antecedent _ ih =>
    obtain ⟨faultless, wf, bound, typed⟩ := checks
    exact ih ⟨(List.append_eq_nil_iff.1 faultless).1, wf.1, (List.append_eq_nil_iff.1 bound).1,
      typed⟩
  | consequent _ ih =>
    obtain ⟨faultless, wf, bound, typed⟩ := checks
    exact ih ⟨(List.append_eq_nil_iff.1 faultless).2, wf.2, (List.append_eq_nil_iff.1 bound).2,
      typed⟩
  | all hvs hx _ ih | any hvs hx _ ih =>
    obtain ⟨faultless, wf, bound, typed⟩ := checks
    obtain ⟨kinds', checks'⟩ := Checks.body faultless wf.2.2 bound typed hvs hx
    exact ih checks'

theorem membership_ne_error {element : Term} {d : String} {negated : Bool} {e : EvalError}
    (checks : s.Checks kinds (.member element d negated) env) :
    m.membership env element d negated ≠ .error e := by
  obtain ⟨faultless, wf, bound, typed⟩ := checks
  rw [formulaFaults, membershipFaults] at faultless
  cases hdomain : s.domainFaults d with
  | cons fault faults => simp [hdomain] at faultless
  | nil =>
    obtain ⟨dom, hdom⟩ := exists_of_domainFaults hdomain
    simp only [hdomain, hdom, List.append_eq_nil_iff] at faultless
    obtain ⟨x, hx, -⟩ := exists_value m (.member element d negated) typed
      faultless.1 wf.1 fun v hv => mem_of_filter_eq_nil bound (hv ▸ List.mem_singleton_self _)
    simp [Setting.membership, Setting.members_eq hdom, hx]

/-- **A checked instance is at fault only for a literal**: it applies a predicate to a literal that
names no task, or no commit, of the project. -/
theorem Checks.dangles (checks : s.Checks kinds g env) (same : s.vocabulary = m.vocabulary)
    {e : EvalError} (h : m.Raises g env e) :
    ∃ q args fault, g = .pred q.name args ∧ e = .call q fault g ∧
      Dangles m.project args q.params fault := by
  cases h with
  | member hmem => exact absurd hmem (membership_ne_error checks)
  | bare => exact absurd checks.wellFormed id
  | all hvs | any hvs =>
    obtain ⟨dom, hdom⟩ := exists_of_domainFaults (List.append_eq_nil_iff.1 checks.faultless).1
    rw [Setting.members_eq hdom] at hvs
    cases hvs
  | @pred name args _ _ happ =>
    obtain ⟨faultless, wf, bound, typed⟩ := checks
    rw [formulaFaults, predicateFaults, same] at faultless
    cases hq : m.vocabulary.find? name with
    | none => simp [hq] at faultless
    | some q =>
      have hname := List.find?_some hq
      obtain rfl : q.name = name := eq_of_beq hname
      simp only [hq, List.append_eq_nil_iff, ite_eq_left_iff, reduceCtorEq, imp_false,
        not_not] at faultless
      obtain ⟨xs, hxs, fits⟩ := exists_fits_all m (.pred q.name args) typed
        faultless.1 faultless.2 wf.2 fun v hv => mem_of_filter_eq_nil bound hv
      simp only [Setting.application, hq, hxs] at happ
      cases hresult : q.apply m.project xs with
      | ok b => simp [hresult] at happ
      | error fault =>
        simp only [hresult, Except.error.injEq] at happ
        exact ⟨q, args, fault, rfl, happ.symm, dangles_of_apply faultless.1 fits hresult⟩

/-- A checked formula whose evaluation ends in an error has an instance at fault for a literal. -/
theorem Checks.dangles_of_error (checks : s.Checks kinds f env)
    (same : s.vocabulary = m.vocabulary) {e : EvalError} (h : m.evaluate f env = .error e) :
    ∃ q args fault env', m.Reaches f env (.pred q.name args) env' ∧
      e = .call q fault (.pred q.name args) ∧ Dangles m.project args q.params fault := by
  obtain ⟨g, env', hreach, hraise⟩ := Setting.exists_raises_of_error f h
  obtain ⟨kinds', checks'⟩ := checks.reaches hreach
  obtain ⟨q, args, fault, rfl, rfl, dangles⟩ := checks'.dangles same hraise
  exact ⟨q, args, fault, env', hreach, rfl, dangles⟩

end Scope

end ChangeControl
