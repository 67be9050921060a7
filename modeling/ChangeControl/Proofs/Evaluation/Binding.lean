import ChangeControl.Proofs.Evaluation.Witness
import ChangeControl.Proofs.Rule.Declarations
import ChangeControl.Proofs.Workflow.References
/-!
Variables and their quantifiers.

A parser resolves a name by the scope it stands in, and quantifies in the end the sort names that
are left.  So wherever a variable occurs in what a text says, a quantifier of its name stands above
it.  Evaluation goes down through the same quantifiers and gives each of their variables a value, so
that no instance of the formula is left with a variable without one.  Which instances there are is a
matter of the domains: what the predicates say of them has no part in it.

Main definitions:

* `Rule.Parses` — the formulas that come from a text;
* `Rule.Formula.boundBy` — the variables of the quantifiers among some formulas;
* `Rule.Formula.InScope` — the names at one place of a formula are resolved by what stands above it;
* `Bindings.Covers` — every free variable of a formula has a value.

Main results:

* `Rule.Formula.IsClosed.inScope` — the names of a closed formula are resolved by its quantifiers;
* `Setting.Reaches.covers` — the variables of every instance of a closed formula have values;
* `Setting.bound_of_parses` — **what comes from a text is in scope everywhere, and is never
  evaluated to an unbound variable**.
-/

set_option autoImplicit false

namespace ChangeControl

open Rule (Term Formula)

namespace Rule

/-- The formula comes from a text: it is the formula of one, or one of those that a document
declares. -/
inductive Parses : Formula → Prop
  | formula {s : String} {f : Formula} (parsed : parseFormula s = .ok f) : Parses f
  | sentence {s : String} {d : Document} {f : Formula} (parsed : parse s = .ok d)
      (declared : f ∈ d.sentences) : Parses f

/-- What comes from a text is closed. -/
theorem Parses.isClosed {f : Formula} (h : Parses f) : f.IsClosed anyWord := by
  cases h with
  | formula parsed =>
    exact isClosed_of_parseFormula (fun stream _ => spelled_anyWord stream.tokens) parsed
  | sentence parsed declared => exact isClosed_of_parse parsed f declared

namespace Formula

/-! ### Scopes -/

/-- The variables that some formulas bind. -/
def boundBy (above : List Formula) : List String := above.filterMap fun f => f.binder?.map Prod.fst

/-- The names at a place of a formula are resolved by the quantifiers `above` it: its variables are
theirs, and no state has the name of one of them.  And whatever is joined there is more than one. -/
structure InScope (above : List Formula) (g : Formula) : Prop where
  bound : ∀ v, .var v ∈ g.terms → v ∈ boundBy above
  unshadowed : ∀ s, .state s ∈ g.terms → s ∉ boundBy above
  several : ∀ fs, g = .and fs ∨ g = .or fs → 2 ≤ fs.length

variable {Word : String → Prop} {f g : Formula} {scope bound : List String} {above : List Formula}
  {v : String}

theorem boundBy_cons (f : Formula) (above : List Formula) :
    boundBy (f :: above) = boundBy [f] ++ boundBy above := by
  rw [← List.singleton_append, boundBy, List.filterMap_append]
  rfl

/-- The immediate subformulas of a well-formed formula are well-formed, in the scope of what it
binds. -/
theorem WellFormed.child (wf : f.WellFormed Word scope) (hg : g ∈ f.children) :
    g.WellFormed Word (boundBy [f] ++ scope) := by
  cases f with
  | truth | pred | member | bare => exact absurd hg List.not_mem_nil
  | not f =>
    rw [List.mem_singleton.1 hg]
    exact wf
  | and fs | or fs => exact wellFormedAll_iff.1 wf.2 g hg
  | implies f f' =>
    rcases List.mem_pair.1 hg with rfl | rfl
    · exact wf.1
    · exact wf.2
  | all v d f | any v d f =>
    rw [List.mem_singleton.1 hg]
    exact wf.2.2

/-- What is free in an immediate subformula is free in the formula, unless the formula binds it. -/
theorem mem_freeVariables_of_child (hg : g ∈ f.children)
    (free : v ∈ g.freeVariables (boundBy [f] ++ bound)) : v ∈ f.freeVariables bound := by
  cases f with
  | truth | pred | member | bare => exact absurd hg List.not_mem_nil
  | not f =>
    rw [List.mem_singleton.1 hg] at free
    exact free
  | and fs | or fs => exact mem_freeVariablesOf.2 ⟨g, hg, free⟩
  | implies f f' =>
    rcases List.mem_pair.1 hg with rfl | rfl
    · exact List.mem_append_left _ free
    · exact List.mem_append_right _ free
  | all w d f | any w d f =>
    rw [List.mem_singleton.1 hg] at free
    exact free

/-- A variable at the top of a formula is free in it, unless it is bound before. -/
theorem mem_freeVariables_of_terms (hv : .var v ∈ g.terms) (free : v ∉ bound) :
    v ∈ g.freeVariables bound := by
  have unbound {es : List Term} (he : .var v ∈ es) :
      v ∈ (termVariables es).filter fun v => !bound.contains v := by
    have mem : v ∈ termVariables es := List.mem_filterMap.2 ⟨.var v, he, rfl⟩
    simpa [mem] using free
  cases g with
  | pred name args => exact unbound hv
  | member element d negated => exact unbound hv
  | truth | not | and | or | implies | all | any | bare => exact absurd hv List.not_mem_nil

/-- A well-formed formula without free variables is such at every place, in the scope of what stands
above that place. -/
theorem Occurs.exists_scope (h : f.Occurs above g) (wf : f.WellFormed Word scope)
    (closed : f.freeVariables scope = []) :
    ∃ inner, (∀ v, v ∈ inner ↔ v ∈ boundBy above ∨ v ∈ scope) ∧ g.WellFormed Word inner ∧
      g.freeVariables inner = [] := by
  induction h generalizing scope with
  | here f => exact ⟨scope, by simp [boundBy], wf, closed⟩
  | @under f g h above hg _ ih =>
    have closed' : g.freeVariables (boundBy [f] ++ scope) = [] := by
      refine List.eq_nil_iff_forall_not_mem.2 fun v hv => ?_
      have free := mem_freeVariables_of_child hg hv
      rw [closed] at free
      exact List.not_mem_nil free
    obtain ⟨inner, same, wf', closed''⟩ := ih (wf.child hg) closed'
    refine ⟨inner, fun v => ?_, wf', closed''⟩
    rw [same, boundBy_cons f above, List.mem_append, List.mem_append]
    tauto

/-- The states at the top of a well-formed formula do not have the name of a variable in scope. -/
theorem WellFormed.state_not_mem (wf : g.WellFormed Word scope) {s : String}
    (hs : .state s ∈ g.terms) : s ∉ scope := by
  cases g with
  | pred name args => exact (wf.2 _ hs).2.2.1
  | member element d negated =>
    rw [terms, List.mem_singleton] at hs
    obtain ⟨term, -⟩ := wf
    rw [← hs] at term
    exact term.2.2.1
  | truth | not | and | or | implies | all | any | bare => exact absurd hs List.not_mem_nil

/-- **The names of a closed formula are resolved by its quantifiers.** -/
theorem IsClosed.inScope (closed : f.IsClosed Word) (h : f.Occurs above g) : InScope above g := by
  obtain ⟨inner, same, wf, free⟩ := h.exists_scope closed.wellFormed closed.free
  have same (v : String) : v ∈ inner ↔ v ∈ boundBy above := by simpa using same v
  refine ⟨fun v hv => ?_, fun s hs => ?_, ?_⟩
  · by_contra unbound
    have hfree := mem_freeVariables_of_terms hv (mt (same v).1 unbound)
    rw [free] at hfree
    exact List.not_mem_nil hfree
  · rw [← same]
    exact wf.state_not_mem hs
  · rintro fs (rfl | rfl) <;> exact wf.1

end Formula

end Rule

/-! ### Values of variables -/

/-- Every free variable of the formula has a value. -/
def Bindings.Covers (env : Bindings) (f : Formula) : Prop :=
  ∀ v ∈ f.freeVariables [], ∃ x, env.find? v = some x

namespace Bindings

variable {env : Bindings} {f g : Formula}

/-- Nothing is asked of the values for a formula without free variables. -/
theorem covers_of_free (closed : f.freeVariables [] = []) : env.Covers f := by
  intro v hv
  rw [closed] at hv
  exact absurd hv List.not_mem_nil

/-- With a value for what a formula binds, the values for the formula are values for its
subformulas. -/
theorem Covers.child {added : Bindings} (covers : env.Covers f) (hg : g ∈ f.children)
    (bound : ∀ v ∈ Formula.boundBy [f], ∃ x, (env ++ added).find? v = some x)
    (kept : ∀ v ∉ Formula.boundBy [f], (env ++ added).find? v = env.find? v) :
    (env ++ added).Covers g := by
  intro v hv
  by_cases mem : v ∈ Formula.boundBy [f]
  · exact bound v mem
  · rw [kept v mem]
    refine covers v (Formula.mem_freeVariables_of_child hg ?_)
    rw [List.append_nil, ← List.nil_append (Formula.boundBy [f]), Formula.mem_freeVariables_append]
    exact ⟨hv, mem⟩

theorem Covers.operand (covers : env.Covers f) (hg : g ∈ f.children) (none : f.binder? = none) :
    env.Covers g := by
  have nothing : Formula.boundBy [f] = [] := by simp [Formula.boundBy, none]
  have h : (env ++ []).Covers g := covers.child hg (by simp [nothing]) (by simp)
  rwa [List.append_nil] at h

theorem Covers.body {v d : String} (covers : env.Covers f) (x : Value) (hg : g ∈ f.children)
    (binds : f.binder? = some (v, d)) : (env ++ [(v, x)]).Covers g := by
  have one : Formula.boundBy [f] = [v] := by simp [Formula.boundBy, binds]
  refine covers.child hg (fun w hw => ⟨x, ?_⟩) fun w hw => ?_
  · rw [one, List.mem_singleton] at hw
    rw [hw, find?_concat, Function.update_self]
  · rw [one, List.mem_singleton] at hw
    rw [find?_concat, Function.update_of_ne hw]

/-- The variables at the top of the formula have values. -/
theorem Covers.exists_value {v : String} (covers : env.Covers g) (hv : .var v ∈ g.terms) :
    ∃ x, env.find? v = some x :=
  covers v (Formula.mem_freeVariables_of_terms hv List.not_mem_nil)

end Bindings

namespace Setting

variable {m : Setting} {f g : Formula} {env env' : Bindings}

/-- **The free variables of every instance have values**, if those of the formula do. -/
theorem Reaches.covers (h : m.Reaches f env g env') (covers : env.Covers f) : env'.Covers g := by
  induction h with
  | here => exact covers
  | not _ ih => exact ih (covers.operand List.mem_cons_self rfl)
  | and hf _ ih | or hf _ ih => exact ih (covers.operand hf rfl)
  | antecedent _ ih => exact ih (covers.operand List.mem_cons_self rfl)
  | consequent _ ih => exact ih (covers.operand (List.mem_cons_of_mem _ List.mem_cons_self) rfl)
  | all _ _ _ ih | any _ _ _ ih => exact ih (covers.body _ List.mem_cons_self rfl)

theorem value_eq_unbound {place place' : Formula} {t : Term} {v : String}
    (h : m.value env place t = .error (.unbound v place')) : t = .var v ∧ env.find? v = none := by
  cases t with
  | var w =>
    cases hw : env.find? w with
    | some x => simp [value, hw] at h
    | none =>
      simp only [value, hw, Except.error.injEq, EvalError.unbound.injEq] at h
      exact ⟨by rw [h.1], h.1 ▸ hw⟩
  | domain d =>
    cases hd : Domain.ofName? d <;> simp [value, members, hd] at h
  | state | literal | bare => simp [value] at h

/-- Some term is at fault where several are. -/
theorem exists_mem_of_values_error {place : Formula} {ts : List Term} {e : EvalError}
    (h : m.values env place ts = .error e) : ∃ t ∈ ts, m.value env place t = .error e := by
  induction ts with
  | nil => cases h
  | cons t ts ih =>
    rw [values] at h
    cases ht : m.value env place t with
    | error e' =>
      simp only [ht, Except.error.injEq] at h
      exact ⟨t, List.mem_cons_self, h ▸ ht⟩
    | ok v =>
      cases hts : m.values env place ts with
      | ok vs => simp [ht, hts] at h
      | error e' =>
        simp only [ht, hts, Except.error.injEq] at h
        obtain ⟨t', hmem, ht'⟩ := ih (h ▸ hts)
        exact ⟨t', List.mem_cons_of_mem _ hmem, ht'⟩

/-- A variable is unbound only where it stands and has no value. -/
theorem Raises.unbound {v : String} {place : Formula} (h : m.Raises g env (.unbound v place)) :
    .var v ∈ g.terms ∧ env.find? v = none := by
  cases h with
  | @pred name args _ _ h =>
    unfold application at h
    cases hname : m.vocabulary.find? name with
    | none => simp [hname] at h
    | some q =>
      cases hvalues : m.values env (.pred name args) args with
      | ok vs => cases happ : q.apply m.project vs <;> simp [hname, hvalues, happ] at h
      | error e =>
        simp only [hname, hvalues, Except.error.injEq] at h
        obtain ⟨t, ht, hvalue⟩ := exists_mem_of_values_error (h ▸ hvalues)
        obtain ⟨rfl, none⟩ := value_eq_unbound hvalue
        exact ⟨ht, none⟩
  | @member element d negated _ _ h =>
    unfold membership at h
    cases hd : m.members d with
    | error e =>
      cases hdomain : Domain.ofName? d with
      | some dom => simp [members, hdomain] at hd
      | none =>
        simp only [members, hdomain, Except.error.injEq] at hd
        simp [members, hdomain] at h
    | ok vs =>
      cases hvalue : m.value env (.member element d negated) element with
      | ok x => simp [hd, hvalue] at h
      | error e =>
        simp only [hd, hvalue, Except.error.injEq] at h
        obtain ⟨rfl, none⟩ := value_eq_unbound (h ▸ hvalue)
        exact ⟨List.mem_singleton_self _, none⟩
  | @all _ d _ _ _ h | @any _ d _ _ _ h =>
    cases hd : Domain.ofName? d <;> simp [members, hd] at h

/-- **Whatever comes from a text is in scope.**  Every variable of it stands below a quantifier of
its name, no state has the name of a variable in scope, and nothing is joined but two or more
operands.  So whichever instance is reached from no bindings, in whichever project and workflow, its
variables have values; and with no predicates does evaluation end at an unbound variable. -/
theorem bound_of_parses (parses : Rule.Parses f) :
    (∀ above g, f.Occurs above g → Formula.InScope above g) ∧
    ∀ m : Setting,
      (∀ g env, m.Reaches f [] g env → ∀ v, .var v ∈ g.terms → ∃ x, env.find? v = some x) ∧
      ∀ v place, m.evaluate f [] ≠ .error (.unbound v place) := by
  have closed := parses.isClosed
  have covered (m : Setting) {g : Formula} {env : Bindings} (h : m.Reaches f [] g env) :
      env.Covers g := h.covers (Bindings.covers_of_free closed.free)
  refine ⟨fun above g h => closed.inScope h, fun m => ⟨?_, fun v place h => ?_⟩⟩
  · intro g env hreach v hv
    exact (covered m hreach).exists_value hv
  · obtain ⟨g, env, hreach, hraise⟩ := exists_raises_of_error f h
    obtain ⟨hv, none⟩ := hraise.unbound
    obtain ⟨x, hx⟩ := (covered m hreach).exists_value hv
    rw [none] at hx
    cases hx

/-- The project is in the plan, a state. -/
def planned : Formula := .pred "in_state" [.state "Plan"]

/-- Some state is the one that the project is in; the variable has the name of a state. -/
def somePlan : Formula := .any "Plan" "states" (.pred "in_state" [.var "Plan"])

/-- In the plan, which is one of the states, every task is completed. -/
def completedPlan : Formula :=
  .implies (.and [planned, somePlan]) (.pred "completed" [.var "task"])

/-- A document declares that formula, with the sort name quantified.  The same name is a state
before the quantifier and a variable below it, and on a project with one task no variable is
unbound. -/
theorem bound_completedPlan :
    Rule.Parses (.all "task" "tasks" completedPlan) ∧
      Formula.InScope [.all "task" "tasks" completedPlan, completedPlan, .and [planned, somePlan]]
        planned ∧
      Formula.InScope
        [.all "task" "tasks" completedPlan, completedPlan, .and [planned, somePlan], somePlan]
        (.pred "in_state" [.var "Plan"]) ∧
      ∀ v place,
        oneTask.evaluate (.all "task" "tasks" completedPlan) [] ≠ .error (.unbound v place) := by
  have parsed : Rule.parse
      "proof that p: in_state[Plan] and (exists Plan in states: in_state[Plan]) -> completed[task]" =
        .ok ⟨[], [⟨.proof, "p", .all "task" "tasks" completedPlan, 0⟩]⟩ :=
    Rule.toOption_eq_some_iff.1 (by decide +kernel)
  have parses : Rule.Parses (.all "task" "tasks" completedPlan) :=
    .sentence parsed (List.mem_singleton_self _)
  obtain ⟨inScope, values⟩ := bound_of_parses parses
  refine ⟨parses, inScope _ _ ?_, inScope _ _ ?_, (values oneTask).2⟩
  · exact .under (by decide) (.under (by decide) (.under (by decide) (.here _)))
  · exact .under (by decide) (.under (by decide) (.under (by decide) (.under (by decide) (.here _))))

end Setting

end ChangeControl
