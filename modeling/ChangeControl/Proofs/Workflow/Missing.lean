import ChangeControl.Proofs.Workflow.CoreRules
import ChangeControl.Proofs.Workflow.Declared
import Mathlib.Data.List.Dedup
/-!
Registries that lack predicates.

A registry may know fewer predicates than there are.  Whatever a text declares is checked against
those that it knows, so that nothing that a text says of its own refers to a missing one.  The core
rules are added unchecked: if one of their predicates is missing, the text is loaded all the same,
and the checks of its invariants end in an error as soon as a project has the task or the commit for
which the rule asks for the predicate.

Main definitions:

* `Formula.Within` — every predicate of the formula is known, and has as many arguments as it takes;
* `Project.crowd` — a project in which certain identifiers name something.

Main results:

* `Registry.load_mono` — what is loaded is loaded as well where more predicates are known;
* `Workflow.undefined_or_dangles` — what can go wrong with fewer predicates;
* `Workflow.undefined_iff_missing` — **an undefined predicate is met exactly if a predicate of the
  core rules is missing**.
-/

set_option autoImplicit false

namespace ChangeControl

open Rule (Term Formula FormulaDecl WorkflowDecl)

/-! ### Predicates in formulas -/

/-- Every predicate of the formula is known, and has as many arguments as it takes. -/
def Rule.Formula.Within (vocabulary : Vocabulary) (f : Formula) : Prop :=
  ∀ g ∈ f.walk, ∀ name args, g = .pred name args →
    ∃ q ∈ vocabulary, q.name = name ∧ args.length = q.params.length

theorem Scope.Resolves.within {s : Scope} {f : Formula} (h : ∀ g ∈ f.walk, s.Resolves g) :
    f.Within s.vocabulary :=
  fun g hg => (h g hg).predicate

/-- The core rules are in order exactly if their predicates are known. -/
theorem Core.within_iff {vocabulary : Vocabulary} :
    (∀ rule ∈ Core.rules, rule.formula.Within vocabulary) ↔
      ∀ q ∈ Core.predicates, q ∈ vocabulary := by
  constructor
  · intro within q hq
    have used : ∀ q ∈ Core.predicates, ∃ rule ∈ Core.rules, ∃ v ∈ ["task", "commit"],
        Core.holdsOf q.name v ∈ rule.formula.walk := by decide +kernel
    obtain ⟨rule, hrule, v, -, node⟩ := used q hq
    obtain ⟨p, known, same, -⟩ := within rule hrule _ node _ _ rfl
    exact Predicate.name_injective same ▸ known
  · intro core rule hrule
    have faultless := faultless_core core hrule
    exact Scope.Resolves.within ((Scope.formulaFaults_eq_nil_iff _ _).1 faultless).1

/-! ### More predicates -/

section More

variable {vocabulary vocabulary' : Vocabulary}

/-- Whether arguments fit their places depends on the predicates they are given to, not on what else
is known. -/
theorem Rule.Formula.Fits.of_within {f : Formula} {env : KindEnv} (within : f.Within vocabulary)
    (h : f.Fits vocabulary env) : f.Fits vocabulary' env := by
  induction f generalizing env with
  | truth | bare | member => exact h
  | pred name args =>
    -- there is one predicate of the name
    obtain ⟨q, known, named, -⟩ :=
      (Formula.forall_mem_walk_of_leaf rfl).1 within name args rfl
    intro q' _ named'
    obtain rfl := Predicate.name_injective (named'.trans named.symm)
    exact h q' known named'
  | not f ih => exact ih (Formula.forall_mem_walk_not.1 within).2 h
  | and fs ih | or fs ih =>
    have each : ∀ f ∈ fs, f.Within vocabulary := (Formula.forall_mem_walk.1 within).2
    rw [Formula.Fits, Formula.fitsAll_iff] at h ⊢
    exact fun f hf => ih f hf (each f hf) (h f hf)
  | implies f g ihf ihg =>
    obtain ⟨-, hf, hg⟩ := Formula.forall_mem_walk_implies.1 within
    exact ⟨ihf hf h.1, ihg hg h.2⟩
  | all v d f ih => exact ih (Formula.forall_mem_walk_all.1 within).2 h
  | any v d f ih => exact ih (Formula.forall_mem_walk_any.1 within).2 h

theorem WellDeclared.mono {decl : WorkflowDecl} {blocks : List FormulaDecl}
    (more : vocabulary ⊆ vocabulary') (h : WellDeclared vocabulary decl blocks) :
    WellDeclared vocabulary' decl blocks :=
  { h with
    references := fun f hf g hg =>
      (h.references f hf g hg).mono (List.Subset.refl _) (.inr rfl) more
    kinds := fun f hf => (h.kinds f hf).of_within (Scope.Resolves.within (h.references f hf)) }

/-- **What is loaded is loaded as well where more predicates are known**, as the same workflow. -/
theorem Registry.load_mono {r r' : Registry} {text : String} {w : Workflow}
    (more : r.vocabulary ⊆ vocabulary) (loaded : r.load text = .ok (r', w)) :
    (Registry.empty vocabulary).load text = .ok ((Registry.empty vocabulary).publish w, w) := by
  obtain ⟨d, hparse, hbuild⟩ := Registry.check_eq_ok_iff.1 (Registry.load_eq_ok_iff.1 loaded).1
  obtain ⟨decl, single, clean, rfl⟩ := buildWorkflow_eq_ok_iff.1 hbuild
  have declared := (problems_eq_nil_iff.1 clean).mono more
  have hbuild' := buildWorkflow_eq_ok_iff.2 ⟨decl, single, problems_eq_nil_iff.2 declared, rfl⟩
  exact Registry.load_eq_ok_iff.2 ⟨Registry.check_eq_ok_iff.2 ⟨d, hparse, hbuild'⟩, rfl⟩

end More

/-! ### Evaluation with fewer predicates -/

namespace Setting

variable {m : Setting} {env : Bindings} {e : EvalError} {g : Formula}

/-- The setting with all predicates there are. -/
def full (m : Setting) : Setting := { m with vocabulary := .full }

theorem value_full {place : Formula} {t : Term} :
    m.full.value env place t = m.value env place t := by
  cases t <;> rfl

theorem values_full {place : Formula} {ts : List Term} :
    m.full.values env place ts = m.values env place ts := by
  induction ts with
  | nil => rfl
  | cons t ts ih => rw [values, values, value_full, ih]

theorem membership_full {element : Term} {d : String} {negated : Bool} :
    m.full.membership env element d negated = m.membership env element d negated := by
  rw [membership, membership, value_full]
  rfl

/-- An instance is at fault for a predicate that is missing, or for what is wrong with it anyway. -/
theorem Raises.undefined_or_full (h : m.Raises g env e) :
    (∃ name place, e = .undefinedPredicate name place) ∨ m.full.Raises g env e := by
  cases h with
  | @pred name args _ _ happ =>
    cases known : m.vocabulary.find? name with
    | none =>
      rw [application, known] at happ
      exact .inl ⟨name, .pred name args, (Except.error.inj happ).symm⟩
    | some q =>
      obtain ⟨-, rfl⟩ := Vocabulary.find?_eq_some_iff.1 known
      have hfull : m.full.vocabulary.find? q.name = some q :=
        Vocabulary.find?_eq_some_iff.2 ⟨Predicate.mem_all q, rfl⟩
      refine .inr (.pred ?_)
      rw [← happ, application, application, known, hfull, values_full]
      rfl
  | member hmem => exact .inr (.member (membership_full.trans hmem))
  | all hvs => exact .inr (.all hvs)
  | any hvs => exact .inr (.any hvs)
  | bare text => exact .inr (.bare text env)

end Setting

/-- What a loaded workflow demands can be in error for two reasons: a predicate is missing, or a
literal names no task, or no commit, of the project. -/
theorem Workflow.undefined_or_dangles {r r' : Registry} {text : String} {w : Workflow}
    (loaded : r.load text = .ok (r', w)) (p : Project) {f : Formula} (hf : f ∈ w.formulas)
    {e : EvalError}
    (h : (w.setting r.vocabulary p).evaluate f [] = .error e) :
    (∃ name place, e = .undefinedPredicate name place) ∨
      ∃ id ∈ f.literals, p.task? id = none ∨ p.commit? id = none := by
  have more : r.vocabulary ⊆ .full := fun q _ => Predicate.mem_all q
  obtain ⟨s, same, checks⟩ := Workflow.checks_of_load (Registry.load_mono more loaded)
    (fun q _ => Predicate.mem_all q) hf
  obtain ⟨g, env, hreach, hraise⟩ := Setting.exists_raises_of_error f h
  obtain ⟨kinds, checks'⟩ := checks.reaches hreach
  rcases hraise.undefined_or_full with undefined | hraise
  · exact .inl undefined
  · obtain ⟨q, args, fault, rfl, -, dangles⟩ := checks'.dangles same hraise
    have hliterals : ∀ id, .literal id ∈ args → id ∈ f.literals :=
      fun id hid => hreach.literals_subset (Rule.mem_termLiterals hid)
    cases dangles with
    | @task id hmem absent => exact .inr ⟨id, hliterals id (List.of_mem_zip hmem).1, .inl absent⟩
    | @commit id hmem absent =>
      exact .inr ⟨id, hliterals id (List.of_mem_zip hmem).1, .inr absent⟩

/-! ### A project for every literal -/

/-- A project in which each of the identifiers names a task of one layer, and a validated commit. -/
def Project.crowd (layer : Layer) (ids : List String) : Project where
  state := ""
  tasks := ids.dedup.map fun id => ⟨id, layer, false, false⟩
  commits := ids.dedup.map fun id => ⟨id, "", true, none, none⟩
  task_ids_nodup := by
    rw [List.map_map]
    exact (List.map_id ids.dedup).symm ▸ List.nodup_dedup ids
  commit_ids_nodup := by
    rw [List.map_map]
    exact (List.map_id ids.dedup).symm ▸ List.nodup_dedup ids

section Crowd

variable {layer : Layer} {ids : List String} {id : String}

theorem mem_tasks_crowd (layer : Layer) (hid : id ∈ ids) :
    ⟨id, layer, false, false⟩ ∈ (Project.crowd layer ids).tasks :=
  List.mem_map_of_mem (List.mem_dedup.2 hid)

theorem mem_commits_crowd (layer : Layer) (hid : id ∈ ids) :
    ⟨id, "", true, none, none⟩ ∈ (Project.crowd layer ids).commits :=
  List.mem_map_of_mem (List.mem_dedup.2 hid)

theorem layer_of_mem_crowd : ∀ t ∈ (Project.crowd layer ids).tasks, t.layer = layer :=
  List.forall_mem_map.2 fun _ _ => rfl

theorem validated_of_mem_crowd : ∀ c ∈ (Project.crowd layer ids).commits, c.validated = true :=
  List.forall_mem_map.2 fun _ _ => rfl

theorem task?_crowd (hid : id ∈ ids) :
    (Project.crowd layer ids).task? id = some ⟨id, layer, false, false⟩ :=
  (Project.task?_eq_some_iff _ _ _).2 ⟨mem_tasks_crowd layer hid, rfl⟩

theorem commit?_crowd (hid : id ∈ ids) :
    (Project.crowd layer ids).commit? id = some ⟨id, "", true, none, none⟩ :=
  (Project.commit?_eq_some_iff _ _ _).2 ⟨mem_commits_crowd layer hid, rfl⟩

end Crowd

/-! ### Rules without a truth value -/

namespace Setting

variable {m : Setting} {env : Bindings} {b : Bool}

/-- What asks for a missing predicate has no truth value. -/
theorem not_yields_of_missing {q : Predicate} (missing : q ∉ m.vocabulary) {v : String} :
    ¬ m.Yields env (Core.holdsOf q.name v) b := by
  intro h
  have happly : m.application env q.name [.var v] = .ok b := yields_pred_iff.1 h
  rw [application] at happly
  cases known : m.vocabulary.find? q.name with
  | none => simp [known] at happly
  | some p =>
    obtain rfl := eq_of_find?_name known
    exact missing (Vocabulary.find?_eq_some_iff.1 known).1

/-- If a formula for all members of a domain has a truth value, one of its instances has one, unless
the domain has no members. -/
theorem Yields.exists_instance {v d : String} {f : Formula} {xs : List Value} {x : Value}
    (h : m.Yields env (.all v d f) b) (hxs : m.members d = .ok xs) (hx : x ∈ xs) :
    ∃ y ∈ xs, ∃ c, m.Yields (env ++ [(v, y)]) f c := by
  obtain ⟨ys, hys, value⟩ := h.of_all
  rw [hxs] at hys
  obtain rfl := Except.ok.inj hys
  rcases value with ⟨-, all⟩ | ⟨-, y, hy, found⟩
  · exact ⟨x, hx, true, all x hx⟩
  · exact ⟨y, hy, false, found⟩

/-- A rule about a layer has no truth value if what it says of a task has none, and all tasks are in
the layer. -/
theorem not_yields_layerRule {l : Layer} {body : Formula} {t : Task} (ht : t ∈ m.project.tasks)
    (inside : ∀ t ∈ m.project.tasks, t.layer = l)
    (mute : ∀ (env : Bindings) (c : Bool), ¬ m.Yields env body c) :
    ¬ m.Yields [] (Core.layerRule l.name body) b := by
  intro h
  have hmem : Value.task t ∈ Domain.members .tasks m.project m.states :=
    List.mem_map_of_mem (List.mem_mergeSort.2 ht)
  obtain ⟨x, hx, c, hinstance⟩ := h.exists_instance rfl hmem
  obtain ⟨u, hu, rfl⟩ := List.mem_map.1 hx
  have hu := List.mem_mergeSort.1 hu
  rcases hinstance.of_implies with ⟨-, outside⟩ | ⟨-, hbody⟩
  · -- the task is a member, so the antecedent is not false
    have hin := isIn_layerMembers hu
    rw [yields_member_iff, membership, members_layer, ← inside u hu] at outside
    simp [value, Bindings.find?, hin] at outside
  · exact mute _ _ hbody

/-- The rule about commits has no truth value if all commits, of which there is one, are validated,
and one of its two predicates is missing. -/
theorem not_yields_commitRule {c : Commit} (hc : c ∈ m.project.commits)
    (validated : ∀ c ∈ m.project.commits, c.validated = true)
    (missing : .validated ∉ m.vocabulary ∨ .revertible ∉ m.vocabulary) :
    ¬ m.Yields [] Core.validatedCommitRevertible.formula b := by
  intro h
  have hmem : Value.commit c ∈ Domain.members .commits m.project m.states :=
    List.mem_map_of_mem (List.mem_mergeSort.2 hc)
  obtain ⟨x, hx, value, hinstance⟩ := Yields.exists_instance h rfl hmem
  obtain ⟨d, hd, rfl⟩ := List.mem_map.1 hx
  rcases hinstance.of_implies with ⟨-, outside⟩ | ⟨inside, hrevertible⟩
  · -- the commit is validated, so the antecedent is not false
    have hvalue := yields_holdsOf_unique (q := .validated) rfl outside rfl
    rw [validated d (List.mem_mergeSort.1 hd)] at hvalue
    cases hvalue
  · rcases missing with missing | missing
    · exact not_yields_of_missing (q := .validated) missing inside
    · exact not_yields_of_missing (q := .revertible) missing hrevertible

end Setting

/-- **A core rule whose predicate is missing has no truth value** on a project that holds something
of every kind, in the layer that the rule speaks of. -/
theorem Core.exists_mute {q : Predicate} (hq : q ∈ Core.predicates) :
    ∃ rule ∈ Core.rules, ∃ layer, ∀ (m : Setting) (ids : List String) (b : Bool),
      q ∉ m.vocabulary → m.project = Project.crowd layer ("" :: ids) →
        ¬ m.Yields [] rule.formula b := by
  have someTask := fun layer ids => mem_tasks_crowd layer (List.mem_cons_self (a := "") (l := ids))
  have someCommit := fun layer ids =>
    mem_commits_crowd layer (List.mem_cons_self (a := "") (l := ids))
  simp only [Core.predicates, List.mem_cons, List.not_mem_nil, or_false] at hq
  rcases hq with rfl | rfl | rfl | rfl
  · refine ⟨Core.backlogOpen, by decide, .backlog, ?_⟩
    intro m ids b missing hp
    refine Setting.not_yields_layerRule (l := .backlog) (hp ▸ someTask .backlog ids)
      (hp ▸ layer_of_mem_crowd) ?_
    intro env c h
    exact Setting.not_yields_of_missing (q := .completed) missing (Setting.yields_not_iff.1 h)
  · refine ⟨Core.journalEntriesCommitted, by decide, .journal, ?_⟩
    intro m ids b missing hp
    refine Setting.not_yields_layerRule (l := .journal) (hp ▸ someTask .journal ids)
      (hp ▸ layer_of_mem_crowd) ?_
    exact fun env c => Setting.not_yields_of_missing (q := .committed) missing
  · refine ⟨Core.validatedCommitRevertible, by decide, .backlog, ?_⟩
    intro m ids b missing hp
    exact Setting.not_yields_commitRule (hp ▸ someCommit .backlog ids)
      (hp ▸ validated_of_mem_crowd) (.inl missing)
  · refine ⟨Core.validatedCommitRevertible, by decide, .backlog, ?_⟩
    intro m ids b missing hp
    exact Setting.not_yields_commitRule (hp ▸ someCommit .backlog ids)
      (hp ▸ validated_of_mem_crowd) (.inr missing)

/-! ### Checks of the invariants -/

theorem exists_mem_of_violationsOf_error {m : Setting} {is : List Invariant} {e : EvalError}
    (h : violationsOf m is = .error e) : ∃ i ∈ is, m.evaluate i.formula [] = .error e := by
  induction is with
  | nil => cases h
  | cons i is ih =>
    rw [violationsOf] at h
    cases hi : m.evaluate i.formula [] with
    | error e' =>
      simp only [hi, Except.error.injEq] at h
      exact ⟨i, List.mem_cons_self, h ▸ hi⟩
    | ok result =>
      cases hrest : violationsOf m is with
      | ok vs => simp [hi, hrest] at h
      | error e' =>
        simp only [hi, hrest, Except.error.injEq] at h
        obtain ⟨j, hj, hevaluate⟩ := ih (h ▸ hrest)
        exact ⟨j, List.mem_cons_of_mem _ hj, hevaluate⟩

theorem yields_of_violationsOf_ok {m : Setting} {is : List Invariant} {vs : List Violation}
    (h : violationsOf m is = .ok vs) : ∀ i ∈ is, ∃ b, m.Yields [] i.formula b := by
  induction is generalizing vs with
  | nil => exact fun _ hi => absurd hi List.not_mem_nil
  | cons i is ih =>
    rw [violationsOf] at h
    cases hi : m.evaluate i.formula [] with
    | error e => simp [hi] at h
    | ok result =>
      cases hrest : violationsOf m is with
      | error e => simp [hi, hrest] at h
      | ok us => exact List.forall_mem_cons.2 ⟨⟨result.holds, result, hi, rfl⟩, ih hrest⟩

/-! ### Loaded workflows -/

section Loaded

variable {r r' : Registry} {text : String} {w : Workflow}

/-- What a text declares refers to known predicates, with as many arguments as they take; so a
published formula that does not is a core rule. -/
theorem Workflow.core_of_not_within (loaded : r.load text = .ok (r', w)) :
    ∀ f ∈ w.formulas, ¬ f.Within r.vocabulary →
      ∃ rule ∈ Core.rules, rule ∈ w.invariants ∧ f = rule.formula := by
  obtain ⟨d, -, hbuild⟩ := Registry.check_eq_ok_iff.1 (Registry.load_eq_ok_iff.1 loaded).1
  obtain ⟨decl, -, clean, rfl⟩ := buildWorkflow_eq_ok_iff.1 hbuild
  intro f hf outside
  rcases mem_or_core_of_mem_formulas hf with own | core
  · exact absurd (Scope.Resolves.within ((problems_eq_nil_iff.1 clean).references f own)) outside
  · exact core

/-- Everything that is published refers to known predicates exactly if those of the core rules are
known. -/
theorem Workflow.within_iff (loaded : r.load text = .ok (r', w)) :
    (∀ f ∈ w.formulas, f.Within r.vocabulary) ↔ ∀ q ∈ Core.predicates, q ∈ r.vocabulary := by
  have isLoaded : w.IsLoaded := ⟨r, r', text, loaded⟩
  constructor
  · intro within
    refine Core.within_iff.1 fun rule hrule => ?_
    obtain ⟨i, hi, same⟩ := isLoaded.core hrule
    exact same ▸ within _ (mem_formulas_of_invariant hi)
  · intro core f hf
    by_contra outside
    obtain ⟨rule, hrule, -, rfl⟩ := core_of_not_within loaded f hf outside
    exact outside (Core.within_iff.2 core rule hrule)

/-- If the predicates of the core rules are known, no undefined predicate is met. -/
theorem Workflow.violations_ne_undefined (loaded : r.load text = .ok (r', w))
    (core : ∀ q ∈ Core.predicates, q ∈ r.vocabulary) {p : Project} {name : String}
    {place : Formula} : w.violations r.vocabulary p ≠ .error (.undefinedPredicate name place) := by
  intro undefined
  obtain ⟨i, hi, herror⟩ := exists_mem_of_violationsOf_error undefined
  obtain ⟨q, args, fault, env, -, same, -⟩ :=
    (Workflow.evaluates_of_load loaded core p _ (mem_formulas_of_invariant hi)).1 _ herror
  cases same

/-- If one of them is missing, an undefined predicate is met on some project. -/
theorem Workflow.exists_undefined (loaded : r.load text = .ok (r', w)) {q : Predicate}
    (hq : q ∈ Core.predicates) (missing : q ∉ r.vocabulary) :
    ∃ p name place, w.violations r.vocabulary p = .error (.undefinedPredicate name place) := by
  have isLoaded : w.IsLoaded := ⟨r, r', text, loaded⟩
  obtain ⟨rule, hrule, layer, mute⟩ := Core.exists_mute hq
  obtain ⟨i, hi, same⟩ := isLoaded.core hrule
  -- every literal names something, so that nothing else goes wrong
  let ids := w.formulas.flatMap Formula.literals
  refine ⟨Project.crowd layer ("" :: ids), ?_⟩
  cases h : w.violations r.vocabulary (Project.crowd layer ("" :: ids)) with
  | ok vs =>
    obtain ⟨b, hb⟩ := yields_of_violationsOf_ok h i hi
    rw [same] at hb
    exact absurd hb (mute _ ids b missing rfl)
  | error e =>
    obtain ⟨j, hj, herror⟩ := exists_mem_of_violationsOf_error h
    rcases undefined_or_dangles loaded _ (mem_formulas_of_invariant hj) herror with undefined | dangles
    · obtain ⟨name, place, rfl⟩ := undefined
      exact ⟨name, place, rfl⟩
    · obtain ⟨id, hid, absent⟩ := dangles
      have hid : id ∈ "" :: ids :=
        List.mem_cons_of_mem _ (List.mem_flatMap.2 ⟨_, mem_formulas_of_invariant hj, hid⟩)
      rw [task?_crowd hid, commit?_crowd hid] at absent
      rcases absent with absent | absent <;> cases absent

/-- **An undefined predicate is met exactly if a predicate of the core rules is missing.**  What a
text declares refers to known predicates only, with as many arguments as they take; a published
formula that does not is a core rule.  There is one exactly if one of the predicates of the core
rules is missing; and then some project has the check of the invariants end in that error. -/
theorem Workflow.undefined_iff_missing (loaded : r.load text = .ok (r', w)) :
    (∀ f ∈ w.formulas, ¬ f.Within r.vocabulary →
      ∃ rule ∈ Core.rules, rule ∈ w.invariants ∧ f = rule.formula) ∧
    ((∀ f ∈ w.formulas, f.Within r.vocabulary) ↔ ∀ q ∈ Core.predicates, q ∈ r.vocabulary) ∧
    ((∃ p name place, w.violations r.vocabulary p = .error (.undefinedPredicate name place)) ↔
      ∃ q ∈ Core.predicates, q ∉ r.vocabulary) := by
  refine ⟨core_of_not_within loaded, within_iff loaded, ?_, ?_⟩
  · rintro ⟨p, name, place, undefined⟩
    by_contra none
    have core : ∀ q ∈ Core.predicates, q ∈ r.vocabulary := by simpa using none
    exact violations_ne_undefined loaded core undefined
  · rintro ⟨q, hq, missing⟩
    exact exists_undefined loaded hq missing

end Loaded

/-- The predicates that speak of commits, and the one that says that a task is committed. -/
def commitVocabulary : Vocabulary := [.committed, .validated, .revertible]

/-- A workflow that declares no more than a state. -/
def idleText : String := "workflow W \x7b states: [A]; \x7d"

/-- That workflow, with the core rules. -/
def idle : Workflow := ⟨"W", ["A"], [], Core.rules, []⟩

theorem load_idle : (Registry.empty commitVocabulary).load idleText =
    .ok ((Registry.empty commitVocabulary).publish idle, idle) :=
  Registry.load_eq_ok_iff.2 ⟨Rule.toOption_eq_some_iff.1 (by decide +kernel), rfl⟩

/-- Without the predicate that says that a task is completed, that workflow is loaded, and the check
of its invariants ends in an error on some project. -/
theorem undefined_idle :
    (Registry.empty commitVocabulary).load idleText =
        .ok ((Registry.empty commitVocabulary).publish idle, idle) ∧
      ∃ p name place, idle.violations commitVocabulary p =
        .error (.undefinedPredicate name place) :=
  ⟨load_idle,
    (Workflow.undefined_iff_missing load_idle).2.2.2 ⟨.completed, by decide, by decide⟩⟩

/-- **What is loaded need not refer to known predicates only**, and the check of its invariants may
end in an undefined predicate: here on a project with one task in the backlog. -/
theorem not_within_of_load :
    ¬ ∀ (r r' : Registry) (text : String) (w : Workflow), r.load text = .ok (r', w) →
      (∀ f ∈ w.formulas, f.Within r.vocabulary) ∧
        ∀ p name place, w.violations r.vocabulary p ≠ .error (.undefinedPredicate name place) := by
  intro within
  obtain ⟨-, defined⟩ := within _ _ _ _ load_idle
  exact defined ⟨"A", [.new "T1"], [], by decide, by decide⟩ "completed"
    (Core.holdsOf "completed" "task") (by decide +kernel)

end ChangeControl
