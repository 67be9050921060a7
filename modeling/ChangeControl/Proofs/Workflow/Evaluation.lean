import ChangeControl.Proofs.Rule.Declarations
import ChangeControl.Proofs.Workflow.Loading
import ChangeControl.Proofs.Workflow.Typing
import ChangeControl.Validation
/-!
The formulas of a loaded workflow are evaluated.

What a text declares was read by the grammar, so that no variable is free, and was checked, so that
every name and every kind is in order; what is added to it are the core rules, which need no more
than the predicates they use.  So a loaded workflow is evaluated on every project, up to literals
that name no task or no commit of it.

Main definitions:

* `Core.predicates` — the predicates of the core rules.

Main results:

* `Workflow.checks_of_load` — **everything that a loaded workflow demands is checked**;
* `Workflow.evaluates_of_load` — so it has a truth value on every project, or a literal dangles.
-/

set_option autoImplicit false

namespace ChangeControl

open Rule (Term Formula TransitionDecl FormulaDecl WorkflowDecl)

/-- The predicates of the core rules. -/
def Core.predicates : List Predicate := [.completed, .committed, .validated, .revertible]

/-! ### What is declared -/

theorem faultless_of_transitionsProblems {s : Scope} {seen : List (String × String)}
    {ts : List TransitionDecl} (h : transitionsProblems s seen ts = []) {t : TransitionDecl}
    (ht : t ∈ ts) : ∀ f ∈ t.formulas, s.formulaFaults f [] = [] := by
  induction ts generalizing seen with
  | nil => exact absurd ht List.not_mem_nil
  | cons u us ih =>
    rw [transitionsProblems, List.append_eq_nil_iff] at h
    rcases List.mem_cons.1 ht with rfl | ht
    · obtain ⟨hfirst, -⟩ := h
      simp only [transitionProblems, List.append_eq_nil_iff, faultsAt,
        List.map_eq_nil_iff] at hfirst
      intro f hf
      simp only [TransitionDecl.formulas, List.mem_cons, List.not_mem_nil, or_false] at hf
      rcases hf with rfl | rfl
      · exact hfirst.1.2
      · exact hfirst.2
    · exact ih h.2 ht

theorem faultless_of_blockProblems {s : Scope} {seen : List String} {f : FormulaDecl}
    (h : blockProblems s seen f = []) : s.formulaFaults f.formula [] = [] := by
  rw [blockProblems, faultsAt, List.map_eq_nil_iff, List.append_eq_nil_iff] at h
  exact h.2

/-! ### The core rules -/

theorem find?_name_of_mem {vocabulary : Vocabulary} {q : Predicate} (h : q ∈ vocabulary) :
    vocabulary.find? q.name = some q := by
  cases hfound : vocabulary.find? q.name with
  | none => exact absurd (List.find?_eq_none.1 hfound q h) (by simp)
  | some p =>
    have hname := List.find?_some hfound
    rw [Predicate.name_injective (eq_of_beq hname)]

/-- A predicate of one variable is in order where the variable has the kind it asks for. -/
theorem faultless_holdsOf {s : Scope} {q : Predicate} {v : String} {k : ValueKind}
    (known : q ∈ s.vocabulary) (params : q.params = [k]) :
    s.formulaFaults (Core.holdsOf q.name v) [(v, some k)] = [] := by
  simp [Core.holdsOf, Scope.formulaFaults, Scope.predicateFaults, find?_name_of_mem known, params,
    Scope.argumentFaults, Scope.termFaults, KindEnv.find?]

/-- A rule about a layer is in order where what it says of a task is. -/
theorem faultless_layerRule {vocabulary : Vocabulary} (l : Layer) {body : Formula}
    (h : (⟨[], [], vocabulary⟩ : Scope).formulaFaults body [("task", some .task)] = []) :
    (⟨[], [], vocabulary⟩ : Scope).formulaFaults (Core.layerRule l.name body) [] = [] := by
  have domain : (⟨[], [], vocabulary⟩ : Scope).domainFaults "tasks" = [] := rfl
  have kind : (⟨[], [], vocabulary⟩ : Scope).variableKind "tasks" = some .task := rfl
  have member : (⟨[], [], vocabulary⟩ : Scope).membershipFaults [("task", some .task)]
      (.var "task") l.name = [] := by
    cases l <;> rfl
  simp only [Core.layerRule, Scope.formulaFaults, domain, kind, member, h, List.append_nil]

/-- The core rules are in order wherever their predicates are known. -/
theorem faultless_core {vocabulary : Vocabulary}
    (core : ∀ q ∈ Core.predicates, q ∈ vocabulary) {rule : Invariant} (hrule : rule ∈ Core.rules) :
    (⟨[], [], vocabulary⟩ : Scope).formulaFaults rule.formula [] = [] := by
  have known : ∀ q ∈ Core.predicates, q ∈ (⟨[], [], vocabulary⟩ : Scope).vocabulary := core
  simp only [Core.rules, List.mem_cons, List.not_mem_nil, or_false] at hrule
  rcases hrule with rfl | rfl | rfl | rfl
  · refine faultless_layerRule .backlog ?_
    rw [Scope.formulaFaults]
    exact faultless_holdsOf (q := .completed) (known _ (by decide)) rfl
  · exact faultless_layerRule .changelog
      (faultless_holdsOf (q := .completed) (known _ (by decide)) rfl)
  · exact faultless_layerRule .journal
      (faultless_holdsOf (q := .committed) (known _ (by decide)) rfl)
  · have domain : (⟨[], [], vocabulary⟩ : Scope).domainFaults "commits" = [] := rfl
    have kind : (⟨[], [], vocabulary⟩ : Scope).variableKind "commits" = some .commit := rfl
    have validated := faultless_holdsOf (v := "commit") (k := .commit)
      (known .validated (by decide)) rfl
    have revertible := faultless_holdsOf (v := "commit") (k := .commit)
      (known .revertible (by decide)) rfl
    rw [Core.validatedCommitRevertible, Scope.formulaFaults, domain, kind, List.nil_append,
      Scope.formulaFaults]
    exact List.append_eq_nil_iff.2 ⟨validated, revertible⟩

/-- The core rules are closed, since each is what a line of text declares. -/
theorem isClosed_core {rule : Invariant} (hrule : rule ∈ Core.rules) :
    rule.formula.IsClosed Rule.anyWord := by
  have hmem := List.mem_map_of_mem (f := fun r => some (([] : List WorkflowDecl), [r])) hrule
  rw [← Core.parse_lines] at hmem
  obtain ⟨line, -, hline⟩ := List.mem_map.1 hmem
  cases hparse : Rule.parse line with
  | error e => simp [hparse, Except.toOption] at hline
  | ok d =>
    simp only [hparse, Except.toOption, Option.map_some, Option.some.injEq, Prod.mk.injEq] at hline
    have hrule : rule ∈ Core.invariantsOf d := by rw [hline.2]; exact List.mem_singleton_self _
    obtain ⟨b, hb, rfl⟩ := List.mem_map.1 hrule
    exact Rule.isClosed_of_parse hparse _ (List.mem_append_right _ (List.mem_map_of_mem hb))

/-! ### Loaded workflows -/

/-- **Everything that a loaded workflow demands is checked**, if the registry knows the predicates
of the core rules. -/
theorem Workflow.checks_of_load {r r' : Registry} {text : String} {w : Workflow}
    (loaded : r.load text = .ok (r', w)) (core : ∀ q ∈ Core.predicates, q ∈ r.vocabulary)
    {f : Formula} (hf : f ∈ w.formulas) :
    ∃ s : Scope, s.vocabulary = r.vocabulary ∧ s.Checks [] f [] := by
  obtain ⟨d, hparse, hbuild⟩ := Registry.check_eq_ok_iff.1 (Registry.load_eq_ok_iff.1 loaded).1
  obtain ⟨decl, hdecl, clean, rfl⟩ := buildWorkflow_eq_ok_iff.1 hbuild
  have closed := Rule.isClosed_of_parse hparse
  simp only [problems, List.append_eq_nil_iff] at clean
  obtain ⟨⟨-, transitionsOk⟩, blocksOk⟩ := clean
  have checked : ∀ s : Scope, s.vocabulary = r.vocabulary → s.formulaFaults f [] = [] →
      f.IsClosed Rule.anyWord → ∃ s : Scope, s.vocabulary = r.vocabulary ∧ s.Checks [] f [] :=
    fun s same faultless h => ⟨s, same, faultless, h.wellFormed, h.free, typed_nil⟩
  rcases List.mem_append.1 hf with hf | hf
  · obtain ⟨t', ht', hf⟩ := List.mem_flatMap.1 hf
    obtain ⟨t, ht, rfl⟩ := List.mem_map.1 ht'
    refine checked (scopeOf r.vocabulary decl) rfl
      (faultless_of_transitionsProblems transitionsOk ht f hf) (closed f ?_)
    refine List.mem_append_left _ (List.mem_flatMap.2 ⟨decl, by simp [hdecl], ?_⟩)
    exact List.mem_flatMap.2 ⟨t, ht, hf⟩
  · obtain ⟨i, hi, rfl⟩ := List.mem_map.1 hf
    rcases List.mem_append.1 hi with declared | added
    · obtain ⟨b, hb, rfl⟩ := List.mem_map.1 declared
      obtain ⟨seen, blockOk⟩ := exists_of_blocksProblems blocksOk hb
      exact checked (scopeOf r.vocabulary decl) rfl (faultless_of_blockProblems blockOk)
        (closed _ (List.mem_append_right _ (List.mem_map_of_mem hb)))
    · have hrule := (List.mem_filter.1 added).1
      exact checked ⟨[], [], r.vocabulary⟩ rfl (faultless_core core hrule) (isClosed_core hrule)

/-- The literals of an instance are literals of the formula. -/
theorem Setting.Reaches.literals_subset {m : Setting} {f g : Formula} {env env' : Bindings}
    (h : m.Reaches f env g env') : g.literals ⊆ f.literals := by
  induction h with
  | here => exact List.Subset.refl _
  | not _ ih | all _ _ _ ih | any _ _ _ ih => exact ih
  | and hf _ ih | or hf _ ih =>
    exact List.Subset.trans ih (Formula.literals_subset_literalsOf hf)
  | antecedent _ ih => exact List.Subset.trans ih (List.subset_append_left _ _)
  | consequent _ ih => exact List.Subset.trans ih (List.subset_append_right _ _)

theorem Dangles.exists_literal {p : Project} {args : List Term} {params : List ValueKind}
    {fault : CallFault} (h : Dangles p args params fault) : ∃ id, .literal id ∈ args := by
  cases h with
  | task hmem _ | commit hmem _ => exact ⟨_, (List.of_mem_zip hmem).1⟩

/-- **What a loaded workflow demands is evaluated on every project.**  The only thing that can go
wrong is a literal, in the place of a task or a commit, that names none of the project; so a formula
without literals has a truth value. -/
theorem Workflow.evaluates_of_load {r r' : Registry} {text : String} {w : Workflow}
    (loaded : r.load text = .ok (r', w)) (core : ∀ q ∈ Core.predicates, q ∈ r.vocabulary)
    (p : Project) :
    ∀ f ∈ w.formulas,
      (∀ e, (w.setting r.vocabulary p).evaluate f [] = .error e →
        ∃ q args fault env, (w.setting r.vocabulary p).Reaches f [] (.pred q.name args) env ∧
          e = .call q fault (.pred q.name args) ∧ Dangles p args q.params fault) ∧
      (f.literals = [] → ∃ result, (w.setting r.vocabulary p).evaluate f [] = .ok result) := by
  intro f hf
  obtain ⟨s, same, checks⟩ := Workflow.checks_of_load loaded core hf
  refine ⟨fun e he => checks.dangles_of_error same he, fun none => ?_⟩
  cases h : (w.setting r.vocabulary p).evaluate f [] with
  | ok result => exact ⟨result, rfl⟩
  | error e =>
    obtain ⟨q, args, fault, env', hreach, -, dangles⟩ := checks.dangles_of_error same h
    obtain ⟨id, hid⟩ := dangles.exists_literal
    have hliteral := hreach.literals_subset (Rule.mem_termLiterals hid)
    rw [none] at hliteral
    exact absurd hliteral List.not_mem_nil

/-- A workflow whose one transition asks for a task by its name. -/
def namedTask : Workflow where
  name := "Review"
  states := ["Draft", "Done"]
  transitions := [{
    source := "Draft"
    target := "Done"
    precondition := .pred "completed" [.literal "T9"]
    postcondition := .all "task" "tasks" (.pred "committed" [.var "task"])
    effects := []
    critical := false }]
  invariants := Core.rules
  parameters := []

/-- The text of that workflow. -/
def namedTaskText : String :=
  "workflow Review \x7b states: [Draft, Done];
    transitions: [Draft -> Done requires completed[\"T9\"] ensures committed[task]]; \x7d"

/-- On a project without tasks, the precondition of that transition cannot be evaluated, because its
literal dangles; the postcondition, which has no literal, can. -/
theorem evaluates_namedTask :
    (Registry.empty .full).load namedTaskText =
        .ok ((Registry.empty .full).publish namedTask, namedTask) ∧
      Dangles ⟨"Draft", [], [], by decide, by decide⟩ [.literal "T9"] [.task] (.noTask "T9") ∧
      ∃ result, (namedTask.setting .full ⟨"Draft", [], [], by decide, by decide⟩).evaluate
        (.all "task" "tasks" (.pred "committed" [.var "task"])) [] = .ok result := by
  have checked : (Registry.empty .full).check namedTaskText = .ok namedTask :=
    Rule.toOption_eq_some_iff.1 (by decide +kernel)
  have loaded : (Registry.empty .full).load namedTaskText =
      .ok ((Registry.empty .full).publish namedTask, namedTask) :=
    Registry.load_eq_ok_iff.2 ⟨checked, rfl⟩
  have evaluates := Workflow.evaluates_of_load loaded (by decide)
    ⟨"Draft", [], [], by decide, by decide⟩
  refine ⟨loaded, ?_, (evaluates _ (by decide)).2 rfl⟩
  obtain ⟨q, args, fault, env, -, heq, dangles⟩ :=
    (evaluates (.pred "completed" [.literal "T9"]) (by decide)).1 _ rfl
  cases heq
  exact dangles

end ChangeControl
