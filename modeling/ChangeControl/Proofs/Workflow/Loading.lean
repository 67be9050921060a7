import ChangeControl.Workflow.Registry
/-!
What loading guarantees.

A text that is loaded declares one workflow without problems.  In particular it does not declare a
rule of its own under the name of a core rule, so that every core rule is among the invariants of a
loaded workflow, whether the text restates it or leaves it out.

Main definitions:

* `Workflow.IsLoaded` — a workflow that comes from a text.

Main results:

* `Registry.load_eq_ok_iff`, `Registry.check_eq_ok_iff`, `buildWorkflow_eq_ok_iff` — when a text is
  loaded, and as what;
* `Workflow.IsLoaded.core` — **loading never loses or weakens a core rule**.
-/

set_option autoImplicit false

namespace ChangeControl

open Rule (FormulaDecl WorkflowDecl Document)

/-! ### Texts -/

namespace Registry

variable {r r' : Registry} {text : String} {v w : Workflow}

theorem load_eq_ok_iff : r.load text = .ok (r', w) ↔ r.check text = .ok w ∧ r' = r.publish w := by
  rw [load]
  cases r.check text with
  | error e => simp
  | ok v =>
    simp only [Except.ok.injEq, Prod.mk.injEq]
    constructor
    · rintro ⟨rfl, rfl⟩
      exact ⟨rfl, rfl⟩
    · rintro ⟨rfl, rfl⟩
      exact ⟨rfl, rfl⟩

theorem check_eq_ok_iff :
    r.check text = .ok w ↔
      ∃ d, Rule.parse text = .ok d ∧ buildWorkflow r.vocabulary d = .ok w := by
  rw [check]
  cases Rule.parse text with
  | error e => simp
  | ok d => cases hbuild : buildWorkflow r.vocabulary d <;> simp [hbuild]

/-- Publishing a workflow adds no other one. -/
theorem eq_or_mem_of_mem_publish (h : v ∈ (r.publish w).entries) : v = w ∨ v ∈ r.entries := by
  have hput : ∀ ws : List Workflow, v ∈ put w ws → v = w ∨ v ∈ ws := by
    intro ws hv
    induction ws with
    | nil => exact .inl (List.mem_singleton.1 hv)
    | cons u us ih =>
      rw [put] at hv
      split at hv
      · rcases List.mem_cons.1 hv with same | hv
        · exact .inl same
        · exact .inr (List.mem_cons_of_mem _ hv)
      · rcases List.mem_cons.1 hv with rfl | hv
        · exact .inr List.mem_cons_self
        · exact (ih hv).imp_right (List.mem_cons_of_mem _)
  exact hput r.entries h

end Registry

/-! ### Documents -/

/-- A document is a workflow exactly when it declares one, and that one has no problems. -/
theorem buildWorkflow_eq_ok_iff {vocabulary : Vocabulary} {d : Document} {w : Workflow} :
    buildWorkflow vocabulary d = .ok w ↔
      ∃ decl, d.workflows = [decl] ∧ problems vocabulary decl d.formulas = [] ∧
        w = ⟨decl.name, decl.states, decl.transitions.map transitionOf,
          invariantsWithCore d.formulas, decl.parameters⟩ := by
  unfold buildWorkflow
  split
  · next decl single =>
    simp only [single, List.cons.injEq, and_true]
    split
    · next clean => simp [clean, eq_comm]
    · next broken =>
      simp only [reduceCtorEq, false_iff, not_exists, not_and]
      rintro _ rfl clean
      exact absurd clean broken
  · next several =>
    simp only [reduceCtorEq, false_iff, not_exists, not_and]
    intro decl single
    exact absurd single (several decl)

theorem exists_of_blocksProblems {s : Scope} {seen : List String} {fs : List FormulaDecl}
    (h : blocksProblems s seen fs = []) {f : FormulaDecl} (hf : f ∈ fs) :
    ∃ seen, blockProblems s seen f = [] := by
  induction fs generalizing seen with
  | nil => exact absurd hf List.not_mem_nil
  | cons b bs ih =>
    rw [blocksProblems, List.append_eq_nil_iff] at h
    rcases List.mem_cons.1 hf with rfl | hf
    · exact ⟨seen, h.1⟩
    · exact ih h.2 hf

/-- A block without problems that has the name of a core rule has its formula. -/
theorem formula_of_blockProblems {s : Scope} {seen : List String} {f : FormulaDecl}
    {rule : Invariant} (h : blockProblems s seen f = []) (named : Core.find? f.name = some rule) :
    f.formula = rule.formula := by
  rw [blockProblems, faultsAt, List.map_eq_nil_iff] at h
  simp only [named, List.append_eq_nil_iff] at h
  by_cases same : f.formula = rule.formula
  · exact same
  · simp [same] at h

/-! ### Core rules -/

theorem Core.find?_name : ∀ rule ∈ Core.rules, Core.find? rule.name = some rule := by
  decide

/-- If nothing is declared under the name of a core rule but that rule, it is among the
invariants. -/
theorem exists_mem_invariantsWithCore {fs : List FormulaDecl}
    (reserved : ∀ f ∈ fs, ∀ rule, Core.find? f.name = some rule → f.formula = rule.formula)
    {rule : Invariant} (hrule : rule ∈ Core.rules) :
    ∃ i ∈ invariantsWithCore fs, i.formula = rule.formula := by
  -- a rule that the text restates is not added again, but the text restates it unchanged
  by_cases declared : ∃ f ∈ fs, f.name = rule.name
  · obtain ⟨f, hf, named⟩ := declared
    refine ⟨⟨f.name, f.formula, f.kind⟩, List.mem_append_left _ (List.mem_map_of_mem hf), ?_⟩
    exact reserved f hf rule (named ▸ Core.find?_name rule hrule)
  · refine ⟨rule, List.mem_append_right _ (List.mem_filter.2 ⟨hrule, ?_⟩), rfl⟩
    simpa using declared

namespace Workflow

/-- The workflow comes from a text that some registry accepted. -/
def IsLoaded (w : Workflow) : Prop :=
  ∃ (r r' : Registry) (text : String), r.load text = .ok (r', w)

/-- **Loading never loses or weakens a core rule.** -/
theorem IsLoaded.core {w : Workflow} (h : w.IsLoaded) {rule : Invariant}
    (hrule : rule ∈ Core.rules) : ∃ i ∈ w.invariants, i.formula = rule.formula := by
  obtain ⟨r, r', text, hload⟩ := h
  obtain ⟨d, -, hbuild⟩ := Registry.check_eq_ok_iff.1 (Registry.load_eq_ok_iff.1 hload).1
  obtain ⟨decl, -, clean, rfl⟩ := buildWorkflow_eq_ok_iff.1 hbuild
  have blocks : blocksProblems (scopeOf r.vocabulary decl) [] d.formulas = [] := by
    rw [problems, List.append_eq_nil_iff] at clean
    exact clean.2
  refine exists_mem_invariantsWithCore ?_ hrule
  intro f hf rule named
  obtain ⟨seen, clear⟩ := exists_of_blocksProblems blocks hf
  exact formula_of_blockProblems clear named

end Workflow

end ChangeControl
