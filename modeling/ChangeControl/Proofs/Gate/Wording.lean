import ChangeControl.Proofs.Evaluation.Witness
import ChangeControl.Proofs.Gate.Upheld
import ChangeControl.Proofs.Rule.RoundTrip
import ChangeControl.Proofs.Rule.Traversal
import ChangeControl.Proofs.Workflow.Contract
import ChangeControl.Proofs.Workflow.Declared
import ChangeControl.Proofs.Workflow.Keeping
/-!
What a gate says about the proposals that it turns down.

A rejection is told with the texts of the conditions that fail and of the formulas that witnesses
point to.  A formula with a bare leaf below its root has no text, and telling it would end
everything half way.  But a text never declares such a formula, and a definition that is held has
none either.  What is told is a conjunct of one of the formulas of the definition, or a formula that
occurs in one, so that it has a text.

Main definitions:

* `Unmet.named`, `Violation.named` — the formulas that are told.

Main results:

* `Workflow.IsLoaded.isProper` — what is loaded is proper;
* `Workflow.IsProper.print?_of_unmet`, `Workflow.IsProper.print?_of_violation` — what is told about
  a proper definition has a text;
* `Gate.tells_texts` — **whatever a gate tells of a decision has a text**.
-/

set_option autoImplicit false

namespace ChangeControl

open Calendar (Timestamp)
open Rule (Formula)

/-! ### Formulas without bare leaves -/

namespace Rule.Formula

variable {f g : Formula} {above : List Formula}

theorem firstBare?_of_mem_children (h : f.firstBare? = none) (hg : g ∈ f.children) :
    g.firstBare? = none := by
  cases f with
  | truth | pred | member | bare => cases hg
  | not f | all v d f | any v d f =>
    obtain rfl := List.mem_singleton.1 hg
    exact h
  | and fs | or fs => exact firstBareOf?_eq_none_iff.1 h g hg
  | implies f f' =>
    simp only [firstBare?, Option.orElse_eq_orElse, Option.orElse_eq_or, Option.or_eq_none_iff] at h
    rcases List.mem_cons.1 hg with rfl | hg
    · exact h.1
    · exact List.mem_singleton.1 hg ▸ h.2

theorem Occurs.firstBare? (occurs : f.Occurs above g) (h : f.firstBare? = none) :
    g.firstBare? = none := by
  induction occurs with
  | here => exact h
  | under hg _ ih => exact ih (firstBare?_of_mem_children h hg)

theorem firstBare?_of_mem_conjuncts (h : f.firstBare? = none) (hg : g ∈ f.conjuncts) :
    g.firstBare? = none := by
  induction f with
  | and fs ih =>
    rw [conjuncts, conjunctsOf_eq] at hg
    obtain ⟨f, hf, hg⟩ := List.mem_flatMap.1 hg
    exact ih f hf (firstBareOf?_eq_none_iff.1 h f hf) hg
  | truth | pred | member | not | or | implies | all | any | bare =>
    obtain rfl := List.mem_singleton.1 hg
    exact h

end Rule.Formula

theorem Setting.Explains.exists_occurs {m : Setting} {f : Formula} {env : Bindings} {x : Witness}
    {b : Bool} (explains : m.Explains f env x b) : ∃ above, f.Occurs above x.formula := by
  cases explains with
  | direct located _ _ | negated located _ _ _ _ => exact ⟨_, located.occurs⟩

/-! ### What is told -/

/-- The formulas that are told with a condition that does not hold. -/
def Unmet.named (u : Unmet) : List Formula :=
  u.formula :: (u.witness.map Witness.formula).toList

/-- The formulas that are told with a broken invariant, which itself is told by its name. -/
def Violation.named (v : Violation) : List Formula := (v.witness.map Witness.formula).toList

/-- What a witness of a false formula points to has a text, if the formula has one. -/
theorem print?_of_mem_witness {m : Setting} {f g : Formula} {x : Option Witness}
    (evaluated : m.evaluate f [] = .ok ⟨false, x⟩) (h : f.firstBare? = none)
    (hg : g ∈ (x.map Witness.formula).toList) : g.print? = .ok g.text := by
  rw [Option.mem_toList, Option.map_eq_some_iff] at hg
  obtain ⟨y, hy, rfl⟩ := hg
  obtain ⟨above, occurs⟩ := (Setting.explains_of_evaluate f evaluated hy).exists_occurs
  exact Formula.print?_of_firstBare? (occurs.firstBare? h)

namespace Workflow

variable {w : Workflow} {vocabulary : Vocabulary} {now : Timestamp} {source target : String}
  {s : Snapshot} {p : Project}

/-- **What is loaded is proper**: a text declares closed formulas, and so do the core rules. -/
theorem IsLoaded.isProper (loaded : w.IsLoaded) : w.IsProper := by
  obtain ⟨r, r', text, hload⟩ := loaded
  obtain ⟨d, hparse, hbuild⟩ := Registry.check_eq_ok_iff.1 (Registry.load_eq_ok_iff.1 hload).1
  obtain ⟨decl, single, -, rfl⟩ := buildWorkflow_eq_ok_iff.1 hbuild
  intro f hf
  have closed : f.IsClosed Rule.anyWord := by
    rcases mem_or_core_of_mem_formulas hf with own | ⟨rule, hrule, -, rfl⟩
    · refine Rule.isClosed_of_parse hparse f ?_
      rwa [Rule.Document.sentences, single, List.flatMap_singleton]
    · exact isClosed_core hrule
  exact Formula.firstBare?_eq_none closed.wellFormed

/-- A condition that is told of a rejection is demanded by the definition, and false. -/
theorem exists_of_mem_unmet {r : Rejection} {u : Unmet}
    (h : w.checkTransition vocabulary now source target s = .ok (.reject r)) (hu : u ∈ r.unmet) :
    ∃ f ∈ w.formulas, (u.formula = f ∨ u.formula ∈ f.conjuncts) ∧
      ∃ m : Setting, m.evaluate u.formula [] = .ok ⟨false, u.witness⟩ := by
  cases contract_of_checkTransition h with
  | undeclared | wrongState => cases hu
  | precondition declared _ _ _ joined =>
    obtain ⟨f, hf, told⟩ := List.mem_filterMap.1 hu
    obtain ⟨rfl, evaluated⟩ := Setting.unmet?_eq_some_iff.1 told
    rw [Formula.leaves_iff.1 joined] at hf
    exact ⟨_, (mem_formulas_of_transition declared).1, .inr hf, _, evaluated⟩
  | postcondition declared _ _ _ post =>
    obtain rfl := List.mem_singleton.1 hu
    exact ⟨_, (mem_formulas_of_transition declared).2, .inl rfl, _, post⟩

/-- What is told when a transition of a proper definition may not be taken has a text. -/
theorem IsProper.print?_of_unmet (proper : w.IsProper) {r : Rejection}
    (h : w.checkTransition vocabulary now source target s = .ok (.reject r)) :
    ∀ u ∈ r.unmet, ∀ f ∈ u.named, f.print? = .ok f.text := by
  intro u hu f hf
  obtain ⟨demand, hdemand, part, m, evaluated⟩ := exists_of_mem_unmet h hu
  have whole : u.formula.firstBare? = none := by
    rcases part with same | conjunct
    · exact same ▸ proper demand hdemand
    · exact Formula.firstBare?_of_mem_conjuncts (proper demand hdemand) conjunct
  rcases List.mem_cons.1 hf with rfl | hf
  · exact Formula.print?_of_firstBare? whole
  · exact print?_of_mem_witness evaluated whole hf

/-- A bare leaf need not be met where a formula is evaluated, and yet leaves it without a text. -/
example (m : Setting) :
    (m.evaluate (.not (.or [.truth true, .bare "junk"])) []).map EvalResult.holds = .ok false ∧
      (Formula.not (.or [.truth true, .bare "junk"])).print? = .error "junk" :=
  ⟨rfl, rfl⟩

/-- What is told when invariants of a proper definition are broken has a text. -/
theorem IsProper.print?_of_violation (proper : w.IsProper) {vs : List Violation}
    (h : w.violations vocabulary p = .ok vs) :
    ∀ v ∈ vs, ∀ f ∈ v.named, f.print? = .ok f.text := by
  intro v hv f hf
  obtain ⟨hi, evaluated⟩ := evaluate_of_mem_violationsOf h hv
  exact print?_of_mem_witness evaluated (proper _ (mem_formulas_of_invariant hi)) hf

end Workflow

/-! ### Gates -/

namespace Gate

variable {g : Gate} {h : History} {d : Decision}

/-- What a reference stands for is proper, whether it is held or offered. -/
theorem isProper_of_workflow? (loaded : ∀ w ∈ g.registry.entries, w.IsLoaded) {ref : WorkflowRef}
    {w : Workflow} (reads : g.workflow? ref = .ok w) : w.IsProper := by
  cases ref with
  | held v proper =>
    obtain rfl : v = w := Except.ok.inj reads
    exact proper
  | named name =>
    rw [workflow?] at reads
    cases found : g.registry.find? name with
    | none => simp [found] at reads
    | some v =>
      simp only [found, Except.ok.injEq] at reads
      exact reads ▸ (loaded v (List.mem_of_find?_eq_some found)).isProper

/-- A decision holds a proper workflow. -/
theorem isProper_of_mem (loaded : ∀ w ∈ g.registry.entries, w.IsLoaded)
    (hd : d ∈ (g.fresh.after h).decisions) : d.workflow.IsProper := by
  obtain ⟨kind, before, later, now, ref, -, -, reads⟩ := proposed_of_mem hd
  have offered : ∀ w ∈ g.fresh.registry.entries, w.IsLoaded := loaded
  exact isProper_of_workflow? (fun w hw => isLoaded_of_mem_registry offered hw) reads

/-- **Whatever a gate tells of a decision has a text**, when its registry starts with loaded
workflows: whenever and on whatever project the decision is validated, the conditions that fail have
texts, and so have the formulas that explain why they or the invariants fail. -/
theorem tells_texts (loaded : ∀ w ∈ g.registry.entries, w.IsLoaded)
    (hd : d ∈ (g.fresh.after h).decisions) (vocabulary : Vocabulary) :
    (∀ now source target s r,
      d.workflow.checkTransition vocabulary now source target s = .ok (.reject r) →
        ∀ u ∈ r.unmet, ∀ f ∈ u.named, f.print? = .ok f.text) ∧
    ∀ p vs, d.workflow.violations vocabulary p = .ok vs →
      ∀ v ∈ vs, ∀ f ∈ v.named, f.print? = .ok f.text :=
  have proper := isProper_of_mem loaded hd
  ⟨fun _ _ _ _ _ => proper.print?_of_unmet, fun _ _ => proper.print?_of_violation⟩

end Gate

end ChangeControl
