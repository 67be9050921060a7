import ChangeControl.Project.Effect
import ChangeControl.Rule.Document
import ChangeControl.Rule.Formula.Printer
import ChangeControl.Snapshot
/-!
Workflow definitions.

Main definitions:

* `Transition` — a declared move between states, and `Transition.apply`, the snapshot it leads to;
* `Invariant` — a rule that every applied snapshot satisfies;
* `Workflow` — states, transitions and invariants, and `Workflow.transition?` between two states;
* `Workflow.formulas`, `Workflow.IsProper` — everything that a workflow demands, when all of it can
  be written down.
-/

set_option autoImplicit false

namespace ChangeControl

open Calendar (Timestamp)
open Rule (Formula Kind)

/-- A declared move of a project from one state to another. -/
structure Transition where
  source : String
  target : String
  precondition : Formula
  postcondition : Formula
  effects : List Effect
  /-- The move needs an approval. -/
  critical : Bool
deriving DecidableEq, Repr

/-- A rule about every applied snapshot. -/
structure Invariant where
  name : String
  formula : Formula
  kind : Kind
deriving DecidableEq, Repr

/-- A workflow definition.  What is loaded is checked before. -/
structure Workflow where
  name : String
  states : List String
  transitions : List Transition
  invariants : List Invariant
  parameters : List String
deriving DecidableEq, Repr

namespace Transition

/-- The two ends of a transition. -/
def text (t : Transition) : String := t.source ++ " -> " ++ t.target

/-- The project after the transition: in the target state, and changed by the effects in their
order. -/
def applyProject (t : Transition) (p : Project) : Project :=
  Effect.applyAll t.effects (p.withState t.target)

/-- The snapshot that a transition leads to. -/
def apply (now : Timestamp) (t : Transition) (s : Snapshot) : Snapshot :=
  s.evolve now (t.applyProject s.project)

end Transition

/-- The first transition between two states. -/
def Workflow.transition? (w : Workflow) (source target : String) : Option Transition :=
  w.transitions.find? fun t => t.source == source && t.target == target

theorem Workflow.mem_of_transition? {w : Workflow} {source target : String} {t : Transition}
    (found : w.transition? source target = some t) :
    t ∈ w.transitions ∧ t.source = source ∧ t.target = target :=
  ⟨List.mem_of_find?_eq_some found, by simpa using List.find?_some found⟩

/-- What is demanded before and after the transitions, and of every snapshot. -/
def Workflow.formulas (w : Workflow) : List Formula :=
  w.transitions.flatMap (fun t => [t.precondition, t.postcondition]) ++
    w.invariants.map Invariant.formula

theorem Workflow.mem_formulas_of_transition {w : Workflow} {t : Transition}
    (ht : t ∈ w.transitions) : t.precondition ∈ w.formulas ∧ t.postcondition ∈ w.formulas :=
  ⟨List.mem_append_left _ (List.mem_flatMap.2 ⟨t, ht, List.mem_cons_self⟩),
    List.mem_append_left _ (List.mem_flatMap.2 ⟨t, ht, List.mem_cons_of_mem _ List.mem_cons_self⟩)⟩

theorem Workflow.mem_formulas_of_invariant {w : Workflow} {i : Invariant}
    (hi : i ∈ w.invariants) : i.formula ∈ w.formulas :=
  List.mem_append_right _ (List.mem_map_of_mem hi)

/-- No formula of the definition has a bare leaf, so that each one has a rule text.  What is loaded
is always proper; a definition put together by hand need not be. -/
def Workflow.IsProper (w : Workflow) : Prop := ∀ f ∈ w.formulas, f.firstBare? = none

instance (w : Workflow) : Decidable w.IsProper :=
  inferInstanceAs (Decidable (∀ f ∈ w.formulas, f.firstBare? = none))

end ChangeControl
