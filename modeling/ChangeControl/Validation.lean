import ChangeControl.Evaluation.Evaluator
import ChangeControl.Workflow
/-!
Checking a proposed change against a workflow.

A transition may be taken when it is declared, the project is in its source state, every conjunct of
its precondition holds, and its postcondition holds on the snapshot it leads to.  A postcondition
that fails is a defect of the workflow and not of the proposal.  Invariants are checked on the
snapshot that a change would make current, never on the way to it.

Main definitions:

* `Workflow.setting` — what the formulas of a workflow are evaluated against;
* `Unmet`, `Rejection`, `Outcome` — what the check of a transition finds;
* `Workflow.checkTransition` — the check of a transition;
* `Violation`, `Workflow.violations` — the invariants that a project breaks.
-/

set_option autoImplicit false

namespace ChangeControl

open Calendar (Timestamp)
open Rule (Formula Kind)

/-- What the formulas of a workflow are evaluated against. -/
def Workflow.setting (w : Workflow) (vocabulary : Vocabulary) (p : Project) : Setting :=
  ⟨p, w.states, vocabulary⟩

/-- A condition that does not hold. -/
structure Unmet where
  formula : Formula
  witness : Option Witness
deriving DecidableEq, Repr

/-- The condition, and the counterexample where that says more. -/
def Unmet.describe (u : Unmet) : String :=
  let condition := "`" ++ u.formula.text ++ "`"
  match u.witness with
  | none => condition
  | some w =>
    if w.formula = u.formula ∧ w.bindings.isEmpty then condition
    else condition ++ " (counterexample " ++ w.describe ++ ")"

/-- Why a transition may not be taken. -/
inductive Rejection
  /-- No such transition is declared. -/
  | undeclared
  /-- The project is not in the source state. -/
  | wrongState (actual source : String)
  /-- Conjuncts of the precondition fail. -/
  | precondition (unmet : List Unmet)
  /-- The postcondition fails. -/
  | postcondition (transition : Transition) (unmet : Unmet)
deriving DecidableEq, Repr

namespace Rejection

/-- The name of the kind of rejection. -/
def kind : Rejection → String
  | undeclared => "no_such_transition"
  | wrongState .. => "wrong_source_state"
  | precondition _ => "precondition_unmet"
  | postcondition .. => "postcondition_unsatisfiable"

/-- One sentence on the rejection. -/
def reason : Rejection → String
  | undeclared => "no such transition declared"
  | wrongState actual source =>
    "project is in state " ++ Text.quote actual ++ ", not " ++ Text.quote source
  | precondition _ => "precondition unmet"
  | postcondition t _ => "postcondition of " ++ t.text ++ " fails after applying it"

/-- The conditions that do not hold. -/
def unmet : Rejection → List Unmet
  | undeclared | wrongState .. => []
  | precondition us => us
  | postcondition _ u => [u]

/-- The workflow is at fault, and not the proposal. -/
def isDefect : Rejection → Bool
  | postcondition .. => true
  | undeclared | wrongState .. | precondition _ => false

/-- The reasons to give: one for each condition, or the sentence alone. -/
def reasons (r : Rejection) : List String :=
  if r.unmet.isEmpty then [r.reason]
  else r.unmet.map fun u => r.reason ++ ": " ++ u.describe

end Rejection

/-- What the check of a transition finds. -/
inductive Outcome
  /-- The transition may be taken, and leads to this snapshot. -/
  | accept (after : Snapshot)
  | reject (rejection : Rejection)
deriving DecidableEq, Repr

/-- The conditions among `fs` that fail, each with its witness. -/
def unmetOf (m : Setting) : List Formula → Except EvalError (List Unmet)
  | [] => .ok []
  | f :: fs =>
    match m.evaluate f [] with
    | .error e => .error e
    | .ok r =>
      match unmetOf m fs with
      | .error e => .error e
      | .ok us => .ok (if r.holds then us else ⟨f, r.witness⟩ :: us)

namespace Workflow

/-- Whether the transition from `source` to `target` may be taken from the snapshot `s`. -/
def checkTransition (w : Workflow) (vocabulary : Vocabulary) (now : Timestamp)
    (source target : String) (s : Snapshot) : Except EvalError Outcome :=
  match w.transition? source target with
  | none => .ok (.reject .undeclared)
  | some t =>
    if s.project.state = source then
      match unmetOf (w.setting vocabulary s.project) t.precondition.conjuncts with
      | .error e => .error e
      | .ok (u :: us) => .ok (.reject (.precondition (u :: us)))
      | .ok [] =>
        let after := t.apply now s
        match (w.setting vocabulary after.project).evaluate t.postcondition [] with
        | .error e => .error e
        | .ok r =>
          if r.holds then .ok (.accept after)
          else .ok (.reject (.postcondition t ⟨t.postcondition, r.witness⟩))
    else .ok (.reject (.wrongState s.project.state source))

end Workflow

/-- An invariant that does not hold. -/
structure Violation where
  invariant : Invariant
  witness : Option Witness
deriving DecidableEq, Repr

/-- The invariant by its kind and name, and the counterexample if there is one. -/
def Violation.describe (v : Violation) : String :=
  v.invariant.kind.word ++ " " ++ Text.quote v.invariant.name ++ " violated" ++
    match v.witness with
    | none => ""
    | some w => " (counterexample " ++ w.describe ++ ")"

/-- The invariants among `is` that fail, each with its witness. -/
def violationsOf (m : Setting) : List Invariant → Except EvalError (List Violation)
  | [] => .ok []
  | i :: is =>
    match m.evaluate i.formula [] with
    | .error e => .error e
    | .ok r =>
      match violationsOf m is with
      | .error e => .error e
      | .ok vs => .ok (if r.holds then vs else ⟨i, r.witness⟩ :: vs)

/-- The invariants of a workflow that a project breaks. -/
def Workflow.violations (w : Workflow) (vocabulary : Vocabulary) (p : Project) :
    Except EvalError (List Violation) :=
  violationsOf (w.setting vocabulary p) w.invariants

end ChangeControl
