import ChangeControl.Gate.Report
/-!
Validating a proposal.

A proposal is validated on a snapshot, by a workflow definition.  A transition must be allowed by
its contract, a commit must be new and may only undo one that is there, and the snapshot that the
proposal leads to must satisfy every invariant.

Main definitions:

* `Finding` — what validation finds;
* `Examination` — the same, or an error of evaluation, with the events on the way;
* `Workflow.examine` — the validation of a proposal.
-/

set_option autoImplicit false

namespace ChangeControl

open Calendar (Timestamp)
open Log (Event)

/-- What the validation of a proposal finds. -/
inductive Finding
  /-- The proposal may be applied; it leads to this snapshot, and is declared critical or not. -/
  | passed (result : Snapshot) (critical : Bool)
  | failed (reasons : List String)
deriving DecidableEq, Repr

/-- A validation with the events on the way. -/
structure Examination where
  finding : Except EvalError Finding
  events : List Event
deriving Repr

namespace Workflow

/-- Whether the snapshot that a proposal leads to satisfies the invariants. -/
def examineResult (w : Workflow) (vocabulary : Vocabulary) (result : Snapshot) (critical : Bool) :
    Examination :=
  match w.violations vocabulary result.project with
  | .error e => ⟨.error e, []⟩
  | .ok [] => ⟨.ok (.passed result critical), []⟩
  | .ok (v :: vs) =>
    ⟨.ok (.failed ((v :: vs).map Violation.describe)), Report.violations w result (v :: vs)⟩

/-- The transition between two states is declared critical. -/
def isCritical (w : Workflow) (source target : String) : Bool :=
  match w.transition? source target with
  | none => false
  | some t => t.critical

/-- The validation of a transition. -/
def examineTransition (w : Workflow) (vocabulary : Vocabulary) (now : Timestamp)
    (source target : String) (s : Snapshot) : Examination :=
  match w.checkTransition vocabulary now source target s with
  | .error e => ⟨.error e, []⟩
  | .ok (.reject r) => ⟨.ok (.failed r.reasons), Report.rejection w source target r⟩
  | .ok (.accept after) => w.examineResult vocabulary after (w.isCritical source target)

/-- The validation of a new commit. -/
def examineCommit (w : Workflow) (vocabulary : Vocabulary) (now : Timestamp) (c : NewCommit)
    (s : Snapshot) : Examination :=
  match c.apply now s with
  | .error _ => ⟨.ok (.failed ["commit " ++ Text.quote c.id ++ " already exists"]), []⟩
  | .ok after =>
    match c.reverts with
    | none => w.examineResult vocabulary after false
    | some undone =>
      if (s.project.commit? undone).isSome then w.examineResult vocabulary after false
      else ⟨.ok (.failed ["commit " ++ Text.quote undone ++ " to revert does not exist"]), []⟩

/-- The validation of a proposal on a snapshot. -/
def examine (w : Workflow) (vocabulary : Vocabulary) (now : Timestamp) (p : Proposal)
    (s : Snapshot) : Examination :=
  match p with
  | .transition source target => w.examineTransition vocabulary now source target s
  | .taskMove m => w.examineResult vocabulary (m.apply now s) false
  | .commit c => w.examineCommit vocabulary now c s

end Workflow

end ChangeControl
