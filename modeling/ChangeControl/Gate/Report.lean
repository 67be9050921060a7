import ChangeControl.Gate.Decision
import ChangeControl.Log.Record
import ChangeControl.Storage.Disk
import ChangeControl.Storage.Path
import ChangeControl.Validation
/-!
What a gate tells the log.

Main definitions:

* `Report.workflowLoaded` and the functions after it — the events, one for each thing that can
  happen.
-/

set_option autoImplicit false

namespace ChangeControl.Report

open Log (Event)
open Storage (Path)

/-- An event of the registry. -/
def ofRegistry (message : String) (context : List (String × Json)) : Event :=
  ⟨"workflow_gate.rules.registry", Log.info, message, context⟩

/-- An event of the store. -/
def ofStore (level : Int) (message : String) (context : List (String × Json)) : Event :=
  ⟨"workflow_gate.model.store", level, message, context⟩

/-- An event of the check of transitions. -/
def ofTransitions (level : Int) (message : String) (context : List (String × Json)) : Event :=
  ⟨"workflow_gate.engine.validator", level, message, context⟩

/-- An event of the gate about a decision. -/
def ofDecision (level : Int) (message id : String) (context : List (String × Json)) : Event :=
  ⟨"workflow_gate.gate.decision_gate", level, message, ("decision_id", .str id) :: context⟩

/-- Several texts as data. -/
def texts (ts : List String) : Json := .arr (ts.map .str)

/-- A number of things as data. -/
def count {α : Type} (xs : List α) : Json := .int xs.length

/-! ### Registry and store -/

/-- A workflow is published, in the place of another one or not. -/
def workflowLoaded (w : Workflow) (replaced : Bool) : Event :=
  ofRegistry "Workflow loaded"
    [("workflow", .str w.name), ("states", count w.states), ("transitions", count w.transitions),
      ("invariants", count w.invariants), ("replaced", .bool replaced)]

/-- A store starts from its file. -/
def snapshotLoaded (path : Path) (s : Snapshot) : Event :=
  ofStore Log.info "Snapshot loaded"
    [("path", .str path.text), ("version", s.version.toJson)]

/-- A snapshot becomes the current one. -/
def snapshotSwapped (s : Snapshot) : Event :=
  ofStore Log.debug "Snapshot swapped"
    [("version", s.version.toJson), ("digest", .str s.digest)]

/-! ### Checks -/

/-- What the check of a transition tells: conditions that fail, and a workflow at fault. -/
def rejection (w : Workflow) (source target : String) : Rejection → List Event
  | .precondition unmet =>
    [ofTransitions Log.info "Transition precondition unmet"
      [("workflow", .str w.name), ("transition", .str (source ++ " -> " ++ target)),
        ("unmet", texts (unmet.map fun u => u.formula.text))]]
  | .postcondition t _ =>
    [ofTransitions Log.warning "Transition postcondition cannot hold"
      [("workflow", .str w.name), ("transition", .str t.text)]]
  | .undeclared | .wrongState .. => []

/-- What the check of the invariants on a snapshot tells: those that are broken. -/
def violations (w : Workflow) (s : Snapshot) : List Violation → List Event
  | [] => []
  | vs =>
    [⟨"workflow_gate.engine.invariants", Log.info, "Invariants violated",
      [("workflow", .str w.name), ("version", s.version.toJson),
        ("violations", texts (vs.map fun v => v.invariant.name))]⟩]

/-! ### Decisions -/

/-- The action of a decision as a field. -/
def action (d : Decision) : String × Json := ("action", .str d.proposal.describe)

/-- A name that may be absent, as a field. -/
def approver (name : Option String) : String × Json :=
  ("approver", match name with
    | none => .null
    | some s => .str s)

/-- A proposal is validated. -/
def validating (d : Decision) (s : Snapshot) : Event :=
  ofDecision Log.info "Decision validating" d.id
    [("workflow", .str d.workflow.name), action d, ("version", s.version.toJson)]

/-- A decision waits for a person. -/
def awaitingApproval (d : Decision) : Event :=
  ofDecision Log.info "Decision awaiting approval" d.id [action d]

/-- A person approves. -/
def approved (d : Decision) (name : Option String) : Event :=
  ofDecision Log.info "Decision approved" d.id [approver name]

/-- A person denies. -/
def denied (d : Decision) (name : Option String) : Event :=
  ofDecision Log.info "Decision denied" d.id [approver name]

/-- Nobody approved in time. -/
def timedOut (d : Decision) (seconds : Json) : Event :=
  ofDecision Log.warning "Approval timed out" d.id [("timeout_seconds", seconds)]

/-- A proposal is applied and leads to the snapshot `s`. -/
def applied (d : Decision) (s : Snapshot) : Event :=
  ofDecision Log.info "Decision applied" d.id
    [action d, ("version", s.version.toJson), approver d.approver]

/-- A proposal is rejected. -/
def rejected (d : Decision) : Event :=
  ofDecision Log.info "Decision rejected" d.id [action d, ("reasons", texts d.reasons)]

end ChangeControl.Report
