import ChangeControl.Gate
/-!
The operations of a gate.

A proposal is validated on the snapshot that is current when it arrives, and by the workflow
definition of that moment, which its decision keeps.  What passes is applied at once, except for
critical decisions, which wait until somebody approves, denies or cancels them or the time is up.
When the project has changed in the meantime, an approval validates the proposal again.

Main definitions:

* `WorkflowRef` — a workflow by its name, or a definition that the caller holds;
* `Gate.propose`, `Gate.approve`, `Gate.deny`, `Gate.cancel`, `Gate.wait` — the life of a decision;
* `Gate.load` — loading and reloading workflows;
* `Operation`, `Gate.step`, `Gate.run` — operations as data, one of them and several.

Main statements:

* `Gate.run_append` — running in two parts.
-/

set_option autoImplicit false

namespace ChangeControl

open Calendar (Timestamp)
open Decimal (Binary64)

/-- A workflow that a caller names or holds.  A definition that is held need not come from a text;
but like one that does, it is made of formulas down to their leaves, and of effects of the table. -/
inductive WorkflowRef
  | named (name : String)
  | held (w : Workflow) (proper : w.IsProper := by decide)
deriving DecidableEq, Repr

namespace Gate

/-- The definition that a reference stands for. -/
def workflow? (g : Gate) : WorkflowRef → Except GateError Workflow
  | .held w _ => .ok w
  | .named name =>
    match g.registry.find? name with
    | some w => .ok w
    | none => .error (.unknownWorkflow name)

/-- The validation of a decision's proposal on the current snapshot. -/
def examine (now : Timestamp) (g : Gate) (d : Decision) : Examination :=
  d.workflow.examine g.registry.vocabulary now d.proposal g.store.current

/-! ### Proposals -/

/-- The identifier of the next decision. -/
def nextId (g : Gate) : String := "d" ++ toString (g.issued + 1)

/-- A decision that was just created is validated, and applied, parked or rejected. -/
def validate (now : Timestamp) (g : Gate) (d : Decision) (meanwhile : Option Snapshot) :
    Step Verdict :=
  let current := g.store.current
  match d.advance .validating (Change.base current) with
  | .error e => .fail g (.refused e)
  | .ok d =>
    let g := g.put d
    (g.settle now d (g.examine now d) fun result critical =>
      if d.kind = .critical ∨ critical = true then g.park d result
      else g.applyAfter now meanwhile d result current.version).after
        [Report.validating d current]

/-- Somebody proposes a change.  `meanwhile` is the snapshot that somebody else swaps in just before
the gate does, if there is one. -/
def propose (now : Timestamp) (g : Gate) (ref : WorkflowRef) (submission : Submission)
    (kind : DecisionKind) (meanwhile : Option Snapshot) : Step Verdict :=
  match submission with
  | .foreign data => .fail g (.foreignProposal data)
  | .proposal p =>
    match g.workflow? ref with
    | .error e => .fail g e
    | .ok w =>
      let d := Decision.new g.nextId w p kind
      validate now { g.put d with issued := g.issued + 1 } d meanwhile

/-! ### Approvals -/

/-- The result of a decision, if nothing has changed since it was validated. -/
def cached? (d : Decision) (current : Snapshot) : Option Snapshot :=
  if d.baseVersion.map Version.toInt = some current.version.toInt then d.result else none

/-- Somebody approves a decision. -/
def approve (now : Timestamp) (g : Gate) (id : String) (approver : Option String)
    (meanwhile : Option Snapshot) : Step Verdict :=
  match g.pending "approve" id with
  | .error e => .fail g e
  | .ok d =>
    let d := d.change [.approval (some .approved), .approver approver]
    let g := g.put d
    let current := g.store.current
    Step.after
      (match cached? d current with
      | some result => g.applyAfter now meanwhile d result current.version
      | none =>
        g.settle now d (g.examine now d) fun result _ =>
          g.applyAfter now meanwhile d result current.version)
      [Report.approved d approver]

/-- Somebody denies a decision. -/
def deny (now : Timestamp) (g : Gate) (id : String) (approver : Option String) (reason : String) :
    Step Verdict :=
  match g.pending "deny" id with
  | .error e => .fail g e
  | .ok d =>
    (g.reject now d ["denied by " ++ approver.getD "None" ++ ": " ++ reason]
      [.approval (some .denied), .approver approver]).after [Report.denied d approver]

/-- Whoever asked for a decision does not want it any more. -/
def cancel (now : Timestamp) (g : Gate) (id reason : String) : Step Verdict :=
  match g.pending "cancel" id with
  | .error e => .fail g e
  | .ok d => g.reject now d [reason] []

/-- The longest time that can be waited for, in nanoseconds: with the next one of 64 bits, the sum
would not fit. -/
def longestWait : Nat := 9223372036854775296

/-- Why data is no length of time that can be waited for. -/
def timeoutFault? : Json → Option GateError
  | .int n =>
    if (Binary64.ofInt n).isFinite = false ∨ longestWait ≤ n * 1000000000 then
      some .timeoutTooLarge
    else none
  | .bool _ => none
  | .real (.finite negative mantissa exponent) =>
    let (num, den) := Binary64.ratio mantissa exponent
    if negative = false ∧ longestWait * den ≤ num * 1000000000 then some .timeoutTooLarge else none
  | .real (.infinite negative) => if negative then none else some .timeoutTooLarge
  | .real .undefined => none
  | .null | .str _ | .arr _ | .obj _ => some .timeoutNotNumber

/-- The limit of a wait: the one that is given, or else the one of the gate.  A time that is not a
number is never up, so that it limits nothing. -/
def limit? (g : Gate) (timeout : Option Json) : Option Json :=
  match timeout.or (g.timeout.map .real) with
  | some (.real .undefined) => none
  | t => t

/-- Somebody waits for a decision.  If it still waits for an approval when the time is up, it is
rejected; without a limit, nothing happens to it. -/
def wait (now : Timestamp) (g : Gate) (id : String) (timeout : Option Json) : Step Verdict :=
  match g.find? id with
  | none => .fail g (.unknownDecision id)
  | some d =>
    match g.limit? timeout with
    | none => .answer g d.verdict
    | some t =>
      if d.stage.isTerminal then .answer g d.verdict
      else
        match timeoutFault? t with
        | some e => .fail g e
        | none =>
          if d.stage = .pendingApproval then
            (g.reject now d ["approval timed out after " ++ t.display ++ "s"] []).after
              [Report.timedOut d t]
          else .answer g d.verdict

/-! ### Workflows, snapshots and verdicts -/

/-- A workflow is loaded, in the place of an earlier definition if there is one. -/
def load (g : Gate) (text : String) : Step Workflow :=
  match g.registry.load text with
  | .error e => .fail g (.load e)
  | .ok (registry, w) =>
    ⟨{ g with registry := registry }, .ok w,
      [Report.workflowLoaded w (g.registry.find? w.name).isSome]⟩

/-- The verdict of a decision. -/
def verdict (g : Gate) (id : String) : Except GateError Verdict :=
  match g.find? id with
  | none => .error (.unknownDecision id)
  | some d => .ok d.verdict

/-- The invariants of a workflow that the current snapshot breaks. -/
def checkInvariants (g : Gate) (ref : WorkflowRef) : Step (List Violation) :=
  match g.workflow? ref with
  | .error e => .fail g e
  | .ok w =>
    match w.violations g.registry.vocabulary g.store.current.project with
    | .error e => .fail g (.evaluation e)
    | .ok vs => ⟨g, .ok vs, Report.violations w g.store.current vs⟩

end Gate

/-! ### Operations as data -/

/-- An operation on a gate that nobody interferes with. -/
inductive Operation
  | propose (ref : WorkflowRef) (submission : Submission) (kind : DecisionKind)
  | approve (id : String) (approver : Option String)
  | deny (id : String) (approver : Option String) (reason : String)
  | cancel (id reason : String)
  | wait (id : String) (timeout : Option Json)
  | load (text : String)
deriving Repr

/-- The answer to an operation. -/
inductive Reply
  | verdict (v : Verdict)
  | loaded (w : Workflow)
deriving DecidableEq, Repr

namespace Gate

/-- One operation at the moment `now`. -/
def step (now : Timestamp) (g : Gate) : Operation → Step Reply
  | .propose ref submission kind => (g.propose now ref submission kind none).map .verdict
  | .approve id approver => (g.approve now id approver none).map .verdict
  | .deny id approver reason => (g.deny now id approver reason).map .verdict
  | .cancel id reason => (g.cancel now id reason).map .verdict
  | .wait id timeout => (g.wait now id timeout).map .verdict
  | .load text => (g.load text).map .loaded

/-- The gate after some operations, whether they end in an error or not. -/
def run (now : Timestamp) (g : Gate) (operations : List Operation) : Gate :=
  operations.foldl (fun g o => (g.step now o).gate) g

theorem run_append (now : Timestamp) (g : Gate) (first second : List Operation) :
    g.run now (first ++ second) = (g.run now first).run now second :=
  List.foldl_append

end Gate

end ChangeControl
