import ChangeControl.Gate.Audit
import ChangeControl.Gate.Examination
import ChangeControl.Workflow.Registry
/-!
The gate.

A gate is the only way by which a project changes.  It holds the loaded workflows, the store with
the current snapshot, the audit log, the files of both, and every decision that was asked for.  An
operation on a gate gives the gate afterwards, a reply, and the events on the way; an operation
that ends in an error gives the gate as it is then.

Main definitions:

* `Gate`, `Gate.find?`, `Gate.pending` — a gate and its decisions;
* `GateError` — why an operation ends in an error, with `GateError.message`;
* `Step` — what an operation gives;
* `Gate.conclude`, `Gate.finish` — a decision is made, and leaves its audit record;
* `Gate.swap` — another snapshot becomes the current one;
* `Gate.reject`, `Gate.apply` — the two ways to make a decision;
* `Gate.settle` — what follows from the validation of a proposal.

Main statements:

* `Gate.find?_put_self`, `Gate.find?_put_of_ne` — looking up a decision after putting one.
-/

set_option autoImplicit false

namespace ChangeControl

open Calendar (Timestamp)
open Decimal (Binary64)
open Log (Event)
open Storage (Disk SwapError)

/-- A gate. -/
structure Gate where
  registry : Registry
  store : Store
  audit : AuditLog
  disk : Disk
  /-- How many seconds a critical decision may wait when nothing else is said. -/
  timeout : Option Binary64
  /-- The decisions, the oldest first. -/
  decisions : List Decision
  /-- How many decisions have got an identifier so far. -/
  issued : Nat
deriving DecidableEq, Repr

/-- Why an operation ends in an error. -/
inductive GateError
  /-- Something arrived that is no proposal. -/
  | foreignProposal (data : Json)
  | unknownWorkflow (name : String)
  | unknownDecision (id : String)
  /-- The decision does not wait for an approval. -/
  | notPending (operation id : String) (stage : Stage)
  | refused (r : Decision.Refusal)
  | evaluation (e : EvalError)
  | load (e : LoadFailure)
  | swap (e : SwapError)
  /-- The audit log cannot be written. -/
  | storage (e : Storage.Fault)
  /-- Something that is no number is given as a length of time. -/
  | timeoutNotNumber
  /-- A length of time is larger than can be waited for. -/
  | timeoutTooLarge
deriving Repr

/-- One sentence on a text that is not loaded. -/
def LoadFailure.message : LoadFailure → String
  | unparsed e => e.message
  | inconsistent e => e.message

/-- One sentence on the error. -/
def GateError.message : GateError → String
  | foreignProposal data => unsupportedProposal data
  | unknownWorkflow name => ChangeControl.unknownWorkflow name
  | unknownDecision id => "Unknown decision: " ++ id
  | notPending operation id stage =>
    "Cannot " ++ operation ++ " decision " ++ id ++ " in state " ++ stage.name
  | refused r => r.message
  | evaluation e => e.message
  | load e => e.message
  | swap e => e.message
  | storage e => e.message
  | timeoutNotNumber | timeoutTooLarge => ""

/-- What an operation gives. -/
structure Step (α : Type) where
  /-- The gate afterwards. -/
  gate : Gate
  reply : Except GateError α
  /-- What is told to the log, in its order. -/
  events : List Event
deriving Repr

namespace Step

variable {α β : Type}

/-- An operation that ends in an error and changes nothing. -/
def fail (g : Gate) (e : GateError) : Step α := ⟨g, .error e, []⟩

/-- An operation that only answers. -/
def answer (g : Gate) (x : α) : Step α := ⟨g, .ok x, []⟩

/-- The operation, with events in front of its own. -/
def after (s : Step α) (events : List Event) : Step α := { s with events := events ++ s.events }

/-- The operation, with its answer turned into another one. -/
def map (f : α → β) (s : Step α) : Step β :=
  ⟨s.gate, match s.reply with
    | .ok x => .ok (f x)
    | .error e => .error e, s.events⟩

/-- The operation, with an error in the place of its answer. -/
def butFails (s : Step α) (e : GateError) : Step β :=
  ⟨s.gate, match s.reply with
    | .ok _ => .error e
    | .error f => .error f, s.events⟩

@[simp] theorem gate_fail (g : Gate) (e : GateError) : (fail g e : Step α).gate = g := rfl

@[simp] theorem gate_answer (g : Gate) (x : α) : (answer g x).gate = g := rfl

@[simp] theorem gate_after (s : Step α) (events : List Event) : (s.after events).gate = s.gate :=
  rfl

@[simp] theorem reply_after (s : Step α) (events : List Event) :
    (s.after events).reply = s.reply := rfl

@[simp] theorem gate_map (f : α → β) (s : Step α) : (s.map f).gate = s.gate := rfl

@[simp] theorem gate_butFails (s : Step α) (e : GateError) :
    (s.butFails e : Step β).gate = s.gate := rfl

end Step

namespace Gate

/-! ### Decisions -/

/-- The decision with an identifier. -/
def find? (g : Gate) (id : String) : Option Decision := g.decisions.find? fun d => d.id == id

/-- The decisions that wait for an approval. -/
def waiting (g : Gate) : List Decision := g.decisions.filter fun d => d.stage == .pendingApproval

/-- `d` in the place of the decision with its identifier, or last. -/
def putIn (d : Decision) : List Decision → List Decision
  | [] => [d]
  | e :: es => if e.id = d.id then d :: es else e :: putIn d es

/-- The gate with a decision put in its place. -/
def put (g : Gate) (d : Decision) : Gate := { g with decisions := putIn d g.decisions }

theorem find?_put_self (g : Gate) (d : Decision) : (g.put d).find? d.id = some d := by
  unfold put find?
  simp only
  induction g.decisions with
  | nil => simp [putIn]
  | cons e es ih => by_cases h : e.id = d.id <;> simp [putIn, h, ih]

theorem find?_put_of_ne (g : Gate) (d : Decision) {id : String} (ne : id ≠ d.id) :
    (g.put d).find? id = g.find? id := by
  unfold put find?
  simp only
  induction g.decisions with
  | nil => simp [putIn, ne.symm]
  | cons e es ih =>
    by_cases h : e.id = d.id
    · simp [putIn, h, ne.symm]
    · by_cases h' : e.id = id <;> simp_all [putIn]

/-- The decision with an identifier, if it waits for an approval. -/
def pending (g : Gate) (operation id : String) : Except GateError Decision :=
  match g.find? id with
  | none => .error (.unknownDecision id)
  | some d =>
    if d.stage = .pendingApproval then .ok d else .error (.notPending operation id d.stage)

/-! ### Making decisions -/

/-- The audit record of a decision that is made at the moment `now`. -/
def auditRecord (now : Timestamp) (d : Decision) : AuditRecord where
  decisionId := d.id
  workflow := d.workflow.name
  action := d.proposal.describe
  kind := d.kind.name
  verdict := d.stage.name
  timestamp := now.text
  approver := d.approver
  reasons := d.reasons
  baseDigest := d.baseDigest
  resultDigest := if d.stage = .applied then d.result.map Snapshot.digest else none

/-- The gate with a decision moved to its last stage and recorded, the decision, and the fault if
the record is not written. -/
def conclude (now : Timestamp) (g : Gate) (d : Decision) (target : Stage) (changes : List Change) :
    Except Decision.Refusal (Gate × Decision × Option Storage.Fault) :=
  match d.advance target changes with
  | .error e => .error e
  | .ok d =>
    let (audit, disk, fault) := g.audit.append g.disk (auditRecord now d)
    .ok ({ g.put d with audit := audit, disk := disk }, d, fault)

/-- A decision is made.  If its record is not written, that is the answer, and the event is not
told. -/
def finish (now : Timestamp) (g : Gate) (d : Decision) (target : Stage) (changes : List Change)
    (event : Decision → Event) : Step Verdict :=
  match g.conclude now d target changes with
  | .error e => .fail g (.refused e)
  | .ok (g, _, some e) => .fail g (.storage e)
  | .ok (g, d, none) => ⟨g, .ok d.verdict, [event d]⟩

/-- A decision is rejected for some reasons. -/
def reject (now : Timestamp) (g : Gate) (d : Decision) (reasons : List String)
    (changes : List Change) : Step Verdict :=
  g.finish now d .rejected (changes ++ [.reasons reasons]) Report.rejected

/-- The current snapshot is swapped for another one. -/
def swap (g : Gate) (next : Snapshot) (expected : Json) : Step Snapshot :=
  match g.store.swap g.disk next expected with
  | (.error e, disk) => .fail { g with disk := disk } (.swap e)
  | (.ok store, disk) =>
    ⟨{ g with store := store, disk := disk }, .ok next, [Report.snapshotSwapped next]⟩

/-- The store with a snapshot swapped in from elsewhere, with the right expected version. -/
def intrude (g : Gate) (meanwhile : Option Snapshot) : Step Unit :=
  match meanwhile with
  | none => .answer g ()
  | some s => (g.swap s g.store.current.version.toJson).map fun _ => ()

/-- A decision is applied: its result becomes the current snapshot.  If the version that it was
validated on is not current any more, the decision is rejected; if the snapshot cannot be written,
the decision stays as it is. -/
def apply (now : Timestamp) (g : Gate) (d : Decision) (result : Snapshot) (expected : Version) :
    Step Verdict :=
  let swapped := g.swap result expected.toJson
  Step.after
    (match swapped.reply with
    | .error (.swap (.stale expected current)) =>
      let why := (SwapError.stale expected current).message
      swapped.gate.reject now d ["project changed while applying: " ++ why] []
    | .error e => .fail swapped.gate e
    | .ok _ =>
      swapped.gate.finish now d .applied [.result (some result)] fun d => Report.applied d result)
    swapped.events

/-- A decision is applied after somebody else may have swapped in a snapshot. -/
def applyAfter (now : Timestamp) (g : Gate) (meanwhile : Option Snapshot) (d : Decision)
    (result : Snapshot) (expected : Version) : Step Verdict :=
  let intruded := g.intrude meanwhile
  Step.after
    (match intruded.reply with
    | .error e => .fail intruded.gate e
    | .ok () => intruded.gate.apply now d result expected)
    intruded.events

/-- A decision waits for an approval of its result. -/
def park (g : Gate) (d : Decision) (result : Snapshot) : Step Verdict :=
  match d.advance .pendingApproval
      [.kind .critical, .approval (some .pending), .result (some result)] with
  | .error e => .fail g (.refused e)
  | .ok d => ⟨g.put d, .ok d.verdict, [Report.awaitingApproval d]⟩

/-- What follows from the validation of a decision's proposal: rejection, or what `passed` makes of
its result. -/
def settle (now : Timestamp) (g : Gate) (d : Decision) (x : Examination)
    (passed : Snapshot → Bool → Step Verdict) : Step Verdict :=
  Step.after
    (match x.finding with
    | .error e =>
      (g.reject now d ["evaluation error: " ++ e.message] []).butFails (.evaluation e)
    | .ok (.failed reasons) => g.reject now d reasons []
    | .ok (.passed result critical) => passed result critical)
    x.events

end Gate

end ChangeControl
