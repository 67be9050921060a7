import ChangeControl.Gate.Proposal
import ChangeControl.Workflow
/-!
Decisions about proposals.

A decision goes through stages, and `Decision.advance` is the only way from one to another: it
refuses every move that the lifecycle does not have, and it refuses to apply a critical decision
without an approval.

Main definitions:

* `Stage`, `Stage.next` — the stages and the lifecycle;
* `DecisionKind`, `Approval`, `Decision` — what is known of a decision;
* `Change`, `Decision.change` — what may change beside the stage;
* `Change.keepsSubject` — the changes after which a decision is about the same;
* `Decision.advance` — the move to another stage;
* `Verdict`, `Decision.verdict` — what a decision amounts to.

Main statements:

* `Decision.subject_change` — what such changes leave as it is;
* `Decision.advance_eq_ok_iff` — the moves that are made;
* `Decision.approval_of_advance_applied` — a critical decision is applied only with an approval.
-/

set_option autoImplicit false

namespace ChangeControl

/-! ### Stages -/

/-- Where a decision stands. -/
inductive Stage
  | proposed | validating | pendingApproval | applied | rejected
deriving DecidableEq, Repr

namespace Stage

/-- The written name of a stage. -/
def name : Stage → String
  | proposed => "proposed"
  | validating => "validating"
  | pendingApproval => "pending_approval"
  | applied => "applied"
  | rejected => "rejected"

/-- The stage with a written name. -/
def ofName? (name : String) : Option Stage :=
  if name = "proposed" then some .proposed
  else if name = "validating" then some .validating
  else if name = "pending_approval" then some .pendingApproval
  else if name = "applied" then some .applied
  else if name = "rejected" then some .rejected
  else none

@[simp] theorem ofName?_name (s : Stage) : ofName? s.name = some s := by
  cases s <;> rfl

/-- The stages that may come next. -/
def next : Stage → List Stage
  | proposed => [.validating]
  | validating => [.rejected, .pendingApproval, .applied]
  | pendingApproval => [.applied, .rejected]
  | applied | rejected => []

/-- The decision is made. -/
def isTerminal : Stage → Bool
  | applied | rejected => true
  | proposed | validating | pendingApproval => false

theorem isTerminal_iff (s : Stage) : s.isTerminal = true ↔ s.next = [] := by
  cases s <;> simp [isTerminal, next]

end Stage

/-- Data in the place of a stage's name that is none. -/
def notStage (data : Json) : String := data.inspect ++ " is not a valid GateState"

/-! ### Decisions -/

/-- Whether a person must approve. -/
inductive DecisionKind
  | critical | routine
deriving DecidableEq, Repr

namespace DecisionKind

/-- The written name of a kind. -/
def name : DecisionKind → String
  | critical => "critical"
  | routine => "routine"

/-- The kind with a written name. -/
def ofName? (name : String) : Option DecisionKind :=
  if name = "critical" then some .critical
  else if name = "routine" then some .routine
  else none

@[simp] theorem ofName?_name (k : DecisionKind) : ofName? k.name = some k := by
  cases k <;> rfl

end DecisionKind

/-- Data in the place of a kind's name that is none. -/
def notDecisionKind (data : Json) : String := data.inspect ++ " is not a valid DecisionKind"

/-- How far the approval of a critical decision has come. -/
inductive Approval
  | pending | approved | denied
deriving DecidableEq, Repr

namespace Approval

/-- The written name of an approval. -/
def name : Approval → String
  | pending => "pending"
  | approved => "approved"
  | denied => "denied"

/-- The approval with a written name. -/
def ofName? (name : String) : Option Approval :=
  if name = "pending" then some .pending
  else if name = "approved" then some .approved
  else if name = "denied" then some .denied
  else none

@[simp] theorem ofName?_name (a : Approval) : ofName? a.name = some a := by
  cases a <;> rfl

end Approval

/-- Data in the place of an approval's name that is none. -/
def notApproval (data : Json) : String := data.inspect ++ " is not a valid ApprovalState"

/-- A decision about a proposal. -/
structure Decision where
  id : String
  /-- The definition that was current when the proposal arrived. -/
  workflow : Workflow
  proposal : Proposal
  kind : DecisionKind
  stage : Stage
  approval : Option Approval
  /-- Who approved or denied it. -/
  approver : Option String
  /-- Why it was rejected. -/
  reasons : List String
  /-- The version of the snapshot that the proposal was first validated on. -/
  baseVersion : Option Version
  /-- The digest of that snapshot. -/
  baseDigest : Option String
  /-- The snapshot that the proposal leads to. -/
  result : Option Snapshot
deriving DecidableEq, Repr

/-- A decision at its beginning. -/
def Decision.new (id : String) (w : Workflow) (p : Proposal) (kind : DecisionKind) : Decision :=
  ⟨id, w, p, kind, .proposed, none, none, [], none, none, none⟩

/-- A new value for a field of a decision.  The stage is asked for by itself; the moments of the
creation and of the last change, which nothing ever looks at, are left out with their fields. -/
inductive Change
  | id (name : String)
  | workflow (w : Workflow)
  | proposal (p : Proposal)
  | kind (k : DecisionKind)
  | approval (a : Option Approval)
  | approver (name : Option String)
  | reasons (rs : List String)
  | baseVersion (version : Option Version)
  | baseDigest (digest : Option String)
  | result (s : Option Snapshot)
deriving DecidableEq, Repr

namespace Change

/-- A decision with one field changed. -/
def apply (d : Decision) : Change → Decision
  | id name => { d with id := name }
  | workflow w => { d with workflow := w }
  | proposal p => { d with proposal := p }
  | kind k => { d with kind := k }
  | approval a => { d with approval := a }
  | approver name => { d with approver := name }
  | reasons rs => { d with reasons := rs }
  | baseVersion version => { d with baseVersion := version }
  | baseDigest digest => { d with baseDigest := digest }
  | result s => { d with result := s }

/-- What is noted of the snapshot that a proposal is validated on. -/
def base (s : Snapshot) : List Change :=
  [baseVersion (some s.version), baseDigest (some s.digest)]

/-- The decision stays a decision about the same: neither its identifier nor its workflow nor its
proposal changes. -/
def keepsSubject : Change → Bool
  | id _ | workflow _ | proposal _ => false
  | kind _ | approval _ | approver _ | reasons _ | baseVersion _ | baseDigest _ | result _ => true

theorem stage_apply (d : Decision) (c : Change) : (c.apply d).stage = d.stage := by
  cases c <;> rfl

theorem subject_apply (d : Decision) {c : Change} (keeps : c.keepsSubject = true) :
    (c.apply d).id = d.id ∧ (c.apply d).workflow = d.workflow ∧
      (c.apply d).proposal = d.proposal := by
  cases c with
  | id | workflow | proposal => cases keeps
  | kind | approval | approver | reasons | baseVersion | baseDigest | result =>
    exact ⟨rfl, rfl, rfl⟩

end Change

namespace Decision

/-- A decision with several fields changed, at the same stage. -/
def change (d : Decision) (changes : List Change) : Decision := changes.foldl Change.apply d

@[simp] theorem change_nil (d : Decision) : d.change [] = d := rfl

@[simp] theorem change_cons (d : Decision) (c : Change) (cs : List Change) :
    d.change (c :: cs) = (c.apply d).change cs := rfl

@[simp] theorem stage_change (d : Decision) (changes : List Change) :
    (d.change changes).stage = d.stage := by
  induction changes generalizing d with
  | nil => rfl
  | cons c cs ih => rw [change_cons, ih, Change.stage_apply]

/-- Changes of what is known of a decision leave what it is about. -/
theorem subject_change (d : Decision) {changes : List Change}
    (keeps : changes.all Change.keepsSubject = true) :
    (d.change changes).id = d.id ∧ (d.change changes).workflow = d.workflow ∧
      (d.change changes).proposal = d.proposal := by
  induction changes generalizing d with
  | nil => exact ⟨rfl, rfl, rfl⟩
  | cons c cs ih =>
    rw [List.all_cons, Bool.and_eq_true] at keeps
    obtain ⟨hid, hworkflow, hproposal⟩ := Change.subject_apply d keeps.1
    obtain ⟨hid', hworkflow', hproposal'⟩ := ih (c.apply d) keeps.2
    exact ⟨hid'.trans hid, hworkflow'.trans hworkflow, hproposal'.trans hproposal⟩

/-- Why a decision does not move to another stage. -/
inductive Refusal
  /-- The lifecycle has no such move. -/
  | noSuchMove (id : String) (source target : Stage)
  /-- A critical decision has no approval. -/
  | unapproved (id : String)
deriving DecidableEq, Repr

/-- One sentence on the refusal. -/
def Refusal.message : Refusal → String
  | noSuchMove id source target =>
    "Illegal decision transition: " ++ source.name ++ " -> " ++ target.name ++ " (" ++ id ++ ")"
  | unapproved id => "Critical decision " ++ id ++ " cannot be applied without an approval"

/-- The decision may not be applied: it is critical and not approved. -/
def lacksApproval (d : Decision) : Bool :=
  d.kind == .critical && d.approval != some .approved

/-- The decision at another stage. -/
def atStage (d : Decision) (s : Stage) : Decision := { d with stage := s }

/-- The decision at the stage `target`, with some fields changed.  Whether it lacks an approval is
asked after the changes. -/
def advance (d : Decision) (target : Stage) (changes : List Change) : Except Refusal Decision :=
  if target ∉ d.stage.next then .error (.noSuchMove d.id d.stage target)
  else if target = .applied ∧ (d.change changes).lacksApproval = true then
    .error (.unapproved d.id)
  else .ok ((d.change changes).atStage target)

theorem advance_eq_ok_iff (d e : Decision) (target : Stage) (changes : List Change) :
    d.advance target changes = .ok e ↔
      target ∈ d.stage.next ∧
        (target = .applied → (d.change changes).lacksApproval = false) ∧
          e = (d.change changes).atStage target := by
  unfold advance
  split
  · next refused => simp [refused]
  · next allowed =>
    split
    · next unapproved => simp [unapproved]
    · next passed =>
      simp only [Except.ok.injEq]
      constructor
      · exact fun same => ⟨by simpa using allowed, fun is => by simpa [is] using passed, same.symm⟩
      · exact fun h => h.2.2.symm

theorem stage_of_advance {d e : Decision} {target : Stage} {changes : List Change}
    (h : d.advance target changes = .ok e) : e.stage = target := by
  obtain ⟨-, -, rfl⟩ := (advance_eq_ok_iff _ _ _ _).1 h
  rfl

theorem approval_of_advance_applied {d e : Decision} {changes : List Change}
    (h : d.advance .applied changes = .ok e) (critical : e.kind = .critical) :
    e.approval = some .approved := by
  obtain ⟨-, free, rfl⟩ := (advance_eq_ok_iff _ _ _ _).1 h
  have critical' : (d.change changes).kind = .critical := critical
  simpa [lacksApproval, critical', atStage] using free rfl

end Decision

/-! ### Verdicts -/

/-- What a decision amounts to. -/
inductive VerdictStatus
  | applied | rejected | pendingApproval
deriving DecidableEq, Repr

namespace VerdictStatus

/-- The written name of a status. -/
def name : VerdictStatus → String
  | applied => "applied"
  | rejected => "rejected"
  | pendingApproval => "pending_approval"

/-- The status for the program that asked: success, failure with reasons, blocked. -/
def exitStatus : VerdictStatus → Nat
  | applied => 0
  | rejected => 4
  | pendingApproval => 5

end VerdictStatus

/-- The answer to somebody who asks about a decision. -/
structure Verdict where
  status : VerdictStatus
  decisionId : String
  reasons : List String
  /-- The snapshot that an applied decision led to. -/
  snapshot : Option Snapshot
deriving DecidableEq, Repr

/-- The verdict of a decision; before it is made, it counts as waiting. -/
def Decision.verdict (d : Decision) : Verdict :=
  match d.stage with
  | .applied => ⟨.applied, d.id, d.reasons, d.result⟩
  | .rejected => ⟨.rejected, d.id, d.reasons, none⟩
  | .proposed | .validating | .pendingApproval => ⟨.pendingApproval, d.id, d.reasons, none⟩

end ChangeControl
