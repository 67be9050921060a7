import ChangeControl.Proofs.Gate.Admission
import ChangeControl.Proofs.Gate.Entry
import ChangeControl.Proofs.Workflow.Loading
/-!
What an operation can do.

An operation on a gate that nobody interferes with either touches no decision at all, or it opens
one and settles or parks it, or it brings one to an end that was waiting.  `Gate.Move` lists the
possibilities with their guards, and `Gate.move_step` shows that there are no others, whether the
operation answers or ends in an error.  Everything that is later said about runs is read off this
list.

Main definitions:

* `Gate.opening` — a decision while its proposal is validated;
* `Gate.Fate` — how a decision leaves an operation that is to reject it or to apply it;
* `Gate.Approvable` — the results that an approval applies;
* `Gate.Move` — what an operation does to the gate.

Main results:

* `Gate.move_step` — **every operation is such a move**;
* `Gate.enters_deny`, `Gate.enters_cancel`, `Gate.enters_wait` — a waiting decision that is turned
  down is rejected.
-/

set_option autoImplicit false

namespace ChangeControl

open Calendar (Timestamp)

/-! ### Forms of a decision -/

namespace Decision

/-- The decision, waiting for an approval of its result. -/
def parkedWith (d : Decision) (result : Snapshot) : Decision :=
  { d with
    kind := .critical
    approval := some .pending
    result := some result
    stage := .pendingApproval }

/-- The decision with the approval on it. -/
def approvedBy (d : Decision) (approver : Option String) : Decision :=
  { d with approval := some .approved, approver := approver }

/-- The decision with the denial on it. -/
def deniedBy (d : Decision) (approver : Option String) : Decision :=
  { d with approval := some .denied, approver := approver }

end Decision

/-- The decision that an operation turns down, if it does. -/
def Operation.refused? : Operation → Option String
  | .deny id _ _ | .cancel id _ | .wait id _ => some id
  | .propose .. | .approve .. | .load _ => none

namespace Gate

variable {now : Timestamp} {g g' : Gate} {d e : Decision}

/-! ### Definitions -/

/-- The decision about a proposal, while it is validated on the current snapshot. -/
def opening (g : Gate) (w : Workflow) (p : Proposal) (kind : DecisionKind) : Decision :=
  { Decision.new g.nextId w p kind with
    stage := .validating
    baseVersion := some g.store.current.version
    baseDigest := some g.store.current.digest }

/-- How a decision leaves an operation that is to reject it or to apply it, where the results that
may be applied are those that fit. -/
inductive Fate (fits : Snapshot → Prop) (d : Decision) : Decision → Prop
  /-- A result that cannot be written leaves the decision as it is. -/
  | stays {result : Snapshot} (fit : fits result) : Fate fits d d
  | rejected (reasons : List String) : Fate fits d (d.rejectedFor reasons)
  | applied {result : Snapshot} (fit : fits result) : Fate fits d (d.appliedWith result)

/-- The results that an approval of the decision applies: the one that is kept from its validation
if nothing has changed since, or else what is admitted now. -/
def Approvable (now : Timestamp) (g : Gate) (d : Decision) (result : Snapshot) : Prop :=
  cached? d g.store.current = some result ∨
    d.workflow.Admits g.registry.vocabulary now d.proposal g.store.current result

/-- Nothing about decisions, records and the current snapshot differs; a workflow may be loaded. -/
structure Idle (g g' : Gate) : Prop where
  decisions : g'.decisions = g.decisions
  records : g'.audit.records = g.audit.records
  current : g'.store.current = g.store.current
  registry : g'.registry = g.registry ∨ ∃ text w, g.registry.load text = .ok (g'.registry, w)
  issued : g'.issued = g.issued

/-- What an operation does to a gate. -/
inductive Move (now : Timestamp) (g : Gate) : Operation → Gate → Prop
  /-- The operation ends in an error, only answers, or loads a workflow. -/
  | idle {o : Operation} {g' : Gate} (same : Idle g g') : Move now g o g'
  /-- A proposal is rejected or, if it is not critical, applied. -/
  | settles {ref : WorkflowRef} {p : Proposal} {kind : DecisionKind} {w : Workflow} {e : Decision}
      {g' : Gate} (reads : g.workflow? ref = .ok w)
      (fate : Fate
        (fun r => w.Admits g.registry.vocabulary now p g.store.current r ∧
          kind ≠ .critical ∧ w.declaresCritical p = false)
        (g.opening w p kind) e)
      (enters : Enters now { g with issued := g.issued + 1 } e g') :
      Move now g (.propose ref (.proposal p) kind) g'
  /-- A critical proposal is admitted and waits. -/
  | parks {ref : WorkflowRef} {p : Proposal} {kind : DecisionKind} {w : Workflow} {r : Snapshot}
      {g' : Gate} (reads : g.workflow? ref = .ok w)
      (admits : w.Admits g.registry.vocabulary now p g.store.current r)
      (critical : kind = .critical ∨ w.declaresCritical p = true)
      (enters : Enters now { g with issued := g.issued + 1 }
        ((g.opening w p kind).parkedWith r) g') :
      Move now g (.propose ref (.proposal p) kind) g'
  /-- A waiting decision is approved, and rejected or applied. -/
  | approves {id : String} {approver : Option String} {d e : Decision} {g' : Gate}
      (found : g.find? id = some d) (waits : d.stage = .pendingApproval)
      (fate : Fate (g.Approvable now d) (d.approvedBy approver) e)
      (enters : Enters now g e g') : Move now g (.approve id approver) g'
  /-- A waiting decision is denied, cancelled or out of time. -/
  | refuses {o : Operation} {id : String} {d c : Decision} {reasons : List String} {g' : Gate}
      (target : o.refused? = some id) (found : g.find? id = some d)
      (waits : d.stage = .pendingApproval)
      (form : c = d ∨ ∃ approver, c = d.deniedBy approver)
      (enters : Enters now g (c.rejectedFor reasons) g') : Move now g o g'

/-- An operation that leaves the gate alone. -/
theorem Move.refl (o : Operation) : Move now g o g := .idle ⟨rfl, rfl, rfl, .inl rfl, rfl⟩

theorem Idle.vocabulary (h : Idle g g') : g'.registry.vocabulary = g.registry.vocabulary := by
  rcases h.registry with same | ⟨text, w, hload⟩
  · rw [same]
  · rw [(Registry.load_eq_ok_iff.1 hload).2]
    rfl

/-! ### Waiting decisions -/

theorem pending_eq_ok_iff {operation id : String} :
    g.pending operation id = .ok d ↔ g.find? id = some d ∧ d.stage = .pendingApproval := by
  unfold pending
  cases g.find? id with
  | none => simp
  | some c =>
    by_cases hc : c.stage = .pendingApproval
    · simp only [hc, if_true, Except.ok.injEq, Option.some.injEq]
      constructor
      · rintro rfl
        exact ⟨rfl, hc⟩
      · intro h
        exact h.1
    · simp only [hc, if_false, reduceCtorEq, Option.some.injEq, false_iff]
      rintro ⟨rfl, h⟩
      exact hc h

theorem enters_deny {id : String} {approver : Option String} {reason : String}
    (found : g.find? id = some d) (waits : d.stage = .pendingApproval) :
    Enters now g
      ((d.deniedBy approver).rejectedFor ["denied by " ++ approver.getD "None" ++ ": " ++ reason])
      (g.deny now id approver reason).gate := by
  rw [deny, pending_eq_ok_iff.2 ⟨found, waits⟩]
  exact enters_reject _ [.approval (some .denied), .approver approver] (.inr waits)

theorem enters_cancel {id reason : String} (found : g.find? id = some d)
    (waits : d.stage = .pendingApproval) :
    Enters now g (d.rejectedFor [reason]) (g.cancel now id reason).gate := by
  rw [cancel, pending_eq_ok_iff.2 ⟨found, waits⟩]
  exact enters_reject _ [] (.inr waits)

theorem enters_wait {id : String} {timeout : Option Json} {t : Json} (found : g.find? id = some d)
    (waits : d.stage = .pendingApproval) (limit : g.limit? timeout = some t)
    (valid : timeoutFault? t = none) :
    Enters now g (d.rejectedFor ["approval timed out after " ++ t.display ++ "s"])
      (g.wait now id timeout).gate := by
  simp only [wait, found, limit, valid, waits, if_true]
  exact enters_reject _ [] (.inr waits)

/-! ### Proposals -/

/-- What follows from a validation, as far as the gate goes. -/
theorem gate_settle (x : Examination) (passed : Snapshot → Bool → Step Verdict) :
    (g.settle now d x passed).gate =
      match x.finding with
      | .error e => (g.reject now d ["evaluation error: " ++ e.message] []).gate
      | .ok (.failed reasons) => (g.reject now d reasons []).gate
      | .ok (.passed result critical) => (passed result critical).gate := by
  rw [settle, Step.gate_after]
  split <;> simp_all

theorem writeFails_settle_of_passed {x : Examination} {passed : Snapshot → Bool → Step Verdict}
    {r : Snapshot} {b : Bool} (h : x.finding = .ok (.passed r b)) :
    (g.settle now d x passed).writeFails = (passed r b).writeFails := by
  rw [settle, Step.writeFails_after, h]

/-- When nobody interferes, applying is all there is to do. -/
theorem applyAfter_none (d : Decision) (result : Snapshot) (expected : Version) :
    g.applyAfter now none d result expected = g.apply now d result expected := rfl

theorem enters_park {result : Snapshot} (h : d.stage = .validating) :
    Enters now g (d.parkedWith result) (g.park d result).gate := by
  have hadvance : d.advance .pendingApproval
      [.kind .critical, .approval (some .pending), .result (some result)] =
        .ok (d.parkedWith result) :=
    (Decision.advance_eq_ok_iff ..).2 ⟨by simp [h, Stage.next], by simp, rfl⟩
  rw [park, hadvance]
  exact enters_put rfl

/-- An open decision that is examined is rejected, unless it passes. -/
theorem enters_settle_of_not_passed (now : Timestamp) {x : Examination}
    {passed : Snapshot → Bool → Step Verdict} (h : d.IsOpen)
    (fails : ∀ r b, x.finding ≠ .ok (.passed r b)) :
    ∃ reasons, Enters now g (d.rejectedFor reasons) ((g.put d).settle now d x passed).gate := by
  rw [gate_settle]
  split
  · exact ⟨_, (enters_reject _ [] h).of_put rfl⟩
  · exact ⟨_, (enters_reject _ [] h).of_put rfl⟩
  · next passes => exact absurd passes (fails _ _)

/-- Validating a decision puts it in its place, validates its proposal, and goes on from there. -/
theorem validate_eq (now : Timestamp) (meanwhile : Option Snapshot)
    (hadvance : d.advance .validating (Change.base g.store.current) = .ok e) :
    g.validate now d meanwhile =
      ((g.put e).settle now e (g.examine now e) fun result critical =>
        if e.kind = .critical ∨ critical = true then (g.put e).park e result
        else (g.put e).applyAfter now meanwhile e result g.store.current.version).after
          [Report.validating e g.store.current] := by
  simp only [validate, hadvance]
  rfl

/-- A proposal opens a decision and validates it. -/
theorem propose_eq {ref : WorkflowRef} {p : Proposal} {kind : DecisionKind} {w : Workflow}
    {meanwhile : Option Snapshot} (hw : g.workflow? ref = .ok w) :
    g.propose now ref (.proposal p) kind meanwhile =
      (({ g with issued := g.issued + 1 }.put (g.opening w p kind)).settle now
        (g.opening w p kind) (w.examine g.registry.vocabulary now p g.store.current)
        fun result critical =>
          if kind = DecisionKind.critical ∨ critical = true then
            ({ g with issued := g.issued + 1 }.put (g.opening w p kind)).park
              (g.opening w p kind) result
          else
            ({ g with issued := g.issued + 1 }.put (g.opening w p kind)).applyAfter now meanwhile
              (g.opening w p kind) result g.store.current.version).after
        [Report.validating (g.opening w p kind) g.store.current] := by
  -- the decision is put in its place when it is created and again when it is validated
  have hput : ({ g.put (Decision.new g.nextId w p kind) with issued := g.issued + 1 } : Gate).put
      (g.opening w p kind) = { g with issued := g.issued + 1 }.put (g.opening w p kind) := by
    simp only [put]
    rw [putIn_putIn]
    rfl
  have hvalidate := validate_eq now meanwhile
    (g := { g.put (Decision.new g.nextId w p kind) with issued := g.issued + 1 })
    (d := Decision.new g.nextId w p kind) (e := g.opening w p kind) rfl
  rw [hput] at hvalidate
  simp only [propose, hw]
  exact hvalidate

/-- A proposal for a workflow that is there enters its decision, settled or parked, unless the
answer is that a file cannot be written. -/
theorem enters_propose {ref : WorkflowRef} {w : Workflow} (now : Timestamp) (p : Proposal)
    (kind : DecisionKind) (hw : g.workflow? ref = .ok w) :
    ∃ e, Enters now { g with issued := g.issued + 1 } e
        (g.propose now ref (.proposal p) kind none).gate ∧
      (Fate
          (fun r => w.Admits g.registry.vocabulary now p g.store.current r ∧
            kind ≠ .critical ∧ w.declaresCritical p = false)
          (g.opening w p kind) e ∨
        ∃ r, w.Admits g.registry.vocabulary now p g.store.current r ∧
          (kind = .critical ∨ w.declaresCritical p = true) ∧
            e = (g.opening w p kind).parkedWith r) ∧
      (e.stage = .validating →
        (g.propose now ref (.proposal p) kind none).writeFails = true) := by
  rw [propose_eq hw, Step.gate_after, Step.writeFails_after]
  simp only [applyAfter_none]
  have hopen : (g.opening w p kind).IsOpen := .inl rfl
  by_cases hpasses : ∃ r b,
      (w.examine g.registry.vocabulary now p g.store.current).finding = .ok (.passed r b)
  · obtain ⟨r, b, hfinding⟩ := hpasses
    obtain ⟨admits, rfl⟩ := Workflow.finding_examine_iff.1 hfinding
    rw [gate_settle, writeFails_settle_of_passed hfinding, hfinding]
    simp only
    split
    · next critical =>
      exact ⟨_, (enters_park rfl).of_put rfl, .inr ⟨r, admits, critical, rfl⟩,
        fun same => by cases same⟩
    · next routine =>
      rw [not_or] at routine
      have free : (g.opening w p kind).lacksApproval = false := by
        rw [Decision.lacksApproval, Bool.and_eq_false_iff]
        exact .inl (beq_false_of_ne routine.1)
      have fit : w.Admits g.registry.vocabulary now p g.store.current r ∧
          kind ≠ .critical ∧ w.declaresCritical p = false :=
        ⟨admits, routine.1, Bool.eq_false_iff.2 routine.2⟩
      refine ⟨_, enters_apply hopen free, .inl ?_, ?_⟩
      · split
        · exact .applied fit
        · exact .stays fit
      · split
        · exact fun same => by cases same
        · next fault => exact fun _ => writeFails_apply fault
  · simp only [not_exists] at hpasses
    obtain ⟨reasons, enters⟩ := enters_settle_of_not_passed now hopen hpasses
    exact ⟨_, enters, .inl (.rejected reasons), fun same => by cases same⟩

theorem move_propose (ref : WorkflowRef) (submission : Submission) (kind : DecisionKind) :
    Move now g (.propose ref submission kind) (g.propose now ref submission kind none).gate := by
  cases submission with
  | foreign data => exact .refl _
  | proposal p =>
    cases hw : g.workflow? ref with
    | error e =>
      simp only [propose, hw]
      exact .refl _
    | ok w =>
      obtain ⟨e, enters, fate | ⟨r, admits, critical, rfl⟩, -⟩ := enters_propose now p kind hw
      · exact .settles hw fate enters
      · exact .parks hw admits critical enters

/-! ### Approvals -/

/-- Approving a waiting decision puts the approval on it, and then its proposal is validated unless
nothing has changed. -/
theorem approve_eq {id : String} {approver : Option String} {meanwhile : Option Snapshot}
    (found : g.find? id = some d) (waits : d.stage = .pendingApproval) :
    g.approve now id approver meanwhile =
      Step.after
        (match cached? d g.store.current with
        | some result =>
          (g.put (d.approvedBy approver)).applyAfter now meanwhile (d.approvedBy approver) result
            g.store.current.version
        | none =>
          (g.put (d.approvedBy approver)).settle now (d.approvedBy approver)
            (d.workflow.examine g.registry.vocabulary now d.proposal g.store.current)
            fun result _ =>
              (g.put (d.approvedBy approver)).applyAfter now meanwhile (d.approvedBy approver)
                result g.store.current.version)
        [Report.approved (d.approvedBy approver) approver] := by
  rw [approve, pending_eq_ok_iff.2 ⟨found, waits⟩]
  have hcached : cached? (d.approvedBy approver) g.store.current =
      cached? d g.store.current := rfl
  have hchange : d.change [.approval (some .approved), .approver approver] =
      d.approvedBy approver := rfl
  have hcurrent : (g.put (d.approvedBy approver)).store.current = g.store.current := rfl
  simp only [hchange, hcurrent, hcached]
  rfl

theorem move_approve (id : String) (approver : Option String) :
    Move now g (.approve id approver) (g.approve now id approver none).gate := by
  cases hpending : g.pending "approve" id with
  | error e =>
    simp only [approve, hpending]
    exact .refl _
  | ok d =>
    obtain ⟨found, waits⟩ := pending_eq_ok_iff.1 hpending
    have hopen : (d.approvedBy approver).IsOpen := .inr waits
    have free : (d.approvedBy approver).lacksApproval = false := by
      rw [Decision.lacksApproval, Bool.and_eq_false_iff]
      exact .inr rfl
    -- with the kept result and with a new one, the same application follows
    have happly : ∀ r, g.Approvable now d r →
        Move now g (.approve id approver)
          ((g.put (d.approvedBy approver)).apply now (d.approvedBy approver) r
            g.store.current.version).gate := by
      intro r fit
      refine .approves found waits ?_ (enters_apply hopen free)
      split
      · exact .applied fit
      · exact .stays fit
    rw [approve_eq found waits, Step.gate_after]
    simp only [applyAfter_none]
    split
    · next r kept => exact happly r (.inl kept)
    · by_cases hpasses : ∃ r b,
          (d.workflow.examine g.registry.vocabulary now d.proposal g.store.current).finding =
            .ok (.passed r b)
      · obtain ⟨r, b, hfinding⟩ := hpasses
        rw [gate_settle, hfinding]
        exact happly r (.inr (Workflow.finding_examine_iff.1 hfinding).1)
      · simp only [not_exists] at hpasses
        obtain ⟨reasons, enters⟩ := enters_settle_of_not_passed now hopen hpasses
        exact .approves found waits (.rejected reasons) enters

/-! ### Every operation -/

theorem move_deny (id : String) (approver : Option String) (reason : String) :
    Move now g (.deny id approver reason) (g.deny now id approver reason).gate := by
  cases hpending : g.pending "deny" id with
  | error e =>
    simp only [deny, hpending]
    exact .refl _
  | ok d =>
    obtain ⟨found, waits⟩ := pending_eq_ok_iff.1 hpending
    exact .refuses rfl found waits (.inr ⟨approver, rfl⟩) (enters_deny found waits)

theorem move_cancel (id reason : String) :
    Move now g (.cancel id reason) (g.cancel now id reason).gate := by
  cases hpending : g.pending "cancel" id with
  | error e =>
    simp only [cancel, hpending]
    exact .refl _
  | ok d =>
    obtain ⟨found, waits⟩ := pending_eq_ok_iff.1 hpending
    exact .refuses rfl found waits (.inl rfl) (enters_cancel found waits)

theorem move_wait (id : String) (timeout : Option Json) :
    Move now g (.wait id timeout) (g.wait now id timeout).gate := by
  cases found : g.find? id with
  | none =>
    simp only [wait, found]
    exact .refl _
  | some d =>
    cases limit : g.limit? timeout with
    | none =>
      simp only [wait, found, limit]
      exact .refl _
    | some t =>
      by_cases waits : d.stage = .pendingApproval
      · cases valid : timeoutFault? t with
        | none => exact .refuses rfl found waits (.inl rfl) (enters_wait found waits limit valid)
        | some e =>
          have hopen : d.stage.isTerminal = false := by rw [waits]; rfl
          simp only [wait, found, limit, hopen, valid, Bool.false_eq_true, if_false]
          exact .refl _
      · -- without a decision that waits, the answer is its verdict or an error
        have hgate : (g.wait now id timeout).gate = g := by
          simp only [wait, found, limit, waits, if_false]
          split
          · rfl
          · split <;> rfl
        rw [hgate]
        exact .refl _

theorem move_load (text : String) : Move now g (.load text) (g.load text).gate := by
  unfold load
  cases hload : g.registry.load text with
  | error e => exact .refl _
  | ok loaded => exact .idle ⟨rfl, rfl, rfl, .inr ⟨text, loaded.2, hload⟩, rfl⟩

/-- **Every operation is such a move**, whether it answers or ends in an error. -/
theorem move_step (now : Timestamp) (g : Gate) (o : Operation) :
    Move now g o (g.step now o).gate := by
  cases o with
  | propose ref submission kind => exact move_propose ref submission kind
  | approve id approver => exact move_approve id approver
  | deny id approver reason => exact move_deny id approver reason
  | cancel id reason => exact move_cancel id reason
  | wait id timeout => exact move_wait id timeout
  | load text => exact move_load text

end Gate

end ChangeControl
