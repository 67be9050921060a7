import ChangeControl.Proofs.Gate.Ledger
/-!
Critical decisions need an approval.

A decision is critical when its proposer says so or when its workflow declares the transition
critical.  The only way from there to being applied is an approval that arrives while the decision
waits, and its approver is on record.  Denying, cancelling and letting the time run out are final.

Main definitions:

* `Gate.AppliedByApproval` — the approval in a history that applied a decision;
* `Gate.TurnsDown` — the operations that turn a waiting decision down.

Main results:

* `Gate.Move.applied_cases` — how an operation may apply a decision;
* `Gate.appliedByApproval_of_applied` — a critical decision was applied by an approval;
* `Gate.rejected_of_turnsDown` — what is turned down stays rejected;
* `Gate.critical_needs_approval` — **both, with the record of the approval**.
-/

set_option autoImplicit false

namespace ChangeControl

open Calendar (Timestamp)

namespace Gate

variable {P : Timestamp → Prop} {now : Timestamp} {g g' : Gate} {c d : Decision} {o : Operation}
  {id : String}

/-! ### Definitions -/

/-- In the history that begins with the gate `g`, an approval by `approver`, given while the
decision waited, left it as `d`. -/
def AppliedByApproval (g : Gate) (h : History) (d : Decision) (approver : Option String) : Prop :=
  ∃ (before later : History) (now : Timestamp),
    h = before ++ (now, .approve d.id approver) :: later ∧
      (∃ c, (g.after before).find? d.id = some c ∧ c.stage = .pendingApproval) ∧
      (g.after (before ++ [(now, .approve d.id approver)])).find? d.id = some d

/-- The operation turns a waiting decision down: it is a denial, a cancellation, or somebody waits
until the time is up. -/
inductive TurnsDown (g : Gate) : Operation → String → Prop
  | deny (id : String) (approver : Option String) (reason : String) :
      TurnsDown g (.deny id approver reason) id
  | cancel (id reason : String) : TurnsDown g (.cancel id reason) id
  | wait (id : String) {timeout : Option Json} {t : Json}
      (limit : g.limit? timeout = some t) (valid : timeoutFault? t = none) :
      TurnsDown g (.wait id timeout) id

/-! ### Applying -/

/-- A decision that is applied after an operation was applied before, or it is not critical, or the
operation approves it. -/
theorem Move.applied_cases (m : Move now g o g') (sound : Sound P g) (hd : d ∈ g'.decisions)
    (applied : d.stage = .applied) :
    d ∈ g.decisions ∨ (d.kind ≠ .critical ∧ d.workflow.declaresCritical d.proposal = false) ∨
      ∃ c approver, o = .approve d.id approver ∧ g.find? d.id = some c ∧
        c.stage = .pendingApproval ∧ d.kind = .critical ∧ d.approval = some .approved ∧
          d.approver = approver := by
  cases m with
  | idle same => exact .inl (same.decisions ▸ hd)
  | @settles ref p kind w e _ reads fate enters =>
    rcases enters.eq_or_mem sound.nodup hd with rfl | old
    · cases fate with
      | stays _ | rejected _ => exact absurd applied (by simp [opening, Decision.rejectedFor])
      -- what is applied at once is neither proposed nor declared as critical
      | applied fit => exact .inr (.inl fit.2)
    · exact .inl old
  | @parks ref p kind w r _ reads admits critical enters =>
    rcases enters.eq_or_mem sound.nodup hd with rfl | old
    · exact absurd applied (by simp [Decision.parkedWith])
    · exact .inl old
  | @approves id approver c e _ found waits fate enters =>
    rcases enters.eq_or_mem sound.nodup hd with rfl | old
    · obtain ⟨hc, hid⟩ := mem_of_find? found
      cases fate with
      | stays _ => exact absurd (waits.symm.trans applied) (by decide)
      | rejected _ => exact absurd applied (by simp [Decision.rejectedFor])
      | @applied r _ =>
        have same : ((c.approvedBy approver).appliedWith r).id = id := hid
        refine .inr (.inr ⟨c, approver, ?_, ?_, waits, (sound.parked c hc waits).kind, rfl, rfl⟩)
        · rw [same]
        · rw [same, found]
    · exact .inl old
  | @refuses _ id c b reasons _ target found waits form enters =>
    rcases enters.eq_or_mem sound.nodup hd with rfl | old
    · exact absurd applied (by simp [Decision.rejectedFor])
    · exact .inl old

theorem AppliedByApproval.append {h later : History} {approver : Option String}
    (approved : AppliedByApproval g h d approver) :
    AppliedByApproval g (h ++ later) d approver := by
  obtain ⟨before, rest, now, rfl, waited, left⟩ := approved
  exact ⟨before, rest ++ later, now, by simp, waited, left⟩

/-- **A critical decision is applied by an approval.** -/
theorem appliedByApproval_of_applied {h : History} (hd : d ∈ (g.fresh.after h).decisions)
    (applied : d.stage = .applied)
    (critical : d.kind = .critical ∨ d.workflow.declaresCritical d.proposal = true) :
    ∃ approver, AppliedByApproval g.fresh h d approver ∧ d.kind = .critical ∧
      d.approval = some .approved ∧ d.approver = approver := by
  induction h using List.reverseRecOn with
  | nil => exact absurd hd List.not_mem_nil
  | append_singleton h m ih =>
    obtain ⟨now, o⟩ := m
    have hfound := (find?_eq_some_iff (sound_after g (h ++ [(now, o)])).nodup).2 ⟨hd, rfl⟩
    rw [after_concat] at hd
    rcases (move_step now _ o).applied_cases (sound_after g h) hd applied with
      old | ⟨routine, undeclared⟩ | ⟨c, approver, rfl, waited, waits, kind, approval, by_⟩
    · -- it was applied before, and the history has only become longer
      obtain ⟨approver, approved, rest⟩ := ih old
      exact ⟨approver, approved.append, rest⟩
    · rcases critical with critical | declared
      · exact absurd critical routine
      · exact absurd (undeclared.symm.trans declared) (by decide)
    · exact ⟨approver, ⟨h, [], now, rfl, ⟨c, waited, waits⟩, hfound⟩, kind, approval, by_⟩

/-! ### Turning down -/

theorem rejects_of_turnsDown (now : Timestamp) (turns : TurnsDown g o id)
    (found : g.find? id = some c) (waits : c.stage = .pendingApproval) :
    ∃ e ∈ (g.step now o).gate.decisions, e.id = id ∧ e.stage = .rejected := by
  obtain ⟨-, hid⟩ := mem_of_find? found
  cases turns with
  | deny id approver reason =>
    have enters : Enters now g _ (g.deny now id approver reason).gate := enters_deny found waits
    exact ⟨_, (mem_of_find? enters.find?_self).1, hid, rfl⟩
  | cancel id reason =>
    have enters : Enters now g _ (g.cancel now id reason).gate := enters_cancel found waits
    exact ⟨_, (mem_of_find? enters.find?_self).1, hid, rfl⟩
  | @wait id timeout t limit valid =>
    have enters : Enters now g _ (g.wait now id timeout).gate :=
      enters_wait found waits limit valid
    exact ⟨_, (mem_of_find? enters.find?_self).1, hid, rfl⟩

/-- **What is turned down stays rejected.** -/
theorem rejected_of_turnsDown {before later : History}
    (turns : TurnsDown (g.fresh.after before) o id)
    (found : (g.fresh.after before).find? id = some c) (waits : c.stage = .pendingApproval) :
    ∃ e, (g.fresh.after (before ++ (now, o) :: later)).find? id = some e ∧
      e.stage = .rejected := by
  obtain ⟨e, he, hid, rejected⟩ := rejects_of_turnsDown now turns found waits
  rw [← after_concat] at he
  have hstays := (sound_after g _).stays_after (h := later) he (by rw [rejected]; rfl)
  rw [← after_append, List.append_assoc, List.singleton_append] at hstays
  exact ⟨e, (find?_eq_some_iff (sound_after g _).nodup).2 ⟨hstays, hid⟩, rejected⟩

/-! ### Histories -/

/-- **Critical decisions are applied by approvals only.**  After any history, a decision that is
applied and was proposed as critical, or is about a transition that its workflow declares critical,
was applied by an approval that was given while it waited; it says so, and so does its only record.
A decision that was denied, cancelled or out of time while it waited is rejected for ever. -/
theorem critical_needs_approval (g : Gate) (h : History) :
    (∀ d ∈ (g.fresh.after h).decisions, d.stage = .applied →
      Proposed g.fresh h d .critical ∨ d.workflow.declaresCritical d.proposal = true →
      ∃ approver, AppliedByApproval g.fresh h d approver ∧ d.kind = .critical ∧
        d.approval = some .approved ∧ d.approver = approver ∧
        ∃ r, (recordsSince g (g.fresh.after h)).filter (fun r => r.decisionId == d.id) = [r] ∧
          r.verdict = "applied" ∧ r.kind = "critical" ∧ r.approver = approver) ∧
    (∀ before now o later id c, h = before ++ (now, o) :: later →
      TurnsDown (g.fresh.after before) o id → (g.fresh.after before).find? id = some c →
      c.stage = .pendingApproval →
      ∃ e, (g.fresh.after h).find? id = some e ∧ e.stage = .rejected) := by
  refine ⟨?_, ?_⟩
  · intro d hd applied critical
    have hcritical : d.kind = .critical ∨ d.workflow.declaresCritical d.proposal = true :=
      critical.imp_left fun proposed => proposed.kind_eq hd
    obtain ⟨approver, approved, kind, approval, by_⟩ :=
      appliedByApproval_of_applied hd applied hcritical
    obtain ⟨t, hrecord⟩ := recordsSince_filter hd (by rw [applied]; rfl)
    refine ⟨approver, approved, kind, approval, by_, _, hrecord, ?_, ?_, by_⟩
    · rw [auditRecord, applied]
      rfl
    · rw [auditRecord, kind]
      rfl
  · intro before now o later id c hsplit turns found waits
    subst hsplit
    exact rejected_of_turnsDown turns found waits

/-- A transition that is declared critical is proposed as routine, and approved. -/
def criticalTransition : History :=
  [(.epoch, .load
      "workflow Delivery { states: [Plan, Build]; transitions: [critical Plan -> Build]; }"),
    (.epoch, .propose (.named "Delivery") (.proposal (.transition "Plan" "Build")) .routine),
    (.epoch, .approve "d1" (some "ann"))]

/-- The approval of that transition is on record. -/
theorem record_criticalTransition :
    ∃ approver r,
      (recordsSince blank (blank.fresh.after criticalTransition)).filter
        (fun r => r.decisionId == "d1") = [r] ∧
      r.verdict = "applied" ∧ r.kind = "critical" ∧ r.approver = approver := by
  have h : ((blank.fresh.after criticalTransition).find? "d1").any
      (fun d => d.stage == .applied && d.workflow.declaresCritical d.proposal) = true := by
    decide +kernel
  obtain ⟨d, found, hd⟩ := (Option.any_eq_true _ _).1 h
  rw [Bool.and_eq_true, beq_iff_eq] at hd
  obtain ⟨hmem, hid⟩ := mem_of_find? found
  obtain ⟨approver, -, -, -, -, hrecord⟩ :=
    (critical_needs_approval blank criticalTransition).1 d hmem hd.1 (.inr hd.2)
  exact ⟨approver, hid ▸ hrecord⟩

end Gate

end ChangeControl
