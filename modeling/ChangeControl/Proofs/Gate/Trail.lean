import ChangeControl.Proofs.Gate.Ledger
/-!
The audit trail is complete.

As long as files can be written, no operation leaves a decision half way: whether it answers or ends
in an error, every decision then waits for an approval or is made.  What is made is recorded at
once.  So the records that a gate has added tell, one by one and in their order, which decisions
were applied or rejected, when, and with what.

Main definitions:

* `Gate.writesSucceed` — no operation of a history ends because a file cannot be written;
* `Gate.Settled` — no decision is half way;
* `Completion.record` — the record that a decision deserves when it is made.

Main results:

* `Gate.Settled.step`, `Gate.Settled.after` — **no decision is left half way**;
* `Gate.audit_complete` — every made decision has its record, and no other one has any.
-/

set_option autoImplicit false

namespace ChangeControl

open Calendar (Timestamp)

/-- The record of a decision that was made: what is known of the decision, and the digest of the
snapshot that it led to, if it was applied. -/
def Completion.record (m : Completion) : AuditRecord where
  decisionId := m.decision.id
  workflow := m.decision.workflow.name
  action := m.decision.proposal.describe
  kind := m.decision.kind.name
  verdict := m.decision.stage.name
  timestamp := m.moment.text
  approver := m.decision.approver
  reasons := m.decision.reasons
  baseDigest := m.decision.baseDigest
  resultDigest := if m.decision.stage = .applied then some m.current.digest else none

theorem Stage.applied_or_rejected {s : Stage} (h : s.isTerminal = true) :
    s = .applied ∨ s = .rejected := by
  cases s <;> simp_all [isTerminal]

namespace Gate

variable {now : Timestamp} {g g' : Gate} {d e : Decision} {o : Operation}

/-! ### Definitions -/

/-- No operation of the history ends because a file cannot be written. -/
def writesSucceed (g : Gate) : History → Bool
  | [] => true
  | (now, o) :: h => !(g.step now o).writeFails && writesSucceed (g.step now o).gate h

/-- Every decision waits for an approval or is made. -/
def Settled (g : Gate) : Prop :=
  ∀ d ∈ g.decisions, d.stage = .pendingApproval ∨ d.stage.isTerminal = true

/-! ### Nothing is left half way -/

/-- An operation that enters a decision, waiting or made, leaves none half way. -/
theorem Settled.enters (settled : Settled g) (nodup : (g.decisions.map Decision.id).Nodup)
    {k : Nat} (h : Enters now { g with issued := k } e g')
    (stage : e.stage = .pendingApproval ∨ e.stage.isTerminal = true) : Settled g' := by
  intro d hd
  rcases h.eq_or_mem nodup hd with rfl | old
  · exact stage
  · exact settled d old

/-- **An operation leaves no decision half way**, unless a file cannot be written. -/
theorem Settled.step (settled : Settled g) (sound : Sound (fun _ => True) g)
    (written : (g.step now o).writeFails = false) : Settled (g.step now o).gate := by
  cases move_step now g o with
  | idle idle =>
    intro d hd
    exact settled d (idle.decisions ▸ hd)
  | @settles ref p kind w _ _ reads _ _ =>
    -- the decision could be left while it is validated only by an answer that a write failed
    obtain ⟨e, enters, form, stuck⟩ := enters_propose now p kind reads
    rw [step, Step.writeFails_map] at written
    refine settled.enters sound.nodup enters ?_
    rcases form with fate | ⟨r, -, -, rfl⟩
    · cases fate with
      | stays _ => exact absurd (stuck rfl) (by rw [written]; decide)
      | rejected _ | applied _ => exact .inr rfl
    · exact .inl rfl
  | parks _ _ _ enters => exact settled.enters sound.nodup enters (.inl rfl)
  | approves found waits fate enters =>
    refine settled.enters sound.nodup enters ?_
    cases fate with
    | stays _ => exact .inl waits
    | rejected _ | applied _ => exact .inr rfl
  | refuses _ _ _ _ enters => exact settled.enters sound.nodup enters (.inr rfl)

/-- **A history leaves no decision half way**, unless a file cannot be written. -/
theorem Settled.after {h : History} (settled : Settled g) (sound : Sound (fun _ => True) g)
    (written : g.writesSucceed h = true) : Settled (g.after h) := by
  induction h generalizing g with
  | nil => exact settled
  | cons m h ih =>
    obtain ⟨now, o⟩ := m
    rw [writesSucceed, Bool.and_eq_true, Bool.not_eq_true'] at written
    exact ih (settled.step sound written.1) (sound.step trivial o) written.2

/-! ### The whole trail -/

theorem record_of_mem_chronicle {h : History} {m : Completion} (hm : m ∈ g.fresh.chronicle h) :
    auditRecord m.moment m.decision = m.record := by
  rw [auditRecord, Completion.record]
  by_cases applied : m.decision.stage = .applied
  · rw [if_pos applied, if_pos applied, result_of_mem_chronicle hm applied]
    rfl
  · rw [if_neg applied, if_neg applied]

/-- **The audit trail is complete**, as long as files can be written.  After any history every
decision waits for an approval and has no record, or it is applied or rejected and has exactly one,
that of the moment when it was made; what was made is still there unchanged, and led to the snapshot
that was current then if it was applied; and the records stand in the order of these moments. -/
theorem audit_complete (g : Gate) (h : History) (written : g.fresh.writesSucceed h = true) :
    (∀ d ∈ (g.fresh.after h).decisions,
      (d.stage = .pendingApproval ∧
        (recordsSince g (g.fresh.after h)).filter (fun r => r.decisionId == d.id) = []) ∨
      ((d.stage = .applied ∨ d.stage = .rejected) ∧
        ∃ m ∈ g.fresh.chronicle h, m.decision = d ∧
          (recordsSince g (g.fresh.after h)).filter (fun r => r.decisionId == d.id) =
            [m.record])) ∧
    (∀ m ∈ g.fresh.chronicle h, m.decision ∈ (g.fresh.after h).decisions ∧
      (m.decision.stage = .applied → m.decision.result = some m.current)) ∧
    recordsSince g (g.fresh.after h) = (g.fresh.chronicle h).map Completion.record := by
  have settled : Settled (g.fresh.after h) :=
    Settled.after (fun _ hd => absurd hd List.not_mem_nil) (sound_fresh _ g) written
  refine ⟨?_, ?_, ?_⟩
  · intro d hd
    rcases settled d hd with waits | terminal
    · exact .inl ⟨waits, recordsSince_filter_of_open hd (by rw [waits]; rfl)⟩
    · obtain ⟨m, hm, rfl, hrecord⟩ := exists_mem_chronicle hd terminal
      refine .inr ⟨Stage.applied_or_rejected terminal, m, hm, rfl, ?_⟩
      rw [hrecord, record_of_mem_chronicle hm]
  · intro m hm
    have hmade := (perm_chronicle g h).mem_iff.2 (List.mem_map_of_mem hm)
    exact ⟨(List.mem_filter.1 hmade).1, result_of_mem_chronicle hm⟩
  · rw [recordsSince_eq]
    exact List.map_congr_left fun m hm => record_of_mem_chronicle hm

/-- A critical transition is approved, the way back names a task that is not there, so that its
precondition cannot be evaluated, a workflow and a decision are asked for that nobody knows, and a
commit waits. -/
def mixedHistory : History :=
  [(.epoch, .load
      "workflow Delivery \x7b states: [Plan, Build]; transitions: [critical Plan -> Build,
        Build -> Plan requires completed[\"T9\"]]; \x7d"),
    (.epoch, .propose (.named "Delivery") (.proposal (.transition "Plan" "Build")) .routine),
    (.epoch, .approve "d1" (some "ann")),
    (.epoch, .propose (.named "Delivery") (.proposal (.transition "Build" "Plan")) .routine),
    (.epoch, .propose (.named "Nowhere") (.proposal (.transition "Plan" "Build")) .routine),
    (.epoch, .approve "d9" (some "ann")),
    (.epoch, .propose (.named "Delivery") (.proposal (.commit ⟨"c1", "done", none⟩)) .critical)]

/-- Two decisions are made in that history, one of either kind, and the third one waits. -/
theorem audit_mixedHistory :
    blank.fresh.writesSucceed mixedHistory = true ∧
      (blank.fresh.after mixedHistory).decisions.map Decision.stage =
        [.applied, .rejected, .pendingApproval] ∧
      recordsSince blank (blank.fresh.after mixedHistory) =
        (blank.fresh.chronicle mixedHistory).map Completion.record := by
  have written : blank.fresh.writesSucceed mixedHistory = true := by decide +kernel
  have stages : (blank.fresh.after mixedHistory).decisions.map Decision.stage =
      [.applied, .rejected, .pendingApproval] := by decide +kernel
  exact ⟨written, stages, (audit_complete blank mixedHistory written).2.2⟩

end Gate

end ChangeControl
