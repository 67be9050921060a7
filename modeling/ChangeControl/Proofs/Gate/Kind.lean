import ChangeControl.Proofs.Gate.Ledger
/-!
The kind of a decision.

A decision is critical from the beginning if it is proposed as critical.  What a workflow declares
critical is looked up while the proposal is validated, but only a proposal that passes makes its
decision critical: one that is proposed as routine and turned down by its validation stays routine,
and so does its record, whatever the workflow declares.

Main definitions:

* `Gate.Examined` — the proposal of a decision, and what its validation found.

Main results:

* `Gate.enters_propose_declared` — a proposal that is declared critical waits, or it is rejected;
* `Gate.critical_unless_refused` — **a decision on what is declared critical is critical, unless it
  was proposed as routine and did not pass**.
-/

set_option autoImplicit false

namespace ChangeControl

open Calendar (Timestamp)

namespace Gate

variable {now : Timestamp} {g : Gate} {d : Decision} {kind : DecisionKind} {x : Examination}
  {h : History}

/-- In the history that begins with the gate `g`, the decision was proposed for that kind, and the
validation of its proposal found `x`. -/
def Examined (g : Gate) (h : History) (d : Decision) (kind : DecisionKind) (x : Examination) :
    Prop :=
  ∃ (before later : History) (now : Timestamp) (ref : WorkflowRef),
    h = before ++ (now, .propose ref (.proposal d.proposal) kind) :: later ∧
      (g.after before).nextId = d.id ∧ (g.after before).workflow? ref = .ok d.workflow ∧
        x = (g.after before).examine now d

/-- A proposal that is declared critical waits if it passes, and is rejected otherwise. -/
theorem enters_propose_declared {ref : WorkflowRef} {w : Workflow} {p : Proposal} (now : Timestamp)
    (kind : DecisionKind) (hw : g.workflow? ref = .ok w) (declared : w.declaresCritical p = true) :
    ∃ e, Enters now { g with issued := g.issued + 1 } e
        (g.propose now ref (.proposal p) kind none).gate ∧ e.id = g.nextId ∧
      ((w.examine g.registry.vocabulary now p g.store.current).passes = true →
        ∃ r, e = (g.opening w p kind).parkedWith r) ∧
      ((w.examine g.registry.vocabulary now p g.store.current).passes = false →
        ∃ reasons, e = (g.opening w p kind).rejectedFor reasons) := by
  rw [propose_eq hw, Step.gate_after]
  cases passes : (w.examine g.registry.vocabulary now p g.store.current).passes with
  | true =>
    obtain ⟨r, b, hfinding⟩ := Examination.passes_iff.1 passes
    obtain ⟨-, rfl⟩ := Workflow.finding_examine_iff.1 hfinding
    rw [gate_settle, hfinding]
    simp only [declared, or_true, if_true]
    exact ⟨_, (enters_park rfl).of_put rfl, rfl, fun _ => ⟨r, rfl⟩, nofun⟩
  | false =>
    have fails : ∀ r b, (w.examine g.registry.vocabulary now p g.store.current).finding ≠
        .ok (.passed r b) := by
      intro r b hfinding
      rw [Examination.passes_iff.2 ⟨r, b, hfinding⟩] at passes
      cases passes
    have hopen : (g.opening w p kind).IsOpen := .inl rfl
    obtain ⟨reasons, enters⟩ := enters_settle_of_not_passed now hopen fails
    exact ⟨_, enters, rfl, nofun, fun _ => ⟨reasons, rfl⟩⟩

/-- What a decision was when its proposal had been dealt with. -/
theorem exists_examined (hd : d ∈ (g.fresh.after h).decisions)
    (declared : d.workflow.declaresCritical d.proposal = true) :
    ∃ (kind : DecisionKind) (x : Examination) (e : Decision), Examined g.fresh h d kind x ∧
      e.Continues d ∧ (x.passes = true → e.kind = .critical) ∧
      (x.passes = false → e.kind = kind ∧ e.stage = .rejected ∧ e.approval = none) := by
  obtain ⟨kind, before, later, now, ref, rfl, hid, hw⟩ := proposed_of_mem hd
  obtain ⟨e, enters, heid, parks, rejects⟩ := enters_propose_declared now kind hw declared
  have he : e ∈ ((g.fresh.after before).step now
      (.propose ref (.proposal d.proposal) kind)).gate.decisions :=
    (mem_of_find? enters.find?_self).1
  rw [← after_concat] at he
  -- what was entered then is the decision of today
  obtain ⟨c, hc, continues⟩ := (sound_after g _).continues_after (h := later) he
  rw [← after_append, List.append_assoc, List.singleton_append] at hc
  have same : d.id = c.id := hid.symm.trans (heid.symm.trans continues.id.symm)
  obtain rfl := (sound_after g _).eq_of_id hd hc same
  refine ⟨kind, _, e, ⟨before, later, now, ref, rfl, hid, hw, rfl⟩, continues, ?_, ?_⟩
  · intro passes
    obtain ⟨r, rfl⟩ := parks passes
    rfl
  · intro fails
    obtain ⟨reasons, rfl⟩ := rejects fails
    exact ⟨rfl, rfl, rfl⟩

/-- **A decision on what is declared critical is critical, unless it was proposed as routine and did
not pass.**  After any history, every record of a decision tells the kind that the decision has.  If
its workflow declares the proposal critical, the decision is critical exactly if it was proposed as
critical or its proposal passed its validation; a proposal that did not pass left the decision
rejected, of the kind for which it was proposed, and without a question to anybody. -/
theorem critical_unless_refused (g : Gate) (h : History) :
    ∀ d ∈ (g.fresh.after h).decisions, d.workflow.declaresCritical d.proposal = true →
      (∀ r ∈ recordsSince g (g.fresh.after h), r.decisionId = d.id → r.kind = d.kind.name) ∧
      ∃ kind x, Examined g.fresh h d kind x ∧
        (d.kind = .critical ↔ kind = .critical ∨ x.passes = true) ∧
        (x.passes = false → d.kind = kind ∧ d.stage = .rejected ∧ d.approval = none) := by
  intro d hd declared
  refine ⟨fun r hr hid => kind_of_mem_records hd hr hid, ?_⟩
  obtain ⟨kind, x, e, examined, continues, parks, rejects⟩ := exists_examined hd declared
  refine ⟨kind, x, examined, ?_⟩
  cases passes : x.passes with
  | true => simp [continues.kind (parks passes)]
  | false =>
    obtain ⟨hkind, hstage, happroval⟩ := rejects passes
    -- a rejected decision stays as it is
    obtain rfl := continues.made (by rw [hstage]; rfl)
    simp [hkind, hstage, happroval]

/-- A transition that is declared critical is proposed as routine, and its precondition fails. -/
def refusedTransition : History :=
  [(.epoch, .load
      "workflow Delivery { states: [Plan, Build];
        transitions: [critical Plan -> Build requires nonempty[tasks]]; }"),
    (.epoch, .propose (.named "Delivery") (.proposal (.transition "Plan" "Build")) .routine)]

theorem exists_refusedTransition :
    ∃ d ∈ (blank.fresh.after refusedTransition).decisions,
      d.workflow.declaresCritical d.proposal = true ∧ d.kind = .routine := by
  have h : (blank.fresh.after refusedTransition).decisions.any
      (fun d => d.workflow.declaresCritical d.proposal && d.kind == .routine) = true := by
    decide +kernel
  obtain ⟨d, hd, hkind⟩ := List.any_eq_true.1 h
  rw [Bool.and_eq_true, beq_iff_eq] at hkind
  exact ⟨d, hd, hkind⟩

/-- That decision did not pass; it is rejected as routine, and its record says so. -/
theorem routine_refusedTransition :
    ∃ d ∈ (blank.fresh.after refusedTransition).decisions,
      d.workflow.declaresCritical d.proposal = true ∧ d.stage = .rejected ∧
        (∀ r ∈ recordsSince blank (blank.fresh.after refusedTransition), r.decisionId = d.id →
          r.kind = "routine") ∧
        ∃ kind x, Examined blank.fresh refusedTransition d kind x ∧ x.passes = false := by
  obtain ⟨d, hd, declared, routine⟩ := exists_refusedTransition
  obtain ⟨records, kind, x, examined, critical, refused⟩ :=
    critical_unless_refused blank refusedTransition d hd declared
  have fails : x.passes = false := by
    rw [routine, eq_false (by decide : ¬ DecisionKind.routine = .critical), false_iff] at critical
    exact Bool.eq_false_iff.2 fun passes => critical (.inr passes)
  rw [routine] at records
  exact ⟨d, hd, declared, (refused fails).2.1, records, kind, x, examined, fails⟩

/-- So it is not the case that a decision on what is declared critical is always critical, on record
and off it. -/
theorem not_always_critical :
    ¬ ∀ h : History, ∀ d ∈ (blank.fresh.after h).decisions,
      d.workflow.declaresCritical d.proposal = true →
        d.kind = .critical ∧ ∀ r ∈ recordsSince blank (blank.fresh.after h),
          r.decisionId = d.id → r.kind = "critical" := by
  intro always
  obtain ⟨d, hd, declared, routine⟩ := exists_refusedTransition
  have critical := (always refusedTransition d hd declared).1
  rw [routine] at critical
  cases critical

end Gate

end ChangeControl
