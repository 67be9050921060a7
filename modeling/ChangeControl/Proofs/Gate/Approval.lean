import ChangeControl.Proofs.Gate.History
/-!
Approving a decision.

An approval takes the result of the earlier validation when the version of the project is still the
one that was validated, and validates again otherwise.  If the clock stands still, nobody can tell
the difference: validating again would find the same result and say nothing.  So an approval applies
what is admitted at that moment, if it can be written, and rejects the decision if nothing is.

Main definitions:

* `Gate.approveAfresh` — an approval that always validates again;
* `Gate.Reached` — a gate that operations at one moment lead to.

Main results:

* `Gate.Parked.examine_eq` — validating again, on the same version, passes the result that is kept;
* `Gate.Sound.approve_eq` — **an approval does what one that always validates again does**;
* `Gate.Sound.find?_approve` — what becomes of the decision;
* `Gate.approve_of_reached` — the same for every gate that operations at one moment lead to;
* `Gate.admitted_not_applied` — that the result can be written is not a matter of course.
-/

set_option autoImplicit false

namespace ChangeControl

open Calendar (Timestamp)

namespace Gate

variable {now : Timestamp} {g : Gate} {d e : Decision} {r : Snapshot} {id : String}
  {approver : Option String}

/-- Somebody approves a decision, and its proposal is validated again in any case. -/
def approveAfresh (now : Timestamp) (g : Gate) (id : String) (approver : Option String) :
    Step Verdict :=
  match g.pending "approve" id with
  | .error e => .fail g e
  | .ok d =>
    let d := d.approvedBy approver
    let g := g.put d
    (g.settle now d (g.examine now d) fun result _ =>
      g.apply now d result g.store.current.version).after [Report.approved d approver]

/-- Operations that all happen at the moment `now` lead to the gate. -/
def Reached (now : Timestamp) (g : Gate) : Prop :=
  ∃ (first : Gate) (operations : List Operation), g = first.fresh.run now operations

/-! ### Validating again -/

theorem examine_eq_of_admits
    (h : d.workflow.Admits g.registry.vocabulary now d.proposal g.store.current r) :
    g.examine now d = ⟨.ok (.passed r (d.workflow.declaresCritical d.proposal)), []⟩ := by
  have hfinding := Workflow.finding_examine_iff.2 ⟨h, rfl⟩
  have hevents := Workflow.events_examine hfinding
  rw [examine]
  cases hx : d.workflow.examine g.registry.vocabulary now d.proposal g.store.current with
  | mk finding events =>
    rw [hx] at hfinding hevents
    rw [← hfinding, ← hevents]

/-- The result that is taken without validation is admitted. -/
theorem Parked.admits (h : Parked (· = now) g d) (hr : cached? d g.store.current = some r) :
    d.workflow.Admits g.registry.vocabulary now d.proposal g.store.current r := by
  obtain ⟨t, rfl, admits⟩ := h.admits_of_cached hr
  exact admits

/-- **While the version is the same, validating again passes the result that is kept.** -/
theorem Parked.examine_eq (h : Parked (· = now) g d)
    (same : d.baseVersion.map Version.toInt = some g.store.current.version.toInt) :
    ∃ r, d.result = some r ∧
      g.examine now d = ⟨.ok (.passed r (d.workflow.declaresCritical d.proposal)), []⟩ := by
  obtain ⟨r, hr, hcached⟩ := h.cached_of_version same
  exact ⟨r, hr, examine_eq_of_admits (h.admits hcached)⟩

/-! ### Approving -/

/-- **An approval does what one that always validates again does**: the gate, the answer and the
events are the same. -/
theorem Sound.approve_eq (sound : Sound (· = now) g) (id : String) (approver : Option String) :
    g.approve now id approver none = g.approveAfresh now id approver := by
  rw [approve, approveAfresh]
  cases hpending : g.pending "approve" id with
  | error e => rfl
  | ok d =>
    obtain ⟨found, waits⟩ := pending_eq_ok_iff.1 hpending
    have hparked := sound.parked d (mem_of_find? found).1 waits
    -- on the same version, the second validation passes just the kept result, without a word
    have hexamine : ∀ r, cached? d g.store.current = some r →
        (g.put (d.approvedBy approver)).examine now (d.approvedBy approver) =
          ⟨.ok (.passed r (d.workflow.declaresCritical d.proposal)), []⟩ := by
      intro r hr
      exact examine_eq_of_admits (g := g) (d := d) (hparked.admits hr)
    have hchange : d.change [.approval (some .approved), .approver approver] =
        d.approvedBy approver := rfl
    have hcached : cached? (d.approvedBy approver)
        (g.put (d.approvedBy approver)).store.current = cached? d g.store.current := rfl
    simp only [hchange, hcached, applyAfter_none]
    cases hkept : cached? d g.store.current with
    | none => rfl
    | some r =>
      rw [hexamine r hkept]
      rfl

/-- What becomes of a decision that is approved: it is applied if its proposal is admitted and the
result can be written, it waits on if the result cannot be written, and it is rejected if the
proposal is not admitted. -/
theorem Sound.find?_approve (sound : Sound (· = now) g) (approver : Option String)
    (found : g.find? id = some d) (waits : d.stage = .pendingApproval) :
    (∃ r, d.workflow.Admits g.registry.vocabulary now d.proposal g.store.current r ∧
      g.CanStore r ∧ (g.approve now id approver none).gate.find? id =
        some ((d.approvedBy approver).appliedWith r)) ∨
    (∃ r, d.workflow.Admits g.registry.vocabulary now d.proposal g.store.current r ∧
      ¬g.CanStore r ∧ (g.approve now id approver none).gate.find? id =
        some (d.approvedBy approver)) ∨
    (∀ r, ¬d.workflow.Admits g.registry.vocabulary now d.proposal g.store.current r) ∧
      ∃ reasons, (g.approve now id approver none).gate.find? id =
        some ((d.approvedBy approver).rejectedFor reasons) := by
  have hopen : (d.approvedBy approver).IsOpen := .inr waits
  have free : (d.approvedBy approver).lacksApproval = false := by
    rw [Decision.lacksApproval, Bool.and_eq_false_iff]
    exact .inr rfl
  obtain ⟨-, hid⟩ := mem_of_find? found
  have hgate : (g.approveAfresh now id approver).gate =
      ((g.put (d.approvedBy approver)).settle now (d.approvedBy approver) (g.examine now d)
        fun result _ => (g.put (d.approvedBy approver)).apply now (d.approvedBy approver) result
          g.store.current.version).gate := by
    rw [approveAfresh, pending_eq_ok_iff.2 ⟨found, waits⟩]
    rfl
  rw [sound.approve_eq, hgate]
  by_cases hadmits : ∃ r,
      d.workflow.Admits g.registry.vocabulary now d.proposal g.store.current r
  · obtain ⟨r, admits⟩ := hadmits
    rw [gate_settle, examine_eq_of_admits admits]
    have enters : Enters now g
        (if g.CanStore r then (d.approvedBy approver).appliedWith r else d.approvedBy approver)
        ((g.put (d.approvedBy approver)).apply now (d.approvedBy approver) r
          g.store.current.version).gate := enters_apply hopen free
    by_cases hstore : g.CanStore r
    · rw [if_pos hstore] at enters
      exact .inl ⟨r, admits, hstore, hid ▸ enters.find?_self⟩
    · rw [if_neg hstore] at enters
      exact .inr (.inl ⟨r, admits, hstore, hid ▸ enters.find?_self⟩)
  · rw [not_exists] at hadmits
    have hfails : ∀ r b, (g.examine now d).finding ≠ .ok (.passed r b) := by
      intro r b passes
      exact hadmits r (Workflow.finding_examine_iff.1 passes).1
    obtain ⟨reasons, enters⟩ := enters_settle_of_not_passed now hopen hfails
    exact .inr (.inr ⟨hadmits, reasons, hid ▸ enters.find?_self⟩)

/-! ### Gates that are reached -/

/-- What a gate keeps was validated at the only moment there is. -/
theorem Reached.sound (h : Reached now g) : Sound (· = now) g := by
  obtain ⟨first, operations, rfl⟩ := h
  rw [run_eq_after]
  apply sound_after_fresh
  intro m hm
  obtain ⟨o, -, rfl⟩ := List.mem_map.1 hm
  rfl

/-- **An approval in a gate that is reached.**  While the version is the same, validating again
passes the result that is kept and says nothing; approving is approving with a second validation in
any case; and the decision is applied exactly when its proposal is admitted now and the result can
be written, which is never in doubt without a file, and rejected exactly when its proposal is not
admitted. -/
theorem approve_of_reached (h : Reached now g) (approver : Option String)
    (found : g.find? id = some d) (waits : d.stage = .pendingApproval) :
    (d.baseVersion.map Version.toInt = some g.store.current.version.toInt →
      ∃ r critical, d.result = some r ∧ g.examine now d = ⟨.ok (.passed r critical), []⟩) ∧
    g.approve now id approver none = g.approveAfresh now id approver ∧
    ((∃ e, (g.approve now id approver none).gate.find? id = some e ∧ e.stage = .applied) ↔
      ∃ r, d.workflow.Admits g.registry.vocabulary now d.proposal g.store.current r ∧
        g.CanStore r) ∧
    (g.store.path = none → ∀ r, g.CanStore r) ∧
    ((∃ e, (g.approve now id approver none).gate.find? id = some e ∧ e.stage = .rejected) ↔
      ∀ r, ¬d.workflow.Admits g.registry.vocabulary now d.proposal g.store.current r) := by
  have hparked := h.sound.parked d (mem_of_find? found).1 waits
  -- only one decision is found, and it is at one stage
  have hstage : ∀ {e : Decision} (s : Stage),
      (g.approve now id approver none).gate.find? id = some e →
      ((∃ c, (g.approve now id approver none).gate.find? id = some c ∧ c.stage = s) ↔
        e.stage = s) := by
    intro e s he
    simp [he]
  refine ⟨?_, h.sound.approve_eq id approver, ?_⟩
  · intro same
    obtain ⟨r, hr, hexamine⟩ := hparked.examine_eq same
    exact ⟨r, _, hr, hexamine⟩
  rcases h.sound.find?_approve approver found waits with
    ⟨r, admits, store, he⟩ | ⟨r, admits, store, he⟩ | ⟨none, reasons, he⟩
  · rw [hstage .applied he, hstage .rejected he]
    exact ⟨⟨fun _ => ⟨r, admits, store⟩, fun _ => rfl⟩, canStore_of_path_eq_none, nofun,
      fun none => absurd admits (none r)⟩
  · have hwaits : (d.approvedBy approver).stage = .pendingApproval := waits
    rw [hstage .applied he, hstage .rejected he, hwaits]
    refine ⟨⟨nofun, ?_⟩, canStore_of_path_eq_none, nofun, fun none => absurd admits (none r)⟩
    rintro ⟨r', admits', store'⟩
    obtain rfl := admits'.unique admits
    exact absurd store' store
  · rw [hstage .applied he, hstage .rejected he]
    exact ⟨⟨nofun, fun ⟨r, admits, _⟩ => absurd admits (none r)⟩, canStore_of_path_eq_none,
      fun _ => none, fun _ => rfl⟩

/-- A workflow is loaded, and a task is to be put into the backlog, which somebody must approve. -/
def criticalTask : List Operation :=
  [.load "workflow Delivery { states: [Plan]; }",
    .propose (.named "Delivery") (.proposal (.taskMove ⟨"T1", .backlog, none, none⟩)) .critical]

/-- The decision about that task waits. -/
theorem find?_criticalTask :
    ∃ d, (blank.fresh.run .epoch criticalTask).find? "d1" = some d ∧
      d.stage = .pendingApproval := by
  have h : ((blank.fresh.run .epoch criticalTask).find? "d1").any
      (fun d => d.stage == .pendingApproval) = true := by decide +kernel
  obtain ⟨d, hd, waits⟩ := (Option.any_eq_true _ _).1 h
  exact ⟨d, hd, eq_of_beq waits⟩

/-- In a small gate, too, an approval does what one that always validates again does. -/
theorem approve_criticalTask :
    (blank.fresh.run .epoch criticalTask).approve .epoch "d1" (some "ann") none =
      (blank.fresh.run .epoch criticalTask).approveAfresh .epoch "d1" (some "ann") := by
  obtain ⟨d, found, waits⟩ := find?_criticalTask
  exact (approve_of_reached ⟨blank, criticalTask, rfl⟩ (some "ann") found waits).2.1

/-- A small gate with a snapshot file that cannot be written: a file is where its directory should
be. -/
def blocked : Gate :=
  { blank with
    store := { blank.store with path := some (.ofText "blocked/snapshot.json") }
    disk := ⟨[(⟨false, 0, ["blocked".toList]⟩, "")], []⟩ }

/-- A proposal that is admitted is not always applied when it is approved: the snapshot that it
leads to may be impossible to write. -/
theorem admitted_not_applied :
    ∃ d, (blocked.fresh.run .epoch criticalTask).find? "d1" = some d ∧
      d.stage = .pendingApproval ∧
      (∃ r, d.workflow.Admits (blocked.fresh.run .epoch criticalTask).registry.vocabulary .epoch
        d.proposal (blocked.fresh.run .epoch criticalTask).store.current r) ∧
      ¬∃ e, ((blocked.fresh.run .epoch criticalTask).approve .epoch "d1" (some "ann")
        none).gate.find? "d1" = some e ∧ e.stage = .applied := by
  have h : ((blocked.fresh.run .epoch criticalTask).find? "d1").any
      (fun d => d.stage == .pendingApproval &&
        ((blocked.fresh.run .epoch criticalTask).examine .epoch d).passes) = true := by
    decide +kernel
  have h' : (((blocked.fresh.run .epoch criticalTask).approve .epoch "d1" (some "ann")
      none).gate.find? "d1").any (fun d => d.stage == .applied) = false := by decide +kernel
  obtain ⟨d, hd, hpasses⟩ := (Option.any_eq_true _ _).1 h
  rw [Bool.and_eq_true, beq_iff_eq] at hpasses
  obtain ⟨r, b, hfinding⟩ := Examination.passes_iff.1 hpasses.2
  refine ⟨d, hd, hpasses.1, ⟨r, (Workflow.finding_examine_iff.1 hfinding).1⟩, ?_⟩
  rintro ⟨e, he, applied⟩
  simp [he, applied] at h'

end Gate

end ChangeControl
