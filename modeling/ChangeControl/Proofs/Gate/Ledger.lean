import ChangeControl.Proofs.Gate.History
/-!
The audit log as a ledger.

Each decision that is made leaves one record, at the moment when it is made, and nothing else leaves
any.  So the records that a gate has added are those of the decisions that it has made, one for
each, in the order in which it made them.

Main definitions:

* `Gate.made` — the decisions that are made;
* `Gate.newlyMade`, `Gate.chronicle` — the decisions that an operation and a history make;
* `Gate.recordsSince` — the records that a gate has added.

Main results:

* `Gate.Sound.records_step`, `Gate.recordsSince_eq` — **the added records are those of the made
  decisions**, for an operation and for a history;
* `Gate.perm_chronicle`, `Gate.result_of_mem_chronicle` — what a history makes is what is made after
  it, and what it applies led to the snapshot that was current then;
* `Gate.recordsSince_filter` — a decision that is made has exactly one record.
-/

set_option autoImplicit false

namespace ChangeControl

open Calendar (Timestamp)

/-- A decision that was made, with the moment and the snapshot that was current right after. -/
structure Completion where
  moment : Timestamp
  decision : Decision
  current : Snapshot
deriving DecidableEq, Repr

namespace Gate

variable {P : Timestamp → Prop} {now : Timestamp} {g g' : Gate} {d e : Decision} {o : Operation}

/-! ### Definitions -/

/-- The decisions that are made. -/
def made (g : Gate) : List Decision := g.decisions.filter fun d => d.stage.isTerminal

/-- The decisions that the gate `g'` has made and the gate `g` has not. -/
def newlyMade (g g' : Gate) : List Decision := g'.made.filter fun d => d ∉ g.made

/-- The decisions that a history makes, in the order in which it makes them. -/
def chronicle (g : Gate) : History → List Completion
  | [] => []
  | (now, o) :: h =>
    let g' := (g.step now o).gate
    (newlyMade g g').map (fun d => ⟨now, d, g'.store.current⟩) ++ chronicle g' h

/-- The records of the gate `g` that the gate `first` does not have yet. -/
def recordsSince (first g : Gate) : List AuditRecord :=
  g.audit.records.drop first.audit.records.length

/-! ### One operation -/

/-- An operation that does nothing makes no decision. -/
theorem Idle.newlyMade_eq (h : Idle g g') : newlyMade g g' = [] := by
  have hmade : g'.made = g.made := by rw [made, made, h.decisions]
  rw [newlyMade, hmade, List.filter_eq_nil_iff]
  intro d hd
  simpa using hd

/-- An operation that enters a decision makes that one, or none. -/
theorem Entry.newlyMade_eq (h : Entry P now g g' e) (sound : Sound P g) :
    newlyMade g g' = if e.stage.isTerminal then [e] else [] := by
  have hold : g.made.filter (fun d => d ∉ g.made) = [] := by
    rw [List.filter_eq_nil_iff]
    intro d hd
    simpa using hd
  -- the earlier form of the decision was waiting, so that it was not made before
  have hnew : e ∉ g.made := by
    intro he
    obtain ⟨hmem, hterminal⟩ := List.mem_filter.1 he
    rw [(h.earlier e hmem rfl).1] at hterminal
    exact absurd hterminal (by decide)
  have hperm := (h.perm_filter sound (fun d => d.stage.isTerminal) fun _ hd => hd).filter
    (fun d => d ∉ g.made)
  rw [List.filter_append] at hperm
  change (newlyMade g g').Perm (_ ++ g.made.filter (fun d => d ∉ g.made)) at hperm
  rw [hold, List.append_nil] at hperm
  cases hterminal : e.stage.isTerminal with
  | false => simpa [hterminal] using hperm
  | true => simpa [hterminal, hnew] using hperm

/-- **An operation adds the records of the decisions that it makes.** -/
theorem Sound.records_step (sound : Sound P g) (hnow : P now) (o : Operation) :
    (g.step now o).gate.audit.records =
      g.audit.records ++ (newlyMade g (g.step now o).gate).map (auditRecord now) := by
  rcases (move_step now g o).idle_or_entry sound hnow with idle | ⟨e, entry⟩
  · rw [idle.newlyMade_eq, idle.records, List.map_nil, List.append_nil]
  · rw [entry.newlyMade_eq sound, entry.enters.records]
    cases e.stage.isTerminal <;> rfl

/-- What is made after an operation is what was made before and what the operation makes. -/
theorem Sound.perm_newlyMade (sound : Sound P g) (hnow : P now) (o : Operation) :
    (g.step now o).gate.made.Perm (g.made ++ newlyMade g (g.step now o).gate) := by
  rcases (move_step now g o).idle_or_entry sound hnow with idle | ⟨e, entry⟩
  · rw [idle.newlyMade_eq, List.append_nil, made, made, idle.decisions]
  · rw [entry.newlyMade_eq sound]
    exact (entry.perm_filter sound (fun d => d.stage.isTerminal) fun _ hd => hd).trans
      List.perm_append_comm

/-- What an operation applies has led to the snapshot that is current then. -/
theorem Sound.result_of_mem_newlyMade (sound : Sound P g) (hnow : P now)
    (hd : d ∈ newlyMade g (g.step now o).gate) (applied : d.stage = .applied) :
    d.result = some (g.step now o).gate.store.current := by
  rcases (move_step now g o).idle_or_entry sound hnow with idle | ⟨e, entry⟩
  · rw [idle.newlyMade_eq] at hd
    exact absurd hd List.not_mem_nil
  · rw [entry.newlyMade_eq sound] at hd
    split at hd
    · obtain rfl := List.mem_singleton.1 hd
      exact entry.enters.applied applied
    · exact absurd hd List.not_mem_nil

/-! ### Histories -/

theorem Sound.records_after {h : History} (sound : Sound (fun _ => True) g) :
    (g.after h).audit.records =
      g.audit.records ++ (g.chronicle h).map fun m => auditRecord m.moment m.decision := by
  induction h generalizing g with
  | nil => exact (List.append_nil _).symm
  | cons m h ih =>
    obtain ⟨now, o⟩ := m
    rw [after_cons, ih (sound.step trivial o), sound.records_step trivial o, chronicle,
      List.map_append, List.map_map, List.append_assoc]
    rfl

theorem Sound.perm_made_after {h : History} (sound : Sound (fun _ => True) g) :
    (g.after h).made.Perm (g.made ++ (g.chronicle h).map Completion.decision) := by
  induction h generalizing g with
  | nil => exact List.Perm.of_eq (List.append_nil _).symm
  | cons m h ih =>
    obtain ⟨now, o⟩ := m
    have hdecisions : ((newlyMade g (g.step now o).gate).map fun d =>
        (⟨now, d, (g.step now o).gate.store.current⟩ : Completion)).map Completion.decision =
          newlyMade g (g.step now o).gate := by
      rw [List.map_map]
      exact List.map_id _
    rw [after_cons, chronicle, List.map_append, hdecisions, ← List.append_assoc]
    exact (ih (sound.step trivial o)).trans ((sound.perm_newlyMade trivial o).append_right _)

theorem Sound.result_of_mem_chronicle {h : History} {m : Completion}
    (sound : Sound (fun _ => True) g) (hm : m ∈ g.chronicle h)
    (applied : m.decision.stage = .applied) : m.decision.result = some m.current := by
  induction h generalizing g with
  | nil => exact absurd hm List.not_mem_nil
  | cons m h ih =>
    obtain ⟨now, o⟩ := m
    rcases List.mem_append.1 hm with hm | hm
    · obtain ⟨d, hd, rfl⟩ := List.mem_map.1 hm
      exact sound.result_of_mem_newlyMade trivial hd applied
    · exact ih (sound.step trivial o) hm

/-- **The records that a gate has added are those of the decisions that it has made**, in the order
in which they were made. -/
theorem recordsSince_eq (g : Gate) (h : History) :
    recordsSince g (g.fresh.after h) =
      (g.fresh.chronicle h).map fun m => auditRecord m.moment m.decision := by
  rw [recordsSince, (sound_fresh _ g).records_after]
  exact List.drop_left

/-- What a history makes is what is made after it. -/
theorem perm_chronicle (g : Gate) (h : History) :
    (g.fresh.after h).made.Perm ((g.fresh.chronicle h).map Completion.decision) :=
  (sound_fresh _ g).perm_made_after

theorem result_of_mem_chronicle {h : History} {m : Completion} (hm : m ∈ g.fresh.chronicle h)
    (applied : m.decision.stage = .applied) : m.decision.result = some m.current :=
  (sound_fresh _ g).result_of_mem_chronicle hm applied

/-! ### The records of one decision -/

/-- Without repeated keys, only one entry has the key of an entry. -/
theorem filter_key_eq_singleton {α : Type} (key : α → String) {xs : List α} {x : α}
    (nodup : (xs.map key).Nodup) (hx : x ∈ xs) : (xs.filter fun y => key y == key x) = [x] := by
  induction xs with
  | nil => exact absurd hx List.not_mem_nil
  | cons y ys ih =>
    rw [List.map_cons, List.nodup_cons] at nodup
    rcases List.mem_cons.1 hx with rfl | hx
    · have hnone : (ys.filter fun y => key y == key x) = [] :=
        List.filter_eq_nil_iff.2 fun y hy same =>
          nodup.1 (eq_of_beq same ▸ List.mem_map_of_mem hy)
      rw [List.filter_cons_of_pos (by simp), hnone]
    · have hne : key y ≠ key x := fun same => nodup.1 (same ▸ List.mem_map_of_mem hx)
      rw [List.filter_cons_of_neg (by simpa using hne), ih nodup.2 hx]

/-- A decision that is made has exactly one record, that of the moment when it was made. -/
theorem exists_mem_chronicle {h : History} (hd : d ∈ (g.fresh.after h).decisions)
    (terminal : d.stage.isTerminal = true) :
    ∃ m ∈ g.fresh.chronicle h, m.decision = d ∧
      (recordsSince g (g.fresh.after h)).filter (fun r => r.decisionId == d.id) =
        [auditRecord m.moment d] := by
  have hmem : d ∈ (g.fresh.chronicle h).map Completion.decision :=
    (perm_chronicle g h).mem_iff.1 (List.mem_filter.2 ⟨hd, terminal⟩)
  obtain ⟨m, hm, rfl⟩ := List.mem_map.1 hmem
  -- identifiers are not repeated among the made decisions, and so not in the chronicle
  have hnodup : ((g.fresh.chronicle h).map fun m => m.decision.id).Nodup := by
    have hids : ((g.fresh.after h).made.map Decision.id).Nodup :=
      (sound_after g h).nodup.sublist (List.filter_sublist.map _)
    have hperm := ((perm_chronicle g h).map Decision.id).nodup_iff.1 hids
    rwa [List.map_map] at hperm
  refine ⟨m, hm, rfl, ?_⟩
  rw [recordsSince_eq, List.filter_map]
  have hsingle := filter_key_eq_singleton (fun m : Completion => m.decision.id) hnodup hm
  exact congrArg (List.map fun m => auditRecord m.moment m.decision) hsingle

/-- **A decision that is made has exactly one record.** -/
theorem recordsSince_filter {h : History} (hd : d ∈ (g.fresh.after h).decisions)
    (terminal : d.stage.isTerminal = true) :
    ∃ t, (recordsSince g (g.fresh.after h)).filter (fun r => r.decisionId == d.id) =
      [auditRecord t d] := by
  obtain ⟨m, -, -, hrecord⟩ := exists_mem_chronicle hd terminal
  exact ⟨m.moment, hrecord⟩

/-- A decision that is not made has no record. -/
theorem recordsSince_filter_of_open {h : History} (hd : d ∈ (g.fresh.after h).decisions)
    (unmade : d.stage.isTerminal = false) :
    (recordsSince g (g.fresh.after h)).filter (fun r => r.decisionId == d.id) = [] := by
  rw [recordsSince_eq, List.filter_map, List.map_eq_nil_iff, List.filter_eq_nil_iff]
  intro m hm same
  -- the decision of the record is there as well, and it is made
  obtain ⟨hmem, terminal⟩ := List.mem_filter.1
    ((perm_chronicle g h).mem_iff.2 (List.mem_map_of_mem hm))
  have hid : m.decision.id = d.id := eq_of_beq same
  rw [(sound_after g h).eq_of_id hmem hd hid, unmade] at terminal
  exact absurd terminal (by decide)

/-- The records of a decision tell its kind. -/
theorem kind_of_mem_records {h : History} (hd : d ∈ (g.fresh.after h).decisions) {r : AuditRecord}
    (hr : r ∈ recordsSince g (g.fresh.after h)) (hid : r.decisionId = d.id) :
    r.kind = d.kind.name := by
  have hmem : r ∈ (recordsSince g (g.fresh.after h)).filter fun r => r.decisionId == d.id :=
    List.mem_filter.2 ⟨hr, beq_iff_eq.2 hid⟩
  cases terminal : d.stage.isTerminal with
  | false => exact absurd (recordsSince_filter_of_open hd terminal ▸ hmem) List.not_mem_nil
  | true =>
    obtain ⟨t, hrecords⟩ := recordsSince_filter hd terminal
    rw [hrecords, List.mem_singleton] at hmem
    rw [hmem]
    rfl

end Gate

end ChangeControl
