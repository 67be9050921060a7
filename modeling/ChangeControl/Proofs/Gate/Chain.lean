import ChangeControl.Proofs.Gate.Refinement
import ChangeControl.Proofs.Gate.Trail
/-!
The applied records as a chain of snapshots.

A record names two digests, that of the snapshot at the base of a decision and that of the snapshot
that the decision led to.  The second one is always right: each applied decision replaces the
snapshot that the one before led to.  The first one is written when the decision is proposed, and an
approval that validates the proposal again on a younger snapshot leaves it there.  So the records
are a chain of snapshots exactly if every decision was applied on the snapshot that was current when
it was proposed.

Main definitions:

* `Decision.StandsOn` — a decision whose base is a given snapshot;
* `Gate.applications` — the decisions that a history applies, with the snapshots before and after;
* `Gate.ProposedOn` — the snapshot that was current when a decision was proposed;
* `AuditRecord.Chained`, `Gate.ChainedTrail` — records that are a chain of snapshots.

Main results:

* `Gate.follows_applications` — each application replaces what the one before led to;
* `Gate.ProposedOn.standsOn` — **the base is the snapshot on which the decision was proposed**;
* `Gate.base_of_mem_applications` — that is the snapshot that was replaced, or an older one;
* `Gate.snapshots_of_trail` — **the applied records and their snapshots**, and when they are a
  chain.
-/

set_option autoImplicit false

namespace ChangeControl

open Calendar (Timestamp)

/-! ### Links and chains -/

/-- The base of the decision is the snapshot: its version and its digest are on the decision. -/
structure Decision.StandsOn (d : Decision) (s : Snapshot) : Prop where
  version : d.baseVersion = some s.version
  digest : d.baseDigest = some s.digest

/-- A decision that was applied, with the moment and the two snapshots. -/
structure Application where
  moment : Timestamp
  decision : Decision
  /-- The snapshot that was current right before. -/
  replaced : Snapshot
  /-- The snapshot that was current right after. -/
  result : Snapshot

namespace Application

/-- The application, as a decision that was made. -/
def completion (a : Application) : Completion := ⟨a.moment, a.decision, a.result⟩

/-- The record of the application. -/
def record (a : Application) : AuditRecord := a.completion.record

/-- Every application replaces the snapshot that the one before led to, and the first one a given
snapshot. -/
def Follows : Snapshot → List Application → Prop
  | _, [] => True
  | s, a :: later => a.replaced = s ∧ Follows a.result later

end Application

/-- Every record has the digest at its base that the record before led to, and the first one a given
digest. -/
def AuditRecord.Chained : Option String → List AuditRecord → Prop
  | _, [] => True
  | digest, r :: later => r.baseDigest = digest ∧ Chained r.resultDigest later

instance AuditRecord.decidableChained :
    (digest : Option String) → (rs : List AuditRecord) → Decidable (Chained digest rs)
  | _, [] => inferInstanceAs (Decidable True)
  | digest, r :: later =>
    have := decidableChained r.resultDigest later
    inferInstanceAs (Decidable (r.baseDigest = digest ∧ Chained r.resultDigest later))

theorem Application.resultDigest_record {a : Application} (applied : a.decision.stage = .applied) :
    a.record.resultDigest = some a.result.digest :=
  if_pos applied

/-- Where every application replaces what the one before led to, the records are a chain exactly if
each one has the digest of the replaced snapshot at its base. -/
theorem Application.Follows.chained_iff {s : Snapshot} {as : List Application}
    (follows : Follows s as) (applied : ∀ a ∈ as, a.decision.stage = .applied) :
    AuditRecord.Chained (some s.digest) (as.map record) ↔
      ∀ a ∈ as, a.decision.baseDigest = some a.replaced.digest := by
  induction as generalizing s with
  | nil => simp [AuditRecord.Chained]
  | cons a later ih =>
    obtain ⟨rfl, follows⟩ := follows
    obtain ⟨ha, applied⟩ := List.forall_mem_cons.1 applied
    rw [List.map_cons, AuditRecord.Chained, resultDigest_record ha, ih follows applied,
      List.forall_mem_cons]
    rfl

/-! ### Commits -/

theorem Project.commits_of_withCommit {p q : Project} {commit : Commit}
    (h : p.withCommit commit = .ok q) : q.commits = p.commits ++ [commit] := by
  unfold withCommit at h
  split at h
  · cases h
  · obtain rfl := Except.ok.inj h
    rfl

/-- A commit is recorded as the last one, to be reverted to the snapshot that it is allowed on. -/
theorem Workflow.Allows.exists_revertTarget {w : Workflow} {vocabulary : Vocabulary}
    {now : Timestamp} {s r : Snapshot} {c : NewCommit}
    (h : w.Allows vocabulary now s (.commit c) r) :
    ∃ commit, r.project.commits = s.project.commits ++ [commit] ∧
      commit.revertTarget = some s.digest := by
  cases h with
  | commit recorded undone =>
    have hcommits := Project.commits_of_withCommit recorded
    rw [NewCommit.commits_journalMentioned] at hcommits
    exact ⟨_, hcommits, rfl⟩

namespace Gate

variable {P : Timestamp → Prop} {now : Timestamp} {g g' : Gate} {d e : Decision} {o : Operation}
  {s : Snapshot} {h : History} {a : Application}

/-! ### Definitions -/

/-- The decisions that the gate `g'` has applied and the gate `g` has not made. -/
def newlyApplied (g g' : Gate) : List Decision :=
  (newlyMade g g').filter fun d => d.stage == .applied

/-- The applications of a history, in their order. -/
def applications (g : Gate) : History → List Application
  | [] => []
  | (now, o) :: h =>
    let g' := (g.step now o).gate
    (newlyApplied g g').map (fun d => ⟨now, d, g.store.current, g'.store.current⟩) ++
      applications g' h

/-- The records of applied decisions that the gate `g` has and the gate `first` does not have
yet. -/
def appliedRecords (first g : Gate) : List AuditRecord :=
  (recordsSince first g).filter fun r => r.verdict == Stage.applied.name

/-- In the history that begins with the gate `g`, the decision `d` was created by a proposal that
was made when the snapshot `s` was current. -/
def ProposedOn (g : Gate) (h : History) (d : Decision) (s : Snapshot) : Prop :=
  ∃ (before later : History) (now : Timestamp) (ref : WorkflowRef) (kind : DecisionKind),
    h = before ++ (now, .propose ref (.proposal d.proposal) kind) :: later ∧
      (g.after before).nextId = d.id ∧ (g.after before).workflow? ref = .ok d.workflow ∧
        (g.after before).store.current = s

/-- The applied records of a history are a chain that starts at the first snapshot; every applied
decision has the snapshot that it replaced at its base; and that is where its commit, if it records
one, can be reverted to. -/
structure ChainedTrail (g : Gate) (h : History) : Prop where
  records : AuditRecord.Chained (some g.store.current.digest) (appliedRecords g (g.fresh.after h))
  bases : ∀ a ∈ applications g.fresh h, a.decision.StandsOn a.replaced
  targets : ∀ a ∈ applications g.fresh h, ∀ c, a.decision.proposal = .commit c →
    ∃ commit, a.result.project.commits = a.replaced.project.commits ++ [commit] ∧
      commit.revertTarget = a.decision.baseDigest

/-! ### Applications -/

/-- An operation applies no decision and leaves the snapshot, or it applies one. -/
theorem Sound.newlyApplied_cases (sound : Sound P g) (now : Timestamp) (hnow : P now)
    (o : Operation) :
    (newlyApplied g (g.step now o).gate = [] ∧
        (g.step now o).gate.store.current = g.store.current) ∨
      ∃ e, newlyApplied g (g.step now o).gate = [e] ∧ e.stage = .applied ∧
        Entry P now g (g.step now o).gate e := by
  rcases (move_step now g o).idle_or_entry sound hnow with idle | ⟨e, entry⟩
  · refine .inl ⟨?_, idle.current⟩
    rw [newlyApplied, idle.newlyMade_eq, List.filter_nil]
  · rw [newlyApplied, entry.newlyMade_eq sound]
    by_cases applied : e.stage = .applied
    · exact .inr ⟨e, by simp [applied, Stage.isTerminal], applied, entry⟩
    · refine .inl ⟨?_, entry.enters.unapplied applied⟩
      cases e.stage.isTerminal <;> simp [applied]

/-- **Each application replaces what the one before led to.** -/
theorem follows_applications (sound : Sound (fun _ => True) g) (h : History) :
    Application.Follows g.store.current (applications g h) := by
  induction h generalizing g with
  | nil => exact trivial
  | cons m h ih =>
    obtain ⟨now, o⟩ := m
    have hsound : Sound (fun _ => True) (g.step now o).gate := sound.step trivial o
    have rest := ih hsound
    rw [applications]
    rcases sound.newlyApplied_cases now trivial o with ⟨none, same⟩ | ⟨e, one, -, -⟩
    · rwa [none, ← same]
    · rw [one]
      exact ⟨rfl, rest⟩

/-- The applications are what a chronicle holds of applied decisions. -/
theorem map_completion_applications (g : Gate) (h : History) :
    (applications g h).map Application.completion =
      (g.chronicle h).filter fun m => m.decision.stage == .applied := by
  induction h generalizing g with
  | nil => rfl
  | cons m h ih =>
    obtain ⟨now, o⟩ := m
    rw [applications, chronicle, List.map_append, List.filter_append, ih, List.filter_map,
      List.map_map]
    rfl

/-- **The applied records are those of the applications.** -/
theorem appliedRecords_eq (g : Gate) (h : History) :
    appliedRecords g (g.fresh.after h) = (applications g.fresh h).map Application.record := by
  have hrecords : recordsSince g (g.fresh.after h) =
      (g.fresh.chronicle h).map Completion.record := by
    rw [recordsSince_eq]
    exact List.map_congr_left fun m hm => record_of_mem_chronicle hm
  have hverdict : (fun r : AuditRecord => r.verdict == Stage.applied.name) ∘ Completion.record =
      fun m => m.decision.stage == .applied := by
    funext m
    cases hstage : m.decision.stage <;> simp [Completion.record, hstage, Stage.name]
  rw [appliedRecords, hrecords, List.filter_map, hverdict, ← map_completion_applications,
    List.map_map]
  rfl

/-- An application happens at an operation of the history. -/
theorem exists_of_mem_applications (ha : a ∈ applications g h) :
    ∃ before now o later, h = before ++ (now, o) :: later ∧
      a.decision ∈ newlyApplied (g.after before) ((g.after before).step now o).gate ∧
        a.replaced = (g.after before).store.current ∧
          a.result = ((g.after before).step now o).gate.store.current := by
  induction h generalizing g with
  | nil => exact absurd ha List.not_mem_nil
  | cons m h ih =>
    obtain ⟨now, o⟩ := m
    rcases List.mem_append.1 ha with here | later
    · obtain ⟨d, hd, rfl⟩ := List.mem_map.1 here
      exact ⟨[], now, o, h, rfl, hd, rfl, rfl⟩
    · obtain ⟨before, t, p, rest, rfl, happlied, hreplaced, hresult⟩ := ih later
      exact ⟨(now, o) :: before, t, p, rest, rfl, happlied, hreplaced, hresult⟩

/-- That operation enters the decision as an applied one, and replaces the snapshot. -/
theorem entry_of_mem_applications (ha : a ∈ applications g.fresh h) :
    ∃ before now o later, h = before ++ (now, o) :: later ∧ a.decision.stage = .applied ∧
      Entry (fun _ => True) now (g.fresh.after before) (g.fresh.after (before ++ [(now, o)]))
        a.decision ∧
      a.replaced = (g.fresh.after before).store.current ∧
        a.result = (g.fresh.after (before ++ [(now, o)])).store.current := by
  obtain ⟨before, now, o, later, rfl, happlied, hreplaced, hresult⟩ :=
    exists_of_mem_applications ha
  refine ⟨before, now, o, later, rfl, ?_⟩
  rw [after_concat]
  rcases (sound_after g before).newlyApplied_cases now trivial o with
    ⟨none, -⟩ | ⟨e, one, applied, entry⟩
  · rw [none] at happlied
    exact absurd happlied List.not_mem_nil
  · rw [one, List.mem_singleton] at happlied
    exact ⟨happlied ▸ applied, happlied ▸ entry, hreplaced, hresult⟩

theorem stage_of_mem_applications (ha : a ∈ applications g.fresh h) :
    a.decision.stage = .applied := by
  obtain ⟨-, -, -, -, -, applied, -⟩ := entry_of_mem_applications ha
  exact applied

/-- What is applied stays among the decisions. -/
theorem mem_decisions_of_mem_applications (ha : a ∈ applications g.fresh h) :
    a.decision ∈ (g.fresh.after h).decisions := by
  obtain ⟨before, now, o, later, rfl, applied, entry, -, -⟩ := entry_of_mem_applications ha
  have hmem := (entry.mem_decisions_iff (sound_after g before)).2 (.inl rfl)
  have hstays := (sound_after g _).stays_after (h := later) hmem (by rw [applied]; rfl)
  rwa [← after_append, List.append_assoc, List.singleton_append] at hstays

/-- An applied commit can be reverted to the snapshot that was replaced. -/
theorem exists_revertTarget {c : NewCommit} (ha : a ∈ applications g.fresh h)
    (commits : a.decision.proposal = .commit c) :
    ∃ commit, a.result.project.commits = a.replaced.project.commits ++ [commit] ∧
      commit.revertTarget = some a.replaced.digest := by
  obtain ⟨before, now, o, later, -, applied, entry, hreplaced, hresult⟩ :=
    entry_of_mem_applications ha
  obtain ⟨t, -, admits⟩ := entry.admits applied
  rw [commits] at admits
  rw [hreplaced, hresult]
  exact admits.allowed.exists_revertTarget

/-! ### Bases -/

/-- A decision stands on its base whatever an operation does. -/
theorem Move.standsOn (m : Move now g o g') (sound : Sound P g) (hd : d ∈ g.decisions)
    (he : e ∈ g'.decisions) (same : d.id = e.id) (stands : d.StandsOn s) : e.StandsOn s := by
  -- a decision that was there before is the one with its identifier
  have hold : e ∈ g.decisions → e.StandsOn s := by
    intro old
    exact sound.eq_of_id hd old same ▸ stands
  cases m with
  | idle idle => exact hold (idle.decisions ▸ he)
  | settles reads fate enters =>
    rcases enters.eq_or_mem sound.nodup he with rfl | old
    · cases fate <;> exact absurd same (sound.nextId_ne hd)
    · exact hold old
  | parks reads admits critical enters =>
    rcases enters.eq_or_mem sound.nodup he with rfl | old
    · exact absurd same (sound.nextId_ne hd)
    · exact hold old
  | approves found waits fate enters =>
    rcases enters.eq_or_mem sound.nodup he with rfl | old
    · have hc := (mem_of_find? found).1
      cases fate <;>
      · obtain rfl := sound.eq_of_id hd hc same
        exact ⟨stands.version, stands.digest⟩
    · exact hold old
  | refuses target found waits form enters =>
    rcases enters.eq_or_mem sound.nodup he with rfl | old
    · have hc := (mem_of_find? found).1
      rcases form with rfl | ⟨approver, rfl⟩ <;>
      · obtain rfl := sound.eq_of_id hd hc same
        exact ⟨stands.version, stands.digest⟩
    · exact hold old

/-- A decision stands on its base for ever. -/
theorem Sound.standsOn_after (sound : Sound (fun _ => True) g) (hd : d ∈ g.decisions)
    (stands : d.StandsOn s) :
    ∃ e ∈ (g.after h).decisions, e.id = d.id ∧ e.StandsOn s := by
  induction h generalizing g d with
  | nil => exact ⟨d, hd, rfl, stands⟩
  | cons m h ih =>
    obtain ⟨c, hc, continues⟩ := sound.continues_step m.1 m.2 hd
    have hstands := (move_step m.1 g m.2).standsOn sound hd hc continues.id.symm stands
    obtain ⟨e, he, hid, hstands⟩ := ih (sound.step trivial m.2) hc hstands
    exact ⟨e, he, hid.trans continues.id, hstands⟩

/-- A proposal to a workflow that is there creates a decision that stands on the current
snapshot. -/
theorem standsOn_of_propose {ref : WorkflowRef} {w : Workflow} (now : Timestamp) (p : Proposal)
    (kind : DecisionKind) (reads : g.workflow? ref = .ok w) :
    ∃ c ∈ (g.step now (.propose ref (.proposal p) kind)).gate.decisions,
      c.id = g.nextId ∧ c.StandsOn g.store.current := by
  obtain ⟨c, enters, form, -⟩ := enters_propose now p kind reads
  refine ⟨c, (mem_of_find? enters.find?_self).1, ?_⟩
  rcases form with fate | ⟨r, -, -, rfl⟩
  · cases fate <;> exact ⟨rfl, rfl, rfl⟩
  · exact ⟨rfl, rfl, rfl⟩

/-- **A decision stands on the snapshot that was current when it was proposed.** -/
theorem ProposedOn.standsOn (proposed : ProposedOn g.fresh h d s)
    (hd : d ∈ (g.fresh.after h).decisions) : d.StandsOn s := by
  obtain ⟨before, later, now, ref, kind, rfl, hid, hw, rfl⟩ := proposed
  obtain ⟨c, hc, hcid, stands⟩ := standsOn_of_propose now d.proposal kind hw
  rw [← after_concat] at hc
  -- what was created then is the decision of today
  obtain ⟨e, he, heid, stands⟩ := (sound_after g _).standsOn_after (h := later) hc stands
  rw [← after_append, List.append_assoc, List.singleton_append] at he
  have same : d.id = e.id := hid.symm.trans (hcid.symm.trans heid.symm)
  obtain rfl := (sound_after g _).eq_of_id hd he same
  exact stands

/-- Every decision was proposed on some snapshot. -/
theorem exists_proposedOn (hd : d ∈ (g.fresh.after h).decisions) :
    ∃ s, ProposedOn g.fresh h d s := by
  obtain ⟨kind, before, later, now, ref, hsplit, hid, hw⟩ := proposed_of_mem hd
  exact ⟨_, before, later, now, ref, kind, hsplit, hid, hw, rfl⟩

theorem ProposedOn.append (proposed : ProposedOn g h d s) (later : History) :
    ProposedOn g (h ++ later) d s := by
  obtain ⟨before, rest, now, ref, kind, rfl, found⟩ := proposed
  exact ⟨before, rest ++ later, now, ref, kind, by simp, found⟩

/-! ### Bases of applied decisions -/

/-- The version does not fall, and while it stays the snapshot stays. -/
theorem Sound.current_after (sound : Sound (fun _ => True) g) (h : History) :
    g.store.current.version.toInt ≤ (g.after h).store.current.version.toInt ∧
      ((g.after h).store.current.version.toInt = g.store.current.version.toInt →
        (g.after h).store.current = g.store.current) := by
  obtain ⟨ds, -, leads⟩ := sound.leads (h := h) fun _ _ => trivial
  have hversion := leads.version
  refine ⟨by omega, ?_⟩
  intro same
  have hlength : ds.length = 0 := by omega
  obtain rfl := List.eq_nil_of_length_eq_zero hlength
  exact leads.eq_of_nil

/-- The snapshot on which an applied decision was proposed is the one that it replaced, or it has an
earlier version; and no snapshot has an earlier version than the first one. -/
theorem base_of_mem_applications (ha : a ∈ applications g.fresh h) :
    ∃ s, ProposedOn g.fresh h a.decision s ∧ a.decision.StandsOn s ∧
      g.store.current.version.toInt ≤ s.version.toInt ∧
        (s = a.replaced ∨ s.version.toInt < a.replaced.version.toInt) := by
  obtain ⟨before, now, o, later, rfl, -, entry, hreplaced, -⟩ := entry_of_mem_applications ha
  have hmem := (entry.mem_decisions_iff (sound_after g before)).2 (.inl rfl)
  obtain ⟨s, proposed⟩ := exists_proposedOn hmem
  have stands := proposed.standsOn hmem
  have happend := proposed.append later
  rw [List.append_assoc, List.singleton_append] at happend
  obtain ⟨start, rest, t, ref, kind, hsplit, -, -, rfl⟩ := proposed
  refine ⟨_, happend, stands, ((sound_fresh (fun _ => True) g).current_after start).1, ?_⟩
  -- the proposal is the operation that applies the decision, or it comes earlier
  have hdrop := congrArg List.dropLast hsplit
  rw [List.dropLast_concat, List.dropLast_append_of_ne_nil (List.cons_ne_nil _ _)] at hdrop
  rw [hreplaced, hdrop, after_append]
  obtain ⟨hle, hsame⟩ := (sound_after g start).current_after
    (List.dropLast ((t, .propose ref (.proposal a.decision.proposal) kind) :: rest))
  rcases Int.lt_or_eq_of_le hle with lt | same
  · exact .inr lt
  · exact .inl (hsame same.symm).symm

/-- An applied decision stands on the snapshot that it replaced exactly if this was current when it
was proposed, and the version alone tells. -/
theorem proposedOn_replaced_iff (ha : a ∈ applications g.fresh h) :
    ProposedOn g.fresh h a.decision a.replaced ↔
      a.decision.baseVersion = some a.replaced.version := by
  obtain ⟨s, proposed, stands, -, rfl | older⟩ := base_of_mem_applications ha
  · exact ⟨fun _ => stands.version, fun _ => proposed⟩
  · constructor
    · intro replaced
      exact (replaced.standsOn (mem_decisions_of_mem_applications ha)).version
    · intro same
      rw [stands.version, Option.some.injEq] at same
      rw [same] at older
      exact absurd older (Int.lt_irrefl _)

/-- The first decision that is applied stands on the first snapshot. -/
theorem standsOn_of_mem_head (ha : a ∈ (applications g.fresh h).head?) :
    a.decision.StandsOn g.store.current := by
  obtain ⟨later, happlications⟩ := List.head?_eq_some_iff.1 ha
  have hmem : a ∈ applications g.fresh h := by
    rw [happlications]
    exact List.mem_cons_self
  have follows := follows_applications (sound_fresh (fun _ => True) g) h
  rw [happlications] at follows
  have first : a.replaced = g.store.current := follows.1
  obtain ⟨s, -, stands, lower, rfl | older⟩ := base_of_mem_applications hmem
  · exact first ▸ stands
  · -- nothing is older than the first snapshot
    rw [first] at older
    exact absurd older (Int.not_lt.2 lower)

/-! ### Chains -/

/-- The applied records are a chain of snapshots exactly if every decision was applied on the
snapshot that was current when it was proposed. -/
theorem chainedTrail_iff (g : Gate) (h : History) :
    ChainedTrail g h ↔
      ∀ a ∈ applications g.fresh h, ProposedOn g.fresh h a.decision a.replaced := by
  constructor
  · intro chained a ha
    exact (proposedOn_replaced_iff ha).2 (chained.bases a ha).version
  · intro prompt
    have bases : ∀ a ∈ applications g.fresh h, a.decision.StandsOn a.replaced := by
      intro a ha
      exact (prompt a ha).standsOn (mem_decisions_of_mem_applications ha)
    refine ⟨?_, bases, ?_⟩
    · rw [appliedRecords_eq]
      have follows := follows_applications (sound_fresh (fun _ => True) g) h
      refine (follows.chained_iff fun a ha => stage_of_mem_applications ha).2 ?_
      intro a ha
      exact (bases a ha).digest
    · intro a ha c commits
      obtain ⟨commit, hcommits, htarget⟩ := exists_revertTarget ha commits
      exact ⟨commit, hcommits, htarget.trans (bases a ha).digest.symm⟩

/-- **The applied records and their snapshots.**  The applied records are those of the applications
of a history, in their order, and each application replaces the snapshot that the one before led to.
At the base of an applied decision is the snapshot that was current when it was proposed, which is
the one that it replaced, or one with an earlier version; for the first application it is the first
snapshot.  So the records are a chain of snapshots exactly if every decision was applied on the
snapshot on which it was proposed. -/
theorem snapshots_of_trail (g : Gate) (h : History) :
    appliedRecords g (g.fresh.after h) = (applications g.fresh h).map Application.record ∧
    Application.Follows g.store.current (applications g.fresh h) ∧
    (∀ a ∈ applications g.fresh h, ∃ s, ProposedOn g.fresh h a.decision s ∧
      a.decision.StandsOn s ∧ (s = a.replaced ∨ s.version.toInt < a.replaced.version.toInt)) ∧
    (∀ a ∈ (applications g.fresh h).head?, a.decision.StandsOn g.store.current) ∧
    (ChainedTrail g h ↔
      ∀ a ∈ applications g.fresh h, ProposedOn g.fresh h a.decision a.replaced) := by
  refine ⟨appliedRecords_eq g h, follows_applications (sound_fresh _ g) h, ?_, ?_,
    chainedTrail_iff g h⟩
  · intro a ha
    obtain ⟨s, proposed, stands, -, older⟩ := base_of_mem_applications ha
    exact ⟨s, proposed, stands, older⟩
  · intro a ha
    exact standsOn_of_mem_head ha

/-- A transition is applied at once, and a critical commit is approved before anything else
happens. -/
def promptHistory : History :=
  [(.epoch, .load "workflow Delivery { states: [Plan, Build]; transitions: [Plan -> Build]; }"),
    (.epoch, .propose (.named "Delivery") (.proposal (.transition "Plan" "Build")) .routine),
    (.epoch, .propose (.named "Delivery") (.proposal (.commit ⟨"c1", "done", none⟩)) .critical),
    (.epoch, .approve "d2" (some "ann"))]

/-- The two records of that history are a chain. -/
theorem chainedTrail_promptHistory :
    (applications blank.fresh promptHistory).length = 2 ∧ ChainedTrail blank promptHistory := by
  obtain ⟨hlength, hversions⟩ : (applications blank.fresh promptHistory).length = 2 ∧
      ∀ a ∈ applications blank.fresh promptHistory,
        a.decision.baseVersion = some a.replaced.version := by decide +kernel
  refine ⟨hlength, (snapshots_of_trail blank promptHistory).2.2.2.2.2 ?_⟩
  intro a ha
  exact (proposedOn_replaced_iff ha).2 (hversions a ha)

/-- The same commit is proposed before the transition and approved after it. -/
def lateHistory : History :=
  [(.epoch, .load "workflow Delivery { states: [Plan, Build]; transitions: [Plan -> Build]; }"),
    (.epoch, .propose (.named "Delivery") (.proposal (.commit ⟨"c1", "done", none⟩)) .critical),
    (.epoch, .propose (.named "Delivery") (.proposal (.transition "Plan" "Build")) .routine),
    (.epoch, .approve "d1" (some "ann"))]

/-- The records of that history are no chain: the commit has the digest of the first snapshot at its
base, and not the one that the transition led to. -/
theorem not_chainedTrail_lateHistory : ¬ ChainedTrail blank lateHistory := by
  intro chained
  have broken : ¬ AuditRecord.Chained (some blank.store.current.digest)
      (appliedRecords blank (blank.fresh.after lateHistory)) := by decide +kernel
  exact broken chained.records

end Gate

end ChangeControl
