import ChangeControl.Proofs.Calendar.RoundTrip
import ChangeControl.Storage.Store
/-!
Who may swap a snapshot.

Callers read the current snapshot, prepare another one, and swap it in under the version of the
snapshot that they have read.  A store looks at that version only.  So a swap is refused exactly if
the version has moved, and what it was prepared from may have been replaced all the same, by
another snapshot of the same version.  Where every snapshot that is swapped in has a higher version
than the one it replaces, as the successor of a snapshot has, a version never comes back, and a swap
succeeds only on the snapshot that it was prepared from.

Main definitions:

* `Store.Call`, `Call.basedOn` — a call of the swap, and one that is prepared from a snapshot;
* `Call.Succeeds`, `Call.Refused` — what becomes of it;
* `Store.afterCalls` — a disk and a store after several calls;
* `Store.Rising` — every snapshot that is swapped in has a higher version than the replaced one.

Main results:

* `Call.refused_basedOn_iff`, `Call.succeeds_basedOn_iff` — what decides is the version;
* `Store.rising_of_evolved` — versions rise if callers swap in successors of what they have read;
* `Store.Rising.stays_or_rises` — in rising calls the store is the same or has a higher version;
* `Store.refused_once_replaced` — **then a swap is refused once what it was prepared from has been
  replaced**, and of two swaps prepared from one snapshot at most one succeeds;
* `Store.not_refused_once_replaced` — a snapshot of the same version lets a swap through.
-/

set_option autoImplicit false

namespace ChangeControl

open Storage (Disk)

namespace Store

variable {s : Disk × Store} {base next : Snapshot}

/-! ### Calls -/

/-- A call of the swap. -/
structure Call where
  next : Snapshot
  expected : Json

namespace Call

variable {c : Call}

/-- The call that swaps in a snapshot which was prepared from another one. -/
def basedOn (base next : Snapshot) : Call := ⟨next, base.version.toJson⟩

/-- The snapshot becomes the current one. -/
def Succeeds (c : Call) (s : Disk × Store) : Prop :=
  ∃ d, s.2.swap s.1 c.next c.expected = (.ok { s.2 with current := c.next }, d)

/-- The version is not the current one any more, and nothing is written. -/
def Refused (c : Call) (s : Disk × Store) : Prop :=
  s.2.swap s.1 c.next c.expected = (.error (.stale c.expected s.2.current.version), s.1)

theorem refused_iff :
    c.Refused s ↔ c.expected.isWhole s.2.current.version.toInt = false := by
  unfold Refused swap
  constructor
  · intro h
    refine Bool.eq_false_iff.2 fun same => ?_
    rw [if_pos same] at h
    split at h <;> simp at h
  · intro differ
    rw [if_neg (Bool.eq_false_iff.1 differ)]

theorem succeeds_iff :
    c.Succeeds s ↔ c.expected.isWhole s.2.current.version.toInt = true ∧
      ∃ d, save s.1 s.2.path c.next = (d, none) := by
  constructor
  · rintro ⟨d, h⟩
    obtain ⟨same, -, written⟩ := (swap_eq_ok_iff _ _ _ _ _ _).1 h
    exact ⟨same, d, written⟩
  · rintro ⟨same, d, written⟩
    exact ⟨d, (swap_eq_ok_iff _ _ _ _ _ _).2 ⟨same, rfl, written⟩⟩

/-- **A swap is refused exactly if the version has moved.** -/
theorem refused_basedOn_iff :
    (basedOn base next).Refused s ↔ s.2.current.version.toInt ≠ base.version.toInt := by
  rw [refused_iff, basedOn, Version.isWhole_toJson, decide_eq_false_iff_not, ne_comm]

theorem succeeds_basedOn_iff :
    (basedOn base next).Succeeds s ↔ s.2.current.version.toInt = base.version.toInt ∧
      ∃ d, save s.1 s.2.path next = (d, none) := by
  rw [succeeds_iff, basedOn, Version.isWhole_toJson, decide_eq_true_iff, eq_comm]

end Call

/-! ### What calls leave -/

/-- The disk and the store after a call. -/
def afterCall (s : Disk × Store) (c : Call) : Disk × Store :=
  match s.2.swap s.1 c.next c.expected with
  | (.ok store, d) => (d, store)
  | (.error _, d) => (d, s.2)

/-- The disk and the store after several calls. -/
def afterCalls (s : Disk × Store) (calls : List Call) : Disk × Store := calls.foldl afterCall s

@[simp] theorem afterCalls_nil (s : Disk × Store) : afterCalls s [] = s := rfl

@[simp] theorem afterCalls_cons (s : Disk × Store) (c : Call) (calls : List Call) :
    afterCalls s (c :: calls) = afterCalls (afterCall s c) calls := rfl

theorem afterCalls_append (s : Disk × Store) (calls later : List Call) :
    afterCalls s (calls ++ later) = afterCalls (afterCalls s calls) later :=
  List.foldl_append

theorem afterCall_of_refused {c : Call} (h : c.Refused s) : afterCall s c = s := by
  rw [afterCall, h]

theorem afterCall_of_succeeds {c : Call} (h : c.Succeeds s) :
    (afterCall s c).2 = { s.2 with current := c.next } := by
  obtain ⟨d, h⟩ := h
  rw [afterCall, h]

/-- A call that does not succeed leaves the store as it was. -/
theorem afterCall_of_not_succeeds {c : Call} (h : ¬ c.Succeeds s) : (afterCall s c).2 = s.2 := by
  unfold afterCall
  split
  · next store d swapped =>
    obtain ⟨-, rfl, -⟩ := (swap_eq_ok_iff _ _ _ _ _ _).1 swapped
    exact absurd ⟨d, swapped⟩ h
  · rfl

/-! ### Rising versions -/

/-- Every snapshot that is swapped in has a higher version than the one it replaces. -/
def Rising (s : Disk × Store) : List Call → Prop
  | [] => True
  | c :: calls =>
    (c.Succeeds s → s.2.current.version.toInt < c.next.version.toInt) ∧
      Rising (afterCall s c) calls

theorem rising_append (calls : List Call) {later : List Call} :
    Rising s (calls ++ later) ↔ Rising s calls ∧ Rising (afterCalls s calls) later := by
  induction calls generalizing s with
  | nil => simp [Rising]
  | cons c calls ih => simp only [List.cons_append, Rising, ih, afterCalls_cons, and_assoc]

/-- Versions rise if every caller swaps in a successor of the snapshot that it was prepared from. -/
theorem rising_of_evolved {calls : List Call}
    (evolved : ∀ c ∈ calls, ∃ base now p, c = .basedOn base (base.evolve now p)) :
    Rising s calls := by
  induction calls generalizing s with
  | nil => trivial
  | cons c calls ih =>
    refine ⟨?_, ih fun c' mem => evolved c' (List.mem_cons_of_mem c mem)⟩
    obtain ⟨base, now, p, rfl⟩ := evolved c List.mem_cons_self
    intro succeeds
    have version := (Call.succeeds_basedOn_iff.1 succeeds).1
    simp only [Call.basedOn, Snapshot.version_evolve, version]
    omega

theorem version_le_of_stays_or_rises {t : Disk × Store}
    (h : t.2 = s.2 ∨ s.2.current.version.toInt < t.2.current.version.toInt) :
    s.2.current.version.toInt ≤ t.2.current.version.toInt := by
  rcases h with same | rises
  · exact Int.le_of_eq (by rw [same])
  · exact Int.le_of_lt rises

theorem Rising.lt_afterCall {c : Call} {calls : List Call} (rising : Rising s (c :: calls))
    (succeeds : c.Succeeds s) :
    s.2.current.version.toInt < (afterCall s c).2.current.version.toInt := by
  rw [afterCall_of_succeeds succeeds]
  exact rising.1 succeeds

/-- **In rising calls the store is the same or has a higher version.** -/
theorem Rising.stays_or_rises {calls : List Call} (rising : Rising s calls) :
    (afterCalls s calls).2 = s.2 ∨
      s.2.current.version.toInt < (afterCalls s calls).2.current.version.toInt := by
  induction calls generalizing s with
  | nil => exact .inl rfl
  | cons c calls ih =>
    have run := ih rising.2
    rw [afterCalls_cons]
    by_cases succeeds : c.Succeeds s
    · -- from the higher version on it never falls
      exact .inr (Int.lt_of_lt_of_le (rising.lt_afterCall succeeds)
        (version_le_of_stays_or_rises run))
    · rwa [afterCall_of_not_succeeds succeeds] at run

/-- The version is higher for good when a call has succeeded. -/
theorem Rising.lt_afterCalls {c : Call} {calls : List Call} (rising : Rising s (c :: calls))
    (succeeds : c.Succeeds s) :
    s.2.current.version.toInt < (afterCalls s (c :: calls)).2.current.version.toInt :=
  Int.lt_of_lt_of_le (rising.lt_afterCall succeeds)
    (version_le_of_stays_or_rises rising.2.stays_or_rises)

/-- Where a version has come back, the store has not changed. -/
theorem Rising.eq_of_version {calls : List Call} (rising : Rising s calls)
    (version : (afterCalls s calls).2.current.version.toInt = s.2.current.version.toInt) :
    (afterCalls s calls).2 = s.2 := by
  rcases rising.stays_or_rises with same | rises
  · exact same
  · omega

/-- **A swap is refused once what it was prepared from has been replaced**, where versions rise.
In any case it is refused exactly if the version has moved, which leaves the store and the disk as
they were, and succeeds exactly if the version is the same and the snapshot can be written.  Where
versions rise, this means that the snapshot which was read is still current, and a swap is refused
after another one that was prepared from the same snapshot has succeeded. -/
theorem refused_once_replaced (s : Disk × Store) (calls : List Call) (next : Snapshot) :
    let base := s.2.current
    let c := Call.basedOn base next
    let later := afterCalls s calls
    (c.Refused later ↔ later.2.current.version.toInt ≠ base.version.toInt) ∧
    (c.Refused later → afterCall later c = later) ∧
    (c.Succeeds later ↔ later.2.current.version.toInt = base.version.toInt ∧
      ∃ d, save later.1 later.2.path next = (d, none)) ∧
    (Rising s calls →
      (c.Succeeds later → later.2.current = base) ∧
      (later.2.current ≠ base → c.Refused later) ∧
      ∀ before other between, calls = before ++ .basedOn base other :: between →
        (Call.basedOn base other).Succeeds (afterCalls s before) → c.Refused later) := by
  intro base c later
  refine ⟨Call.refused_basedOn_iff, afterCall_of_refused, Call.succeeds_basedOn_iff, ?_⟩
  intro rising
  refine ⟨?_, ?_, ?_⟩
  · intro succeeds
    exact congrArg current (rising.eq_of_version (Call.succeeds_basedOn_iff.1 succeeds).1)
  · intro replaced
    refine Call.refused_basedOn_iff.2 fun version => replaced ?_
    exact congrArg current (rising.eq_of_version version)
  · rintro before other between rfl succeeds
    have rest := ((rising_append before).1 rising).2
    have version : (afterCalls s before).2.current.version.toInt = base.version.toInt :=
      (Call.succeeds_basedOn_iff.1 succeeds).1
    have higher := rest.lt_afterCalls succeeds
    rw [version, ← afterCalls_append] at higher
    exact Call.refused_basedOn_iff.2 (Int.ne_of_gt higher)

/-- The first snapshot of a project without tasks and commits. -/
def bare (state : String) : Snapshot :=
  .first .leapNight ⟨state, [], [], List.nodup_nil, List.nodup_nil⟩

/-- A store in memory, before two callers swap in what they have prepared from its snapshot. -/
def bareStore : Disk × Store := (.empty, ⟨none, bare "A"⟩)

/-- The second caller is refused if the first one has swapped in a successor. -/
theorem refused_bareStore :
    let first := Call.basedOn (bare "A") ((bare "A").evolve .leapNight (bare "B").project)
    let second := Call.basedOn (bare "A") (bare "C")
    Rising bareStore [first] ∧ first.Succeeds bareStore ∧
      second.Refused (afterCalls bareStore [first]) := by
  intro first second
  have rising : Rising bareStore [first] := rising_of_evolved fun c mem =>
    ⟨bare "A", .leapNight, (bare "B").project, List.mem_singleton.1 mem⟩
  have succeeds : first.Succeeds bareStore := ⟨.empty, rfl⟩
  have law := refused_once_replaced bareStore [first] (bare "C")
  exact ⟨rising, succeeds, (law.2.2.2 rising).2.2 [] _ [] rfl succeeds⟩

/-- **The second caller is let through** if the first one has swapped in a snapshot of the same
version, although the snapshot that both have read is not current any more. -/
theorem not_refused_once_replaced :
    let first := Call.basedOn (bare "A") (bare "B")
    let second := Call.basedOn (bare "A") (bare "C")
    first.Succeeds bareStore ∧ (afterCall bareStore first).2.current ≠ bare "A" ∧
      second.Succeeds (afterCall bareStore first) ∧
      (afterCall (afterCall bareStore first) second).2.current = bare "C" := by
  intro first second
  exact ⟨⟨.empty, rfl⟩, by decide, ⟨.empty, rfl⟩, rfl⟩

end Store

end ChangeControl
