import ChangeControl.Proofs.Snapshot.RoundTrip
import ChangeControl.Proofs.Storage.Files
import ChangeControl.Proofs.Storage.Swap
/-!
A store that is started again.

The file of a store holds its current snapshot from the first swap on: a swap writes before the
snapshot becomes the current one, a refused swap writes nothing, and one that fails on the way
leaves the file that was there.  From the text of the file the snapshot is read back.  So a store
may be started again at any time, and nobody sees a difference.

Main definitions:

* `Store.Act`, `Store.run` — calls and restarts, one after the other;
* `Store.Begun` — a snapshot was swapped in, or the store was started from a file of a store;
* `Store.Kept` — the file holds the current snapshot.

Main results:

* `Storage.readSnapshot_fileText` — **a snapshot is read back from its file**;
* `Store.Kept.afterCall` — whatever becomes of a call, the file holds the current snapshot;
* `Store.Kept.run` — restarts leave everything as it is;
* `Store.survives_restarts` — **a store that is started again has the snapshot it had**.
-/

set_option autoImplicit false

namespace ChangeControl

open Calendar (Timestamp)
open Storage

/-- **A snapshot is read back from its file**, if its clock can be read. -/
theorem Storage.readSnapshot_fileText (now : Timestamp) (p : Path) {s : Snapshot}
    (readable : s.clock.Readable) : readSnapshot now p (fileText s.toJson) = .ok s := by
  obtain ⟨fields, shape⟩ : ∃ fields, s.toJson = .obj fields := ⟨_, rfl⟩
  have data := read?_fileText s.regular_toJson
  have snapshot := Snapshot.ofJson_toJson now readable
  rw [shape] at data snapshot ⊢
  simp only [readSnapshot, data, snapshot]

namespace Store

variable {p : Path} {s : Disk × Store} {saved : Snapshot}

/-! ### Acts -/

/-- What is done on a path: a call of the swap, or a restart. -/
inductive Act
  | call (c : Call)
  /-- A new store is started on the path, with a snapshot for the case that there is no file. -/
  | restart (now : Timestamp) (initial : Option Snapshot)

/-- The disk and the store after an act.  A restart can fail, and leaves no store then. -/
def Act.step (s : Disk × Store) : Act → Except StartError (Disk × Store)
  | call c => .ok (afterCall s c)
  | restart now initial =>
    match start now s.1 s.2.path initial with
    | .ok store => .ok (s.1, store)
    | .error e => .error e

/-- The disk and the store after several acts, up to a restart that fails. -/
def run (s : Disk × Store) : List Act → Except StartError (Disk × Store)
  | [] => .ok s
  | a :: acts =>
    match a.step s with
    | .ok s => run s acts
    | .error e => .error e

/-- The calls among some acts. -/
def callsOf : List Act → List Call
  | [] => []
  | .call c :: acts => c :: callsOf acts
  | .restart _ _ :: acts => callsOf acts

/-! ### The file holds the current snapshot -/

/-- The file of a store holds its current snapshot, which can be read back. -/
structure Kept (p : Path) (s : Disk × Store) : Prop where
  path : s.2.path = some p
  file : s.1.look p = .file (fileText s.2.current.toJson)
  readable : s.2.current.clock.Readable

theorem start_of_file {d : Disk} (now : Timestamp) (initial : Option Snapshot)
    (file : d.look p = .file (fileText saved.toJson)) (readable : saved.clock.Readable) :
    start now d (some p) initial = .ok ⟨some p, saved⟩ := by
  simp only [start, file, readSnapshot_fileText now p readable]

theorem Kept.start (kept : Kept p s) (now : Timestamp) (initial : Option Snapshot) :
    start now s.1 (some p) initial = .ok s.2 := by
  rw [start_of_file now initial kept.file kept.readable, ← kept.path]

theorem kept_of_succeeds {c : Call} (path : s.2.path = some p)
    (readable : c.next.clock.Readable) (succeeds : c.Succeeds s) : Kept p (afterCall s c) := by
  obtain ⟨d, swapped⟩ := succeeds
  have after : Store.afterCall s c = (d, { s.2 with current := c.next }) := by
    rw [afterCall, swapped]
  rw [after]
  exact ⟨path, look_of_swap swapped p path, readable⟩

/-- A call that does not succeed leaves the file as it was. -/
theorem look_of_not_succeeds {c : Call} {text : String} (path : s.2.path = some p)
    (file : s.1.look p = .file text) (fails : ¬ c.Succeeds s) :
    (afterCall s c).1.look p = .file text := by
  by_cases same : c.expected.isWhole s.2.current.version.toInt = true
  · -- the version is right, so that the writing has failed
    cases saving : save s.1 s.2.path c.next with
    | mk d fault =>
      cases fault with
      | none => exact absurd (Call.succeeds_iff.2 ⟨same, d, saving⟩) fails
      | some fault =>
        have left : (afterCall s c).1 = d := by
          simp only [afterCall, swap, same, saving, if_true]
        simp only [save, path] at saving
        rw [left]
        exact Disk.look_of_replace_error file saving
  · rw [afterCall_of_refused (Call.refused_iff.2 (Bool.eq_false_iff.2 same))]
    exact file

/-- **Whatever becomes of a call, the file holds the current snapshot.** -/
theorem Kept.afterCall {c : Call} (kept : Kept p s) (readable : c.next.clock.Readable) :
    Kept p (afterCall s c) := by
  by_cases succeeds : c.Succeeds s
  · exact kept_of_succeeds kept.path readable succeeds
  · have same := afterCall_of_not_succeeds succeeds
    refine ⟨same ▸ kept.path, ?_, same ▸ kept.readable⟩
    rw [same]
    exact look_of_not_succeeds kept.path kept.file succeeds

/-- **Restarts leave everything as it is.** -/
theorem Kept.run {acts : List Act} (kept : Kept p s)
    (readable : ∀ c ∈ callsOf acts, c.next.clock.Readable) :
    run s acts = .ok (afterCalls s (callsOf acts)) ∧ Kept p (afterCalls s (callsOf acts)) := by
  induction acts generalizing s with
  | nil => exact ⟨rfl, kept⟩
  | cons a acts ih =>
    cases a with
    | call c =>
      rw [callsOf, List.forall_mem_cons] at readable
      exact ih (kept.afterCall readable.1) readable.2
    | restart now initial =>
      have started := kept.start now initial
      rw [← kept.path] at started
      simp only [Store.run, Act.step, started]
      exact ih kept readable

/-! ### Where it begins -/

/-- A store with a path, after a first swap has succeeded or after a start from a file that some
store has written. -/
inductive Begun (p : Path) : Disk × Store → Prop
  | swapped {s : Disk × Store} {c : Call} (path : s.2.path = some p)
      (readable : c.next.clock.Readable) (succeeds : c.Succeeds s) : Begun p (afterCall s c)
  | loaded {d : Disk} {store : Store} {saved : Snapshot} (now : Timestamp)
      (initial : Option Snapshot) (file : d.look p = .file (fileText saved.toJson))
      (readable : saved.clock.Readable) (started : start now d (some p) initial = .ok store) :
      Begun p (d, store)

theorem Begun.kept (begun : Begun p s) : Kept p s := by
  cases begun with
  | swapped path readable succeeds => exact kept_of_succeeds path readable succeeds
  | loaded now initial file readable started =>
    rw [start_of_file now initial file readable] at started
    obtain rfl := Except.ok.inj started
    exact ⟨rfl, file, readable⟩

/-- **A store that is started again has the snapshot it had.**  The text that is written for a
snapshot stands for that snapshot, whatever its texts are, if some text stands for its clock.  And
once a store has begun to keep its snapshot in a file, no restart fails, whatever is swapped in
between, whether it succeeds or not: everything is as it would be without the restarts, and a store
that is started on the path, with any initial value, is the store that was running. -/
theorem survives_restarts (p : Path) :
    (∀ now s, s.clock.Readable → readSnapshot now p (fileText s.toJson) = .ok s) ∧
    ∀ s, Begun p s → ∀ acts, (∀ c ∈ callsOf acts, c.next.clock.Readable) →
      run s acts = .ok (afterCalls s (callsOf acts)) ∧
      ∀ now initial, start now (afterCalls s (callsOf acts)).1 (some p) initial =
        .ok (afterCalls s (callsOf acts)).2 := by
  refine ⟨fun now s readable => readSnapshot_fileText now p readable, ?_⟩
  intro s begun acts readable
  obtain ⟨runs, kept⟩ := begun.kept.run readable
  exact ⟨runs, kept.start⟩

/-- A path with a directory on the way. -/
def snapshotPath : Path := .ofText "data/snapshot.json"

/-- The step from the stage A to the stage B. -/
def firstMove : Call :=
  .basedOn (bare "A") ((bare "A").evolve .leapNight (bare "B").project)

/-- A store with a path that has made that step. -/
def movedStore : Disk × Store := afterCall (.empty, ⟨some snapshotPath, bare "A"⟩) firstMove

/-- Two restarts, and between them a call that comes too late. -/
def lateCall : List Act :=
  [.restart .leapNight none, .call (.basedOn (bare "A") (bare "C")),
    .restart .leapNight (some (bare "D"))]

/-- The store is still at the stage B. -/
theorem start_movedStore :
    run movedStore lateCall = .ok movedStore ∧
      start .leapNight movedStore.1 (some snapshotPath) (some (bare "E")) =
        .ok ⟨some snapshotPath, firstMove.next⟩ := by
  have succeeds : firstMove.Succeeds (.empty, ⟨some snapshotPath, bare "A"⟩) :=
    Call.succeeds_iff.2 ⟨rfl, _, rfl⟩
  have begun : Begun snapshotPath movedStore :=
    .swapped rfl Timestamp.readable_leapNight succeeds
  have moved : movedStore.2 = ⟨some snapshotPath, firstMove.next⟩ :=
    afterCall_of_succeeds succeeds
  have late : afterCalls movedStore (callsOf lateCall) = movedStore := by
    have refused : (Call.basedOn (bare "A") (bare "C")).Refused movedStore := by
      rw [Call.refused_basedOn_iff, moved]
      decide
    exact afterCall_of_refused refused
  have readable : ∀ c ∈ callsOf lateCall, c.next.clock.Readable := by
    intro c mem
    obtain rfl := List.mem_singleton.1 mem
    exact Timestamp.readable_leapNight
  obtain ⟨runs, started⟩ := (survives_restarts snapshotPath).2 movedStore begun lateCall readable
  rw [late] at runs started
  exact ⟨runs, moved ▸ started .leapNight (some (bare "E"))⟩

end Store

end ChangeControl
