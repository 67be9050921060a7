import ChangeControl.Json.Reader
import ChangeControl.Snapshot.Json
import ChangeControl.Storage.Disk
/-!
The current snapshot of a project.

A store holds one snapshot, and the only way to change it is to swap it for another one, naming the
version that it is meant to follow.  A store with a path keeps its snapshot in a file as well, and
starts from that file when it is there.  A snapshot that cannot be written does not become the
current one.

Main definitions:

* `Store`, `Store.start` — a store, and starting one;
* `StartError` — why a store cannot start;
* `Store.swap`, `SwapError` — the swap, and why it is refused.

Main statements:

* `Store.swap_eq_ok_iff` — a swap succeeds exactly when the version is still current and the
  snapshot can be written;
* `Store.look_of_swap` — the file holds the current snapshot after a swap.
-/

set_option autoImplicit false

namespace ChangeControl

open Calendar (Timestamp)

namespace Storage

/-- Why a store cannot start. -/
inductive StartError
  /-- There is neither a snapshot nor a file. -/
  | nothing
  | storage (e : Fault)
  /-- The file is no JSON. -/
  | unreadable
  | notObject (path : Path)
  | data (e : DataError)
deriving DecidableEq, Repr

/-- One sentence on the error. -/
def StartError.message : StartError → String
  | nothing => "SnapshotStore needs an initial snapshot or an existing snapshot file"
  | storage e => e.message
  | unreadable => ""
  | notObject path => "Snapshot file does not hold a JSON object: " ++ path.text
  | data e => e.message

/-- Why a swap is refused. -/
inductive SwapError
  /-- It names a version that is not the current one. -/
  | stale (expected : Json) (current : Version)
  /-- The snapshot cannot be written. -/
  | storage (e : Fault)
deriving Repr

/-- One sentence on the refusal. -/
def SwapError.message : SwapError → String
  | stale expected current =>
    "Snapshot moved from version " ++ expected.display ++ " to " ++ current.text
  | storage e => e.message

/-- The text of a file that holds some data. -/
def fileText (data : Json) : String := data.print .file ++ "\n"

/-- The snapshot in a file. -/
def readSnapshot (now : Timestamp) (path : Path) (text : String) : Except StartError Snapshot :=
  match Json.read? text with
  | none => .error .unreadable
  | some (.obj fields) =>
    match Snapshot.ofJson now (.obj fields) with
    | .error e => .error (.data e)
    | .ok s => .ok s
  | some _ => .error (.notObject path)

end Storage

open Storage

/-- The current snapshot, and the file that it is kept in. -/
structure Store where
  path : Option Path
  current : Snapshot
deriving DecidableEq, Repr

namespace Store

/-- A store that starts from the file at its path, or else from `initial`. -/
def start (now : Timestamp) (d : Disk) (path : Option Path) (initial : Option Snapshot) :
    Except StartError Store :=
  let fresh : Except StartError Store :=
    match initial with
    | none => .error .nothing
    | some s => .ok ⟨path, s⟩
  match path with
  | none => fresh
  | some p =>
    match d.look p with
    | .nothing => fresh
    | .directory => .error (.storage .isDirectory)
    | .fault e => .error (.storage e)
    | .file text =>
      match readSnapshot now p text with
      | .error e => .error e
      | .ok s => .ok ⟨some p, s⟩

/-- The disk with a snapshot in the file of the store, if it has one. -/
def save (d : Disk) (path : Option Path) (s : Snapshot) : Disk × Option Fault :=
  match path with
  | none => (d, none)
  | some p => d.replace p (fileText s.toJson)

/-- The store with `next` in the place of the current snapshot, if that still has the version
`expected`, and the disk. -/
def swap (d : Disk) (store : Store) (next : Snapshot) (expected : Json) :
    Except SwapError Store × Disk :=
  if expected.isWhole store.current.version.toInt then
    match save d store.path next with
    | (d, some e) => (.error (.storage e), d)
    | (d, none) => (.ok { store with current := next }, d)
  else (.error (.stale expected store.current.version), d)

theorem swap_eq_ok_iff (d d' : Disk) (store store' : Store) (next : Snapshot) (expected : Json) :
    store.swap d next expected = (.ok store', d') ↔
      expected.isWhole store.current.version.toInt = true ∧
        store' = { store with current := next } ∧ save d store.path next = (d', none) := by
  unfold swap
  split
  · next same =>
    split
    · next failed => simp [failed]
    · next written => simp [same, written, eq_comm]
  · next differ => simp [differ]

theorem look_of_swap {d d' : Disk} {store store' : Store} {next : Snapshot} {expected : Json}
    (h : store.swap d next expected = (.ok store', d')) :
    ∀ p ∈ store'.path, d'.look p = .file (fileText next.toJson) := by
  obtain ⟨-, rfl, written⟩ := (swap_eq_ok_iff _ _ _ _ _ _).1 h
  intro p is
  have path : store.path = some p := is
  simp only [save, path] at written
  exact Disk.look_of_replace written

end Store

end ChangeControl
