import ChangeControl.Calendar.Timestamp
import ChangeControl.Project
/-!
Snapshots: a project at one moment.

Snapshots are never changed; each change to a project makes the next one, whose version is one
higher.

Main definitions:

* `Version` — a whole number, which a file may also write as a truth value;
* `Snapshot`, `Snapshot.evolve` — the successor that holds another project.

Main statements:

* `Snapshot.version_evolve` — the successor's version is one higher.
-/

set_option autoImplicit false

namespace ChangeControl

open Calendar (Timestamp)

/-- The version of a snapshot.  A snapshot file may write the versions 0 and 1 as truth values, and
they are written back as such. -/
inductive Version
  | number (n : Int)
  | flag (b : Bool)
deriving DecidableEq, Repr

/-- The number of a version. -/
def Version.toInt : Version → Int
  | number n => n
  | flag b => if b then 1 else 0

/-- A project with a version and the moment at which it was current. -/
structure Snapshot where
  project : Project
  version : Version
  clock : Timestamp
deriving DecidableEq, Repr

namespace Snapshot

/-- The first snapshot of a project. -/
def first (now : Timestamp) (p : Project) : Snapshot := ⟨p, .number 0, now⟩

/-- The successor that holds the project `p`. -/
def evolve (now : Timestamp) (s : Snapshot) (p : Project) : Snapshot :=
  ⟨p, .number (s.version.toInt + 1), now⟩

@[simp] theorem project_evolve (now : Timestamp) (s : Snapshot) (p : Project) :
    (s.evolve now p).project = p := rfl

@[simp] theorem version_evolve (now : Timestamp) (s : Snapshot) (p : Project) :
    (s.evolve now p).version.toInt = s.version.toInt + 1 := rfl

end Snapshot

end ChangeControl
