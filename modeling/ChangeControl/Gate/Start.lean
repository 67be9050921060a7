import ChangeControl.Gate
import ChangeControl.Settings
/-!
Starting a gate.

Main definitions:

* `StartFailure` — why a gate cannot start;
* `Gate.start` — a gate that keeps its snapshot and its audit log in files, or in memory only;
* `Gate.inMemory`, `Gate.ofSettings` — with settings that tell only the time limit, and with
  settings that also tell the files;
* `Gate.restart` — another gate on the same files, workflows and identifiers.

Main statements:

* `Gate.disk_of_start` — starting a gate writes nothing.
-/

set_option autoImplicit false

namespace ChangeControl

open Calendar (Timestamp)
open Log (Event)
open Decimal (Binary64)
open Storage (Disk Path StartError)

/-- Why a gate cannot start. -/
inductive StartFailure
  | store (e : StartError)
  | audit (e : AuditError)
deriving DecidableEq, Repr

namespace Report

/-- What a store tells when it starts: whether it took its snapshot from a file. -/
def storeStarted (d : Disk) (store : Store) : List Event :=
  match store.path with
  | none => []
  | some p =>
    match d.look p with
    | .file _ => [snapshotLoaded p store.current]
    | .directory | .nothing | .fault _ => []

end Report

namespace Gate

/-- Where a gate keeps its snapshot and its audit log. -/
structure Files where
  snapshot : Option Path
  audit : Option Path
deriving DecidableEq, Repr

/-- A gate that takes up what its files hold, or else the snapshot `initial`, and what is told to
the log, even if it cannot start. -/
def start (now : Timestamp) (registry : Registry) (d : Disk) (files : Files)
    (initial : Option Snapshot) (timeout : Option Binary64) (issued : Nat) :
    Except StartFailure Gate × List Event :=
  match Store.start now d files.snapshot initial with
  | .error e => (.error (.store e), [])
  | .ok store =>
    let events := Report.storeStarted d store
    match AuditLog.start d files.audit with
    | .error e => (.error (.audit e), events)
    | .ok audit => (.ok ⟨registry, store, audit, d, timeout, [], issued⟩, events)

theorem disk_of_start {now : Timestamp} {registry : Registry} {d : Disk} {files : Files}
    {initial : Option Snapshot} {timeout : Option Binary64} {issued : Nat} {g : Gate}
    (h : (start now registry d files initial timeout issued).1 = .ok g) : g.disk = d := by
  unfold start at h
  split at h
  · simp at h
  · simp only at h
    split at h
    · simp at h
    · simp only [Except.ok.injEq] at h
      rw [← h]

/-- A gate without files. -/
def inMemory (now : Timestamp) (registry : Registry) (d : Disk) (initial : Option Snapshot)
    (settings : Settings) : Except StartFailure Gate × List Event :=
  start now registry d ⟨none, none⟩ initial settings.timeout 0

/-- A gate with the files that settings tell. -/
def ofSettings (now : Timestamp) (registry : Registry) (d : Disk) (initial : Option Snapshot)
    (settings : Settings) : Except StartFailure Gate × List Event :=
  start now registry d ⟨settings.snapshotPath, settings.auditPath⟩ initial settings.timeout 0

/-- Another gate in the place of this one, with the same files, workflows and time limit.  Decisions
are forgotten, and their identifiers are not given again. -/
def restart (now : Timestamp) (g : Gate) (initial : Option Snapshot) :
    Except StartFailure Gate × List Event :=
  start now g.registry g.disk ⟨g.store.path, g.audit.path⟩ initial g.timeout g.issued

end Gate

end ChangeControl
