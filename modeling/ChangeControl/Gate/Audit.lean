import ChangeControl.Json.Checked
import ChangeControl.Storage.Store
/-!
The audit log.

Every decision that is made leaves one record.  Records are only ever added.  A log with a path
keeps them in a file as well, and starts from that file when it is there.  A record is there even if
the file cannot be written.

Main definitions:

* `AuditRecord`, with `AuditRecord.toJson` and `AuditRecord.ofJson`;
* `AuditLog`, `AuditLog.start` — a log, and starting one;
* `AuditLog.append`, `AuditLog.record` — adding a record, and adding one from fields;
* `RecordError` — why no record is made from fields, or why it is not written;
* `AuditLog.forDecision` — the records of a decision.

Main statements:

* `AuditLog.prefix_append` — nothing that was recorded is lost.
-/

set_option autoImplicit false

namespace ChangeControl

open Calendar (Timestamp)
open Storage (Disk Fault Path fileText)

/-- What became of a decision. -/
structure AuditRecord where
  decisionId : String
  workflow : String
  action : String
  kind : String
  verdict : String
  timestamp : String
  approver : Option String
  reasons : List String
  baseDigest : Option String
  resultDigest : Option String
deriving DecidableEq, Repr

namespace AuditRecord

/-- A text that may be absent, as data. -/
def optionJson : Option String → Json
  | none => .null
  | some s => .str s

/-- A record as data. -/
def toJson (r : AuditRecord) : Json :=
  .obj [("decision_id", .str r.decisionId), ("workflow", .str r.workflow),
    ("action", .str r.action), ("kind", .str r.kind), ("verdict", .str r.verdict),
    ("timestamp", .str r.timestamp), ("approver", optionJson r.approver),
    ("reasons", .arr (r.reasons.map .str)), ("base_digest", optionJson r.baseDigest),
    ("result_digest", optionJson r.resultDigest)]

/-- A text that may be absent, from a field. -/
def optionalText (name : String) (v : Option Json) : Checked (Option String) :=
  Checked.optional (fun v => Checked.text name (some v)) v

/-- A record from fields; other fields are passed over. -/
def ofFields (fields : List (String × Json)) : Checked AuditRecord :=
  let get (name : String) : Option Json := Json.lookup name fields
  let text (name : String) : Checked String := Checked.text name (get name)
  let option (name : String) : Checked (Option String) := optionalText name (get name)
  ((((((((((Checked.apply (.ok AuditRecord.mk) (text "decision_id")).apply
    (text "workflow")).apply (text "action")).apply (text "kind")).apply
    (text "verdict")).apply (text "timestamp")).apply (option "approver")).apply
    (Checked.list "reasons" (get "reasons"))).apply (option "base_digest")).apply
    (option "result_digest"))

/-- A record from data. -/
def ofJson : Json → Checked AuditRecord
  | .obj fields => ofFields fields
  | _ => .error [⟨[], .notObject⟩]

end AuditRecord

/-- Why an audit log cannot start. -/
inductive AuditError
  | storage (e : Fault)
  /-- The file is no JSON. -/
  | unreadable
  | notList (path : Path)
  /-- A record of the file is wrong. -/
  | invalid (faults : List FieldFault)
deriving DecidableEq, Repr

/-- One sentence on the error. -/
def AuditError.message : AuditError → String
  | storage e => e.message
  | unreadable | invalid _ => ""
  | notList path => "Audit log does not hold a JSON list: " ++ path.text

/-- The records, the oldest first, and the file that they are kept in. -/
structure AuditLog where
  path : Option Path
  records : List AuditRecord
deriving DecidableEq, Repr

namespace AuditLog

/-- Records from a list of data, up to the first one that is wrong. -/
def readRecords : List Json → Checked (List AuditRecord)
  | [] => .ok []
  | v :: vs =>
    match AuditRecord.ofJson v with
    | .error fs => .error fs
    | .ok r =>
      match readRecords vs with
      | .error fs => .error fs
      | .ok rs => .ok (r :: rs)

/-- The records in a file. -/
def recordsIn (path : Path) (text : String) : Except AuditError (List AuditRecord) :=
  match Json.read? text with
  | none => .error .unreadable
  | some (.arr vs) =>
    match readRecords vs with
    | .error fs => .error (.invalid fs)
    | .ok rs => .ok rs
  | some _ => .error (.notList path)

/-- A log that starts from the file at its path, if there is one. -/
def start (d : Disk) (path : Option Path) : Except AuditError AuditLog :=
  match path with
  | none => .ok ⟨none, []⟩
  | some p =>
    match d.look p with
    | .nothing => .ok ⟨some p, []⟩
    | .directory => .error (.storage .isDirectory)
    | .fault e => .error (.storage e)
    | .file text =>
      match recordsIn p text with
      | .error e => .error e
      | .ok rs => .ok ⟨some p, rs⟩

/-- The records as data. -/
def toJson (log : AuditLog) : Json := .arr (log.records.map AuditRecord.toJson)

/-- The disk with the records in the file of the log, if it has one. -/
def save (d : Disk) (log : AuditLog) : Disk × Option Fault :=
  match log.path with
  | none => (d, none)
  | some p => d.save p (fileText log.toJson)

/-- The log with one more record, and the disk. -/
def append (d : Disk) (log : AuditLog) (r : AuditRecord) : AuditLog × Disk × Option Fault :=
  let longer : AuditLog := { log with records := log.records ++ [r] }
  (longer, longer.save d)

end AuditLog

/-- Why no record is made from fields, or why it is not written. -/
inductive RecordError
  /-- One of the fields has the name that the log itself goes by. -/
  | reserved
  | invalid (faults : List FieldFault)
  /-- The record is made, but the file is not written. -/
  | storage (e : Fault)
deriving DecidableEq, Repr

namespace AuditLog

/-- The name that the log itself goes by where fields are given by name. -/
def ownName : String := "self"

/-- The log with one more record, given by its fields, the disk, and that record.  Without a
timestamp it has that of the moment `now`. -/
def record (now : Timestamp) (d : Disk) (log : AuditLog) (fields : List (String × Json)) :
    AuditLog × Disk × Except RecordError AuditRecord :=
  if (Json.lookup ownName fields).isSome then (log, d, .error .reserved)
  else
    match AuditRecord.ofFields (fields ++ [("timestamp", .str now.text)]) with
    | .error fs => (log, d, .error (.invalid fs))
    | .ok r =>
      match log.append d r with
      | (log, d, some e) => (log, d, .error (.storage e))
      | (log, d, none) => (log, d, .ok r)

/-- The records of a decision. -/
def forDecision (log : AuditLog) (id : String) : List AuditRecord :=
  log.records.filter fun r => r.decisionId == id

theorem prefix_append (d : Disk) (log : AuditLog) (r : AuditRecord) :
    log.records <+: (log.append d r).1.records :=
  List.prefix_append log.records [r]

end AuditLog

end ChangeControl
