import ChangeControl.Json.Inspect
import ChangeControl.Json.Printer
import ChangeControl.Digest.Sha256
import ChangeControl.Snapshot
/-!
Snapshots as data.

Writing gives every field, except that a commit has no `reverts` and no `revert_target` when they
are absent.  Reading is lenient: a missing field has its default, any value is taken for a text or a
truth value, and lists that are no lists are empty; only an identifier, a state and the project
itself must be there, and a layer must be one.

The *digest* of a project is the SHA-256 of its canonical text, which is compact, sorted by field
name and in ASCII.

Main definitions:

* `Task.toJson`, `Commit.toJson`, `Project.toJson`, `Snapshot.toJson` — writing;
* `DataError` — why data is refused, with `DataError.message`;
* `Task.ofJson`, `Commit.ofJson`, `Project.ofJson`, `Snapshot.ofJson` — reading;
* `Project.canonicalText`, `Project.digest`, `Snapshot.digest`.

Main statements:

* `Version.isWhole_toJson` — a version as data is its number.
-/

set_option autoImplicit false

namespace ChangeControl

open Calendar (Timestamp)

/-! ### Writing -/

/-- A task as data. -/
def Task.toJson (t : Task) : Json :=
  .obj [("id", .str t.id), ("layer", .str t.layer.name), ("completed", .bool t.completed),
    ("committed", .bool t.committed)]

/-- A field that is left out when there is no value. -/
def optionalField (name : String) : Option String → List (String × Json)
  | none => []
  | some s => [(name, .str s)]

/-- A commit as data. -/
def Commit.toJson (c : Commit) : Json :=
  .obj ([("id", .str c.id), ("message", .str c.message), ("validated", .bool c.validated)] ++
    optionalField "reverts" c.reverts ++ optionalField "revert_target" c.revertTarget)

/-- A project as data. -/
def Project.toJson (p : Project) : Json :=
  .obj [("state", .str p.state), ("tasks", .arr (p.tasks.map Task.toJson)),
    ("commits", .arr (p.commits.map Commit.toJson))]

/-- A version as data. -/
def Version.toJson : Version → Json
  | number n => .int n
  | flag b => .bool b

/-- A version inside a message. -/
def Version.text (v : Version) : String := v.toJson.inspect

/-- A version as data is a whole number. -/
theorem Version.isWhole_toJson (v : Version) (n : Int) :
    v.toJson.isWhole n = decide (v.toInt = n) := by
  cases v <;> rfl

/-- A snapshot as data. -/
def Snapshot.toJson (s : Snapshot) : Json :=
  .obj [("version", s.version.toJson), ("clock", .str s.clock.text), ("project", s.project.toJson)]

/-! ### Digests -/

/-- The text that stands for a project and for no other one. -/
def Project.canonicalText (p : Project) : String := p.toJson.sortKeys.print .canonical

/-- The digest of a project. -/
def Project.digest (p : Project) : String := Digest.sha256Hex p.canonicalText

/-- The digest of a snapshot is that of its project; version and clock do not enter. -/
def Snapshot.digest (s : Snapshot) : String := s.project.digest

/-! ### Reading -/

/-- Why data is no snapshot. -/
inductive DataError
  /-- The snapshot has no project. -/
  | noProject
  /-- A field must be there. -/
  | missing (field : String)
  /-- A task is no object. -/
  | notTask
  /-- A commit, a project or a snapshot is no object. -/
  | notObject
  /-- A text that names no layer. -/
  | layer (text : String)
  | clock (fault : Timestamp.Fault)
  | duplicate (fault : DuplicateId)
deriving DecidableEq, Repr

/-- Data in the place of a layer's name that is none. -/
def notLayer (data : Json) : String := data.inspect ++ " is not a valid Layer"

/-- One sentence on the error; a missing field is told by its name. -/
def DataError.message : DataError → String
  | noProject => "Snapshot JSON has no 'project' object"
  | missing field => Text.quote field
  | notTask | notObject => ""
  | layer text => notLayer (.str text)
  | clock fault => fault.message
  | duplicate fault => fault.message

/-- The value of a field that must be there. -/
def requiredField (name : String) (v : Json) : Except DataError Json :=
  match v.field? name with
  | some x => .ok x
  | none => .error (.missing name)

/-- The value of a field as text, or a default. -/
def textField (name fallback : String) (v : Json) : String :=
  ((v.field? name).map Json.display).getD fallback

/-- The value of a field as a truth value; without the field it is false. -/
def flagField (name : String) (v : Json) : Bool := ((v.field? name).map Json.isTruthy).getD false

/-- The value of a field, if it is a text. -/
def textOnlyField (name : String) (v : Json) : Option String :=
  match v.field? name with
  | some (.str s) => some s
  | _ => none

/-- The items of a field that is a list; anything else has none. -/
def listField (name : String) (v : Json) : List Json :=
  match v.field? name with
  | some (.arr items) => items
  | _ => []

/-- A task from data. -/
def Task.ofJson (v : Json) : Except DataError Task :=
  match v with
  | .obj _ =>
    match requiredField "id" v with
    | .error e => .error e
    | .ok id =>
      let layer := textField "layer" "backlog" v
      match Layer.ofName? layer with
      | none => .error (.layer layer)
      | some layer =>
        .ok ⟨id.display, layer, flagField "completed" v, flagField "committed" v⟩
  | _ => .error .notTask

/-- A commit from data. -/
def Commit.ofJson (v : Json) : Except DataError Commit :=
  match v with
  | .obj _ =>
    match requiredField "id" v with
    | .error e => .error e
    | .ok id =>
      .ok ⟨id.display, textField "message" "" v, flagField "validated" v,
        textOnlyField "reverts" v, textOnlyField "revert_target" v⟩
  | _ => .error .notObject

/-- Each of some values read by `read`, up to the first error. -/
def readAll {α : Type} (read : Json → Except DataError α) : List Json → Except DataError (List α)
  | [] => .ok []
  | v :: rest =>
    match read v with
    | .error e => .error e
    | .ok x =>
      match readAll read rest with
      | .error e => .error e
      | .ok xs => .ok (x :: xs)

/-- A project from data. -/
def Project.ofJson (v : Json) : Except DataError Project :=
  match v with
  | .obj _ =>
    match requiredField "state" v with
    | .error e => .error e
    | .ok state =>
      match readAll Task.ofJson (listField "tasks" v) with
      | .error e => .error e
      | .ok tasks =>
        match readAll Commit.ofJson (listField "commits" v) with
        | .error e => .error e
        | .ok commits =>
          match Project.make state.display tasks commits with
          | .error e => .error (.duplicate e)
          | .ok p => .ok p
  | _ => .error .notObject

/-- A version from data: a whole number or a truth value, and otherwise 0. -/
def Version.ofJson? : Option Json → Version
  | some (.int n) => .number n
  | some (.bool b) => .flag b
  | _ => .number 0

/-- The clock of a snapshot: a text must be a moment, and anything else stands for `now`. -/
def readClock (now : Timestamp) : Option Json → Except DataError Timestamp
  | some (.str s) =>
    match Timestamp.ofText s with
    | .error fault => .error (.clock fault)
    | .ok t => .ok t
  | _ => .ok now

/-- A snapshot from data that was read at the moment `now`. -/
def Snapshot.ofJson (now : Timestamp) (v : Json) : Except DataError Snapshot :=
  match v with
  | .obj _ =>
    match v.field? "project" with
    | some (.obj fields) =>
      match readClock now (v.field? "clock") with
      | .error e => .error e
      | .ok clock =>
        match Project.ofJson (.obj fields) with
        | .error e => .error e
        | .ok p => .ok ⟨p, .ofJson? (v.field? "version"), clock⟩
    | _ => .error .noProject
  | _ => .error .notObject

end ChangeControl
