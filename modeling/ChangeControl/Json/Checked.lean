import ChangeControl.Json
/-!
Data that is checked field by field.

Every field is looked at before anything is refused, so that all faults are told at once, in the
order of the fields.

Main definitions:

* `FieldFault` — what is wrong with a field, and where;
* `Checked`, `Checked.apply` — a value or all the faults;
* `Checked.text`, `Checked.optional`, `Checked.list` — readers of fields.

Main statements:

* `Checked.faults_apply` — the faults of both sides are told.
-/

set_option autoImplicit false

namespace ChangeControl

/-- What is wrong with a field. -/
inductive FieldProblem
  | missing
  | notText
  | notList
  | notObject
  | notPath
  /-- A text that is no number. -/
  | badNumber
  /-- Something that is no number at all. -/
  | notNumber
  /-- A number that is too small. -/
  | tooSmall
  /-- The values do not fit; the sentence tells why. -/
  | refused (sentence : String)
deriving DecidableEq, Repr

/-- The name of a problem. -/
def FieldProblem.name : FieldProblem → String
  | missing => "missing"
  | notText => "string_type"
  | notList => "list_type"
  | notObject => "model_type"
  | notPath => "path_type"
  | badNumber => "float_parsing"
  | notNumber => "float_type"
  | tooSmall => "greater_than"
  | refused _ => "value_error"

/-- What is told about a problem beside its name. -/
def FieldProblem.message? : FieldProblem → Option String
  | refused sentence => some ("Value error, " ++ sentence)
  | _ => none

/-- A step to a part of some data. -/
inductive Part
  | field (name : String)
  | item (index : Nat)
deriving DecidableEq, Repr

/-- A problem, and the part of the data that it is in. -/
structure FieldFault where
  place : List Part
  problem : FieldProblem
deriving DecidableEq, Repr

/-- A value, or everything that is wrong with the data it was to be read from. -/
abbrev Checked (α : Type) := Except (List FieldFault) α

namespace Checked

variable {α β : Type}

/-- The faults, if there are any. -/
def faults : Checked α → List FieldFault
  | .ok _ => []
  | .error fs => fs

/-- A function and its argument, both checked. -/
def apply (f : Checked (α → β)) (x : Checked α) : Checked β :=
  match f, x with
  | .ok f, .ok x => .ok (f x)
  | .ok _, .error fs => .error fs
  | .error fs, x => .error (fs ++ x.faults)

theorem faults_apply (f : Checked (α → β)) (x : Checked α) :
    (f.apply x).faults = f.faults ++ x.faults := by
  cases f <;> cases x <;> simp [apply, faults]

/-- One fault in a field. -/
def refuse (name : String) (problem : FieldProblem) : Checked α :=
  .error [⟨[.field name], problem⟩]

/-- A field that must be there and hold a text. -/
def text (name : String) : Option Json → Checked String
  | none => refuse name .missing
  | some (.str s) => .ok s
  | some _ => refuse name .notText

/-- A field that may hold nothing, and is otherwise read by `read`. -/
def optional (read : Json → Checked α) : Option Json → Checked (Option α)
  | none | some .null => .ok none
  | some v =>
    match read v with
    | .ok x => .ok (some x)
    | .error fs => .error fs

/-- The texts of a list, counted from `index`. -/
def items (name : String) (index : Nat) : List Json → Checked (List String)
  | [] => .ok []
  | v :: vs =>
    let first : Checked String :=
      match v with
      | .str s => .ok s
      | _ => .error [⟨[.field name, .item index], .notText⟩]
    apply (apply (.ok List.cons) first) (items name (index + 1) vs)

/-- A field that holds a list of texts; without it the list is empty. -/
def list (name : String) : Option Json → Checked (List String)
  | none => .ok []
  | some (.arr vs) => items name 0 vs
  | some _ => refuse name .notList

end Checked

end ChangeControl
