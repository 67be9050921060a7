import ChangeControl.Decimal.Binary64
/-!
Values of the JSON data format.

Numbers written without a point and an exponent are whole and have any size; all others are numbers
of the 64-bit binary format.  The fields of an object keep their order.

Main definitions:

* `Json` — the values;
* `Json.setField` — writing a field: a name that occurs already keeps its place;
* `Json.field?` — the value of a field;
* `Json.isTruthy` — the value counts as true: it is not `null`, `false`, zero or empty;
* `Json.isWhole` — the value is a whole number, as a number of either kind or as a truth value;
* `Json.sortKeys` — the value with the fields of every object in the order of their names.

Main statements:

* `Json.lookup_setField_self`, `Json.lookup_setField_of_ne` — reading after writing.
-/

set_option autoImplicit false

namespace ChangeControl

open Decimal (Binary64)

/-- A value of the data format. -/
inductive Json
  | null
  | bool (value : Bool)
  /-- A whole number. -/
  | int (value : Int)
  /-- A number with a point or an exponent. -/
  | real (value : Binary64)
  | str (value : String)
  | arr (items : List Json)
  | obj (fields : List (String × Json))
deriving Repr, Inhabited

namespace Json

/-- The fields with `value` under `key`: in the place of the first field of that name, or last. -/
def setField (key : String) (value : Json) : List (String × Json) → List (String × Json)
  | [] => [(key, value)]
  | (k, v) :: rest => if k = key then (k, value) :: rest else (k, v) :: setField key value rest

/-- The value of the first field named `key`. -/
def lookup (key : String) : List (String × Json) → Option Json
  | [] => none
  | (k, v) :: rest => if k = key then some v else lookup key rest

theorem lookup_setField_self (key : String) (value : Json) (fields : List (String × Json)) :
    lookup key (setField key value fields) = some value := by
  induction fields with
  | nil => simp [setField, lookup]
  | cons f rest ih =>
    obtain ⟨k, v⟩ := f
    by_cases h : k = key <;> simp [setField, lookup, h, ih]

theorem lookup_setField_of_ne {key other : String} (ne : other ≠ key) (value : Json)
    (fields : List (String × Json)) :
    lookup other (setField key value fields) = lookup other fields := by
  induction fields with
  | nil => simp [setField, lookup, ne.symm]
  | cons f rest ih =>
    obtain ⟨k, v⟩ := f
    by_cases h : k = key
    · subst h
      simp [setField, lookup, ne.symm]
    · by_cases h' : k = other <;> simp_all [setField, lookup]

/-- The value of a field; other values than objects have none. -/
def field? (key : String) : Json → Option Json
  | obj fields => lookup key fields
  | _ => none

/-- The value counts as true. -/
def isTruthy : Json → Bool
  | null => false
  | bool b => b
  | int n => n != 0
  | real x => !x.isZero
  | str s => !s.isEmpty
  | arr items => !items.isEmpty
  | obj fields => !fields.isEmpty

/-- The value is the number `n`; truth values count as 1 and 0. -/
def isWhole (n : Int) : Json → Bool
  | int m => m == n
  | bool b => (if b then 1 else 0) == n
  | real x => x.isWhole n
  | null | str _ | arr _ | obj _ => false

/-- A field put in front of the first field with a larger name. -/
def insertSorted (key : String) (value : Json) : List (String × Json) → List (String × Json)
  | [] => [(key, value)]
  | (k, v) :: rest =>
    if key < k then (key, value) :: (k, v) :: rest else (k, v) :: insertSorted key value rest

mutual

/-- The value with the fields of every object in the order of their names. -/
def sortKeys : Json → Json
  | arr items => arr (sortItems items)
  | obj fields => obj (sortFields fields)
  | null => null
  | bool b => bool b
  | int n => int n
  | real x => real x
  | str s => str s

/-- Each of some values with its objects sorted. -/
def sortItems : List Json → List Json
  | [] => []
  | v :: rest => v.sortKeys :: sortItems rest

/-- Fields in the order of their names, with the objects in their values sorted. -/
def sortFields : List (String × Json) → List (String × Json)
  | [] => []
  | (k, v) :: rest => insertSorted k v.sortKeys (sortFields rest)

end

end Json

end ChangeControl
