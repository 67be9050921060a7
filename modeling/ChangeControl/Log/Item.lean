import ChangeControl.Evaluation.Value
import ChangeControl.Json.Inspect
/-!
What a log record holds: data, or values that formulas talk about.

In a line, a task or a commit stands by its identifier, and several values are a list.

Main definitions:

* `Log.Item` — data or a value;
* `Item.toJson` — an item inside of a line;
* `Item.display`, `Item.inspect` — an item as text, and inside of other items;
* `Log.Arguments` — what fills the places of a message: several items, or one of another kind.

Main statements:

* `Arguments.ofList_nil` — a message without arguments has nothing to fill.
-/

set_option autoImplicit false

namespace ChangeControl.Log

/-- Data or a value. -/
inductive Item
  | data (v : Json)
  | value (v : Value)

namespace Item

mutual

/-- A value inside of a line. -/
def valueJson : Value → Json
  | .task t => .str t.id
  | .commit c => .str c.id
  | .text s => .str s
  | .list vs => .arr (valuesJson vs)

/-- Each of some values inside of a line. -/
def valuesJson : List Value → List Json
  | [] => []
  | v :: vs => valueJson v :: valuesJson vs

end

/-- An item inside of a line. -/
def toJson : Item → Json
  | data v => v
  | value v => valueJson v

/-- An item as text. -/
def display : Item → String
  | data v => v.display
  | value v => v.display

/-- An item inside of other items. -/
def inspect : Item → String
  | data v => v.inspect
  | value v => v.inspect

/-- The item counts as true; of the values, only the empty ones do not. -/
def isTruthy : Item → Bool
  | data v => v.isTruthy
  | value (.text s) => !s.isEmpty
  | value (.list vs) => !vs.isEmpty
  | value (.task _) | value (.commit _) => true

end Item

/-- What fills the places of a message. -/
inductive Arguments
  /-- Items for one place after the other. -/
  | several (items : List Item)
  /-- One item, for one place or for all. -/
  | one (item : Item)

namespace Arguments

/-- The arguments that a message is given with.  A single object that is not empty stands for the
values under its keys. -/
def ofList : List Json → Arguments
  | [.obj (f :: fs)] => one (.data (.obj (f :: fs)))
  | args => several (args.map .data)

/-- The arguments that an item stands for. -/
def ofItem : Item → Arguments
  | .value (.list vs) => several (vs.map .value)
  | item => one item

/-- There is nothing to fill a message with. -/
def isEmpty : Arguments → Bool
  | several items => items.isEmpty
  | one item => !item.isTruthy

theorem ofList_nil : (ofList []).isEmpty = true := rfl

end Arguments

end ChangeControl.Log
