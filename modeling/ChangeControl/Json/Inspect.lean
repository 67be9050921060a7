import ChangeControl.Decimal.Shortest
import ChangeControl.Json
import ChangeControl.Text.Quoted
/-!
JSON values inside messages.

A message shows a text in quotes, the truth values and the absent value by capitalised words, and
lists and objects in brackets with the same rule for what they hold.

Main definitions:

* `Text.boolWord` — the word for a truth value;
* `Json.inspect` — a value as a message shows it;
* `Json.display` — the same, except that a text by itself stands without quotes.
-/

set_option autoImplicit false

namespace ChangeControl

/-- The capitalised word for a truth value. -/
def Text.boolWord (b : Bool) : String := if b then "True" else "False"

namespace Json

mutual

/-- A value as a message shows it. -/
def inspect : Json → String
  | null => "None"
  | bool b => Text.boolWord b
  | int n => toString n
  | real x => x.text "inf" "nan"
  | str s => Text.quote s
  | arr items => "[" ++ ", ".intercalate (inspectItems items) ++ "]"
  | obj fields => "\x7b" ++ ", ".intercalate (inspectFields fields) ++ "\x7d"

/-- Each of some values. -/
def inspectItems : List Json → List String
  | [] => []
  | v :: rest => v.inspect :: inspectItems rest

/-- Each of some fields, with its name in quotes. -/
def inspectFields : List (String × Json) → List String
  | [] => []
  | (k, v) :: rest => (Text.quote k ++ ": " ++ v.inspect) :: inspectFields rest

end

/-- A value as text: a string is that text itself. -/
def display : Json → String
  | str s => s
  | v => v.inspect

end Json

end ChangeControl
