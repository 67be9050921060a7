import ChangeControl.Decimal.Shortest
import ChangeControl.Json
import ChangeControl.Text.Quoted
/-!
JSON values as text.

Main definitions:

* `Json.Style` — what stands after a comma, after a colon and between the brackets and the items,
  and whether characters outside ASCII are escaped;
* `Style.canonical`, `Style.line`, `Style.file` — the three styles in use: without any blank and
  in ASCII, on one line, and one item to a line;
* `Json.write`, `Json.print` — the text.
-/

set_option autoImplicit false

namespace ChangeControl.Json

/-- How values are laid out. -/
structure Style where
  /-- What follows an item that is not the last. -/
  comma : List Char
  /-- What stands between a name and its value. -/
  colon : List Char
  /-- What stands before an item at a certain depth, and at that depth before a closing bracket. -/
  newline : Nat → List Char
  /-- Whether a character outside the graphic ones of ASCII is written by its number. -/
  ascii : Bool

/-- No blanks, and nothing outside ASCII. -/
def Style.canonical : Style := ⟨[','], [':'], fun _ => [], true⟩

/-- On one line, with a blank after each comma and colon. -/
def Style.line : Style := ⟨[',', ' '], [':', ' '], fun _ => [], false⟩

/-- One item to a line, indented by two for each bracket around it. -/
def Style.file : Style :=
  ⟨[','], [':', ' '], fun depth => '\n' :: List.replicate (2 * depth) ' ', false⟩

/-- A code unit as four hexadecimal digits after a backslash and a `u`. -/
def unitEscape (unit : Nat) : List Char :=
  '\\' :: 'u' :: (Text.hex 4 unit).toList

/-- A character by its number: one code unit, or the two surrogates of a code point above the
first plane. -/
def numberEscape (c : Char) : List Char :=
  let n := c.toNat
  if n < 0x10000 then unitEscape n
  else unitEscape (0xd800 + (n - 0x10000) / 0x400) ++ unitEscape (0xdc00 + (n - 0x10000) % 0x400)

/-- A character inside a string. -/
def escapeChar (ascii : Bool) (c : Char) : List Char :=
  if c = '"' then ['\\', '"']
  else if c = '\\' then ['\\', '\\']
  else if c = '\n' then ['\\', 'n']
  else if c = '\r' then ['\\', 'r']
  else if c = '\t' then ['\\', 't']
  else if c = '\x08' then ['\\', 'b']
  else if c = '\x0c' then ['\\', 'f']
  else if c.toNat < 0x20 then numberEscape c
  else if ascii && decide (0x7e < c.toNat) then numberEscape c
  else [c]

/-- A string in double quotes. -/
def writeString (ascii : Bool) (s : String) : List Char :=
  '"' :: (s.toList.flatMap (escapeChar ascii) ++ ['"'])

mutual

/-- The characters of a value that stands inside `depth` brackets. -/
def write (style : Style) (depth : Nat) : Json → List Char
  | null => ['n', 'u', 'l', 'l']
  | bool b => if b then ['t', 'r', 'u', 'e'] else ['f', 'a', 'l', 's', 'e']
  | int n => (toString n).toList
  | real x => (x.text "Infinity" "NaN").toList
  | str s => writeString style.ascii s
  | arr [] => ['[', ']']
  | arr (v :: rest) =>
    '[' :: (style.newline (depth + 1) ++ v.write style (depth + 1) ++
      (writeItems style (depth + 1) rest ++ (style.newline depth ++ [']'])))
  | obj [] => ['\x7b', '\x7d']
  | obj ((k, v) :: rest) =>
    '\x7b' :: (style.newline (depth + 1) ++ writeString style.ascii k ++ style.colon ++
      v.write style (depth + 1) ++
      (writeFields style (depth + 1) rest ++ (style.newline depth ++ ['\x7d'])))

/-- The items after the first one, each with the comma before it. -/
def writeItems (style : Style) (depth : Nat) : List Json → List Char
  | [] => []
  | v :: rest =>
    style.comma ++ style.newline depth ++ v.write style depth ++ writeItems style depth rest

/-- The fields after the first one, each with the comma before it. -/
def writeFields (style : Style) (depth : Nat) : List (String × Json) → List Char
  | [] => []
  | (k, v) :: rest =>
    style.comma ++ style.newline depth ++ writeString style.ascii k ++ style.colon ++
      v.write style depth ++ writeFields style depth rest

end

/-- The text of a value. -/
def print (style : Style) (v : Json) : String := String.ofList (v.write style 0)

end ChangeControl.Json
