/-!
Files of text.

The bytes of a file are UTF-8, and whatever ends a line in it, a line feed ends it in the text.

Main definitions:

* `Text.unifyLineEnds` — carriage returns, alone or before a line feed, become line feeds;
* `Text.linesOf` — the same for a text;
* `Text.decode?` — the text that bytes stand for.

Main statements:

* `Text.not_mem_unifyLineEnds` — no carriage return is left.
-/

set_option autoImplicit false

namespace ChangeControl.Text

/-- A carriage return becomes a line feed, together with the line feed after it if there is one. -/
def unifyLineEnds : List Char → List Char
  | '\r' :: '\n' :: rest => '\n' :: unifyLineEnds rest
  | '\r' :: rest => '\n' :: unifyLineEnds rest
  | c :: rest => c :: unifyLineEnds rest
  | [] => []

theorem not_mem_unifyLineEnds (cs : List Char) : '\r' ∉ unifyLineEnds cs := by
  induction cs using unifyLineEnds.induct with
  | case1 rest ih => simpa [unifyLineEnds] using ih
  | case2 rest _ ih => simpa [unifyLineEnds] using ih
  | case3 c rest _ other ih =>
    have : '\r' ≠ c := fun same => other same.symm
    simp [unifyLineEnds, this, ih]
  | case4 => simp [unifyLineEnds]

/-- A text with every line ended by a line feed. -/
def linesOf (s : String) : String := String.ofList (unifyLineEnds s.toList)

/-- The text that bytes stand for, if they are UTF-8. -/
def decode? (bytes : ByteArray) : Option String := (String.fromUTF8? bytes).map linesOf

end ChangeControl.Text
