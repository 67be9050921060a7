/-!
Places in a source text.

A place is the number of characters before it, together with the line and the column that a reader
would name.  While a text is read from left to right, a *cursor* keeps the number of characters
passed, the number of lines begun and the offset at which the current line began; the place it
stands for is read off these three.

Main definitions:

* `Rule.Position` — a place, as errors and tokens carry it;
* `Rule.Cursor` — the running count, with `Cursor.skip` and `Cursor.newline`.
-/

set_option autoImplicit false

namespace ChangeControl.Rule

/-- A place in a source text: characters before it, and line and column counted from one. -/
structure Position where
  offset : Nat
  line : Nat
  column : Nat
deriving DecidableEq, Repr

/-- How far a text has been read. -/
structure Cursor where
  /-- Characters passed. -/
  offset : Nat
  /-- Lines begun. -/
  line : Nat
  /-- Characters before the current line. -/
  lineStart : Nat
deriving DecidableEq, Repr

namespace Cursor

/-- Before the first character. -/
def start : Cursor := ⟨0, 1, 0⟩

/-- Past `n` more characters of the same line. -/
def skip (c : Cursor) (n : Nat) : Cursor := { c with offset := c.offset + n }

/-- Past a line feed. -/
def newline (c : Cursor) : Cursor := ⟨c.offset + 1, c.line + 1, c.offset + 1⟩

/-- The place the cursor stands at. -/
def position (c : Cursor) : Position := ⟨c.offset, c.line, c.offset - c.lineStart + 1⟩

@[simp] theorem skip_skip (c : Cursor) (m n : Nat) : (c.skip m).skip n = c.skip (m + n) := by
  simp [skip, Nat.add_assoc]

@[simp] theorem position_offset (c : Cursor) : c.position.offset = c.offset := rfl

end Cursor

end ChangeControl.Rule
