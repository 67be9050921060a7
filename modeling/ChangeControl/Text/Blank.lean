/-!
White space around a text.

There are two kinds: white space as Unicode has it, and the same with the four information
separators of ASCII.

Main definitions:

* `Text.isWhite` — the characters with the Unicode property `White_Space`;
* `Text.isBlank` — the same, and the information separators U+001C to U+001F;
* `Text.trimBy`, `Text.trim` — a text without some characters, or the blank ones, at its ends.

Main statements:

* `Text.isWhite_of_isWhitespace` — the four blank characters of ASCII text are white space;
* `Text.isBlank_of_isWhite` — white space is blank.
-/

set_option autoImplicit false

namespace ChangeControl.Text

/-- White space: the Unicode property. -/
def isWhite (c : Char) : Bool :=
  let n := c.toNat
  (0x09 ≤ n && n ≤ 0x0d) || n == 0x20 || n == 0x85 || n == 0xa0 || n == 0x1680 ||
    (0x2000 ≤ n && n ≤ 0x200a) || n == 0x2028 || n == 0x2029 || n == 0x202f || n == 0x205f ||
    n == 0x3000

/-- White space, and the four information separators. -/
def isBlank (c : Char) : Bool := isWhite c || (0x1c ≤ c.toNat && c.toNat ≤ 0x1f)

/-- The text without the characters of one kind at its two ends. -/
def trimBy (kind : Char → Bool) (s : String) : String :=
  String.ofList (((s.toList.dropWhile kind).reverse.dropWhile kind).reverse)

/-- The text without the blank characters at its two ends. -/
def trim (s : String) : String := trimBy isBlank s

theorem isWhite_of_isWhitespace {c : Char} (h : c.isWhitespace = true) : isWhite c = true := by
  simp only [Char.isWhitespace, Bool.or_eq_true, decide_eq_true_eq] at h
  rcases h with ((h | h) | h) | h <;> subst h <;> decide

theorem isBlank_of_isWhite {c : Char} (h : isWhite c = true) : isBlank c = true := by
  simp [isBlank, h]

end ChangeControl.Text
