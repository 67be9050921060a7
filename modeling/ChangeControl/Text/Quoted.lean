import ChangeControl.Text.Printable
/-!
Texts shown in quotes, as they stand inside messages.

A text is put between apostrophes, or between double quotes when it holds an apostrophe and no
double quote.  Inside, the quote in use and the backslash are written after a backslash; line feed,
carriage return and tab have short names; every other unprintable character is written by its code
point, in the shortest of the three widths that fits it.

Main definitions:

* `Text.quoteFor` — which of the two quotes a text gets;
* `Text.escapeWith` — one character between such quotes;
* `Text.quote` — the quoted text.
-/

set_option autoImplicit false

namespace ChangeControl.Text

/-- The lower-case hexadecimal digits of `n`, with zeros in front up to `width`. -/
def hex (width n : Nat) : String :=
  let digits := Nat.toDigits 16 n
  String.ofList (List.replicate (width - digits.length) '0' ++ digits)

/-- The apostrophe, unless the text holds one and holds no double quote. -/
def quoteFor (s : String) : Char :=
  if s.toList.contains '\'' && !s.toList.contains '"' then '"' else '\''

/-- One character of a text that stands between two `q`. -/
def escapeWith (q c : Char) : String :=
  if c = q ∨ c = '\\' then String.ofList ['\\', c]
  else if c = '\n' then "\\n"
  else if c = '\r' then "\\r"
  else if c = '\t' then "\\t"
  else if isPrintable c then c.toString
  else if c.toNat < 0x100 then "\\x" ++ hex 2 c.toNat
  else if c.toNat < 0x10000 then "\\u" ++ hex 4 c.toNat
  else "\\U" ++ hex 8 c.toNat

/-- The text in quotes. -/
def quote (s : String) : String :=
  let q := quoteFor s
  q.toString ++ String.join (s.toList.map (escapeWith q)) ++ q.toString

end ChangeControl.Text
