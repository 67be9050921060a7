import ChangeControl.Rule.SyntaxError
import ChangeControl.Rule.Token
import ChangeControl.Rule.Word
/-!
From characters to tokens.

Line feeds, blanks and comments separate tokens; a comment starts with a hash sign or two slashes
and runs to the end of its line.  A text that starts with none of these starts with a token, and
which one is decided by its first one or two characters; names and literals then run as far as
they can.

Main definitions:

* `Rule.literalBody` — the part of a string literal after its opening quote;
* `Rule.headLexeme` — the token at the head of a text, and how many more characters it has;
* `Rule.scanFrom`, `Rule.scan` — all tokens of a text.

Main statements:

* `Rule.scanFrom_newline`, `Rule.scanFrom_space`, `Rule.scanFrom_comment` and
  `Rule.scanFrom_token` — one step of the scan.
-/

set_option autoImplicit false

namespace ChangeControl.Rule

/-- The text of a string literal, read from after its opening quote, and the number of characters
up to and including the closing quote.  A backslash lets the next character stand for itself,
whatever it is; without one a line feed ends the line and leaves the literal open. -/
def literalBody : List Char → Option (List Char × Nat)
  | [] => none
  | '"' :: _ => some ([], 1)
  | '\n' :: _ => none
  | '\\' :: c :: cs => (literalBody cs).map fun r => (c :: r.1, r.2 + 2)
  | c :: cs => (literalBody cs).map fun r => (c :: r.1, r.2 + 1)

/-- The symbols written with two characters. -/
def symbolOfPair? (c d : Char) : Option Symbol :=
  match c, d with
  | '-', '>' | '=', '>' => some .implies
  | '&', '&' => some .and
  | '|', '|' => some .or
  | _, _ => none

/-- The symbols written with one character. -/
def symbolOfChar? (c : Char) : Option Symbol :=
  match c with
  | '∀' => some .all
  | '∃' => some .any
  | '∧' => some .and
  | '∨' => some .or
  | '¬' | '!' => some .not
  | '→' | '⇒' => some .implies
  | '∈' => some .mem
  | '∉' => some .notMem
  | _ => none

/-- The marks of punctuation. -/
def isPunctuation (c : Char) : Bool :=
  ['[', ']', '(', ')', '\x7b', '\x7d', ',', ';', ':', '.', '+'].contains c

/-- Signs that look like operators but have no meaning; they are tokens so that a parser can name
them. -/
def isStray (c : Char) : Bool :=
  ['&', '|', '^', '~', '=', '<', '>', '-', '*', '/', '%', '@', '$', '?',
    '⊕', '↔', '⇔', '⊻', '≡', '⊃', '⊂'].contains c

/-- The token at the head of the text `c :: cs`, and how many characters it has after `c`. -/
def headLexeme (c : Char) (cs : List Char) : Except Cause (Lexeme × Nat) :=
  if isNameStart c then
    let more := cs.takeWhile isNameChar
    .ok (.name (String.ofList (c :: more)), more.length)
  else if c = '"' then
    match literalBody cs with
    | none => .error .openLiteral
    | some (value, more) => .ok (.literal (String.ofList value), more)
  else
    match cs.head? >>= symbolOfPair? c with
    | some s => .ok (.symbol s, 1)
    | none =>
      match symbolOfChar? c with
      | some s => .ok (.symbol s, 0)
      | none =>
        if isPunctuation c then .ok (.punct c, 0)
        else if isStray c then .ok (.stray c, 0)
        else .error (.unknownCharacter c)

/-- A comment starts with a hash sign or with two slashes. -/
def startsComment (c : Char) (cs : List Char) : Bool :=
  c == '#' || (c == '/' && cs.head? == some '/')

/-- The tokens of the characters that a cursor has before it. -/
def scanFrom (cursor : Cursor) (cs : List Char) : Except SyntaxError TokenStream :=
  match cs with
  | [] => .ok ⟨[], cursor.position⟩
  | c :: cs =>
    if c = '\n' then scanFrom cursor.newline cs
    else if isSpace c then scanFrom (cursor.skip 1) cs
    else if startsComment c cs then
      scanFrom (cursor.skip (1 + (cs.takeWhile (· ≠ '\n')).length)) (cs.dropWhile (· ≠ '\n'))
    else
      match headLexeme c cs with
      | .error cause => .error ⟨cause, cursor.position⟩
      | .ok (lexeme, more) =>
        match scanFrom (cursor.skip (more + 1)) (cs.drop more) with
        | .error e => .error e
        | .ok rest =>
          let text := String.ofList (c :: cs.take more)
          .ok ⟨⟨lexeme, text, cursor.position⟩ :: rest.tokens, rest.stop⟩
termination_by cs.length
decreasing_by
  · simp
  · simp
  · have := (List.dropWhile_suffix (l := cs) (· ≠ '\n')).length_le
    simp only [List.length_cons]
    omega
  · simp only [List.length_cons, List.length_drop]
    omega

/-- The tokens of a text. -/
def scan (source : String) : Except SyntaxError TokenStream :=
  scanFrom .start source.toList

/-! ### One step of the scan -/

@[simp] theorem scanFrom_nil (cursor : Cursor) :
    scanFrom cursor [] = .ok ⟨[], cursor.position⟩ := by
  rw [scanFrom]

theorem scanFrom_newline (cursor : Cursor) (cs : List Char) :
    scanFrom cursor ('\n' :: cs) = scanFrom cursor.newline cs := by
  rw [scanFrom]
  simp

theorem scanFrom_space (cursor : Cursor) {c : Char} (cs : List Char) (line : c ≠ '\n')
    (space : isSpace c = true) : scanFrom cursor (c :: cs) = scanFrom (cursor.skip 1) cs := by
  rw [scanFrom]
  simp [line, space]

theorem scanFrom_comment (cursor : Cursor) {c : Char} (cs : List Char)
    (comment : startsComment c cs = true) :
    scanFrom cursor (c :: cs) =
      scanFrom (cursor.skip (1 + (cs.takeWhile (· ≠ '\n')).length)) (cs.dropWhile (· ≠ '\n')) := by
  have line : c ≠ '\n' := by rintro rfl; simp [startsComment] at comment
  have space : isSpace c = false := by
    simp only [startsComment, Bool.or_eq_true, Bool.and_eq_true, beq_iff_eq] at comment
    rcases comment with rfl | ⟨rfl, _⟩ <;> decide
  rw [scanFrom]
  simp [line, space, comment]

theorem scanFrom_token (cursor : Cursor) {c : Char} (cs : List Char) (line : c ≠ '\n')
    (space : isSpace c = false) (comment : startsComment c cs = false) :
    scanFrom cursor (c :: cs) =
      match headLexeme c cs with
      | .error cause => .error ⟨cause, cursor.position⟩
      | .ok (lexeme, more) =>
        match scanFrom (cursor.skip (more + 1)) (cs.drop more) with
        | .error e => .error e
        | .ok rest =>
          .ok ⟨⟨lexeme, String.ofList (c :: cs.take more), cursor.position⟩ :: rest.tokens,
            rest.stop⟩ := by
  rw [scanFrom]
  simp [line, space, comment]

end ChangeControl.Rule
