import ChangeControl.Proofs.Rule.WellFormed
import Mathlib.Data.List.TakeWhile
/-!
From characters to lexemes.

What a text is scanned to does not depend on where it starts.  Without the places, a scan is a list
of lexemes, or nothing; and the lexemes of a text are those of its parts, as long as no name runs
across a border.

Main definitions:

* `Rule.lexemes?` — the lexemes of some characters;
* `Rule.IsIdentifier` — what names are;
* `Rule.Scans` — what some characters add to the lexemes of whatever follows them.

Main results:

* `Rule.spelled_of_scan` — **the words of a text are identifiers**;
* `Rule.scans_name`, `Rule.scans_literal`, `Scans.punct` — what names, literals and marks add;
* `Rule.Scans.append` — **scanning is done part by part**.
-/

set_option autoImplicit false

namespace ChangeControl.Rule

/-! ### Lexemes -/

/-- The lexemes of a scan that succeeds. -/
def TokenStream.lexemes (s : TokenStream) : List Lexeme := s.tokens.map Token.lexeme

/-- The lexemes that a cursor finds. -/
def lexemesFrom? (cursor : Cursor) (cs : List Char) : Option (List Lexeme) :=
  (scanFrom cursor cs).toOption.map TokenStream.lexemes

/-- The lexemes of some characters. -/
def lexemes? (cs : List Char) : Option (List Lexeme) := lexemesFrom? .start cs

theorem lexemesFrom?_token (cursor : Cursor) {c : Char} (cs : List Char) (line : c ≠ '\n')
    (space : isSpace c = false) (comment : startsComment c cs = false) :
    lexemesFrom? cursor (c :: cs) =
      match headLexeme c cs with
      | .error _ => none
      | .ok (lexeme, more) =>
        (lexemesFrom? (cursor.skip (more + 1)) (cs.drop more)).map (lexeme :: ·) := by
  rw [lexemesFrom?, scanFrom_token cursor cs line space comment]
  cases headLexeme c cs with
  | error e => rfl
  | ok read =>
    obtain ⟨lexeme, more⟩ := read
    simp only [lexemesFrom?]
    cases scanFrom (cursor.skip (more + 1)) (cs.drop more) <;> rfl

/-- The lexemes do not depend on where the text starts. -/
theorem lexemesFrom?_eq (cursor cursor' : Cursor) (cs : List Char) :
    lexemesFrom? cursor cs = lexemesFrom? cursor' cs := by
  match cs with
  | [] => simp [lexemesFrom?, TokenStream.lexemes, Except.toOption]
  | c :: cs =>
    by_cases line : c = '\n'
    · subst line
      rw [lexemesFrom?, lexemesFrom?, scanFrom_newline, scanFrom_newline]
      exact lexemesFrom?_eq _ _ cs
    · cases space : isSpace c with
      | true =>
        rw [lexemesFrom?, lexemesFrom?, scanFrom_space _ _ line space,
          scanFrom_space _ _ line space]
        exact lexemesFrom?_eq _ _ cs
      | false =>
        cases comment : startsComment c cs with
        | true =>
          rw [lexemesFrom?, lexemesFrom?, scanFrom_comment _ _ comment,
            scanFrom_comment _ _ comment]
          have := (List.dropWhile_suffix (l := cs) (· ≠ '\n')).length_le
          exact lexemesFrom?_eq _ _ (cs.dropWhile (· ≠ '\n'))
        | false =>
          rw [lexemesFrom?_token _ cs line space comment,
            lexemesFrom?_token _ cs line space comment]
          cases headLexeme c cs with
          | error e => rfl
          | ok read => simp only [lexemesFrom?_eq _ (cursor'.skip (read.2 + 1)) (cs.drop read.2)]
termination_by cs.length
decreasing_by all_goals grind

@[simp] theorem lexemes?_nil : lexemes? [] = some [] := by
  simp [lexemes?, lexemesFrom?, TokenStream.lexemes, Except.toOption]

theorem lexemes?_space {c : Char} (cs : List Char) (space : isSpace c = true) :
    lexemes? (c :: cs) = lexemes? cs := by
  have line : c ≠ '\n' := by
    rintro rfl
    exact absurd space (by decide)
  rw [lexemes?, lexemesFrom?, scanFrom_space _ _ line space]
  exact lexemesFrom?_eq _ _ cs

theorem lexemes?_token {c : Char} (cs : List Char) (line : c ≠ '\n') (space : isSpace c = false)
    (comment : startsComment c cs = false) :
    lexemes? (c :: cs) =
      match headLexeme c cs with
      | .error _ => none
      | .ok (lexeme, more) => (lexemes? (cs.drop more)).map (lexeme :: ·) := by
  rw [lexemes?, lexemesFrom?_token _ cs line space comment]
  cases headLexeme c cs with
  | error e => rfl
  | ok read => simp only [lexemes?, lexemesFrom?_eq _ .start]

theorem lexemes?_scan (s : String) :
    lexemes? s.toList = (scan s).toOption.map TokenStream.lexemes := rfl

/-- What a text is parsed to depends on its lexemes alone. -/
theorem parseFormula_eq_ok_iff_lexemes {s : String} {f : Formula} :
    parseFormula s = .ok f ↔
      ∃ ls g, lexemes? s.toList = some ls ∧ Derives .formula [] .ending ls g ∧ f = g.closure := by
  simp only [parseFormula_eq_ok_iff, outcome_formula_eq_some_iff, lexemes?_scan,
    Option.map_eq_some_iff, toOption_eq_some_iff]
  constructor
  · rintro ⟨stream, g, hscan, derives, rfl⟩
    exact ⟨_, g, ⟨stream, hscan, rfl⟩, derives, rfl⟩
  · rintro ⟨_, g, ⟨stream, hscan, rfl⟩, derives, rfl⟩
    exact ⟨stream, g, hscan, derives, rfl⟩

/-! ### Identifiers -/

/-- Whether a word starts like a name and goes on like one. -/
def isIdentifier (w : String) : Bool :=
  match w.toList with
  | [] => false
  | c :: cs => isNameStart c && cs.all isNameChar

/-- The word can be a name. -/
abbrev IsIdentifier (w : String) : Prop := isIdentifier w = true

theorem isIdentifier_iff {w : String} :
    IsIdentifier w ↔
      ∃ c cs, w.toList = c :: cs ∧ isNameStart c = true ∧ ∀ d ∈ cs, isNameChar d = true := by
  unfold IsIdentifier isIdentifier
  cases w.toList with
  | nil => simp
  | cons c cs => simp [and_assoc]

theorem isIdentifier_of_headLexeme {c : Char} {cs : List Char} {w : String} {more : Nat}
    (h : headLexeme c cs = .ok (.name w, more)) : IsIdentifier w := by
  unfold headLexeme at h
  split at h
  · next start =>
    cases h
    exact isIdentifier_iff.2 ⟨c, cs.takeWhile isNameChar, String.toList_ofList, start, fun d hd =>
      List.mem_takeWhile_imp hd⟩
  · repeat' split at h
    all_goals cases h

/-- The words that a cursor finds are identifiers. -/
theorem isIdentifier_of_scanFrom {cursor : Cursor} {cs : List Char} {stream : TokenStream}
    (h : scanFrom cursor cs = .ok stream) : Spelled IsIdentifier stream.tokens := by
  match cs with
  | [] =>
    rw [scanFrom_nil] at h
    cases h
    exact fun _ ht => absurd ht List.not_mem_nil
  | c :: cs =>
    by_cases line : c = '\n'
    · subst line
      rw [scanFrom_newline] at h
      exact isIdentifier_of_scanFrom h
    · cases space : isSpace c with
      | true =>
        rw [scanFrom_space _ _ line space] at h
        exact isIdentifier_of_scanFrom h
      | false =>
        cases comment : startsComment c cs with
        | true =>
          rw [scanFrom_comment _ _ comment] at h
          have := (List.dropWhile_suffix (l := cs) (· ≠ '\n')).length_le
          exact isIdentifier_of_scanFrom h
        | false =>
          rw [scanFrom_token _ cs line space comment] at h
          split at h
          · cases h
          · next lexeme more hlexeme =>
            split at h
            · cases h
            · next rest hrest =>
              cases h
              intro t ht w hw
              rcases List.mem_cons.1 ht with rfl | ht
              · obtain rfl : lexeme = .name w := hw
                exact isIdentifier_of_headLexeme hlexeme
              · exact isIdentifier_of_scanFrom hrest t ht w hw
termination_by cs.length
decreasing_by all_goals grind

/-- **The words of a text are identifiers.** -/
theorem spelled_of_scan {s : String} {stream : TokenStream} (h : scan s = .ok stream) :
    Spelled IsIdentifier stream.tokens :=
  isIdentifier_of_scanFrom h

/-! ### What parts of a text add -/

/-- No name goes on with these characters. -/
def StopsName (cs : List Char) : Prop := ∀ c ∈ cs.head?, isNameChar c = false

/-- The literal holds a line feed, so that it cannot be written. -/
def hasLineFeed (literal : String) : Bool := literal.toList.contains '\n'

/-- The characters add the lexemes `ls` to those of whatever follows them, unless one of `literals`,
the literals among them, holds a line feed. -/
def Scans (cs : List Char) (literals : List String) (ls : List Lexeme) : Prop :=
  ∀ rest, StopsName rest →
    lexemes? (cs ++ rest) =
      if literals.any hasLineFeed then none else (lexemes? rest).map (ls ++ ·)

section Parts

variable {cs cs' : List Char} {literals literals' : List String} {ls ls' : List Lexeme}

theorem scans_nil : Scans [] [] [] := by
  intro rest _
  simp

/-- **Scanning is done part by part**, if no name runs across the border. -/
theorem Scans.append (h : Scans cs literals ls) (h' : Scans cs' literals' ls')
    (stops : StopsName cs') : Scans (cs ++ cs') (literals ++ literals') (ls ++ ls') := by
  intro rest hrest
  have hstops : StopsName (cs' ++ rest) := by
    cases cs' with
    | nil => exact hrest
    | cons c cs' => exact stops
  rw [List.append_assoc, h _ hstops, h' _ hrest, List.any_append]
  cases literals.any hasLineFeed <;> cases literals'.any hasLineFeed <;> simp [Function.comp_def]

theorem Scans.space (h : Scans cs literals ls) : Scans (' ' :: cs) literals ls := by
  intro rest hrest
  rw [List.cons_append, lexemes?_space _ (by decide), h rest hrest]

theorem lexemes?_punct {mark : Char} (hmark : mark ∈ ['[', ']', '(', ')', ',', ':'])
    (rest : List Char) : lexemes? (mark :: rest) = (lexemes? rest).map (.punct mark :: ·) := by
  have hhead : headLexeme mark rest = .ok (.punct mark, 0) := by
    simp only [List.mem_cons, List.not_mem_nil, or_false] at hmark
    rcases hmark with rfl | rfl | rfl | rfl | rfl | rfl <;> cases rest <;> rfl
  have hplain : mark ≠ '\n' ∧ isSpace mark = false ∧ startsComment mark rest = false := by
    simp only [List.mem_cons, List.not_mem_nil, or_false] at hmark
    rcases hmark with rfl | rfl | rfl | rfl | rfl | rfl <;> exact ⟨by decide, by decide, rfl⟩
  rw [lexemes?_token rest hplain.1 hplain.2.1 hplain.2.2, hhead]
  rfl

theorem Scans.punct (mark : Char) (hmark : mark ∈ ['[', ']', '(', ')', ',', ':'])
    (h : Scans cs literals ls) : Scans (mark :: cs) literals (.punct mark :: ls) := by
  intro rest hrest
  rw [List.cons_append, lexemes?_punct hmark, h rest hrest]
  cases literals.any hasLineFeed <;> simp [Function.comp_def]

theorem Scans.arrow (h : Scans cs literals ls) :
    Scans ('-' :: '>' :: cs) literals (.symbol .implies :: ls) := by
  intro rest hrest
  have harrow : lexemes? ('-' :: '>' :: (cs ++ rest)) =
      (lexemes? (cs ++ rest)).map (.symbol .implies :: ·) := by
    rw [lexemes?_token _ (by decide) (by decide) rfl]
    rfl
  rw [List.cons_append, List.cons_append, harrow, h rest hrest]
  cases literals.any hasLineFeed <;> simp [Function.comp_def]

theorem plain_of_isNameStart {c : Char} (start : isNameStart c = true) (rest : List Char) :
    c ≠ '\n' ∧ isSpace c = false ∧ startsComment c rest = false := by
  refine ⟨?_, ?_, ?_⟩
  · rintro rfl
    exact absurd start (by decide)
  · rw [Bool.eq_false_iff]
    intro space
    simp only [isSpace, Bool.or_eq_true, beq_iff_eq] at space
    rcases space with (((rfl | rfl) | rfl) | rfl) | rfl <;> exact absurd start (by decide)
  · rw [Bool.eq_false_iff]
    intro comment
    simp only [startsComment, Bool.or_eq_true, Bool.and_eq_true, beq_iff_eq] at comment
    rcases comment with rfl | ⟨rfl, -⟩ <;> exact absurd start (by decide)

theorem scans_name {w : String} (hw : IsIdentifier w) : Scans w.toList [] [.name w] := by
  obtain ⟨c, cs, heq, start, hcs⟩ := isIdentifier_iff.1 hw
  intro rest hrest
  -- the name ends where it should, since the rest does not go on with it
  have hmore : (cs ++ rest).takeWhile isNameChar = cs := by
    rw [List.takeWhile_append_of_pos hcs]
    cases rest with
    | nil => simp
    | cons d rest => simp [hrest d rfl]
  have hword : String.ofList (c :: cs) = w := by rw [← heq, String.ofList_toList]
  have hhead : headLexeme c (cs ++ rest) = .ok (.name w, cs.length) := by
    rw [headLexeme, if_pos start, hmore]
    simp only [hword]
  obtain ⟨line, space, comment⟩ := plain_of_isNameStart start (cs ++ rest)
  rw [heq, List.cons_append, lexemes?_token _ line space comment, hhead]
  simp

theorem Scans.word {w : String} (hw : IsIdentifier w) (h : Scans cs literals ls)
    (stops : StopsName cs) : Scans (w.toList ++ cs) literals (.name w :: ls) :=
  (scans_name hw).append h stops

/-- The body of a literal as it is written. -/
def escape (value : List Char) : List Char :=
  value.flatMap fun c => if c = '\\' ∨ c = '"' then ['\\', c] else [c]

theorem toList_literalText (value : String) :
    (literalText value).toList = '"' :: (escape value.toList ++ ['"']) := by
  simp [literalText, escape]

/-- The body of a literal is read back as it was written, unless it holds a line feed. -/
theorem literalBody_escape (value rest : List Char) :
    literalBody (escape value ++ '"' :: rest) =
      if value.contains '\n' then none else some (value, (escape value).length + 1) := by
  induction value with
  | nil => simp [escape, literalBody]
  | cons c value ih =>
    have hcons : escape (c :: value) =
        (if c = '\\' ∨ c = '"' then ['\\', c] else [c]) ++ escape value := rfl
    rw [hcons]
    by_cases escaped : c = '\\' ∨ c = '"'
    · have line : c ≠ '\n' := by rcases escaped with rfl | rfl <;> decide
      simp only [if_pos escaped, List.cons_append, List.nil_append, literalBody, ih]
      by_cases hnewline : '\n' ∈ value <;> simp [hnewline, line.symm]
    · simp only [not_or] at escaped
      by_cases line : c = '\n'
      · subst line
        simp [literalBody]
      · rw [if_neg (by simp [escaped]), List.singleton_append, List.cons_append,
          literalBody.eq_5 _ _ escaped.2 line (fun d ds h _ => escaped.1 h), ih]
        by_cases hnewline : '\n' ∈ value <;> simp [hnewline, Ne.symm line]

theorem scans_literal (value : String) :
    Scans (literalText value).toList [value] [.literal value] := by
  intro rest _
  rw [toList_literalText, List.cons_append, List.append_assoc, List.singleton_append,
    lexemes?_token _ (by decide) (by decide) rfl]
  have hhead : headLexeme '"' (escape value.toList ++ '"' :: rest) =
      if hasLineFeed value then .error .openLiteral
      else .ok (.literal value, (escape value.toList).length + 1) := by
    rw [headLexeme, if_neg (by decide), if_pos rfl, literalBody_escape, hasLineFeed]
    cases value.toList.contains '\n' <;> simp
  rw [hhead]
  cases h : hasLineFeed value <;> simp [h, List.drop_append, List.drop_eq_nil_of_le]

end Parts

end ChangeControl.Rule
