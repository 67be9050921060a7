import ChangeControl.Rule.Lexer
import Mathlib.Data.List.TakeWhile
/-!
The course of a scan.

A scan passes over the characters of a text and collects tokens on its way.  What it has passed does
not depend on what comes later, but for one character: where a token or a comment ends is seen on
the character after it.  So a text can be cut wherever a scan stops on its way, and it can be
continued with another line.

Main definitions:

* `Rule.StartsToken` — neither a line feed, nor a blank, nor a comment comes next;
* `Rule.Passes` — from one cursor to another, these tokens are passed.

Main results:

* `Rule.scanFrom_eq_ok_iff`, `Rule.exists_of_scanFrom_error` — a scan passes a whole text, or stops
  before something that is no token;
* `Passes.exists_token` — every token is met on the way;
* `Passes.congr` — **what was passed does not depend on what comes later**.
-/

set_option autoImplicit false

namespace ChangeControl.Rule

/-! ### Passages -/

/-- The characters are at the end of a line. -/
def EndsLine (cs : List Char) : Prop := ∀ c ∈ cs.head?, c = '\n'

/-- Neither a line feed, nor a blank, nor a comment comes next. -/
structure StartsToken (c : Char) (cs : List Char) : Prop where
  line : c ≠ '\n'
  space : isSpace c = false
  comment : startsComment c cs = false

/-- `Passes k cs ts k' cs'` says that a scan comes from the cursor `k` before the characters `cs` to
the cursor `k'` before the characters `cs'`, and collects the tokens `ts`. -/
inductive Passes : Cursor → List Char → List Token → Cursor → List Char → Prop
  | here (k : Cursor) (cs : List Char) : Passes k cs [] k cs
  | newline {k k' : Cursor} {cs cs' : List Char} {ts : List Token}
      (more : Passes k.newline cs ts k' cs') : Passes k ('\n' :: cs) ts k' cs'
  | space {k k' : Cursor} {c : Char} {cs cs' : List Char} {ts : List Token}
      (blank : isSpace c = true) (more : Passes (k.skip 1) cs ts k' cs') :
      Passes k (c :: cs) ts k' cs'
  | comment {k k' : Cursor} {c : Char} {body cs cs' : List Char} {ts : List Token}
      (starts : startsComment c (body ++ cs) = true) (inside : '\n' ∉ body) (ends : EndsLine cs)
      (more : Passes (k.skip (1 + body.length)) cs ts k' cs') :
      Passes k (c :: (body ++ cs)) ts k' cs'
  | token {k k' : Cursor} {c : Char} {l : Lexeme} {body cs cs' : List Char} {ts : List Token}
      (starts : StartsToken c (body ++ cs))
      (head : headLexeme c (body ++ cs) = .ok (l, body.length))
      (more : Passes (k.skip (body.length + 1)) cs ts k' cs') :
      Passes k (c :: (body ++ cs)) (⟨l, String.ofList (c :: body), k.position⟩ :: ts) k' cs'

variable {k k' k'' : Cursor} {c : Char} {l : Lexeme} {body cs cs' cs'' : List Char}
  {ts ts' : List Token}

@[simp] theorem Cursor.skip_offset (k : Cursor) (n : Nat) : (k.skip n).offset = k.offset + n := rfl

@[simp] theorem Cursor.newline_offset (k : Cursor) : k.newline.offset = k.offset + 1 := rfl

/-! ### Tokens at the head of a text -/

/-- The body of a literal is read in the same way whatever comes after it. -/
theorem exists_literalBody {value : List Char} {n : Nat} (h : literalBody cs = some (value, n)) :
    ∃ body rest, cs = body ++ rest ∧ n = body.length ∧
      ∀ rest', literalBody (body ++ rest') = some (value, body.length) := by
  induction cs using literalBody.induct generalizing value n with
  | case1 => cases h
  | case2 cs =>
    cases h
    exact ⟨['"'], cs, rfl, rfl, fun _ => rfl⟩
  | case3 cs => cases h
  | case4 c cs ih =>
    rw [literalBody] at h
    obtain ⟨⟨v, m⟩, hbody, heq⟩ := Option.map_eq_some_iff.1 h
    cases heq
    obtain ⟨body, rest, rfl, rfl, again⟩ := ih hbody
    refine ⟨'\\' :: c :: body, rest, rfl, rfl, ?_⟩
    intro rest'
    rw [List.cons_append, List.cons_append, literalBody, again]
    rfl
  | case5 c cs notQuote notLine notEscape ih =>
    rw [literalBody.eq_5 _ _ notQuote notLine notEscape] at h
    obtain ⟨⟨v, m⟩, hbody, heq⟩ := Option.map_eq_some_iff.1 h
    cases heq
    -- a backslash at the end of the text leaves the literal open
    have plain : c ≠ '\\' := by
      intro escape
      cases cs with
      | nil => cases hbody
      | cons d ds => exact notEscape d ds escape rfl
    obtain ⟨body, rest, rfl, rfl, again⟩ := ih hbody
    refine ⟨c :: body, rest, rfl, rfl, ?_⟩
    intro rest'
    rw [List.cons_append, literalBody.eq_5 _ _ notQuote notLine fun _ _ escape _ => plain escape,
      again]
    rfl

/-- What the next character is may change only to a line feed, or to the end. -/
def Follows (cs cs' : List Char) : Prop := ∀ c ∈ cs'.head?, c = '\n' ∨ c ∈ cs.head?

theorem Follows.append (h : Follows cs cs') : Follows (body ++ cs) (body ++ cs') := by
  cases body with
  | nil => exact h
  | cons d body => exact fun c hc => .inr hc

theorem symbolOfPair?_newline (c : Char) : symbolOfPair? c '\n' = none := by
  unfold symbolOfPair?
  split <;> simp_all

theorem headLexeme_le {n : Nat} (h : headLexeme c cs = .ok (l, n)) : n ≤ cs.length := by
  unfold headLexeme at h
  simp only at h
  split at h
  · cases h
    exact (List.takeWhile_prefix _).length_le
  · split at h
    · split at h
      · cases h
      · next hbody =>
        cases h
        obtain ⟨body, rest, rfl, rfl, -⟩ := exists_literalBody hbody
        simp
    · split at h
      · next hpair =>
        cases h
        cases cs with
        | nil => cases hpair
        | cons d cs => simp
      · split at h
        · cases h
          exact Nat.zero_le _
        · split at h
          · cases h
            exact Nat.zero_le _
          · split at h
            · cases h
              exact Nat.zero_le _
            · cases h

theorem exists_headLexeme {n : Nat} (h : headLexeme c cs = .ok (l, n)) :
    ∃ body rest, cs = body ++ rest ∧ n = body.length := by
  refine ⟨cs.take n, cs.drop n, (List.take_append_drop _ _).symm, ?_⟩
  rw [List.length_take, Nat.min_eq_left (headLexeme_le h)]

/-- A run of characters ends where it ended before. -/
theorem takeWhile_congr {p : Char → Bool} (line : p '\n' = false)
    (h : (body ++ cs).takeWhile p = body) (follows : Follows cs cs') :
    (body ++ cs').takeWhile p = body := by
  have inside : ∀ d ∈ body, p d = true := fun d hd => List.mem_takeWhile_imp (h.symm ▸ hd)
  rw [List.takeWhile_append_of_pos inside, List.append_right_eq_self] at h ⊢
  cases cs' with
  | nil => rfl
  | cons d cs' =>
    have outside : p d = false := by
      rcases follows d rfl with rfl | hd
      · exact line
      · cases cs with
        | nil => cases hd
        | cons e cs =>
          cases hd
          simpa using h
    rw [List.takeWhile_cons, outside]
    rfl

theorem takeWhile_eq_of_length {p : Char → Bool}
    (h : ((body ++ cs).takeWhile p).length = body.length) : (body ++ cs).takeWhile p = body := by
  have hpre := List.prefix_iff_eq_take.1 (List.takeWhile_prefix p (l := body ++ cs))
  rw [hpre, h, List.take_left]

/-- A pair of signs is a symbol, or is none, whatever comes after it. -/
theorem pair_congr {s : Option Symbol}
    (h : (body ++ cs).head? >>= symbolOfPair? c = s) (single : body = [] → s = none)
    (follows : Follows cs cs') : (body ++ cs').head? >>= symbolOfPair? c = s := by
  cases body with
  | cons d body => exact h
  | nil =>
    obtain rfl := single rfl
    cases cs' with
    | nil => rfl
    | cons d cs' =>
      rcases follows d rfl with rfl | hd
      · exact symbolOfPair?_newline c
      · cases cs with
        | nil => cases hd
        | cons e cs =>
          cases hd
          exact h

/-- **A token is read in the same way whatever comes after it**, as long as the next character is
the same, or a line feed, or there is none. -/
theorem headLexeme_congr (h : headLexeme c (body ++ cs) = .ok (l, body.length))
    (follows : Follows cs cs') : headLexeme c (body ++ cs') = .ok (l, body.length) := by
  unfold headLexeme at h ⊢
  by_cases start : isNameStart c = true
  · rw [if_pos start] at h ⊢
    simp only [Except.ok.injEq, Prod.mk.injEq] at h ⊢
    obtain ⟨hname, hlength⟩ := h
    have hbody := takeWhile_eq_of_length hlength
    rw [takeWhile_congr (by decide) hbody follows]
    exact ⟨hbody ▸ hname, rfl⟩
  · rw [if_neg start] at h ⊢
    by_cases quote : c = '"'
    · rw [if_pos quote] at h ⊢
      cases hliteral : literalBody (body ++ cs) with
      | none => rw [hliteral] at h; cases h
      | some r =>
        rw [hliteral] at h
        simp only [Except.ok.injEq, Prod.mk.injEq] at h
        obtain ⟨hvalue, hlength⟩ := h
        obtain ⟨body', rest, heq, hbody, again⟩ := exists_literalBody hliteral
        obtain ⟨rfl, -⟩ := List.append_inj heq (hlength.symm.trans hbody)
        rw [again, ← hvalue]
    · rw [if_neg quote] at h ⊢
      cases hpair : (body ++ cs).head? >>= symbolOfPair? c with
      | some s =>
        have more : body ≠ [] := by
          rintro rfl
          rw [hpair] at h
          cases h
        rw [hpair] at h
        rw [pair_congr hpair (fun none => absurd none more) follows]
        exact h
      | none =>
        rw [hpair] at h
        rw [pair_congr hpair (fun _ => rfl) follows]
        exact h

/-! ### Passages and what comes later -/

theorem EndsLine.congr (h : EndsLine cs) (follows : Follows cs cs') : EndsLine cs' := by
  intro c hc
  rcases follows c hc with rfl | hc
  · rfl
  · exact h c hc

theorem startsComment_congr (h : startsComment c (body ++ cs) = true) (ends : EndsLine cs) :
    startsComment c (body ++ cs') = true := by
  cases body with
  | cons d body => exact h
  | nil =>
    simp only [startsComment, Bool.or_eq_true, Bool.and_eq_true, beq_iff_eq] at h ⊢
    rcases h with rfl | ⟨-, slash⟩
    · exact .inl rfl
    · exact absurd (ends '/' slash) (by decide)

theorem StartsToken.congr (h : StartsToken c (body ++ cs)) (follows : Follows cs cs') :
    StartsToken c (body ++ cs') := by
  refine ⟨h.line, h.space, ?_⟩
  have hcomment := h.comment
  simp only [startsComment, Bool.or_eq_false_iff, Bool.and_eq_false_imp, beq_iff_eq,
    beq_eq_false_iff_ne] at hcomment ⊢
  refine ⟨hcomment.1, ?_⟩
  intro slash next
  have same : Follows (body ++ cs) (body ++ cs') := follows.append
  rcases same '/' next with line | next
  · exact absurd line (by decide)
  · exact hcomment.2 slash next

/-- **What was passed does not depend on what comes later**: on a line feed, on the end, or on
anything that begins with the same character. -/
theorem Passes.congr (h : Passes k cs ts k' cs') :
    ∃ passed, cs = passed ++ cs' ∧ k'.offset = k.offset + passed.length ∧
      ∀ cs'', Follows cs' cs'' → Passes k (passed ++ cs'') ts k' cs'' := by
  induction h with
  | here k cs => exact ⟨[], rfl, rfl, fun cs'' _ => .here k cs''⟩
  | newline _ ih =>
    obtain ⟨passed, rfl, offset, again⟩ := ih
    refine ⟨'\n' :: passed, rfl, ?_, fun cs'' follows => .newline (again cs'' follows)⟩
    rw [offset, List.length_cons, Cursor.newline_offset]
    omega
  | @space k _ c _ _ _ blank _ ih =>
    obtain ⟨passed, rfl, offset, again⟩ := ih
    refine ⟨c :: passed, rfl, ?_, fun cs'' follows => .space blank (again cs'' follows)⟩
    rw [offset, List.length_cons, Cursor.skip_offset]
    omega
  | @comment k _ c body _ _ _ starts inside ends _ ih =>
    obtain ⟨passed, rfl, offset, again⟩ := ih
    refine ⟨c :: (body ++ passed), by simp, ?_, fun cs'' follows => ?_⟩
    · rw [offset, List.length_cons, List.length_append, Cursor.skip_offset]
      omega
    · rw [List.cons_append, List.append_assoc]
      exact .comment (startsComment_congr starts ends) inside (ends.congr follows.append)
        (again cs'' follows)
  | @token k _ c l body _ _ _ starts head _ ih =>
    obtain ⟨passed, rfl, offset, again⟩ := ih
    refine ⟨c :: (body ++ passed), by simp, ?_, fun cs'' follows => ?_⟩
    · rw [offset, List.length_cons, List.length_append, Cursor.skip_offset]
      omega
    · rw [List.cons_append, List.append_assoc]
      exact .token (starts.congr follows.append) (headLexeme_congr head follows.append)
        (again cs'' follows)

theorem Passes.trans (h : Passes k cs ts k' cs') (h' : Passes k' cs' ts' k'' cs'') :
    Passes k cs (ts ++ ts') k'' cs'' := by
  induction h with
  | here => exact h'
  | newline _ ih => exact .newline (ih h')
  | space blank _ ih => exact .space blank (ih h')
  | comment starts inside ends _ ih => exact .comment starts inside ends (ih h')
  | token starts head _ ih => exact .token starts head (ih h')

/-- A passage to a token, over it, and on from it. -/
structure Meets (k : Cursor) (cs : List Char) (ts : List Token) (t : Token) (ts' : List Token)
    (k' : Cursor) (cs' : List Char) (k₁ : Cursor) (c : Char) (body rest : List Char) : Prop where
  before : Passes k cs ts k₁ (c :: (body ++ rest))
  starts : StartsToken c (body ++ rest)
  head : headLexeme c (body ++ rest) = .ok (t.lexeme, body.length)
  text : t.text = String.ofList (c :: body)
  start : t.start = k₁.position
  after : Passes (k₁.skip (body.length + 1)) rest ts' k' cs'

/-- Every token is met on the way. -/
theorem Passes.exists_token {t : Token} (h : Passes k cs (ts ++ t :: ts') k' cs') :
    ∃ k₁ c body rest, Meets k cs ts t ts' k' cs' k₁ c body rest := by
  generalize heq : ts ++ t :: ts' = all at h
  induction h generalizing ts with
  | here => simp at heq
  | newline _ ih =>
    obtain ⟨k₁, c, body, rest, meets⟩ := ih heq
    exact ⟨k₁, c, body, rest, { meets with before := .newline meets.before }⟩
  | space blank _ ih =>
    obtain ⟨k₁, c, body, rest, meets⟩ := ih heq
    exact ⟨k₁, c, body, rest, { meets with before := .space blank meets.before }⟩
  | comment starts inside ends _ ih =>
    obtain ⟨k₁, c, body, rest, meets⟩ := ih heq
    exact ⟨k₁, c, body, rest, { meets with before := .comment starts inside ends meets.before }⟩
  | @token k _ c l body cs _ us starts head more ih =>
    cases ts with
    | nil =>
      obtain ⟨rfl, rfl⟩ := List.cons.inj heq
      exact ⟨k, c, body, cs, .here _ _, starts, head, rfl, rfl, more⟩
    | cons u ts =>
      obtain ⟨rfl, others⟩ := List.cons.inj heq
      obtain ⟨k₁, c', body', rest, meets⟩ := ih others
      exact ⟨k₁, c', body', rest, { meets with before := .token starts head meets.before }⟩

/-! ### Scans -/

theorem takeWhile_comment (inside : '\n' ∉ body) (ends : EndsLine cs) :
    (body ++ cs).takeWhile (· ≠ '\n') = body := by
  have hbody : ∀ d ∈ body, decide (d ≠ '\n') = true := by
    intro d hd
    rw [decide_eq_true_iff]
    rintro rfl
    exact inside hd
  rw [List.takeWhile_append_of_pos hbody, List.append_right_eq_self]
  cases cs with
  | nil => rfl
  | cons d cs =>
    obtain rfl := ends d rfl
    rfl

/-- What is left of the line, and what comes after it. -/
theorem exists_line (cs : List Char) :
    ∃ body rest, cs = body ++ rest ∧ '\n' ∉ body ∧ EndsLine rest := by
  refine ⟨cs.takeWhile (· ≠ '\n'), cs.dropWhile (· ≠ '\n'), ?_, ?_, ?_⟩
  · exact List.takeWhile_append_dropWhile.symm
  · intro h
    simpa using List.mem_takeWhile_imp h
  · intro c hc
    have h := List.head?_dropWhile_not (· ≠ '\n') cs
    rw [Option.mem_def.1 hc] at h
    simpa using h

/-- The same stream with some tokens in front. -/
def TokenStream.behind (ts : List Token) (s : TokenStream) : TokenStream :=
  ⟨ts ++ s.tokens, s.stop⟩

/-- A scan goes on from wherever it has come. -/
theorem Passes.scanFrom_eq (h : Passes k cs ts k' cs') :
    scanFrom k cs = (scanFrom k' cs').map (TokenStream.behind ts) := by
  induction h with
  | here k cs => cases scanFrom k cs <;> rfl
  | newline _ ih => rw [scanFrom_newline, ih]
  | @space _ _ c _ _ _ blank _ ih =>
    have line : c ≠ '\n' := by
      rintro rfl
      exact absurd blank (by decide)
    rw [scanFrom_space _ _ line blank, ih]
  | @comment _ _ _ body cs _ _ starts inside ends _ ih =>
    have htake := takeWhile_comment inside ends
    have hdrop : (body ++ cs).dropWhile (· ≠ '\n') = cs := by
      have hall := List.takeWhile_append_dropWhile (p := (· ≠ '\n')) (l := body ++ cs)
      rw [htake] at hall
      exact List.append_cancel_left hall
    rw [scanFrom_comment _ _ starts, htake, hdrop, ih]
  | @token k _ _ _ body cs _ _ starts head _ ih =>
    rw [scanFrom_token _ _ starts.line starts.space starts.comment, head]
    simp only [List.drop_left, List.take_left, ih]
    cases scanFrom _ _ <;> rfl

/-- How a scan ends: it passes the whole text, or it stops before something that is no token. -/
inductive Course (k : Cursor) (cs : List Char) : Except SyntaxError TokenStream → Prop
  | ends {k' : Cursor} {ts : List Token} (passes : Passes k cs ts k' []) :
      Course k cs (.ok ⟨ts, k'.position⟩)
  | stops {k' : Cursor} {ts : List Token} {c : Char} {cs' : List Char} {cause : Cause}
      (passes : Passes k cs ts k' (c :: cs')) (starts : StartsToken c cs')
      (head : headLexeme c cs' = .error cause) : Course k cs (.error ⟨cause, k'.position⟩)

theorem Course.of_passes {r : Except SyntaxError TokenStream} (h : Passes k cs ts k' cs')
    (course : Course k' cs' r) : Course k cs (r.map (TokenStream.behind ts)) := by
  cases course with
  | ends passes => exact .ends (h.trans passes)
  | stops passes starts head => exact .stops (h.trans passes) starts head

/-- A scan takes a step, unless it has come to the end, or to something that is no token. -/
theorem exists_step (k : Cursor) (c : Char) (cs : List Char) :
    (∃ ts k' cs', cs'.length ≤ cs.length ∧ Passes k (c :: cs) ts k' cs') ∨
      ∃ cause, StartsToken c cs ∧ headLexeme c cs = .error cause := by
  by_cases line : c = '\n'
  · subst line
    exact .inl ⟨[], _, cs, Nat.le_refl _, .newline (.here _ _)⟩
  · cases blank : isSpace c with
    | true => exact .inl ⟨[], _, cs, Nat.le_refl _, .space blank (.here _ _)⟩
    | false =>
      cases comment : startsComment c cs with
      | true =>
        obtain ⟨body, rest, rfl, inside, ends⟩ := exists_line cs
        exact .inl ⟨[], _, rest, by simp, .comment comment inside ends (.here _ _)⟩
      | false =>
        cases head : headLexeme c cs with
        | error cause => exact .inr ⟨cause, ⟨line, blank, comment⟩, rfl⟩
        | ok read =>
          obtain ⟨l, n⟩ := read
          obtain ⟨body, rest, rfl, rfl⟩ := exists_headLexeme head
          exact .inl ⟨_, _, rest, by simp, .token ⟨line, blank, comment⟩ head (.here _ _)⟩

/-- **Every scan passes the whole text, or stops before something that is no token.** -/
theorem course_scanFrom (k : Cursor) (cs : List Char) : Course k cs (scanFrom k cs) := by
  match cs with
  | [] =>
    rw [scanFrom_nil]
    exact .ends (.here k [])
  | c :: cs =>
    rcases exists_step k c cs with ⟨ts, k', cs', shorter, passes⟩ | ⟨cause, starts, head⟩
    · rw [passes.scanFrom_eq]
      exact .of_passes passes (course_scanFrom k' cs')
    · rw [scanFrom_token _ _ starts.line starts.space starts.comment, head]
      exact .stops (.here _ _) starts head
termination_by cs.length
decreasing_by exact Nat.lt_succ_of_le shorter

theorem scanFrom_eq_ok_iff {stream : TokenStream} :
    scanFrom k cs = .ok stream ↔
      ∃ k', Passes k cs stream.tokens k' [] ∧ stream.stop = k'.position := by
  constructor
  · intro h
    have course := course_scanFrom k cs
    rw [h] at course
    cases course with
    | ends passes => exact ⟨_, passes, rfl⟩
  · rintro ⟨k', passes, stop⟩
    rw [passes.scanFrom_eq, scanFrom_nil, Except.map, TokenStream.behind, List.append_nil, ← stop]

theorem exists_of_scanFrom_error {e : SyntaxError} (h : scanFrom k cs = .error e) :
    ∃ ts k' c cs', Passes k cs ts k' (c :: cs') ∧ e.place = k'.position := by
  have course := course_scanFrom k cs
  rw [h] at course
  cases course with
  | stops passes starts head => exact ⟨_, _, _, _, passes, rfl⟩

end ChangeControl.Rule
