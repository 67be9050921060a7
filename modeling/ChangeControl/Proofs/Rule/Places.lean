import ChangeControl.Proofs.Rule.Blame
import ChangeControl.Proofs.Rule.Layout
import Mathlib.Data.List.Induction
/-!
Places as a reader counts them.

A reader finds a line by counting line feeds, and a column by counting the characters after the last
one.  The scanner counts while it reads, and counts right wherever a line ends between two tokens.
But a literal may hold a line feed, behind a backslash, and the scanner passes a token without
looking for lines in it.  So the places that it names are those in a text in which every token is
blotted out: they are right until the first such literal, and on too early a line from there on.

Main definitions:

* `Rule.placeAfter` — the place after the start of a text, by its line feeds;
* `Rule.blot` — a text with its tokens blotted out;
* `Rule.Locates` — the places that a text can be given: of tokens, of its end, and of errors.

Main results:

* `Passes.eq_past_blot` — a scan counts the line feeds between tokens;
* `Rule.place_of_locates` — **which place is named, and when it is the right one**.
-/

set_option autoImplicit false

namespace ChangeControl.Rule

variable {k k' : Cursor} {c : Char} {body cs cs' : List Char} {t : Token} {ts : List Token}

/-! ### Counting line feeds -/

/-- Past some more characters, each line feed among them starting a line. -/
def Cursor.past (k : Cursor) (cs : List Char) : Cursor :=
  cs.foldl (fun k c => if c = '\n' then k.newline else k.skip 1) k

/-- The place after the characters at the start of a text. -/
def placeAfter (cs : List Char) : Position where
  offset := cs.length
  line := 1 + cs.count '\n'
  column := 1 + (cs.reverse.takeWhile (· ≠ '\n')).length

namespace Cursor

@[simp] theorem start_offset : start.offset = 0 := rfl

@[simp] theorem newline_line (k : Cursor) : k.newline.line = k.line + 1 := rfl

@[simp] theorem skip_line (k : Cursor) (n : Nat) : (k.skip n).line = k.line := rfl

theorem past_append (k : Cursor) (cs cs' : List Char) :
    k.past (cs ++ cs') = (k.past cs).past cs' :=
  List.foldl_append

theorem past_newline (k : Cursor) (cs : List Char) : k.past ('\n' :: cs) = k.newline.past cs := rfl

theorem past_of_notMem (h : '\n' ∉ cs) : k.past cs = k.skip cs.length := by
  induction cs generalizing k with
  | nil => rfl
  | cons c cs ih =>
    have plain : c ≠ '\n' := fun line => h (line ▸ .head _)
    rw [past, List.foldl_cons, if_neg plain, ← past, ih fun hcs => h (.tail _ hcs), skip_skip,
      List.length_cons, Nat.add_comm]

theorem line_past : (k.past cs).line = k.line + cs.count '\n' := by
  induction cs generalizing k with
  | nil => rfl
  | cons c cs ih =>
    by_cases line : c = '\n'
    · subst line
      rw [past_newline, ih, List.count_cons_self, newline_line]
      omega
    · rw [past, List.foldl_cons, if_neg line, ← past, ih, List.count_cons_of_ne line, skip_line]

/-- The cursor names the place that is found by counting line feeds. -/
theorem position_past_start (cs : List Char) : (start.past cs).position = placeAfter cs := by
  have counts : (start.past cs).offset = cs.length ∧ (start.past cs).lineStart +
      (cs.reverse.takeWhile (· ≠ '\n')).length = cs.length := by
    induction cs using List.reverseRecOn with
    | nil => exact ⟨rfl, rfl⟩
    | append_singleton cs c ih =>
      rw [past_append, List.reverse_append, List.length_append]
      by_cases line : c = '\n'
      · subst line
        exact ⟨congrArg (· + 1) ih.1, congrArg (· + 1) ih.1⟩
      · have column := List.takeWhile_cons_of_pos (p := (· ≠ '\n')) (l := cs.reverse)
          (decide_eq_true line)
        have hpast : (start.past cs).past [c] = (start.past cs).skip 1 := if_neg line
        rw [hpast, List.reverse_singleton, List.singleton_append, column, skip]
        exact ⟨congrArg (· + 1) ih.1, by simpa [← Nat.add_assoc] using ih.2⟩
  obtain ⟨offset, column⟩ := counts
  rw [position, placeAfter, line_past, offset]
  congr 1
  omega

end Cursor

/-! ### Blots -/

/-- The token has the character that comes after `n` characters. -/
def Token.covers (n : Nat) (t : Token) : Bool :=
  decide (t.start.offset ≤ n) && decide (n < t.finish)

/-- The characters from the offset `n` on, with a blank for each one that a token has. -/
def blot (ts : List Token) : Nat → List Char → List Char
  | _, [] => []
  | n, c :: cs => (if ts.any (Token.covers n) then ' ' else c) :: blot ts (n + 1) cs

/-- Before the first token nothing is blotted out. -/
theorem blot_append_of_le (body cs : List Char) {n : Nat}
    (h : ∀ t ∈ ts, n + body.length ≤ t.start.offset) :
    blot ts n (body ++ cs) = body ++ blot ts (n + body.length) cs := by
  induction body generalizing n with
  | nil => rfl
  | cons c body ih =>
    have outside : ts.any (Token.covers n) = false := by
      rw [List.any_eq_false]
      intro t ht
      have := h t ht
      rw [List.length_cons] at this
      simp only [Token.covers, Bool.and_eq_true, decide_eq_true_eq]
      omega
    rw [List.length_cons] at h
    rw [List.cons_append, blot, outside, ih fun t ht => by have := h t ht; omega, List.length_cons,
      Nat.add_assoc, Nat.add_comm 1]
    rfl

/-- Of the first token there is nothing left. -/
theorem blot_append_of_covers {n : Nat} (start : t.start.offset ≤ n)
    (finish : n + body.length ≤ t.finish) :
    blot (t :: ts) n (body ++ cs) =
      List.replicate body.length ' ' ++ blot (t :: ts) (n + body.length) cs := by
  induction body generalizing n with
  | nil => rfl
  | cons c body ih =>
    rw [List.length_cons] at finish
    have inside : Token.covers n t = true := by
      simp only [Token.covers, Bool.and_eq_true, decide_eq_true_eq]
      omega
    rw [List.cons_append, blot, List.any_cons, inside, Bool.true_or, if_pos rfl,
      ih (by omega) (by omega), List.length_cons, List.replicate_succ, List.cons_append,
      Nat.add_assoc, Nat.add_comm 1]

/-- After a token it blots nothing out. -/
theorem blot_cons_of_finish_le {n : Nat} (finish : t.finish ≤ n) :
    blot (t :: ts) n cs = blot ts n cs := by
  induction cs generalizing n with
  | nil => rfl
  | cons c cs ih =>
    have outside : Token.covers n t = false := by
      simp only [Token.covers, Bool.and_eq_false_iff, decide_eq_false_iff_not]
      omega
    rw [blot, blot, List.any_cons, outside, Bool.false_or, ih (Nat.le_succ_of_le finish)]

/-! ### Counting scans -/

theorem notMem_space (blank : isSpace c = true) : '\n' ∉ [c] := by
  rw [List.mem_singleton]
  rintro rfl
  exact absurd blank (by decide)

theorem notMem_comment (starts : startsComment c (body ++ cs) = true) (inside : '\n' ∉ body) :
    '\n' ∉ c :: body := by
  rintro (_ | ⟨_, h⟩)
  · exact absurd starts (by simp [startsComment])
  · exact inside h

/-- **A scan counts the line feeds between tokens**, and those only. -/
theorem Passes.eq_past_blot (h : Passes k cs ts k' []) : k' = k.past (blot ts k.offset cs) := by
  generalize hend : ([] : List Char) = after at h
  induction h with
  | here =>
    subst hend
    rfl
  | @newline k _ cs _ _ more ih =>
    have later := blot_append_of_le ['\n'] cs more.order.1
    rw [ih hend]
    exact congrArg k.past later.symm
  | @space k _ c cs _ _ blank more ih =>
    have later := blot_append_of_le [c] cs more.order.1
    rw [ih hend, ← List.singleton_append, later, Cursor.past_append,
      Cursor.past_of_notMem (notMem_space blank)]
    rfl
  | @comment k _ c body cs _ _ starts inside _ more ih =>
    have later := blot_append_of_le (c :: body) cs (n := k.offset) fun t ht => by
      have := more.order.1 t ht
      rw [Cursor.skip_offset] at this
      rw [List.length_cons]
      omega
    rw [ih hend, ← List.cons_append, later, Cursor.past_append,
      Cursor.past_of_notMem (notMem_comment starts inside), List.length_cons, Nat.add_comm 1]
    rfl
  | @token k _ c l body cs _ ts _ _ more ih =>
    generalize ht : (⟨l, String.ofList (c :: body), k.position⟩ : Token) = t
    have start : t.start.offset = k.offset := ht ▸ rfl
    have finish : k.offset + (c :: body).length = t.finish := by
      rw [Token.finish, start, ← ht, String.length_ofList]
    have none : '\n' ∉ List.replicate (c :: body).length ' ' := fun h =>
      absurd (List.eq_of_mem_replicate h) (by decide)
    rw [ih hend, ← List.cons_append, blot_append_of_covers start.le finish.le,
      blot_cons_of_finish_le finish.ge, Cursor.past_append, Cursor.past_of_notMem none,
      List.length_replicate]
    rfl

/-- The line feeds that tokens hold are missing in the count. -/
theorem Passes.line_add (h : Passes k cs ts k' []) :
    k'.line + (ts.flatMap fun t => t.text.toList).count '\n' = k.line + cs.count '\n' := by
  generalize hend : ([] : List Char) = after at h
  induction h with
  | here =>
    subst hend
    rfl
  | newline _ ih =>
    rw [ih hend, Cursor.newline_line, List.count_cons_self]
    omega
  | space blank _ ih =>
    rw [ih hend, Cursor.skip_line, ← List.singleton_append, List.count_append,
      List.count_eq_zero.2 (notMem_space blank), Nat.zero_add]
  | comment starts inside _ _ ih =>
    rw [ih hend, Cursor.skip_line, ← List.cons_append, List.count_append,
      List.count_eq_zero.2 (notMem_comment starts inside), Nat.zero_add]
  | token _ _ _ ih =>
    rw [List.flatMap_cons, List.count_append, String.toList_ofList, Nat.add_left_comm, ih hend,
      Cursor.skip_line, ← List.cons_append, List.count_append, Nat.add_left_comm]

/-- A scan counts right, as long as no token holds a line feed. -/
theorem Passes.eq_past (h : Passes k cs ts k' []) (single : ∀ t ∈ ts, '\n' ∉ t.text.toList) :
    k' = k.past cs := by
  generalize hend : ([] : List Char) = after at h
  induction h with
  | here =>
    subst hend
    rfl
  | newline _ ih =>
    exact ih single hend
  | space blank _ ih =>
    rw [ih single hend, ← List.singleton_append, Cursor.past_append,
      Cursor.past_of_notMem (notMem_space blank)]
    rfl
  | comment starts inside _ _ ih =>
    rw [ih single hend, ← List.cons_append, Cursor.past_append,
      Cursor.past_of_notMem (notMem_comment starts inside), List.length_cons, Nat.add_comm 1]
  | token _ _ _ ih =>
    obtain ⟨first, others⟩ := List.forall_mem_cons.1 single
    rw [String.toList_ofList] at first
    rw [ih others hend, ← List.cons_append, Cursor.past_append, Cursor.past_of_notMem first,
      List.length_cons]

/-! ### Places of a text -/

/-- The places that a text can be given. -/
inductive Locates (source : String) : Position → Prop
  | token {stream : TokenStream} {t : Token} (h : scan source = .ok stream)
      (ht : t ∈ stream.tokens) : Locates source t.start
  | stop {stream : TokenStream} (h : scan source = .ok stream) : Locates source stream.stop
  | scanError {e : SyntaxError} (h : scan source = .error e) : Locates source e.place
  | parseError {e : SyntaxError} (h : parse source = .error e) : Locates source e.place
  | formulaError {e : SyntaxError} (h : parseFormula source = .error e) : Locates source e.place

/-- A scan of the text comes past the place. -/
def Reached (source : String) (p : Position) : Prop :=
  ∃ ts k cs, Passes .start source.toList ts k cs ∧ p = k.position

theorem stand_of_scan {source : String} {stream : TokenStream} (h : scan source = .ok stream) :
    Stand (Reached source) stream.stop stream.tokens := by
  obtain ⟨k', passes, stop⟩ := scanFrom_eq_ok_iff.1 h
  refine ⟨⟨_, k', [], passes, stop⟩, ?_⟩
  intro t ht
  obtain ⟨ts, ts', heq⟩ := List.append_of_mem ht
  obtain ⟨k₁, c, body, rest, meets⟩ := (heq ▸ passes).exists_token
  exact ⟨ts, k₁, _, meets.before, meets.start⟩

theorem reached_of_scan_error {source : String} {e : SyntaxError} (h : scan source = .error e) :
    Reached source e.place := by
  obtain ⟨ts, k', c, cs', passes, place⟩ := exists_of_scanFrom_error h
  exact ⟨ts, k', c :: cs', passes, place⟩

theorem reached_of_locates {source : String} {p : Position} (h : Locates source p) :
    Reached source p := by
  cases h with
  | token h ht => exact (stand_of_scan h).starts _ ht
  | stop h => exact (stand_of_scan h).stop
  | scanError h => exact reached_of_scan_error h
  | parseError h =>
    unfold parse at h
    split at h
    · next hscan =>
      cases h
      exact reached_of_scan_error hscan
    · next hscan => exact place_of_documentFrom (stand_of_scan hscan) h
  | formulaError h =>
    unfold parseFormula at h
    split at h
    · next hscan =>
      cases h
      exact reached_of_scan_error hscan
    · next hscan => exact place_of_formulaOfTokens (stand_of_scan hscan) h

/-- **Which place is named.**  A place lies in the text; what comes before it is scanned by itself;
the place is the one after all this, with the tokens blotted out; and it is the right one exactly if
no token before it holds a line feed. -/
theorem place_of_locates {source : String} {p : Position} (h : Locates source p) :
    p.offset ≤ source.length ∧
      ∃ before, scan (String.ofList (source.toList.take p.offset)) = .ok before ∧
        p = placeAfter (blot before.tokens 0 (source.toList.take p.offset)) ∧
        (p = placeAfter (source.toList.take p.offset) ↔
          ∀ t ∈ before.tokens, '\n' ∉ t.text.toList) := by
  obtain ⟨ts, k, cs, passes, rfl⟩ := reached_of_locates h
  obtain ⟨passed, heq, offset, again⟩ := passes.congr
  have hpassed : source.toList.take k.position.offset = passed := by
    rw [heq, Cursor.position_offset, offset, Cursor.start_offset, Nat.zero_add, List.take_left]
  have alone : Passes .start passed ts k [] := by
    have again := again [] fun _ hd => nomatch hd
    rwa [List.append_nil] at again
  rw [hpassed]
  refine ⟨?_, ⟨ts, k.position⟩, ?_, ?_, ?_⟩
  · rw [← String.length_toList, heq, List.length_append, Cursor.position_offset, offset]
    rw [Cursor.start_offset, Nat.zero_add]
    exact Nat.le_add_right _ _
  · exact scanFrom_eq_ok_iff.2 ⟨k, by rwa [String.toList_ofList], rfl⟩
  · rw [← Cursor.position_past_start]
    exact congrArg _ alone.eq_past_blot
  · constructor
    · intro right
      have line : k.line = 1 + passed.count '\n' := congrArg Position.line right
      have counted : k.line + _ = 1 + passed.count '\n' := alone.line_add
      have none : (ts.flatMap fun t => t.text.toList).count '\n' = 0 := by omega
      intro t ht feed
      exact List.count_eq_zero.1 none (List.mem_flatMap.2 ⟨t, ht, feed⟩)
    · intro single
      rw [← Cursor.position_past_start]
      exact congrArg _ (alone.eq_past single)

/-- At an error on the second line, after a comment. -/
theorem place_after_comment :
    parse "# a\n  workflow [" = .error ⟨.expectedName "a workflow name" (some "["), ⟨15, 2, 12⟩⟩ ∧
      15 ≤ "# a\n  workflow [".length ∧
        ∃ before, scan (String.ofList ("# a\n  workflow [".toList.take 15)) = .ok before ∧
          ⟨15, 2, 12⟩ = placeAfter (blot before.tokens 0 ("# a\n  workflow [".toList.take 15)) ∧
          (⟨15, 2, 12⟩ = placeAfter ("# a\n  workflow [".toList.take 15) ↔
            ∀ t ∈ before.tokens, '\n' ∉ t.text.toList) := by
  have h : parse "# a\n  workflow [" =
      .error ⟨.expectedName "a workflow name" (some "["), ⟨15, 2, 12⟩⟩ := by decide +kernel
  exact ⟨h, place_of_locates (.parseError h)⟩

/-- After a literal that holds a line feed, a place is on too early a line: the name after it is
said to stand on the first line, and stands on the second. -/
theorem exists_misplaced :
    ¬ ∀ (source : String) (p : Position), Locates source p →
      p = placeAfter (source.toList.take p.offset) := by
  intro right
  have scanned : (scan "\"a\\\n\" x").toOption.map (fun stream => stream.tokens[1]?) =
      some (some ⟨.name "x", "x", ⟨6, 1, 7⟩⟩) := by decide +kernel
  obtain ⟨stream, hstream, second⟩ := Option.map_eq_some_iff.1 scanned
  have located := Locates.token (toOption_eq_some_iff.1 hstream) (List.mem_of_getElem? second)
  exact absurd (right _ _ located) (by decide)

end ChangeControl.Rule
