import ChangeControl.Proofs.Rule.Outcome
import ChangeControl.Proofs.Rule.Passage
/-!
How tokens lie in their text.

Every token is a part of its text, at the place that it names.  The tokens stand in the order of the
text and do not overlap, and what is left between them separates them: line feeds, blanks, and
comments, each up to the end of its line.  A token by itself is scanned to itself, so that nothing
about it is owed to the text around it.

Main definitions:

* `Rule.Separates` — characters between tokens;
* `Rule.Faithful` — the tokens are the text, less what separates them.

Main results:

* `Rule.faithful_of_scan` — **a scan loses and invents nothing**.
-/

set_option autoImplicit false

namespace ChangeControl.Rule

/-! ### Definitions -/

/-- The characters separate tokens, when `rest` comes after them: line feeds, blanks, and comments,
which start with a hash sign or two slashes and go on to the end of their line. -/
inductive Separates (rest : List Char) : List Char → Prop
  | nothing : Separates rest []
  | newline {cs : List Char} (more : Separates rest cs) : Separates rest ('\n' :: cs)
  | space {c : Char} {cs : List Char} (blank : isSpace c = true) (more : Separates rest cs) :
      Separates rest (c :: cs)
  | comment {mark body cs : List Char} (opens : mark = ['#'] ∨ mark = ['/', '/'])
      (inside : '\n' ∉ body) (whole : EndsLine (cs ++ rest)) (more : Separates rest cs) :
      Separates rest (mark ++ body ++ cs)

/-- The number of characters up to the end of a token. -/
def Token.finish (t : Token) : Nat := t.start.offset + t.text.length

/-- The number of characters up to the end of the last one of some tokens. -/
def finishOf (ts : List Token) : Nat := (ts.getLast?.map Token.finish).getD 0

/-- The tokens are the text, less what separates them. -/
structure Faithful (source : List Char) (stream : TokenStream) : Prop where
  slices : ∀ t ∈ stream.tokens,
    t.text ≠ "" ∧ (source.drop t.start.offset).take t.text.length = t.text.toList
  order : stream.tokens.Pairwise fun t u => t.finish ≤ u.start.offset
  /-- Wherever the tokens are divided, what stands between the two parts separates them. -/
  gaps : ∀ before after, stream.tokens = before ++ after →
    ∃ gap, source.drop (finishOf before) = gap ++ source.drop (placeOf stream.stop after).offset ∧
      finishOf before + gap.length = (placeOf stream.stop after).offset ∧
      Separates (source.drop (placeOf stream.stop after).offset) gap
  stop : stream.stop.offset = source.length
  /-- A token by itself is scanned to itself. -/
  alone : ∀ t ∈ stream.tokens,
    ∃ stop, scan t.text = .ok ⟨[{ t with start := Cursor.start.position }], stop⟩

variable {k k' k₁ : Cursor} {c : Char} {body cs cs' rest : List Char} {t : Token}
  {ts ts' : List Token}

/-! ### Tokens -/

theorem Meets.exists_slice (h : Meets .start cs ts t ts' k' cs' k₁ c body rest) :
    ∃ passed, cs = passed ++ (t.text.toList ++ rest) ∧ t.start.offset = passed.length := by
  obtain ⟨passed, rfl, offset, -⟩ := h.before.congr
  refine ⟨passed, ?_, ?_⟩
  · rw [h.text, String.toList_ofList, List.cons_append]
  · rw [h.start, Cursor.position_offset, offset]
    exact Nat.zero_add _

theorem Meets.length_text (h : Meets k cs ts t ts' k' cs' k₁ c body rest) :
    t.text.length = body.length + 1 := by
  rw [h.text, String.length_ofList, List.length_cons]

theorem Meets.finish_eq (h : Meets k cs ts t ts' k' cs' k₁ c body rest) :
    t.finish = (k₁.skip (body.length + 1)).offset := by
  rw [Token.finish, h.start, h.length_text, Cursor.position_offset, Cursor.skip_offset]

/-- A token by itself is scanned to itself. -/
theorem Meets.scan_alone (h : Meets k cs ts t ts' k' cs' k₁ c body rest) :
    ∃ stop, scan t.text = .ok ⟨[{ t with start := Cursor.start.position }], stop⟩ := by
  have follows : Follows rest [] := fun _ hd => nomatch hd
  have passes := Passes.token (k := .start) (h.starts.congr follows)
    (headLexeme_congr h.head follows) (.here _ _)
  have spelled : c :: body = t.text.toList := by rw [h.text, String.toList_ofList]
  rw [List.append_nil, ← h.text, spelled] at passes
  exact ⟨_, scanFrom_eq_ok_iff.2 ⟨_, passes, rfl⟩⟩

theorem Passes.order (h : Passes k cs ts k' cs') :
    (∀ t ∈ ts, k.offset ≤ t.start.offset) ∧
      ts.Pairwise fun t u => t.finish ≤ u.start.offset := by
  induction h with
  | here => exact ⟨List.forall_mem_nil _, .nil⟩
  | newline _ ih => exact ⟨fun t ht => Nat.le_of_succ_le (ih.1 t ht), ih.2⟩
  | space _ _ ih | comment _ _ _ _ ih =>
    exact ⟨fun t ht => Nat.le_of_add_right_le (ih.1 t ht), ih.2⟩
  | @token k _ c l body _ _ _ _ _ _ ih =>
    refine ⟨List.forall_mem_cons.2 ⟨Nat.le_refl _, ?_⟩, List.pairwise_cons.2 ⟨?_, ih.2⟩⟩
    · exact fun t ht => Nat.le_of_add_right_le (ih.1 t ht)
    · intro t ht
      rw [Token.finish, String.length_ofList]
      exact ih.1 t ht

/-! ### What is between them -/

/-- What is passed without a token separates tokens. -/
theorem Passes.separates (h : Passes k cs [] k' cs') :
    ∃ gap, cs = gap ++ cs' ∧ k.offset + gap.length = k'.offset ∧ Separates cs' gap := by
  generalize hnone : ([] : List Token) = none at h
  induction h with
  | here => exact ⟨[], rfl, rfl, .nothing⟩
  | newline _ ih =>
    obtain ⟨gap, rfl, offset, separates⟩ := ih hnone
    refine ⟨'\n' :: gap, rfl, ?_, .newline separates⟩
    rw [← offset, Cursor.newline_offset, List.length_cons]
    omega
  | @space _ _ c _ _ _ blank _ ih =>
    obtain ⟨gap, rfl, offset, separates⟩ := ih hnone
    refine ⟨c :: gap, rfl, ?_, .space blank separates⟩
    rw [← offset, Cursor.skip_offset, List.length_cons]
    omega
  | @comment _ _ c body _ _ _ starts inside ends _ ih =>
    obtain ⟨gap, rfl, offset, separates⟩ := ih hnone
    refine ⟨c :: (body ++ gap), by simp, ?_, ?_⟩
    · rw [← offset, Cursor.skip_offset, List.length_cons, List.length_append]
      omega
    · simp only [startsComment, Bool.or_eq_true, Bool.and_eq_true, beq_iff_eq] at starts
      rcases starts with rfl | ⟨rfl, slash⟩
      · exact .comment (.inl (Eq.refl ['#'])) inside ends separates
      · cases body with
        | nil => exact absurd (ends '/' slash) (by decide)
        | cons d body =>
          obtain rfl : d = '/' := by simpa using slash
          have later : '\n' ∉ body := fun h => inside (.tail _ h)
          exact .comment (.inr (Eq.refl ['/', '/'])) later ends separates
  | token => cases hnone

/-- Up to the next token, or to the end, there is only what separates tokens. -/
theorem Passes.gap {stop : Position} (h : Passes k cs ts k' []) (hstop : stop = k'.position) :
    ∃ gap rest, cs = gap ++ rest ∧ k.offset + gap.length = (placeOf stop ts).offset ∧
      Separates rest gap := by
  cases ts with
  | nil =>
    obtain ⟨gap, rfl, offset, separates⟩ := h.separates
    exact ⟨gap, [], rfl, hstop ▸ offset, separates⟩
  | cons t ts =>
    obtain ⟨k₁, c, body, rest, meets⟩ := Passes.exists_token (List.nil_append (t :: ts) ▸ h)
    obtain ⟨gap, rfl, offset, separates⟩ := meets.before.separates
    refine ⟨gap, _, rfl, ?_, separates⟩
    rw [offset, placeOf, meets.start, Cursor.position_offset]

theorem finishOf_concat (ts : List Token) (t : Token) : finishOf (ts ++ [t]) = t.finish := by
  rw [finishOf, List.getLast?_concat, Option.map_some, Option.getD_some]

/-- Wherever tokens are divided, the passage over the first part leads to where that part ends. -/
theorem Passes.divide (h : Passes .start cs (ts ++ ts') k' []) :
    ∃ k₁ passed rest, cs = passed ++ rest ∧ passed.length = finishOf ts ∧ k₁.offset = finishOf ts ∧
      Passes k₁ rest ts' k' [] := by
  rcases List.eq_nil_or_concat ts with rfl | ⟨ts, t, rfl⟩
  · exact ⟨.start, [], cs, rfl, rfl, rfl, h⟩
  · rw [List.concat_eq_append, List.append_assoc] at h
    obtain ⟨k₁, c, body, rest, meets⟩ := h.exists_token
    obtain ⟨passed, rfl, start⟩ := meets.exists_slice
    refine ⟨_, passed ++ t.text.toList, rest, (List.append_assoc ..).symm, ?_, ?_, meets.after⟩
    · rw [List.concat_eq_append, finishOf_concat, Token.finish, start, List.length_append,
        String.length_toList]
    · rw [List.concat_eq_append, finishOf_concat, meets.finish_eq]

/-! ### Whole texts -/

/-- **A scan loses and invents nothing.**  Its tokens are parts of the text, each at the place that
it names; they stand in order and do not overlap; only line feeds, blanks and comments are left
between them; the scan stops at the end of the text; and each token by itself is scanned to itself.
-/
theorem faithful_of_scan {source : String} {stream : TokenStream} (h : scan source = .ok stream) :
    Faithful source.toList stream := by
  obtain ⟨k', passes, stop⟩ := scanFrom_eq_ok_iff.1 h
  have met : ∀ t ∈ stream.tokens, ∃ ts ts' k₁ c body rest,
      Meets .start source.toList ts t ts' k' [] k₁ c body rest := by
    intro t ht
    obtain ⟨ts, ts', heq⟩ := List.append_of_mem ht
    exact ⟨ts, ts', (heq ▸ passes).exists_token⟩
  refine ⟨?slices, passes.order.2, ?gaps, ?stop, ?alone⟩
  case slices =>
    intro t ht
    obtain ⟨ts, ts', k₁, c, body, rest, meets⟩ := met t ht
    obtain ⟨passed, heq, start⟩ := meets.exists_slice
    refine ⟨fun none => ?_, ?_⟩
    · have length := meets.length_text
      rw [none] at length
      exact absurd length (Nat.succ_ne_zero _).symm
    · rw [heq, start, List.drop_left, ← String.length_toList, List.take_left]
  case gaps =>
    intro before after divided
    obtain ⟨k₁, passed, rest, heq, length, finish, more⟩ := (divided ▸ passes).divide
    obtain ⟨gap, next, rfl, offset, separates⟩ := more.gap stop
    have hnext : source.toList.drop (placeOf stream.stop after).offset = next := by
      rw [heq, ← offset, finish, ← length, ← List.append_assoc, ← List.length_append,
        List.drop_left]
    refine ⟨gap, ?_, by rw [← offset, finish], hnext.symm ▸ separates⟩
    rw [hnext, heq, ← length, List.drop_left]
  case stop =>
    obtain ⟨passed, heq, offset, -⟩ := passes.congr
    rw [stop, Cursor.position_offset, offset, heq, List.append_nil]
    exact Nat.zero_add _
  case alone =>
    intro t ht
    obtain ⟨ts, ts', k₁, c, body, rest, meets⟩ := met t ht
    exact meets.scan_alone

/-- At a text with a name, a literal that holds a quote and an arrow, between blanks, line feeds and
comments. -/
theorem faithful_between_comments :
    ∃ stream, scan "a # b\n// c\n \"d\\\" -> e\"=>" = .ok stream ∧
      stream.tokens.map Token.text = ["a", "\"d\\\" -> e\"", "=>"] ∧
      Faithful "a # b\n// c\n \"d\\\" -> e\"=>".toList stream := by
  have scanned : (scan "a # b\n// c\n \"d\\\" -> e\"=>").toOption.map
      (fun stream => stream.tokens.map Token.text) = some ["a", "\"d\\\" -> e\"", "=>"] := by
    decide +kernel
  obtain ⟨stream, hstream, texts⟩ := Option.map_eq_some_iff.1 scanned
  have h := toOption_eq_some_iff.1 hstream
  exact ⟨stream, h, texts, faithful_of_scan h⟩

end ChangeControl.Rule
