import ChangeControl.Proofs.Rule.Blocks
import ChangeControl.Proofs.Rule.Parsing
import ChangeControl.Proofs.Rule.Passage
/-!
Texts one after the other.

A text that is part of a longer one, between line feeds, is scanned and parsed there as it is by
itself, only at other places.  The scanner looks one character ahead and finds a line feed; the
parser looks one token ahead, and what it finds at the end of a document is the start of another
one, which ends a formula as well as the end of the text does.

Main definitions:

* `Rule.Surrounding` — what stands around a text inside a longer one;
* `Document.shift`, `Document.append` — declarations at other offsets, and two documents in a row.

Main results:

* `Passes.move`, `Rule.scan_append` — a text is scanned in the same way further down;
* `Rule.documentFrom_tokens` — a document is parsed in the same way before another one;
* `Rule.parse_append` — **two texts one after the other declare what each declares by itself**;
* `Rule.exists_parse_lines` — the same, with all that becomes of the declarations.
-/

set_option autoImplicit false

namespace ChangeControl.Rule

variable {α β : Type} {stop stop' opener opener' : Position} {t : Token} {ts rest : List Token}

/-! ### Surroundings -/

/-- What stands around a text inside a longer one. -/
structure Surrounding where
  /-- The number of characters before it. -/
  offset : Nat
  /-- The number of lines before it. -/
  lines : Nat
  /-- The tokens after it. -/
  after : List Token

namespace Surrounding

variable (s : Surrounding)

/-- A place of the text as a place of the longer one. -/
def place (p : Position) : Position := ⟨p.offset + s.offset, p.line + s.lines, p.column⟩

/-- A cursor in the text as a cursor in the longer one. -/
def cursor (k : Cursor) : Cursor := ⟨k.offset + s.offset, k.line + s.lines, k.lineStart + s.offset⟩

/-- A token of the text as one of the longer text. -/
def token (t : Token) : Token := { t with start := s.place t.start }

/-- The tokens of the text, and what comes after them. -/
def tokens (ts : List Token) : List Token := ts.map s.token ++ s.after

theorem position_cursor (k : Cursor) : (s.cursor k).position = s.place k.position := by
  rw [cursor, Cursor.position, Cursor.position, place, Nat.add_sub_add_right]

theorem cursor_skip (k : Cursor) (n : Nat) : s.cursor (k.skip n) = (s.cursor k).skip n := by
  rw [cursor, cursor, Cursor.skip, Cursor.skip, Nat.add_right_comm]

theorem cursor_newline (k : Cursor) : s.cursor k.newline = (s.cursor k).newline := by
  simp only [cursor, Cursor.newline, Nat.add_right_comm]

@[simp] theorem tokens_cons (t : Token) (ts : List Token) :
    s.tokens (t :: ts) = s.token t :: s.tokens ts := rfl

end Surrounding

/-! ### Scanning -/

/-- A scan does not depend on where it starts. -/
theorem Passes.move {k k' : Cursor} {cs cs' : List Char} (s : Surrounding)
    (h : Passes k cs ts k' cs') : Passes (s.cursor k) cs (ts.map s.token) (s.cursor k') cs' := by
  induction h with
  | here => exact .here _ _
  | newline _ ih => exact .newline (s.cursor_newline _ ▸ ih)
  | space blank _ ih => exact .space blank (s.cursor_skip _ _ ▸ ih)
  | comment starts inside ends _ ih => exact .comment starts inside ends (s.cursor_skip _ _ ▸ ih)
  | token starts head _ ih =>
    have passes := Passes.token starts head (s.cursor_skip _ _ ▸ ih)
    rwa [s.position_cursor] at passes

/-- Two texts one after the other are scanned to the tokens of both. -/
theorem scan_append {a b : String} {p q : TokenStream} (ha : scan a = .ok p) (hb : scan b = .ok q) :
    ∃ lines, scan (a ++ "\n" ++ b) =
      .ok ⟨p.tokens ++ q.tokens.map (Surrounding.mk (a.length + 1) lines []).token,
        (Surrounding.mk (a.length + 1) lines []).place q.stop⟩ := by
  obtain ⟨ka, passesA, -⟩ := scanFrom_eq_ok_iff.1 ha
  obtain ⟨kb, passesB, stop⟩ := scanFrom_eq_ok_iff.1 hb
  obtain ⟨passed, heq, offset, again⟩ := passesA.congr
  rw [List.append_nil] at heq
  have toLine := again ('\n' :: b.toList) fun c hc => .inl (Option.some.inj hc.symm)
  have start : (Surrounding.mk (a.length + 1) ka.line []).cursor .start = ka.newline := by
    rw [Cursor.newline, offset, Surrounding.cursor, ← String.length_toList, heq]
    simp [Cursor.start, Nat.add_comm]
  have all := toLine.trans (.newline (start ▸ passesB.move _))
  have chars : (a ++ "\n" ++ b).toList = passed ++ '\n' :: b.toList := by simp [heq]
  rw [← chars] at all
  refine ⟨ka.line, scanFrom_eq_ok_iff.2 ⟨_, all, ?_⟩⟩
  rw [stop, Surrounding.position_cursor]

/-! ### Single tokens -/

section Parts

variable {s : Surrounding}

theorem skip?_tokens (p : Token → Bool) (hp : ∀ t, p (s.token t) = p t) (more : ts ≠ []) :
    skip? p (s.tokens ts) = (skip? p ts).map s.tokens := by
  cases ts with
  | nil => exact absurd rfl more
  | cons t ts =>
    rw [Surrounding.tokens_cons, skip?, skip?, hp]
    split <;> rfl

theorem skip?_tokens_of_some {p : Token → Bool} (hp : ∀ t, p (s.token t) = p t)
    (h : skip? p ts = some rest) : skip? p (s.tokens ts) = some (s.tokens rest) := by
  obtain ⟨t, -, rfl⟩ := skip?_eq_some_iff.1 h
  rw [skip?_tokens p hp (List.cons_ne_nil _ _), h, Option.map_some]

theorem firstWord?_tokens {barred : List String} {w : String}
    (h : firstWord? barred ts = some (w, rest)) :
    firstWord? barred (s.tokens ts) = some (w, s.tokens rest) := by
  obtain ⟨t, hlexeme, free, rfl⟩ := firstWord?_eq_some_iff.1 h
  exact firstWord?_eq_some_iff.2 ⟨s.token t, hlexeme, free, rfl⟩

/-- What is read is read from something. -/
theorem ne_nil_of_reading {r : Except SyntaxError (Parsed α ts.length)} {a : α}
    (h : outcome r = some (a, rest)) : ts ≠ [] := by
  rintro rfl
  exact absurd (length_of_outcome h) (Nat.not_lt_zero _)

/-- Where something is left, there was something before. -/
theorem ne_nil_of_outcome {r : Except SyntaxError (Parsed α (ts.length + 1))} {a : α}
    (more : rest ≠ []) (h : outcome r = some (a, rest)) : ts ≠ [] := by
  rintro rfl
  have := length_of_outcome h
  exact more (List.eq_nil_of_length_eq_zero (Nat.lt_one_iff.1 this))

/-! ### Formulas and lists -/

theorem Splits.tokens {ls : List Lexeme} (h : Splits ts ls rest) :
    Splits (s.tokens ts) ls (s.tokens rest) := by
  induction ls generalizing ts with
  | nil => rw [splits_nil_iff.1 h, splits_nil_iff]
  | cons l ls ih =>
    obtain ⟨t, ts, rfl, hlexeme, h⟩ := splits_cons_iff.1 h
    exact splits_cons_iff.2 ⟨s.token t, _, rfl, hlexeme, ih h⟩

/-- A formula is read in the same way further down, if the formula also ends there. -/
theorem outcome_formula_tokens {scope : List String} {f : Formula}
    (ends : rest = [] → Quiet 0 s.after) (h : outcome (formula stop scope ts) = some (f, rest)) :
    outcome (formula stop' scope (s.tokens ts)) = some (f, s.tokens rest) := by
  obtain ⟨ls, next, split, derives, quiet, -⟩ := sound_level stop .formula scope ts f rest h
  have quietAfter : Quiet 0 (s.tokens rest) := by
    cases rest with
    | nil => exact ends rfl
    | cons t rest =>
      intro u hu
      cases hu
      exact quiet t rfl
  exact derives.complete _ _ split.tokens quietAfter fun _ => quietAfter

theorem outcome_closedFormula_tokens {context : Context} {f : Formula}
    (ends : rest = [] → Quiet 0 s.after ∧ context.endsAt s.after = true)
    (h : outcome (closedFormula stop context ts) = some (f, rest)) :
    outcome (closedFormula stop' context (s.tokens ts)) = some (f, s.tokens rest) := by
  rw [outcome_closedFormula] at h ⊢
  obtain ⟨⟨g, after⟩, hread, h⟩ := Option.bind_eq_some_iff.1 h
  split at h
  · next hends =>
    obtain ⟨rfl, rfl⟩ : g.closure = f ∧ after = rest := by simpa using h
    have hends' : context.endsAt (s.tokens after) = true := by
      cases after with
      | nil => exact (ends rfl).2
      | cons t after => cases context <;> exact hends
    rw [outcome_formula_tokens (fun none => (ends none).1) hread, Option.bind_some, if_pos hends']
  · cases h

theorem length_of_firstWord? {barred : List String} {w : String}
    (h : firstWord? barred ts = some (w, rest)) : rest.length < ts.length := by
  obtain ⟨t, -, -, rfl⟩ := firstWord?_eq_some_iff.1 h
  exact Nat.lt_succ_self _

theorem length_of_skip? {p : Token → Bool} (h : skip? p ts = some rest) :
    rest.length < ts.length := by
  obtain ⟨t, -, rfl⟩ := skip?_eq_some_iff.1 h
  exact Nat.lt_succ_self _

/-- Items are read in the same way further down, if they are when something follows them. -/
theorem outcome_bracketedItems_tokens {item item' : (ts : List Token) → Reading α ts} {f : α → α}
    (hitem : ∀ ts a rest, rest ≠ [] → outcome (item ts) = some (a, rest) →
      outcome (item' (s.tokens ts)) = some (f a, s.tokens rest))
    {ts rest : List Token} {as : List α}
    (h : outcome (bracketedItems stop opener item ts) = some (as, rest)) :
    outcome (bracketedItems stop' opener' item' (s.tokens ts)) =
      some (as.map f, s.tokens rest) := by
  rw [outcome_bracketedItems] at h ⊢
  obtain ⟨⟨a, after⟩, hfirst, h⟩ := Option.bind_eq_some_iff.1 h
  have shorter := length_of_outcome hfirst
  -- a comma or a bracket follows
  have more : after ≠ [] := by
    rintro rfl
    cases h
  rw [hitem ts a after more hfirst, Option.bind_some]
  simp only [skip?_tokens (Token.isPunct ',') (fun _ => rfl) more]
  cases hcomma : skip? (Token.isPunct ',') after with
  | some after' =>
    simp only [hcomma] at h
    obtain ⟨⟨as', rest'⟩, hmore, heq⟩ := Option.map_eq_some_iff.1 h
    cases heq
    have := length_of_skip? hcomma
    simp only [Option.map_some, outcome_bracketedItems_tokens hitem hmore, List.map_cons]
  | none =>
    simp only [hcomma] at h
    obtain ⟨after', hclosed, heq⟩ := Option.map_eq_some_iff.1 h
    cases heq
    have closed := skip?_tokens_of_some (s := s) (fun _ => rfl) hclosed
    simp only [Option.map_none, closed, Option.map_some, List.map_cons, List.map_nil]
termination_by ts.length
decreasing_by omega

theorem outcome_bracketed_tokens {item item' : (ts : List Token) → Reading α ts} {f : α → α}
    (hitem : ∀ ts a rest, rest ≠ [] → outcome (item ts) = some (a, rest) →
      outcome (item' (s.tokens ts)) = some (f a, s.tokens rest))
    {as : List α} (h : outcome (bracketed stop item ts) = some (as, rest)) :
    outcome (bracketed stop' item' (s.tokens ts)) = some (as.map f, s.tokens rest) := by
  rw [outcome_bracketed] at h ⊢
  obtain ⟨opened, hopened, h⟩ := Option.bind_eq_some_iff.1 h
  have more : opened ≠ [] := by
    rintro rfl
    exact ne_nil_of_reading h rfl
  rw [skip?_tokens_of_some (fun _ => rfl) hopened, Option.bind_some]
  simp only [skip?_tokens (Token.isPunct ']') (fun _ => rfl) more]
  cases hclosed : skip? (Token.isPunct ']') opened with
  | some after =>
    simp only [hclosed] at h
    cases h
    rfl
  | none =>
    simp only [hclosed] at h
    exact outcome_bracketedItems_tokens hitem h

/-! ### Transitions -/

/-- The same transition, further down. -/
def TransitionDecl.shift (n : Nat) (t : TransitionDecl) : TransitionDecl :=
  { t with offset := t.offset + n }

theorem outcome_moreEffects_tokens {ts rest : List Token} {names : List String} (more : rest ≠ [])
    (h : outcome (moreEffects stop ts) = some (names, rest)) :
    outcome (moreEffects stop' (s.tokens ts)) = some (names, s.tokens rest) := by
  rw [outcome_moreEffects] at h ⊢
  cases hplus : skip? (Token.isPunct '+') ts with
  | none =>
    simp only [hplus] at h
    cases h
    rw [skip?_tokens (Token.isPunct '+') (fun _ => rfl) more, hplus, Option.map_none]
  | some after =>
    simp only [hplus] at h
    obtain ⟨⟨name, after'⟩, hname, h⟩ := Option.bind_eq_some_iff.1 h
    obtain ⟨⟨names', rest'⟩, hmore, heq⟩ := Option.map_eq_some_iff.1 h
    cases heq
    have := length_of_skip? hplus
    have := length_of_firstWord? hname
    simp only [skip?_tokens_of_some (s := s) (fun _ => rfl) hplus, firstWord?_tokens hname,
      Option.bind_some, outcome_moreEffects_tokens more hmore, Option.map_some]
termination_by ts.length
decreasing_by omega

theorem outcome_clause_tokens {word : String} {clauses read : Clauses} (more : rest ≠ [])
    (h : outcome (clause stop word clauses ts) = some (read, rest)) :
    outcome (clause stop' word clauses (s.tokens ts)) = some (read, s.tokens rest) := by
  rw [outcome_clause] at h ⊢
  split at h
  · next effect =>
    obtain ⟨⟨first, after⟩, hfirst, h⟩ := Option.bind_eq_some_iff.1 h
    obtain ⟨⟨names, rest'⟩, hmore, heq⟩ := Option.map_eq_some_iff.1 h
    cases heq
    simp only [if_pos effect, firstWord?_tokens hfirst, Option.bind_some,
      outcome_moreEffects_tokens more hmore, Option.map_some]
  · next effect =>
    obtain ⟨⟨f, after⟩, hread, heq⟩ := Option.map_eq_some_iff.1 h
    cases heq
    simp only [if_neg effect, outcome_closedFormula_tokens (fun none => absurd none more) hread,
      Option.map_some]

theorem clauseAt_tokens (more : ts ≠ []) :
    clauseAt (s.tokens ts) = (clauseAt ts).map fun r => (r.1, s.tokens r.2) := by
  cases ts with
  | nil => exact absurd rfl more
  | cons t ts =>
    have word : (s.token t).word? = t.word? := rfl
    simp only [clauseAt, Surrounding.tokens_cons, clauseWord?, word]
    cases t.word? with
    | none => rfl
    | some w => cases hword : clauseWords.contains w <;> simp [Parsed.pair]

theorem length_of_clauseAt {w : String} (h : clauseAt ts = some (w, rest)) :
    rest.length < ts.length := by
  obtain ⟨word, -, heq⟩ := Option.map_eq_some_iff.1 h
  cases heq
  exact word.shorter

theorem outcome_clausesFrom_tokens {source target : String} {clauses all : Clauses}
    {ts rest : List Token} (more : rest ≠ [])
    (h : outcome (clausesFrom stop source target clauses ts) = some (all, rest)) :
    outcome (clausesFrom stop' source target clauses (s.tokens ts)) =
      some (all, s.tokens rest) := by
  have before := ne_nil_of_outcome more h
  rw [outcome_clausesFrom] at h ⊢
  rw [clauseAt_tokens before]
  cases hword : clauseAt ts with
  | none =>
    simp only [hword] at h
    cases h
    rfl
  | some word =>
    obtain ⟨w, after⟩ := word
    simp only [hword] at h
    split at h
    · cases h
    · next fresh =>
      obtain ⟨⟨read, after'⟩, hread, hall⟩ := Option.bind_eq_some_iff.1 h
      have := length_of_clauseAt hword
      have := length_of_outcome hread
      have between := ne_nil_of_outcome more hall
      simp only [Option.map_some, if_neg fresh, outcome_clause_tokens between hread,
        Option.bind_some, outcome_clausesFrom_tokens more hall]
termination_by ts.length
decreasing_by omega

theorem criticalAt_tokens (more : ts ≠ []) :
    criticalAt (s.tokens ts) = ((criticalAt ts).1, s.tokens (criticalAt ts).2) := by
  rw [criticalAt, criticalAt, skip?_tokens (Token.isWord "critical") (fun _ => rfl) more]
  cases skip? (Token.isWord "critical") ts <;> rfl

theorem placeOf_tokens (stop : Position) (more : ts ≠ []) :
    placeOf stop' (s.tokens ts) = s.place (placeOf stop ts) := by
  cases ts with
  | nil => exact absurd rfl more
  | cons t ts => rfl

theorem outcome_transition_tokens {d : TransitionDecl} (more : rest ≠ [])
    (h : outcome (transition stop ts) = some (d, rest)) :
    outcome (transition stop' (s.tokens ts)) = some (d.shift s.offset, s.tokens rest) := by
  have before := ne_nil_of_reading h
  rw [outcome_transition] at h ⊢
  obtain ⟨⟨source, after⟩, hsource, h⟩ := Option.bind_eq_some_iff.1 h
  obtain ⟨arrow, harrow, h⟩ := Option.bind_eq_some_iff.1 h
  obtain ⟨⟨target, after'⟩, htarget, h⟩ := Option.bind_eq_some_iff.1 h
  obtain ⟨⟨clauses, rest'⟩, hclauses, heq⟩ := Option.map_eq_some_iff.1 h
  cases heq
  have arrow' := skip?_tokens_of_some (s := s) (fun _ => rfl) harrow
  simp only [criticalAt_tokens before, firstWord?_tokens hsource, Option.bind_some, arrow',
    firstWord?_tokens htarget, outcome_clausesFrom_tokens more hclauses, Option.map_some,
    placeOf_tokens stop before]
  rfl

/-! ### Workflows -/

/-- The same workflow, further down. -/
def WorkflowDecl.shift (n : Nat) (w : WorkflowDecl) : WorkflowDecl :=
  { w with transitions := w.transitions.map (TransitionDecl.shift n), offset := w.offset + n }

/-- The same sections, further down. -/
def Sections.shift (n : Nat) (sections : Sections) : Sections :=
  { sections with transitions := sections.transitions.map (List.map (TransitionDecl.shift n)) }

theorem length_semicolonAt (ts : List Token) : (semicolonAt ts).length ≤ ts.length := by
  rw [semicolonAt]
  cases h : skip? (Token.isPunct ';') ts with
  | none => exact Nat.le_refl _
  | some after => exact (length_of_skip? h).le

theorem semicolonAt_tokens (more : ts ≠ []) :
    semicolonAt (s.tokens ts) = s.tokens (semicolonAt ts) := by
  rw [semicolonAt, semicolonAt, skip?_tokens (Token.isPunct ';') (fun _ => rfl) more]
  cases skip? (Token.isPunct ';') ts <;> rfl

theorem outcome_sectionBody_tokens {item item' : (ts : List Token) → Reading α ts} {f : α → α}
    (hitem : ∀ ts a rest, rest ≠ [] → outcome (item ts) = some (a, rest) →
      outcome (item' (s.tokens ts)) = some (f a, s.tokens rest))
    {as : List α} (h : outcome (sectionBody stop item ts) = some (as, rest)) :
    outcome (sectionBody stop' item' (s.tokens ts)) = some (as.map f, s.tokens rest) := by
  rw [outcome_sectionBody] at h ⊢
  obtain ⟨after, hcolon, h⟩ := Option.bind_eq_some_iff.1 h
  rw [skip?_tokens_of_some (fun _ => rfl) hcolon, Option.bind_some]
  exact outcome_bracketed_tokens hitem h

theorem outcome_expectName_tokens {what : String} {w : String}
    (h : outcome (expectName stop what ts) = some (w, rest)) :
    outcome (expectName stop' what (s.tokens ts)) = some (w, s.tokens rest) := by
  rw [outcome_expectName] at h ⊢
  exact firstWord?_tokens h

theorem outcome_workflowSection_tokens {sections read : Sections}
    (h : outcome (workflowSection stop sections ts) = some (read, rest)) :
    outcome (workflowSection stop' (sections.shift s.offset) (s.tokens ts)) =
      some (read.shift s.offset, s.tokens rest) := by
  have before := ne_nil_of_reading h
  rw [outcome_workflowSection] at h ⊢
  rw [skip?_tokens (Token.isWord "states") (fun _ => rfl) before]
  cases hstates : skip? (Token.isWord "states") ts with
  | some after =>
    simp only [hstates] at h
    split at h
    · cases h
    · next fresh =>
      obtain ⟨⟨names, rest'⟩, hnames, heq⟩ := Option.map_eq_some_iff.1 h
      cases heq
      have hnames' : outcome (sectionBody stop' (expectName stop' "a state name")
          (s.tokens after)) = some (names.map id, s.tokens rest') :=
        outcome_sectionBody_tokens (fun _ _ _ _ => outcome_expectName_tokens) hnames
      rw [List.map_id] at hnames'
      simp only [Option.map_some, Sections.shift, if_neg fresh, hnames']
  | none =>
    simp only [hstates] at h
    obtain ⟨after, hword, h⟩ := Option.bind_eq_some_iff.1 h
    split at h
    · cases h
    · next fresh =>
      obtain ⟨⟨ds, rest'⟩, hds, heq⟩ := Option.map_eq_some_iff.1 h
      cases heq
      have hds' : outcome (sectionBody stop' (transition stop') (s.tokens after)) =
          some (ds.map (TransitionDecl.shift s.offset), s.tokens rest') :=
        outcome_sectionBody_tokens (fun _ _ _ => outcome_transition_tokens) hds
      simp only [Option.map_none, skip?_tokens_of_some (s := s) (fun _ => rfl) hword,
        Option.bind_some, Sections.shift, Option.isSome_map, if_neg fresh, hds', Option.map_some]

theorem outcome_workflowBody_tokens {name : String} {sections all : Sections}
    {ts rest : List Token}
    (h : outcome (workflowBody stop opener name sections ts) = some (all, rest)) :
    outcome (workflowBody stop' opener' name (sections.shift s.offset) (s.tokens ts)) =
      some (all.shift s.offset, s.tokens rest) := by
  have before := ne_nil_of_reading h
  rw [outcome_workflowBody] at h ⊢
  rw [skip?_tokens (Token.isPunct '\x7d') (fun _ => rfl) before]
  cases hclosed : skip? (Token.isPunct '\x7d') ts with
  | some after =>
    simp only [hclosed] at h
    cases h
    rfl
  | none =>
    simp only [hclosed] at h
    obtain ⟨⟨read, after⟩, hread, hall⟩ := Option.bind_eq_some_iff.1 h
    -- the body goes on, so that there is more after the section
    have more : after ≠ [] := by
      rintro rfl
      exact ne_nil_of_reading hall rfl
    have := length_of_outcome hread
    have := length_semicolonAt after
    simp only [Option.map_none, outcome_workflowSection_tokens hread, Option.bind_some]
    rw [semicolonAt_tokens more]
    exact outcome_workflowBody_tokens hall
termination_by ts.length
decreasing_by omega

theorem outcome_expectDomain_tokens {w : String}
    (h : outcome (expectDomain stop ts) = some (w, rest)) :
    outcome (expectDomain stop' (s.tokens ts)) = some (w, s.tokens rest) := by
  rw [outcome_expectDomain] at h ⊢
  obtain ⟨⟨name, after⟩, hname, heq⟩ := Option.map_eq_some_iff.1 h
  cases heq
  rw [firstWord?_tokens hname, Option.map_some]

theorem outcome_parameterList_tokens {names : List String} (more : rest ≠ [])
    (h : outcome (parameterList stop ts) = some (names, rest)) :
    outcome (parameterList stop' (s.tokens ts)) = some (names, s.tokens rest) := by
  have before := ne_nil_of_outcome more h
  rw [outcome_parameterList] at h ⊢
  rw [skip?_tokens (Token.isPunct '[') (fun _ => rfl) before]
  cases hopened : skip? (Token.isPunct '[') ts with
  | none =>
    simp only [hopened] at h
    cases h
    rfl
  | some opened =>
    simp only [hopened] at h
    have hnames : outcome (bracketed stop' (expectDomain stop') (s.tokens ts)) =
        some (names.map id, s.tokens rest) :=
      outcome_bracketed_tokens (fun _ _ _ _ => outcome_expectDomain_tokens) h
    rwa [List.map_id] at hnames

theorem outcome_workflow_tokens {offset : Nat} {w : WorkflowDecl}
    (h : outcome (workflow stop offset ts) = some (w, rest)) :
    outcome (workflow stop' (offset + s.offset) (s.tokens ts)) =
      some (w.shift s.offset, s.tokens rest) := by
  rw [outcome_workflow] at h ⊢
  obtain ⟨⟨name, after⟩, hname, h⟩ := Option.bind_eq_some_iff.1 h
  obtain ⟨⟨parameters, after'⟩, hparameters, h⟩ := Option.bind_eq_some_iff.1 h
  obtain ⟨opened, hopened, h⟩ := Option.bind_eq_some_iff.1 h
  obtain ⟨⟨sections, rest'⟩, hsections, heq⟩ := Option.map_eq_some_iff.1 h
  cases heq
  have more : after' ≠ [] := by
    rintro rfl
    cases hopened
  have hbody : outcome (workflowBody stop' (placeOf stop' (s.tokens after')) name .none
      (s.tokens opened)) = some (sections.shift s.offset, s.tokens rest') :=
    outcome_workflowBody_tokens hsections
  simp only [firstWord?_tokens hname, Option.bind_some,
    outcome_parameterList_tokens more hparameters,
    skip?_tokens_of_some (s := s) (fun _ => rfl) hopened, hbody, Option.map_some]
  rw [Sections.shift, Sections.declare, Sections.declare, WorkflowDecl.shift]
  cases sections.transitions <;> rfl

/-! ### Documents -/

/-- The same rule, further down. -/
def FormulaDecl.shift (n : Nat) (f : FormulaDecl) : FormulaDecl := { f with offset := f.offset + n }

namespace Document

/-- The same document, further down. -/
def shift (n : Nat) (d : Document) : Document :=
  ⟨d.workflows.map (WorkflowDecl.shift n), d.formulas.map (FormulaDecl.shift n)⟩

/-- The declarations of both documents. -/
def append (d e : Document) : Document := ⟨d.workflows ++ e.workflows, d.formulas ++ e.formulas⟩

end Document

/-- What opens something at the top of a document is a semicolon, or the word of a block. -/
theorem head_of_opening (h : t.opening ≠ .nothing) :
    t.lexeme = .punct ';' ∨ ∃ w ∈ blockWords, t.lexeme = .name w := by
  cases hlexeme : t.lexeme with
  | name w =>
    refine .inr ⟨w, ?_, rfl⟩
    by_contra other
    simp only [blockWords, List.mem_cons, List.not_mem_nil, or_false, not_or] at other
    simp [Token.opening, Token.isWord, Token.isPunct, Token.word?, hlexeme, Kind.ofWord?, other]
      at h
  | punct mark =>
    by_contra other
    simp [Token.opening, Token.isWord, Token.isPunct, Token.word?, hlexeme] at h other
    exact other h
  | literal | symbol | stray =>
    simp [Token.opening, Token.isWord, Token.isPunct, Token.word?, hlexeme] at h

/-- Nothing that opens a document goes on with a formula, and all of it ends one. -/
theorem ends_of_documentFrom {d : Document} (h : (documentFrom stop ts).toOption = some d) :
    Quiet 0 ts ∧ Context.top.endsAt ts = true := by
  cases ts with
  | nil => exact ⟨quiet_nil, rfl⟩
  | cons t ts =>
    have opens : t.opening ≠ .nothing := by
      intro nothing
      rw [toOption_documentFrom_cons, nothing] at h
      cases h
    rcases head_of_opening opens with mark | ⟨w, hw, word⟩
    · refine ⟨?_, ?_⟩
      · rintro _ ⟨⟩
        simp [Token.means, Token.isSymbol, Token.isWord, mark]
      · simp [Context.endsAt, Token.isPunct, mark]
    · refine ⟨?_, ?_⟩
      · rintro _ ⟨⟩
        have free : ∀ w ∈ blockWords,
            w ≠ Symbol.and.word ∧ w ≠ Symbol.or.word ∧ w ≠ Symbol.implies.word := by decide
        simp [Token.means, Token.isSymbol, Token.isWord, word, free w hw]
      · have isBlock : blockWords.any t.isWord = true :=
          List.any_eq_true.2 ⟨w, hw, by simp [Token.isWord, word]⟩
        rw [Context.endsAt, isBlock, Bool.or_true]

/-- A semicolon before a document does not matter. -/
theorem documentFrom_semicolonAt : documentFrom stop (semicolonAt ts) = documentFrom stop ts := by
  rw [semicolonAt]
  cases h : skip? (Token.isPunct ';') ts with
  | none => rfl
  | some after =>
    obtain ⟨t, mark, rfl⟩ := skip?_eq_some_iff.1 h
    have opening : t.opening = .separator := by
      simp [Token.opening, Token.isWord, Token.word?, Token.isPunct, Token.isPunct_iff.1 mark]
    rw [Option.getD_some, documentFrom, opening]

/-- A formula block is read in the same way further down, but for a semicolon that stands before the
document after it. -/
theorem exists_formulaBlock_tokens {kind : Kind} {offset : Nat} {f : FormulaDecl} {e : Document}
    (hafter : (documentFrom stop' s.after).toOption = some e)
    (h : outcome (formulaBlock stop kind offset ts) = some (f, rest)) :
    ∃ rest', outcome (formulaBlock stop' kind (offset + s.offset) (s.tokens ts)) =
        some (f.shift s.offset, rest') ∧
      documentFrom stop' rest' = documentFrom stop' (s.tokens rest) := by
  rw [outcome_formulaBlock] at h ⊢
  obtain ⟨that, hthat, h⟩ := Option.bind_eq_some_iff.1 h
  obtain ⟨⟨name, after⟩, hname, h⟩ := Option.bind_eq_some_iff.1 h
  obtain ⟨colon, hcolon, h⟩ := Option.bind_eq_some_iff.1 h
  obtain ⟨⟨g, after'⟩, hread, heq⟩ := Option.map_eq_some_iff.1 h
  cases heq
  have hread' : outcome (closedFormula stop' .top (s.tokens colon)) =
      some (g, s.tokens after') :=
    outcome_closedFormula_tokens (fun _ => ends_of_documentFrom hafter) hread
  refine ⟨semicolonAt (s.tokens after'), ?_, ?_⟩
  · simp only [skip?_tokens_of_some (s := s) (fun _ => rfl) hthat, Option.bind_some,
      firstWord?_tokens hname, skip?_tokens_of_some (s := s) (fun _ => rfl) hcolon, hread',
      Option.map_some]
    rfl
  · cases after' with
    | nil => exact documentFrom_semicolonAt
    | cons t ts => rw [semicolonAt_tokens (List.cons_ne_nil _ _)]

/-- **A document is parsed in the same way before another one.** -/
theorem documentFrom_tokens {d e : Document} {ts : List Token}
    (hafter : (documentFrom stop' s.after).toOption = some e)
    (h : (documentFrom stop ts).toOption = some d) :
    (documentFrom stop' (s.tokens ts)).toOption = some ((d.shift s.offset).append e) := by
  match ts, h with
  | [], h =>
    rw [documentFrom] at h
    cases h
    exact hafter
  | t :: ts, h =>
    have opening : (s.token t).opening = t.opening := rfl
    rw [toOption_documentFrom_cons] at h
    rw [Surrounding.tokens_cons, toOption_documentFrom_cons, opening]
    cases hopening : t.opening with
    | workflow =>
      simp only [hopening] at h
      obtain ⟨⟨w, rest⟩, hw, h⟩ := Option.bind_eq_some_iff.1 h
      obtain ⟨d', hd, rfl⟩ := Option.map_eq_some_iff.1 h
      have := length_of_outcome hw
      have hw' : outcome (workflow stop' (s.token t).start.offset (s.tokens ts)) =
        some (w.shift s.offset, s.tokens rest) := outcome_workflow_tokens hw
      simp only [hw', Option.bind_some, documentFrom_tokens hafter hd, Option.map_some]
      rfl
    | block kind =>
      simp only [hopening] at h
      obtain ⟨⟨f, rest⟩, hf, h⟩ := Option.bind_eq_some_iff.1 h
      obtain ⟨d', hd, rfl⟩ := Option.map_eq_some_iff.1 h
      have := length_of_outcome hf
      obtain ⟨rest', hf', same⟩ := exists_formulaBlock_tokens hafter hf
      have hf' : outcome (formulaBlock stop' kind (s.token t).start.offset (s.tokens ts)) =
        some (f.shift s.offset, rest') := hf'
      simp only [hf', Option.bind_some, same, documentFrom_tokens hafter hd, Option.map_some]
      rfl
    | separator =>
      simp only [hopening] at h
      exact documentFrom_tokens hafter h
    | nothing =>
      simp only [hopening] at h
      cases h
termination_by ts.length
decreasing_by all_goals simp only [List.length_cons]; omega

end Parts

/-! ### Two texts -/

@[simp] theorem Surrounding.map_token_zero (after : List Token) (ts : List Token) :
    ts.map (Surrounding.mk 0 0 after).token = ts :=
  List.map_id ts

theorem Document.shift_zero (d : Document) : d.shift 0 = d := by
  have transitions (ts : List TransitionDecl) : ts.map (TransitionDecl.shift 0) = ts :=
    List.map_id ts
  have workflows (ws : List WorkflowDecl) : ws.map (WorkflowDecl.shift 0) = ws := by
    have same (w : WorkflowDecl) : w.shift 0 = w := by
      rw [WorkflowDecl.shift, transitions]
      rfl
    rw [funext same]
    exact List.map_id ws
  rw [shift, workflows]
  exact congrArg _ (List.map_id d.formulas)

theorem Document.append_empty (d : Document) : d.append .empty = d := by
  rw [append, empty, List.append_nil, List.append_nil]

theorem parse_eq_ok_iff {a : String} {d : Document} :
    parse a = .ok d ↔
      ∃ stream, scan a = .ok stream ∧
        (documentFrom stream.stop stream.tokens).toOption = some d := by
  rw [parse]
  cases scan a with
  | error e => simp
  | ok stream => simp [documentOfTokens, toOption_eq_some_iff]

/-- **Two texts one after the other declare what each declares by itself**, the second one further
down. -/
theorem parse_append {a b : String} {d e : Document} (ha : parse a = .ok d) (hb : parse b = .ok e) :
    parse (a ++ "\n" ++ b) = .ok (d.append (e.shift (a.length + 1))) := by
  obtain ⟨p, scanA, hd⟩ := parse_eq_ok_iff.1 ha
  obtain ⟨q, scanB, he⟩ := parse_eq_ok_iff.1 hb
  obtain ⟨lines, scanned⟩ := scan_append scanA scanB
  refine parse_eq_ok_iff.2 ⟨_, scanned, ?_⟩
  let below : Surrounding := ⟨a.length + 1, lines, []⟩
  have second : (documentFrom (below.place q.stop) (below.tokens q.tokens)).toOption =
      some ((e.shift below.offset).append .empty) :=
    documentFrom_tokens (by rw [documentFrom]; rfl) he
  rw [Document.append_empty, Surrounding.tokens, List.append_nil] at second
  let before : Surrounding := ⟨0, 0, q.tokens.map below.token⟩
  have both : (documentFrom (below.place q.stop) (before.tokens p.tokens)).toOption =
      some ((d.shift before.offset).append (e.shift below.offset)) :=
    documentFrom_tokens second hd
  rw [Document.shift_zero, Surrounding.tokens, Surrounding.map_token_zero] at both
  exact both

/-- **Documents concatenate.**  Two texts that are parsed are parsed one after the other, with a
line feed between them: to the workflows of the first and those of the second, and to the rules of
the first and those of the second.  The declarations of the second text, its transitions among them,
are as many characters further down as the first text and the line feed have; nothing else about
them changes. -/
theorem exists_parse_lines {a b : String} {d e : Document} (ha : parse a = .ok d)
    (hb : parse b = .ok e) :
    ∃ both, parse (a ++ "\n" ++ b) = .ok both ∧
      both.workflows = d.workflows ++ e.workflows.map (fun w =>
        { w with
          transitions := w.transitions.map fun t => { t with offset := t.offset + (a.length + 1) }
          offset := w.offset + (a.length + 1) }) ∧
      both.formulas = d.formulas ++ e.formulas.map (fun f =>
        { f with offset := f.offset + (a.length + 1) }) :=
  ⟨_, parse_append ha hb, rfl, rfl⟩

/-- A text that ends with a comment, after a rule without a semicolon, and one that starts with a
semicolon. -/
theorem exists_parse_lines_open :
    parse ("workflow W \x7b states: [A]; \x7d\nproof that p: task in backlog # open" ++ "\n" ++
        ";workflow V \x7b states: [B]; \x7d axiom that q: true") =
      .ok ⟨[⟨"W", ["A"], [], [], 0⟩, ⟨"V", ["B"], [], [], 66⟩],
        [⟨.proof, "p", .all "task" "tasks" (.member (.var "task") "backlog" false), 28⟩,
          ⟨.postulate, "q", .truth true, 94⟩]⟩ := by
  have first : parse "workflow W \x7b states: [A]; \x7d\nproof that p: task in backlog # open" =
      .ok ⟨[⟨"W", ["A"], [], [], 0⟩],
        [⟨.proof, "p", .all "task" "tasks" (.member (.var "task") "backlog" false), 28⟩]⟩ :=
    toOption_eq_some_iff.1 (by decide +kernel)
  have second : parse ";workflow V \x7b states: [B]; \x7d axiom that q: true" =
      .ok ⟨[⟨"V", ["B"], [], [], 1⟩], [⟨.postulate, "q", .truth true, 29⟩]⟩ :=
    toOption_eq_some_iff.1 (by decide +kernel)
  obtain ⟨⟨workflows, formulas⟩, hboth, rfl, rfl⟩ := exists_parse_lines first second
  exact hboth

end ChangeControl.Rule
