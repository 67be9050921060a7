import ChangeControl.Proofs.Rule.Grammar
/-!
The parts of phrases that hold no formula.

A parser reads terms, arguments, membership tests and the heads of quantifiers straight on.  For
each of them, what is read from some tokens is what the grammar says that the first of the lexemes
stand for.

Main definitions:

* `Rule.Splits` — the tokens begin with certain lexemes.

Main results:

* `Rule.termAt_eq_some_iff`, `Rule.markAt_eq_some_iff` — terms and membership marks;
* `Rule.exists_heads`, `Heads.headAt_eq` — the heads of quantifiers;
* `Rule.exists_arguments`, `Arguments.outcome_eq` — arguments;
* `Rule.exists_membership`, `Rule.outcome_membership_eq` — membership tests.
-/

set_option autoImplicit false

namespace ChangeControl.Rule

variable {stop opener : Position} {scope : List String} {ts rest : List Token}

/-! ### Tokens and lexemes -/

/-- The tokens begin with some that are written as the lexemes `ls`, and `rest` comes after them. -/
def Splits : List Token → List Lexeme → List Token → Prop
  | ts, [], rest => ts = rest
  | [], _ :: _, _ => False
  | t :: ts, l :: ls, rest => t.lexeme = l ∧ Splits ts ls rest

theorem splits_nil_iff : Splits ts [] rest ↔ ts = rest := by
  cases ts <;> rfl

theorem splits_cons_iff {l : Lexeme} {ls : List Lexeme} :
    Splits ts (l :: ls) rest ↔ ∃ t ts', ts = t :: ts' ∧ t.lexeme = l ∧ Splits ts' ls rest := by
  cases ts with
  | nil => simp [Splits]
  | cons t ts =>
    rw [Splits]
    constructor
    · rintro ⟨ht, hts⟩
      exact ⟨t, ts, rfl, ht, hts⟩
    · rintro ⟨_, _, ⟨⟩, ht, hts⟩
      exact ⟨ht, hts⟩

theorem splits_append_iff {ls ls' : List Lexeme} :
    Splits ts (ls ++ ls') rest ↔ ∃ mid, Splits ts ls mid ∧ Splits mid ls' rest := by
  induction ls generalizing ts with
  | nil => simp [splits_nil_iff]
  | cons l ls ih =>
    cases ts with
    | nil => simp [Splits]
    | cons t ts =>
      simp only [List.cons_append, Splits, ih]
      constructor
      · rintro ⟨ht, mid, hls, hls'⟩
        exact ⟨mid, ⟨ht, hls⟩, hls'⟩
      · rintro ⟨mid, ⟨ht, hls⟩, hls'⟩
        exact ⟨ht, mid, hls, hls'⟩

theorem Splits.length_eq {ls : List Lexeme} (h : Splits ts ls rest) :
    ts.length = ls.length + rest.length := by
  induction ls generalizing ts with
  | nil => simp [splits_nil_iff.1 h]
  | cons l ls ih =>
    obtain ⟨t, ts, rfl, -, h⟩ := splits_cons_iff.1 h
    simp [ih h]
    omega

theorem Splits.map_eq {ls : List Lexeme} (h : Splits ts ls []) : ts.map Token.lexeme = ls := by
  induction ls generalizing ts with
  | nil => rw [splits_nil_iff.1 h, List.map_nil]
  | cons l ls ih =>
    obtain ⟨t, ts, rfl, ht, h⟩ := splits_cons_iff.1 h
    rw [List.map_cons, ht, ih h]

theorem Splits.exists_token {ls : List Lexeme} {l : Lexeme} (h : Splits ts ls rest) (hl : l ∈ ls) :
    ∃ t ∈ ts, t.lexeme = l := by
  induction ls generalizing ts with
  | nil => exact absurd hl List.not_mem_nil
  | cons l' ls ih =>
    obtain ⟨t, ts, rfl, ht, h⟩ := splits_cons_iff.1 h
    rcases List.mem_cons.1 hl with rfl | hl
    · exact ⟨t, List.mem_cons_self, ht⟩
    · obtain ⟨t', ht', hlexeme⟩ := ih h hl
      exact ⟨t', List.mem_cons_of_mem t ht', hlexeme⟩

theorem splits_map (ts : List Token) : Splits ts (ts.map Token.lexeme) [] := by
  induction ts with
  | nil => rfl
  | cons t ts ih => exact ⟨rfl, ih⟩

/-! ### Terms and membership marks -/

theorem termAt_eq_some_iff {e : Term} :
    termAt scope ts = some (e, rest) ↔ ∃ t, Denotes scope t.lexeme e ∧ ts = t :: rest := by
  constructor
  · intro h
    cases ts with
    | nil => cases h
    | cons t ts =>
      obtain ⟨e', hterm, heq⟩ := Option.map_eq_some_iff.1 h
      cases heq
      exact ⟨t, term?_eq_some_iff.1 hterm, rfl⟩
  · rintro ⟨t, denotes, rfl⟩
    rw [termAt, term?_eq_some_iff.2 denotes]
    rfl

theorem markAt_eq_some_iff {negated : Bool} :
    markAt ts = some (negated, rest) ↔ ∃ ls, Marks negated ls ∧ Splits ts ls rest := by
  constructor
  · intro h
    cases ts with
    | nil => cases h
    | cons t ts =>
      rw [markAt] at h
      split at h
      · next means =>
        cases h
        exact ⟨_, .mem (Token.means_iff.1 means), rfl, splits_nil_iff.2 rfl⟩
      · split at h
        · next symbol =>
          cases h
          have symbol : t.lexeme = .symbol .notMem := by simpa [Token.isSymbol] using symbol
          exact ⟨_, .notMem, symbol, splits_nil_iff.2 rfl⟩
        · split at h
          · next word =>
            obtain ⟨after, hskip, heq⟩ := Option.map_eq_some_iff.1 h
            cases heq
            obtain ⟨mem, means, rfl⟩ := skip?_eq_some_iff.1 hskip
            have word : t.lexeme = .name "not" := by simpa [Token.isWord] using word
            exact ⟨_, .not (Token.means_iff.1 means), word, rfl, splits_nil_iff.2 rfl⟩
          · cases h
  · rintro ⟨ls, marks, split⟩
    cases marks with
    | mem means =>
      obtain ⟨t, ts, rfl, ht, after⟩ := splits_cons_iff.1 split
      obtain rfl := splits_nil_iff.1 after
      simp [markAt, Token.means_iff.2 (ht ▸ means)]
    | notMem =>
      obtain ⟨t, ts, rfl, ht, after⟩ := splits_cons_iff.1 split
      obtain rfl := splits_nil_iff.1 after
      simp [markAt, Token.means, Token.isSymbol, Token.isWord, ht]
    | not means =>
      obtain ⟨t, ts, rfl, ht, after⟩ := splits_cons_iff.1 split
      obtain ⟨mem, ts, rfl, hmem, after⟩ := splits_cons_iff.1 after
      obtain rfl := splits_nil_iff.1 after
      have hskip : skip? (Token.means .mem) (mem :: ts) = some ts :=
        skip?_eq_some_iff.2 ⟨mem, Token.means_iff.2 (hmem ▸ means), rfl⟩
      simp [markAt, Token.means, Token.isSymbol, Token.isWord, ht, Symbol.word, hskip]

/-! ### Quantifiers -/

/-- A token that is written for one connective is not written for another. -/
theorem means_eq_false {t : Token} {s s' : Symbol} (h : t.lexeme.Means s) (hne : s ≠ s') :
    t.means s' = false := by
  rw [Bool.eq_false_iff]
  intro h'
  exact hne (h.unique (Token.means_iff.1 h'))

theorem quantifier?_eq_some_iff {t : Token} {universal : Bool} :
    quantifier? t = some universal ↔ t.lexeme.Means (if universal then .all else .any) := by
  rw [← Token.means_iff]
  have exclusive : t.means .any = true → t.means .all = false :=
    fun h => means_eq_false (Token.means_iff.1 h) (by decide)
  cases universal with
  | true => by_cases h : t.means .all = true <;> simp [quantifier?, h]
  | false =>
    by_cases h : t.means .any = true
    · simp [quantifier?, h, exclusive h]
    · by_cases hall : t.means .all = true <;> simp [quantifier?, h, hall]

theorem not_means_of_quantifier? {t : Token} {universal : Bool}
    (h : quantifier? t = some universal) : t.means .not = false := by
  have quantifies := quantifier?_eq_some_iff.1 h
  exact means_eq_false quantifies (by cases universal <;> decide)

theorem isPunct_of_quantifier? {t : Token} {universal : Bool} (h : quantifier? t = some universal)
    (mark : Char) : t.isPunct mark = false := by
  have quantifies := quantifier?_eq_some_iff.1 h
  rw [Bool.eq_false_iff, ne_eq, Token.isPunct_iff]
  cases universal <;> rcases quantifies with h | h <;> simp [h]

theorem quantifier?_eq_none_of_name {t : Token} {w : String} (h : t.lexeme = .name w)
    (hne : w ≠ "forall" ∧ w ≠ "exists") : quantifier? t = none := by
  simp [quantifier?, Token.means, Token.isSymbol, Token.isWord, h, Symbol.word, hne]

/-- What stands before the body of a quantified formula, read from its quantifier on. -/
theorem exists_heads {t : Token} {universal : Bool} {head : QuantifierHead}
    (quantifies : quantifier? t = some universal) (h : headAt universal ts = some (head, rest)) :
    ∃ hs, Heads hs head ∧ Splits (t :: ts) hs rest := by
  simp only [headAt, Option.bind_eq_some_iff] at h
  obtain ⟨⟨v, r₁⟩, hv, r₂, hin, ⟨d, r₃⟩, hd, r₄, hmark, h⟩ := h
  split at h
  · cases h
  · cases h
    obtain ⟨var, hvar, isName, rfl⟩ := firstWord?_eq_some_iff.1 hv
    obtain ⟨mem, means, rfl⟩ := skip?_eq_some_iff.1 hin
    obtain ⟨domain, hdomain, free, rfl⟩ := firstWord?_eq_some_iff.1 hd
    obtain ⟨mark, isMark, rfl⟩ := skip?_eq_some_iff.1 hmark
    have heads : ∀ c, c = ':' ∨ c = '.' → Heads [t.lexeme, .name v, mem.lexeme, .name d, .punct c]
        ⟨universal, v, domainName d⟩ := by
      intro c hc
      exact .mk (quantifier?_eq_some_iff.1 quantifies) isName (Token.means_iff.1 means)
        (mayName_iff.2 free) hc
    simp only [Bool.or_eq_true, Token.isPunct_iff] at isMark
    rcases isMark with colon | dot
    · exact ⟨_, heads ':' (.inl rfl), rfl, hvar, rfl, hdomain, colon, splits_nil_iff.2 rfl⟩
    · exact ⟨_, heads '.' (.inr rfl), rfl, hvar, rfl, hdomain, dot, splits_nil_iff.2 rfl⟩

/-- A head is read when a body can begin after it. -/
theorem Heads.headAt_eq {hs : List Lexeme} {head : QuantifierHead} (h : Heads hs head)
    (split : Splits ts hs rest) (begins : cannotBegin rest = false) :
    ∃ t ts' universal, ts = t :: ts' ∧ quantifier? t = some universal ∧
      headAt universal ts' = some (head, rest) := by
  obtain ⟨quantifies, isName, means, may, isMark⟩ := h
  obtain ⟨t, ts, rfl, ht, split⟩ := splits_cons_iff.1 split
  obtain ⟨var, ts, rfl, hvar, split⟩ := splits_cons_iff.1 split
  obtain ⟨mem, ts, rfl, hmem, split⟩ := splits_cons_iff.1 split
  obtain ⟨domain, ts, rfl, hdomain, split⟩ := splits_cons_iff.1 split
  obtain ⟨mark, ts, rfl, hmark, split⟩ := splits_cons_iff.1 split
  obtain rfl := splits_nil_iff.1 split
  refine ⟨t, _, _, rfl, quantifier?_eq_some_iff.2 (ht ▸ quantifies), ?_⟩
  have hmeans : mem.means .mem = true := Token.means_iff.2 (hmem ▸ means)
  have hseparates : mark.isPunct ':' = true ∨ mark.isPunct '.' = true := by
    simpa [Token.isPunct, hmark] using isMark
  simp [headAt, firstWord?, skip?, hvar, isName, hmeans, hdomain, mayName_iff.1 may, hseparates,
    begins]

/-! ### Predicates and membership tests -/

theorem argumentMarks?_eq_some_iff {t : Token} {marks : Char × Char} :
    argumentMarks? t = some marks ↔ t.lexeme = .punct marks.1 ∧ Brackets marks.1 marks.2 := by
  constructor
  · intro h
    unfold argumentMarks? at h
    split at h
    · next square =>
      cases h
      exact ⟨Token.isPunct_iff.1 square, .square⟩
    · split at h
      · next round =>
        cases h
        exact ⟨Token.isPunct_iff.1 round, .round⟩
      · cases h
  · obtain ⟨mark, closer⟩ := marks
    rintro ⟨ht, brackets⟩
    have ht : t.lexeme = .punct mark := ht
    have brackets : Brackets mark closer := brackets
    cases brackets <;> simp [argumentMarks?, Token.isPunct, ht]

/-- The lexeme after the element of a membership test opens no arguments. -/
theorem Marks.argumentMarks?_eq_none {negated : Bool} {marks : List Lexeme}
    (h : Marks negated marks) {ls : List Lexeme}
    (split : Splits ts (marks ++ ls) rest) :
    ∃ t ts', ts = t :: ts' ∧ argumentMarks? t = none := by
  have noPunct : ∀ {t : Token}, (∀ mark, t.lexeme ≠ .punct mark) → argumentMarks? t = none := by
    intro t hne
    have hpunct : ∀ mark, t.isPunct mark = false := by
      intro mark
      rw [Bool.eq_false_iff]
      intro h
      exact hne mark (Token.isPunct_iff.1 h)
    simp [argumentMarks?, hpunct]
  cases h with
  | mem means =>
    obtain ⟨t, ts, rfl, rfl, -⟩ := splits_cons_iff.1 split
    exact ⟨t, ts, rfl, noPunct fun mark => by rcases means with h | h <;> simp [h]⟩
  | notMem | not =>
    obtain ⟨t, ts, rfl, ht, -⟩ := splits_cons_iff.1 split
    exact ⟨t, ts, rfl, noPunct (by simp [ht])⟩

/-- A term is no mark of punctuation. -/
theorem Denotes.isPunct_eq_false {t : Token} {e : Term} (h : Denotes scope t.lexeme e)
    (mark : Char) : t.isPunct mark = false := by
  generalize hlexeme : t.lexeme = l at h
  cases h <;> simp [Token.isPunct, hlexeme]

/-- Arguments are read up to the closing mark. -/
theorem exists_arguments {predicate : String} {mark closer : Char} {ts rest : List Token}
    {args : List Term}
    (h : outcome (arguments stop opener predicate mark closer scope ts) = some (args, rest)) :
    ∃ ls, Arguments scope ls args ∧ Splits ts (ls ++ [.punct closer]) rest := by
  rw [outcome_arguments, Option.bind_eq_some_iff] at h
  obtain ⟨⟨e, r⟩, hterm, h⟩ := h
  obtain ⟨t, denotes, rfl⟩ := termAt_eq_some_iff.1 hterm
  cases hcomma : skip? (Token.isPunct ',') r with
  | none =>
    simp only [hcomma] at h
    obtain ⟨after, hclosed, heq⟩ := Option.map_eq_some_iff.1 h
    cases heq
    obtain ⟨closed, isPunct, rfl⟩ := skip?_eq_some_iff.1 hclosed
    exact ⟨_, .one denotes, rfl, Token.isPunct_iff.1 isPunct, splits_nil_iff.2 rfl⟩
  | some after =>
    simp only [hcomma] at h
    obtain ⟨⟨more, r'⟩, hmore, heq⟩ := Option.map_eq_some_iff.1 h
    cases heq
    obtain ⟨comma, isPunct, rfl⟩ := skip?_eq_some_iff.1 hcomma
    obtain ⟨ls, arguments, split⟩ := exists_arguments hmore
    exact ⟨_, .cons denotes arguments, rfl, Token.isPunct_iff.1 isPunct, split⟩
termination_by ts.length
decreasing_by
  subst_vars
  simp only [List.length_cons]
  omega

theorem Arguments.outcome_eq {predicate : String} {mark closer : Char} {ls : List Lexeme}
    {args : List Term} (h : Arguments scope ls args) (hcloser : closer ≠ ',')
    (split : Splits ts (ls ++ [.punct closer]) rest) :
    outcome (arguments stop opener predicate mark closer scope ts) = some (args, rest) := by
  induction h generalizing ts with
  | one denotes =>
    obtain ⟨t, ts, rfl, ht, split⟩ := splits_cons_iff.1 split
    obtain ⟨closed, ts, rfl, hclosed, split⟩ := splits_cons_iff.1 split
    obtain rfl := splits_nil_iff.1 split
    have hterm : termAt scope (t :: closed :: ts) = some (_, closed :: ts) :=
      termAt_eq_some_iff.2 ⟨t, ht ▸ denotes, rfl⟩
    rw [outcome_arguments, hterm]
    simp [skip?, Token.isPunct, hclosed, hcloser]
  | cons denotes _ ih =>
    obtain ⟨t, ts, rfl, ht, split⟩ := splits_cons_iff.1 split
    obtain ⟨comma, ts, rfl, hcomma, split⟩ := splits_cons_iff.1 split
    have hterm : termAt scope (t :: comma :: ts) = some (_, comma :: ts) :=
      termAt_eq_some_iff.2 ⟨t, ht ▸ denotes, rfl⟩
    rw [outcome_arguments, hterm]
    simp [skip?, Token.isPunct, hcomma, ih split]

theorem Brackets.closer_ne {opener closer : Char} (h : Brackets opener closer) : closer ≠ ',' := by
  cases h <;> decide

theorem exists_membership {f : Formula} (h : outcome (membership stop scope ts) = some (f, rest)) :
    ∃ l element marks negated d, Denotes scope l element ∧ Marks negated marks ∧ MayName d ∧
      Splits ts (l :: (marks ++ [.name d])) rest ∧
        f = .member element (domainName d) negated := by
  simp only [outcome_membership, Option.bind_eq_some_iff, Option.map_eq_some_iff] at h
  obtain ⟨⟨element, r⟩, hterm, ⟨negated, r'⟩, hmark, ⟨d, r''⟩, hdomain, heq⟩ := h
  cases heq
  obtain ⟨t, denotes, rfl⟩ := termAt_eq_some_iff.1 hterm
  obtain ⟨marks, isMark, split⟩ := markAt_eq_some_iff.1 hmark
  obtain ⟨domain, hname, free, rfl⟩ := firstWord?_eq_some_iff.1 hdomain
  have last : Splits (domain :: r'') [.name d] r'' := ⟨hname, splits_nil_iff.2 rfl⟩
  exact ⟨_, element, marks, negated, d, denotes, isMark, mayName_iff.2 free,
    ⟨rfl, splits_append_iff.2 ⟨_, split, last⟩⟩, rfl⟩

theorem outcome_membership_eq {l : Lexeme} {element : Term} {marks : List Lexeme} {negated : Bool}
    {d : String} (denotes : Denotes scope l element) (isMark : Marks negated marks)
    (may : MayName d) (split : Splits ts (l :: (marks ++ [.name d])) rest) :
    outcome (membership stop scope ts) = some (.member element (domainName d) negated, rest) := by
  obtain ⟨t, ts, rfl, ht, split⟩ := splits_cons_iff.1 split
  obtain ⟨mid, split', last⟩ := splits_append_iff.1 split
  obtain ⟨domain, after, rfl, hdomain, last⟩ := splits_cons_iff.1 last
  obtain rfl := splits_nil_iff.1 last
  have hterm : termAt scope (t :: ts) = some (element, ts) :=
    termAt_eq_some_iff.2 ⟨t, ht ▸ denotes, rfl⟩
  have hmark : markAt ts = some (negated, domain :: after) :=
    markAt_eq_some_iff.2 ⟨marks, isMark, split'⟩
  have hword : firstWord? barredDomains (domain :: after) = some (d, after) :=
    firstWord?_eq_some_iff.2 ⟨domain, hdomain, mayName_iff.1 may, rfl⟩
  simp [outcome_membership, hterm, hmark, hword]

theorem exists_application {name : String} {marks : Char × Char} {t opener : Token} {f : Formula}
    (isName : name ∉ reserved) (ht : t.lexeme = .name name)
    (brackets : argumentMarks? opener = some marks)
    (h : outcome (application stop scope name marks opener ts) = some (f, rest)) :
    ∃ ls, Splits (t :: opener :: ts) ls rest ∧ Derives .atom scope .connective ls f := by
  obtain ⟨hopener, brackets⟩ := argumentMarks?_eq_some_iff.1 brackets
  rw [outcome_application] at h
  cases hclosed : skip? (Token.isPunct marks.2) ts with
  | some after =>
    simp only [hclosed] at h
    cases h
    obtain ⟨closer, isPunct, rfl⟩ := skip?_eq_some_iff.1 hclosed
    have hcloser := Token.isPunct_iff.1 isPunct
    refine ⟨_, ?_, .constant isName brackets⟩
    exact ⟨ht, hopener, hcloser, splits_nil_iff.2 rfl⟩
  | none =>
    simp only [hclosed] at h
    obtain ⟨⟨args, r⟩, hargs, heq⟩ := Option.map_eq_some_iff.1 h
    cases heq
    obtain ⟨ls, arguments, split⟩ := exists_arguments hargs
    refine ⟨_, ?_, .application isName brackets arguments⟩
    exact ⟨ht, hopener, split⟩

end ChangeControl.Rule
