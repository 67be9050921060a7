import ChangeControl.Proofs.Rule.Printing
/-!
Reading a printed formula.

The lexemes of a well-formed formula are read back as the same tree, except that every name is
resolved anew.  A domain may then turn out to be a variable, when one of its name is in scope, and
the domain of states cannot be the element of a membership test, because its name is reserved.

Main definitions:

* `Formula.reread?` — the tree with its names resolved anew;
* `Rule.readAt` — the level of the grammar that demands a strength;
* `Rule.Begins` — what a formula of a strength can begin with;
* `Rule.ReadsMore` — what the levels for conjunctions and for disjunctions have in common;
* `Rule.ReadsBack` — the formula is read at all levels that need no parentheses for it.

Main results:

* `Rule.readAt_of_le` — what one level reads by itself, the looser levels read too;
* `ReadsBack.enclose` — parentheses make a formula strong enough for its place;
* `ReadsMore.read_joined` — operands are read one by one and joined;
* `Rule.readAt_lexemes` — **the lexemes of a formula are read as the formula reread**.
-/

set_option autoImplicit false

namespace ChangeControl.Rule

variable {stop : Position}

/-! ### Reading names anew -/

/-- The term that a token stands for as the element of a membership test. -/
def Lexeme.element? (scope : List String) (l : Lexeme) : Option Term :=
  match l with
  | .name w => if w ∈ reserved then none else l.term? scope
  | _ => l.term? scope

/-- Terms with their names resolved anew. -/
def rereadTerms? (scope : List String) : List Term → Option (List Term)
  | [] => some []
  | t :: ts => (t.lexeme.term? scope).bind fun e => (rereadTerms? scope ts).map (e :: ·)

namespace Formula

mutual

/-- The formula with its names resolved anew, if they all stand for something. -/
def reread? : Formula → List String → Option Formula
  | truth value, _ => some (.truth value)
  | pred name args, scope => (rereadTerms? scope args).map (.pred name)
  | member element d negated, scope =>
    (element.lexeme.element? scope).map fun e => .member e d negated
  | not f, scope => (f.reread? scope).map .not
  | and fs, scope => (rereadAll? fs scope).map .and
  | or fs, scope => (rereadAll? fs scope).map .or
  | implies f g, scope => (f.reread? scope).bind fun f => (g.reread? scope).map (.implies f)
  | all v d f, scope => (f.reread? (v :: scope)).map (.all v d)
  | any v d f, scope => (f.reread? (v :: scope)).map (.any v d)
  | bare _, _ => none

/-- Several formulas with their names resolved anew. -/
def rereadAll? : List Formula → List String → Option (List Formula)
  | [], _ => some []
  | f :: fs, scope => (f.reread? scope).bind fun f => (rereadAll? fs scope).map (f :: ·)

end

end Formula

/-! ### Levels -/

/-- What the level of the grammar reads that demands the strength `least`. -/
def readAt (stop : Position) (least : Nat) (scope : List String) (ts : List Token) :
    Option (Formula × List Token) :=
  match least with
  | 0 => outcome (formula stop scope ts)
  | 1 => outcome (implication stop scope ts)
  | 2 => outcome (disjunction stop scope ts)
  | 3 => outcome (conjunction stop scope ts)
  | 4 => outcome (negation stop scope ts)
  | _ => outcome (atom stop scope ts)

theorem readAt_five {scope : List String} {ts : List Token} :
    readAt stop 5 scope ts = outcome (atom stop scope ts) := rfl

/-- A lexeme that a formula of the strength `strength` can begin with. -/
def Begins (strength : Nat) : Lexeme → Prop
  | .name w => (1 ≤ strength → w ≠ "forall" ∧ w ≠ "exists") ∧ (5 ≤ strength → w ≠ "not")
  | .literal _ => True
  | .punct mark => mark = '('
  | .symbol _ | .stray _ => False

section Tokens

variable {t : Token} {s : Symbol} {k : Nat}

theorem means_of_name {w : String} (h : t.lexeme = .name w) : t.means s = (w == s.word) := by
  rw [Token.means, Token.isSymbol, Token.isWord, h, Bool.eq_iff_iff]
  simp

theorem means_of_symbol {s' : Symbol} (h : t.lexeme = .symbol s') : t.means s = (s' == s) := by
  rw [Token.means, Token.isSymbol, Token.isWord, h, Bool.eq_iff_iff]
  simp

theorem means_of_punct {mark : Char} (h : t.lexeme = .punct mark) : t.means s = false := by
  simp [Token.means, Token.isSymbol, Token.isWord, h]

theorem means_of_literal {value : String} (h : t.lexeme = .literal value) : t.means s = false := by
  simp [Token.means, Token.isSymbol, Token.isWord, h]

theorem Begins.mono {j : Nat} {l : Lexeme} (h : Begins k l) (hle : j ≤ k) : Begins j l := by
  cases l with
  | name w => exact ⟨fun hj => h.1 (hj.trans hle), fun hj => h.2 (hj.trans hle)⟩
  | literal | punct | symbol | stray => exact h

theorem Begins.quantifier?_eq_none (h : Begins k t.lexeme) (hk : 1 ≤ k) : quantifier? t = none := by
  cases hlexeme : t.lexeme with
  | name w =>
    rw [hlexeme] at h
    simp [quantifier?, means_of_name hlexeme, Symbol.word, h.1 hk]
  | literal => simp [quantifier?, means_of_literal hlexeme]
  | punct => simp [quantifier?, means_of_punct hlexeme]
  | symbol | stray => exact absurd h (by simp [Begins, hlexeme])

theorem Begins.means_not_eq_false (h : Begins k t.lexeme) (hk : 5 ≤ k) : t.means .not = false := by
  cases hlexeme : t.lexeme with
  | name w =>
    rw [hlexeme] at h
    simp [means_of_name hlexeme, Symbol.word, h.2 hk]
  | literal => exact means_of_literal hlexeme
  | punct => exact means_of_punct hlexeme
  | symbol | stray => exact absurd h (by simp [Begins, hlexeme])

theorem Begins.cannotBegin_eq_false {ts : List Token} (h : Begins k t.lexeme) :
    cannotBegin (t :: ts) = false := by
  cases hlexeme : t.lexeme with
  | punct mark =>
    obtain rfl : mark = '(' := by simpa [Begins, hlexeme] using h
    simp [cannotBegin, Token.isPunct, hlexeme]
  | name | literal => simp [cannotBegin, Token.isPunct, hlexeme]
  | symbol | stray => exact absurd h (by simp [Begins, hlexeme])

end Tokens

theorem quiet_of_punct {least : Nat} {t : Token} {ts : List Token} {mark : Char}
    (h : t.lexeme = .punct mark) : Quiet least (t :: ts) := by
  intro t' ht'
  obtain rfl : t = t' := by simpa using ht'
  exact ⟨fun _ => means_of_punct h, fun _ => means_of_punct h, fun _ => means_of_punct h⟩

/-! ### From level to level -/

section Levels

variable {scope : List String} {t : Token} {ts rest : List Token} {r : Option Formula}
  {join : Symbol} {least : Nat} {more : List Token → Option (List Formula × List Token)}

/-- `more` reads the operands after the first one, each after the mark `join` and by the level that
demands the strength `least`. -/
structure ReadsMore (stop : Position) (scope : List String) (join : Symbol) (least : Nat)
    (more : List Token → Option (List Formula × List Token)) : Prop where
  step : Continues (readAt stop least scope) join more
  /-- The operands before a mark end there. -/
  quiet : ∀ {t : Token} {ts : List Token}, t.lexeme = .name join.word → Quiet least (t :: ts)
  bound : least ≤ 5

theorem readsMore_conjuncts :
    ReadsMore stop scope .and 4 fun ts => outcome (conjuncts stop scope ts) where
  step _ := outcome_conjuncts
  quiet _ _ _ := ⟨by omega, by omega, by omega⟩
  bound := by decide

theorem readsMore_disjuncts :
    ReadsMore stop scope .or 3 fun ts => outcome (disjuncts stop scope ts) where
  step _ := outcome_disjuncts
  quiet {t ts} h t' ht' := by
    obtain rfl : t = t' := by simpa using ht'
    exact ⟨fun _ => by simp [means_of_name h, Symbol.word], by omega, by omega⟩
  bound := by decide

/-- What a level reads by itself is read by the level above it, if nothing goes on there. -/
theorem readAt_of_succ (begins : Begins (least + 1) t.lexeme) (quiet : Quiet least rest)
    (h : readAt stop (least + 1) scope (t :: ts) = r.map (·, rest)) :
    readAt stop least scope (t :: ts) = r.map (·, rest) := by
  -- every level reads the next one and then goes on, or else starts with a word of its own
  match least, begins, quiet, h with
  | 0, begins, _, h =>
    rw [readAt, outcome_formula_cons, begins.quantifier?_eq_none le_rfl]
    exact h
  | 1, _, quiet, h =>
    have hskip : skip? (Token.means .implies) rest = none :=
      skip?_eq_none_iff.2 fun t ht => (quiet t ht).2.2 le_rfl
    rw [readAt] at h
    rw [readAt, outcome_implication, h]
    cases r <;> simp [hskip]
  | 2, _, quiet, h =>
    have hmore : outcome (disjuncts stop scope rest) = some ([], rest) :=
      continues_disjuncts.nothing fun t ht => (quiet t ht).2.1 le_rfl
    rw [readAt] at h
    rw [readAt, outcome_disjunction, h]
    cases r <;> simp [hmore, joined]
  | 3, _, quiet, h =>
    have hmore : outcome (conjuncts stop scope rest) = some ([], rest) :=
      continues_conjuncts.nothing fun t ht => (quiet t ht).1 le_rfl
    rw [readAt] at h
    rw [readAt, outcome_conjunction, h]
    cases r <;> simp [hmore, joined]
  | 4, begins, _, h =>
    rw [readAt, outcome_negation, skip?, begins.means_not_eq_false le_rfl]
    exact h
  | least + 5, _, _, h => exact h

/-- What a level reads by itself is read by all looser levels. -/
theorem readAt_of_le {k : Nat} (hle : least ≤ k) (begins : Begins k t.lexeme)
    (quiet : Quiet least rest) (h : readAt stop k scope (t :: ts) = r.map (·, rest)) :
    readAt stop least scope (t :: ts) = r.map (·, rest) := by
  induction k, hle using Nat.le_induction with
  | base => exact h
  | succ k hle ih =>
    exact ih (begins.mono (Nat.le_succ k)) (readAt_of_succ begins (quiet.mono hle) h)

end Levels

/-! ### Terms -/

section Terms

variable {scope : List String} {ts rest : List Token} {Word : String → Prop}

theorem termAt_cons {t : Token} : termAt scope (t :: ts) = (t.lexeme.term? scope).map (·, ts) :=
  rfl

/-- Arguments are read up to the bracket after them. -/
theorem outcome_arguments_lexemes {opener : Position} {predicate : String} {mark : Char}
    {args : List Term} {t : Term}
    (hts : ts.map Token.lexeme =
      separated (.punct ',') ((t :: args).map fun t => [t.lexeme]) ++ [.punct ']']) :
    outcome (arguments stop opener predicate mark ']' scope (ts ++ rest)) =
      (rereadTerms? scope (t :: args)).map (·, rest) := by
  induction args generalizing t ts with
  | nil =>
    obtain ⟨first, ts, rfl, hfirst, hts⟩ := List.map_eq_cons_iff.1 hts
    obtain ⟨closer, ts, rfl, hcloser, hts⟩ := List.map_eq_cons_iff.1 hts
    obtain rfl := List.map_eq_nil_iff.1 hts
    rw [List.cons_append, outcome_arguments, termAt_cons, hfirst]
    cases ht : t.lexeme.term? scope <;>
      simp [skip?, Token.isPunct, hcloser, rereadTerms?, ht]
  | cons u args ih =>
    obtain ⟨first, ts, rfl, hfirst, hts⟩ := List.map_eq_cons_iff.1 hts
    obtain ⟨comma, ts, rfl, hcomma, hts⟩ := List.map_eq_cons_iff.1 hts
    have hmore : outcome (arguments stop opener predicate mark ']' scope (ts ++ rest)) =
        (rereadTerms? scope (u :: args)).map (·, rest) := ih hts
    rw [List.cons_append, outcome_arguments, termAt_cons, hfirst, rereadTerms?]
    cases ht : t.lexeme.term? scope with
    | none => rfl
    | some e => simp [skip?, Token.isPunct, hcomma, hmore, Function.comp_def]

end Terms

/-! ### Atoms -/

section Atoms

variable {scope : List String} {ts rest : List Token} {Word : String → Prop}

theorem notBarred_of_notReserved {w : String} (h : w ∉ reserved) : w ∉ barredDomains :=
  fun mem => h (mem_reserved_iff.2 (.inl mem))

theorem Term.WellFormed.notBarred {e : Term} {w : String} (wf : e.WellFormed Word scope)
    (h : e.lexeme = .name w) : w ∉ barredDomains := by
  cases e with
  | var v =>
    cases h
    exact notBarred_of_notReserved wf.2.1
  | domain d =>
    cases h
    have isDomain : IsDomainName Word w := isDomainName_of_mem wf
    exact isDomain.notBarred
  | state s =>
    cases h
    exact notBarred_of_notReserved wf.2.1
  | literal => cases h
  | bare => exact absurd wf id

theorem outcome_membership_lexemes {t : Token} {d : String} {negated : Bool}
    (isDomain : IsDomainName Word d)
    (hts : ts.map Token.lexeme =
      (if negated then [.name "not", .name "in"] else [.name "in"]) ++ [.name d]) :
    outcome (membership stop scope (t :: (ts ++ rest))) =
      (t.lexeme.term? scope).map fun e => (.member e d negated, rest) := by
  have hdomain : ∀ dt : Token, dt.lexeme = .name d →
      firstWord? barredDomains (dt :: rest) = some (d, rest) := by
    intro dt hdt
    simp [firstWord?, hdt, isDomain.notBarred]
  have hmark : ∃ dt : Token, dt.lexeme = .name d ∧
      markAt (ts ++ rest) = some (negated, dt :: rest) := by
    cases negated with
    | false =>
      obtain ⟨mem, ts, rfl, hmem, hts⟩ := List.map_eq_cons_iff.1 hts
      obtain ⟨dt, ts, rfl, hdt, hts⟩ := List.map_eq_cons_iff.1 hts
      obtain rfl := List.map_eq_nil_iff.1 hts
      exact ⟨dt, hdt, by simp [markAt, means_of_name hmem, Symbol.word]⟩
    | true =>
      obtain ⟨not, ts, rfl, hnot, hts⟩ := List.map_eq_cons_iff.1 hts
      obtain ⟨mem, ts, rfl, hmem, hts⟩ := List.map_eq_cons_iff.1 hts
      obtain ⟨dt, ts, rfl, hdt, hts⟩ := List.map_eq_cons_iff.1 hts
      obtain rfl := List.map_eq_nil_iff.1 hts
      refine ⟨dt, hdt, ?_⟩
      simp [markAt, means_of_name hnot, means_of_name hmem, Symbol.word, Token.isSymbol,
        Token.isWord, hnot, skip?]
  obtain ⟨dt, hdt, hmark⟩ := hmark
  rw [outcome_membership, termAt_cons]
  cases t.lexeme.term? scope with
  | none => rfl
  | some e => simp [hmark, hdomain dt hdt, isDomain.settled]

theorem argumentMarks?_of_name {t : Token} {w : String} (h : t.lexeme = .name w) :
    argumentMarks? t = none := by
  simp [argumentMarks?, Token.isPunct, h]

theorem outcome_atom_member {element : Term} {d : String} {negated : Bool}
    (wf : (Formula.member element d negated).WellFormed Word scope)
    (hts : ts.map Token.lexeme = (Formula.member element d negated).lexemes) :
    outcome (atom stop scope (ts ++ rest)) =
      ((Formula.member element d negated).reread? scope).map (·, rest) := by
  obtain ⟨t, ts, rfl, ht, hts⟩ := List.map_eq_cons_iff.1 hts
  have hmembership : outcome (membership stop scope (t :: (ts ++ rest))) =
      (t.lexeme.term? scope).map fun e => (.member e d negated, rest) :=
    outcome_membership_lexemes wf.2 hts
  rw [Formula.reread?, ← ht, List.cons_append]
  cases hlexeme : element.lexeme with
  | literal value =>
    rw [hlexeme] at ht
    have hquantifier : quantifier? t = none := by simp [quantifier?, means_of_literal ht]
    simp [outcome_atom_cons, Token.isPunct, Token.isWord, hquantifier, ht, simpleAtom, hmembership,
      Lexeme.element?, Function.comp_def]
  | name w =>
    rw [hlexeme] at ht
    rw [outcome_atom_name ht (wf.1.notBarred hlexeme), simpleAtom]
    by_cases hreserved : w ∈ reserved
    · simp [ht, hreserved, Lexeme.element?]
    · -- the token after the element is a word, so that the element is no predicate
      obtain ⟨next, ts, rfl, word, hnext⟩ : ∃ next ts', ts = next :: ts' ∧
          ∃ word, next.lexeme = .name word := by
        cases negated <;> obtain ⟨next, ts, rfl, hnext, -⟩ := List.map_eq_cons_iff.1 hts <;>
          exact ⟨next, ts, rfl, _, hnext⟩
      rw [List.cons_append] at hmembership ⊢
      simp [ht, hreserved, Lexeme.element?, argumentMarks?_of_name hnext, hmembership,
        Function.comp_def]
  | symbol | punct | stray => cases element <;> simp [Term.lexeme] at hlexeme

theorem outcome_atom_pred {name : String} {args : List Term}
    (wf : (Formula.pred name args).WellFormed Word scope)
    (hts : ts.map Token.lexeme = (Formula.pred name args).lexemes) :
    outcome (atom stop scope (ts ++ rest)) =
      ((Formula.pred name args).reread? scope).map (·, rest) := by
  obtain ⟨t, ts, rfl, ht, hts⟩ := List.map_eq_cons_iff.1 hts
  obtain ⟨opener, ts, rfl, hopener, hts⟩ := List.map_eq_cons_iff.1 hts
  have free := notBarred_of_notReserved wf.1.notReserved
  have hmarks : argumentMarks? opener = some ('[', ']') := by
    simp [argumentMarks?, Token.isPunct, hopener]
  rw [List.cons_append, List.cons_append, outcome_atom_name ht free, Formula.reread?]
  simp only [simpleAtom, ht, wf.1.notReserved, hmarks, outcome_application]
  cases args with
  | nil =>
    obtain ⟨closer, ts, rfl, hcloser, hts⟩ := List.map_eq_cons_iff.1 hts
    obtain rfl := List.map_eq_nil_iff.1 hts
    simp [skip?, Token.isPunct, hcloser, rereadTerms?]
  | cons e args =>
    have hargs : outcome (arguments stop opener.start name '[' ']' scope (ts ++ rest)) =
        (rereadTerms? scope (e :: args)).map (·, rest) := outcome_arguments_lexemes hts
    obtain ⟨first, ts, rfl, hfirst, -⟩ := List.map_eq_cons_iff.1 hts
    have hclosed : first.isPunct ']' = false := by
      cases e <;> simp [Token.isPunct, hfirst, Term.lexeme]
    rw [List.cons_append] at hargs ⊢
    simp [skip?, hclosed, hargs, Function.comp_def]

end Atoms

/-! ### Whole formulas -/

section Formulas

variable {scope : List String} {ts rest : List Token} {Word : String → Prop} {f : Formula}
  {least n : Nat}

theorem begins_term {e : Term} (wf : e.WellFormed Word scope) : Begins 5 e.lexeme := by
  cases hlexeme : e.lexeme with
  | name w =>
    have free := wf.notBarred hlexeme
    refine ⟨fun _ => ⟨?_, ?_⟩, fun _ => ?_⟩ <;> rintro rfl <;> exact free (by decide)
  | literal => trivial
  | symbol | punct | stray => cases e <;> simp [Term.lexeme] at hlexeme

theorem exists_begins_enclose (h : ∃ l ls, f.lexemes = l :: ls ∧ Begins f.strength l) :
    ∃ l ls, f.enclose n f.lexemes = l :: ls ∧ Begins n l := by
  rw [Formula.enclose]
  split
  · exact ⟨_, _, rfl, rfl⟩
  · next hle =>
    obtain ⟨l, ls, heq, hbegins⟩ := h
    exact ⟨l, ls, heq, hbegins.mono (Nat.le_of_not_lt hle)⟩

/-- The first lexeme of a formula tells the levels that need no parentheses for it. -/
theorem exists_begins (wf : f.WellFormed Word scope) :
    ∃ l ls, f.lexemes = l :: ls ∧ Begins f.strength l := by
  induction f generalizing scope with
  | truth b =>
    refine ⟨_, [], rfl, ?_⟩
    cases b <;> exact ⟨fun _ => by decide, fun _ => by decide⟩
  | pred name args =>
    refine ⟨_, _, rfl, fun _ => ⟨?_, ?_⟩, fun _ => ?_⟩ <;> rintro rfl <;>
      exact wf.1.notReserved (by decide)
  | member element d negated => exact ⟨_, _, rfl, begins_term wf.1⟩
  | not f ih =>
    exact ⟨_, _, rfl, fun _ => by decide, fun h => absurd h (by simp [Formula.strength])⟩
  | and fs ih | or fs ih =>
    obtain ⟨hlength, wfs⟩ := wf
    cases fs with
    | nil => simp at hlength
    | cons g fs =>
      obtain ⟨l, ls, heq, hbegins⟩ := exists_begins_enclose (ih g List.mem_cons_self wfs.1)
      rw [Formula.lexemes, Formula.operandLexemes, separated, heq]
      exact ⟨l, _, rfl, hbegins.mono (Nat.le_succ _)⟩
  | implies f g ihf ihg =>
    obtain ⟨l, ls, heq, hbegins⟩ := exists_begins_enclose (ihf wf.1)
    rw [Formula.lexemes, heq]
    exact ⟨l, _, rfl, hbegins.mono (Nat.le_succ _)⟩
  | all v d f ih | any v d f ih =>
    exact ⟨_, _, rfl, fun h => absurd h (by simp [Formula.strength]),
      fun h => absurd h (by simp [Formula.strength])⟩
  | bare => exact absurd wf id

/-- Every level that needs no parentheses for the formula reads its lexemes as the formula
reread. -/
def ReadsBack (stop : Position) (scope : List String) (f : Formula) : Prop :=
  ∀ {least : Nat} {ts rest : List Token}, ts.map Token.lexeme = f.lexemes → least ≤ f.strength →
    Quiet least rest → readAt stop least scope (ts ++ rest) = (f.reread? scope).map (·, rest)

theorem readsBack_of_strength (wf : f.WellFormed Word scope)
    (h : ∀ ts rest, ts.map Token.lexeme = f.lexemes → Quiet f.strength rest →
      readAt stop f.strength scope (ts ++ rest) = (f.reread? scope).map (·, rest)) :
    ReadsBack stop scope f := by
  intro least ts rest hts hle quiet
  obtain ⟨l, ls, heq, hbegins⟩ := exists_begins wf
  have hread := h ts rest hts (quiet.mono hle)
  rw [heq] at hts
  obtain ⟨t, ts, rfl, rfl, -⟩ := List.map_eq_cons_iff.1 hts
  exact readAt_of_le hle hbegins quiet hread

/-- Parentheses make a formula strong enough for its place. -/
theorem ReadsBack.enclose (h : ReadsBack stop scope f) (hn : n ≤ 5) (hle : least ≤ n)
    (hts : ts.map Token.lexeme = f.enclose n f.lexemes) (quiet : Quiet least rest) :
    readAt stop least scope (ts ++ rest) = (f.reread? scope).map (·, rest) := by
  rw [Formula.enclose] at hts
  split at hts
  · obtain ⟨opener, ts, rfl, hopener, hts⟩ := List.map_eq_cons_iff.1 hts
    obtain ⟨inside, closing, rfl, hinside, hclosing⟩ := List.map_eq_append_iff.1 hts
    obtain ⟨closer, closing, rfl, hcloser, hnil⟩ := List.map_eq_cons_iff.1 hclosing
    obtain rfl := List.map_eq_nil_iff.1 hnil
    have hinner : outcome (formula stop scope (inside ++ closer :: rest)) =
        (f.reread? scope).map (·, closer :: rest) :=
      h hinside (Nat.zero_le _) (quiet_of_punct hcloser)
    have hbegins : Begins 5 opener.lexeme := by rw [hopener]; rfl
    rw [List.cons_append, List.append_assoc, List.singleton_append]
    refine readAt_of_le (hle.trans hn) hbegins quiet ?_
    rw [readAt_five, outcome_atom_cons, hinner]
    cases f.reread? scope <;> simp [Token.isPunct, hopener, skip?, hcloser]
  · next hstrong => exact h hts (hle.trans (Nat.le_of_not_lt hstrong)) quiet

/-! ### Operands -/

section Operands

variable {join : Symbol} {more : List Token → Option (List Formula × List Token)}
  {fs : List Formula}

theorem length_of_rereadAll? {gs : List Formula} (h : Formula.rereadAll? fs scope = some gs) :
    gs.length = fs.length := by
  induction fs generalizing gs with
  | nil =>
    cases h
    rfl
  | cons f fs ih =>
    simp only [Formula.rereadAll?, Option.bind_eq_some_iff, Option.map_eq_some_iff] at h
    obtain ⟨g, -, gs, hgs, rfl⟩ := h
    simp [ih hgs]

/-- What follows an operand is a mark or the end of the operands. -/
theorem ReadsMore.quiet_append (h : ReadsMore stop scope join n more)
    (hts : ts.map Token.lexeme =
      (Formula.operandLexemes n fs).flatMap (.name join.word :: ·))
    (quiet : Quiet n rest) : Quiet n (ts ++ rest) := by
  cases fs with
  | nil =>
    obtain rfl := List.map_eq_nil_iff.1 hts
    exact quiet
  | cons f fs =>
    obtain ⟨mark, ts, rfl, hmark, -⟩ := List.map_eq_cons_iff.1 hts
    exact h.quiet hmark

theorem ReadsMore.read (h : ReadsMore stop scope join n more)
    (reads : ∀ f ∈ fs, ReadsBack stop scope f)
    (hts : ts.map Token.lexeme =
      (Formula.operandLexemes n fs).flatMap (.name join.word :: ·))
    (quiet : Quiet n rest) (ends : ∀ t ∈ rest.head?, t.means join = false) :
    more (ts ++ rest) = (Formula.rereadAll? fs scope).map (·, rest) := by
  -- each round takes a mark and the operand behind it
  induction fs generalizing ts with
  | nil =>
    obtain rfl := List.map_eq_nil_iff.1 hts
    exact h.step.nothing ends
  | cons f fs ih =>
    obtain ⟨mark, ts, rfl, hmark, hts⟩ := List.map_eq_cons_iff.1 hts
    obtain ⟨first, others, rfl, hfirst, hothers⟩ := List.map_eq_append_iff.1 hts
    obtain ⟨hf, hfs⟩ := List.forall_mem_cons.1 reads
    have hread : readAt stop n scope (first ++ (others ++ rest)) =
        (f.reread? scope).map (·, others ++ rest) :=
      hf.enclose h.bound le_rfl hfirst (h.quiet_append hothers quiet)
    have hmeans : mark.means join = true := by simp [means_of_name hmark]
    rw [List.cons_append, h.step, skip?, hmeans, List.append_assoc, Formula.rereadAll?]
    simp only [if_true, chainAt, hread]
    cases f.reread? scope with
    | none => rfl
    | some g => simp [ih hfs hothers, Function.comp_def]

/-- Two operands or more are read one by one and joined. -/
theorem ReadsMore.read_joined (h : ReadsMore stop scope join n more) (hlength : 2 ≤ fs.length)
    (reads : ∀ f ∈ fs, ReadsBack stop scope f)
    (hts : ts.map Token.lexeme =
      separated (.name join.word) (Formula.operandLexemes n fs))
    (quiet : Quiet n rest) (ends : ∀ t ∈ rest.head?, t.means join = false)
    (connective : List Formula → Formula) :
    ((readAt stop n scope (ts ++ rest)).bind fun first =>
        (more first.2).map fun r => (joined connective first.1 r.1, r.2)) =
      ((Formula.rereadAll? fs scope).map connective).map (·, rest) := by
  cases fs with
  | nil => simp at hlength
  | cons f fs =>
    obtain ⟨first, others, rfl, hfirst, hothers⟩ := List.map_eq_append_iff.1 hts
    obtain ⟨hf, hfs⟩ := List.forall_mem_cons.1 reads
    have hread : readAt stop n scope (first ++ (others ++ rest)) =
        (f.reread? scope).map (·, others ++ rest) :=
      hf.enclose h.bound le_rfl hfirst (h.quiet_append hothers quiet)
    rw [List.append_assoc, hread, Formula.rereadAll?]
    cases f.reread? scope with
    | none => rfl
    | some g =>
      have hmore := h.read hfs hothers quiet ends
      cases hgs : Formula.rereadAll? fs scope with
      | none => simp [hmore, hgs]
      | some gs =>
        have hne : gs ≠ [] := by
          rintro rfl
          have := length_of_rereadAll? hgs
          simp only [List.length_nil, List.length_cons] at this hlength
          omega
        simp [hmore, hgs, joined, hne]

end Operands

/-! ### Implications and quantifiers -/

theorem readAt_implies {g : Formula} (readsLeft : ReadsBack stop scope f)
    (readsRight : ReadsBack stop scope g)
    (hts : ts.map Token.lexeme = (Formula.implies f g).lexemes) (quiet : Quiet 1 rest) :
    readAt stop 1 scope (ts ++ rest) =
      ((Formula.implies f g).reread? scope).map (·, rest) := by
  obtain ⟨left, after, rfl, hleft, hafter⟩ := List.map_eq_append_iff.1 hts
  obtain ⟨arrow, right, rfl, harrow, hright⟩ := List.map_eq_cons_iff.1 hafter
  have hmeans : ∀ s, arrow.means s = (Symbol.implies == s) := fun s => means_of_symbol harrow
  -- the antecedent is read by the level below, which does not go on with an arrow
  have hends : Quiet 2 (arrow :: (right ++ rest)) := by
    intro t ht
    obtain rfl : arrow = t := by simpa using ht
    exact ⟨fun _ => hmeans _, fun _ => hmeans _, by omega⟩
  have hf : outcome (disjunction stop scope (left ++ arrow :: (right ++ rest))) =
      (f.reread? scope).map (·, arrow :: (right ++ rest)) :=
    readsLeft.enclose (by decide) le_rfl hleft hends
  -- the consequent is read by the loosest level, which ends where this one does
  have hquiet : Quiet 0 rest := by
    intro t ht
    obtain ⟨hand, hor, himplies⟩ := quiet t ht
    exact ⟨fun _ => hand (by decide), fun _ => hor (by decide), fun _ => himplies le_rfl⟩
  have hg : outcome (formula stop scope (right ++ rest)) = (g.reread? scope).map (·, rest) :=
    readsRight.enclose (by decide) (Nat.zero_le 1) hright hquiet
  rw [readAt, List.append_assoc, List.cons_append, outcome_implication, hf, Formula.reread?]
  cases f.reread? scope with
  | none => rfl
  | some f' =>
    simp only [Option.map_some, Option.bind_some, skip?, hmeans, beq_self_eq_true, if_true, hg]
    cases g.reread? scope <;> rfl

/-- A quantified formula is read to the end of its body. -/
theorem readAt_quantified (universal : Bool) {v d : String} (isName : IsName Word v)
    (isDomain : IsDomainName Word d) (wf : f.WellFormed Word (v :: scope))
    (reads : ReadsBack stop (v :: scope) f)
    (hts : ts.map Token.lexeme =
      .name (if universal then "forall" else "exists") ::
        .name v :: .name "in" :: .name d :: .punct ':' :: f.lexemes)
    (quiet : Quiet 0 rest) :
    readAt stop 0 scope (ts ++ rest) =
      ((f.reread? (v :: scope)).map (QuantifierHead.mk universal v d).bind).map (·, rest) := by
  obtain ⟨quantifier, ts, rfl, hquantifier, hts⟩ := List.map_eq_cons_iff.1 hts
  obtain ⟨var, ts, rfl, hvar, hts⟩ := List.map_eq_cons_iff.1 hts
  obtain ⟨mem, ts, rfl, hmem, hts⟩ := List.map_eq_cons_iff.1 hts
  obtain ⟨domain, ts, rfl, hdomain, hts⟩ := List.map_eq_cons_iff.1 hts
  obtain ⟨colon, ts, rfl, hcolon, hts⟩ := List.map_eq_cons_iff.1 hts
  have huniversal : quantifier? quantifier = some universal := by
    cases universal <;> simp [quantifier?, means_of_name hquantifier, Symbol.word]
  have hbegin : cannotBegin (ts ++ rest) = false := by
    obtain ⟨l, ls, heq, hbegins⟩ := exists_begins wf
    rw [heq] at hts
    obtain ⟨t, ts, rfl, rfl, -⟩ := List.map_eq_cons_iff.1 hts
    exact hbegins.cannotBegin_eq_false
  have hhead : headAt universal (var :: mem :: domain :: colon :: (ts ++ rest)) =
      some (⟨universal, v, d⟩, ts ++ rest) := by
    simp [headAt, firstWord?, hvar, isName.notReserved, skip?, means_of_name hmem, Symbol.word,
      hdomain, isDomain.notBarred, Token.isPunct, hcolon, hbegin, isDomain.settled]
  have hbody : outcome (formula stop (v :: scope) (ts ++ rest)) =
      (f.reread? (v :: scope)).map (·, rest) := reads hts (Nat.zero_le _) quiet
  simp only [readAt, List.cons_append, outcome_formula_cons, huniversal, outcome_quantified, hhead,
    Option.bind_some, hbody]
  cases f.reread? (v :: scope) <;> rfl

/-! ### Main theorem -/

/-- **The lexemes of a well-formed formula are read as the formula reread**, by every level that
needs no parentheses for it and up to tokens that no such level goes on with. -/
theorem readAt_lexemes (wf : f.WellFormed Word scope) : ReadsBack stop scope f := by
  -- by induction on the formula in all scopes, for a quantifier widens the scope of its body; each
  -- case is about the one level that is made for the formula
  induction f generalizing scope with
  | truth b =>
    refine readsBack_of_strength wf fun ts rest hts quiet => ?_
    obtain ⟨t, ts, rfl, ht, hts⟩ := List.map_eq_cons_iff.1 hts
    obtain rfl := List.map_eq_nil_iff.1 hts
    have hquantifier : quantifier? t = none := by
      cases b <;> simp [quantifier?, means_of_name ht, Symbol.word]
    rw [Formula.strength, readAt_five, List.cons_append, outcome_atom_cons]
    cases b <;> simp [Token.isPunct, Token.isWord, ht, hquantifier, Formula.reread?]
  | pred name args =>
    exact readsBack_of_strength wf fun ts rest hts _ => outcome_atom_pred wf hts
  | member element d negated =>
    exact readsBack_of_strength wf fun ts rest hts _ => outcome_atom_member wf hts
  | not f ih =>
    refine readsBack_of_strength wf fun ts rest hts quiet => ?_
    obtain ⟨mark, ts, rfl, hmark, hts⟩ := List.map_eq_cons_iff.1 hts
    have hmeans : mark.means .not = true := by simp [means_of_name hmark, Symbol.word]
    have hread : outcome (negation stop scope (ts ++ rest)) = (f.reread? scope).map (·, rest) :=
      ReadsBack.enclose (ih wf) (by decide) le_rfl hts quiet
    rw [Formula.strength, readAt, List.cons_append, outcome_negation, skip?, hmeans]
    simp only [if_true, hread, Formula.reread?]
    cases f.reread? scope <;> rfl
  | and fs ih =>
    refine readsBack_of_strength wf fun ts rest hts quiet => ?_
    rw [Formula.strength, readAt, outcome_conjunction, Formula.reread?]
    exact readsMore_conjuncts.read_joined wf.1
      (fun f hf => ih f hf (Formula.wellFormedAll_iff.1 wf.2 f hf)) hts (quiet.mono (Nat.le_succ 3))
      (fun t ht => (quiet t ht).1 le_rfl) .and
  | or fs ih =>
    refine readsBack_of_strength wf fun ts rest hts quiet => ?_
    rw [Formula.strength, readAt, outcome_disjunction, Formula.reread?]
    exact readsMore_disjuncts.read_joined wf.1
      (fun f hf => ih f hf (Formula.wellFormedAll_iff.1 wf.2 f hf)) hts (quiet.mono (Nat.le_succ 2))
      (fun t ht => (quiet t ht).2.1 le_rfl) .or
  | implies f g ihf ihg =>
    refine readsBack_of_strength wf fun ts rest hts quiet => ?_
    exact readAt_implies (ihf wf.1) (ihg wf.2) hts quiet
  | all v d f ih =>
    refine readsBack_of_strength wf fun ts rest hts quiet => ?_
    rw [Formula.reread?]
    exact readAt_quantified true wf.1 wf.2.1 wf.2.2 (ih wf.2.2) hts quiet
  | any v d f ih =>
    refine readsBack_of_strength wf fun ts rest hts quiet => ?_
    rw [Formula.reread?]
    exact readAt_quantified false wf.1 wf.2.1 wf.2.2 (ih wf.2.2) hts quiet
  | bare => exact absurd wf id

end Formulas

end ChangeControl.Rule
