import ChangeControl.Proofs.Rule.Levels
/-!
The parser accepts exactly its grammar.

The parser looks one token ahead and never goes back, and the grammar says nothing of that.  In one
direction, what each level reads is a phrase of the grammar, along the calls of the parser; a phrase
that ends with a quantifier has no connective after it, because the body of the quantifier took all
there was.  In the other direction, every phrase is read by its level, by induction on its
derivation, up to tokens that the level does not go on with.

Main definitions:

* `Rule.Sound`, `Rule.Complete` — the two directions, for one level.

Main results:

* `Rule.sound_level` — **whatever a level reads is a phrase of the grammar**;
* `Derives.complete` — **every phrase of the grammar is read**;
* `Derives.unique` — lexemes are a phrase for one formula at most;
* `Rule.parses_iff_derives` — **the parser accepts exactly its grammar**.
-/

set_option autoImplicit false

namespace ChangeControl.Rule

variable {stop : Position} {scope : List String} {ts rest : List Token}

/-! ### What is read is a phrase -/

/-- What the level reads from the tokens is a phrase of the grammar, and no connective that could
go on with it is left. -/
def Sound (stop : Position) (level : Level) (scope : List String) (ts : List Token) : Prop :=
  ∀ f rest, level.read stop scope ts = some (f, rest) →
    ∃ ls next, Splits ts ls rest ∧ Derives level scope next ls f ∧ Quiet level.least rest ∧
      (next = .ending → Quiet 0 rest)

/-- Phrases of a level in a row, with the connective `join` between them. -/
def Chained (level : Level) (join : Symbol) (scope : List String) (next : Next) (ls : List Lexeme)
    (fs : List Formula) : Prop :=
  ∃ (init : List Operand) (last : List Lexeme) (f : Formula), (∀ p ∈ init, p.mark.Means join) ∧
    (∀ p ∈ init, Derives level scope .connective p.lexemes p.formula) ∧
    Derives level scope next last f ∧ ls = init.flatMap Operand.written ++ last ∧
    fs = init.map Operand.formula ++ [f]

section Chains

variable {level : Level} {join : Symbol} {next : Next} {ls : List Lexeme} {f : Formula}
  {fs : List Formula}

theorem Chained.one (h : Derives level scope next ls f) : Chained level join scope next ls [f] :=
  ⟨[], ls, f, by simp, by simp, h, rfl, rfl⟩

theorem Chained.cons {mark : Lexeme} {ls' : List Lexeme}
    (h : Derives level scope .connective ls f) (means : mark.Means join)
    (more : Chained level join scope next ls' fs) :
    Chained level join scope next (ls ++ mark :: ls') (f :: fs) := by
  obtain ⟨init, last, g, hmeans, operands, hlast, rfl, rfl⟩ := more
  refine ⟨⟨ls, f, mark⟩ :: init, last, g, ?_, ?_, hlast, ?_, rfl⟩
  · exact List.forall_mem_cons.2 ⟨means, hmeans⟩
  · exact List.forall_mem_cons.2 ⟨h, operands⟩
  · simp [Operand.written]

/-- What the levels for chains read is a chain. -/
theorem Continues.sound {more : List Token → Option (List Formula × List Token)}
    (continues : Continues (level.read stop scope) join more)
    (joins : ∀ {t : Token} {ts : List Token}, t.means join = true → ¬ Quiet 0 (t :: ts))
    {ts rest : List Token} {fs : List Formula}
    (operands : ∀ ts' : List Token, ts'.length ≤ ts.length → Sound stop level scope ts')
    (h : chainAt (level.read stop scope) more ts = some (fs, rest)) :
    ∃ ls next, Splits ts ls rest ∧ Chained level join scope next ls fs ∧
      Quiet level.least rest ∧ (∀ t ∈ rest.head?, t.means join = false) ∧
      (next = .ending → Quiet 0 rest) := by
  obtain ⟨⟨f, after⟩, hfirst, h⟩ := Option.bind_eq_some_iff.1 h
  obtain ⟨⟨gs, rest'⟩, hmore, heq⟩ := Option.map_eq_some_iff.1 h
  cases heq
  obtain ⟨ls, next, split, derives, quiet, ending⟩ := operands ts (Nat.le_refl _) f after hfirst
  have shorter := Level.length_of_read hfirst
  rw [continues] at hmore
  cases hskip : skip? (Token.means join) after with
  | none =>
    simp only [hskip] at hmore
    cases hmore
    exact ⟨ls, next, split, .one derives, quiet, skip?_eq_none_iff.1 hskip, ending⟩
  | some after' =>
    simp only [hskip] at hmore
    obtain ⟨mark, means, rfl⟩ := skip?_eq_some_iff.1 hskip
    have less : after'.length < ts.length := Nat.lt_trans (Nat.lt_succ_self _) shorter
    obtain ⟨ls', next', split', chained, last⟩ :=
      Continues.sound continues joins (fun ts' hle => operands ts' (by omega)) hmore
    -- a connective follows the first operand, so that it does not end with a quantifier
    cases next with
    | ending => exact absurd (ending rfl) (joins means)
    | connective =>
      have hall : Splits ts (ls ++ mark.lexeme :: ls') rest' :=
        splits_append_iff.2 ⟨_, split, rfl, split'⟩
      exact ⟨_, next', hall, .cons derives (Token.means_iff.1 means) chained, last⟩
termination_by ts.length
decreasing_by omega

end Chains

section Levels

variable {t : Token}

theorem not_quiet_of_and (h : t.means .and = true) : ¬ Quiet 0 (t :: ts) :=
  fun quiet => by simp [(quiet t rfl).1 (Nat.zero_le _)] at h

theorem not_quiet_of_or (h : t.means .or = true) : ¬ Quiet 0 (t :: ts) :=
  fun quiet => by simp [(quiet t rfl).2.1 (Nat.zero_le _)] at h

theorem not_quiet_of_implies (h : t.means .implies = true) : ¬ Quiet 0 (t :: ts) :=
  fun quiet => by simp [(quiet t rfl).2.2 (Nat.zero_le _)] at h

theorem sound_conjunction
    (operands : ∀ ts' : List Token, ts'.length ≤ ts.length → Sound stop .negation scope ts') :
    Sound stop .conjunction scope ts := by
  intro f rest h
  rw [read_conjunction] at h
  obtain ⟨⟨fs, rest'⟩, hchain, heq⟩ := Option.map_eq_some_iff.1 h
  cases heq
  obtain ⟨ls, next, split, chained, -, ends, ending⟩ :=
    continues_conjuncts.sound not_quiet_of_and operands hchain
  obtain ⟨init, last, g, means, derives, hlast, rfl, rfl⟩ := chained
  refine ⟨_, next, split, .conjunction means derives hlast, ?_, ending⟩
  intro t ht
  exact ⟨fun _ => ends t ht, by simp [Level.least], by simp [Level.least]⟩

theorem sound_disjunction
    (operands : ∀ ts' : List Token, ts'.length ≤ ts.length → Sound stop .conjunction scope ts') :
    Sound stop .disjunction scope ts := by
  intro f rest h
  rw [read_disjunction] at h
  obtain ⟨⟨fs, rest'⟩, hchain, heq⟩ := Option.map_eq_some_iff.1 h
  cases heq
  obtain ⟨ls, next, split, chained, quiet, ends, ending⟩ :=
    continues_disjuncts.sound not_quiet_of_or operands hchain
  obtain ⟨init, last, g, means, derives, hlast, rfl, rfl⟩ := chained
  refine ⟨_, next, split, .disjunction means derives hlast, ?_, ending⟩
  intro t ht
  exact ⟨fun _ => (quiet t ht).1 (by decide), fun _ => ends t ht, by simp [Level.least]⟩

theorem sound_implication {f : Formula} (disjunction : Sound stop .disjunction scope ts)
    (formulas : ∀ ts' : List Token, ts'.length < ts.length → Sound stop .formula scope ts')
    (h : outcome (implication stop scope ts) = some (f, rest)) :
    ∃ ls, Splits ts ls rest ∧ Derives .formula scope .ending ls f ∧ Quiet 0 rest := by
  rw [outcome_implication, Option.bind_eq_some_iff] at h
  obtain ⟨⟨left, after⟩, hleft, h⟩ := h
  obtain ⟨ls, next, split, derives, quiet, ending⟩ := disjunction left after hleft
  cases hskip : skip? (Token.means .implies) after with
  | none =>
    simp only [hskip] at h
    cases h
    have ends := skip?_eq_none_iff.1 hskip
    refine ⟨ls, split, .ofDisjunction derives.weaken, ?_⟩
    intro t ht
    exact ⟨fun _ => (quiet t ht).1 (by decide), fun _ => (quiet t ht).2.1 (by decide),
      fun _ => ends t ht⟩
  | some after' =>
    simp only [hskip] at h
    obtain ⟨⟨right, rest'⟩, hright, heq⟩ := Option.map_eq_some_iff.1 h
    cases heq
    obtain ⟨arrow, means, rfl⟩ := skip?_eq_some_iff.1 hskip
    have less : after'.length < ts.length :=
      Nat.lt_trans (Nat.lt_succ_self _) (length_of_outcome hleft)
    obtain ⟨ls', next', split', derives', quiet', -⟩ := formulas after' less right rest' hright
    cases next with
    | ending => exact absurd (ending rfl) (not_quiet_of_implies means)
    | connective =>
      have hall : Splits ts (ls ++ arrow.lexeme :: ls') rest' :=
        splits_append_iff.2 ⟨_, split, rfl, split'⟩
      exact ⟨_, hall, .implies derives (Token.means_iff.1 means) derives'.weaken, quiet'⟩

theorem sound_formula (quantifier : Sound stop .quantifier scope ts)
    (disjunction : Sound stop .disjunction scope ts)
    (formulas : ∀ ts' : List Token, ts'.length < ts.length → Sound stop .formula scope ts') :
    Sound stop .formula scope ts := by
  intro f rest h
  cases ts with
  | nil => simp [Level.read] at h
  | cons t ts =>
    rw [Level.read, outcome_formula_cons] at h
    cases hq : quantifier? t with
    | none =>
      simp only [hq] at h
      obtain ⟨ls, split, derives, quiet⟩ := sound_implication disjunction formulas h
      exact ⟨ls, .ending, split, derives, quiet, fun _ => quiet⟩
    | some universal =>
      simp only [hq] at h
      have hread : Level.quantifier.read stop scope (t :: ts) = some (f, rest) := by
        simpa [Level.read, hq] using h
      obtain ⟨ls, next, split, derives, quiet, -⟩ := quantifier f rest hread
      exact ⟨ls, .ending, split, .ofQuantifier derives.weaken, quiet, fun _ => quiet⟩

theorem sound_quantifier
    (formulas : ∀ scope' (ts' : List Token), ts'.length < ts.length →
      Sound stop .formula scope' ts') :
    Sound stop .quantifier scope ts := by
  intro f rest h
  cases ts with
  | nil => cases h
  | cons t ts =>
    obtain ⟨universal, quantifies, h⟩ := Option.bind_eq_some_iff.1 h
    rw [outcome_quantified, Option.bind_eq_some_iff] at h
    obtain ⟨⟨head, after⟩, hhead, h⟩ := h
    obtain ⟨⟨body, rest'⟩, hbody, heq⟩ := Option.map_eq_some_iff.1 h
    cases heq
    obtain ⟨hs, heads, split⟩ := exists_heads quantifies hhead
    have less : after.length < (t :: ts).length := by
      have hlength := split.length_eq
      cases heads
      simp only [List.length_cons, List.length_nil] at hlength ⊢
      omega
    obtain ⟨ls, next, split', derives, quiet, -⟩ :=
      formulas (head.var :: scope) after less body rest' hbody
    refine ⟨hs ++ ls, .ending, ?_, .quantified heads derives.weaken, quiet, fun _ => quiet⟩
    exact splits_append_iff.2 ⟨_, split, split'⟩

theorem sound_negation (atom : Sound stop .atom scope ts)
    (negations : ∀ ts' : List Token, ts'.length < ts.length → Sound stop .negation scope ts') :
    Sound stop .negation scope ts := by
  intro f rest h
  rw [Level.read, outcome_negation] at h
  cases hskip : skip? (Token.means .not) ts with
  | none =>
    simp only [hskip] at h
    obtain ⟨ls, next, split, derives, quiet, ending⟩ := atom f rest h
    exact ⟨ls, next, split, .ofAtom derives, quiet, ending⟩
  | some after =>
    simp only [hskip] at h
    obtain ⟨⟨operand, rest'⟩, hoperand, heq⟩ := Option.map_eq_some_iff.1 h
    cases heq
    obtain ⟨mark, means, rfl⟩ := skip?_eq_some_iff.1 hskip
    obtain ⟨ls, next, split, derives, quiet, ending⟩ :=
      negations after (Nat.lt_succ_self _) operand rest' hoperand
    exact ⟨mark.lexeme :: ls, next, ⟨rfl, split⟩, .not (Token.means_iff.1 means) derives, quiet,
      ending⟩

theorem exists_simpleAtom {f : Formula} (h : simpleAtom stop scope t ts = some (f, rest)) :
    ∃ ls, Splits (t :: ts) ls rest ∧ Derives .atom scope .connective ls f := by
  -- an element that is a name is not reserved, whatever the rest of the test
  have test : (∀ w ∈ reserved, t.lexeme ≠ .name w) →
      outcome (membership stop scope (t :: ts)) = some (f, rest) →
      ∃ ls, Splits (t :: ts) ls rest ∧ Derives .atom scope .connective ls f := by
    intro isElement hread
    obtain ⟨l, element, marks, negated, d, denotes, isMark, may, split, rfl⟩ :=
      exists_membership hread
    have isElement : ∀ w ∈ reserved, l ≠ .name w := split.1 ▸ isElement
    exact ⟨_, split, .membership isElement denotes isMark may⟩
  unfold simpleAtom at h
  cases hlexeme : t.lexeme with
  | literal value =>
    simp only [hlexeme] at h
    exact test (by simp [hlexeme]) h
  | name w =>
    simp only [hlexeme] at h
    split at h
    · cases h
    · next free =>
      have isElement : ∀ w ∈ reserved, t.lexeme ≠ .name w := by
        rintro w' hw' heq
        rw [hlexeme, Lexeme.name.injEq] at heq
        exact free (heq ▸ hw')
      cases ts with
      | nil => exact test isElement h
      | cons opener args =>
        cases hmarks : argumentMarks? opener with
        | none =>
          simp only [hmarks] at h
          exact test isElement h
        | some marks =>
          simp only [hmarks] at h
          exact exists_application free hlexeme hmarks h
  | symbol | punct | stray => simp [hlexeme] at h

theorem sound_atom (quantifier : Sound stop .quantifier scope ts)
    (formulas : ∀ ts' : List Token, ts'.length < ts.length → Sound stop .formula scope ts') :
    Sound stop .atom scope ts := by
  have quiet : ∀ {rest}, Quiet Level.atom.least rest := quiet_of_four_le (Nat.le_refl 4)
  intro f rest h
  cases ts with
  | nil => simp [Level.read] at h
  | cons t ts =>
    rw [Level.read, outcome_atom_cons] at h
    split at h
    · next opens =>
      obtain ⟨⟨inner, after⟩, hinner, h⟩ := Option.bind_eq_some_iff.1 h
      obtain ⟨after', hskip, heq⟩ := Option.map_eq_some_iff.1 h
      cases heq
      obtain ⟨closer, closes, rfl⟩ := skip?_eq_some_iff.1 hskip
      obtain ⟨ls, next, split, derives, -⟩ :=
        formulas ts (Nat.lt_succ_self _) inner _ hinner
      refine ⟨_, .connective, ?_, .parentheses derives.weaken, quiet, quiet_of_connective_eq⟩
      have last : Splits (closer :: rest) [.punct ')'] rest :=
        ⟨Token.isPunct_iff.1 closes, splits_nil_iff.2 rfl⟩
      exact ⟨Token.isPunct_iff.1 opens, splits_append_iff.2 ⟨_, split, last⟩⟩
    · cases hq : quantifier? t with
      | some universal =>
        simp only [hq] at h
        have hread : Level.quantifier.read stop scope (t :: ts) = some (f, rest) := by
          simpa [Level.read, hq] using h
        obtain ⟨ls, next, split, derives, hquiet, -⟩ := quantifier f rest hread
        exact ⟨ls, .ending, split, .unparenthesized derives.weaken, quiet, fun _ => hquiet⟩
      | none =>
        simp only [hq] at h
        have truth : ∀ value : Bool, t.isWord (if value then "true" else "false") = true →
            Splits (t :: ts) [.name (if value then "true" else "false")] ts := by
          intro value word
          exact ⟨by simpa [Token.isWord] using word, splits_nil_iff.2 rfl⟩
        split at h
        · next word =>
          cases h
          exact ⟨_, .connective, truth true word, .truth true, quiet, quiet_of_connective_eq⟩
        · split at h
          · next word =>
            cases h
            exact ⟨_, .connective, truth false word, .truth false, quiet, quiet_of_connective_eq⟩
          · obtain ⟨ls, split, derives⟩ := exists_simpleAtom h
            exact ⟨ls, .connective, split, derives, quiet, quiet_of_connective_eq⟩

end Levels

/-- **Whatever a level reads is a phrase of the grammar.** -/
theorem sound_level (stop : Position) (level : Level) (scope : List String) (ts : List Token) :
    Sound stop level scope ts :=
  match level with
  | .formula =>
    sound_formula (sound_level stop .quantifier scope ts) (sound_level stop .disjunction scope ts)
      fun ts' _ => sound_level stop .formula scope ts'
  | .quantifier => sound_quantifier fun scope' ts' _ => sound_level stop .formula scope' ts'
  | .disjunction => sound_disjunction fun ts' _ => sound_level stop .conjunction scope ts'
  | .conjunction => sound_conjunction fun ts' _ => sound_level stop .negation scope ts'
  | .negation =>
    sound_negation (sound_level stop .atom scope ts)
      fun ts' _ => sound_level stop .negation scope ts'
  | .atom =>
    sound_atom (sound_level stop .quantifier scope ts)
      fun ts' _ => sound_level stop .formula scope ts'
termination_by 8 * ts.length + level.rank
decreasing_by all_goals simp only [Level.rank]; omega

/-! ### A phrase is read -/

/-- A negation is an implication by itself, where nothing goes on with it. -/
theorem outcome_implication_of_negation {f : Formula}
    (h : outcome (negation stop scope ts) = some (f, rest)) (quiet : Quiet 0 rest) :
    outcome (implication stop scope ts) = some (f, rest) := by
  have noAnd : outcome (conjuncts stop scope rest) = some ([], rest) :=
    continues_conjuncts.nothing fun t ht => (quiet t ht).1 (by decide)
  have noOr : outcome (disjuncts stop scope rest) = some ([], rest) :=
    continues_disjuncts.nothing fun t ht => (quiet t ht).2.1 (by decide)
  have noArrow : skip? (Token.means .implies) rest = none :=
    skip?_eq_none_iff.2 fun t ht => (quiet t ht).2.2 (by decide)
  simp [outcome_implication, outcome_disjunction, outcome_conjunction, h, noAnd, noOr, noArrow,
    joined]

/-- A formula is read as an implication, also when it is quantified: nothing follows it then. -/
theorem outcome_formula_eq :
    outcome (formula stop scope ts) = outcome (implication stop scope ts) := by
  cases ts with
  | nil => simp [outcome_implication, outcome_disjunction, outcome_conjunction, outcome_negation,
      skip?]
  | cons t ts =>
    rw [outcome_formula_cons]
    cases hq : quantifier? t with
    | none => rfl
    | some universal =>
      have hnegation : outcome (negation stop scope (t :: ts)) =
          outcome (quantified stop scope universal t.text ts) := by
        simp [outcome_negation, skip?, not_means_of_quantifier? hq, outcome_atom_cons,
          isPunct_of_quantifier? hq, hq]
      cases hquantified : outcome (quantified stop scope universal t.text ts) with
      | none =>
        simp [outcome_implication, outcome_disjunction, outcome_conjunction, hnegation,
          hquantified]
      | some r =>
        have hread : Level.quantifier.read stop scope (t :: ts) = some r := by
          simpa [Level.read, hq] using hquantified
        obtain ⟨ls, next, -, -, quiet, -⟩ :=
          sound_level stop .quantifier scope (t :: ts) r.1 r.2 hread
        rw [outcome_implication_of_negation (hnegation.trans hquantified) quiet]
        exact hquantified

/-- Operands in a row are read one by one, where no other one follows. -/
theorem Continues.chainAt_eq {operand : List Token → Option (Formula × List Token)}
    {join : Symbol} {more : List Token → Option (List Formula × List Token)}
    {init : List Operand} {last : List Lexeme} {f : Formula}
    (continues : Continues operand join more) (means : ∀ p ∈ init, p.mark.Means join)
    (operands : ∀ p ∈ init, ∀ ts mark after, mark.lexeme.Means join →
      Splits ts p.lexemes (mark :: after) → operand ts = some (p.formula, mark :: after))
    (ends : ∀ t ∈ rest.head?, t.means join = false)
    (hlast : ∀ ts, Splits ts last rest → operand ts = some (f, rest))
    (split : Splits ts (init.flatMap Operand.written ++ last) rest) :
    chainAt operand more ts = some (init.map Operand.formula ++ [f], rest) := by
  induction init generalizing ts with
  | nil => simp [chainAt, hlast ts split, continues.nothing ends]
  | cons p init ih =>
    obtain ⟨hmeans, means⟩ := List.forall_mem_cons.1 means
    obtain ⟨hoperand, operands⟩ := List.forall_mem_cons.1 operands
    rw [List.flatMap_cons, Operand.written, List.append_assoc, List.append_assoc] at split
    obtain ⟨mid, first, split⟩ := splits_append_iff.1 split
    obtain ⟨mark, after, rfl, hmark, others⟩ := splits_cons_iff.1 split
    have isMark : mark.lexeme.Means join := hmark ▸ hmeans
    have hmore : more (mark :: after) = some (init.map Operand.formula ++ [f], rest) := by
      rw [continues, skip?_eq_some_iff.2 ⟨mark, Token.means_iff.2 isMark, rfl⟩]
      exact ih means operands others
    simp [chainAt, hoperand ts mark after isMark first, hmore]

/-- Tokens that begin with the lexemes are read by the level as the formula, up to what follows, if
that is nothing with which the level goes on. -/
def Complete (stop : Position) (level : Level) (scope : List String) (next : Next)
    (ls : List Lexeme) (f : Formula) : Prop :=
  ∀ ts rest, Splits ts ls rest → Quiet level.least rest → (next = .ending → Quiet 0 rest) →
    level.read stop scope ts = some (f, rest)

section Complete

variable {next : Next} {init : List Operand} {ls ls' : List Lexeme} {f g : Formula}

theorem complete_conjunction (means : ∀ p ∈ init, p.mark.Means .and)
    (operands : ∀ p ∈ init, Complete stop .negation scope .connective p.lexemes p.formula)
    (last : Complete stop .negation scope next ls f) :
    Complete stop .conjunction scope next (init.flatMap Operand.written ++ ls)
      (collapse .and (init.map Operand.formula ++ [f])) := by
  intro ts rest split quiet ending
  have hquiet : ∀ ts, Quiet Level.negation.least ts := fun ts => quiet_of_four_le (Nat.le_refl 4)
  have hchain := continues_conjuncts.chainAt_eq means
    (fun p hp ts mark after _ hsplit => operands p hp ts _ hsplit (hquiet _) quiet_of_connective_eq)
    (fun t ht => (quiet t ht).1 (Nat.le_refl 3))
    (fun ts hsplit => last ts rest hsplit (hquiet rest) ending) split
  rw [read_conjunction, hchain]
  rfl

theorem complete_disjunction (means : ∀ p ∈ init, p.mark.Means .or)
    (operands : ∀ p ∈ init, Complete stop .conjunction scope .connective p.lexemes p.formula)
    (last : Complete stop .conjunction scope next ls f) :
    Complete stop .disjunction scope next (init.flatMap Operand.written ++ ls)
      (collapse .or (init.map Operand.formula ++ [f])) := by
  intro ts rest split quiet ending
  have hquiet : ∀ {mark : Token} {after : List Token}, mark.lexeme.Means .or →
      Quiet Level.conjunction.least (mark :: after) := by
    intro mark after means t ht
    obtain rfl : mark = t := by simpa using ht
    exact ⟨fun _ => means_eq_false means (by decide), by simp [Level.least], by simp [Level.least]⟩
  have hchain := continues_disjuncts.chainAt_eq means
    (fun p hp ts mark after isMark hsplit =>
      operands p hp ts _ hsplit (hquiet isMark) quiet_of_connective_eq)
    (fun t ht => (quiet t ht).2.1 (Nat.le_refl 2))
    (fun ts hsplit => last ts rest hsplit (quiet.mono (Nat.le_succ 2)) ending) split
  rw [read_disjunction, hchain]
  rfl

theorem complete_ofDisjunction (h : Complete stop .disjunction scope .ending ls f) :
    Complete stop .formula scope .ending ls f := by
  intro ts rest split quiet ending
  have hread : outcome (disjunction stop scope ts) = some (f, rest) :=
    h ts rest split (quiet.mono (Nat.zero_le 2)) ending
  have noArrow : skip? (Token.means .implies) rest = none :=
    skip?_eq_none_iff.2 fun t ht => (quiet t ht).2.2 (by decide)
  rw [Level.read, outcome_formula_eq, outcome_implication, hread]
  simp [noArrow]

theorem complete_implies {arrow : Lexeme} (left : Complete stop .disjunction scope .connective ls f)
    (means : arrow.Means .implies) (right : Complete stop .formula scope .ending ls' g) :
    Complete stop .formula scope .ending (ls ++ arrow :: ls') (.implies f g) := by
  intro ts rest split quiet ending
  obtain ⟨mid, first, split⟩ := splits_append_iff.1 split
  obtain ⟨t, after, rfl, ht, second⟩ := splits_cons_iff.1 split
  have isArrow : t.lexeme.Means .implies := ht ▸ means
  have hquiet : Quiet Level.disjunction.least (t :: after) := by
    intro t' ht'
    obtain rfl : t = t' := by simpa using ht'
    exact ⟨fun _ => means_eq_false isArrow (by decide), fun _ => means_eq_false isArrow (by decide),
      by simp [Level.least]⟩
  have hleft : outcome (disjunction stop scope ts) = some (f, t :: after) :=
    left ts _ first hquiet quiet_of_connective_eq
  have hright : outcome (formula stop scope after) = some (g, rest) :=
    right after rest second quiet ending
  have hskip : skip? (Token.means .implies) (t :: after) = some after :=
    skip?_eq_some_iff.2 ⟨t, Token.means_iff.2 isArrow, rfl⟩
  rw [Level.read, outcome_formula_eq, outcome_implication, hleft]
  simp [hskip, hright]

theorem complete_quantified {hs : List Lexeme} {head : QuantifierHead} (heads : Heads hs head)
    (derives : Derives .formula (head.var :: scope) .ending ls f)
    (body : Complete stop .formula (head.var :: scope) .ending ls f) :
    Complete stop .quantifier scope .ending (hs ++ ls) (head.bind f) := by
  intro ts rest split quiet ending
  obtain ⟨mid, first, second⟩ := splits_append_iff.1 split
  have begins : cannotBegin mid = false := by
    obtain ⟨l, ls', rfl, opens, -⟩ := derives.exists_opens
    obtain ⟨t, mid, rfl, rfl, -⟩ := splits_cons_iff.1 second
    have hpunct : ∀ mark, mark ≠ '(' → t.isPunct mark = false := by
      intro mark hne
      rw [Bool.eq_false_iff]
      intro h
      exact hne (opens mark (Token.isPunct_iff.1 h))
    simp [cannotBegin, hpunct]
  obtain ⟨t, ts, universal, rfl, quantifies, hhead⟩ := heads.headAt_eq first begins
  have hbody : outcome (formula stop (head.var :: scope) mid) = some (f, rest) :=
    body mid rest second quiet ending
  simp [Level.read, quantifies, outcome_quantified, hhead, hbody]

theorem complete_not {mark : Lexeme} (means : mark.Means .not)
    (operand : Complete stop .negation scope next ls f) :
    Complete stop .negation scope next (mark :: ls) (.not f) := by
  intro ts rest split quiet ending
  obtain ⟨t, ts, rfl, rfl, second⟩ := splits_cons_iff.1 split
  have hoperand : outcome (negation stop scope ts) = some (f, rest) :=
    operand ts rest second quiet ending
  simp [Level.read, outcome_negation, skip?, Token.means_iff.2 means, hoperand]

theorem complete_ofAtom (derives : Derives .atom scope next ls f)
    (h : Complete stop .atom scope next ls f) : Complete stop .negation scope next ls f := by
  intro ts rest split quiet ending
  obtain ⟨l, ls', rfl, noNot⟩ := derives.exists_not_means
  obtain ⟨t, ts, rfl, rfl, -⟩ := splits_cons_iff.1 split
  have hskip : t.means .not = false := by
    rw [Bool.eq_false_iff]
    intro h
    exact noNot (Token.means_iff.1 h)
  rw [Level.read, outcome_negation, skip?, hskip]
  exact h _ rest split quiet ending

theorem complete_ofQuantifier (h : Complete stop .quantifier scope .ending ls f) :
    Complete stop .formula scope .ending ls f := by
  intro ts rest split quiet ending
  have hread := h ts rest split quiet ending
  cases ts with
  | nil => cases hread
  | cons t ts =>
    obtain ⟨universal, quantifies, hread⟩ := Option.bind_eq_some_iff.1 hread
    rw [Level.read, outcome_formula_cons, quantifies]
    exact hread

theorem complete_unparenthesized (h : Complete stop .quantifier scope .ending ls f) :
    Complete stop .atom scope .ending ls f := by
  intro ts rest split quiet ending
  have hread := h ts rest split (ending rfl) ending
  cases ts with
  | nil => cases hread
  | cons t ts =>
    obtain ⟨universal, quantifies, hread⟩ := Option.bind_eq_some_iff.1 hread
    rw [Level.read, outcome_atom_cons, isPunct_of_quantifier? quantifies, quantifies]
    exact hread

theorem complete_parentheses (inner : Complete stop .formula scope .ending ls f) :
    Complete stop .atom scope next (.punct '(' :: (ls ++ [.punct ')'])) f := by
  intro ts rest split quiet ending
  obtain ⟨opener, ts, rfl, hopener, split⟩ := splits_cons_iff.1 split
  obtain ⟨mid, second, last⟩ := splits_append_iff.1 split
  obtain ⟨closer, rest', rfl, hcloser, last⟩ := splits_cons_iff.1 last
  obtain rfl := splits_nil_iff.1 last
  have hquiet : Quiet 0 (closer :: rest') := by
    intro t ht
    obtain rfl : closer = t := by simpa using ht
    simp [Token.means, Token.isSymbol, Token.isWord, hcloser]
  have hinner : outcome (formula stop scope ts) = some (f, closer :: rest') :=
    inner ts _ second hquiet fun _ => hquiet
  simp [Level.read, outcome_atom_cons, Token.isPunct, hopener, hinner, skip?, hcloser]

theorem outcome_atom_name {t : Token} {w : String} (h : t.lexeme = .name w)
    (free : w ∉ barredDomains) :
    outcome (atom stop scope (t :: ts)) = simpleAtom stop scope t ts := by
  have hne : ∀ word ∈ barredDomains, w ≠ word := by
    rintro word hword rfl
    exact free hword
  have hquantifier : quantifier? t = none :=
    quantifier?_eq_none_of_name h ⟨hne "forall" (by decide), hne "exists" (by decide)⟩
  simp [outcome_atom_cons, Token.isPunct, Token.isWord, h, hquantifier, hne "true" (by decide),
    hne "false" (by decide)]

theorem complete_truth (value : Bool) :
    Complete stop .atom scope next [.name (if value then "true" else "false")] (.truth value) := by
  intro ts rest split quiet ending
  obtain ⟨t, ts, rfl, ht, split⟩ := splits_cons_iff.1 split
  obtain rfl := splits_nil_iff.1 split
  have hquantifier : quantifier? t = none :=
    quantifier?_eq_none_of_name ht (by cases value <;> decide)
  cases value <;> simp [Level.read, outcome_atom_cons, Token.isPunct, Token.isWord, ht, hquantifier]

theorem read_application {t opener : Token} {name : String} {marks : Char × Char}
    (isName : name ∉ reserved) (ht : t.lexeme = .name name)
    (hmarks : argumentMarks? opener = some marks) :
    Level.atom.read stop scope (t :: opener :: ts) =
      outcome (application stop scope name marks opener ts) := by
  rw [Level.read, outcome_atom_name ht (mayName_iff.1 (.inl isName)), simpleAtom]
  simp [ht, isName, hmarks]

theorem complete_constant {name : String} {opener closer : Char} (isName : name ∉ reserved)
    (brackets : Brackets opener closer) :
    Complete stop .atom scope next [.name name, .punct opener, .punct closer] (.pred name []) := by
  intro ts rest split quiet ending
  obtain ⟨t, ts, rfl, ht, split⟩ := splits_cons_iff.1 split
  obtain ⟨mark, ts, rfl, hmark, split⟩ := splits_cons_iff.1 split
  obtain ⟨closed, ts, rfl, hclosed, split⟩ := splits_cons_iff.1 split
  obtain rfl := splits_nil_iff.1 split
  have hmarks : argumentMarks? mark = some (opener, closer) :=
    argumentMarks?_eq_some_iff.2 ⟨hmark, brackets⟩
  rw [read_application isName ht hmarks, outcome_application]
  simp [skip?, Token.isPunct, hclosed]

theorem complete_application {name : String} {opener closer : Char} {args : List Term}
    (isName : name ∉ reserved) (brackets : Brackets opener closer)
    (arguments : Arguments scope ls args) :
    Complete stop .atom scope next (.name name :: .punct opener :: (ls ++ [.punct closer]))
      (.pred name args) := by
  intro ts rest split quiet ending
  obtain ⟨t, ts, rfl, ht, split⟩ := splits_cons_iff.1 split
  obtain ⟨mark, ts, rfl, hmark, split⟩ := splits_cons_iff.1 split
  have hclosed : skip? (Token.isPunct closer) ts = none := by
    obtain ⟨l, ls', e, rfl, denotes⟩ := arguments.exists_denotes
    obtain ⟨first, ts, rfl, rfl, -⟩ := splits_cons_iff.1 split
    simp [skip?, denotes.isPunct_eq_false]
  have hmarks : argumentMarks? mark = some (opener, closer) :=
    argumentMarks?_eq_some_iff.2 ⟨hmark, brackets⟩
  rw [read_application isName ht hmarks, outcome_application]
  simp [hclosed, arguments.outcome_eq brackets.closer_ne split]

theorem complete_membership {l : Lexeme} {element : Term} {marks : List Lexeme} {negated : Bool}
    {d : String} (isElement : ∀ w ∈ reserved, l ≠ .name w) (denotes : Denotes scope l element)
    (isMark : Marks negated marks) (may : MayName d) :
    Complete stop .atom scope next (l :: (marks ++ [.name d]))
      (.member element (domainName d) negated) := by
  intro ts rest split quiet ending
  have hread : outcome (membership stop scope ts) =
      some (.member element (domainName d) negated, rest) :=
    outcome_membership_eq denotes isMark may split
  obtain ⟨t, ts, rfl, hlexeme, after⟩ := splits_cons_iff.1 split
  obtain ⟨mark, ts, rfl, hmark⟩ := isMark.argumentMarks?_eq_none after
  cases denotes with
  | literal value =>
    simp [Level.read, outcome_atom_cons, quantifier?, Token.isPunct, Token.isWord, Token.means,
      Token.isSymbol, hlexeme, simpleAtom, hread]
  | name may resolves =>
    have isName : _ ∉ reserved := fun mem => isElement _ mem rfl
    rw [Level.read, outcome_atom_name hlexeme (mayName_iff.1 may), simpleAtom]
    simp [hlexeme, isName, hmark, hread]

end Complete

/-- **Every phrase of the grammar is read.** -/
theorem Derives.complete {level : Level} {next : Next} {ls : List Lexeme} {f : Formula}
    (h : Derives level scope next ls f) : Complete stop level scope next ls f := by
  induction h with
  | ofQuantifier _ ih => exact complete_ofQuantifier ih
  | ofDisjunction _ ih => exact complete_ofDisjunction ih
  | implies _ means _ ihl ihr => exact complete_implies ihl means ihr
  | quantified heads derives ih => exact complete_quantified heads derives ih
  | disjunction means _ _ ihs ih => exact complete_disjunction means ihs ih
  | conjunction means _ _ ihs ih => exact complete_conjunction means ihs ih
  | not means _ ih => exact complete_not means ih
  | ofAtom derives ih => exact complete_ofAtom derives ih
  | parentheses _ ih => exact complete_parentheses ih
  | truth value => exact complete_truth value
  | unparenthesized _ ih => exact complete_unparenthesized ih
  | constant isName brackets => exact complete_constant isName brackets
  | application isName brackets arguments => exact complete_application isName brackets arguments
  | membership isElement denotes isMark may =>
    exact complete_membership isElement denotes isMark may

/-! ### Whole formulas -/

/-- Lexemes are a phrase for one formula at most, whatever follows them. -/
theorem Derives.unique {level : Level} {next next' : Next} {ls : List Lexeme} {f g : Formula}
    (hf : Derives level scope next ls f) (hg : Derives level scope next' ls g) : f = g := by
  -- the places of tokens have no say in what is read
  let start : Position := ⟨0, 1, 1⟩
  let ts : List Token := ls.map fun l => ⟨l, l.value, start⟩
  have split : Splits ts ls [] := by
    have hts : ts.map Token.lexeme = ls := by simp [ts, Function.comp_def]
    exact hts ▸ splits_map ts
  have hreadf : level.read start scope ts = some (f, []) :=
    hf.complete ts [] split quiet_nil fun _ => quiet_nil
  have hreadg : level.read start scope ts = some (g, []) :=
    hg.complete ts [] split quiet_nil fun _ => quiet_nil
  rw [hreadf] at hreadg
  cases hreadg
  rfl

/-- All of some tokens are read as a formula exactly when their lexemes are a phrase for it. -/
theorem outcome_formula_eq_some_iff {f : Formula} :
    outcome (formula stop scope ts) = some (f, []) ↔
      Derives .formula scope .ending (ts.map Token.lexeme) f := by
  constructor
  · intro h
    obtain ⟨ls, next, split, derives, -⟩ := sound_level stop .formula scope ts f [] h
    rw [split.map_eq]
    exact derives.weaken
  · intro h
    exact h.complete ts [] (splits_map ts) quiet_nil fun _ => quiet_nil

theorem formulaOfTokens_eq_ok_iff_derives {stream : TokenStream} {f : Formula} :
    formulaOfTokens stream = .ok f ↔
      ∃ g, Derives .formula [] .ending (stream.tokens.map Token.lexeme) g ∧ f = g.closure := by
  simp only [formulaOfTokens_eq_ok_iff, outcome_formula_eq_some_iff]

/-- **The parser accepts exactly its grammar.**  Tokens are parsed to a formula if and only if the
grammar derives all of them, outside of every scope, and the formula is what they are derived for,
with its free sort names quantified; and a text is parsed as its tokens are. -/
theorem parses_iff_derives :
    (∀ (stream : TokenStream) (f : Formula), formulaOfTokens stream = .ok f ↔
      ∃ g, Derives .formula [] .ending (stream.tokens.map Token.lexeme) g ∧ f = g.closure) ∧
    ∀ (s : String) (f : Formula), parseFormula s = .ok f ↔
      ∃ stream, scan s = .ok stream ∧
        ∃ g, Derives .formula [] .ending (stream.tokens.map Token.lexeme) g ∧ f = g.closure := by
  constructor
  · intro stream f
    exact formulaOfTokens_eq_ok_iff_derives
  · intro s f
    simp only [parseFormula_eq_ok_iff, outcome_formula_eq_some_iff, exists_and_left]

end ChangeControl.Rule
