import ChangeControl.Proofs.Rule.Layout
import ChangeControl.Proofs.Rule.Scanning
import Mathlib.Data.List.Chain
/-!
Symbols and words.

A logical symbol may be written as a word, and the mark before the body of a quantifier as a colon
or as a period.  Spelling lexemes out writes all of them as words and colons.  The grammar does not
tell the two spellings apart, with one exception: the `not` of `not in` is the word.  What neither
the grammar nor a scan tells apart has no meaning of its own.

Main definitions:

* `Rule.spellOut` — lexemes, with words for symbols and colons for periods;
* `Rule.PlainNegations` — no symbol negates an `in` that stands right after it;
* `Rule.ParsesAlike` — two texts are parsed to the same formula, or both are refused.

Main results:

* `Derives.respell` — **lexemes with one spelling are phrases for one formula**;
* `Rule.parsesAlike_of_spelling` — **spelling never changes meaning**.
-/

set_option autoImplicit false

namespace ChangeControl.Rule

/-! ### Spelling out -/

/-- A lexeme with words for symbols and a colon for a period. -/
def Lexeme.spelled : Lexeme → List Lexeme
  | .symbol .notMem => [.name "not", .name "in"]
  | .symbol s => [.name s.word]
  | .punct '.' => [.punct ':']
  | l => [l]

/-- Lexemes with words for symbols and colons for periods. -/
def spellOut (ls : List Lexeme) : List Lexeme := ls.flatMap Lexeme.spelled

/-- A `not` right before an `in` is the word. -/
def PlainNegations (ls : List Lexeme) : Prop :=
  ls.IsChain fun l l' => l.Means .not → l'.Means .mem → l = .name "not"

instance (ls : List Lexeme) : Decidable (PlainNegations ls) :=
  inferInstanceAs (Decidable (List.IsChain _ ls))

variable {l k : Lexeme} {ls ks ks' : List Lexeme} {scope : List String} {s : Symbol} {w : String}

@[simp] theorem spellOut_nil : spellOut [] = [] := rfl

@[simp] theorem spellOut_cons : spellOut (l :: ls) = l.spelled ++ spellOut ls := rfl

@[simp] theorem spellOut_append : spellOut (ls ++ ks) = spellOut ls ++ spellOut ks :=
  List.flatMap_append

/-- Every lexeme is spelled out as one, but for the negated membership. -/
theorem spelled_cases (l : Lexeme) : l = .symbol .notMem ∨ ∃ k, l.spelled = [k] := by
  unfold Lexeme.spelled
  split <;> simp

/-- A connective is spelled out as its word. -/
theorem spelled_of_means (h : l.Means s) (hne : s ≠ .notMem) : l.spelled = [.name s.word] := by
  rcases h with rfl | rfl
  · cases s <;> first | rfl | exact absurd rfl hne
  · rfl

/-- What is spelled out as one lexeme is the lexeme, or the symbol for a word, or the period for the
colon. -/
theorem eq_of_spelled (h : l.spelled = [k]) :
    l = k ∨ (∃ s, s ≠ .notMem ∧ l = .symbol s ∧ k = .name s.word) ∨
      l = .punct '.' ∧ k = .punct ':' := by
  unfold Lexeme.spelled at h
  split at h
  · cases h
  · next s hne =>
    cases h
    exact .inr (.inl ⟨s, fun heq => hne (heq ▸ rfl), rfl, rfl⟩)
  · cases h
    exact .inr (.inr ⟨rfl, rfl⟩)
  · cases h
    exact .inl rfl

theorem means_of_spelled (h : l.spelled = [.name s.word]) : l.Means s := by
  rcases eq_of_spelled h with rfl | ⟨s', -, rfl, heq⟩ | ⟨-, heq⟩
  · exact .inr rfl
  · left
    cases s <;> cases s' <;> simp_all [Symbol.word]
  · cases heq

/-! ### Lexemes that are spelled in one way only -/

/-- Nothing but the lexeme itself is spelled out as the lexeme. -/
structure Lexeme.IsPlain (k : Lexeme) : Prop where
  spelled : k.spelled = [k]
  unique : ∀ l : Lexeme, l.spelled = [k] → l = k
  notNot : k ≠ .name "not"

theorem isPlain_name (h : w ∉ connectiveWords) : (Lexeme.name w).IsPlain := by
  refine ⟨rfl, fun l hl => ?_, ?_⟩
  · rcases eq_of_spelled hl with rfl | ⟨s, hs, rfl, heq⟩ | ⟨-, heq⟩
    · rfl
    · cases heq
      cases s <;> first | exact absurd rfl hs | exact absurd (by decide) h
    · cases heq
  · rintro ⟨⟩
    exact h (by decide)

theorem isPlain_of_notReserved (h : w ∉ reserved) : (Lexeme.name w).IsPlain := by
  have words : ∀ v ∈ connectiveWords, v ∈ reserved := by decide
  exact isPlain_name fun mem => h (words w mem)

theorem MayName.isPlain (h : MayName w) : (Lexeme.name w).IsPlain := by
  have words : ∀ v ∈ connectiveWords, v ∈ barredDomains := by decide
  exact isPlain_name fun mem => mayName_iff.1 h (words w mem)

theorem isPlain_literal (value : String) : (Lexeme.literal value).IsPlain := by
  refine ⟨rfl, fun l hl => ?_, by simp⟩
  rcases eq_of_spelled hl with rfl | ⟨s, -, -, heq⟩ | ⟨-, heq⟩
  · rfl
  · cases heq
  · cases heq

theorem isPlain_punct {mark : Char} (hperiod : mark ≠ '.') (hcolon : mark ≠ ':') :
    (Lexeme.punct mark).IsPlain := by
  refine ⟨?_, fun l hl => ?_, by simp⟩
  · unfold Lexeme.spelled
    split <;> simp_all
  · rcases eq_of_spelled hl with rfl | ⟨s, -, -, heq⟩ | ⟨-, heq⟩
    · rfl
    · cases heq
    · cases heq
      exact absurd rfl hcolon

theorem Denotes.isPlain {e : Term} (h : Denotes scope l e) : l.IsPlain := by
  cases h with
  | literal value => exact isPlain_literal value
  | name may => exact may.isPlain

/-! ### Where a spelling comes from -/

/-- The first lexeme of a spelling is that of one lexeme, or comes from a negated membership. -/
theorem exists_of_spellOut_eq_cons (h : spellOut ls = k :: ks) :
    (∃ l ls', ls = l :: ls' ∧ l.spelled = [k] ∧ spellOut ls' = ks) ∨
      ∃ ls', ls = .symbol .notMem :: ls' ∧ k = .name "not" ∧ ks = .name "in" :: spellOut ls' := by
  cases ls with
  | nil => cases h
  | cons l ls =>
    rcases spelled_cases l with rfl | ⟨k', hl⟩
    · obtain ⟨rfl, rfl⟩ := List.cons.inj h
      exact .inr ⟨ls, rfl, rfl, rfl⟩
    · rw [spellOut_cons, hl] at h
      obtain ⟨rfl, rfl⟩ := List.cons.inj h
      exact .inl ⟨l, ls, rfl, hl, rfl⟩

theorem exists_of_spellOut_cons (h : spellOut ls = k :: ks) (hk : k ≠ .name "not") :
    ∃ l ls', ls = l :: ls' ∧ l.spelled = [k] ∧ spellOut ls' = ks := by
  rcases exists_of_spellOut_eq_cons h with h | ⟨-, -, rfl, -⟩
  · exact h
  · exact absurd rfl hk

/-- A spelling is divided where its lexemes are, unless a negated membership is cut in two. -/
theorem exists_of_spellOut_append (h : spellOut ls = ks ++ ks')
    (uncut : ks'.head? ≠ some (.name "in")) :
    ∃ first second, ls = first ++ second ∧ spellOut first = ks ∧ spellOut second = ks' := by
  induction ls generalizing ks with
  | nil =>
    obtain ⟨rfl, rfl⟩ := List.nil_eq_append_iff.1 h
    exact ⟨[], [], rfl, rfl, rfl⟩
  | cons l ls ih =>
    cases ks with
    | nil => exact ⟨[], l :: ls, rfl, rfl, h⟩
    | cons k ks =>
      rcases exists_of_spellOut_eq_cons h with
        ⟨l, ls, heq, hl, hls⟩ | ⟨ls, heq, rfl, hls⟩
      · obtain ⟨rfl, rfl⟩ := List.cons.inj heq
        obtain ⟨first, second, rfl, rfl, rfl⟩ := ih hls
        exact ⟨_ :: first, second, rfl, by rw [spellOut_cons, hl]; rfl, rfl⟩
      · obtain ⟨rfl, rfl⟩ := List.cons.inj heq
        cases ks with
        | nil =>
          obtain rfl : ks' = .name "in" :: spellOut ls := hls
          exact absurd rfl uncut
        | cons k ks =>
          obtain ⟨rfl, later⟩ := List.cons.inj hls
          obtain ⟨first, second, rfl, rfl, rfl⟩ := ih later.symm
          exact ⟨_ :: first, second, rfl, rfl, rfl⟩

/-- A lexeme with the same spelling as a connective is the connective. -/
theorem exists_of_means (h : spellOut ls = spellOut (k :: ks)) (means : k.Means s)
    (hne : s ≠ .not ∧ s ≠ .notMem) :
    ∃ l ls', ls = l :: ls' ∧ l.Means s ∧ spellOut ls' = spellOut ks := by
  rw [spellOut_cons, spelled_of_means means hne.2] at h
  have hword : Lexeme.name s.word ≠ .name "not" := by
    cases s <;> first | exact absurd rfl hne.1 | decide
  obtain ⟨l, ls', rfl, hl, hls⟩ := exists_of_spellOut_cons h hword
  exact ⟨l, ls', rfl, means_of_spelled hl, hls⟩

theorem Lexeme.IsPlain.exists_of_spellOut (plain : k.IsPlain)
    (h : spellOut ls = spellOut (k :: ks)) :
    ∃ ls', ls = k :: ls' ∧ spellOut ls' = spellOut ks := by
  rw [spellOut_cons, plain.spelled] at h
  obtain ⟨l, ls', rfl, hl, hls⟩ := exists_of_spellOut_cons h plain.notNot
  exact ⟨ls', by rw [plain.unique l hl], hls⟩

theorem eq_nil_of_spellOut (h : spellOut ls = spellOut []) : ls = [] := by
  cases ls with
  | nil => rfl
  | cons l ls =>
    rcases spelled_cases l with rfl | ⟨k, hl⟩
    · cases h
    · simp [hl] at h

/-! ### Phrases with one spelling -/

theorem PlainNegations.left (h : PlainNegations (ls ++ ks)) : PlainNegations ls :=
  List.IsChain.left_of_append h

theorem PlainNegations.right (h : PlainNegations (ls ++ ks)) : PlainNegations ks :=
  List.IsChain.right_of_append h

theorem PlainNegations.tail (h : PlainNegations (l :: ls)) : PlainNegations ls :=
  List.IsChain.tail h

theorem Arguments.of_spellOut {es : List Term} (h : Arguments scope ks es)
    (spelling : spellOut ls = spellOut ks) : Arguments scope ls es := by
  induction h generalizing ls with
  | one denotes =>
    obtain ⟨rest, rfl, hrest⟩ := denotes.isPlain.exists_of_spellOut spelling
    rw [eq_nil_of_spellOut hrest]
    exact .one denotes
  | cons denotes _ ih =>
    have comma : (Lexeme.punct ',').IsPlain := isPlain_punct (by decide) (by decide)
    obtain ⟨rest, rfl, hrest⟩ := denotes.isPlain.exists_of_spellOut spelling
    obtain ⟨more, rfl, hmore⟩ := comma.exists_of_spellOut hrest
    exact .cons denotes (ih hmore)

/-- The marks of a negated membership, in either spelling. -/
theorem exists_notMem (h : spellOut ls = .name "not" :: .name "in" :: ks)
    (plain : PlainNegations ls) :
    ∃ marks ls', ls = marks ++ ls' ∧ Marks true marks ∧ spellOut ls' = ks := by
  rcases exists_of_spellOut_eq_cons h with ⟨l, rest, rfl, hl, hrest⟩ | ⟨rest, rfl, -, hrest⟩
  · obtain ⟨mem, more, rfl, hmem, hmore⟩ := exists_of_spellOut_cons hrest (by simp)
    have isNot : l.Means .not := means_of_spelled hl
    have isMem : mem.Means .mem := means_of_spelled hmem
    obtain rfl : l = .name "not" := (List.isChain_cons_cons.1 plain).1 isNot isMem
    exact ⟨[.name "not", mem], more, rfl, .not isMem, hmore⟩
  · exact ⟨[.symbol .notMem], rest, rfl, .notMem, (List.cons.inj hrest).2.symm⟩

theorem Marks.exists_of_spellOut {negated : Bool} {marks : List Lexeme} (h : Marks negated marks)
    (spelling : spellOut ls = spellOut (marks ++ ks)) (plain : PlainNegations ls) :
    ∃ marks' ls', ls = marks' ++ ls' ∧ Marks negated marks' ∧ spellOut ls' = spellOut ks := by
  cases h with
  | mem means =>
    obtain ⟨l, rest, rfl, isMem, hrest⟩ := exists_of_means spelling means (by decide)
    exact ⟨[l], rest, rfl, .mem isMem, hrest⟩
  | notMem => exact exists_notMem spelling plain
  | not means =>
    rw [List.cons_append, List.singleton_append, spellOut_cons, spellOut_cons,
      spelled_of_means means (by decide)] at spelling
    exact exists_notMem spelling plain

theorem Heads.exists_of_spellOut {hs : List Lexeme} {head : QuantifierHead} (h : Heads hs head)
    (spelling : spellOut ls = spellOut (hs ++ ks)) :
    ∃ hs' ls', ls = hs' ++ ls' ∧ Heads hs' head ∧ spellOut ls' = spellOut ks := by
  obtain @⟨universal, _, _, v, d, mark, quantifies, isName, means, may, isMark⟩ := h
  have hne : (if universal then Symbol.all else .any) ≠ .not ∧
      (if universal then Symbol.all else .any) ≠ .notMem := by
    cases universal <;> decide
  have hmark : spellOut (.punct mark :: ks) = .punct ':' :: spellOut ks := by
    rcases isMark with rfl | rfl <;> rfl
  obtain ⟨quantifier, rest₁, rfl, isQuantifier, h₁⟩ := exists_of_means spelling quantifies hne
  obtain ⟨rest₂, rfl, h₂⟩ := (isPlain_of_notReserved isName).exists_of_spellOut h₁
  obtain ⟨mem, rest₃, rfl, isMem, h₃⟩ := exists_of_means h₂ means (by decide)
  obtain ⟨rest₄, rfl, h₄⟩ := may.isPlain.exists_of_spellOut h₃
  obtain ⟨l, rest₅, rfl, hl, h₅⟩ := exists_of_spellOut_cons (h₄.trans hmark) (by simp)
  have heads : ∀ c, c = ':' ∨ c = '.' →
      Heads [quantifier, .name v, mem, .name d, .punct c] ⟨universal, v, domainName d⟩ :=
    fun c hc => .mk isQuantifier isName isMem may hc
  rcases eq_of_spelled hl with rfl | ⟨s, -, -, heq⟩ | ⟨rfl, -⟩
  · exact ⟨_, rest₅, rfl, heads ':' (.inl rfl), h₅⟩
  · cases heq
  · exact ⟨_, rest₅, rfl, heads '.' (.inr rfl), h₅⟩

/-- In every spelling, the lexemes are a phrase for the formula. -/
def Respells (level : Level) (scope : List String) (next : Next) (ks : List Lexeme) (f : Formula) :
    Prop :=
  ∀ {ls}, spellOut ls = spellOut ks → PlainNegations ls → Derives level scope next ls f

/-- Operands and their connectives, in another spelling. -/
theorem exists_operands {level : Level} {init : List Operand} (joins : s = .and ∨ s = .or)
    (means : ∀ p ∈ init, p.mark.Means s)
    (operands : ∀ p ∈ init, Respells level scope .connective p.lexemes p.formula)
    (spelling : spellOut ls = spellOut (init.flatMap Operand.written ++ ks))
    (plain : PlainNegations ls) :
    ∃ (init' : List Operand) (ls' : List Lexeme), ls = init'.flatMap Operand.written ++ ls' ∧
      spellOut ls' = spellOut ks ∧ init'.map Operand.formula = init.map Operand.formula ∧
        (∀ p ∈ init', p.mark.Means s) ∧
          ∀ p ∈ init', Derives level scope .connective p.lexemes p.formula := by
  have hne : s ≠ .not ∧ s ≠ .notMem := by rcases joins with rfl | rfl <;> decide
  induction init generalizing ls with
  | nil => exact ⟨[], ls, rfl, spelling, rfl, by simp, by simp⟩
  | cons p init ih =>
    obtain ⟨hp, means⟩ := List.forall_mem_cons.1 means
    obtain ⟨operand, operands⟩ := List.forall_mem_cons.1 operands
    rw [List.flatMap_cons, Operand.written, List.append_assoc, List.append_assoc,
      List.singleton_append, spellOut_append] at spelling
    have uncut : (spellOut (p.mark :: (init.flatMap Operand.written ++ ks))).head? ≠
        some (.name "in") := by
      rw [spellOut_cons, spelled_of_means hp hne.2]
      rcases joins with rfl | rfl <;> simp [Symbol.word]
    obtain ⟨first, second, rfl, hfirst, hsecond⟩ := exists_of_spellOut_append spelling uncut
    obtain ⟨mark, rest, rfl, hmark, hrest⟩ := exists_of_means hsecond hp hne
    obtain ⟨init', ls', rfl, hls, formulas, marks, derives⟩ :=
      ih means operands hrest plain.right.tail
    refine ⟨⟨first, p.formula, mark⟩ :: init', ls', ?_, hls, ?_, ?_, ?_⟩
    · simp [Operand.written]
    · rw [List.map_cons, List.map_cons, formulas]
    · exact List.forall_mem_cons.2 ⟨hmark, marks⟩
    · exact List.forall_mem_cons.2 ⟨operand hfirst plain.left, derives⟩

/-- A predicate and its arguments, in another spelling. -/
theorem exists_brackets {opener closer : Char} (brackets : Brackets opener closer)
    (isName : w ∉ reserved)
    (spelling : spellOut ls = spellOut (.name w :: .punct opener :: (ks ++ [.punct closer]))) :
    ∃ inside, ls = .name w :: .punct opener :: (inside ++ [.punct closer]) ∧
      spellOut inside = spellOut ks := by
  have isMark : (Lexeme.punct opener).IsPlain ∧ (Lexeme.punct closer).IsPlain := by
    cases brackets <;>
      exact ⟨isPlain_punct (by decide) (by decide), isPlain_punct (by decide) (by decide)⟩
  obtain ⟨rest₁, rfl, h₁⟩ := (isPlain_of_notReserved isName).exists_of_spellOut spelling
  obtain ⟨rest₂, rfl, h₂⟩ := isMark.1.exists_of_spellOut h₁
  rw [spellOut_append] at h₂
  obtain ⟨inside, rest₃, rfl, hinside, h₃⟩ :=
    exists_of_spellOut_append h₂ (by simp [isMark.2.spelled])
  obtain ⟨rest₄, rfl, h₄⟩ := isMark.2.exists_of_spellOut h₃
  rw [eq_nil_of_spellOut h₄]
  exact ⟨inside, rfl, hinside⟩

/-- **Lexemes with one spelling are phrases for one formula.** -/
theorem Derives.respell {level : Level} {next : Next} {f : Formula}
    (h : Derives level scope next ks f) : Respells level scope next ks f := by
  induction h with
  | ofQuantifier _ ih => exact fun spelling plain => .ofQuantifier (ih spelling plain)
  | ofDisjunction _ ih => exact fun spelling plain => .ofDisjunction (ih spelling plain)
  | @implies _ ks ks' arrow _ _ _ means _ ihl ihr =>
    intro ls spelling plain
    rw [spellOut_append] at spelling
    have uncut : (spellOut (arrow :: ks')).head? ≠ some (.name "in") := by
      rw [spellOut_cons, spelled_of_means means (by decide)]
      simp [Symbol.word]
    obtain ⟨first, second, rfl, hfirst, hsecond⟩ := exists_of_spellOut_append spelling uncut
    obtain ⟨arrow', rest, rfl, isArrow, hrest⟩ := exists_of_means hsecond means (by decide)
    exact .implies (ihl hfirst plain.left) isArrow (ihr hrest plain.right.tail)
  | quantified heads _ ih =>
    intro ls spelling plain
    obtain ⟨hs, body, rfl, heads, hbody⟩ := heads.exists_of_spellOut spelling
    exact .quantified heads (ih hbody plain.right)
  | disjunction means _ _ ihs ih =>
    intro ls spelling plain
    obtain ⟨init, last, rfl, hlast, formulas, marks, operands⟩ :=
      exists_operands (.inr rfl) means ihs spelling plain
    rw [← formulas]
    exact .disjunction marks operands (ih hlast plain.right)
  | conjunction means _ _ ihs ih =>
    intro ls spelling plain
    obtain ⟨init, last, rfl, hlast, formulas, marks, operands⟩ :=
      exists_operands (.inl rfl) means ihs spelling plain
    rw [← formulas]
    exact .conjunction marks operands (ih hlast plain.right)
  | not means operand ih =>
    intro ls spelling plain
    rw [spellOut_cons, spelled_of_means means (by decide)] at spelling
    rcases exists_of_spellOut_eq_cons spelling with ⟨l, rest, rfl, hl, hrest⟩ | ⟨rest, rfl, -, cut⟩
    · exact .not (means_of_spelled hl) (ih hrest plain.tail)
    · -- no operand begins with `in`
      obtain ⟨l, ks, rfl, opens⟩ := operand.exists_opens
      rcases exists_of_spellOut_eq_cons cut with ⟨l', ks', heq, hl, -⟩ | ⟨-, -, heq, -⟩
      · obtain ⟨rfl, -⟩ := List.cons.inj heq
        exact absurd (means_of_spelled hl) opens.2
      · simp at heq
  | ofAtom _ ih => exact fun spelling plain => .ofAtom (ih spelling plain)
  | parentheses _ ih =>
    intro ls spelling plain
    have isOpen : (Lexeme.punct '(').IsPlain := isPlain_punct (by decide) (by decide)
    have isClosed : (Lexeme.punct ')').IsPlain := isPlain_punct (by decide) (by decide)
    obtain ⟨rest, rfl, hrest⟩ := isOpen.exists_of_spellOut spelling
    rw [spellOut_append] at hrest
    obtain ⟨inside, rest, rfl, hinside, hclosed⟩ :=
      exists_of_spellOut_append hrest (by simp [isClosed.spelled])
    obtain ⟨rest, rfl, hend⟩ := isClosed.exists_of_spellOut hclosed
    rw [eq_nil_of_spellOut hend]
    exact .parentheses (ih hinside plain.tail.left)
  | truth value =>
    intro ls spelling plain
    have isPlain : (Lexeme.name (if value then "true" else "false")).IsPlain :=
      isPlain_name (by cases value <;> decide)
    obtain ⟨rest, rfl, hrest⟩ := isPlain.exists_of_spellOut spelling
    rw [eq_nil_of_spellOut hrest]
    exact .truth value
  | unparenthesized _ ih => exact fun spelling plain => .unparenthesized (ih spelling plain)
  | constant isName brackets =>
    intro ls spelling plain
    change spellOut ls = spellOut (_ :: _ :: ([] ++ [_])) at spelling
    obtain ⟨inside, rfl, hinside⟩ := exists_brackets brackets isName spelling
    rw [eq_nil_of_spellOut hinside]
    exact .constant isName brackets
  | application isName brackets arguments =>
    intro ls spelling plain
    obtain ⟨inside, rfl, hinside⟩ := exists_brackets brackets isName spelling
    exact .application isName brackets (arguments.of_spellOut hinside)
  | membership isElement denotes isMark may =>
    intro ls spelling plain
    obtain ⟨rest, rfl, hrest⟩ := denotes.isPlain.exists_of_spellOut spelling
    obtain ⟨marks, rest, rfl, isMark, hdomain⟩ := isMark.exists_of_spellOut hrest plain.tail
    obtain ⟨rest, rfl, hend⟩ := may.isPlain.exists_of_spellOut hdomain
    rw [eq_nil_of_spellOut hend]
    exact .membership isElement denotes isMark may

/-! ### Texts with one spelling -/

/-- Both texts are parsed to the same formula, or both are refused. -/
def ParsesAlike (s s' : String) : Prop :=
  (∃ f, parseFormula s = .ok f ∧ parseFormula s' = .ok f) ∨
    ∃ e e', parseFormula s = .error e ∧ parseFormula s' = .error e'

theorem parsesAlike_iff {s s' : String} :
    ParsesAlike s s' ↔ ∀ f, parseFormula s = .ok f ↔ parseFormula s' = .ok f := by
  unfold ParsesAlike
  cases parseFormula s <;> cases parseFormula s' <;> simp [eq_comm]

theorem parsesAlike_of_derives {s s' : String} {p p' : TokenStream} (hs : scan s = .ok p)
    (hs' : scan s' = .ok p')
    (h : ∀ g, Derives .formula [] .ending p.lexemes g ↔ Derives .formula [] .ending p'.lexemes g) :
    ParsesAlike s s' := by
  have scanned : lexemes? s.toList = some p.lexemes ∧ lexemes? s'.toList = some p'.lexemes := by
    simp [lexemes?_scan, hs, hs', Except.toOption]
  simp only [parsesAlike_iff, parseFormula_eq_ok_iff_lexemes, scanned.1, scanned.2,
    Option.some.injEq, exists_and_left, exists_eq_left', h, implies_true]

/-- What a lexeme is known by: its kind and its value. -/
def Lexeme.named (l : Lexeme) : String × String := (l.kind, l.value)

theorem named_injective : Function.Injective Lexeme.named := by
  intro l k h
  obtain ⟨hkind, hvalue⟩ := Prod.mk.inj h
  cases l with
  | symbol s =>
    cases k with
    | symbol s' => cases s <;> cases s' <;> first | rfl | exact absurd hvalue (by decide)
    | name | literal | punct | stray => exact absurd hkind (by simp [Lexeme.kind])
  | name | literal | punct | stray => cases k <;> simp_all [Lexeme.kind, Lexeme.value]

/-- A token of a text is what its own characters are scanned to. -/
theorem lexemes?_text {s : String} {p : TokenStream} {t : Token} (h : scan s = .ok p)
    (ht : t ∈ p.tokens) : lexemes? t.text.toList = some [t.lexeme] := by
  obtain ⟨k', passes, -⟩ := scanFrom_eq_ok_iff.1 h
  obtain ⟨ts, ts', heq⟩ := List.append_of_mem ht
  obtain ⟨k₁, c, body, rest, meets⟩ := (heq ▸ passes).exists_token
  obtain ⟨stop, alone⟩ := meets.scan_alone
  simp [lexemes?_scan, alone, Except.toOption, TokenStream.lexemes]

/-- Tokens that are written in the same way are the same. -/
theorem lexemes_eq_of_texts {s s' : String} {p p' : TokenStream} (hs : scan s = .ok p)
    (hs' : scan s' = .ok p') (h : p.tokens.map Token.text = p'.tokens.map Token.text) :
    p.lexemes = p'.lexemes := by
  have hmap : ∀ {s : String} {p : TokenStream}, scan s = .ok p →
      (p.tokens.map Token.text).map (fun text => lexemes? text.toList) =
        p.lexemes.map fun l => some [l] := by
    intro s p h
    rw [TokenStream.lexemes, List.map_map, List.map_map]
    exact List.map_congr_left fun t ht => lexemes?_text h ht
  have heq := (hmap hs).symm.trans ((congrArg _ h).trans (hmap hs'))
  refine (List.map_injective_iff.2 fun l k hlk => ?_) heq
  simpa using hlk

/-- **Spelling never changes meaning.**  Two texts whose tokens have the same kinds and values, once
symbols are rewritten to words and periods to colons, are parsed to the same formula, or both are
refused, if in both of them every `not` right before an `in` is the word.  And without any such
condition, it does not matter which spaces, line breaks and comments stand between the tokens. -/
theorem parsesAlike_of_spelling {s s' : String} {p p' : TokenStream} (hs : scan s = .ok p)
    (hs' : scan s' = .ok p') :
    ((spellOut p.lexemes).map Lexeme.named = (spellOut p'.lexemes).map Lexeme.named →
      PlainNegations p.lexemes → PlainNegations p'.lexemes → ParsesAlike s s') ∧
    (p.tokens.map Token.text = p'.tokens.map Token.text → ParsesAlike s s') := by
  constructor
  · intro same plain plain'
    have spelling : spellOut p.lexemes = spellOut p'.lexemes :=
      List.map_injective_iff.2 named_injective same
    refine parsesAlike_of_derives hs hs' fun g => ⟨fun derives => ?_, fun derives => ?_⟩
    · exact derives.respell spelling.symm plain'
    · exact derives.respell spelling plain
  · intro texts
    refine parsesAlike_of_derives hs hs' fun g => ?_
    rw [lexemes_eq_of_texts hs hs' texts]

/-- The same rule in symbols, in words, and in symbols over several lines. -/
theorem parsesAlike_symbols :
    ParsesAlike "∀ t ∈ tasks. t ∉ backlog ∧ ¬ late[t]"
        "forall t in tasks: t not in backlog and not late[t]" ∧
      ParsesAlike "∀ t ∈ tasks. t ∉ backlog ∧ ¬ late[t]"
        "∀ t∈tasks . # every task\n\tt ∉ backlog // still open\n∧ ¬late [ t ]" ∧
      (parseFormula "∀ t ∈ tasks. t ∉ backlog ∧ ¬ late[t]").toOption.isSome = true := by
  have symbols : (scan "∀ t ∈ tasks. t ∉ backlog ∧ ¬ late[t]").toOption.map
      (fun p => (p.lexemes, p.tokens.map Token.text)) =
        some ([.symbol .all, .name "t", .symbol .mem, .name "tasks", .punct '.', .name "t",
            .symbol .notMem, .name "backlog", .symbol .and, .symbol .not, .name "late",
            .punct '[', .name "t", .punct ']'],
          ["∀", "t", "∈", "tasks", ".", "t", "∉", "backlog", "∧", "¬", "late", "[", "t", "]"]) := by
    decide +kernel
  have words : (scan "forall t in tasks: t not in backlog and not late[t]").toOption.map
      TokenStream.lexemes =
        some [.name "forall", .name "t", .name "in", .name "tasks", .punct ':', .name "t",
          .name "not", .name "in", .name "backlog", .name "and", .name "not", .name "late",
          .punct '[', .name "t", .punct ']'] := by
    decide +kernel
  have lines : (scan
      "∀ t∈tasks . # every task\n\tt ∉ backlog // still open\n∧ ¬late [ t ]").toOption.map
        (fun p => p.tokens.map Token.text) =
      some ["∀", "t", "∈", "tasks", ".", "t", "∉", "backlog", "∧", "¬", "late", "[", "t", "]"] := by
    decide +kernel
  obtain ⟨p, hp, heq⟩ := Option.map_eq_some_iff.1 symbols
  obtain ⟨lexemes, texts⟩ := Prod.mk.inj heq
  obtain ⟨p', hp', lexemes'⟩ := Option.map_eq_some_iff.1 words
  obtain ⟨p'', hp'', texts''⟩ := Option.map_eq_some_iff.1 lines
  refine ⟨(parsesAlike_of_spelling (toOption_eq_some_iff.1 hp) (toOption_eq_some_iff.1 hp')).1
    ?_ ?_ ?_, ?_, by decide +kernel⟩
  · rw [lexemes, lexemes']
    rfl
  · rw [lexemes]
    decide
  · rw [lexemes']
    decide
  · exact (parsesAlike_of_spelling (toOption_eq_some_iff.1 hp) (toOption_eq_some_iff.1 hp'')).2
      (texts.trans texts''.symm)

/-- Where a symbol negates an `in`, the spelling matters. -/
example : (parseFormula "task ¬ in tasks").toOption = none ∧
    (parseFormula "task not in tasks").toOption.isSome = true := by
  decide +kernel

end ChangeControl.Rule
