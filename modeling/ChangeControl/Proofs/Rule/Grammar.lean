import ChangeControl.Proofs.Rule.Outcome
/-!
The grammar of formulas, as rules of derivation.

A derivation says which lexemes are a phrase of which level, and which formula the phrase is.  It
knows neither how a parser looks for the phrase nor where errors are.  The body of a quantifier goes
on as far as it can, so that nothing can follow it but a closing parenthesis or the end: what
follows a phrase is a part of the derivation, and a quantifier is derived only where its formula
ends.

Main definitions:

* `Lexeme.Means` — a connective as its symbol or as its word;
* `Lexeme.Opens` — the lexemes that phrases can begin with;
* `Rule.Resolves`, `Rule.Denotes` — what a name and what a lexeme stand for in a scope;
* `Rule.Arguments`, `Rule.Heads`, `Rule.Marks` — the parts of phrases that hold no formula;
* `Rule.Derives` — the grammar.

Main results:

* `Rule.resolve?_eq_some_iff`, `Rule.term?_eq_some_iff` — a name and a lexeme have one meaning;
* `Derives.weaken` — what can stand before a connective can stand at the end;
* `Derives.exists_opens` — every phrase begins with a lexeme that opens phrases.
-/

set_option autoImplicit false

namespace ChangeControl.Rule

variable {scope : List String} {w : String} {l : Lexeme} {e : Term}

/-! ### Words -/

/-- The lexeme is written for the connective: as its symbol, or as its word. -/
def Lexeme.Means (s : Symbol) (l : Lexeme) : Prop := l = .symbol s ∨ l = .name s.word

instance (s : Symbol) (l : Lexeme) : Decidable (l.Means s) := inferInstanceAs (Decidable (_ ∨ _))

/-- A lexeme is written for one connective at most. -/
theorem Lexeme.Means.unique {s s' : Symbol} (h : l.Means s) (h' : l.Means s') : s = s' := by
  rcases h with rfl | rfl
  · simpa [Lexeme.Means] using h'
  · cases s <;> cases s' <;> simp [Lexeme.Means, Symbol.word] at h' ⊢

/-- Phrases can begin with the lexeme: it is neither `in` nor a mark of punctuation, unless it is an
opening parenthesis. -/
def Lexeme.Opens (l : Lexeme) : Prop := (∀ mark, l = .punct mark → mark = '(') ∧ ¬ l.Means .mem

theorem opens_of_means {s : Symbol} (h : l.Means s) (hne : s ≠ .mem) : l.Opens := by
  refine ⟨fun mark hmark => ?_, fun h' => hne (h.unique h')⟩
  rcases h with rfl | rfl <;> cases hmark

theorem opens_of_name (hne : w ≠ "in") : (Lexeme.name w).Opens := by
  simp [Lexeme.Opens, Lexeme.Means, Symbol.word, hne]

theorem Token.means_iff {s : Symbol} {t : Token} : t.means s = true ↔ t.lexeme.Means s := by
  simp [Token.means, Token.isSymbol, Token.isWord, Lexeme.Means]

theorem Token.isPunct_iff {mark : Char} {t : Token} :
    t.isPunct mark = true ↔ t.lexeme = .punct mark := by
  simp [Token.isPunct]

/-- The word can be the name of a domain or an argument: it is not reserved, or it is `states`. -/
def MayName (w : String) : Prop := w ∉ reserved ∨ w = "states"

theorem mem_reserved_iff : w ∈ reserved ↔ w ∈ barredDomains ∨ w = "states" := by
  rw [barredDomains, List.mem_filter]
  by_cases h : w = "states"
  · subst h
    decide
  · simp [h]

theorem mayName_iff : MayName w ↔ w ∉ barredDomains := by
  have hstates : "states" ∉ barredDomains := by decide
  constructor
  · rintro (free | rfl) barred
    · exact free (mem_reserved_iff.2 (.inl barred))
    · exact hstates barred
  · intro free
    by_cases h : w = "states"
    · exact .inr h
    · exact .inl fun mem => (mem_reserved_iff.1 mem).elim free h

/-! ### Terms -/

/-- What a name in the place of a term stands for: a variable in scope; else a domain, in any
mixture of cases; else a state, if it starts with a capital; else the variable of a sort. -/
inductive Resolves (scope : List String) (w : String) : Term → Prop
  | bound (mem : w ∈ scope) : Resolves scope w (.var w)
  | domain (free : w ∉ scope) (known : w.toLower ∈ domainNames) :
      Resolves scope w (.domain w.toLower)
  | state (free : w ∉ scope) (unknown : w.toLower ∉ domainNames) (capital : startsUpper w = true) :
      Resolves scope w (.state w)
  | sort (free : w ∉ scope) (unknown : w.toLower ∉ domainNames) (small : startsUpper w = false)
      (sort : (domainOfSort? w).isSome = true) : Resolves scope w (.var w)

theorem resolve?_eq_some_iff : resolve? scope w = some e ↔ Resolves scope w e := by
  constructor
  · intro h
    unfold resolve? at h
    split at h
    · next bound =>
      cases h
      exact .bound (List.contains_iff_mem.1 bound)
    · next free =>
      have free : w ∉ scope := fun mem => free (List.contains_iff_mem.2 mem)
      split at h
      · next known =>
        cases h
        exact .domain free (List.contains_iff_mem.1 known)
      · next unknown =>
        have unknown : w.toLower ∉ domainNames :=
          fun mem => unknown (List.contains_iff_mem.2 mem)
        split at h
        · next capital =>
          cases h
          exact .state free unknown capital
        · next small =>
          split at h
          · next sort =>
            cases h
            exact .sort free unknown (Bool.eq_false_iff.2 small) sort
          · cases h
  · intro h
    cases h with
    | bound mem => simp [resolve?, mem]
    | domain free known => simp [resolve?, free, known]
    | state free unknown capital => simp [resolve?, free, unknown, capital]
    | sort free unknown small sort => simp [resolve?, free, unknown, small, sort]

/-- What a lexeme in the place of a term stands for. -/
inductive Denotes (scope : List String) : Lexeme → Term → Prop
  | literal (value : String) : Denotes scope (.literal value) (.literal value)
  | name {w : String} {e : Term} (may : MayName w) (resolves : Resolves scope w e) :
      Denotes scope (.name w) e

theorem term?_eq_some_iff : l.term? scope = some e ↔ Denotes scope l e := by
  constructor
  · intro h
    cases l with
    | literal value =>
      cases h
      exact .literal value
    | name w =>
      rw [Lexeme.term?] at h
      split at h
      · cases h
      · next free =>
        have may : MayName w := mayName_iff.2 fun mem => free (List.contains_iff_mem.2 mem)
        exact .name may (resolve?_eq_some_iff.1 h)
    | symbol | punct | stray => cases h
  · intro h
    cases h with
    | literal => rfl
    | name may resolves =>
      simp [Lexeme.term?, mayName_iff.1 may, resolve?_eq_some_iff.2 resolves]

/-- The marks around arguments. -/
inductive Brackets : Char → Char → Prop
  | square : Brackets '[' ']'
  | round : Brackets '(' ')'

/-- Terms with commas between them. -/
inductive Arguments (scope : List String) : List Lexeme → List Term → Prop
  | one {l : Lexeme} {e : Term} (h : Denotes scope l e) : Arguments scope [l] [e]
  | cons {l : Lexeme} {e : Term} {ls : List Lexeme} {es : List Term} (h : Denotes scope l e)
      (more : Arguments scope ls es) : Arguments scope (l :: .punct ',' :: ls) (e :: es)

theorem Arguments.exists_denotes {ls : List Lexeme} {es : List Term} (h : Arguments scope ls es) :
    ∃ l ls' e, ls = l :: ls' ∧ Denotes scope l e := by
  cases h with
  | one h | cons h => exact ⟨_, _, _, rfl, h⟩

/-- The lexemes that ask for membership, and whether the test is negated.  The `not` of `not in` is
the word. -/
inductive Marks : Bool → List Lexeme → Prop
  | mem {l : Lexeme} (h : l.Means .mem) : Marks false [l]
  | notMem : Marks true [.symbol .notMem]
  | not {l : Lexeme} (h : l.Means .mem) : Marks true [.name "not", l]

/-- A quantifier, a variable, `in`, a domain, and the mark before the body. -/
inductive Heads : List Lexeme → QuantifierHead → Prop
  | mk {universal : Bool} {quantifier mem : Lexeme} {v d : String} {mark : Char}
      (quantifies : quantifier.Means (if universal then .all else .any)) (isName : v ∉ reserved)
      (means : mem.Means .mem) (may : MayName d) (isMark : mark = ':' ∨ mark = '.') :
      Heads [quantifier, .name v, mem, .name d, .punct mark] ⟨universal, v, domainName d⟩

/-! ### Phrases -/

/-- The levels of the grammar. -/
inductive Level
  | formula | quantifier | disjunction | conjunction | negation | atom
deriving DecidableEq

/-- What follows a phrase. -/
inductive Next
  /-- A closing parenthesis, or the end. -/
  | ending
  /-- A connective, and something that it joins to the phrase. -/
  | connective
deriving DecidableEq

/-- An operand that is not the last one, with the connective after it. -/
structure Operand where
  lexemes : List Lexeme
  formula : Formula
  mark : Lexeme

/-- How an operand and its connective are written. -/
def Operand.written (p : Operand) : List Lexeme := p.lexemes ++ [p.mark]

/-- Operands under `join`; one operand stands for itself. -/
def collapse (join : List Formula → Formula) : List Formula → Formula
  | [f] => f
  | fs => join fs

theorem joined_eq_collapse (join : List Formula → Formula) (f : Formula) (fs : List Formula) :
    joined join f fs = collapse join (f :: fs) := by
  cases fs <;> rfl

/-- **The grammar of formulas**: `Derives level scope next ls f` says that before `next` the lexemes
`ls` are a phrase of the level `level` for the formula `f`, with the variables of `scope` bound. -/
inductive Derives : Level → List String → Next → List Lexeme → Formula → Prop
  -- formula = quantifier | disjunction ['implies' formula]
  | ofQuantifier {scope : List String} {ls : List Lexeme} {f : Formula}
      (h : Derives .quantifier scope .ending ls f) : Derives .formula scope .ending ls f
  | ofDisjunction {scope : List String} {ls : List Lexeme} {f : Formula}
      (h : Derives .disjunction scope .ending ls f) : Derives .formula scope .ending ls f
  | implies {scope : List String} {ls ls' : List Lexeme} {arrow : Lexeme} {f g : Formula}
      (left : Derives .disjunction scope .connective ls f) (means : arrow.Means .implies)
      (right : Derives .formula scope .ending ls' g) :
      Derives .formula scope .ending (ls ++ arrow :: ls') (.implies f g)
  -- quantifier = (forall | exists) VAR 'in' DOMAIN (':' | '.') formula
  | quantified {scope : List String} {hs ls : List Lexeme} {head : QuantifierHead} {f : Formula}
      (heads : Heads hs head) (body : Derives .formula (head.var :: scope) .ending ls f) :
      Derives .quantifier scope .ending (hs ++ ls) (head.bind f)
  -- disjunction = conjunction ('or' conjunction)*
  | disjunction {scope : List String} {next : Next} {init : List Operand} {ls : List Lexeme}
      {f : Formula} (means : ∀ p ∈ init, p.mark.Means .or)
      (operands : ∀ p ∈ init, Derives .conjunction scope .connective p.lexemes p.formula)
      (last : Derives .conjunction scope next ls f) :
      Derives .disjunction scope next (init.flatMap Operand.written ++ ls)
        (collapse .or (init.map Operand.formula ++ [f]))
  -- conjunction = negation ('and' negation)*
  | conjunction {scope : List String} {next : Next} {init : List Operand} {ls : List Lexeme}
      {f : Formula} (means : ∀ p ∈ init, p.mark.Means .and)
      (operands : ∀ p ∈ init, Derives .negation scope .connective p.lexemes p.formula)
      (last : Derives .negation scope next ls f) :
      Derives .conjunction scope next (init.flatMap Operand.written ++ ls)
        (collapse .and (init.map Operand.formula ++ [f]))
  -- negation = 'not' negation | atom
  | not {scope : List String} {next : Next} {mark : Lexeme} {ls : List Lexeme} {f : Formula}
      (means : mark.Means .not) (operand : Derives .negation scope next ls f) :
      Derives .negation scope next (mark :: ls) (.not f)
  | ofAtom {scope : List String} {next : Next} {ls : List Lexeme} {f : Formula}
      (h : Derives .atom scope next ls f) : Derives .negation scope next ls f
  -- atom = '(' formula ')' | true | false | quantifier | NAME '[' terms? ']' | NAME '(' terms? ')'
  --      | (STRING | NAME) ('in' | notin | 'not' 'in') DOMAIN
  | parentheses {scope : List String} {next : Next} {ls : List Lexeme} {f : Formula}
      (inner : Derives .formula scope .ending ls f) :
      Derives .atom scope next (.punct '(' :: (ls ++ [.punct ')'])) f
  | truth {scope : List String} {next : Next} (value : Bool) :
      Derives .atom scope next [.name (if value then "true" else "false")] (.truth value)
  | unparenthesized {scope : List String} {ls : List Lexeme} {f : Formula}
      (h : Derives .quantifier scope .ending ls f) : Derives .atom scope .ending ls f
  | constant {scope : List String} {next : Next} {name : String} {opener closer : Char}
      (isName : name ∉ reserved) (brackets : Brackets opener closer) :
      Derives .atom scope next [.name name, .punct opener, .punct closer] (.pred name [])
  | application {scope : List String} {next : Next} {name : String} {opener closer : Char}
      {ls : List Lexeme} {args : List Term} (isName : name ∉ reserved)
      (brackets : Brackets opener closer) (arguments : Arguments scope ls args) :
      Derives .atom scope next (.name name :: .punct opener :: (ls ++ [.punct closer]))
        (.pred name args)
  | membership {scope : List String} {next : Next} {l : Lexeme} {element : Term}
      {marks : List Lexeme} {negated : Bool} {d : String} (isElement : ∀ w ∈ reserved, l ≠ .name w)
      (denotes : Denotes scope l element) (isMark : Marks negated marks) (may : MayName d) :
      Derives .atom scope next (l :: (marks ++ [.name d])) (.member element (domainName d) negated)

namespace Derives

variable {level : Level} {next : Next} {ls : List Lexeme} {f : Formula}

/-- What can stand before a connective can stand at the end. -/
theorem weaken (h : Derives level scope next ls f) : Derives level scope .ending ls f := by
  induction h with
  | ofQuantifier h => exact ofQuantifier h
  | ofDisjunction h => exact ofDisjunction h
  | implies left means right => exact implies left means right
  | quantified heads body => exact quantified heads body
  | disjunction means operands last _ ih => exact disjunction means operands ih
  | conjunction means operands last _ ih => exact conjunction means operands ih
  | not means operand ih => exact not means ih
  | ofAtom h ih => exact ofAtom ih
  | parentheses inner => exact parentheses inner
  | truth value => exact truth value
  | unparenthesized h => exact unparenthesized h
  | constant isName brackets => exact constant isName brackets
  | application isName brackets arguments => exact application isName brackets arguments
  | membership isElement denotes isMark may => exact membership isElement denotes isMark may

/-- Every phrase begins with a lexeme that opens phrases. -/
theorem exists_opens (h : Derives level scope next ls f) : ∃ l ls', ls = l :: ls' ∧ l.Opens := by
  induction h with
  | ofQuantifier _ ih | ofDisjunction _ ih | ofAtom _ ih | unparenthesized _ ih => exact ih
  | implies _ _ _ ih _ =>
    obtain ⟨l, ls', rfl, opens⟩ := ih
    exact ⟨l, _, rfl, opens⟩
  | quantified heads =>
    obtain @⟨universal, _, _, _, _, _, quantifies⟩ := heads
    refine ⟨_, _, rfl, opens_of_means quantifies ?_⟩
    cases universal <;> decide
  | @disjunction _ _ init _ _ _ _ _ ihs ih | @conjunction _ _ init _ _ _ _ _ ihs ih =>
    cases init with
    | nil => exact ih
    | cons p init =>
      obtain ⟨l, ls', heq, opens⟩ := ihs p List.mem_cons_self
      rw [List.flatMap_cons, Operand.written, heq]
      exact ⟨l, _, rfl, opens⟩
  | not means => exact ⟨_, _, rfl, opens_of_means means (by decide)⟩
  | parentheses => exact ⟨_, _, rfl, by simp [Lexeme.Opens, Lexeme.Means]⟩
  | truth value => exact ⟨_, _, rfl, opens_of_name (by cases value <;> decide)⟩
  | constant isName | application isName =>
    refine ⟨_, _, rfl, opens_of_name ?_⟩
    rintro rfl
    exact isName (by decide)
  | membership isElement denotes =>
    refine ⟨_, _, rfl, ?_⟩
    cases denotes with
    | literal => simp [Lexeme.Opens, Lexeme.Means]
    | name =>
      refine opens_of_name ?_
      rintro rfl
      exact isElement "in" (by decide) rfl

/-- No atom begins with a negation. -/
theorem exists_not_means (h : Derives .atom scope next ls f) :
    ∃ l ls', ls = l :: ls' ∧ ¬ l.Means .not := by
  have notName : ∀ w ∉ reserved, ¬ (Lexeme.name w).Means .not := by
    rintro w free (h | h)
    · cases h
    · cases h
      exact free (by decide)
  cases h with
  | parentheses => exact ⟨_, _, rfl, by simp [Lexeme.Means]⟩
  | truth value => exact ⟨_, _, rfl, by cases value <;> simp [Lexeme.Means, Symbol.word]⟩
  | unparenthesized h =>
    cases h with
    | quantified heads body =>
      cases heads with
      | @mk universal _ _ _ _ _ quantifies =>
        refine ⟨_, _, rfl, ?_⟩
        cases universal <;> rcases quantifies with rfl | rfl <;> simp [Lexeme.Means, Symbol.word]
  | constant isName | application isName => exact ⟨_, _, rfl, notName _ isName⟩
  | membership isElement denotes =>
    refine ⟨_, _, rfl, ?_⟩
    cases denotes with
    | literal => simp [Lexeme.Means]
    | name => exact notName _ fun mem => isElement _ mem rfl

end Derives

end ChangeControl.Rule
