import ChangeControl.Rule.Formula.Parser
/-!
What a parser returns.

A parser carries places for its errors and a proof that it uses tokens up.  Neither has a say in
what is read: the *outcome* of a reading is the value and the tokens that are left, or nothing.  For
every level of the grammar there is one equation between its outcome and those of the levels it
calls; what is proved about parsing is proved from these equations.

Main definitions:

* `Rule.outcome` — the value and the rest of a reading that succeeds;
* `Rule.skip?`, `Rule.firstWord?` — one token at the front;
* `Lexeme.term?` — the term that a token stands for;
* `Rule.termAt`, `Rule.markAt`, `Rule.headAt`, `Rule.simpleAtom` — the parts of the grammar without
  formulas.

Main results:

* `Rule.outcome_formula_cons`, `Rule.outcome_implication`, …, `Rule.outcome_atom_cons` — one
  equation for each level of the grammar;
* `Rule.formulaOfTokens_eq_ok_iff`, `Rule.parseFormula_eq_ok_iff` — when tokens are a formula, and
  when a text is one.
-/

set_option autoImplicit false

namespace ChangeControl.Rule

variable {α β : Type} {n : Nat} {stop opener : Position} {scope : List String}
  {ts rest : List Token}

/-! ### Outcomes -/

/-- What was read, and the tokens that are left. -/
def Parsed.pair (p : Parsed α n) : α × List Token := (p.value, p.rest)

/-- What was read and the tokens that are left, if the reading succeeds. -/
def outcome : Except SyntaxError (Parsed α n) → Option (α × List Token)
  | .ok p => some p.pair
  | .error _ => none

@[simp] theorem outcome_ok (p : Parsed α n) : outcome (.ok p) = some (p.value, p.rest) := rfl

@[simp] theorem outcome_error (e : SyntaxError) :
    outcome (.error e : Except SyntaxError (Parsed α n)) = none := rfl

@[simp] theorem outcome_failAt (cause : Cause) :
    outcome (failAt stop ts cause : Except SyntaxError (Parsed α n)) = none := rfl

/-- A reading uses tokens up. -/
theorem length_of_outcome {r : Except SyntaxError (Parsed α n)} {a : α}
    (h : outcome r = some (a, rest)) : rest.length < n := by
  cases r with
  | error e => cases h
  | ok p =>
    cases h
    exact p.shorter

theorem exists_trailing_eq_error (stop : Position) (ts : List Token) :
    ∃ e, ∀ {α : Type}, (trailing stop ts : Except SyntaxError α) = .error e := by
  cases ts with
  | nil => exact ⟨_, rfl⟩
  | cons t rest => cases h : t.lexeme <;> simp only [trailing, h] <;> exact ⟨_, rfl⟩

theorem toOption_eq_some_iff {ε α : Type} {e : Except ε α} {a : α} :
    e.toOption = some a ↔ e = .ok a := by
  cases e <;> simp [Except.toOption]

/-- The tokens after the first one, if that one has the property `p`. -/
def skip? (p : Token → Bool) : List Token → Option (List Token)
  | [] => none
  | t :: rest => if p t then some rest else none

theorem skip?_of_some {p : Token → Bool} {m : Parsed Unit ts.length} (h : next? p ts = some m) :
    skip? p ts = some m.rest := by
  cases ts with
  | nil => cases h
  | cons t rest =>
    rw [next?_cons] at h
    split at h
    · next ht =>
      cases h
      simp [skip?, ht]
    · cases h

theorem skip?_of_none {p : Token → Bool} (h : next? p ts = none) : skip? p ts = none := by
  cases ts with
  | nil => rfl
  | cons t rest =>
    rw [next?_cons] at h
    split at h
    · cases h
    · next ht => simp [skip?, ht]

theorem skip?_eq_some_iff {p : Token → Bool} :
    skip? p ts = some rest ↔ ∃ t, p t = true ∧ ts = t :: rest := by
  constructor
  · intro h
    cases ts with
    | nil => cases h
    | cons t ts =>
      rw [skip?] at h
      split at h
      · next ht =>
        cases h
        exact ⟨t, ht, rfl⟩
      · cases h
  · rintro ⟨t, ht, rfl⟩
    simp [skip?, ht]

theorem skip?_eq_none_iff {p : Token → Bool} :
    skip? p ts = none ↔ ∀ t ∈ ts.head?, p t = false := by
  cases ts with
  | nil => simp [skip?]
  | cons t ts => by_cases h : p t = true <;> simp [skip?, h]

/-- The word at the front and the tokens after it, unless it is one of `barred`. -/
def firstWord? (barred : List String) : List Token → Option (String × List Token)
  | [] => none
  | t :: rest =>
    match t.lexeme with
    | .name w => if barred.contains w then none else some (w, rest)
    | _ => none

theorem firstWord?_eq (barred : List String) :
    firstWord? barred ts = (nameOutside? barred ts).map Parsed.pair := by
  cases ts with
  | nil => rfl
  | cons t rest =>
    rw [firstWord?, nameOutside?, Token.word?]
    cases t.lexeme with
    | name w => by_cases h : w ∈ barred <;> simp [h, Parsed.pair]
    | literal | symbol | punct | stray => rfl

theorem firstWord?_eq_some_iff {barred : List String} {w : String} :
    firstWord? barred ts = some (w, rest) ↔
      ∃ t, t.lexeme = .name w ∧ w ∉ barred ∧ ts = t :: rest := by
  constructor
  · intro h
    cases ts with
    | nil => cases h
    | cons t ts =>
      cases hlexeme : t.lexeme with
      | name word =>
        by_cases hbarred : word ∈ barred
        · simp [firstWord?, hlexeme, hbarred] at h
        · obtain ⟨rfl, rfl⟩ : word = w ∧ ts = rest := by
            simpa [firstWord?, hlexeme, hbarred] using h
          exact ⟨t, hlexeme, hbarred, rfl⟩
      | literal | symbol | punct | stray => simp [firstWord?, hlexeme] at h
  · rintro ⟨t, hlexeme, free, rfl⟩
    simp [firstWord?, hlexeme, free]

theorem outcome_expectDomain :
    outcome (expectDomain stop ts) =
      (firstWord? barredDomains ts).map fun r => (domainName r.1, r.2) := by
  rw [expectDomain, firstWord?_eq]
  cases nameOutside? barredDomains ts <;> rfl

/-! ### Terms -/

/-- The term that a token stands for. -/
def Lexeme.term? (scope : List String) : Lexeme → Option Term
  | .literal value => some (.literal value)
  | .name w => if barredDomains.contains w then none else resolve? scope w
  | _ => none

/-- A term at the front of some tokens. -/
def termAt (scope : List String) : List Token → Option (Term × List Token)
  | [] => none
  | t :: rest => (t.lexeme.term? scope).map fun e => (e, rest)

theorem outcome_term : outcome (term stop scope ts) = termAt scope ts := by
  cases ts with
  | nil => rfl
  | cons t rest =>
    rw [term, termAt]
    cases t.lexeme with
    | literal value => rfl
    | name w =>
      by_cases h : w ∈ barredDomains
      · simp [Lexeme.term?, h]
      · cases hw : resolve? scope w <;> simp [Lexeme.term?, h, hw]
    | symbol | punct | stray => rfl

theorem outcome_arguments {predicate : String} {mark closer : Char} :
    outcome (arguments stop opener predicate mark closer scope ts) =
      (termAt scope ts).bind fun r =>
        match skip? (Token.isPunct ',') r.2 with
        | some after =>
          (outcome (arguments stop opener predicate mark closer scope after)).map
            fun q => (r.1 :: q.1, q.2)
        | none => (skip? (Token.isPunct closer) r.2).map fun after => ([r.1], after) := by
  rw [arguments, ← outcome_term]
  cases term stop scope ts with
  | error e => rfl
  | ok first =>
    simp only [outcome_ok, Option.bind_some]
    cases hcomma : next? (Token.isPunct ',') first.rest with
    | some comma =>
      simp only [skip?_of_some hcomma]
      cases arguments stop opener predicate mark closer scope comma.rest <;> rfl
    | none =>
      simp only [skip?_of_none hcomma]
      cases hclosed : next? (Token.isPunct closer) first.rest with
      | some closed => simp [skip?_of_some hclosed]
      | none => by_cases h : first.rest.isEmpty <;> simp [skip?_of_none hclosed, h]

theorem outcome_application {name : String} {marks : Char × Char} {open' : Token} :
    outcome (application stop scope name marks open' ts) =
      match skip? (Token.isPunct marks.2) ts with
      | some after => some (.pred name [], after)
      | none =>
        (outcome (arguments stop open'.start name marks.1 marks.2 scope ts)).map
          fun r => (.pred name r.1, r.2) := by
  rw [application]
  cases hclosed : next? (Token.isPunct marks.2) ts with
  | some closed => simp [skip?_of_some hclosed]
  | none =>
    simp only [skip?_of_none hclosed]
    cases arguments stop open'.start name marks.1 marks.2 scope ts <;> rfl

/-- Whether the membership mark at the front is negated, and the tokens after it. -/
def markAt : List Token → Option (Bool × List Token)
  | [] => none
  | t :: rest =>
    if t.means .mem then some (false, rest)
    else if t.isSymbol .notMem then some (true, rest)
    else if t.isWord "not" then (skip? (Token.means .mem) rest).map fun after => (true, after)
    else none

theorem membershipMark?_map_pair : (membershipMark? ts).map Parsed.pair = markAt ts := by
  cases ts with
  | nil => rfl
  | cons t rest =>
    rw [membershipMark?, markAt]
    split
    · rfl
    · split
      · rfl
      · split
        · cases h : next? (Token.means .mem) rest with
          | none => simp [skip?_of_none h]
          | some after => simp [skip?_of_some h, Parsed.pair]
        · rfl

theorem outcome_membership :
    outcome (membership stop scope ts) =
      (termAt scope ts).bind fun r => (markAt r.2).bind fun m =>
        (firstWord? barredDomains m.2).map
          fun d => (.member r.1 (domainName d.1) m.1, d.2) := by
  rw [membership, ← outcome_term]
  cases term stop scope ts with
  | error e => rfl
  | ok element =>
    simp only [outcome_ok, Option.bind_some, ← membershipMark?_map_pair]
    cases membershipMark? element.rest with
    | none => rfl
    | some mark =>
      simp only [Option.map_some, Option.bind_some, Parsed.pair]
      have hdomain := @outcome_expectDomain stop mark.rest
      cases hd : expectDomain stop mark.rest with
      | error e =>
        rw [hd, outcome_error, eq_comm, Option.map_eq_none_iff] at hdomain
        simp [hdomain]
      | ok domain =>
        rw [hd, outcome_ok, eq_comm, Option.map_eq_some_iff] at hdomain
        obtain ⟨d, hword, heq⟩ := hdomain
        simp only [Prod.mk.injEq] at heq
        simp [hword, heq]

/-! ### Quantifiers -/

/-- The head of a quantified formula, read from after its quantifier. -/
def headAt (universal : Bool) (ts : List Token) : Option (QuantifierHead × List Token) :=
  (firstWord? reserved ts).bind fun v =>
    (skip? (Token.means .mem) v.2).bind fun inside =>
      (firstWord? barredDomains inside).bind fun d =>
        (skip? (fun t => t.isPunct ':' || t.isPunct '.') d.2).bind fun after =>
          if cannotBegin after then none else some (⟨universal, v.1, domainName d.1⟩, after)

theorem outcome_quantifierHead {universal : Bool} {head : String} :
    outcome (quantifierHead stop universal head ts) = headAt universal ts := by
  rw [quantifierHead, headAt, firstWord?_eq]
  cases nameOutside? reserved ts with
  | none => rfl
  | some var =>
    simp only [Option.map_some, Option.bind_some, Parsed.pair]
    cases hin : next? (Token.means .mem) var.rest with
    | none => simp [skip?_of_none hin]
    | some inside =>
      simp only [skip?_of_some hin, Option.bind_some, firstWord?_eq]
      cases nameOutside? barredDomains inside.rest with
      | none => rfl
      | some domain =>
        simp only [Option.map_some, Option.bind_some, Parsed.pair]
        cases hmark : next? (fun t => t.isPunct ':' || t.isPunct '.') domain.rest with
        | none => simp [skip?_of_none hmark]
        | some mark =>
          by_cases h : cannotBegin mark.rest = true <;> simp [skip?_of_some hmark, h]

/-! ### The levels of the grammar -/

theorem outcome_quantified {universal : Bool} {head : String} :
    outcome (quantified stop scope universal head ts) =
      (headAt universal ts).bind fun h =>
        (outcome (formula stop (h.1.var :: scope) h.2)).map fun r => (h.1.bind r.1, r.2) := by
  rw [quantified, ← @outcome_quantifierHead stop _ _ head]
  cases quantifierHead stop universal head ts with
  | error e => rfl
  | ok h =>
    simp only [outcome_ok, Option.bind_some]
    cases formula stop (h.value.var :: scope) h.rest <;> rfl

theorem outcome_formula_cons {t : Token} :
    outcome (formula stop scope (t :: ts)) =
      match quantifier? t with
      | some universal => outcome (quantified stop scope universal t.text ts)
      | none => outcome (implication stop scope (t :: ts)) := by
  rw [formula]
  cases quantifier? t with
  | none => rfl
  | some universal =>
    simp only
    cases quantified stop scope universal t.text ts <;> rfl

theorem outcome_implication :
    outcome (implication stop scope ts) =
      (outcome (disjunction stop scope ts)).bind fun left =>
        match skip? (Token.means .implies) left.2 with
        | none => some left
        | some after =>
          (outcome (formula stop scope after)).map fun r => (.implies left.1 r.1, r.2) := by
  rw [implication]
  cases disjunction stop scope ts with
  | error e => rfl
  | ok left =>
    simp only [outcome_ok, Option.bind_some]
    cases harrow : next? (Token.means .implies) left.rest with
    | none => simp [skip?_of_none harrow]
    | some arrow =>
      simp only [skip?_of_some harrow]
      cases formula stop scope arrow.rest <;> rfl

theorem outcome_disjunction :
    outcome (disjunction stop scope ts) =
      (outcome (conjunction stop scope ts)).bind fun first =>
        (outcome (disjuncts stop scope first.2)).map fun r => (joined .or first.1 r.1, r.2) := by
  rw [disjunction]
  cases conjunction stop scope ts with
  | error e => rfl
  | ok first =>
    simp only [outcome_ok, Option.bind_some]
    cases disjuncts stop scope first.rest <;> rfl

theorem outcome_disjuncts :
    outcome (disjuncts stop scope ts) =
      match skip? (Token.means .or) ts with
      | none => some ([], ts)
      | some after =>
        (outcome (conjunction stop scope after)).bind fun first =>
          (outcome (disjuncts stop scope first.2)).map fun r => (first.1 :: r.1, r.2) := by
  rw [disjuncts]
  cases hmark : next? (Token.means .or) ts with
  | none => simp [skip?_of_none hmark]
  | some mark =>
    simp only [skip?_of_some hmark]
    cases conjunction stop scope mark.rest with
    | error e => rfl
    | ok first =>
      simp only [outcome_ok, Option.bind_some]
      cases disjuncts stop scope first.rest <;> rfl

theorem outcome_conjunction :
    outcome (conjunction stop scope ts) =
      (outcome (negation stop scope ts)).bind fun first =>
        (outcome (conjuncts stop scope first.2)).map fun r => (joined .and first.1 r.1, r.2) := by
  rw [conjunction]
  cases negation stop scope ts with
  | error e => rfl
  | ok first =>
    simp only [outcome_ok, Option.bind_some]
    cases conjuncts stop scope first.rest <;> rfl

theorem outcome_conjuncts :
    outcome (conjuncts stop scope ts) =
      match skip? (Token.means .and) ts with
      | none => some ([], ts)
      | some after =>
        (outcome (negation stop scope after)).bind fun first =>
          (outcome (conjuncts stop scope first.2)).map fun r => (first.1 :: r.1, r.2) := by
  rw [conjuncts]
  cases hmark : next? (Token.means .and) ts with
  | none => simp [skip?_of_none hmark]
  | some mark =>
    simp only [skip?_of_some hmark]
    cases negation stop scope mark.rest with
    | error e => rfl
    | ok first =>
      simp only [outcome_ok, Option.bind_some]
      cases conjuncts stop scope first.rest <;> rfl

theorem outcome_negation :
    outcome (negation stop scope ts) =
      match skip? (Token.means .not) ts with
      | none => outcome (atom stop scope ts)
      | some after =>
        (outcome (negation stop scope after)).map fun r => (.not r.1, r.2) := by
  rw [negation]
  cases hmark : next? (Token.means .not) ts with
  | none => simp only [skip?_of_none hmark]
  | some mark =>
    simp only [skip?_of_some hmark]
    cases negation stop scope mark.rest <;> rfl

/-- What an atom that starts with a token other than a parenthesis, a quantifier or a truth value
is. -/
def simpleAtom (stop : Position) (scope : List String) (t : Token) (ts : List Token) :
    Option (Formula × List Token) :=
  match t.lexeme with
  | .literal _ => outcome (membership stop scope (t :: ts))
  | .name w =>
    if w ∈ reserved then none
    else
      match ts with
      | [] => outcome (membership stop scope [t])
      | opener :: args =>
        match argumentMarks? opener with
        | some marks => outcome (application stop scope w marks opener args)
        | none => outcome (membership stop scope (t :: opener :: args))
  | _ => none

@[simp] theorem outcome_atom_nil : outcome (atom stop scope []) = none := by
  rw [atom, outcome_failAt]

theorem outcome_atom_cons {t : Token} :
    outcome (atom stop scope (t :: ts)) =
      if t.isPunct '(' then
        (outcome (formula stop scope ts)).bind fun inner =>
          (skip? (Token.isPunct ')') inner.2).map fun after => (inner.1, after)
      else
        match quantifier? t with
        | some universal => outcome (quantified stop scope universal t.text ts)
        | none =>
          if t.isWord "true" then some (.truth true, ts)
          else if t.isWord "false" then some (.truth false, ts)
          else simpleAtom stop scope t ts := by
  rw [atom]
  split
  · cases formula stop scope ts with
    | error e => rfl
    | ok inner =>
      simp only [outcome_ok, Option.bind_some]
      cases hclosed : next? (Token.isPunct ')') inner.rest with
      | some closed => simp [skip?_of_some hclosed]
      | none =>
        simp only [skip?_of_none hclosed]
        unfold unclosedParenthesis
        split
        · split <;> rfl
        · obtain ⟨e, he⟩ := exists_trailing_eq_error stop inner.rest
          rw [he]
          rfl
  · cases quantifier? t with
    | some universal =>
      simp only
      cases quantified stop scope universal t.text ts <;> rfl
    | none =>
      simp only
      split
      · rfl
      · split
        · rfl
        · rw [simpleAtom]
          cases t.lexeme with
          | literal value => rfl
          | name w =>
            by_cases h : w ∈ reserved
            · cases ts with
              | nil => simp [h]
              | cons opener args => cases hmarks : argumentMarks? opener <;> simp [h, hmarks]
            · cases ts with
              | nil => simp [h]
              | cons opener args =>
                cases hmarks : argumentMarks? opener with
                | none => simp [h, hmarks]
                | some marks =>
                  simp only [h, hmarks]
                  cases application stop scope w marks opener args <;> simp [h]
          | symbol | punct | stray => rfl

@[simp] theorem outcome_formula_nil : outcome (formula stop scope []) = none := by
  have hformula : formula stop scope [] = implication stop scope [] := by rw [formula.eq_def]
  rw [hformula, outcome_implication, outcome_disjunction, outcome_conjunction, outcome_negation]
  simp [skip?]

/-! ### Whole formulas -/

theorem outcome_closedFormula {context : Context} :
    outcome (closedFormula stop context ts) =
      (outcome (formula stop [] ts)).bind fun r =>
        if context.endsAt r.2 then some (r.1.closure, r.2) else none := by
  rw [closedFormula]
  cases formula stop [] ts with
  | error e => rfl
  | ok f =>
    obtain ⟨e, he⟩ := exists_trailing_eq_error stop f.rest
    by_cases h : context.endsAt f.rest = true <;> simp [h, he]

/-- Tokens are a formula exactly when the grammar reads all of them, and the formula is then the
closure of what is read. -/
theorem formulaOfTokens_eq_ok_iff {stream : TokenStream} {f : Formula} :
    formulaOfTokens stream = .ok f ↔
      ∃ g, outcome (formula stream.stop [] stream.tokens) = some (g, []) ∧ f = g.closure := by
  rw [formulaOfTokens, closedFormula]
  cases hread : formula stream.stop [] stream.tokens with
  | error e => simp
  | ok p =>
    cases hrest : p.rest with
    | nil => simp [Context.endsAt, hrest, eq_comm]
    | cons t rest =>
      -- what is left over is an error, whether or not the formula may end before it
      obtain ⟨e, he⟩ := exists_trailing_eq_error stream.stop (t :: rest)
      by_cases hends : Context.endsAt .top (t :: rest) = true <;> simp [hrest, hends, he]

/-- A text is a formula exactly when its tokens are. -/
theorem parseFormula_eq_ok_iff {s : String} {f : Formula} :
    parseFormula s = .ok f ↔
      ∃ stream g, scan s = .ok stream ∧
        outcome (formula stream.stop [] stream.tokens) = some (g, []) ∧ f = g.closure := by
  rw [parseFormula]
  cases scan s with
  | error e => simp
  | ok stream => simp [formulaOfTokens_eq_ok_iff]

end ChangeControl.Rule
