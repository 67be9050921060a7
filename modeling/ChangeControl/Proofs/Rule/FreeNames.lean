import ChangeControl.Proofs.Rule.Printing
/-!
Free sort names.

Which sort names occur free in a text can be told from its lexemes, without a parser: a name is in
the place of a term unless it follows a quantifier or `in` or stands before arguments; and since the
body of a quantifier goes on to the end of the parentheses around it, the variables in scope are
those of the quantifiers since the parentheses that are still open.  The names that are found in
this way are, in the same order, the free variables of the formula; and quantifiers for them,
written before the text, change nothing, because they are what a parser adds by itself.

Main definitions:

* `Rule.freeSorts`, `Rule.freeSortsOf` — the sort names that occur free in lexemes and in a text;
* `Rule.quantifiersText` — quantifiers for sort names, as they are written.

Main results:

* `Derives.freeSorts_eq` — **the names found in a phrase are the free variables of its formula**;
* `Derives.quantify` — a phrase with quantifiers for sort names before it is a phrase for the
  quantified formula;
* `Rule.parseFormula_quantifiersText` — **free sort names may as well be quantified in the text**.
-/

set_option autoImplicit false

namespace ChangeControl.Rule

/-! ### Names in the place of terms -/

/-- A name after this lexeme is the variable of a quantifier. -/
def Lexeme.quantifies : Lexeme → Bool
  | .symbol .all | .symbol .any | .name "forall" | .name "exists" => true
  | _ => false

/-- A name after this lexeme is the name of a domain. -/
def Lexeme.asksDomain : Lexeme → Bool
  | .symbol .mem | .symbol .notMem | .name "in" => true
  | _ => false

/-- A name before this lexeme is the name of a predicate. -/
def Lexeme.opensArguments : Lexeme → Bool
  | .punct '[' | .punct '(' => true
  | _ => false

/-- The name `w` between two lexemes, if it is a sort name in the place of a term and is not in
`scope`. -/
def freeSort (scope : List String) (before : Option Lexeme) (w : String) (after : Option Lexeme) :
    List String :=
  if before.any Lexeme.asksDomain || after.any Lexeme.opensArguments then []
  else if (domainOfSort? w).isSome && !scope.contains w then [w]
  else []

/-- The sort names that occur free in some lexemes, with repetitions.  `before` is the lexeme before
them, `scope` holds the variables in scope, and `outer` those that are in scope again after each of
the parentheses that are open. -/
def freeSorts : Option Lexeme → List (List String) → List String → List Lexeme → List String
  | _, _, _, [] => []
  | before, outer, scope, l :: ls =>
    match l with
    | .punct '(' => freeSorts (some l) (scope :: outer) scope ls
    | .punct ')' => freeSorts (some l) outer.tail (outer.headD []) ls
    | .name w =>
      if before.any Lexeme.quantifies then freeSorts (some l) outer (w :: scope) ls
      else freeSort scope before w ls.head? ++ freeSorts (some l) outer scope ls
    | .literal _ | .symbol _ | .punct _ | .stray _ => freeSorts (some l) outer scope ls

/-- The sort names that occur free in a text, in the order in which they first do. -/
def freeSortsOf (text : String) : List String :=
  ((lexemes? text.toList).map fun ls => (freeSorts none [] [] ls).eraseDups).getD []

section Scan

variable {before : Option Lexeme} {outer : List (List String)} {scope : List String}
  {ls : List Lexeme} {l : Lexeme} {w : String}

/-- Neither a variable nor a domain is named after the lexeme. -/
def Plain (before : Option Lexeme) : Prop :=
  before.any Lexeme.quantifies = false ∧ before.any Lexeme.asksDomain = false

theorem plain_none : Plain none := ⟨rfl, rfl⟩

theorem plain_punct (mark : Char) : Plain (some (.punct mark)) := ⟨rfl, rfl⟩

theorem plain_name (h : w ≠ "forall" ∧ w ≠ "exists" ∧ w ≠ "in") : Plain (some (.name w)) := by
  obtain ⟨hall, hany, hin⟩ := h
  constructor
  · simp only [Option.any_some]
    unfold Lexeme.quantifies
    split <;> simp_all
  · simp only [Option.any_some]
    unfold Lexeme.asksDomain
    split <;> simp_all

/-- The name of a domain or a predicate, or a variable. -/
theorem plain_of_notBarred (h : w ∉ barredDomains) : Plain (some (.name w)) := by
  have hne : ∀ word ∈ barredDomains, w ≠ word := by
    rintro word hword rfl
    exact h hword
  exact plain_name ⟨hne "forall" (by decide), hne "exists" (by decide), hne "in" (by decide)⟩

theorem freeSort_of_not_sort {after : Option Lexeme} (h : domainOfSort? w = none) :
    freeSort scope before w after = [] := by
  simp [freeSort, h]

theorem freeSort_of_asksDomain {after : Option Lexeme} (h : before.any Lexeme.asksDomain = true) :
    freeSort scope before w after = [] := by
  simp [freeSort, h]

theorem freeSort_of_opensArguments {after : Option Lexeme}
    (h : after.any Lexeme.opensArguments = true) : freeSort scope before w after = [] := by
  simp [freeSort, h]

theorem freeSorts_open :
    freeSorts before outer scope (.punct '(' :: ls) =
      freeSorts (some (.punct '(')) (scope :: outer) scope ls := rfl

theorem freeSorts_close {inner : List String} :
    freeSorts before (scope :: outer) inner (.punct ')' :: ls) =
      freeSorts (some (.punct ')')) outer scope ls := rfl

theorem freeSorts_punct {mark : Char} (hopen : mark ≠ '(') (hclose : mark ≠ ')') :
    freeSorts before outer scope (.punct mark :: ls) =
      freeSorts (some (.punct mark)) outer scope ls := by
  rw [freeSorts]
  · exact hopen
  · exact hclose

theorem freeSorts_name (h : before.any Lexeme.quantifies = false) :
    freeSorts before outer scope (.name w :: ls) =
      freeSort scope before w ls.head? ++ freeSorts (some (.name w)) outer scope ls := by
  rw [freeSorts]
  simp [h]

theorem freeSorts_variable (h : before.any Lexeme.quantifies = true) :
    freeSorts before outer scope (.name w :: ls) =
      freeSorts (some (.name w)) outer (w :: scope) ls := by
  rw [freeSorts]
  simp [h]

/-- A connective is passed over. -/
theorem freeSorts_of_means {s : Symbol} (means : l.Means s)
    (plain : before.any Lexeme.quantifies = false) :
    freeSorts before outer scope (l :: ls) = freeSorts (some l) outer scope ls := by
  rcases means with rfl | rfl
  · rfl
  · rw [freeSorts_name plain, freeSort_of_not_sort (by cases s <;> rfl), List.nil_append]

/-! ### What a scan finds in a phrase -/

theorem quantifies_of_means {universal : Bool} (h : l.Means (if universal then .all else .any)) :
    (some l).any Lexeme.quantifies = true := by
  cases universal <;> rcases h with rfl | rfl <;> rfl

/-- The name of a domain is passed over. -/
theorem freeSorts_mem {d : String} (means : l.Means .mem) (plain : Plain before) :
    freeSorts before outer scope (l :: .name d :: ls) =
      freeSorts (some (.name d)) outer scope ls := by
  have hl : (some l).any Lexeme.quantifies = false ∧ (some l).any Lexeme.asksDomain = true := by
    rcases means with rfl | rfl <;> exact ⟨rfl, rfl⟩
  rw [freeSorts_of_means means plain.1, freeSorts_name hl.1, freeSort_of_asksDomain hl.2,
    List.nil_append]

/-- The connectives that stand between formulas. -/
theorem plain_of_means {s : Symbol} (h : l.Means s)
    (joins : s = .and ∨ s = .or ∨ s = .not ∨ s = .implies) : Plain (some l) := by
  rcases joins with rfl | rfl | rfl | rfl <;> rcases h with rfl | rfl <;> exact ⟨rfl, rfl⟩

/-- The lexemes after a term do not make a predicate of it. -/
def AfterTerm (ls : List Lexeme) : Prop := ls.head?.any Lexeme.opensArguments = false

/-- The free variables among some terms. -/
def freeTerms (scope : List String) (es : List Term) : List String :=
  (Formula.termVariables es).filter fun v => !scope.contains v

theorem freeTerms_cons {e : Term} {es : List Term} :
    freeTerms scope (e :: es) = freeTerms scope [e] ++ freeTerms scope es := by
  simp only [freeTerms, Formula.termVariables]
  rw [← List.filter_append, ← List.filterMap_append, List.singleton_append]

theorem Resolves.freeSort_eq {e : Term} {after : Option Lexeme} (h : Resolves scope w e)
    (plain : Plain before) (hafter : after.any Lexeme.opensArguments = false) :
    freeSort scope before w after = freeTerms scope [e] := by
  cases h with
  | bound mem => simp [freeSort, freeTerms, Formula.termVariables, mem]
  | domain free known =>
    have notSort : (domainOfSort? w).isSome = false :=
      Bool.eq_false_iff.2 fun sort => (not_domain_of_sort sort).1 known
    simp [freeSort, freeTerms, Formula.termVariables, notSort]
  | state free unknown capital =>
    have notSort : (domainOfSort? w).isSome = false :=
      Bool.eq_false_iff.2 fun sort => by simp [(not_domain_of_sort sort).2] at capital
    simp [freeSort, freeTerms, Formula.termVariables, notSort]
  | sort free unknown small sort =>
    simp [freeSort, freeTerms, Formula.termVariables, plain.2, hafter, free, sort]

theorem Denotes.freeSorts_cons {e : Term} (h : Denotes scope l e) (plain : Plain before)
    (after : AfterTerm ls) :
    freeSorts before outer scope (l :: ls) =
      freeTerms scope [e] ++ freeSorts (some l) outer scope ls := by
  cases h with
  | literal => rfl
  | name may resolves => rw [freeSorts_name plain.1, resolves.freeSort_eq plain after]

theorem Denotes.plain {e : Term} (h : Denotes scope l e) : Plain (some l) := by
  cases h with
  | literal => exact ⟨rfl, rfl⟩
  | name may => exact plain_of_notBarred (mayName_iff.1 may)

/-- However the lexemes are gone on with, `names` are found in them; and before a connective, the
scope is what it was. -/
def Finds (scope : List String) (next : Next) (ls : List Lexeme) (names : List String) : Prop :=
  ∀ before outer rest, Plain before → ∃ last scope', Plain last ∧
    (next = .connective → scope' = scope) ∧
      freeSorts before outer scope (ls ++ rest) = names ++ freeSorts last outer scope' rest

variable {next : Next} {ls' : List Lexeme} {names names' : List String}

theorem Finds.append (h : Finds scope .connective ls names) (h' : Finds scope next ls' names') :
    Finds scope next (ls ++ ls') (names ++ names') := by
  intro before outer rest plain
  obtain ⟨last, scope', hlast, same, heq⟩ := h before outer (ls' ++ rest) plain
  obtain rfl := same rfl
  obtain ⟨last', scope', hlast', same', heq'⟩ := h' last outer rest hlast
  refine ⟨last', scope', hlast', same', ?_⟩
  rw [List.append_assoc, heq, heq', List.append_assoc]

/-- A connective between formulas. -/
theorem finds_mark {s : Symbol} (means : l.Means s)
    (joins : s = .and ∨ s = .or ∨ s = .not ∨ s = .implies) : Finds scope .connective [l] [] := by
  intro before outer rest plain
  exact ⟨some l, scope, plain_of_means means joins, fun _ => rfl, freeSorts_of_means means plain.1⟩

theorem Finds.parentheses (h : Finds scope .ending ls names) :
    Finds scope next (.punct '(' :: (ls ++ [.punct ')'])) names := by
  intro before outer rest plain
  obtain ⟨last, inner, -, -, heq⟩ :=
    h (some (.punct '(')) (scope :: outer) (.punct ')' :: rest) (plain_punct '(')
  refine ⟨some (.punct ')'), scope, plain_punct ')', fun _ => rfl, ?_⟩
  rw [List.cons_append, List.append_assoc, List.singleton_append, freeSorts_open, heq,
    freeSorts_close]

/-- The body of a quantifier is scanned with its variable in scope. -/
theorem Heads.finds {hs : List Lexeme} {head : QuantifierHead} (heads : Heads hs head)
    (body : Finds (head.var :: scope) .ending ls names) : Finds scope .ending (hs ++ ls) names := by
  obtain @⟨universal, quantifier, mem, v, d, mark, quantifies, isName, means, may, isMark⟩ := heads
  intro before outer rest plain
  obtain ⟨last, inner, hlast, -, heq⟩ :=
    body (some (.punct mark)) outer rest (plain_punct mark)
  refine ⟨last, inner, hlast, by simp, ?_⟩
  have hv : Plain (some (.name v)) :=
    plain_of_notBarred fun barred => isName (mem_reserved_iff.2 (.inl barred))
  have hmark : mark ≠ '(' ∧ mark ≠ ')' := by rcases isMark with rfl | rfl <;> decide
  simp only [List.cons_append, List.nil_append]
  rw [freeSorts_of_means quantifies plain.1, freeSorts_variable (quantifies_of_means quantifies),
    freeSorts_mem means hv, freeSorts_punct hmark.1 hmark.2, heq]

theorem Marks.freeSorts_append {negated : Bool} {marks : List Lexeme} {d : String}
    (h : Marks negated marks) (plain : Plain before) :
    freeSorts before outer scope (marks ++ .name d :: ls) =
      freeSorts (some (.name d)) outer scope ls := by
  cases h with
  | mem means => exact freeSorts_mem means plain
  | notMem => rfl
  | not means =>
    have isNot : (Lexeme.name "not").Means .not := .inr rfl
    rw [List.cons_append, List.singleton_append, freeSorts_of_means isNot plain.1,
      freeSorts_mem means (plain_of_means isNot (by simp))]

theorem Marks.afterTerm {negated : Bool} {marks : List Lexeme} (h : Marks negated marks) :
    AfterTerm (marks ++ ls) := by
  cases h with
  | mem means => rcases means with rfl | rfl <;> rfl
  | notMem | not => rfl

theorem Arguments.freeSorts_append {es : List Term} (h : Arguments scope ls es)
    (plain : Plain before) (after : AfterTerm ls') :
    ∃ last, Plain last ∧ freeSorts before outer scope (ls ++ ls') =
      freeTerms scope es ++ freeSorts last outer scope ls' := by
  induction h generalizing before with
  | one denotes => exact ⟨_, denotes.plain, denotes.freeSorts_cons plain after⟩
  | cons denotes _ ih =>
    obtain ⟨last, hlast, heq⟩ := ih (plain_punct ',')
    refine ⟨last, hlast, ?_⟩
    rw [List.cons_append, List.cons_append, denotes.freeSorts_cons plain (by rfl),
      freeSorts_punct (by decide) (by decide), heq, ← List.append_assoc, ← freeTerms_cons]

/-- Between the brackets of a predicate the scope is what it is around them. -/
theorem Brackets.freeSorts_eq {opener closer : Char} (h : Brackets opener closer)
    (outer : List (List String)) (scope : List String) :
    ∃ inner, (∀ before ls, freeSorts before outer scope (.punct opener :: ls) =
        freeSorts (some (.punct opener)) inner scope ls) ∧
      ∀ before ls, freeSorts before inner scope (.punct closer :: ls) =
        freeSorts (some (.punct closer)) outer scope ls := by
  cases h with
  | square => exact ⟨outer, fun _ _ => rfl, fun _ _ => rfl⟩
  | round => exact ⟨scope :: outer, fun _ _ => rfl, fun _ _ => rfl⟩

/-- A predicate: its name, and then its arguments. -/
theorem Brackets.finds {opener closer : Char} (h : Brackets opener closer)
    (inside : ∀ before outer rest, Plain before → AfterTerm rest →
      ∃ last, Plain last ∧
        freeSorts before outer scope (ls ++ rest) = names ++ freeSorts last outer scope rest) :
    Finds scope next (.name w :: .punct opener :: (ls ++ [.punct closer])) names := by
  intro before outer rest plain
  obtain ⟨inner, hopen, hclose⟩ := h.freeSorts_eq outer scope
  have marks : (some (Lexeme.punct opener)).any Lexeme.opensArguments = true ∧
      (some (Lexeme.punct closer)).any Lexeme.opensArguments = false := by
    cases h <;> exact ⟨rfl, rfl⟩
  obtain ⟨last, hlast, heq⟩ :=
    inside (some (.punct opener)) inner (.punct closer :: rest) (plain_punct opener) marks.2
  refine ⟨some (.punct closer), scope, plain_punct closer, fun _ => rfl, ?_⟩
  rw [List.cons_append, List.cons_append, List.append_assoc, List.singleton_append,
    freeSorts_name plain.1, List.head?_cons, freeSort_of_opensArguments marks.1, List.nil_append,
    hopen, heq, hclose]

/-- Operands and their connectives, one after another. -/
theorem finds_operands {init : List Operand} {f : Formula} {s : Symbol}
    (means : ∀ p ∈ init, p.mark.Means s) (joins : s = .and ∨ s = .or)
    (operands : ∀ p ∈ init, Finds scope .connective p.lexemes (p.formula.freeVariables scope))
    (last : Finds scope next ls (f.freeVariables scope)) :
    Finds scope next (init.flatMap Operand.written ++ ls)
      (Formula.freeVariablesOf scope (init.map Operand.formula ++ [f])) := by
  induction init with
  | nil => simpa [Formula.freeVariablesOf] using last
  | cons p init ih =>
    obtain ⟨hp, means⟩ := List.forall_mem_cons.1 means
    obtain ⟨operand, operands⟩ := List.forall_mem_cons.1 operands
    have mark : Finds scope .connective [p.mark] [] :=
      finds_mark hp (by rcases joins with rfl | rfl <;> simp)
    have := (operand.append mark).append (ih means operands)
    simpa [Operand.written, Formula.freeVariablesOf] using this

theorem freeVariables_collapse {join : List Formula → Formula} (fs : List Formula)
    (hjoin : ∀ fs, (join fs).freeVariables scope = Formula.freeVariablesOf scope fs) :
    (collapse join fs).freeVariables scope = Formula.freeVariablesOf scope fs := by
  match fs with
  | [] => exact hjoin []
  | [f] => simp [collapse, Formula.freeVariablesOf]
  | f :: g :: fs => exact hjoin _

/-- **The names that a scan finds in a phrase are the free variables of its formula.** -/
theorem Derives.finds {level : Level} {f : Formula} (h : Derives level scope next ls f) :
    Finds scope next ls (f.freeVariables scope) := by
  induction h with
  | ofQuantifier _ ih | ofDisjunction _ ih | ofAtom _ ih | unparenthesized _ ih => exact ih
  | implies _ means _ ihl ihr =>
    have := ihl.append ((finds_mark means (by simp)).append ihr)
    simpa [Formula.freeVariables] using this
  | @quantified scope _ _ head f heads _ ih =>
    have hbind : (head.bind f).freeVariables scope = f.freeVariables (head.var :: scope) := by
      unfold QuantifierHead.bind
      split <;> rfl
    rw [hbind]
    exact heads.finds ih
  | disjunction means _ _ ihs ih =>
    rw [freeVariables_collapse _ fun _ => rfl]
    exact finds_operands means (.inr rfl) ihs ih
  | conjunction means _ _ ihs ih =>
    rw [freeVariables_collapse _ fun _ => rfl]
    exact finds_operands means (.inl rfl) ihs ih
  | not means _ ih => exact (finds_mark means (by simp)).append ih
  | parentheses _ ih => exact ih.parentheses
  | truth value =>
    intro before outer rest plain
    have plain' : Plain (some (.name (if value then "true" else "false"))) :=
      plain_name (by cases value <;> decide)
    refine ⟨_, _, plain', fun _ => rfl, ?_⟩
    rw [List.singleton_append, freeSorts_name plain.1,
      freeSort_of_not_sort (by cases value <;> rfl)]
    rfl
  | constant isName brackets =>
    change Finds _ _ (_ :: _ :: ([] ++ [_])) _
    exact brackets.finds fun before outer rest plain _ => ⟨before, plain, rfl⟩
  | application isName brackets arguments =>
    exact brackets.finds fun before outer rest plain after => arguments.freeSorts_append plain after
  | @membership scope _ l element marks negated d _ denotes isMark may =>
    intro before outer rest plain
    refine ⟨some (.name d), scope, plain_of_notBarred (mayName_iff.1 may), fun _ => rfl, ?_⟩
    rw [List.cons_append, List.append_assoc, List.singleton_append,
      denotes.freeSorts_cons plain isMark.afterTerm, isMark.freeSorts_append denotes.plain]
    rfl

/-- The sort names that occur free in a whole phrase are the free variables of its formula. -/
theorem Derives.freeSorts_eq {g : Formula} (h : Derives .formula [] .ending ls g) :
    freeSorts none [] [] ls = g.freeVariables [] := by
  obtain ⟨last, scope', -, -, heq⟩ := h.finds none [] [] plain_none
  rwa [List.append_nil, freeSorts, List.append_nil] at heq

end Scan

/-! ### Quantifiers in front of a phrase -/

/-- The quantifier for a sort name, as it is written. -/
def quantifierText (v : String) : String := "forall " ++ v ++ " in " ++ sortDomain v ++ ": "

/-- Quantifiers for sort names, as they are written. -/
def quantifiersText (sorts : List String) : String := String.join (sorts.map quantifierText)

/-- The lexemes of the quantifier for a sort name. -/
def quantifierLexemes (v : String) : List Lexeme :=
  [.name "forall", .name v, .name "in", .name (sortDomain v), .punct ':']

section Quantifiers

variable {scope scope' : List String} {ls : List Lexeme}

/-- A name means the same in a scope that has more sort names. -/
theorem Resolves.widen {w : String} {e : Term} (h : Resolves scope w e)
    (wide : Widens scope scope') : Resolves scope' w e := by
  have notSort : w ∉ scope → (domainOfSort? w).isSome ≠ true → w ∉ scope' :=
    fun free notSort mem => (wide.sorts w mem).elim free notSort
  cases h with
  | bound mem => exact .bound (wide.within mem)
  | domain free known =>
    exact .domain (notSort free fun sort => (not_domain_of_sort sort).1 known) known
  | state free unknown capital =>
    refine .state (notSort free fun sort => ?_) unknown capital
    simp [(not_domain_of_sort sort).2] at capital
  | sort free unknown small sort =>
    -- the variable of a sort is the same variable, whether or not it is bound
    by_cases mem : w ∈ scope'
    · exact .bound mem
    · exact .sort mem unknown small sort

theorem Denotes.widen {l : Lexeme} {e : Term} (h : Denotes scope l e) (wide : Widens scope scope') :
    Denotes scope' l e := by
  cases h with
  | literal value => exact .literal value
  | name may resolves => exact .name may (resolves.widen wide)

theorem Arguments.widen {es : List Term} (h : Arguments scope ls es) (wide : Widens scope scope') :
    Arguments scope' ls es := by
  induction h with
  | one denotes => exact .one (denotes.widen wide)
  | cons denotes _ ih => exact .cons (denotes.widen wide) ih

/-- **A phrase is a phrase for the same formula in a scope that has more sort names.** -/
theorem Derives.widen {level : Level} {next : Next} {f : Formula}
    (h : Derives level scope next ls f) (wide : Widens scope scope') :
    Derives level scope' next ls f := by
  induction h generalizing scope' with
  | ofQuantifier _ ih => exact .ofQuantifier (ih wide)
  | ofDisjunction _ ih => exact .ofDisjunction (ih wide)
  | implies _ means _ ihl ihr => exact .implies (ihl wide) means (ihr wide)
  | quantified heads _ ih => exact .quantified heads (ih (wide.cons _))
  | disjunction means _ _ ihs ih =>
    exact .disjunction means (fun p hp => ihs p hp wide) (ih wide)
  | conjunction means _ _ ihs ih =>
    exact .conjunction means (fun p hp => ihs p hp wide) (ih wide)
  | not means _ ih => exact .not means (ih wide)
  | ofAtom _ ih => exact .ofAtom (ih wide)
  | parentheses _ ih => exact .parentheses (ih wide)
  | truth value => exact .truth value
  | unparenthesized _ ih => exact .unparenthesized (ih wide)
  | constant isName brackets => exact .constant isName brackets
  | application isName brackets arguments =>
    exact .application isName brackets (arguments.widen wide)
  | membership isElement denotes isMark may =>
    exact .membership isElement (denotes.widen wide) isMark may

/-- The quantifier for a sort name is a head. -/
theorem heads_quantifierLexemes {v : String} (sort : (domainOfSort? v).isSome = true) :
    Heads (quantifierLexemes v) ⟨true, v, sortDomain v⟩ := by
  have isDomain : IsDomainName anyWord (sortDomain v) := isDomainName_of_mem (sortDomain_mem sort)
  have heads : Heads (quantifierLexemes v) ⟨true, v, domainName (sortDomain v)⟩ :=
    .mk (.inr rfl) (not_reserved_of_sort sort) (.inr rfl) (mayName_iff.2 isDomain.notBarred)
      (.inl rfl)
  rwa [isDomain.settled] at heads

/-- **A phrase with quantifiers for sort names before it is one for the quantified formula.** -/
theorem Derives.quantify {f : Formula} {sorts : List String}
    (h : Derives .formula scope .ending ls f) (are : ∀ v ∈ sorts, (domainOfSort? v).isSome = true) :
    Derives .formula scope .ending (sorts.flatMap quantifierLexemes ++ ls) (f.quantify sorts) := by
  induction sorts generalizing scope with
  | nil => exact h
  | cons v sorts ih =>
    obtain ⟨sort, are⟩ := List.forall_mem_cons.1 are
    have body : Derives .formula (v :: scope) .ending (sorts.flatMap quantifierLexemes ++ ls)
        (f.quantify sorts) := ih (h.widen (widens_sort scope sort)) are
    rw [List.flatMap_cons, List.append_assoc, Formula.quantify_cons f sorts sort]
    exact .ofQuantifier (.quantified (heads_quantifierLexemes sort) body)

theorem lexemes?_quantifierText {v : String} (sort : (domainOfSort? v).isSome = true)
    (cs : List Char) :
    lexemes? ((quantifierText v).toList ++ cs) =
      (lexemes? cs).map (quantifierLexemes v ++ ·) := by
  have isIdentifier : IsIdentifier v := by
    rcases sort_cases sort with rfl | rfl | rfl <;> decide
  have hscans := scans_quantified "forall" (by decide) isIdentifier
    (isDomainName_of_mem (sortDomain_mem sort)) scans_nil (' ' :: cs) (stopsName_cons (by decide))
  rw [lexemes?_space cs (by decide)] at hscans
  simpa [quantifierText, quantifierLexemes] using hscans

theorem lexemes?_quantifiersText {sorts : List String}
    (are : ∀ v ∈ sorts, (domainOfSort? v).isSome = true) (t : String) :
    lexemes? (quantifiersText sorts ++ t).toList =
      (lexemes? t.toList).map (sorts.flatMap quantifierLexemes ++ ·) := by
  induction sorts with
  | nil => simp [quantifiersText]
  | cons v sorts ih =>
    obtain ⟨sort, are⟩ := List.forall_mem_cons.1 are
    have hjoin : (quantifiersText (v :: sorts) ++ t).toList =
        (quantifierText v).toList ++ (quantifiersText sorts ++ t).toList := by
      simp [quantifiersText]
    rw [hjoin, lexemes?_quantifierText sort, ih are, Option.map_map]
    simp [Function.comp_def]

/-- **Free sort names may as well be quantified in the text.**  Quantifiers for the sort names that
occur free in a text, in the order in which they first do, are what the parser puts around its
formula: with them before it, the text is parsed to the same formula. -/
theorem parseFormula_quantifiersText {t : String} {f : Formula} (h : parseFormula t = .ok f) :
    parseFormula (quantifiersText (freeSortsOf t) ++ t) = .ok f := by
  obtain ⟨ls, g, hscan, derives, rfl⟩ := parseFormula_eq_ok_iff_lexemes.1 h
  have hfree : freeSortsOf t = (g.freeVariables []).eraseDups := by
    rw [freeSortsOf, hscan, Option.map_some, Option.getD_some, derives.freeSorts_eq]
  have wf : g.WellFormed anyWord [] := derives.wellFormed (fun _ _ => trivial) (by simp)
  have are : ∀ v ∈ freeSortsOf t, (domainOfSort? v).isSome = true := by
    intro v hv
    rw [hfree, List.mem_eraseDups] at hv
    exact (wf.sort_of_free (List.Subset.refl []) hv).2
  have hscan' : lexemes? (quantifiersText (freeSortsOf t) ++ t).toList =
      some ((freeSortsOf t).flatMap quantifierLexemes ++ ls) := by
    rw [lexemes?_quantifiersText are, hscan, Option.map_some]
  have derives' : Derives .formula [] .ending ((freeSortsOf t).flatMap quantifierLexemes ++ ls)
      g.closure := by
    rw [Formula.closure, ← hfree]
    exact derives.quantify are
  -- no sort name is left for the parser to quantify
  have settled : g.closure = g.closure.closure := (Formula.closure_eq_self wf.closure.free).symm
  exact parseFormula_eq_ok_iff_lexemes.2 ⟨_, g.closure, hscan', derives', settled⟩

/-- A variable in parentheses hides a sort name, which is free after them; the name of a domain is
no variable. -/
theorem parseFormula_quantifiersText_commit :
    ∃ f, parseFormula "(exists task in tasks: task in task) or made[commit, task] # of task" =
        .ok f ∧
      quantifiersText (freeSortsOf
        "(exists task in tasks: task in task) or made[commit, task] # of task") =
          "forall commit in commits: forall task in tasks: " ∧
      parseFormula ("forall commit in commits: forall task in tasks: " ++
        "(exists task in tasks: task in task) or made[commit, task] # of task") = .ok f := by
  have parsed :
      parseFormula "(exists task in tasks: task in task) or made[commit, task] # of task" =
        .ok (.all "commit" "commits" (.all "task" "tasks"
          (.or [.any "task" "tasks" (.member (.var "task") "task" false),
            .pred "made" [.var "commit", .var "task"]]))) :=
    toOption_eq_some_iff.1 (by decide +kernel)
  have htext : quantifiersText (freeSortsOf
      "(exists task in tasks: task in task) or made[commit, task] # of task") =
        "forall commit in commits: forall task in tasks: " := by decide +kernel
  have hagain := parseFormula_quantifiersText parsed
  rw [htext] at hagain
  exact ⟨_, parsed, htext, hagain⟩

end Quantifiers

end ChangeControl.Rule
