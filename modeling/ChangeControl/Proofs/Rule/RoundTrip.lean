import ChangeControl.Proofs.Rule.Printing
import ChangeControl.Proofs.Rule.Rereading
/-!
What becomes of a formula that is printed and parsed.

A formula that comes from a text is printed and parsed to itself, with three exceptions.  A literal
with a line feed in it is written as it is, and no literal goes on over the end of a line.  The
domain of states cannot be the element of a membership test, because its name is reserved.  And a
domain whose name is that of a variable in scope is parsed to the variable; what is printed of it
is the same text all the same.

Main definitions:

* `Formula.testsStates` — some membership test has the domain of states as its element;
* `Formula.Unshadowed` — no domain has the name of a variable in scope;
* `Formula.shadowed` — the formula with a variable for every domain that is not so.

Main results:

* `Formula.reread?_eq` — what a formula reread is;
* `Rule.parseFormula_text_eq_ok_iff` — what the text of a formula is parsed to;
* `Rule.parseFormula_print` — **when a formula is printed and parsed to itself**.
-/

set_option autoImplicit false

namespace ChangeControl.Rule

variable {Word : String → Prop} {scope bound : List String}

/-! ### Shadowed domains -/

theorem map_eq_self_iff {α : Type} {f : α → α} {l : List α} :
    l.map f = l ↔ ∀ a ∈ l, f a = a := by
  induction l with
  | nil => simp
  | cons a l ih => simp [ih]

namespace Term

/-- The term that is written in the same way and that a parser makes in the scope: a variable of the
scope comes before a domain of its name. -/
def shadowed (scope : List String) : Term → Term
  | domain d => if d ∈ scope then .var d else .domain d
  | e => e

/-- The term is no domain with the name of a variable in scope. -/
def Unshadowed (scope : List String) : Term → Prop
  | domain d => d ∉ scope
  | _ => True

theorem shadowed_eq_self_iff {e : Term} : e.shadowed scope = e ↔ e.Unshadowed scope := by
  cases e with
  | domain d => by_cases h : d ∈ scope <;> simp [shadowed, Unshadowed, h]
  | var | state | literal | bare => simp [shadowed, Unshadowed]

@[simp] theorem text_shadowed (e : Term) : (e.shadowed scope).text = e.text := by
  cases e with
  | domain d => by_cases h : d ∈ scope <;> simp [shadowed, text, h]
  | var | state | literal | bare => rfl

/-- A token of a well-formed term stands for the term, or for a variable before it. -/
theorem WellFormed.term?_lexeme {e : Term} (wf : e.WellFormed Word scope) :
    e.lexeme.term? scope = some (e.shadowed scope) := by
  have free : ∀ w, e.lexeme = .name w → w ∉ barredDomains := fun w => wf.notBarred
  cases e with
  | var v =>
    have free := free v rfl
    rcases wf.2.2 with bound | sort
    · simp [lexeme, Lexeme.term?, free, resolve?, bound, shadowed]
    · have plain := not_domain_of_sort sort
      simp [lexeme, Lexeme.term?, free, resolve?, plain, sort, shadowed]
  | domain d =>
    have lower : ∀ d ∈ domainNames, d.toLower = d := by decide +kernel
    have known : d ∈ domainNames := wf
    by_cases bound : d ∈ scope <;>
      simp [lexeme, Lexeme.term?, free d rfl, resolve?, bound, lower d known, known, shadowed]
  | state s =>
    obtain ⟨-, -, unbound, unknown, upper⟩ := wf
    simp [lexeme, Lexeme.term?, free s rfl, resolve?, unbound, unknown, upper, shadowed]
  | literal value => rfl
  | bare => exact absurd wf id

end Term

namespace Formula

mutual

/-- Some membership test has the domain of states as its element. -/
def testsStates : Formula → Bool
  | truth _ | pred .. | bare _ => false
  | member element _ _ => element == .domain "states"
  | not f | all _ _ f | any _ _ f => f.testsStates
  | and fs | or fs => anyTestsStates fs
  | implies f g => f.testsStates || g.testsStates

/-- One of some formulas tests the domain of states. -/
def anyTestsStates : List Formula → Bool
  | [] => false
  | f :: fs => f.testsStates || anyTestsStates fs

end

mutual

/-- No domain among the terms of the formula has the name of a variable in whose scope it stands. -/
def Unshadowed : Formula → List String → Prop
  | truth _, _ | bare _, _ => True
  | pred _ args, scope => ∀ e ∈ args, e.Unshadowed scope
  | member element _ _, scope => element.Unshadowed scope
  | not f, scope => f.Unshadowed scope
  | and fs, scope | or fs, scope => AllUnshadowed fs scope
  | implies f g, scope => f.Unshadowed scope ∧ g.Unshadowed scope
  | all v _ f, scope | any v _ f, scope => f.Unshadowed (v :: scope)

/-- No domain of several formulas has the name of a variable in whose scope it stands. -/
def AllUnshadowed : List Formula → List String → Prop
  | [], _ => True
  | f :: fs, scope => f.Unshadowed scope ∧ AllUnshadowed fs scope

end

mutual

/-- The formula that is written in the same way and that a parser makes in the scope. -/
def shadowed : Formula → List String → Formula
  | truth value, _ => .truth value
  | pred name args, scope => .pred name (args.map (Term.shadowed scope))
  | member element d negated, scope => .member (element.shadowed scope) d negated
  | not f, scope => .not (f.shadowed scope)
  | and fs, scope => .and (allShadowed fs scope)
  | or fs, scope => .or (allShadowed fs scope)
  | implies f g, scope => .implies (f.shadowed scope) (g.shadowed scope)
  | all v d f, scope => .all v d (f.shadowed (v :: scope))
  | any v d f, scope => .any v d (f.shadowed (v :: scope))
  | bare text, _ => .bare text

/-- The formulas that are written in the same way and that a parser makes in the scope. -/
def allShadowed : List Formula → List String → List Formula
  | [], _ => []
  | f :: fs, scope => f.shadowed scope :: allShadowed fs scope

end

theorem allShadowed_eq_map {fs : List Formula} :
    allShadowed fs scope = fs.map fun f => f.shadowed scope := by
  induction fs with
  | nil => rfl
  | cons f fs ih => rw [allShadowed, ih, List.map_cons]

theorem allUnshadowed_iff {fs : List Formula} :
    AllUnshadowed fs scope ↔ ∀ f ∈ fs, f.Unshadowed scope := by
  induction fs with
  | nil => simp [AllUnshadowed]
  | cons f fs ih => rw [AllUnshadowed, ih, List.forall_mem_cons]

theorem shadowed_eq_self_iff {f : Formula} : f.shadowed scope = f ↔ f.Unshadowed scope := by
  induction f generalizing scope with
  | truth | bare => simp [shadowed, Unshadowed]
  | pred name args => simp [shadowed, Unshadowed, map_eq_self_iff, Term.shadowed_eq_self_iff]
  | member element d negated => simp [shadowed, Unshadowed, Term.shadowed_eq_self_iff]
  | not f ih => simp [shadowed, Unshadowed, ih]
  | and fs ih | or fs ih =>
    simp only [shadowed, Unshadowed, allShadowed_eq_map, allUnshadowed_iff, Formula.and.injEq,
      Formula.or.injEq, map_eq_self_iff]
    exact forall₂_congr fun f hf => ih f hf
  | implies f g ihf ihg => simp [shadowed, Unshadowed, ihf, ihg]
  | all v d f ih | any v d f ih => simp [shadowed, Unshadowed, ih]

@[simp] theorem strength_shadowed (f : Formula) : (f.shadowed scope).strength = f.strength := by
  cases f <;> simp [shadowed, strength]

theorem parenthesize_shadowed (least : Nat) (f : Formula) (s : String) :
    (f.shadowed scope).parenthesize least s = f.parenthesize least s := by
  rw [parenthesize, parenthesize, strength_shadowed]

/-- A shadowed domain and the variable before it are written in the same way. -/
@[simp] theorem text_shadowed (f : Formula) : (f.shadowed scope).text = f.text := by
  induction f generalizing scope with
  | truth | bare => rfl
  | pred name args => simp [shadowed, text, Function.comp_def]
  | member element d negated => simp [shadowed, text]
  | not f ih => rw [shadowed, text, text, ih, parenthesize_shadowed]
  | and fs ih | or fs ih =>
    rw [shadowed, text, text, allShadowed_eq_map, operandTexts_eq_map, operandTexts_eq_map,
      List.map_map]
    congr 1
    exact List.map_congr_left fun f hf => by
      simp only [Function.comp_apply, ih f hf, parenthesize_shadowed]
  | implies f g ihf ihg =>
    rw [shadowed, text, text, ihf, ihg, parenthesize_shadowed, parenthesize_shadowed]
  | all v d f ih | any v d f ih => rw [shadowed, text, text, ih]

theorem freeVariablesOf_eq_flatMap (fs : List Formula) :
    freeVariablesOf bound fs = fs.flatMap (freeVariables bound) := by
  induction fs with
  | nil => rfl
  | cons f fs ih => rw [freeVariablesOf, ih, List.flatMap_cons]

theorem freeVariables_shadowed_terms (es : List Term) (within : scope ⊆ bound) :
    (termVariables (es.map (Term.shadowed scope))).filter (fun v => !bound.contains v) =
      (termVariables es).filter fun v => !bound.contains v := by
  induction es with
  | nil => rfl
  | cons e es ih =>
    cases e with
    | domain d =>
      by_cases h : d ∈ scope
      · -- the variable is bound, so that it is not free
        have hbound := within h
        simpa [termVariables, Term.shadowed, h, hbound] using ih
      · simpa [termVariables, Term.shadowed, h] using ih
    | var v => by_cases h : v ∈ bound <;> simpa [termVariables, Term.shadowed, h] using ih
    | state | literal | bare => simpa [termVariables, Term.shadowed] using ih

/-- The variables that come before domains are not free. -/
theorem freeVariables_shadowed (f : Formula) (within : scope ⊆ bound) :
    (f.shadowed scope).freeVariables bound = f.freeVariables bound := by
  induction f generalizing scope bound with
  | truth | bare => rfl
  | pred name args => exact freeVariables_shadowed_terms args within
  | member element d negated => exact freeVariables_shadowed_terms [element] within
  | not f ih => exact ih within
  | and fs ih | or fs ih =>
    rw [shadowed, freeVariables, freeVariables, allShadowed_eq_map, freeVariablesOf_eq_flatMap,
      freeVariablesOf_eq_flatMap, List.flatMap_map]
    exact List.flatMap_congr fun f hf => ih f hf within
  | implies f g ihf ihg =>
    rw [shadowed, freeVariables, freeVariables, ihf within, ihg within]
  | all v d f ih | any v d f ih => exact ih (List.cons_subset_cons v within)

end Formula

/-! ### Formulas reread -/

theorem rereadTerms?_eq {es : List Term} (wf : ∀ e ∈ es, e.WellFormed Word scope) :
    rereadTerms? scope es = some (es.map (Term.shadowed scope)) := by
  induction es with
  | nil => rfl
  | cons e es ih =>
    obtain ⟨he, hes⟩ := List.forall_mem_cons.1 wf
    simp [rereadTerms?, he.term?_lexeme, ih hes]

/-- A term can be the element of a membership test, unless it is the domain of states. -/
theorem Term.WellFormed.element?_lexeme {e : Term} (wf : e.WellFormed Word scope) :
    e.lexeme.element? scope =
      if e == .domain "states" then none else some (e.shadowed scope) := by
  cases e with
  | var v => simp [Term.lexeme, Lexeme.element?, wf.2.1, ← wf.term?_lexeme]
  | domain d =>
    have reserved_iff : ∀ d ∈ domainNames, d ∈ reserved ↔ d = "states" := by decide
    have hreserved := reserved_iff d wf
    by_cases h : d = "states"
    · subst h
      simp [Term.lexeme, Lexeme.element?, hreserved]
    · simp [Term.lexeme, Lexeme.element?, hreserved, h, ← wf.term?_lexeme]
  | state s => simp [Term.lexeme, Lexeme.element?, wf.2.1, ← wf.term?_lexeme]
  | literal value => rfl
  | bare => exact absurd wf id

namespace Formula

theorem rereadAll?_eq {fs : List Formula}
    (h : ∀ f ∈ fs, f.reread? scope = if f.testsStates then none else some (f.shadowed scope)) :
    rereadAll? fs scope = if anyTestsStates fs then none else some (allShadowed fs scope) := by
  induction fs with
  | nil => rfl
  | cons f fs ih =>
    obtain ⟨hf, hfs⟩ := List.forall_mem_cons.1 h
    rw [rereadAll?, anyTestsStates, allShadowed, hf, ih hfs]
    cases f.testsStates <;> cases anyTestsStates fs <;> rfl

/-- **What a well-formed formula is reread as.** -/
theorem reread?_eq {f : Formula} (wf : f.WellFormed Word scope) :
    f.reread? scope = if f.testsStates then none else some (f.shadowed scope) := by
  induction f generalizing scope with
  | truth b => rfl
  | pred name args => simp [reread?, rereadTerms?_eq wf.2, testsStates, shadowed]
  | member element d negated =>
    rw [reread?, wf.1.element?_lexeme, testsStates, shadowed]
    split <;> rfl
  | not f ih =>
    rw [reread?, ih wf, testsStates, shadowed]
    split <;> rfl
  | and fs ih | or fs ih =>
    rw [reread?, rereadAll?_eq fun f hf => ih f hf (wellFormedAll_iff.1 wf.2 f hf), testsStates,
      shadowed]
    split <;> rfl
  | implies f g ihf ihg =>
    rw [reread?, ihf wf.1, ihg wf.2, testsStates, shadowed]
    cases f.testsStates <;> cases g.testsStates <;> rfl
  | all v d f ih | any v d f ih =>
    rw [reread?, ih wf.2.2, testsStates, shadowed]
    split <;> rfl
  | bare => exact absurd wf id

theorem firstBareOf?_eq_none_iff {fs : List Formula} :
    firstBareOf? fs = none ↔ ∀ f ∈ fs, f.firstBare? = none := by
  induction fs with
  | nil => simp [firstBareOf?]
  | cons f fs ih => simp [firstBareOf?, ih]

theorem firstBare?_eq_none {f : Formula} (wf : f.WellFormed Word scope) :
    f.firstBare? = none := by
  induction f generalizing scope with
  | truth | pred | member => rfl
  | not f ih => exact ih wf
  | and fs ih | or fs ih =>
    exact firstBareOf?_eq_none_iff.2 fun f hf => ih f hf (wellFormedAll_iff.1 wf.2 f hf)
  | implies f g ihf ihg => simp [firstBare?, ihf wf.1, ihg wf.2]
  | all v d f ih | any v d f ih => exact ih wf.2.2
  | bare => exact absurd wf id

/-- A formula without bare leaves has a text. -/
theorem print?_of_firstBare? {f : Formula} (h : f.firstBare? = none) : f.print? = .ok f.text := by
  cases f with
  | bare => cases h
  | _ => simp [print?, h]

/-- A well-formed formula has a text. -/
theorem print?_eq_ok {f : Formula} (wf : f.WellFormed Word scope) : f.print? = .ok f.text :=
  print?_of_firstBare? (firstBare?_eq_none wf)

end Formula

/-! ### Texts -/

/-- The tokens of the text of a formula, unless a literal of it holds a line feed. -/
theorem scan_text {f : Formula} (wf : f.WellFormed IsIdentifier scope) :
    (scan f.text).toOption.map TokenStream.lexemes =
      if f.literals.any hasLineFeed then none else some f.lexemes := by
  have hscans := scans_text wf [] (by simp [StopsName])
  rw [List.append_nil, lexemes?_scan] at hscans
  simpa using hscans

/-- The tokens of a formula are read as the formula reread, and all of them. -/
theorem outcome_formula_lexemes {f : Formula} {stop : Position} {ts : List Token}
    (wf : f.WellFormed Word scope) (hts : ts.map Token.lexeme = f.lexemes) :
    outcome (formula stop scope ts) = (f.reread? scope).map (·, []) := by
  have quiet : Quiet 0 [] := by simp [Quiet]
  have hread : readAt stop 0 scope (ts ++ []) = (f.reread? scope).map (·, []) :=
    readAt_lexemes wf hts (Nat.zero_le _) quiet
  rwa [List.append_nil] at hread

/-- **What the text of a formula is parsed to**, if it is parsed. -/
theorem parseFormula_text_eq_ok_iff {f g : Formula} (closed : f.IsClosed IsIdentifier) :
    parseFormula f.text = .ok g ↔
      (∀ value ∈ f.literals, '\n' ∉ value.toList) ∧ f.testsStates = false ∧ g = f.shadowed [] := by
  have hlines : f.literals.any hasLineFeed = false ↔
      ∀ value ∈ f.literals, '\n' ∉ value.toList := by simp [hasLineFeed]
  -- no variable is free in what is read, so that closing it adds no quantifier
  have hclosure : (f.shadowed []).closure = f.shadowed [] := by
    refine Formula.closure_eq_self ?_
    rw [Formula.freeVariables_shadowed f (List.Subset.refl []), closed.free]
  have hscan := scan_text closed.wellFormed
  rw [parseFormula_eq_ok_iff, ← hlines]
  cases hany : f.literals.any hasLineFeed with
  | true =>
    -- a text that is not scanned is not parsed
    simp only [Bool.true_eq_false, false_and, iff_false, not_exists, not_and]
    intro stream _ hstream
    simp [hany, hstream, Except.toOption] at hscan
  | false =>
    rw [hany, if_neg (by simp), Option.map_eq_some_iff] at hscan
    obtain ⟨stream, hstream, hlexemes⟩ := hscan
    rw [toOption_eq_some_iff.1 hstream]
    simp only [Except.ok.injEq, exists_and_left, exists_eq_left', true_and,
      outcome_formula_lexemes closed.wellFormed hlexemes, Formula.reread?_eq closed.wellFormed]
    cases f.testsStates <;> simp [hclosure]

/-- A formula that comes from a text has a text of its own.  **It is parsed to the same formula
exactly when no literal of it holds a line feed, none of its tests is about the domain of states,
and no variable shadows a domain.**  Whatever else it is parsed to has the same text. -/
theorem parseFormula_print {s : String} {f : Formula} (h : parseFormula s = .ok f) :
    ∃ printed, f.print? = .ok printed ∧
      (parseFormula printed = .ok f ↔
        (∀ value ∈ f.literals, '\n' ∉ value.toList) ∧ f.testsStates = false ∧
          f.Unshadowed []) ∧
      ∀ g, parseFormula printed = .ok g → g.print? = .ok printed := by
  have isClosed : ∀ {s : String} {f : Formula}, parseFormula s = .ok f →
      f.IsClosed IsIdentifier :=
    isClosed_of_parseFormula fun _ hscan => spelled_of_scan hscan
  have closed := isClosed h
  refine ⟨f.text, Formula.print?_eq_ok closed.wellFormed, ?_, fun g hg => ?_⟩
  · rw [parseFormula_text_eq_ok_iff closed, @eq_comm _ f, Formula.shadowed_eq_self_iff]
  · have hprint := Formula.print?_eq_ok (isClosed hg).wellFormed
    obtain ⟨-, -, rfl⟩ := (parseFormula_text_eq_ok_iff closed).1 hg
    rw [hprint, Formula.text_shadowed]

/-- A sort name is printed with its quantifier, and the literal with a backslash before each quote;
all of it is parsed to the same formula. -/
theorem parseFormula_print_sortName :
    ∃ f, parseFormula "completed[task] -> \"a \\\"b\\\"\" not in tasks" = .ok f ∧
      f.print? = .ok "forall task in tasks: completed[task] -> \"a \\\"b\\\"\" not in tasks" ∧
      parseFormula "forall task in tasks: completed[task] -> \"a \\\"b\\\"\" not in tasks" =
        .ok f := by
  have parsed : parseFormula "completed[task] -> \"a \\\"b\\\"\" not in tasks" =
      .ok (.all "task" "tasks" (.implies (.pred "completed" [.var "task"])
        (.member (.literal "a \"b\"") "tasks" true))) :=
    toOption_eq_some_iff.1 (by decide +kernel)
  obtain ⟨printed, hprint, hagain, -⟩ := parseFormula_print parsed
  obtain rfl : "forall task in tasks: completed[task] -> \"a \\\"b\\\"\" not in tasks" = printed :=
    Except.ok.inj hprint
  refine ⟨_, parsed, hprint, hagain.2 ⟨by decide, rfl, ?_⟩⟩
  simp [Formula.Unshadowed, Term.Unshadowed]

/-- A test of the domain of states, which is written with a capital, is printed without, and not
parsed any more. -/
theorem not_parseFormula_print_states :
    ∃ f, parseFormula "States in tasks" = .ok f ∧ f.print? = .ok "states in tasks" ∧
      ∀ g, parseFormula "states in tasks" ≠ .ok g := by
  have parsed : parseFormula "States in tasks" = .ok (.member (.domain "states") "tasks" false) :=
    toOption_eq_some_iff.1 (by decide +kernel)
  have none : (parseFormula "states in tasks").toOption = none := by decide +kernel
  refine ⟨_, parsed, rfl, fun g hg => ?_⟩
  rw [hg] at none
  cases none

end ChangeControl.Rule
