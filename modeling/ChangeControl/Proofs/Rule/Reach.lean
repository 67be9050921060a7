import ChangeControl.Proofs.Rule.RoundTrip
/-!
The reach of the printer.

A formula need not come from a text: a program may build the tree itself.  A tree is *settled* when
every name in it is written as it will be read, at the place where it stands.  The text of a settled
formula is parsed to the formula, with two exceptions and no third: a literal with a line feed, and
a membership test of the domain of states.

Main definitions:

* `Rule.SettledDomain` — names of domains that stay as they are;
* `Term.Settled`, `Formula.Settled` — trees whose names are read as they are meant.

Main results:

* `Formula.settled_iff` — the settled formulas are the closed ones without shadowed domains;
* `Rule.parseFormula_print_of_settled` — **what the text of a settled formula is parsed to**;
* `Rule.parseFormula_print_iff` — every formula that is parsed from its own text is settled.
-/

set_option autoImplicit false

namespace ChangeControl.Rule

variable {scope bound : List String}

/-! ### Settled trees -/

/-- A name of a domain that stays as it is: an identifier that is not reserved, or `states`; and in
lower case, if it is a known domain in some mixture of cases. -/
structure SettledDomain (d : String) : Prop where
  word : IsIdentifier d
  may : MayName d
  lower : d.toLower ∈ domainNames → d.toLower = d

/-- A term that is read as itself where the variables of `scope` are bound. -/
inductive Term.Settled (scope : List String) : Term → Prop
  | var {v : String} (bound : v ∈ scope) : Term.Settled scope (.var v)
  | domain {d : String} (known : d ∈ domainNames) (unshadowed : d ∉ scope) :
      Term.Settled scope (.domain d)
  | state {s : String} (word : IsIdentifier s) (capital : startsUpper s = true)
      (unknown : s.toLower ∉ domainNames) (unshadowed : s ∉ scope) : Term.Settled scope (.state s)
  | literal (value : String) : Term.Settled scope (.literal value)

/-- A formula all of whose names are read as they are meant, where the variables of `scope` are
bound. -/
inductive Formula.Settled : List String → Formula → Prop
  | truth {scope : List String} (value : Bool) : Formula.Settled scope (.truth value)
  | pred {scope : List String} {name : String} {args : List Term}
      (isName : IsName IsIdentifier name) (terms : ∀ e ∈ args, e.Settled scope) :
      Formula.Settled scope (.pred name args)
  | member {scope : List String} {element : Term} {d : String} {negated : Bool}
      (term : element.Settled scope) (domain : SettledDomain d) :
      Formula.Settled scope (.member element d negated)
  | not {scope : List String} {f : Formula} (operand : Formula.Settled scope f) :
      Formula.Settled scope (.not f)
  | and {scope : List String} {fs : List Formula} (several : 2 ≤ fs.length)
      (operands : ∀ f ∈ fs, Formula.Settled scope f) : Formula.Settled scope (.and fs)
  | or {scope : List String} {fs : List Formula} (several : 2 ≤ fs.length)
      (operands : ∀ f ∈ fs, Formula.Settled scope f) : Formula.Settled scope (.or fs)
  | implies {scope : List String} {f g : Formula} (antecedent : Formula.Settled scope f)
      (consequent : Formula.Settled scope g) : Formula.Settled scope (.implies f g)
  | all {scope : List String} {v d : String} {f : Formula} (isName : IsName IsIdentifier v)
      (domain : SettledDomain d) (body : Formula.Settled (v :: scope) f) :
      Formula.Settled scope (.all v d f)
  | any {scope : List String} {v d : String} {f : Formula} (isName : IsName IsIdentifier v)
      (domain : SettledDomain d) (body : Formula.Settled (v :: scope) f) :
      Formula.Settled scope (.any v d f)

/-- A name of a domain is settled exactly when a parser can make it. -/
theorem settledDomain_iff {d : String} : SettledDomain d ↔ IsDomainName IsIdentifier d := by
  constructor
  · rintro ⟨word, may, lower⟩
    refine ⟨.inr word, mayName_iff.1 may, ?_⟩
    unfold domainName
    split
    · next known => exact lower (List.contains_iff_mem.1 known)
    · rfl
  · rintro ⟨word, notBarred, settled⟩
    have identifiers : ∀ d ∈ domainNames, IsIdentifier d := by decide +kernel
    refine ⟨word.elim (identifiers d) id, mayName_iff.2 notBarred, ?_⟩
    intro known
    rwa [domainName, if_pos (List.contains_iff_mem.2 known)] at settled

/-- A name that starts with a capital is not reserved. -/
theorem not_reserved_of_startsUpper {w : String} (h : startsUpper w = true) : w ∉ reserved := by
  have small : ∀ w ∈ reserved, startsUpper w = false := by decide +kernel
  intro mem
  simp [small w mem] at h

/-! ### Settled formulas are closed -/

section Closed

variable {e : Term} {es : List Term} {f : Formula}

theorem Term.Settled.wellFormed (h : e.Settled scope)
    (names : ∀ v ∈ scope, IsName IsIdentifier v) : e.WellFormed IsIdentifier scope := by
  cases h with
  | var bound => exact ⟨(names _ bound).word, (names _ bound).notReserved, .inl bound⟩
  | domain known => exact known
  | state word capital unknown unshadowed =>
    exact ⟨word, not_reserved_of_startsUpper capital, unshadowed, unknown, capital⟩
  | literal => trivial

theorem Term.Settled.unshadowed (h : e.Settled scope) : e.Unshadowed scope := by
  cases h with
  | domain known unshadowed => exact unshadowed
  | var | state | literal => trivial

/-- A term that a parser makes is settled, unless it is a free variable or a shadowed domain. -/
theorem Term.WellFormed.settled (wf : e.WellFormed IsIdentifier scope)
    (bound : ∀ v, .var v = e → v ∈ scope) (unshadowed : e.Unshadowed scope) :
    e.Settled scope := by
  cases e with
  | var v => exact .var (bound v rfl)
  | domain d => exact .domain wf unshadowed
  | state s =>
    obtain ⟨word, -, unbound, unknown, capital⟩ := wf
    exact .state word capital unknown unbound
  | literal value => exact .literal value
  | bare => exact absurd wf id

namespace Formula

/-- No variable among some terms is free exactly when all of them are in scope. -/
theorem free_terms_eq_nil_iff :
    ((termVariables es).filter fun v => !scope.contains v) = [] ↔
      ∀ v, .var v ∈ es → v ∈ scope := by
  simp only [List.filter_eq_nil_iff, termVariables, List.mem_filterMap]
  constructor
  · intro h v hv
    simpa using h v ⟨.var v, hv, rfl⟩
  · rintro h v ⟨e, he, hname⟩
    cases e with
    | var w =>
      cases hname
      simpa using h v he
    | domain | state | literal | bare => cases hname

theorem free_terms_eq_nil (h : ∀ e ∈ es, e.Settled scope) :
    ((termVariables es).filter fun v => !scope.contains v) = [] := by
  rw [free_terms_eq_nil_iff]
  intro v hv
  cases h _ hv with
  | var bound => exact bound

theorem Settled.wellFormed (h : f.Settled scope) (names : ∀ v ∈ scope, IsName IsIdentifier v) :
    f.WellFormed IsIdentifier scope := by
  induction h with
  | truth => trivial
  | pred isName terms => exact ⟨isName, fun e he => (terms e he).wellFormed names⟩
  | member term domain => exact ⟨term.wellFormed names, settledDomain_iff.1 domain⟩
  | not _ ih => exact ih names
  | and several _ ih | or several _ ih =>
    exact ⟨several, wellFormedAll_iff.2 fun f hf => ih f hf names⟩
  | implies _ _ ihf ihg => exact ⟨ihf names, ihg names⟩
  | all isName domain _ ih | any isName domain _ ih =>
    exact ⟨isName, settledDomain_iff.1 domain, ih (List.forall_mem_cons.2 ⟨isName, names⟩)⟩

theorem Settled.unshadowed (h : f.Settled scope) : f.Unshadowed scope := by
  induction h with
  | truth => trivial
  | pred isName terms => exact fun e he => (terms e he).unshadowed
  | member term domain => exact term.unshadowed
  | not _ ih => exact ih
  | and several _ ih | or several _ ih => exact allUnshadowed_iff.2 ih
  | implies _ _ ihf ihg => exact ⟨ihf, ihg⟩
  | all isName domain _ ih | any isName domain _ ih => exact ih

theorem Settled.freeVariables_eq_nil (h : f.Settled scope) : f.freeVariables scope = [] := by
  induction h with
  | truth => rfl
  | pred isName terms => exact free_terms_eq_nil terms
  | member term domain =>
    apply free_terms_eq_nil
    intro e he
    rwa [List.mem_singleton.1 he]
  | not _ ih => exact ih
  | and several _ ih | or several _ ih =>
    rw [freeVariables, freeVariablesOf_eq_flatMap]
    exact List.flatMap_eq_nil_iff.2 ih
  | implies _ _ ihf ihg => rw [freeVariables, ihf, ihg, List.append_nil]
  | all isName domain _ ih | any isName domain _ ih => exact ih

/-- A formula that a parser makes is settled, if no variable of it is free and no domain of it is
shadowed. -/
theorem WellFormed.settled (wf : f.WellFormed IsIdentifier scope)
    (free : f.freeVariables scope = []) (unshadowed : f.Unshadowed scope) : f.Settled scope := by
  induction f generalizing scope with
  | truth b => exact .truth b
  | pred name args =>
    have bound := free_terms_eq_nil_iff.1 free
    refine .pred wf.1 ?_
    intro e he
    exact (wf.2 e he).settled (fun v hv => bound v (hv ▸ he)) (unshadowed e he)
  | member element d negated =>
    have bound := free_terms_eq_nil_iff.1 free
    exact .member (wf.1.settled (fun v hv => bound v (by simp [hv])) unshadowed)
      (settledDomain_iff.2 wf.2)
  | not f ih => exact .not (ih wf free unshadowed)
  | and fs ih =>
    rw [freeVariables, freeVariablesOf_eq_flatMap, List.flatMap_eq_nil_iff] at free
    refine .and wf.1 ?_
    intro f hf
    exact ih f hf (wellFormedAll_iff.1 wf.2 f hf) (free f hf) (allUnshadowed_iff.1 unshadowed f hf)
  | or fs ih =>
    rw [freeVariables, freeVariablesOf_eq_flatMap, List.flatMap_eq_nil_iff] at free
    refine .or wf.1 ?_
    intro f hf
    exact ih f hf (wellFormedAll_iff.1 wf.2 f hf) (free f hf) (allUnshadowed_iff.1 unshadowed f hf)
  | implies f g ihf ihg =>
    obtain ⟨freeLeft, freeRight⟩ := List.append_eq_nil_iff.1 free
    exact .implies (ihf wf.1 freeLeft unshadowed.1) (ihg wf.2 freeRight unshadowed.2)
  | all v d f ih => exact .all wf.1 (settledDomain_iff.2 wf.2.1) (ih wf.2.2 free unshadowed)
  | any v d f ih => exact .any wf.1 (settledDomain_iff.2 wf.2.1) (ih wf.2.2 free unshadowed)
  | bare => exact absurd wf id

/-- **The settled formulas are the closed ones without shadowed domains.** -/
theorem settled_iff : f.Settled [] ↔ f.IsClosed IsIdentifier ∧ f.Unshadowed [] := by
  constructor
  · intro h
    exact ⟨⟨h.wellFormed (by simp), h.freeVariables_eq_nil⟩, h.unshadowed⟩
  · rintro ⟨⟨wf, free⟩, unshadowed⟩
    exact wf.settled free unshadowed

end Formula

end Closed

/-! ### Texts of settled formulas -/

/-- The text of a settled formula is parsed to nothing but the formula. -/
theorem parseFormula_text_of_settled {f g : Formula} (h : f.Settled []) :
    parseFormula f.text = .ok g ↔
      (∀ value ∈ f.literals, '\n' ∉ value.toList) ∧ f.testsStates = false ∧ g = f := by
  obtain ⟨closed, unshadowed⟩ := Formula.settled_iff.1 h
  rw [parseFormula_text_eq_ok_iff closed, Formula.shadowed_eq_self_iff.2 unshadowed]

/-- **The reach of the printer.**  A settled formula has a text.  If no literal of it holds a line
feed and no membership test of it is about the domain of states, the text is parsed to the formula;
otherwise the text is an error. -/
theorem parseFormula_print_of_settled {f : Formula} (h : f.Settled []) :
    ∃ printed, f.print? = .ok printed ∧
      ((∀ value ∈ f.literals, '\n' ∉ value.toList) ∧ f.testsStates = false →
        parseFormula printed = .ok f) ∧
      (¬ ((∀ value ∈ f.literals, '\n' ∉ value.toList) ∧ f.testsStates = false) →
        ∃ e, parseFormula printed = .error e) := by
  obtain ⟨closed, -⟩ := Formula.settled_iff.1 h
  refine ⟨f.text, Formula.print?_eq_ok closed.wellFormed, ?_, ?_⟩
  · rintro ⟨lines, states⟩
    exact (parseFormula_text_of_settled h).2 ⟨lines, states, rfl⟩
  · intro fails
    cases hparse : parseFormula f.text with
    | error e => exact ⟨e, rfl⟩
    | ok g =>
      obtain ⟨lines, states, -⟩ := (parseFormula_text_of_settled h).1 hparse
      exact absurd ⟨lines, states⟩ fails

/-- Operands that bind loosely are put in parentheses, a variable hides another one of its name, and
what is in a literal is escaped. -/
theorem parseFormula_print_nested :
    let f : Formula := .all "t" "tasks" (.implies
      (.and [.not (.or [.pred "done" [.var "t"], .pred "in_state" [.var "t", .state "Done"]]),
        .any "t" "backlog" (.member (.var "t") "commits" true)])
      (.implies (.pred "known" [.domain "states"]) (.member (.literal "\"a\\\"") "Phases" false)))
    f.Settled [] ∧ ∃ printed, f.print? = .ok printed ∧ parseFormula printed = .ok f := by
  intro f
  have done : IsName IsIdentifier "done" := ⟨by decide, by decide⟩
  have inState : IsName IsIdentifier "in_state" := ⟨by decide, by decide⟩
  have known : IsName IsIdentifier "known" := ⟨by decide, by decide⟩
  have var : IsName IsIdentifier "t" := ⟨by decide, by decide⟩
  have domain : ∀ d ∈ domainNames, SettledDomain d :=
    fun d hd => settledDomain_iff.2 (isDomainName_of_mem hd)
  have phases : SettledDomain "Phases" :=
    ⟨by decide, .inl (by decide), fun h => absurd h (by decide +kernel)⟩
  have state : (Term.state "Done").Settled ["t"] :=
    .state (by decide) (by decide) (by decide +kernel) (by decide)
  have tests : (Formula.or
      [.pred "done" [.var "t"], .pred "in_state" [.var "t", .state "Done"]]).Settled ["t"] := by
    refine .or (by decide) ?_
    simp only [List.forall_mem_cons, List.not_mem_nil, false_imp_iff, implies_true, and_true]
    constructor
    · exact .pred done (by simpa using Term.Settled.var (by decide))
    · refine .pred inState ?_
      simpa using ⟨Term.Settled.var (by decide), state⟩
  have backlog : (Formula.any "t" "backlog" (.member (.var "t") "commits" true)).Settled ["t"] :=
    .any var (domain _ (by decide)) (.member (.var (by decide)) (domain _ (by decide)))
  have settled : f.Settled [] := by
    refine .all var (domain _ (by decide)) (.implies (.and (by decide) ?_) (.implies ?_ ?_))
    · simpa using ⟨Formula.Settled.not tests, backlog⟩
    · exact .pred known (by simpa using Term.Settled.domain (by decide) (by decide))
    · exact .member (.literal _) phases
  obtain ⟨printed, hprint, hparse, -⟩ := parseFormula_print_of_settled settled
  exact ⟨settled, printed, hprint, hparse ⟨by decide, rfl⟩⟩

/-- No other formula is parsed from its own text: it is settled, without a line feed in a literal
and without a test of the domain of states. -/
theorem parseFormula_print_iff {f : Formula} :
    (∃ printed, f.print? = .ok printed ∧ parseFormula printed = .ok f) ↔
      f.Settled [] ∧ (∀ value ∈ f.literals, '\n' ∉ value.toList) ∧ f.testsStates = false := by
  constructor
  · rintro ⟨printed, hprint, hparse⟩
    have closed : f.IsClosed IsIdentifier :=
      isClosed_of_parseFormula (fun _ hscan => spelled_of_scan hscan) hparse
    rw [Formula.print?_eq_ok closed.wellFormed] at hprint
    cases hprint
    obtain ⟨lines, states, heq⟩ := (parseFormula_text_eq_ok_iff closed).1 hparse
    exact ⟨Formula.settled_iff.2 ⟨closed, Formula.shadowed_eq_self_iff.1 heq.symm⟩, lines, states⟩
  · rintro ⟨settled, lines, states⟩
    obtain ⟨closed, -⟩ := Formula.settled_iff.1 settled
    exact ⟨f.text, Formula.print?_eq_ok closed.wellFormed,
      (parseFormula_text_of_settled settled).2 ⟨lines, states, rfl⟩⟩

end ChangeControl.Rule
