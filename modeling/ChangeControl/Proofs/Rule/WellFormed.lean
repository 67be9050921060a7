import ChangeControl.Proofs.Rule.Parsing
/-!
What a parser makes.

A parser never builds a bare leaf, never joins fewer than two operands, and resolves every name by
the scope it stands in.  The words that names are made of are a parameter here: identifiers, when
the tokens come from a text, and anything, when it does not matter.

Main definitions:

* `Term.WellFormed`, `Formula.WellFormed` — the trees that a parser makes in a scope;
* `Rule.Widens` — a scope with more sort names in it;
* `Formula.IsClosed` — well-formed outside of every scope, and without free variables;
* `Formula.literals` — the string literals of a formula.

Main results:

* `Derives.wellFormed`, `Rule.wellFormed_of_formula` — **a parser makes well-formed trees only**;
* `Formula.WellFormed.closure` — the closure of a well-formed formula is closed;
* `Rule.isClosed_of_parseFormula` — so is every formula of a text.
-/

set_option autoImplicit false

namespace ChangeControl.Rule

variable {Word : String → Prop}

/-! ### Well-formed trees -/

/-- The term can be written as a token in the scope, with a name that is a word. -/
def Term.WellFormed (Word : String → Prop) (scope : List String) : Term → Prop
  | .var v => Word v ∧ v ∉ reserved ∧ (v ∈ scope ∨ (domainOfSort? v).isSome)
  | .domain d => d ∈ domainNames
  | .state s => Word s ∧ s ∉ reserved ∧ s ∉ scope ∧ s.toLower ∉ domainNames ∧ startsUpper s
  | .literal _ => True
  | .bare _ => False

/-- The name can stand where a domain is named: a domain, or an unknown word. -/
structure IsDomainName (Word : String → Prop) (d : String) : Prop where
  word : d ∈ domainNames ∨ Word d
  notBarred : d ∉ barredDomains
  settled : domainName d = d

/-- The name can stand for a variable or a predicate. -/
structure IsName (Word : String → Prop) (v : String) : Prop where
  word : Word v
  notReserved : v ∉ reserved

namespace Formula

mutual

/-- The formula is one that a parser can make in the scope. -/
def WellFormed (Word : String → Prop) : Formula → List String → Prop
  | .truth _, _ => True
  | .pred name args, scope => IsName Word name ∧ ∀ t ∈ args, t.WellFormed Word scope
  | .member element d _, scope => element.WellFormed Word scope ∧ IsDomainName Word d
  | .not f, scope => f.WellFormed Word scope
  | .and fs, scope | .or fs, scope => 2 ≤ fs.length ∧ WellFormedAll Word fs scope
  | .implies f g, scope => f.WellFormed Word scope ∧ g.WellFormed Word scope
  | .all v d f, scope | .any v d f, scope =>
    IsName Word v ∧ IsDomainName Word d ∧ f.WellFormed Word (v :: scope)
  | .bare _, _ => False

/-- All of some formulas are well-formed. -/
def WellFormedAll (Word : String → Prop) : List Formula → List String → Prop
  | [], _ => True
  | f :: fs, scope => f.WellFormed Word scope ∧ WellFormedAll Word fs scope

end

theorem wellFormedAll_iff {fs : List Formula} {scope : List String} :
    WellFormedAll Word fs scope ↔ ∀ f ∈ fs, f.WellFormed Word scope := by
  induction fs with
  | nil => simp [WellFormedAll]
  | cons f fs ih => rw [WellFormedAll, ih, List.forall_mem_cons]

end Formula

theorem isDomainName_of_mem {d : String} (h : d ∈ domainNames) : IsDomainName Word d := by
  have settled : ∀ d ∈ domainNames, d ∉ barredDomains ∧ domainName d = d := by decide +kernel
  exact ⟨.inl h, (settled d h).1, (settled d h).2⟩

theorem isDomainName_domainName {w : String} (word : Word w) (free : w ∉ barredDomains) :
    IsDomainName Word (domainName w) := by
  unfold domainName
  split
  · next known => exact isDomainName_of_mem (List.contains_iff_mem.1 known)
  · next unknown => exact ⟨.inr word, free, if_neg unknown⟩

/-- The sort names are ordinary names, and each stands for a domain. -/
theorem sort_cases {v : String} (h : (domainOfSort? v).isSome = true) :
    v = "task" ∨ v = "commit" ∨ v = "state" := by
  unfold domainOfSort? at h
  repeat' split at h
  all_goals simp_all

theorem not_reserved_of_sort {v : String} (h : (domainOfSort? v).isSome = true) :
    v ∉ reserved := by
  rcases sort_cases h with rfl | rfl | rfl <;> decide

/-- A sort name is neither a domain nor a state. -/
theorem not_domain_of_sort {v : String} (h : (domainOfSort? v).isSome = true) :
    v.toLower ∉ domainNames ∧ startsUpper v = false := by
  rcases sort_cases h with rfl | rfl | rfl <;> decide +kernel

/-- The domain that the variable of a sort ranges over. -/
def sortDomain (v : String) : String := (domainOfSort? v).getD ""

theorem sortDomain_mem {v : String} (h : (domainOfSort? v).isSome = true) :
    sortDomain v ∈ domainNames := by
  rcases sort_cases h with rfl | rfl | rfl <;> decide

/-! ### Literals -/

/-- The string literals among some terms. -/
def termLiterals (es : List Term) : List String :=
  es.filterMap fun
    | .literal value => some value
    | _ => none

theorem mem_termLiterals {es : List Term} {value : String} (h : .literal value ∈ es) :
    value ∈ termLiterals es :=
  List.mem_filterMap.2 ⟨.literal value, h, rfl⟩

namespace Formula

mutual

/-- The string literals of a formula, from left to right. -/
def literals : Formula → List String
  | .truth _ | .bare _ => []
  | .pred _ args => termLiterals args
  | .member element _ _ => termLiterals [element]
  | .not f | .all _ _ f | .any _ _ f => f.literals
  | .and fs | .or fs => literalsOf fs
  | .implies f g => f.literals ++ g.literals

/-- The string literals of several formulas. -/
def literalsOf : List Formula → List String
  | [] => []
  | f :: fs => f.literals ++ literalsOf fs

end

theorem literals_subset_literalsOf {f : Formula} {fs : List Formula} (hf : f ∈ fs) :
    f.literals ⊆ literalsOf fs := by
  induction fs with
  | nil => exact absurd hf List.not_mem_nil
  | cons g fs ih =>
    rw [literalsOf]
    rcases List.mem_cons.1 hf with rfl | hf
    · exact List.subset_append_left _ _
    · exact List.Subset.trans (ih hf) (List.subset_append_right _ _)

end Formula

/-! ### What phrases stand for -/

section Phrases

variable {scope : List String} {ls : List Lexeme}

/-- Any word will do, where it does not matter how names are spelled. -/
abbrev anyWord : String → Prop := fun _ => True

/-- A name resolves to a well-formed term. -/
theorem Resolves.wellFormed {w : String} {e : Term} (h : Resolves scope w e) (word : Word w)
    (may : MayName w) (names : ∀ v ∈ scope, v ∉ reserved) : e.WellFormed Word scope := by
  cases h with
  | bound mem => exact ⟨word, names w mem, .inl mem⟩
  | domain free known => exact known
  | state free unknown capital =>
    refine ⟨word, ?_, free, unknown, capital⟩
    rcases may with notReserved | rfl
    · exact notReserved
    · exact absurd (by decide +kernel) unknown
  | sort free unknown small sort => exact ⟨word, not_reserved_of_sort sort, .inr sort⟩

theorem Denotes.wellFormed {l : Lexeme} {e : Term} (h : Denotes scope l e)
    (spelled : ∀ w, l = .name w → Word w) (names : ∀ v ∈ scope, v ∉ reserved) :
    e.WellFormed Word scope := by
  cases h with
  | literal => trivial
  | name may resolves => exact resolves.wellFormed (spelled _ rfl) may names

theorem Arguments.wellFormed {es : List Term} (h : Arguments scope ls es)
    (spelled : ∀ w, .name w ∈ ls → Word w) (names : ∀ v ∈ scope, v ∉ reserved) :
    ∀ e ∈ es, e.WellFormed Word scope := by
  induction h with
  | one denotes => simpa using denotes.wellFormed (fun w hw => spelled w (by simp [hw])) names
  | cons denotes _ ih =>
    rw [List.forall_mem_cons]
    exact ⟨denotes.wellFormed (fun w hw => spelled w (by simp [hw])) names,
      ih fun w hw => spelled w (by simp [hw])⟩

theorem wellFormed_collapse {fs : List Formula} {join : List Formula → Formula}
    (hjoin : ∀ fs, (join fs).WellFormed Word scope ↔
      2 ≤ fs.length ∧ ∀ g ∈ fs, g.WellFormed Word scope)
    (hne : fs ≠ []) (wf : ∀ g ∈ fs, g.WellFormed Word scope) :
    (collapse join fs).WellFormed Word scope := by
  match fs with
  | [] => exact absurd rfl hne
  | [f] => exact wf f List.mem_cons_self
  | f :: g :: fs => exact (hjoin _).2 ⟨by simp, wf⟩

/-- **The grammar derives well-formed trees only.** -/
theorem Derives.wellFormed {level : Level} {next : Next} {f : Formula}
    (h : Derives level scope next ls f) (spelled : ∀ w, .name w ∈ ls → Word w)
    (names : ∀ v ∈ scope, v ∉ reserved) : f.WellFormed Word scope := by
  induction h with
  | ofQuantifier _ ih | ofDisjunction _ ih | ofAtom _ ih | unparenthesized _ ih =>
    exact ih spelled names
  | implies _ _ _ ihl ihr =>
    exact ⟨ihl (fun w hw => spelled w (by simp [hw])) names,
      ihr (fun w hw => spelled w (by simp [hw])) names⟩
  | @quantified _ _ ls _ _ heads _ ih =>
    cases heads with
    | @mk universal _ _ v d _ _ notReserved _ may _ =>
      have isName : IsName Word v := ⟨spelled v (by simp), notReserved⟩
      have isDomain := isDomainName_domainName (spelled d (by simp)) (mayName_iff.1 may)
      have wf := ih (fun w hw => spelled w (by simp [hw]))
        (List.forall_mem_cons.2 ⟨notReserved, names⟩)
      cases universal <;> exact ⟨isName, isDomain, wf⟩
  | @disjunction _ _ init _ g _ _ _ ihs ih | @conjunction _ _ init _ g _ _ _ ihs ih =>
    refine wellFormed_collapse (fun fs => ?_) (by simp) fun g hg => ?_
    · rw [Formula.WellFormed, Formula.wellFormedAll_iff]
    · rcases List.mem_append.1 hg with hg | hg
      · obtain ⟨p, hp, rfl⟩ := List.mem_map.1 hg
        refine ihs p hp (fun w hw => spelled w (List.mem_append_left _ ?_)) names
        exact List.mem_flatMap.2 ⟨p, hp, List.mem_append_left _ hw⟩
      · rw [List.mem_singleton.1 hg]
        exact ih (fun w hw => spelled w (List.mem_append_right _ hw)) names
  | not _ _ ih => exact ih (fun w hw => spelled w (by simp [hw])) names
  | parentheses _ ih => exact ih (fun w hw => spelled w (by simp [hw])) names
  | truth => trivial
  | constant isName => exact ⟨⟨spelled _ (by simp), isName⟩, by simp⟩
  | application isName _ arguments =>
    exact ⟨⟨spelled _ (by simp), isName⟩,
      arguments.wellFormed (fun w hw => spelled w (by simp [hw])) names⟩
  | membership _ denotes _ may =>
    exact ⟨denotes.wellFormed (fun w hw => spelled w (by simp [hw])) names,
      isDomainName_domainName (spelled _ (by simp)) (mayName_iff.1 may)⟩

end Phrases

/-! ### What tokens are read as -/

/-- All words among the tokens satisfy `Word`. -/
def Spelled (Word : String → Prop) (ts : List Token) : Prop :=
  ∀ t ∈ ts, ∀ w, t.lexeme = .name w → Word w

theorem spelled_anyWord (ts : List Token) : Spelled anyWord ts := fun _ _ _ _ => trivial

/-- **A parser makes well-formed trees only.** -/
theorem wellFormed_of_formula {stop : Position} {scope : List String} {ts rest : List Token}
    {f : Formula} (spelled : Spelled Word ts) (names : ∀ v ∈ scope, v ∉ reserved)
    (h : outcome (formula stop scope ts) = some (f, rest)) : f.WellFormed Word scope := by
  obtain ⟨ls, next, split, derives, -⟩ := sound_level stop .formula scope ts f rest h
  refine derives.wellFormed (fun w hw => ?_) names
  obtain ⟨t, ht, hlexeme⟩ := split.exists_token hw
  exact spelled t ht w hlexeme

/-! ### Closures -/

/-- The scope has the variables of another, and sort names besides. -/
structure Widens (scope scope' : List String) : Prop where
  within : scope ⊆ scope'
  sorts : ∀ v ∈ scope', v ∈ scope ∨ (domainOfSort? v).isSome = true

theorem Widens.cons {scope scope' : List String} (h : Widens scope scope') (v : String) :
    Widens (v :: scope) (v :: scope') := by
  refine ⟨List.cons_subset_cons v h.within, fun w hw => ?_⟩
  rcases List.mem_cons.1 hw with rfl | hw
  · exact .inl List.mem_cons_self
  · exact (h.sorts w hw).imp_left (List.mem_cons_of_mem v)

theorem widens_sort {v : String} (scope : List String) (h : (domainOfSort? v).isSome = true) :
    Widens scope (v :: scope) := by
  refine ⟨List.subset_cons_self v scope, fun w hw => ?_⟩
  rcases List.mem_cons.1 hw with rfl | hw
  · exact .inr h
  · exact .inl hw

theorem Term.WellFormed.widen {e : Term} {scope scope' : List String}
    (wf : e.WellFormed Word scope) (wide : Widens scope scope') : e.WellFormed Word scope' := by
  cases e with
  | var w =>
    obtain ⟨word, free, bound⟩ := wf
    exact ⟨word, free, bound.imp_left fun mem => wide.within mem⟩
  | state s =>
    obtain ⟨word, free, unbound, unknown, upper⟩ := wf
    refine ⟨word, free, fun mem => ?_, unknown, upper⟩
    rcases wide.sorts s mem with bound | sort
    · exact unbound bound
    · simp [(not_domain_of_sort sort).2] at upper
  | domain | literal | bare => exact wf

namespace Formula

variable {v : String}

theorem mem_freeVariablesOf {bound : List String} {fs : List Formula} :
    v ∈ freeVariablesOf bound fs ↔ ∃ f ∈ fs, v ∈ f.freeVariables bound := by
  induction fs with
  | nil => simp [freeVariablesOf]
  | cons f fs ih => simp [freeVariablesOf, ih]

/-- What is free under more bound variables is free under fewer, and none of the others. -/
theorem mem_freeVariables_append (f : Formula) {inner outer : List String} :
    v ∈ f.freeVariables (inner ++ outer) ↔ v ∈ f.freeVariables inner ∧ v ∉ outer := by
  induction f generalizing inner with
  | truth | bare => simp [freeVariables]
  | pred name args => simp [freeVariables, and_assoc]
  | member element d negated => simp [freeVariables, and_assoc]
  | not f ih => rw [freeVariables, freeVariables, ih]
  | and fs ih | or fs ih =>
    simp only [freeVariables, mem_freeVariablesOf]
    constructor
    · rintro ⟨f, hf, hv⟩
      obtain ⟨hv, hout⟩ := (ih f hf).1 hv
      exact ⟨⟨f, hf, hv⟩, hout⟩
    · rintro ⟨⟨f, hf, hv⟩, hout⟩
      exact ⟨f, hf, (ih f hf).2 ⟨hv, hout⟩⟩
  | implies f g ihf ihg => simp [freeVariables, ihf, ihg, or_and_right]
  | all w d f ih | any w d f ih => rw [freeVariables, freeVariables, ← List.cons_append, ih]

theorem sort_of_free_term {scope bound : List String} {es : List Term}
    (wfs : ∀ e ∈ es, e.WellFormed Word scope) (within : scope ⊆ bound)
    (free : v ∈ (termVariables es).filter fun v => !bound.contains v) :
    IsName Word v ∧ (domainOfSort? v).isSome = true := by
  simp only [termVariables, List.mem_filter, List.mem_filterMap, Bool.not_eq_true',
    List.contains_eq_mem, decide_eq_false_iff_not] at free
  obtain ⟨⟨e, he, hname⟩, hbound⟩ := free
  cases e with
  | var w =>
    cases hname
    obtain ⟨word, free, bound | sort⟩ := wfs _ he
    · exact absurd (within bound) hbound
    · exact ⟨⟨word, free⟩, sort⟩
  | domain | state | literal | bare => cases hname

/-- What is free in a well-formed formula, under the variables of its scope, is a sort name. -/
theorem WellFormed.sort_of_free {f : Formula} {scope bound : List String}
    (wf : f.WellFormed Word scope) (within : scope ⊆ bound) (free : v ∈ f.freeVariables bound) :
    IsName Word v ∧ (domainOfSort? v).isSome = true := by
  induction f generalizing scope bound with
  | truth | bare => simp [freeVariables] at free
  | pred name args => exact sort_of_free_term wf.2 within free
  | member element d negated =>
    have wfs : ∀ e ∈ [element], e.WellFormed Word scope := by simpa using wf.1
    exact sort_of_free_term wfs within free
  | not f ih => exact ih wf within free
  | and fs ih | or fs ih =>
    obtain ⟨f, hf, hv⟩ := mem_freeVariablesOf.1 free
    exact ih f hf (wellFormedAll_iff.1 wf.2 f hf) within hv
  | implies f g ihf ihg =>
    rcases List.mem_append.1 free with hv | hv
    · exact ihf wf.1 within hv
    · exact ihg wf.2 within hv
  | all w d f ih | any w d f ih => exact ih wf.2.2 (List.cons_subset_cons w within) free

/-- A formula stays well-formed in a scope that has more sort names. -/
theorem WellFormed.widen {f : Formula} {scope scope' : List String}
    (wf : f.WellFormed Word scope) (wide : Widens scope scope') : f.WellFormed Word scope' := by
  induction f generalizing scope scope' with
  | truth | bare => exact wf
  | pred name args => exact ⟨wf.1, fun e he => (wf.2 e he).widen wide⟩
  | member element d negated => exact ⟨wf.1.widen wide, wf.2⟩
  | not f ih => exact ih wf wide
  | and fs ih | or fs ih =>
    refine ⟨wf.1, wellFormedAll_iff.2 fun f hf => ?_⟩
    exact ih f hf (wellFormedAll_iff.1 wf.2 f hf) wide
  | implies f g ihf ihg => exact ⟨ihf wf.1 wide, ihg wf.2 wide⟩
  | all w d f ih | any w d f ih => exact ⟨wf.1, wf.2.1, ih wf.2.2 (wide.cons w)⟩

/-- The formula is well-formed outside of every scope, and none of its variables is free. -/
structure IsClosed (Word : String → Prop) (f : Formula) : Prop where
  wellFormed : f.WellFormed Word []
  free : f.freeVariables [] = []

/-- Names of sorts, each of which can stand for a variable. -/
def AreSorts (Word : String → Prop) (sorts : List String) : Prop :=
  ∀ v ∈ sorts, IsName Word v ∧ (domainOfSort? v).isSome = true

theorem quantify_cons (f : Formula) (sorts : List String)
    (h : (domainOfSort? v).isSome = true) :
    quantify (v :: sorts) f = .all v (sortDomain v) (quantify sorts f) := by
  rcases sort_cases h with rfl | rfl | rfl <;> rfl

theorem WellFormed.quantify {f : Formula} (wf : f.WellFormed Word []) {sorts : List String}
    (are : AreSorts Word sorts) : (f.quantify sorts).WellFormed Word [] := by
  induction sorts with
  | nil => exact wf
  | cons v sorts ih =>
    obtain ⟨⟨isName, sort⟩, are⟩ := List.forall_mem_cons.1 are
    rw [quantify_cons f sorts sort]
    exact ⟨isName, isDomainName_of_mem (sortDomain_mem sort), (ih are).widen (widens_sort [] sort)⟩

theorem mem_freeVariables_quantify {f : Formula} {sorts : List String} {w : String}
    (are : AreSorts Word sorts) :
    w ∈ (f.quantify sorts).freeVariables [] ↔ w ∈ f.freeVariables [] ∧ w ∉ sorts := by
  induction sorts with
  | nil => simp [Formula.quantify]
  | cons v sorts ih =>
    obtain ⟨⟨-, sort⟩, are⟩ := List.forall_mem_cons.1 are
    rw [quantify_cons f sorts sort, freeVariables, ← List.nil_append [v],
      mem_freeVariables_append, ih are]
    simp [and_assoc, and_comm]

/-- **The closure of a well-formed formula is closed.** -/
theorem WellFormed.closure {f : Formula} (wf : f.WellFormed Word []) :
    f.closure.IsClosed Word := by
  have are : AreSorts Word (f.freeVariables []).eraseDups := fun v hv =>
    wf.sort_of_free (List.Subset.refl []) (List.mem_eraseDups.1 hv)
  refine ⟨wf.quantify are, List.eq_nil_iff_forall_not_mem.2 fun v hv => ?_⟩
  obtain ⟨free, bound⟩ := (mem_freeVariables_quantify are).1 hv
  exact bound (List.mem_eraseDups.2 free)

/-- A formula without free variables is its own closure. -/
theorem closure_eq_self {f : Formula} (h : f.freeVariables [] = []) : f.closure = f := by
  rw [Formula.closure, h]
  rfl

end Formula

/-- What a declaration says is closed. -/
theorem isClosed_of_closedFormula {stop : Position} {context : Context} {ts rest : List Token}
    {f : Formula} (spelled : Spelled Word ts)
    (h : outcome (closedFormula stop context ts) = some (f, rest)) : f.IsClosed Word := by
  rw [outcome_closedFormula, Option.bind_eq_some_iff] at h
  obtain ⟨⟨g, r⟩, hg, h⟩ := h
  split at h
  · cases h
    exact (wellFormed_of_formula spelled (by simp) hg).closure
  · cases h

/-- What a text says is closed. -/
theorem isClosed_of_parseFormula {s : String} {f : Formula}
    (spelled : ∀ stream, scan s = .ok stream → Spelled Word stream.tokens)
    (h : parseFormula s = .ok f) : f.IsClosed Word := by
  obtain ⟨stream, g, hscan, hg, rfl⟩ := parseFormula_eq_ok_iff.1 h
  exact (wellFormed_of_formula (spelled stream hscan) (by simp) hg).closure

end ChangeControl.Rule
