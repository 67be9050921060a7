import ChangeControl.Proofs.Rule.Declarations
import ChangeControl.Proofs.Workflow.Declared
import ChangeControl.Text.Occurrence
/-!
What the checks report.

The checks of a workflow are to name everything that is missing, not only the first of it.  They do
so for predicates and for domains, at any depth of any formula.  For states they do so where they
look: they do not look at arguments that the predicate does not take, nor at the element of a
membership test whose domain is not in order.

Main definitions:

* `declaredFormulas` — the formulas of a workflow and the blocks beside it, with their places;
* `Scope.lookedAt` — the terms of a node that are looked at;
* `Scope.Misses` — what a node refers to and is not there;
* `Reports` — problems that name what is missing.

Main results:

* `Scope.mem_formulaFaults_iff` — **what is reported as missing in a formula**;
* `Registry.reports_of_load` — **what is reported as missing in a text**.
-/

set_option autoImplicit false

namespace ChangeControl

open Rule (Term Formula Kind TransitionDecl WorkflowDecl FormulaDecl Document)

/-! ### What is missing -/

/-- The fault is that something is not there. -/
def Fault.IsMissing : Fault → Prop
  | unknownState _ | unknownDomain _ | unknownPredicate _ => True
  | unknownEffect _ | domainOutsideParameters .. | arity .. | literalForDomain ..
  | argumentKind .. | neverMember .. | repeatedTransition | repeatedName | reservedName _ => False

section IsMissing

variable {fault other : Fault} {p : Prop} [Decidable p]

theorem Fault.IsMissing.notMem_unless (missing : fault.IsMissing) (present : ¬ other.IsMissing) :
    fault ∉ if p then [] else [other] := by
  intro h
  split at h
  · cases h
  · exact present (List.mem_singleton.1 h ▸ missing)

theorem Fault.IsMissing.notMem_when (missing : fault.IsMissing) (present : ¬ other.IsMissing) :
    fault ∉ if p then [other] else [] := by
  intro h
  split at h
  · exact present (List.mem_singleton.1 h ▸ missing)
  · cases h

end IsMissing

namespace Scope

/-- The terms of a node that are looked at: as many arguments as the predicate takes, or all of them
where the predicate is not known; and the element of a membership test whose domain is in order. -/
def lookedAt (s : Scope) : Formula → List Term
  | .pred name args =>
    match s.vocabulary.find? name with
    | none => args
    | some q => args.take q.params.length
  | .member element domain _ => if (s.domainFaults domain).isEmpty then [element] else []
  | .truth _ | .not _ | .and _ | .or _ | .implies .. | .all .. | .any .. | .bare _ => []

/-- What the term refers to is not there, which is a fault. -/
inductive Lacks (s : Scope) : Term → Fault → Prop
  | domain {name : String} (missing : Domain.ofName? name = none) :
      Lacks s (.domain name) (.unknownDomain name)
  | state {name : String} (missing : name ∉ s.states) :
      Lacks s (.state name) (.unknownState name)

/-- What the node refers to is not there, which is a fault: a predicate, a domain, or something that
a term refers to which is looked at. -/
inductive Misses (s : Scope) (g : Formula) : Fault → Prop
  | predicate {name : String} {args : List Term} (node : g = .pred name args)
      (missing : s.vocabulary.find? name = none) : Misses s g (.unknownPredicate name)
  | domain {name : String} (node : g.domain? = some name) (missing : Domain.ofName? name = none) :
      Misses s g (.unknownDomain name)
  | term {t : Term} {fault : Fault} (looked : t ∈ s.lookedAt g) (lacks : s.Lacks t fault) :
      Misses s g fault

variable {s : Scope} {env : KindEnv} {fault : Fault} {f g : Formula}

/-! ### Faults of a node -/

theorem mem_domainFaults_iff {name : String} (missing : fault.IsMissing) :
    fault ∈ s.domainFaults name ↔ fault = .unknownDomain name ∧ Domain.ofName? name = none := by
  rw [domainFaults]
  cases Domain.ofName? name with
  | none => simp
  | some d =>
    simp only [reduceCtorEq, and_false, iff_false]
    exact missing.notMem_unless id

theorem mem_termFaults_iff {t : Term} (missing : fault.IsMissing) :
    fault ∈ (s.termFaults env t).1 ↔ s.Lacks t fault := by
  cases t with
  | domain name =>
    rw [termFaults, mem_domainFaults_iff missing]
    constructor
    · rintro ⟨rfl, unknown⟩
      exact .domain unknown
    · rintro ⟨unknown⟩
      exact ⟨rfl, unknown⟩
  | state name =>
    constructor
    · intro h
      by_cases known : name ∈ s.states
      · simp [termFaults, known] at h
      · obtain rfl : fault = .unknownState name := by simpa [termFaults, known] using h
        exact .state known
    · rintro (_ | unknown)
      simp [termFaults, unknown]
  | var _ | literal _ | bare _ =>
    constructor
    · intro h
      cases h
    · intro h
      cases h

/-- The kind of an argument is another matter. -/
theorem mem_argumentFaults_iff {predicate : String} {t : Term} {expected : ValueKind}
    (missing : fault.IsMissing) :
    fault ∈ s.argumentFaults env predicate t expected ↔ s.Lacks t fault := by
  rw [argumentFaults, List.mem_append, mem_termFaults_iff missing]
  refine or_iff_left ?_
  intro other
  split at other
  · exact missing.notMem_when id other
  · exact missing.notMem_unless id other
  · cases other

/-- As many arguments are looked at as there are parameters. -/
theorem map_fst_zip_eq_take (args : List Term) (params : List ValueKind) :
    (args.zip params).map Prod.fst = args.take params.length := by
  induction args generalizing params with
  | nil => rw [List.zip_nil_left, List.take_nil, List.map_nil]
  | cons t args ih =>
    cases params with
    | nil => rfl
    | cons k params => exact congrArg (t :: ·) (ih params)

theorem mem_predicateFaults_iff {name : String} {args : List Term} (missing : fault.IsMissing) :
    fault ∈ s.predicateFaults env name args ↔ s.Misses (.pred name args) fault := by
  have each : s.Misses (.pred name args) fault ↔
      (s.vocabulary.find? name = none ∧ fault = .unknownPredicate name) ∨
        ∃ t ∈ s.lookedAt (.pred name args), s.Lacks t fault := by
    constructor
    · rintro (⟨node, unknown⟩ | ⟨node, unknown⟩ | ⟨ht, lacks⟩)
      · cases node
        exact .inl ⟨unknown, rfl⟩
      · cases node
      · exact .inr ⟨_, ht, lacks⟩
    · rintro (⟨unknown, rfl⟩ | ⟨t, ht, lacks⟩)
      · exact .predicate rfl unknown
      · exact .term ht lacks
  rw [each, predicateFaults, lookedAt]
  cases s.vocabulary.find? name with
  | none =>
    simp only [List.mem_cons, List.mem_flatMap, mem_termFaults_iff missing, true_and]
  | some q =>
    have arity : fault ∉ (if args.length = q.params.length then []
        else [Fault.arity name q.params.length args.length]) := missing.notMem_unless id
    simp only [List.mem_append, arity, false_or, reduceCtorEq, false_and, List.mem_flatMap,
      mem_argumentFaults_iff missing, ← map_fst_zip_eq_take, List.mem_map, exists_exists_and_eq_and]

theorem mem_membershipFaults_iff {element : Term} {domain : String} (negated : Bool)
    (missing : fault.IsMissing) :
    fault ∈ s.membershipFaults env element domain ↔
      s.Misses (.member element domain negated) fault := by
  have each : s.Misses (.member element domain negated) fault ↔
      fault ∈ s.domainFaults domain ∨
        ((s.domainFaults domain).isEmpty = true ∧ s.Lacks element fault) := by
    rw [mem_domainFaults_iff missing]
    constructor
    · rintro (⟨node, unknown⟩ | ⟨node, unknown⟩ | ⟨ht, lacks⟩)
      · cases node
      · cases node
        exact .inl ⟨rfl, unknown⟩
      · rw [lookedAt] at ht
        split at ht
        · next admitted => exact .inr ⟨admitted, List.mem_singleton.1 ht ▸ lacks⟩
        · cases ht
    · rintro (⟨rfl, unknown⟩ | ⟨admitted, lacks⟩)
      · exact .domain rfl unknown
      · exact .term (by rw [lookedAt, if_pos admitted]; exact List.mem_singleton_self _) lacks
  rw [each, membershipFaults]
  cases hfaults : s.domainFaults domain with
  | cons first faults => simp
  | nil =>
    obtain ⟨d, named⟩ := exists_of_domainFaults hfaults
    simp only [named, List.not_mem_nil, List.isEmpty_nil, true_and, false_or, List.mem_append,
      mem_termFaults_iff missing]
    refine or_iff_left ?_
    intro other
    split at other
    · exact missing.notMem_unless id other
    · cases other

/-- A node that refers to a domain only. -/
theorem misses_iff_of_domain {d : String} (domain : f.domain? = some d)
    (silent : ∀ name args, f ≠ .pred name args) (terms : s.lookedAt f = [])
    (missing : fault.IsMissing) : s.Misses f fault ↔ fault ∈ s.domainFaults d := by
  rw [mem_domainFaults_iff missing]
  constructor
  · rintro (⟨node, unknown⟩ | ⟨node, unknown⟩ | ⟨ht, lacks⟩)
    · exact absurd node (silent _ _)
    · rw [domain] at node
      obtain rfl := Option.some.inj node
      exact ⟨rfl, unknown⟩
    · rw [terms] at ht
      cases ht
  · rintro ⟨rfl, unknown⟩
    exact .domain domain unknown

/-- A node that refers to nothing. -/
theorem not_misses (domain : f.domain? = none) (silent : ∀ name args, f ≠ .pred name args)
    (terms : s.lookedAt f = []) : ¬ s.Misses f fault := by
  rintro (⟨node, unknown⟩ | ⟨node, unknown⟩ | ⟨ht, lacks⟩)
  · exact absurd node (silent _ _)
  · rw [domain] at node
    cases node
  · rw [terms] at ht
    cases ht

/-! ### Faults of a formula -/

theorem mem_formulasFaults_iff {fs : List Formula} :
    fault ∈ s.formulasFaults fs env ↔ ∃ f ∈ fs, fault ∈ s.formulaFaults f env := by
  induction fs with
  | nil => simp [formulasFaults]
  | cons f fs ih =>
    rw [formulasFaults, List.mem_append, ih]
    simp

/-- **What is reported as missing in a formula** is what its nodes refer to and is not there, at any
depth. -/
theorem mem_formulaFaults_iff (f : Formula) (env : KindEnv) (missing : fault.IsMissing) :
    fault ∈ s.formulaFaults f env ↔ ∃ g ∈ f.walk, s.Misses g fault := by
  induction f generalizing env with
  | truth b | bare text =>
    rw [formulaFaults, Formula.exists_mem_walk_of_leaf rfl]
    exact iff_of_false List.not_mem_nil (not_misses rfl (by simp) rfl)
  | pred name args =>
    rw [formulaFaults, mem_predicateFaults_iff missing, Formula.exists_mem_walk_of_leaf rfl]
  | member element domain negated =>
    rw [formulaFaults, mem_membershipFaults_iff negated missing,
      Formula.exists_mem_walk_of_leaf rfl]
  | not f ih =>
    have node : ¬ s.Misses (.not f) fault := not_misses rfl (by simp) rfl
    rw [formulaFaults, ih, Formula.exists_mem_walk_of_child (f := .not f) rfl, or_iff_right node]
  | and fs ih | or fs ih =>
    rw [formulaFaults, mem_formulasFaults_iff, Formula.exists_mem_walk,
      or_iff_right (not_misses rfl (by simp) rfl)]
    exact exists_congr fun f => and_congr_right fun hf => ih f hf env
  | implies f g ihf ihg =>
    have node : ¬ s.Misses (.implies f g) fault := not_misses rfl (by simp) rfl
    rw [formulaFaults, List.mem_append, ihf, ihg, Formula.exists_mem_walk (f := .implies f g),
      or_iff_right node, Formula.children]
    simp only [List.mem_cons, List.not_mem_nil, or_false, exists_eq_or_imp, exists_eq_left]
  | all v d f ih | any v d f ih =>
    rw [formulaFaults, List.mem_append, ih]
    refine Iff.trans (or_congr_left ?_) (Formula.exists_mem_walk_of_child rfl).symm
    exact (misses_iff_of_domain rfl (by simp) rfl missing).symm

end Scope

/-! ### Problems of a workflow -/

/-- The formulas of a transition, with their places. -/
def Rule.TransitionDecl.placed (t : TransitionDecl) : List (Place × Formula) :=
  [(.precondition t.source t.target, t.precondition),
    (.postcondition t.source t.target, t.postcondition)]

/-- The formulas of a workflow and of the blocks beside it, with their places. -/
def declaredFormulas (w : WorkflowDecl) (blocks : List FormulaDecl) : List (Place × Formula) :=
  w.transitions.flatMap TransitionDecl.placed ++
    blocks.map fun b => (.block b.kind b.name, b.formula)

/-- The place is one of a formula. -/
def Place.IsFormula : Place → Prop
  | precondition .. | postcondition .. | block .. => True
  | transition .. => False

section Problems

variable {s : Scope} {vocabulary : Vocabulary} {w : WorkflowDecl} {blocks : List FormulaDecl}
  {place : Place} {fault : Fault} {f : Formula}

theorem isFormula_of_mem (h : (place, f) ∈ declaredFormulas w blocks) : place.IsFormula := by
  rcases List.mem_append.1 h with h | h
  · obtain ⟨t, -, h⟩ := List.mem_flatMap.1 h
    simp only [TransitionDecl.placed, List.mem_cons, List.not_mem_nil, or_false, Prod.mk.injEq] at h
    rcases h with ⟨rfl, -⟩ | ⟨rfl, -⟩ <;> trivial
  · obtain ⟨b, -, heq⟩ := List.mem_map.1 h
    cases heq
    trivial

theorem located_mem_faultsAt_iff {place' : Place} {faults : List Fault} :
    .located place fault ∈ faultsAt place' faults ↔ place' = place ∧ fault ∈ faults := by
  simp only [faultsAt, List.mem_map, Problem.located.injEq]
  constructor
  · rintro ⟨_, h, rfl, rfl⟩
    exact ⟨rfl, h⟩
  · rintro ⟨rfl, h⟩
    exact ⟨fault, h, rfl, rfl⟩

theorem located_mem_transitionProblems_iff {seen : List (String × String)} {t : TransitionDecl}
    (isFormula : place.IsFormula) :
    .located place fault ∈ transitionProblems s seen t ↔
      ∃ f, (place, f) ∈ t.placed ∧ fault ∈ s.formulaFaults f [] := by
  have other : Place.transition t.source t.target ≠ place := by
    rintro rfl
    exact isFormula
  simp only [transitionProblems, List.mem_append, located_mem_faultsAt_iff, other, false_and,
    false_or, TransitionDecl.placed, List.mem_cons, List.not_mem_nil, or_false, Prod.mk.injEq]
  constructor
  · rintro (⟨rfl, h⟩ | ⟨rfl, h⟩)
    · exact ⟨_, .inl ⟨rfl, rfl⟩, h⟩
    · exact ⟨_, .inr ⟨rfl, rfl⟩, h⟩
  · rintro ⟨f, ⟨rfl, rfl⟩ | ⟨rfl, rfl⟩, h⟩
    · exact .inl ⟨rfl, h⟩
    · exact .inr ⟨rfl, h⟩

theorem located_mem_transitionsProblems_iff {seen : List (String × String)}
    {ts : List TransitionDecl} (isFormula : place.IsFormula) :
    .located place fault ∈ transitionsProblems s seen ts ↔
      ∃ f, (place, f) ∈ ts.flatMap TransitionDecl.placed ∧ fault ∈ s.formulaFaults f [] := by
  induction ts generalizing seen with
  | nil => simp [transitionsProblems]
  | cons t ts ih =>
    rw [transitionsProblems, List.mem_append, located_mem_transitionProblems_iff isFormula, ih,
      List.flatMap_cons]
    simp only [List.mem_append, or_and_right, exists_or]

/-- Whether the name of a block may be used is another matter. -/
theorem located_mem_blockProblems_iff {seen : List String} {b : FormulaDecl}
    (missing : fault.IsMissing) :
    .located place fault ∈ blockProblems s seen b ↔
      .block b.kind b.name = place ∧ fault ∈ s.formulaFaults b.formula [] := by
  rw [blockProblems, located_mem_faultsAt_iff, List.mem_append, List.mem_append]
  refine and_congr_right fun _ => or_iff_right (not_or.2 ⟨missing.notMem_when id, ?_⟩)
  cases Core.find? b.name with
  | none => exact List.not_mem_nil
  | some core => exact missing.notMem_unless id

theorem located_mem_blocksProblems_iff {seen : List String} (missing : fault.IsMissing) :
    .located place fault ∈ blocksProblems s seen blocks ↔
      ∃ b ∈ blocks, .block b.kind b.name = place ∧ fault ∈ s.formulaFaults b.formula [] := by
  induction blocks generalizing seen with
  | nil => simp [blocksProblems]
  | cons b blocks ih =>
    rw [blocksProblems, List.mem_append, located_mem_blockProblems_iff missing, ih]
    simp only [List.mem_cons, exists_eq_or_imp]

/-- **What is reported as missing** at the place of a formula is what the formulas of this place
refer to and is not there. -/
theorem located_mem_problems_iff (isFormula : place.IsFormula) (missing : fault.IsMissing) :
    .located place fault ∈ problems vocabulary w blocks ↔
      ∃ f, (place, f) ∈ declaredFormulas w blocks ∧
        ∃ g ∈ f.walk, (scopeOf vocabulary w).Misses g fault := by
  have head : .located place fault ∉ (if w.states.isEmpty then [Problem.noStates w.name] else []) ++
      (repetitions [] w.states).map .repeatedState ++
      (w.parameters.filter fun p => (Domain.ofName? p).isNone).map .unknownParameter := by
    intro h
    simp only [List.mem_append, List.mem_map, reduceCtorEq, and_false, exists_false, or_false] at h
    split at h
    · simp at h
    · cases h
  have block : (∃ b ∈ blocks, .block b.kind b.name = place ∧
      fault ∈ (scopeOf vocabulary w).formulaFaults b.formula []) ↔
        ∃ f, (place, f) ∈ blocks.map (fun b => (Place.block b.kind b.name, b.formula)) ∧
          fault ∈ (scopeOf vocabulary w).formulaFaults f [] := by
    simp only [List.mem_map, Prod.mk.injEq]
    constructor
    · rintro ⟨b, hb, hplace, h⟩
      exact ⟨b.formula, ⟨b, hb, hplace, rfl⟩, h⟩
    · rintro ⟨_, ⟨b, hb, hplace, rfl⟩, h⟩
      exact ⟨b, hb, hplace, h⟩
  simp only [problems]
  rw [List.mem_append, List.mem_append, or_iff_right head,
    located_mem_transitionsProblems_iff isFormula, located_mem_blocksProblems_iff missing, block]
  simp only [declaredFormulas, List.mem_append, or_and_right, exists_or,
    Scope.mem_formulaFaults_iff _ _ missing]

end Problems

/-! ### Domains as arguments -/

/-- The domains among the terms of a node are known. -/
def Rule.Formula.ArgumentsKnown (g : Formula) : Prop :=
  ∀ name, .domain name ∈ g.terms → name ∈ Rule.domainNames

theorem Rule.Formula.argumentsKnown_of_terms {g : Formula} (terms : g.terms = []) :
    g.ArgumentsKnown := by
  intro name h
  rw [terms] at h
  cases h

/-- No word but the name of a known domain is read as a domain where a term stands. -/
theorem Rule.Formula.WellFormed.argumentsKnown {Word : String → Prop} {f : Formula}
    {scope : List String} (wf : f.WellFormed Word scope) : ∀ g ∈ f.walk, g.ArgumentsKnown := by
  induction f generalizing scope with
  | truth b | bare text =>
    exact (Formula.forall_mem_walk_of_leaf rfl).2 (argumentsKnown_of_terms rfl)
  | pred name args =>
    refine (Formula.forall_mem_walk_of_leaf rfl).2 fun d hd => ?_
    exact wf.2 _ hd
  | member element domain negated =>
    refine (Formula.forall_mem_walk_of_leaf rfl).2 fun d hd => ?_
    obtain rfl := List.mem_singleton.1 hd
    exact wf.1
  | not f ih => exact Formula.forall_mem_walk_not.2 ⟨argumentsKnown_of_terms rfl, ih wf⟩
  | and fs ih | or fs ih =>
    have each := Formula.wellFormedAll_iff.1 wf.2
    exact Formula.forall_mem_walk.2
      ⟨argumentsKnown_of_terms rfl, fun f hf => ih f hf (each f hf)⟩
  | implies f g ihf ihg =>
    exact Formula.forall_mem_walk_implies.2 ⟨argumentsKnown_of_terms rfl, ihf wf.1, ihg wf.2⟩
  | all v d f ih | any v d f ih =>
    exact (Formula.forall_mem_walk_of_child rfl).2 ⟨argumentsKnown_of_terms rfl, ih wf.2.2⟩

theorem Rule.mem_sentences_of_mem {d : Document} {w : WorkflowDecl} {place : Place} {f : Formula}
    (hw : w ∈ d.workflows) (h : (place, f) ∈ declaredFormulas w d.formulas) : f ∈ d.sentences := by
  rcases List.mem_append.1 h with h | h
  · obtain ⟨t, ht, h⟩ := List.mem_flatMap.1 h
    refine List.mem_append_left _ (List.mem_flatMap.2 ⟨w, hw, List.mem_flatMap.2 ⟨t, ht, ?_⟩⟩)
    simp only [TransitionDecl.placed, TransitionDecl.formulas, List.mem_cons, List.not_mem_nil,
      or_false, Prod.mk.injEq] at h ⊢
    exact h.imp And.right And.right
  · obtain ⟨b, hb, heq⟩ := List.mem_map.1 h
    cases heq
    exact List.mem_append_right _ (List.mem_map_of_mem hb)

/-! ### Loading -/

/-- The problems name what the formulas refer to and is not there. -/
structure Reports (s : Scope) (formulas : List (Place × Formula)) (ps : List Problem) : Prop where
  /-- Every unknown predicate is named, at its place. -/
  predicate : ∀ place f, (place, f) ∈ formulas → ∀ g ∈ f.walk, ∀ name args,
    g = .pred name args → s.vocabulary.find? name = none →
      .located place (.unknownPredicate name) ∈ ps
  /-- Every unknown domain is named, at its place. -/
  domain : ∀ place f, (place, f) ∈ formulas → ∀ g ∈ f.walk, ∀ name,
    g.domain? = some name ∨ .domain name ∈ g.terms → Domain.ofName? name = none →
      .located place (.unknownDomain name) ∈ ps
  /-- A state that is not declared is named at a place exactly if it is looked at there. -/
  state : ∀ place f, (place, f) ∈ formulas → ∀ g ∈ f.walk, ∀ name,
    .state name ∈ g.terms → name ∉ s.states →
      (.located place (.unknownState name) ∈ ps ↔
        ∃ f', (place, f') ∈ formulas ∧ ∃ h ∈ f'.walk, .state name ∈ s.lookedAt h)
  /-- Nothing is named as missing that is there. -/
  only : ∀ place f, (place, f) ∈ formulas → ∀ fault, fault.IsMissing → .located place fault ∈ ps →
    ∃ f', (place, f') ∈ formulas ∧ ∃ g ∈ f'.walk, s.Misses g fault

/-- The problems of a workflow are reports, where no unknown domain is given to a predicate. -/
theorem reports_problems {vocabulary : Vocabulary} {w : WorkflowDecl} {blocks : List FormulaDecl}
    (known : ∀ place f, (place, f) ∈ declaredFormulas w blocks → ∀ g ∈ f.walk,
      g.ArgumentsKnown) :
    Reports (scopeOf vocabulary w) (declaredFormulas w blocks) (problems vocabulary w blocks) where
  predicate := by
    rintro place f hf _ hg name args rfl unknown
    have missing : (Fault.unknownPredicate name).IsMissing := trivial
    refine (located_mem_problems_iff (isFormula_of_mem hf) missing).2 ⟨f, hf, _, hg, ?_⟩
    exact .predicate rfl unknown
  domain := by
    have missing (name : String) : (Fault.unknownDomain name).IsMissing := trivial
    rintro place f hf g hg name (node | argument) unknown
    · refine (located_mem_problems_iff (isFormula_of_mem hf) (missing name)).2 ⟨f, hf, g, hg, ?_⟩
      exact .domain node unknown
    · have isDomain := (Domain.isSome_ofName?_iff name).2 (known place f hf g hg name argument)
      rw [unknown] at isDomain
      cases isDomain
  state := by
    intro place f hf g hg name _ undeclared
    have missing : (Fault.unknownState name).IsMissing := trivial
    rw [located_mem_problems_iff (isFormula_of_mem hf) missing]
    refine exists_congr fun f' => and_congr_right fun _ =>
      exists_congr fun h => and_congr_right fun _ => ?_
    constructor
    · rintro (_ | _ | ⟨looked, _ | _⟩)
      exact looked
    · intro looked
      exact .term looked (.state undeclared)
  only := fun _ _ hf _ missing => (located_mem_problems_iff (isFormula_of_mem hf) missing).1

namespace Registry

variable {r : Registry} {text : String} {d : Document} {w : WorkflowDecl} {e : LoadError}

/-- A text with one workflow is refused with the problems of this workflow. -/
theorem eq_of_load_error (refused : r.load text = .error (.inconsistent e))
    (parsed : Rule.parse text = .ok d) (single : d.workflows = [w]) :
    e = .inconsistent w.name (problems r.vocabulary w d.formulas) := by
  rw [load, check, parsed] at refused
  simp only [buildWorkflow, single] at refused
  cases hps : problems r.vocabulary w d.formulas with
  | nil => simp [hps] at refused
  | cons p ps => simpa [hps, eq_comm] using refused

/-- **What is reported as missing in a text.**  A text with one workflow that is refused is refused
with a list of problems which names every unknown predicate and every unknown domain in its
formulas, at any depth, the states that are not declared where they are looked at, and nothing else
as missing. -/
theorem reports_of_load (refused : r.load text = .error (.inconsistent e))
    (parsed : Rule.parse text = .ok d) (single : d.workflows = [w]) :
    ∃ ps, e = .inconsistent w.name ps ∧
      Reports (scopeOf r.vocabulary w) (declaredFormulas w d.formulas) ps := by
  refine ⟨_, eq_of_load_error refused parsed single, reports_problems ?_⟩
  intro place f hf
  have sentence : f ∈ d.sentences := Rule.mem_sentences_of_mem (by simp [single]) hf
  exact (Rule.isClosed_of_parse parsed f sentence).wellFormed.argumentsKnown

/-- At a rule with an unknown predicate of a state that is not declared, and an unknown domain. -/
theorem reports_of_load_widgets :
    ∃ d w e ps, (⟨.full, []⟩ : Registry).load
        "workflow W \x7b states: [A]; \x7d\ninvariant that x: p(Zed) and Yon in widgets" =
          .error (.inconsistent e) ∧
      Rule.parse
        "workflow W \x7b states: [A]; \x7d\ninvariant that x: p(Zed) and Yon in widgets" = .ok d ∧
      d.workflows = [w] ∧ e = .inconsistent w.name ps ∧
      Reports (scopeOf .full w) (declaredFormulas w d.formulas) ps := by
  have parsed : Rule.parse
      "workflow W \x7b states: [A]; \x7d\ninvariant that x: p(Zed) and Yon in widgets" =
      .ok ⟨[⟨"W", ["A"], [], [], 0⟩],
        [⟨.invariant, "x", .and [.pred "p" [.state "Zed"], .member (.state "Yon") "widgets" false],
          28⟩]⟩ := by decide +kernel
  have refused : (⟨.full, []⟩ : Registry).load
      "workflow W \x7b states: [A]; \x7d\ninvariant that x: p(Zed) and Yon in widgets" =
      .error (.inconsistent (.inconsistent "W"
        [.located (.block .invariant "x") (.unknownPredicate "p"),
          .located (.block .invariant "x") (.unknownState "Zed"),
          .located (.block .invariant "x") (.unknownDomain "widgets")])) := by decide +kernel
  obtain ⟨ps, hps, reports⟩ := reports_of_load refused parsed rfl
  exact ⟨_, _, _, ps, refused, parsed, rfl, hps, reports⟩

/-- An element that is not declared is not named where the domain that is tested is unknown. -/
theorem exists_not_reported :
    ¬ ∀ (entries : List Workflow) (text : String) (d : Document) (w : WorkflowDecl)
        (name : String) (ps : List Problem),
      (⟨.full, entries⟩ : Registry).load text = .error (.inconsistent (.inconsistent name ps)) →
      Rule.parse text = .ok d → d.workflows = [w] →
      ∀ place f, (place, f) ∈ declaredFormulas w d.formulas → ∀ g ∈ f.walk, ∀ state,
        .state state ∈ g.terms → state ∉ w.states →
          ∃ fault, .located place fault ∈ ps ∧ Text.mentions fault.message state = true := by
  intro reports
  have parsed : Rule.parse "workflow W \x7b states: [A]; \x7d\ninvariant that x: Zed in widgets" =
      .ok ⟨[⟨"W", ["A"], [], [], 0⟩],
        [⟨.invariant, "x", .member (.state "Zed") "widgets" false, 28⟩]⟩ := by decide +kernel
  have refused : (⟨.full, []⟩ : Registry).load
      "workflow W \x7b states: [A]; \x7d\ninvariant that x: Zed in widgets" =
      .error (.inconsistent (.inconsistent "W"
        [.located (.block .invariant "x") (.unknownDomain "widgets")])) := by decide +kernel
  have node : Formula.member (.state "Zed") "widgets" false ∈
      (Formula.member (.state "Zed") "widgets" false).walk := by
    rw [Formula.walk_eq]
    exact List.mem_cons_self
  obtain ⟨fault, found, named⟩ := reports [] _ _ _ _ _ refused parsed rfl
    (.block .invariant "x") _ List.mem_cons_self _ node "Zed" List.mem_cons_self (by decide)
  rw [List.mem_singleton, Problem.located.injEq] at found
  obtain ⟨-, rfl⟩ := found
  revert named
  decide +kernel

end Registry

end ChangeControl
