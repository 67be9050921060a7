import ChangeControl.Proofs.Rule.Walk
import ChangeControl.Proofs.Workflow.Evaluation
/-!
References in formulas.

The checks walk through a formula with the kinds of its variables and collect every fault.  A
formula is without faults exactly if every node of it refers to what is there, a domain, a state, a
predicate with as many arguments as it takes, and if every argument and every element of a
membership test has the kind that its place asks for.

Main definitions:

* `Formula.terms`, `Formula.domain?` — what a node refers to;
* `Scope.Admits` — a domain that formulas may range over;
* `Scope.Resolves` — every reference of a node is in order;
* `Formula.Fits` — arguments and elements have the kinds that are asked for.

Main results:

* `Scope.formulaFaults_eq_nil_iff` — **a formula is without faults exactly if its references are in
  order and its kinds fit**.
-/

set_option autoImplicit false

namespace ChangeControl

open Rule (Term Formula)

/-! ### References -/

namespace Rule

/-- The terms of a node. -/
def Formula.terms : Formula → List Term
  | .pred _ args => args
  | .member element _ _ => [element]
  | .truth _ | .not _ | .and _ | .or _ | .implies .. | .all .. | .any .. | .bare _ => []

/-- The domain that a node ranges over or tests. -/
def Formula.domain? : Formula → Option String
  | .all _ d _ | .any _ d _ | .member _ d _ => some d
  | .truth _ | .pred .. | .not _ | .and _ | .or _ | .implies .. | .bare _ => none

end Rule

namespace Scope

/-- The name is that of a domain, and if there are parameters, its members are of the kind of one of
them. -/
def Admits (s : Scope) (name : String) : Prop :=
  ∃ d, Domain.ofName? name = some d ∧
    (s.parameters = [] ∨ ∃ p ∈ s.parameters, ∃ e, Domain.ofName? p = some e ∧ e.kind = d.kind)

/-- What the term refers to is there. -/
def Knows (s : Scope) : Term → Prop
  | .state name => name ∈ s.states
  | .domain name => s.Admits name
  | .var _ | .literal _ | .bare _ => True

/-- Every reference of the node is in order. -/
structure Resolves (s : Scope) (g : Formula) : Prop where
  domain : ∀ d, g.domain? = some d → s.Admits d
  terms : ∀ t ∈ g.terms, s.Knows t
  predicate : ∀ name args, g = .pred name args →
    ∃ q ∈ s.vocabulary, q.name = name ∧ args.length = q.params.length

end Scope

/-! ### Kinds -/

/-- The kind of a term, as far as it is known before anything is evaluated. -/
def Rule.Term.kind? (env : KindEnv) : Term → Option ValueKind
  | .var name => env.find? name
  | .domain _ => some .domain
  | .state _ => some .state
  | .literal _ | .bare _ => none

/-- The term may be an argument where the kind is asked for. -/
structure Rule.Term.Suits (env : KindEnv) (t : Term) (expected : ValueKind) : Prop where
  kind : ∀ given, t.kind? env = some given → given = expected
  literal : ∀ value, t = .literal value → expected ≠ .domain

namespace Rule.Formula

mutual

/-- Every argument has the kind that its predicate asks for, and every element of a membership test
the kind of the members of the domain. -/
def Fits (vocabulary : Vocabulary) : Formula → KindEnv → Prop
  | .pred name args, env =>
    ∀ q ∈ vocabulary, q.name = name → ∀ a ∈ args.zip q.params, a.1.Suits env a.2
  | .member element domain _, env =>
    ∀ d, Domain.ofName? domain = some d → ∀ given, element.kind? env = some given → given = d.kind
  | .not f, env => f.Fits vocabulary env
  | .and fs, env | .or fs, env => FitsAll vocabulary fs env
  | .implies f g, env => f.Fits vocabulary env ∧ g.Fits vocabulary env
  | .all v domain f, env | .any v domain f, env =>
    f.Fits vocabulary ((v, (Domain.ofName? domain).map Domain.kind) :: env)
  | .truth _, _ | .bare _, _ => True

/-- The same for several formulas. -/
def FitsAll (vocabulary : Vocabulary) : List Formula → KindEnv → Prop
  | [], _ => True
  | f :: fs, env => f.Fits vocabulary env ∧ FitsAll vocabulary fs env

end

theorem fitsAll_iff {vocabulary : Vocabulary} {fs : List Formula} {env : KindEnv} :
    FitsAll vocabulary fs env ↔ ∀ f ∈ fs, f.Fits vocabulary env := by
  induction fs with
  | nil => simp [FitsAll]
  | cons f fs ih => rw [FitsAll, ih, List.forall_mem_cons]

end Rule.Formula

/-! ### Faults of a node -/

theorem Vocabulary.find?_eq_some_iff {vocabulary : Vocabulary} {name : String} {q : Predicate} :
    vocabulary.find? name = some q ↔ q ∈ vocabulary ∧ q.name = name := by
  constructor
  · intro h
    exact ⟨List.mem_of_find?_eq_some h, by simpa using List.find?_some h⟩
  · rintro ⟨hq, rfl⟩
    exact find?_name_of_mem hq

namespace Scope

variable {s : Scope} {env : KindEnv} {t : Term} {f : Formula}

theorem admitted_contains_iff {k : ValueKind} :
    s.admitted.contains k = true ↔
      ∃ p ∈ s.parameters, ∃ e, Domain.ofName? p = some e ∧ e.kind = k := by
  rw [List.contains_iff_mem, admitted, List.mem_map]
  constructor
  · rintro ⟨e, he, kind⟩
    obtain ⟨p, hp, named⟩ := List.mem_filterMap.1 he
    exact ⟨p, hp, e, named, kind⟩
  · rintro ⟨p, hp, e, named, kind⟩
    exact ⟨e, List.mem_filterMap.2 ⟨p, hp, named⟩, kind⟩

theorem domainFaults_eq_nil_iff {name : String} : s.domainFaults name = [] ↔ s.Admits name := by
  unfold domainFaults Admits
  cases hname : Domain.ofName? name with
  | none => simp
  | some d =>
    simp only [Option.some.injEq, exists_eq_left', ite_eq_left_iff, reduceCtorEq, imp_false,
      not_not, Bool.or_eq_true, List.isEmpty_iff, admitted_contains_iff]

theorem kind_termFaults (s : Scope) (env : KindEnv) (t : Term) :
    (s.termFaults env t).2 = t.kind? env := by
  cases t <;> rfl

theorem termFaults_eq_nil_iff : (s.termFaults env t).1 = [] ↔ s.Knows t := by
  cases t with
  | domain name => exact domainFaults_eq_nil_iff
  | state name => simp [termFaults, Knows]
  | var _ | literal _ | bare _ => exact ⟨fun _ => trivial, fun _ => rfl⟩

/-- An argument is without faults where it refers to what is there and suits its place. -/
theorem argumentFaults_eq_nil_iff {predicate : String} {expected : ValueKind} :
    s.argumentFaults env predicate t expected = [] ↔ s.Knows t ∧ t.Suits env expected := by
  rw [argumentFaults, List.append_eq_nil_iff, termFaults_eq_nil_iff, kind_termFaults]
  refine and_congr_right fun _ => ?_
  cases t with
  | literal value =>
    by_cases domain : expected = .domain
    · subst domain
      constructor
      · intro h
        cases h
      · intro suits
        exact absurd rfl (suits.literal value rfl)
    · constructor
      · intro _
        exact ⟨fun _ hk => (by cases hk), fun _ _ => domain⟩
      · intro _
        exact if_neg domain
  | var _ | domain _ | state _ | bare _ =>
    split
    · next is => cases is
    · next given hgiven _ =>
      rw [ite_eq_left_iff]
      constructor
      · intro h
        refine ⟨fun k hk => ?_, fun _ same => by cases same⟩
        rw [hgiven] at hk
        obtain rfl := Option.some.inj hk
        by_contra differ
        cases h differ
      · intro suits differ
        exact absurd (suits.kind given hgiven) differ
    · next hnone _ =>
      refine ⟨fun _ => ⟨fun k hk => ?_, fun _ same => by cases same⟩, fun _ => rfl⟩
      rw [hnone] at hk
      cases hk

/-- An application is without faults where its predicate is known and takes that many arguments, and
each of them is in order. -/
theorem predicateFaults_eq_nil_iff {name : String} {args : List Term} :
    s.predicateFaults env name args = [] ↔
      s.Resolves (.pred name args) ∧ (Formula.pred name args).Fits s.vocabulary env := by
  rw [predicateFaults]
  cases hq : s.vocabulary.find? name with
  | none =>
    simp only [reduceCtorEq, false_iff]
    rintro ⟨resolves, -⟩
    obtain ⟨q, known, named, -⟩ := resolves.predicate name args rfl
    rw [Vocabulary.find?_eq_some_iff.2 ⟨known, named⟩] at hq
    cases hq
  | some q =>
    obtain ⟨known, named⟩ := Vocabulary.find?_eq_some_iff.1 hq
    have hargs : ((args.zip q.params).flatMap fun a => s.argumentFaults env name a.1 a.2) = [] ↔
        ∀ a ∈ args.zip q.params, s.Knows a.1 ∧ a.1.Suits env a.2 := by
      rw [List.flatMap_eq_nil_iff]
      exact forall₂_congr fun a _ => argumentFaults_eq_nil_iff
    simp only [List.append_eq_nil_iff, ite_eq_left_iff, reduceCtorEq, imp_false, not_not]
    rw [hargs]
    constructor
    · rintro ⟨length, each⟩
      refine ⟨⟨fun _ hd => (by cases hd), ?_, ?_⟩, ?_⟩
      · intro t ht
        -- with as many arguments as kinds, every argument is looked at
        have hfst : (args.zip q.params).map Prod.fst = args :=
          List.map_fst_zip (by omega)
        rw [Formula.terms, ← hfst] at ht
        obtain ⟨a, ha, rfl⟩ := List.mem_map.1 ht
        exact (each a ha).1
      · rintro _ _ ⟨⟩
        exact ⟨q, known, named, length⟩
      · intro p hp hname a ha
        obtain rfl := Predicate.name_injective (hname.trans named.symm)
        exact (each a ha).2
    · rintro ⟨resolves, fits⟩
      obtain ⟨p, -, hname, length⟩ := resolves.predicate name args rfl
      obtain rfl := Predicate.name_injective (hname.trans named.symm)
      refine ⟨length, fun a ha => ⟨resolves.terms a.1 (List.of_mem_zip ha).1, ?_⟩⟩
      exact fits p known hname a ha

/-- A membership test is without faults where its domain is known, and its element is in order. -/
theorem membershipFaults_eq_nil_iff {element : Term} {domain : String} {negated : Bool} :
    s.membershipFaults env element domain = [] ↔
      s.Resolves (.member element domain negated) ∧
        (Formula.member element domain negated).Fits s.vocabulary env := by
  rw [membershipFaults]
  cases hfaults : s.domainFaults domain with
  | cons fault faults =>
    simp only [reduceCtorEq, false_iff]
    rintro ⟨resolves, -⟩
    rw [domainFaults_eq_nil_iff.2 (resolves.domain domain rfl)] at hfaults
    cases hfaults
  | nil =>
    have admits := domainFaults_eq_nil_iff.1 hfaults
    obtain ⟨d, named, -⟩ := id admits
    simp only [named, List.append_eq_nil_iff]
    rw [termFaults_eq_nil_iff, kind_termFaults]
    constructor
    · rintro ⟨knows, kind⟩
      refine ⟨⟨?_, ?_, fun _ _ same => by cases same⟩, ?_⟩
      · rintro _ ⟨⟩
        exact admits
      · intro t ht
        obtain rfl := List.mem_singleton.1 ht
        exact knows
      · intro d' hd' given hgiven
        rw [named] at hd'
        obtain rfl := Option.some.inj hd'
        by_contra differ
        simp [hgiven, differ] at kind
    · rintro ⟨resolves, fits⟩
      refine ⟨resolves.terms element (List.mem_singleton_self _), ?_⟩
      cases hgiven : element.kind? env with
      | none => rfl
      | some given => exact if_pos (fits d named given hgiven)

/-! ### Faults of a formula -/

/-- A node that refers to a domain only is in order where that is. -/
theorem resolves_of_domain {d : String} (domain : f.domain? = some d) (terms : f.terms = [])
    (silent : ∀ name args, f ≠ .pred name args) : s.Resolves f ↔ s.Admits d := by
  refine ⟨fun resolves => resolves.domain d domain, fun admits => ⟨?_, ?_, ?_⟩⟩
  · intro d' hd'
    rw [domain] at hd'
    exact Option.some.inj hd' ▸ admits
  · rw [terms]
    exact List.forall_mem_nil _
  · intro name args same
    exact absurd same (silent name args)

/-- A node that refers to nothing is in order. -/
theorem resolves_of_silent (domain : f.domain? = none) (terms : f.terms = [])
    (silent : ∀ name args, f ≠ .pred name args) : s.Resolves f := by
  refine ⟨?_, ?_, ?_⟩
  · intro d hd
    rw [domain] at hd
    cases hd
  · rw [terms]
    exact List.forall_mem_nil _
  · intro name args same
    exact absurd same (silent name args)

theorem formulasFaults_eq_nil_iff {fs : List Formula} :
    s.formulasFaults fs env = [] ↔ ∀ f ∈ fs, s.formulaFaults f env = [] := by
  induction fs with
  | nil => simp [formulasFaults]
  | cons f fs ih => rw [formulasFaults, List.append_eq_nil_iff, ih, List.forall_mem_cons]

/-- A quantified formula is in order where its domain is known and its body is in order. -/
theorem quantified_iff {v d : String} {body : Formula}
    (node : s.Resolves f ↔ s.Admits d)
    (ih : ∀ env, s.formulaFaults body env = [] ↔
      (∀ g ∈ body.walk, s.Resolves g) ∧ body.Fits s.vocabulary env) :
    s.domainFaults d ++ s.formulaFaults body ((v, s.variableKind d) :: env) = [] ↔
      (s.Resolves f ∧ ∀ g ∈ body.walk, s.Resolves g) ∧
        body.Fits s.vocabulary ((v, (Domain.ofName? d).map Domain.kind) :: env) := by
  rw [List.append_eq_nil_iff, node, ← domainFaults_eq_nil_iff, and_assoc]
  refine and_congr_right fun faultless => ?_
  obtain ⟨dom, named⟩ := exists_of_domainFaults faultless
  rw [variableKind_eq faultless named, named, ih]
  rfl

/-- **A formula is without faults exactly if its references are in order and its kinds fit.** -/
theorem formulaFaults_eq_nil_iff (f : Formula) (env : KindEnv) :
    s.formulaFaults f env = [] ↔
      (∀ g ∈ f.walk, s.Resolves g) ∧ f.Fits s.vocabulary env := by
  induction f generalizing env with
  | truth b =>
    rw [Formula.forall_mem_walk_of_leaf rfl]
    exact iff_of_true rfl ⟨resolves_of_silent rfl rfl (by simp), trivial⟩
  | bare text =>
    rw [Formula.forall_mem_walk_of_leaf rfl]
    exact iff_of_true rfl ⟨resolves_of_silent rfl rfl (by simp), trivial⟩
  | pred name args =>
    rw [formulaFaults, predicateFaults_eq_nil_iff, Formula.forall_mem_walk_of_leaf rfl]
  | member element domain negated =>
    rw [formulaFaults, membershipFaults_eq_nil_iff, Formula.forall_mem_walk_of_leaf rfl]
  | not f ih =>
    have node : s.Resolves (.not f) := resolves_of_silent rfl rfl (by simp)
    rw [formulaFaults, ih, Formula.forall_mem_walk_not, and_iff_right node]
    rfl
  | and fs ih =>
    have node : s.Resolves (.and fs) := resolves_of_silent rfl rfl (by simp)
    rw [formulaFaults, formulasFaults_eq_nil_iff, Formula.forall_mem_walk_and, and_iff_right node,
      Formula.Fits, Formula.fitsAll_iff, ← forall₂_and]
    exact forall₂_congr fun f hf => ih f hf env
  | or fs ih =>
    have node : s.Resolves (.or fs) := resolves_of_silent rfl rfl (by simp)
    rw [formulaFaults, formulasFaults_eq_nil_iff, Formula.forall_mem_walk_or, and_iff_right node,
      Formula.Fits, Formula.fitsAll_iff, ← forall₂_and]
    exact forall₂_congr fun f hf => ih f hf env
  | implies f g ihf ihg =>
    have node : s.Resolves (.implies f g) := resolves_of_silent rfl rfl (by simp)
    rw [formulaFaults, List.append_eq_nil_iff, ihf, ihg, Formula.forall_mem_walk_implies,
      and_iff_right node]
    exact and_and_and_comm
  | all v d f ih =>
    have node : s.Resolves (.all v d f) ↔ s.Admits d := resolves_of_domain rfl rfl (by simp)
    rw [formulaFaults, quantified_iff node ih, Formula.forall_mem_walk_all]
    rfl
  | any v d f ih =>
    have node : s.Resolves (.any v d f) ↔ s.Admits d := resolves_of_domain rfl rfl (by simp)
    rw [formulaFaults, quantified_iff node ih, Formula.forall_mem_walk_any]
    rfl

end Scope

end ChangeControl
