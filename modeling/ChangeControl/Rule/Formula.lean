import ChangeControl.Rule.Word
/-!
Formulas of the rule language.

A formula is a tree over predicates and membership tests, with the usual connectives and with
quantifiers over named finite domains.  A tree put together by hand may also hold a *bare* leaf, a
text where a formula or a term should stand; a parser never builds one.

Main definitions:

* `Rule.Term`, `Rule.Formula` — the trees;
* `Formula.children`, `Formula.size` — immediate subformulas, number of nodes;
* `Formula.walk` — every node, parents before children, by a stack;
* `Formula.conjuncts` — the top-level conjuncts;
* `Formula.freeVariables` — the variables that no quantifier of the tree binds, in the order of
  their occurrences;
* `Formula.closure` — the formula with its free sort names quantified.

Main statements:

* `Formula.induction` — induction on formulas;
* `Formula.size_children_lt` — the children of a formula are together smaller than it.
-/

set_option autoImplicit false

namespace ChangeControl.Rule

/-- What a predicate or a membership test is applied to. -/
inductive Term
  /-- A variable. -/
  | var (name : String)
  /-- A finite domain. -/
  | domain (name : String)
  /-- A state of the workflow. -/
  | state (name : String)
  /-- A string literal. -/
  | literal (value : String)
  /-- A text that is no term. -/
  | bare (text : String)
deriving DecidableEq, Repr, Inhabited

/-- A formula. -/
inductive Formula
  | truth (value : Bool)
  /-- A named predicate applied to terms. -/
  | pred (name : String) (args : List Term)
  /-- The element is in the domain, or is not when `negated`. -/
  | member (element : Term) (domain : String) (negated : Bool)
  | not (operand : Formula)
  | and (operands : List Formula)
  | or (operands : List Formula)
  | implies (antecedent consequent : Formula)
  /-- Every member of the domain satisfies the body. -/
  | all (var domain : String) (body : Formula)
  /-- Some member of the domain satisfies the body. -/
  | any (var domain : String) (body : Formula)
  /-- A text that is no formula. -/
  | bare (text : String)
deriving Repr, Inhabited

namespace Formula

/-! ### Equality -/

mutual

/-- Whether two formulas are the same tree. -/
def same : Formula → Formula → Bool
  | truth a, truth b => a == b
  | pred n as, pred m bs => n == m && as == bs
  | member e d p, member f c q => e == f && d == c && p == q
  | not f, not g => f.same g
  | and fs, and gs | or fs, or gs => sameList fs gs
  | implies f f', implies g g' => f.same g && f'.same g'
  | all v d f, all w c g | any v d f, any w c g => v == w && d == c && f.same g
  | bare s, bare t => s == t
  | _, _ => false

/-- Whether two lists of formulas are the same. -/
def sameList : List Formula → List Formula → Bool
  | [], [] => true
  | f :: fs, g :: gs => f.same g && sameList fs gs
  | _, _ => false

end

mutual

theorem same_iff : ∀ f g : Formula, f.same g = true ↔ f = g
  | truth _, g | pred .., g | member .., g | bare _, g => by cases g <;> simp [same, and_assoc]
  | not f, g => by cases g <;> simp [same, same_iff f]
  | and fs, g | or fs, g => by cases g <;> simp [same, sameList_iff fs]
  | implies f f', g => by cases g <;> simp [same, same_iff f, same_iff f']
  | all _ _ f, g | any _ _ f, g => by cases g <;> simp [same, same_iff f, and_assoc]

theorem sameList_iff : ∀ fs gs : List Formula, sameList fs gs = true ↔ fs = gs
  | [], gs => by cases gs <;> simp [sameList]
  | f :: fs, gs => by cases gs <;> simp [sameList, same_iff f, sameList_iff fs]

end

instance : DecidableEq Formula := fun f g => decidable_of_iff (f.same g = true) (same_iff f g)

/-! ### Induction -/

/-- Induction on formulas: the operands of a conjunction or a disjunction are reached by
membership. -/
@[elab_as_elim, induction_eliminator]
theorem induction {motive : Formula → Prop} (truth : ∀ b, motive (.truth b))
    (pred : ∀ name args, motive (.pred name args))
    (member : ∀ element domain negated, motive (.member element domain negated))
    (not : ∀ f, motive f → motive (.not f))
    (and : ∀ fs, (∀ f ∈ fs, motive f) → motive (.and fs))
    (or : ∀ fs, (∀ f ∈ fs, motive f) → motive (.or fs))
    (implies : ∀ f g, motive f → motive g → motive (.implies f g))
    (all : ∀ v d f, motive f → motive (.all v d f))
    (any : ∀ v d f, motive f → motive (.any v d f)) (bare : ∀ text, motive (.bare text)) :
    ∀ f, motive f
  | .truth b => truth b
  | .pred name args => pred name args
  | .member element domain negated => member element domain negated
  | .not f => not f (induction truth pred member not and or implies all any bare f)
  | .and fs => and fs fun f _ => induction truth pred member not and or implies all any bare f
  | .or fs => or fs fun f _ => induction truth pred member not and or implies all any bare f
  | .implies f g => implies f g (induction truth pred member not and or implies all any bare f)
    (induction truth pred member not and or implies all any bare g)
  | .all v d f => all v d f (induction truth pred member not and or implies all any bare f)
  | .any v d f => any v d f (induction truth pred member not and or implies all any bare f)
  | .bare text => bare text

/-! ### Subformulas -/

/-- The immediate subformulas, from left to right. -/
def children : Formula → List Formula
  | not f => [f]
  | and fs | or fs => fs
  | implies f g => [f, g]
  | all _ _ f | any _ _ f => [f]
  | truth _ | pred .. | member .. | bare _ => []

mutual

/-- The number of nodes. -/
def size : Formula → Nat
  | truth _ | pred .. | member .. | bare _ => 1
  | not f | all _ _ f | any _ _ f => f.size + 1
  | and fs | or fs => totalSize fs + 1
  | implies f g => f.size + g.size + 1

/-- The number of nodes of several formulas. -/
def totalSize : List Formula → Nat
  | [] => 0
  | f :: fs => f.size + totalSize fs

end

@[simp] theorem totalSize_append (fs gs : List Formula) :
    totalSize (fs ++ gs) = totalSize fs + totalSize gs := by
  induction fs with
  | nil => simp [totalSize]
  | cons f fs ih => simp [totalSize, ih, Nat.add_assoc]

theorem size_children_lt (f : Formula) : totalSize f.children < f.size := by
  cases f <;> simp only [children, size, totalSize] <;> omega

/-- The nodes of the trees on a stack, top first: a node is taken off and its children are put on
in its place. -/
def walkStack : List Formula → List Formula
  | [] => []
  | f :: stack => f :: walkStack (f.children ++ stack)
termination_by stack => totalSize stack
decreasing_by
  have := f.size_children_lt
  simp [totalSize]
  omega

/-- Every node of the tree, parents before children. -/
def walk (f : Formula) : List Formula := walkStack [f]

mutual

/-- The formulas that a nest of conjunctions joins, from left to right. -/
def conjuncts : Formula → List Formula
  | and fs => conjunctsOf fs
  | f => [f]

/-- The conjuncts of several formulas. -/
def conjunctsOf : List Formula → List Formula
  | [] => []
  | f :: fs => f.conjuncts ++ conjunctsOf fs

end

/-! ### Free variables -/

/-- The variables among some terms. -/
def termVariables (terms : List Term) : List String :=
  terms.filterMap fun
    | .var name => some name
    | _ => none

mutual

/-- The variables that neither `bound` nor a quantifier of the tree binds, from left to right and
with repetitions. -/
def freeVariables (bound : List String) : Formula → List String
  | truth _ | bare _ => []
  | pred _ args => (termVariables args).filter fun v => !bound.contains v
  | member element _ _ => (termVariables [element]).filter fun v => !bound.contains v
  | not f => f.freeVariables bound
  | and fs | or fs => freeVariablesOf bound fs
  | implies f g => f.freeVariables bound ++ g.freeVariables bound
  | all v _ f | any v _ f => f.freeVariables (v :: bound)

/-- The free variables of several formulas. -/
def freeVariablesOf (bound : List String) : List Formula → List String
  | [] => []
  | f :: fs => f.freeVariables bound ++ freeVariablesOf bound fs

end

/-- The formula under a universal quantifier for each of some sort names, the first outermost. -/
def quantify (sorts : List String) (f : Formula) : Formula :=
  sorts.foldr
    (fun v body =>
      match domainOfSort? v with
      | some d => .all v d body
      | none => body)
    f

/-- The formula with every free sort name quantified over its domain, in the order in which the
names first occur. -/
def closure (f : Formula) : Formula := f.quantify (f.freeVariables []).eraseDups

/-- The name of the node. -/
def nodeName : Formula → String
  | truth _ => "Truth"
  | pred .. => "Predicate"
  | member .. => "Membership"
  | not _ => "Not"
  | and _ => "And"
  | or _ => "Or"
  | implies .. => "Implies"
  | all .. => "Forall"
  | any .. => "Exists"
  | bare _ => "str"

end Formula

end ChangeControl.Rule
