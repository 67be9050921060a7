import ChangeControl.Rule.Formula
/-!
What a rule text declares.

Main definitions:

* `Rule.Kind` — the three kinds of formula blocks, which are all checked alike;
* `Rule.TransitionDecl`, `Rule.WorkflowDecl`, `Rule.FormulaDecl` — declarations, each with the
  offset at which it starts;
* `Rule.Document` — everything that one text declares, in the order of the text.
-/

set_option autoImplicit false

namespace ChangeControl.Rule

/-- What the author of a formula block calls it. -/
inductive Kind
  | invariant | proof
  /-- A rule taken for granted. -/
  | postulate
deriving DecidableEq, Repr

/-- The word that opens the block. -/
def Kind.word : Kind → String
  | invariant => "invariant"
  | proof => "proof"
  | postulate => "axiom"

/-- The kind of block that a word opens. -/
def Kind.ofWord? (word : String) : Option Kind :=
  if word = "invariant" then some .invariant
  else if word = "proof" then some .proof
  else if word = "axiom" then some .postulate
  else none

theorem Kind.ofWord?_word (k : Kind) : Kind.ofWord? k.word = some k := by
  cases k <;> rfl

/-- A declared move of a workflow from one state to another. -/
structure TransitionDecl where
  source : String
  target : String
  precondition : Formula
  postcondition : Formula
  effects : List String
  critical : Bool
  offset : Nat
deriving DecidableEq, Repr

/-- A declared workflow. -/
structure WorkflowDecl where
  name : String
  states : List String
  transitions : List TransitionDecl
  parameters : List String
  offset : Nat
deriving DecidableEq, Repr

/-- A declared rule about every snapshot. -/
structure FormulaDecl where
  kind : Kind
  name : String
  formula : Formula
  offset : Nat
deriving DecidableEq, Repr

/-- The declarations of one text, workflows and formula blocks each in their order. -/
structure Document where
  workflows : List WorkflowDecl
  formulas : List FormulaDecl
deriving DecidableEq, Repr

namespace Document

/-- The document without declarations. -/
def empty : Document := ⟨[], []⟩

/-- The document with one more workflow in front. -/
def addWorkflow (w : WorkflowDecl) (d : Document) : Document :=
  { d with workflows := w :: d.workflows }

/-- The document with one more formula block in front. -/
def addFormula (f : FormulaDecl) (d : Document) : Document :=
  { d with formulas := f :: d.formulas }

end Document

end ChangeControl.Rule
