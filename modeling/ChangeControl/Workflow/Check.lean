import ChangeControl.Evaluation.Domain
import ChangeControl.Evaluation.Predicate
import ChangeControl.Rule.Formula.Printer
import ChangeControl.Workflow.Core
/-!
Checking a declared workflow.

Every reference of a document is checked before its workflow may be used, and every problem is
reported, in the order of the text.  A workflow that names parameters may only range over domains
whose members are of the kind of one of them; the core rules are built in and not subject to that.

Main definitions:

* `Place`, `Fault`, `Problem` — where and what a problem is, with `Problem.message`;
* `Scope` — what references are checked against;
* `Scope.formulaFaults` — the faults of a formula;
* `problems` — the problems of a document;
* `LoadError`, `buildWorkflow` — the workflow of a document, or all its problems.
-/

set_option autoImplicit false

namespace ChangeControl

open Rule (Term Formula Kind TransitionDecl WorkflowDecl FormulaDecl Document)

/-! ### Problems -/

/-- Where a problem is. -/
inductive Place
  /-- The ends or the effects of a transition. -/
  | transition (source target : String)
  | precondition (source target : String)
  | postcondition (source target : String)
  /-- A formula block. -/
  | block (kind : Kind) (name : String)
deriving DecidableEq, Repr

/-- The words for a place. -/
def Place.text : Place → String
  | transition s t => "transition " ++ s ++ " -> " ++ t
  | precondition s t => "transition " ++ s ++ " -> " ++ t ++ " (requires)"
  | postcondition s t => "transition " ++ s ++ " -> " ++ t ++ " (ensures)"
  | block kind name => kind.word ++ " " ++ Text.quote name

/-- What is wrong at a place. -/
inductive Fault
  | unknownState (name : String)
  | unknownEffect (name : String)
  | unknownDomain (name : String)
  | unknownPredicate (name : String)
  /-- A domain of a kind that no parameter has. -/
  | domainOutsideParameters (name : String) (parameters : List String)
  | arity (predicate : String) (expected given : Nat)
  /-- A literal where a domain must be named. -/
  | literalForDomain (argument : Term) (predicate : String)
  /-- An argument of the wrong kind. -/
  | argumentKind (argument : Term) (predicate : String) (given expected : ValueKind)
  /-- An element of a kind that the domain has no members of. -/
  | neverMember (element : Term) (given : ValueKind) (domain : String)
  /-- The same pair of states is declared again. -/
  | repeatedTransition
  /-- The same name is declared again. -/
  | repeatedName
  /-- The name of a core rule, with another formula. -/
  | reservedName (core : Formula)
deriving DecidableEq, Repr

/-- One sentence on a fault. -/
def Fault.message : Fault → String
  | unknownState name => "state " ++ Text.quote name ++ " is not declared"
  | unknownEffect name => "effect " ++ Text.quote name ++ " is not defined"
  | unknownDomain name => Text.quote name ++ " is not a known finite domain"
  | unknownPredicate name => "predicate " ++ Text.quote name ++ " is not defined"
  | domainOutsideParameters name parameters =>
    "domain " ++ Text.quote name ++ " is not among the workflow parameters [" ++
      ", ".intercalate (parameters.map Text.quote) ++ "]"
  | arity predicate expected given =>
    predicate ++ " takes " ++ toString expected ++ " argument(s), got " ++ toString given
  | literalForDomain argument predicate =>
    "argument " ++ Text.quote argument.text ++ " of " ++ predicate ++
      " is a literal, expected a domain name"
  | argumentKind argument predicate given expected =>
    "argument " ++ Text.quote argument.text ++ " of " ++ predicate ++ " is a " ++ given.word ++
      ", expected a " ++ expected.word
  | neverMember element given domain =>
    Text.quote element.text ++ " is a " ++ given.word ++ " and can never be in " ++ domain
  | repeatedTransition => "declared more than once (ambiguous transition)"
  | repeatedName => "name is declared more than once"
  | reservedName core => "name is reserved for the core rule `" ++ core.text ++ "`"

/-- A problem of a workflow. -/
inductive Problem
  | noStates (workflow : String)
  | repeatedState (name : String)
  | unknownParameter (name : String)
  | located (place : Place) (fault : Fault)
deriving DecidableEq, Repr

/-- One sentence on a problem. -/
def Problem.message : Problem → String
  | noStates name => "workflow " ++ Text.quote name ++ " declares no states"
  | repeatedState name => "state " ++ Text.quote name ++ " is declared more than once"
  | unknownParameter name =>
    "workflow parameter " ++ Text.quote name ++ " is not a known finite domain"
  | located place fault => place.text ++ ": " ++ fault.message

/-! ### References in formulas -/

/-- What references are checked against. -/
structure Scope where
  states : List String
  parameters : List String
  vocabulary : Vocabulary

/-- The kinds of the variables in scope, the innermost first; none where the domain is unknown. -/
abbrev KindEnv := List (String × Option ValueKind)

/-- The kind of a variable, if it is known. -/
def KindEnv.find? (env : KindEnv) (name : String) : Option ValueKind :=
  match List.find? (fun b => b.1 == name) env with
  | some b => b.2
  | none => none

namespace Scope

/-- The kinds that the parameters admit. -/
def admitted (s : Scope) : List ValueKind :=
  (s.parameters.filterMap Domain.ofName?).map Domain.kind

/-- The faults of a domain's name. -/
def domainFaults (s : Scope) (name : String) : List Fault :=
  match Domain.ofName? name with
  | none => [.unknownDomain name]
  | some d =>
    if s.parameters.isEmpty || s.admitted.contains d.kind then []
    else [.domainOutsideParameters name s.parameters]

/-- The faults of a term, and its kind, if that is known. -/
def termFaults (s : Scope) (env : KindEnv) : Term → List Fault × Option ValueKind
  | .var name => ([], env.find? name)
  | .domain name => (s.domainFaults name, some .domain)
  | .state name =>
    (if s.states.contains name then [] else [.unknownState name], some .state)
  | .literal _ | .bare _ => ([], none)

/-- The faults of an argument in a place for a certain kind. -/
def argumentFaults (s : Scope) (env : KindEnv) (predicate : String) (t : Term)
    (expected : ValueKind) : List Fault :=
  let (faults, kind) := s.termFaults env t
  faults ++
    match t, kind with
    | .literal _, _ => if expected = .domain then [.literalForDomain t predicate] else []
    | _, some given =>
      if given = expected then [] else [.argumentKind t predicate given expected]
    | _, none => []

/-- The faults of the predicate `name` and its arguments. -/
def predicateFaults (s : Scope) (env : KindEnv) (name : String) (args : List Term) :
    List Fault :=
  match s.vocabulary.find? name with
  | none => .unknownPredicate name :: args.flatMap fun t => (s.termFaults env t).1
  | some q =>
    (if args.length = q.params.length then [] else [.arity name q.params.length args.length]) ++
      (args.zip q.params).flatMap fun (t, kind) => s.argumentFaults env name t kind

/-- The faults of a membership test; the element is looked at when the domain is in order. -/
def membershipFaults (s : Scope) (env : KindEnv) (element : Term) (domain : String) :
    List Fault :=
  match s.domainFaults domain, Domain.ofName? domain with
  | [], some d =>
    let (faults, kind) := s.termFaults env element
    faults ++
      match kind with
      | some given => if given = d.kind then [] else [.neverMember element given domain]
      | none => []
  | faults, _ => faults

/-- The kind of the variables that range over a domain, if the domain is in order. -/
def variableKind (s : Scope) (domain : String) : Option ValueKind :=
  if (s.domainFaults domain).isEmpty then (Domain.ofName? domain).map Domain.kind else none

mutual

/-- The faults of a formula, in the order of the text. -/
def formulaFaults (s : Scope) : Formula → KindEnv → List Fault
  | .all v d f, env | .any v d f, env =>
    s.domainFaults d ++ s.formulaFaults f ((v, s.variableKind d) :: env)
  | .pred name args, env => s.predicateFaults env name args
  | .member element domain _, env => s.membershipFaults env element domain
  | .not f, env => s.formulaFaults f env
  | .and fs, env | .or fs, env => s.formulasFaults fs env
  | .implies f g, env => s.formulaFaults f env ++ s.formulaFaults g env
  | .truth _, _ | .bare _, _ => []

/-- The faults of several formulas. -/
def formulasFaults (s : Scope) : List Formula → KindEnv → List Fault
  | [], _ => []
  | f :: fs, env => s.formulaFaults f env ++ s.formulasFaults fs env

end

end Scope

/-! ### Declarations -/

/-- Some faults at one place. -/
def faultsAt (place : Place) (faults : List Fault) : List Problem := faults.map (.located place)

/-- The entries that occur earlier in the list, one for each repetition. -/
def repetitions (seen : List String) : List String → List String
  | [] => []
  | x :: xs => (if seen.contains x then [x] else []) ++ repetitions (x :: seen) xs

/-- The problems of a transition, given the pairs of states declared before it. -/
def transitionProblems (s : Scope) (seen : List (String × String)) (t : TransitionDecl) :
    List Problem :=
  faultsAt (.transition t.source t.target)
      (([t.source, t.target].filter fun e => !s.states.contains e).map .unknownState ++
        (if seen.contains (t.source, t.target) then [.repeatedTransition] else []) ++
        (t.effects.filter fun e => (Effect.ofName? e).isNone).map .unknownEffect) ++
    faultsAt (.precondition t.source t.target) (s.formulaFaults t.precondition []) ++
    faultsAt (.postcondition t.source t.target) (s.formulaFaults t.postcondition [])

/-- The problems of some transitions. -/
def transitionsProblems (s : Scope) (seen : List (String × String)) :
    List TransitionDecl → List Problem
  | [] => []
  | t :: ts =>
    transitionProblems s seen t ++ transitionsProblems s ((t.source, t.target) :: seen) ts

/-- The problems of a formula block, given the names declared before it. -/
def blockProblems (s : Scope) (seen : List String) (f : FormulaDecl) : List Problem :=
  faultsAt (.block f.kind f.name)
    ((if seen.contains f.name then [.repeatedName] else []) ++
      (match Core.find? f.name with
        | some core => if f.formula = core.formula then [] else [.reservedName core.formula]
        | none => []) ++
      s.formulaFaults f.formula [])

/-- The problems of some formula blocks. -/
def blocksProblems (s : Scope) (seen : List String) : List FormulaDecl → List Problem
  | [] => []
  | f :: fs => blockProblems s seen f ++ blocksProblems s (f.name :: seen) fs

/-- What the references of a workflow are checked against. -/
def scopeOf (vocabulary : Vocabulary) (w : WorkflowDecl) : Scope :=
  ⟨w.states, w.parameters, vocabulary⟩

/-- The problems of a workflow and the formula blocks beside it. -/
def problems (vocabulary : Vocabulary) (w : WorkflowDecl) (formulas : List FormulaDecl) :
    List Problem :=
  let s := scopeOf vocabulary w
  (if w.states.isEmpty then [.noStates w.name] else []) ++
    (repetitions [] w.states).map .repeatedState ++
    (w.parameters.filter fun p => (Domain.ofName? p).isNone).map .unknownParameter ++
    transitionsProblems s [] w.transitions ++ blocksProblems s [] formulas

/-! ### Building -/

/-- Why a document is no workflow. -/
inductive LoadError
  /-- It declares this many workflows, instead of one. -/
  | workflowCount (n : Nat)
  /-- Its workflow has problems. -/
  | inconsistent (workflow : String) (problems : List Problem)
deriving DecidableEq, Repr

namespace LoadError

/-- The problems, one sentence each. -/
def problems : LoadError → List String
  | workflowCount _ => []
  | inconsistent _ ps => ps.map Problem.message

/-- What was refused, and a line for each problem. -/
def message : LoadError → String
  | workflowCount n => "Rule source must declare exactly one workflow, found " ++ toString n
  | inconsistent name ps =>
    "Workflow " ++ Text.quote name ++ " failed to load" ++
      String.join (ps.map fun p => "\n  - " ++ p.message)

end LoadError

/-- A declared transition as part of a workflow. -/
def transitionOf (t : TransitionDecl) : Transition :=
  ⟨t.source, t.target, t.precondition, t.postcondition, t.effects.filterMap Effect.ofName?,
    t.critical⟩

/-- The declared rules, and the core rules that are not among them. -/
def invariantsWithCore (formulas : List FormulaDecl) : List Invariant :=
  let declared : List Invariant := formulas.map fun f => ⟨f.name, f.formula, f.kind⟩
  declared ++ Core.rules.filter fun r => !(declared.map Invariant.name).contains r.name

/-- The workflow of a document. -/
def buildWorkflow (vocabulary : Vocabulary) (d : Document) : Except LoadError Workflow :=
  match d.workflows with
  | [w] =>
    match problems vocabulary w d.formulas with
    | [] =>
      .ok ⟨w.name, w.states, w.transitions.map transitionOf, invariantsWithCore d.formulas,
        w.parameters⟩
    | ps => .error (.inconsistent w.name ps)
  | ws => .error (.workflowCount ws.length)

end ChangeControl
