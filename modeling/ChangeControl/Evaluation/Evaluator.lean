import ChangeControl.Evaluation.Domain
import ChangeControl.Evaluation.Predicate
import ChangeControl.Rule.Formula.Printer
/-!
The truth of formulas.

A formula is evaluated in a *setting*: a project, the states that its workflow declares, and the
predicates that are known.  Quantifiers range over finite domains only.  Operands are evaluated from
left to right and no further than needed; a name or an argument that means nothing is an error and
never a false result.

A *witness* explains a result by the bindings in force and a subformula: for a false result the
innermost one that failed, for a true existential formula the instance that satisfied it.

Main definitions:

* `Setting`, `Bindings`, `Witness`, `EvalResult` — what evaluation takes and gives;
* `EvalError` — what can be wrong with a formula, with `EvalError.message`;
* `Setting.members`, `Setting.value` — domains and terms;
* `Setting.evaluate` — formulas.
-/

set_option autoImplicit false

namespace ChangeControl

open Rule (Term Formula)

/-- What a formula is evaluated against. -/
structure Setting where
  project : Project
  /-- The states that the workflow declares. -/
  states : List String
  vocabulary : Vocabulary
deriving DecidableEq, Repr

/-- Variables with their values, the innermost one last. -/
abbrev Bindings := List (String × Value)

/-- The innermost value of a variable. -/
def Bindings.find? (env : Bindings) (name : String) : Option Value :=
  (env.reverse.find? fun b => b.1 == name).map Prod.snd

/-- Variables with one more value; a name that occurs already keeps its place and takes the later
value. -/
def Bindings.set (name : String) (v : Value) : Bindings → Bindings
  | [] => [(name, v)]
  | (n, w) :: rest => if n = name then (n, v) :: rest else (n, w) :: Bindings.set name v rest

/-- The bindings in force and the subformula that explain a result. -/
structure Witness where
  bindings : Bindings
  formula : Formula
deriving DecidableEq, Repr

/-- The bindings, if there are any, and the formula, on one line. -/
def Witness.describe (w : Witness) : String :=
  let formula := "`" ++ w.formula.text ++ "`"
  if w.bindings.isEmpty then formula
  else
    ", ".intercalate (w.bindings.map fun b => b.1 ++ "=" ++ b.2.display) ++ ": " ++ formula

/-- A truth value with its explanation. -/
structure EvalResult where
  holds : Bool
  witness : Option Witness
deriving DecidableEq, Repr

/-- What is wrong with a formula; `place` is the atom at fault. -/
inductive EvalError
  | unknownDomain (name : String)
  /-- A bare text in the place of a formula. -/
  | notFormula (text : String)
  /-- A bare text in the place of a term. -/
  | notTerm (text : String) (place : Formula)
  | unbound (name : String) (place : Formula)
  | undefinedPredicate (name : String) (place : Formula)
  /-- The predicate cannot be applied to its arguments. -/
  | call (predicate : Predicate) (fault : CallFault) (place : Formula)
deriving DecidableEq, Repr

/-- One sentence on why the predicate cannot be applied. -/
def CallFault.message (predicate : String) : CallFault → String
  | arity expected given =>
    predicate ++ " takes " ++ toString expected ++ " argument(s), got " ++ toString given
  | noTask id => predicate ++ ": no task with id " ++ Text.quote id
  | noCommit id => predicate ++ ": no commit with id " ++ Text.quote id
  | kind expected given =>
    predicate ++ ": expected a " ++ expected.word ++ ", got " ++ given.inspect

namespace EvalError

/-- One sentence on the error. -/
def text : EvalError → String
  | unknownDomain name => Text.quote name ++ " is not a known finite domain"
  | notFormula text => "Cannot evaluate " ++ Text.quote text
  | notTerm text _ => "Cannot evaluate term " ++ Text.quote text
  | unbound v _ => "Variable " ++ Text.quote v ++ " is not bound"
  | undefinedPredicate name _ => "Undefined predicate " ++ Text.quote name
  | call predicate fault _ => fault.message predicate.name

/-- The predicate at fault. -/
def predicate? : EvalError → Option String
  | undefinedPredicate name _ => some name
  | call predicate _ _ => some predicate.name
  | unknownDomain _ | notFormula _ | notTerm .. | unbound .. => none

/-- The atom at fault. -/
def place? : EvalError → Option Formula
  | unknownDomain _ | notFormula _ => none
  | notTerm _ f | unbound _ f | undefinedPredicate _ f | call _ _ f => some f

/-- The sentence, and the atom at fault behind it. -/
def message (e : EvalError) : String :=
  match e.place? with
  | none => e.text
  | some f => e.text ++ " (in `" ++ f.text ++ "`)"

end EvalError

namespace Setting

/-- The members of a domain. -/
def members (m : Setting) (name : String) : Except EvalError (List Value) :=
  match Domain.ofName? name with
  | some d => .ok (d.members m.project m.states)
  | none => .error (.unknownDomain name)

/-- What a term of the atom `place` stands for. -/
def value (m : Setting) (env : Bindings) (place : Formula) : Term → Except EvalError Value
  | .var name =>
    match env.find? name with
    | some v => .ok v
    | none => .error (.unbound name place)
  | .domain name =>
    match m.members name with
    | .ok vs => .ok (.list vs)
    | .error e => .error e
  | .state name => .ok (.text name)
  | .literal value => .ok (.text value)
  | .bare text => .error (.notTerm text place)

/-- What several terms of the atom `place` stand for. -/
def values (m : Setting) (env : Bindings) (place : Formula) :
    List Term → Except EvalError (List Value)
  | [] => .ok []
  | t :: ts =>
    match m.value env place t with
    | .error e => .error e
    | .ok v =>
      match m.values env place ts with
      | .error e => .error e
      | .ok vs => .ok (v :: vs)

/-- The truth of the predicate `name` for some terms. -/
def application (m : Setting) (env : Bindings) (name : String) (args : List Term) :
    Except EvalError Bool :=
  match m.vocabulary.find? name with
  | none => .error (.undefinedPredicate name (.pred name args))
  | some q =>
    match m.values env (.pred name args) args with
    | .error e => .error e
    | .ok vs =>
      match q.apply m.project vs with
      | .error fault => .error (.call q fault (.pred name args))
      | .ok b => .ok b

/-- The truth of a membership test. -/
def membership (m : Setting) (env : Bindings) (element : Term) (domain : String)
    (negated : Bool) : Except EvalError Bool :=
  match m.members domain with
  | .error e => .error e
  | .ok vs =>
    match m.value env (.member element domain negated) element with
    | .error e => .error e
    | .ok v => .ok (v.isIn vs != negated)

/-- The result of an atom: a false one is its own witness. -/
def atomResult (env : Bindings) (f : Formula) (holds : Bool) : EvalResult :=
  ⟨holds, if holds then none else some ⟨env, f⟩⟩

/-- The first of some values for which `test` gives the truth value `want`, with the result. -/
def search (want : Bool) (test : Value → Except EvalError EvalResult) :
    List Value → Except EvalError (Option (Value × EvalResult))
  | [] => .ok none
  | v :: vs =>
    match test v with
    | .error e => .error e
    | .ok r => if r.holds = want then .ok (some (v, r)) else search want test vs

mutual

/-- The truth of a formula under some bindings, with its witness. -/
def eval (m : Setting) : Formula → Bindings → Except EvalError EvalResult
  | .truth b, env => .ok (atomResult env (.truth b) b)
  | .pred name args, env =>
    match m.application env name args with
    | .error e => .error e
    | .ok b => .ok (atomResult env (.pred name args) b)
  | .member element domain negated, env =>
    match m.membership env element domain negated with
    | .error e => .error e
    | .ok b => .ok (atomResult env (.member element domain negated) b)
  | .not f, env =>
    match m.eval f env with
    | .error e => .error e
    | .ok r =>
      if r.holds then .ok ⟨false, some (r.witness.getD ⟨env, .not f⟩)⟩
      else .ok ⟨true, some ⟨env, .not f⟩⟩
  | .and fs, env =>
    match m.evalFirst false fs env with
    | .error e => .error e
    | .ok none => .ok ⟨true, none⟩
    | .ok (some (f, r)) => .ok ⟨false, some (r.witness.getD ⟨env, f⟩)⟩
  | .or fs, env =>
    match m.evalFirst true fs env with
    | .error e => .error e
    | .ok none => .ok ⟨false, some ⟨env, .or fs⟩⟩
    | .ok (some (_, r)) => .ok r
  | .implies f g, env =>
    match m.eval f env with
    | .error e => .error e
    | .ok r =>
      if r.holds then
        match m.eval g env with
        | .error e => .error e
        | .ok s =>
          if s.holds then .ok s else .ok ⟨false, some (s.witness.getD ⟨env, g⟩)⟩
      else .ok ⟨true, none⟩
  | .all v d f, env =>
    match m.members d with
    | .error e => .error e
    | .ok vs =>
      match search false (fun x => m.eval f (env ++ [(v, x)])) vs with
      | .error e => .error e
      | .ok none => .ok ⟨true, none⟩
      | .ok (some (x, r)) => .ok ⟨false, some (r.witness.getD ⟨env ++ [(v, x)], f⟩)⟩
  | .any v d f, env =>
    match m.members d with
    | .error e => .error e
    | .ok vs =>
      match search true (fun x => m.eval f (env ++ [(v, x)])) vs with
      | .error e => .error e
      | .ok none => .ok ⟨false, none⟩
      | .ok (some (x, r)) => .ok ⟨true, some (r.witness.getD ⟨env ++ [(v, x)], f⟩)⟩
  | .bare text, _ => .error (.notFormula text)

/-- The first of some formulas with the truth value `want`, with its result. -/
def evalFirst (m : Setting) (want : Bool) :
    List Formula → Bindings → Except EvalError (Option (Formula × EvalResult))
  | [], _ => .ok none
  | f :: fs, env =>
    match m.eval f env with
    | .error e => .error e
    | .ok r => if r.holds = want then .ok (some (f, r)) else m.evalFirst want fs env

end

/-- The truth of a formula, with variables bound beforehand. -/
def evaluate (m : Setting) (f : Formula) (env : Bindings) : Except EvalError EvalResult :=
  m.eval f env

end Setting

end ChangeControl
