import ChangeControl.Evaluation.Value
import ChangeControl.Text.Occurrence
/-!
The predicates that formulas may use.

Each predicate asks for values of certain kinds.  A text in the place of a task or a commit names
it; anything else of another kind is a fault of the rule, not a false result.

Main definitions:

* `Predicate` — the predicates by name, with the kinds of their arguments;
* `CallFault` — why a predicate cannot be applied;
* `Predicate.apply` — the truth value of a predicate for some arguments;
* `Vocabulary` — the predicates that a registry knows.
-/

set_option autoImplicit false

namespace ChangeControl

/-- The predicates. -/
inductive Predicate
  /-- The task's work is finished. -/
  | completed
  /-- The task's changes are committed. -/
  | committed
  /-- The commit passed the gate. -/
  | validated
  /-- The commit records what it can be reverted to. -/
  | revertible
  /-- The first commit undoes the second. -/
  | reverts
  /-- The domain has no members. -/
  | empty
  /-- The domain has members. -/
  | nonempty
  /-- The project is in the state. -/
  | inState
  /-- The commit's message names the task. -/
  | mentions
  /-- The message of the last commit names the task. -/
  | mentioned
deriving DecidableEq, Repr

/-- Why a predicate cannot be applied to its arguments. -/
inductive CallFault
  | arity (expected given : Nat)
  /-- A text that names no task. -/
  | noTask (id : String)
  /-- A text that names no commit. -/
  | noCommit (id : String)
  /-- A value of another kind. -/
  | kind (expected : ValueKind) (given : Value)
deriving DecidableEq, Repr

namespace Predicate

/-- The written name of a predicate. -/
def name : Predicate → String
  | completed => "completed"
  | committed => "committed"
  | validated => "validated"
  | revertible => "revertible"
  | reverts => "reverts"
  | empty => "empty"
  | nonempty => "nonempty"
  | inState => "in_state"
  | mentions => "mentions"
  | mentioned => "mentioned"

/-- The kinds of the arguments. -/
def params : Predicate → List ValueKind
  | completed | committed | mentioned => [.task]
  | validated | revertible => [.commit]
  | reverts => [.commit, .commit]
  | empty | nonempty => [.domain]
  | inState => [.state]
  | mentions => [.commit, .task]

/-- All predicates. -/
def all : List Predicate :=
  [completed, committed, validated, revertible, reverts, empty, nonempty, inState, mentions,
    mentioned]

theorem mem_all (p : Predicate) : p ∈ all := by
  cases p <;> decide

theorem name_injective {p q : Predicate} (h : p.name = q.name) : p = q := by
  revert h
  cases p <;> cases q <;> decide

/-! ### Arguments -/

/-- A value as a task of the project. -/
def asTask (p : Project) : Value → Except CallFault Task
  | .task t => .ok t
  | .text id =>
    match p.task? id with
    | some t => .ok t
    | none => .error (.noTask id)
  | v => .error (.kind .task v)

/-- A value as a commit of the project. -/
def asCommit (p : Project) : Value → Except CallFault Commit
  | .commit c => .ok c
  | .text id =>
    match p.commit? id with
    | some c => .ok c
    | none => .error (.noCommit id)
  | v => .error (.kind .commit v)

/-- A value as the name of a state. -/
def asState : Value → Except CallFault String
  | .text s => .ok s
  | v => .error (.kind .state v)

/-- A value as the members of a domain. -/
def asDomain : Value → Except CallFault (List Value)
  | .list vs => .ok vs
  | v => .error (.kind .domain v)

/-! ### Application -/

/-- The truth value of a predicate for some arguments.  Without any commit no task is mentioned,
whatever stands for it. -/
def apply (q : Predicate) (p : Project) (args : List Value) : Except CallFault Bool :=
  match q, args with
  | completed, [v] => do return (← asTask p v).completed
  | committed, [v] => do return (← asTask p v).committed
  | validated, [v] => do return (← asCommit p v).validated
  | revertible, [v] => do return (← asCommit p v).revertTarget.isSome
  | reverts, [v, w] => do
    let c ← asCommit p v
    let d ← asCommit p w
    return c.reverts == some d.id
  | empty, [v] => do return (← asDomain v).isEmpty
  | nonempty, [v] => do return !(← asDomain v).isEmpty
  | inState, [v] => do return p.state == (← asState v)
  | mentions, [v, w] => do
    let t ← asTask p w
    let c ← asCommit p v
    return Text.mentions c.message t.id
  | mentioned, [v] =>
    match p.commits.getLast? with
    | none => .ok false
    | some c => do return Text.mentions c.message (← asTask p v).id
  | q, args => .error (.arity q.params.length args.length)

end Predicate

/-- The predicates that a registry knows. -/
abbrev Vocabulary := List Predicate

namespace Vocabulary

/-- Every predicate there is. -/
def full : Vocabulary := Predicate.all

/-- The predicates with one of these names. -/
def cut (names : List String) : Vocabulary := full.filter fun q => names.contains q.name

/-- The predicate with a name. -/
def find? (v : Vocabulary) (name : String) : Option Predicate :=
  List.find? (fun q => q.name == name) v

end Vocabulary

end ChangeControl
