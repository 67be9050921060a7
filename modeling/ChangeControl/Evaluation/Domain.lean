import ChangeControl.Evaluation.Value
import ChangeControl.Rule.Word
/-!
The finite domains.

The members of a domain stand in a fixed order, tasks and commits by their identifiers, so that the
first member with a property is always the same one.

Main definitions:

* `Domain` — the domains by name, with the kind of their members;
* `Domain.members` — the members of a domain in a snapshot; the states come from the workflow.

Main statements:

* `Domain.isSome_ofName?_iff` — the names are the ones the rule language knows.
-/

set_option autoImplicit false

namespace ChangeControl

/-- The domains that formulas may range over. -/
inductive Domain
  | tasks | backlog | changelog | journal | commits | states
deriving DecidableEq, Repr

namespace Domain

/-- The written name of a domain. -/
def name : Domain → String
  | tasks => "tasks"
  | backlog => "backlog"
  | changelog => "changelog"
  | journal => "journal"
  | commits => "commits"
  | states => "states"

/-- The domain with a written name. -/
def ofName? (name : String) : Option Domain :=
  if name = "tasks" then some .tasks
  else if name = "backlog" then some .backlog
  else if name = "changelog" then some .changelog
  else if name = "journal" then some .journal
  else if name = "commits" then some .commits
  else if name = "states" then some .states
  else none

@[simp] theorem ofName?_name (d : Domain) : ofName? d.name = some d := by
  cases d <;> rfl

theorem isSome_ofName?_iff (name : String) :
    (ofName? name).isSome = true ↔ name ∈ Rule.domainNames := by
  simp only [ofName?, Rule.domainNames, List.mem_cons, List.not_mem_nil, or_false]
  repeat' split
  all_goals simp_all

/-- The kind of the members. -/
def kind : Domain → ValueKind
  | tasks | backlog | changelog | journal => .task
  | commits => .commit
  | states => .state

/-- Tasks in the order of their identifiers. -/
def sortTasks (ts : List Task) : List Task := ts.mergeSort fun a b => decide (a.id ≤ b.id)

/-- Commits in the order of their identifiers. -/
def sortCommits (cs : List Commit) : List Commit := cs.mergeSort fun a b => decide (a.id ≤ b.id)

/-- The tasks of a layer as members. -/
def layerMembers (p : Project) (layer : Layer) : List Value :=
  (sortTasks (p.tasksIn layer)).map .task

/-- The members of a domain for a project, and for a workflow that declares certain states. -/
def members (d : Domain) (p : Project) (declared : List String) : List Value :=
  match d with
  | tasks => (sortTasks p.tasks).map .task
  | backlog => layerMembers p .backlog
  | changelog => layerMembers p .changelog
  | journal => layerMembers p .journal
  | commits => (sortCommits p.commits).map .commit
  | states => declared.map .text

end Domain

end ChangeControl
