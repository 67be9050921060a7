import ChangeControl.Project
/-!
The effects that a transition may declare.

Main definitions:

* `Effect` — the effects by name, and what each does to a project;
* `Effect.applyAll` — several effects in their order.
-/

set_option autoImplicit false

namespace ChangeControl

/-- A named change to a project. -/
inductive Effect
  /-- Completed tasks of the backlog move to the changelog. -/
  | archiveCompleted
  /-- Committed tasks of the changelog move to the journal. -/
  | journalCommitted
deriving DecidableEq, Repr

namespace Effect

/-- The written name of an effect. -/
def name : Effect → String
  | archiveCompleted => "archive_completed"
  | journalCommitted => "journal_committed"

/-- The effect with a written name. -/
def ofName? (name : String) : Option Effect :=
  if name = "archive_completed" then some .archiveCompleted
  else if name = "journal_committed" then some .journalCommitted
  else none

@[simp] theorem ofName?_name (e : Effect) : ofName? e.name = some e := by
  cases e <;> rfl

/-- What an effect does to one task. -/
def onTask (e : Effect) (t : Task) : Task :=
  match e with
  | archiveCompleted =>
    if t.layer = .backlog ∧ t.completed = true then { t with layer := .changelog } else t
  | journalCommitted =>
    if t.layer = .changelog ∧ t.committed = true then { t with layer := .journal } else t

theorem id_onTask (e : Effect) (t : Task) : (e.onTask t).id = t.id := by
  cases e <;> simp only [onTask] <;> split <;> rfl

/-- What an effect does to a project. -/
def apply (e : Effect) (p : Project) : Project := p.mapTasks e.onTask e.id_onTask

/-- Several effects in their order. -/
def applyAll (effects : List Effect) (p : Project) : Project :=
  effects.foldl (fun p e => e.apply p) p

end Effect

end ChangeControl
