import ChangeControl.Text.Quoted
/-!
Tasks and the layers they pass through.

A task is in exactly one layer: planned work is in the backlog, finished work in the changelog, and
committed work in the journal.

Main definitions:

* `Layer`, with its written name and `Layer.ofName?`;
* `Task`.
-/

set_option autoImplicit false

namespace ChangeControl

/-- Where a task stands. -/
inductive Layer
  | backlog | changelog | journal
deriving DecidableEq, Repr

namespace Layer

/-- The written name of a layer. -/
def name : Layer → String
  | backlog => "backlog"
  | changelog => "changelog"
  | journal => "journal"

/-- The layer with a written name. -/
def ofName? (name : String) : Option Layer :=
  if name = "backlog" then some .backlog
  else if name = "changelog" then some .changelog
  else if name = "journal" then some .journal
  else none

@[simp] theorem ofName?_name (l : Layer) : ofName? l.name = some l := by
  cases l <;> rfl

theorem eq_name_of_ofName? {name : String} {l : Layer} (h : ofName? name = some l) :
    name = l.name := by
  unfold ofName? at h
  split at h
  · simp_all [← Option.some.inj h, Layer.name]
  · split at h
    · simp_all [← Option.some.inj h, Layer.name]
    · split at h
      · simp_all [← Option.some.inj h, Layer.name]
      · simp at h

end Layer

/-- A unit of work. -/
structure Task where
  id : String
  layer : Layer
  /-- The work is finished. -/
  completed : Bool
  /-- The changes are committed. -/
  committed : Bool
deriving DecidableEq, Repr

/-- A task that nothing is known about: open work in the backlog. -/
def Task.new (id : String) : Task := ⟨id, .backlog, false, false⟩

end ChangeControl
