import ChangeControl.Proofs.Gate.History
import ChangeControl.Proofs.Gate.Storing
import Mathlib.Data.List.Destutter
/-!
The life of decisions, whatever happens to a gate.

A course is any sequence of operations, also of operations that somebody interferes with, and of
snapshots that somebody else swaps in.  Through any course each decision is stored in forms that go
through the stages as the lifecycle has them, from its creation on; a decision that is made stays as
it is; and an operation concerns one decision at most.

Main definitions:

* `Incident`, `Course`, `Gate.amid` — what may happen to a gate, and a gate after it;
* `Gate.storage` — the forms that are stored on the way;
* `Stage.IsPath` — a way through the lifecycle;
* `Gate.Orderly` — what is true of one operation.

Main results:

* `Gate.succession_amid` — storing these forms is all that happens to the decisions;
* `Gate.amid_operations` — histories are courses without interference;
* `Gate.decisions_amid` — **the life of decisions through any course**.
-/

set_option autoImplicit false

namespace ChangeControl

open Calendar (Timestamp)

/-- Something that happens to a gate. -/
inductive Incident
  /-- An operation.  Somebody else may swap in the snapshot `meanwhile` just before the gate
  swaps. -/
  | operation (o : Operation) (meanwhile : Option Snapshot)
  /-- Somebody else swaps in a snapshot, or tries to. -/
  | swap (next : Snapshot) (expected : Json)
deriving Repr

/-- What happens to a gate, in its order, each with the moment at which it happens. -/
abbrev Course := List (Timestamp × Incident)

/-! ### Ways through the lifecycle -/

/-- The stages are a way through the lifecycle, from its beginning. -/
structure Stage.IsPath (stages : List Stage) : Prop where
  begins : ∀ s ∈ stages.head?, s = .proposed
  goes : stages.IsChain fun s t => t ∈ s.next

instance (stages : List Stage) : Decidable (Stage.IsPath stages) :=
  decidable_of_iff
    ((∀ s ∈ stages.head?, s = .proposed) ∧ stages.IsChain fun s t => t ∈ s.next)
    ⟨fun h => ⟨h.1, h.2⟩, fun h => ⟨h.begins, h.goes⟩⟩

/-- Stages that stay or go on, with those that stay left out: the first one is the same, and they
all go on. -/
theorem Stage.isChain_destutter' {s : Stage} {stages : List Stage}
    (h : (s :: stages).IsChain fun s t => t = s ∨ t ∈ s.next) :
    (stages.destutter' (· ≠ ·) s).head? = some s ∧
      (stages.destutter' (· ≠ ·) s).IsChain fun s t => t ∈ s.next := by
  induction stages generalizing s with
  | nil => exact ⟨rfl, .singleton s⟩
  | cons t stages ih =>
    obtain ⟨first, rest⟩ := List.isChain_cons_cons.1 h
    obtain ⟨hhead, hchain⟩ := ih rest
    by_cases stays : s = t
    · rw [stays, List.destutter'_cons_neg _ (not_not.2 rfl)]
      exact ⟨hhead, hchain⟩
    · rw [List.destutter'_cons_pos _ stays]
      refine ⟨rfl, List.isChain_cons.2 ⟨?_, hchain⟩⟩
      intro u hu
      rw [hhead] at hu
      obtain rfl := Option.some.inj hu
      exact first.resolve_left (Ne.symm stays)

/-- Stages that begin with the lifecycle, and stay or go on, are a way through it when those that
stay are left out. -/
theorem Stage.isPath_destutter {stages : List Stage} (begins : ∀ s ∈ stages.head?, s = .proposed)
    (h : stages.IsChain fun s t => t = s ∨ t ∈ s.next) : IsPath (stages.destutter (· ≠ ·)) := by
  cases stages with
  | nil => exact ⟨fun _ hs => (by cases hs), .nil⟩
  | cons s stages =>
    obtain ⟨hhead, hchain⟩ := isChain_destutter' h
    rw [List.destutter_cons']
    refine ⟨?_, hchain⟩
    rw [hhead]
    exact begins

namespace Gate

variable {now : Timestamp} {g : Gate} {d : Decision} {c later : Course} {id : String}

/-! ### Courses -/

/-- What an incident does to a gate. -/
def meet (now : Timestamp) (g : Gate) : Incident → Gate
  | .operation o meanwhile => (g.stepAmid now meanwhile o).gate
  | .swap next expected => (g.swap next expected).gate

/-- The gate after a course. -/
def amid (g : Gate) (c : Course) : Gate := c.foldl (fun g m => g.meet m.1 m.2) g

/-- The forms that are stored at an incident. -/
def storedAt (now : Timestamp) (g : Gate) : Incident → List Decision
  | .operation o meanwhile => g.stored now meanwhile o
  | .swap .. => []

/-- The forms that are stored in a course, in their order. -/
def storage (g : Gate) : Course → List Decision
  | [] => []
  | (now, i) :: c => g.storedAt now i ++ (g.meet now i).storage c

/-- At the moment `now`, an operation on the gate concerns one decision at most, a verdict that it
gives is the one that is told afterwards, and nothing happens if it ends in an error that blames
whoever asked. -/
structure Orderly (now : Timestamp) (g : Gate) (meanwhile : Option Snapshot) (o : Operation) :
    Prop where
  others : ∀ id, o.subject? g ≠ some id →
    (g.stepAmid now meanwhile o).gate.find? id = g.find? id
  answer : ∀ v, (g.stepAmid now meanwhile o).reply = .ok (.verdict v) →
    o.subject? g = some v.decisionId ∧
      (g.stepAmid now meanwhile o).gate.verdict v.decisionId = .ok v
  errors : ∀ e, (g.stepAmid now meanwhile o).reply = .error e → e.isMisuse = true →
    (g.stepAmid now meanwhile o).gate = g

theorem amid_append (g : Gate) (c later : Course) : g.amid (c ++ later) = (g.amid c).amid later :=
  List.foldl_append

/-- Histories are courses without interference. -/
theorem amid_operations (g : Gate) (h : History) :
    g.amid (h.map fun m => (m.1, .operation m.2 none)) = g.after h := by
  induction h generalizing g with
  | nil => rfl
  | cons m h ih =>
    have hstep : g.meet m.1 (.operation m.2 none) = (g.step m.1 m.2).gate := by
      rw [meet, stepAmid_none]
    rw [List.map_cons, after_cons, ← ih, ← hstep]
    rfl

/-! ### What courses store -/

/-- Storing its forms is all that an incident does to the decisions. -/
theorem succession_meet (numbered : Numbered g) (now : Timestamp) (i : Incident) :
    Succession g (g.storedAt now i) (g.meet now i) := by
  cases i with
  | operation o meanwhile =>
    exact (serves_stepAmid now meanwhile o numbered.find?_nextId).succession
  | swap next expected =>
    exact .of_eq (decisions_swap g next expected) (issued_swap g next expected)

/-- **Storing its forms is all that a course does to the decisions.** -/
theorem succession_amid (numbered : Numbered g) (c : Course) :
    Succession g (g.storage c) (g.amid c) := by
  induction c generalizing g with
  | nil => exact .of_eq rfl rfl
  | cons m c ih =>
    obtain ⟨now, i⟩ := m
    have first := succession_meet numbered now i
    exact first.trans (ih (first.numbered numbered))

theorem numbered_fresh (g : Gate) : Numbered g.fresh := by
  intro id d found
  cases found

theorem numbered_amid (g : Gate) (c : Course) : Numbered (g.fresh.amid c) :=
  (succession_amid (numbered_fresh g) c).numbered (numbered_fresh g)

/-- The forms in which a decision is stored go through the lifecycle. -/
theorem isPath_storage (g : Gate) (c : Course) (id : String) :
    Stage.IsPath (((about id (g.fresh.storage c)).map Decision.stage).destutter (· ≠ ·)) := by
  have succession := succession_amid (numbered_fresh g) c
  have hchain : (about id (g.fresh.storage c)).IsChain Decision.Precedes := succession.chain id
  refine Stage.isPath_destutter ?_ ?_
  · intro s hs
    rw [List.head?_map] at hs
    obtain ⟨d, hd, rfl⟩ := Option.map_eq_some_iff.1 hs
    exact succession.begins id rfl d hd
  · rw [List.isChain_map]
    exact hchain.imp fun d e precedes => precedes.stage

/-- **The life of decisions through any course.**  The forms in which a decision is stored go
through the lifecycle, from its creation on, and the last one is what is found; once a decision is
applied or rejected, it is not stored any more, and neither the decision nor its verdict changes;
and whatever has happened before, every operation is orderly. -/
theorem decisions_amid (g : Gate) (c : Course) :
    (∀ id, (g.fresh.amid c).find? id = (about id (g.fresh.storage c)).getLast? ∧
      Stage.IsPath (((about id (g.fresh.storage c)).map Decision.stage).destutter (· ≠ ·))) ∧
    (∀ id d, (g.fresh.amid c).find? id = some d → d.stage = .applied ∨ d.stage = .rejected →
      ∀ later, about id ((g.fresh.amid c).storage later) = [] ∧
        (g.fresh.amid (c ++ later)).find? id = some d ∧
          (g.fresh.amid (c ++ later)).verdict id = .ok d.verdict) ∧
    ∀ now meanwhile o, Orderly now (g.fresh.amid c) meanwhile o := by
  refine ⟨?_, ?_, ?_⟩
  · intro id
    exact ⟨(succession_amid (numbered_fresh g) c).find?_eq id, isPath_storage g c id⟩
  · intro id d found made later
    have terminal : d.stage.isTerminal = true := by
      rcases made with h | h <;> rw [h] <;> rfl
    obtain ⟨none, same⟩ := (succession_amid (numbered_amid g c) later).stays found terminal
    rw [amid_append, verdict, same]
    exact ⟨none, rfl, rfl⟩
  · intro now meanwhile o
    have serves := serves_stepAmid now meanwhile o (numbered_amid g c).find?_nextId
    exact ⟨fun id ne => serves.find?_of_ne ne, serves.answer, serves.errors⟩

/-- A critical commit is approved, but somebody else is faster; then it is approved once more. -/
example :
    (about "d1" (blank.fresh.storage
      [(.epoch, .operation (.propose (.held ⟨"W", ["Plan"], [], [], []⟩)
          (.proposal (.commit ⟨"c1", "done", none⟩)) .critical) none),
        (.epoch, .operation (.approve "d1" (some "ann"))
          (some (blank.store.current.evolve .epoch blank.store.current.project))),
        (.epoch, .operation (.approve "d1" (some "ann")) none)])).map Decision.stage =
      [.proposed, .validating, .pendingApproval, .pendingApproval, .rejected] := by
  decide +kernel

end Gate

end ChangeControl
