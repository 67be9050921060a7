import ChangeControl.Gate.Operation
/-!
Decisions in their places.

Whatever an operation of a gate does, it leaves at most one decision in a new form: that decision is
put in its place, it is recorded if it is made, and its result becomes current if it is applied.
This module says so once, and computes where each of the ways to end an operation leads.

Main definitions:

* `Gate.Enters` — a gate is another one with one decision entered;
* `Gate.recorded` — a gate with a decision put in its place and recorded;
* `Step.writeFails` — an operation ends because a file cannot be written.

Main results:

* `Gate.mem_putIn_iff`, `Gate.perm_putIn` — the decisions after one was put in its place;
* `Gate.enters_reject`, `Gate.enters_apply` — where rejecting and applying a decision leads;
* `Gate.writeFails_apply` — a result that cannot be written is the answer;
* `Gate.Enters.find?_self`, `Gate.Enters.find?_of_ne` — looking up after entering.
-/

set_option autoImplicit false

namespace ChangeControl

/-! ### Open decisions -/

namespace Decision

/-- The decision may be rejected or applied. -/
def IsOpen (d : Decision) : Prop := d.stage = .validating ∨ d.stage = .pendingApproval

/-- The decision, rejected for some reasons. -/
def rejectedFor (d : Decision) (reasons : List String) : Decision :=
  { d with reasons := reasons, stage := .rejected }

/-- The decision, applied with some result. -/
def appliedWith (d : Decision) (result : Snapshot) : Decision :=
  { d with result := some result, stage := .applied }

theorem IsOpen.isTerminal {d : Decision} (h : d.IsOpen) : d.stage.isTerminal = false := by
  rcases h with h | h <;> rw [h] <;> rfl

theorem IsOpen.ne_applied {d : Decision} (h : d.IsOpen) : d.stage ≠ .applied := by
  rcases h with h | h <;> rw [h] <;> decide

end Decision

/-! ### Files that cannot be written -/

/-- The error tells that the file of the store or of the audit log cannot be written. -/
def GateError.isWriteFault : GateError → Bool
  | storage _ | swap (.storage _) => true
  | foreignProposal _ | unknownWorkflow _ | unknownDecision _ | notPending .. | refused _
  | evaluation _ | load _ | swap (.stale ..) | timeoutNotNumber | timeoutTooLarge => false

/-- The operation ends because a file cannot be written. -/
def Step.writeFails {α : Type} (s : Step α) : Bool :=
  match s.reply with
  | .ok _ => false
  | .error e => e.isWriteFault

theorem Step.writeFails_after {α : Type} (s : Step α) (events : List Log.Event) :
    (s.after events).writeFails = s.writeFails := rfl

theorem Step.writeFails_map {α β : Type} (f : α → β) (s : Step α) :
    (s.map f).writeFails = s.writeFails := by
  unfold Step.writeFails Step.map
  cases s.reply <;> rfl

namespace Gate

open Calendar (Timestamp)

variable {now : Timestamp} {g : Gate} {d e : Decision}

/-! ### Places -/

/-- Putting a decision in its place twice is putting the later form there. -/
theorem putIn_putIn (ds : List Decision) (h : d.id = e.id) :
    putIn e (putIn d ds) = putIn e ds := by
  induction ds with
  | nil => simp [putIn, h]
  | cons c cs ih => by_cases hc : c.id = d.id <;> simp_all [putIn]

theorem filter_id_ne_of_not_mem {ds : List Decision} (h : e.id ∉ ds.map Decision.id) :
    (ds.filter fun d => d.id != e.id) = ds := by
  refine List.filter_eq_self.2 ?_
  intro d hd
  have hne : d.id ≠ e.id := fun same => h (same ▸ List.mem_map_of_mem hd)
  simpa using hne

/-- Apart from their order, the decisions are the one put in its place and the others. -/
theorem perm_putIn {ds : List Decision} (nodup : (ds.map Decision.id).Nodup) :
    (putIn e ds).Perm (e :: ds.filter fun d => d.id != e.id) := by
  induction ds with
  | nil => exact List.Perm.refl _
  | cons c cs ih =>
    rw [List.map_cons, List.nodup_cons] at nodup
    by_cases hc : c.id = e.id
    · -- no later decision has the identifier
      have hcs : e.id ∉ cs.map Decision.id := hc ▸ nodup.1
      rw [putIn, if_pos hc, List.filter_cons_of_neg (by simp [hc]), filter_id_ne_of_not_mem hcs]
    · rw [putIn, if_neg hc, List.filter_cons_of_pos (by simpa using hc)]
      exact ((ih nodup.2).cons c).trans (List.Perm.swap _ _ _)

theorem mem_putIn_iff {ds : List Decision} (nodup : (ds.map Decision.id).Nodup) :
    d ∈ putIn e ds ↔ d = e ∨ d ∈ ds ∧ d.id ≠ e.id := by
  rw [(perm_putIn nodup).mem_iff, List.mem_cons, List.mem_filter]
  simp

theorem nodup_putIn {ds : List Decision} (nodup : (ds.map Decision.id).Nodup) :
    ((putIn e ds).map Decision.id).Nodup := by
  have hperm := (perm_putIn (e := e) nodup).map Decision.id
  rw [hperm.nodup_iff, List.map_cons, List.nodup_cons]
  refine ⟨?_, nodup.sublist (List.filter_sublist.map _)⟩
  intro h
  obtain ⟨d, hd, same⟩ := List.mem_map.1 h
  simp [same] at hd

/-- Without repeated identifiers, looking up finds exactly the decisions that are there. -/
theorem find?_eq_some_iff (nodup : (g.decisions.map Decision.id).Nodup) {id : String} :
    g.find? id = some d ↔ d ∈ g.decisions ∧ d.id = id :=
  Project.find?_key_eq_some_iff Decision.id g.decisions nodup id d

theorem mem_of_find? {id : String} (h : g.find? id = some d) : d ∈ g.decisions ∧ d.id = id :=
  ⟨List.mem_of_find?_eq_some h, by simpa using List.find?_some h⟩

/-! ### Entering a decision -/

/-- The gate `g'` is the gate `g` with the decision `e` in its place; if `e` is made, its record is
added, and if it is applied, its result is current. -/
structure Enters (now : Timestamp) (g : Gate) (e : Decision) (g' : Gate) : Prop where
  decisions : g'.decisions = putIn e g.decisions
  records : g'.audit.records =
    g.audit.records ++ if e.stage.isTerminal then [auditRecord now e] else []
  applied : e.stage = .applied → e.result = some g'.store.current
  unapplied : e.stage ≠ .applied → g'.store.current = g.store.current
  registry : g'.registry = g.registry
  issued : g'.issued = g.issued

namespace Enters

variable {g' : Gate}

theorem vocabulary (h : Enters now g e g') : g'.registry.vocabulary = g.registry.vocabulary := by
  rw [h.registry]

theorem find?_self (h : Enters now g e g') : g'.find? e.id = some e := by
  rw [find?, h.decisions]
  exact find?_put_self g e

theorem find?_of_ne (h : Enters now g e g') {id : String} (ne : id ≠ e.id) :
    g'.find? id = g.find? id := by
  rw [find?, h.decisions]
  exact find?_put_of_ne g e ne

/-- A decision that is there after entering one is that one, or it was there before. -/
theorem eq_or_mem (h : Enters now g e g') (nodup : (g.decisions.map Decision.id).Nodup)
    (hd : d ∈ g'.decisions) : d = e ∨ d ∈ g.decisions := by
  rw [h.decisions] at hd
  exact ((mem_putIn_iff nodup).1 hd).imp_right And.left

/-- It does not matter in which form the decision was put in its place before. -/
theorem of_put (h : Enters now (g.put d) e g') (same : d.id = e.id) : Enters now g e g' where
  decisions := by rw [h.decisions, put, putIn_putIn _ same]
  records := h.records
  applied := h.applied
  unapplied := h.unapplied
  registry := h.registry
  issued := h.issued

end Enters

/-- A decision that is not made is put in its place, and that is all. -/
theorem enters_put (h : e.stage.isTerminal = false) : Enters now g e (g.put e) := by
  refine ⟨rfl, ?_, ?_, fun _ => rfl, rfl, rfl⟩
  · rw [h]
    exact (List.append_nil _).symm
  · intro is
    rw [is] at h
    exact absurd h (by decide)

/-! ### Ending an operation -/

/-- The gate with a decision put in its place and recorded. -/
def recorded (now : Timestamp) (g : Gate) (e : Decision) : Gate :=
  { g.put e with
    audit := (g.audit.append g.disk (auditRecord now e)).1
    disk := (g.audit.append g.disk (auditRecord now e)).2.1 }

/-- Whether the record can be written or not, a decision that is made is recorded. -/
theorem gate_finish {target : Stage} {changes : List Change} {event : Decision → Log.Event}
    (h : d.advance target changes = .ok e) :
    (g.finish now d target changes event).gate = recorded now g e := by
  rw [finish, conclude, h]
  simp only
  split
  · next hconclude => simp at hconclude
  · next hconclude =>
    simp only [Except.ok.injEq, Prod.mk.injEq] at hconclude
    rw [Step.gate_fail, ← hconclude.1]
    rfl
  · next hconclude =>
    simp only [Except.ok.injEq, Prod.mk.injEq] at hconclude
    rw [← hconclude.1]
    rfl

/-- Rejecting an open decision records it with the reasons. -/
theorem gate_reject (reasons : List String) (changes : List Change) (h : d.IsOpen) :
    (g.reject now d reasons changes).gate =
      recorded now g ((d.change changes).rejectedFor reasons) := by
  refine gate_finish ((Decision.advance_eq_ok_iff ..).2 ⟨?_, by simp, ?_⟩)
  · rcases h with h | h <;> simp [h, Stage.next]
  · rw [Decision.change, Decision.change, List.foldl_append]
    rfl

theorem enters_reject (reasons : List String) (changes : List Change) (h : d.IsOpen) :
    Enters now g ((d.change changes).rejectedFor reasons)
      (g.reject now d reasons changes).gate := by
  rw [gate_reject reasons changes h]
  refine ⟨rfl, rfl, ?_, fun _ => rfl, rfl, rfl⟩
  intro is
  simp [Decision.rejectedFor] at is

/-- The snapshot can be written to the file of the store, if there is one. -/
def CanStore (g : Gate) (s : Snapshot) : Prop := (Store.save g.disk g.store.path s).2 = none

instance (g : Gate) (s : Snapshot) : Decidable (g.CanStore s) :=
  inferInstanceAs (Decidable (_ = none))

/-- A store without a file can take every snapshot. -/
theorem canStore_of_path_eq_none (h : g.store.path = none) (s : Snapshot) : g.CanStore s := by
  rw [CanStore, h]
  rfl

/-- The version of the current snapshot is the one to expect. -/
theorem isWhole_version (g : Gate) :
    g.store.current.version.toJson.isWhole g.store.current.version.toInt = true := by
  rw [Version.isWhole_toJson, decide_eq_true_eq]

/-- A snapshot that cannot be written is not swapped in. -/
theorem swap_of_not_canStore {next : Snapshot} (fault : ¬ g.CanStore next) :
    ∃ e disk, g.store.swap g.disk next g.store.current.version.toJson =
      (.error (.storage e), disk) := by
  obtain ⟨e, he⟩ := Option.ne_none_iff_exists'.1 fault
  have hsave : Store.save g.disk g.store.path next =
      ((Store.save g.disk g.store.path next).1, some e) := Prod.ext rfl he
  exact ⟨e, _, by rw [Store.swap, if_pos (isWhole_version g), hsave]⟩

/-- Applying an open decision on the version that is current makes its result current and records
it; if the result cannot be written, the decision is left as it was put there. -/
theorem enters_apply {result : Snapshot} (h : d.IsOpen) (free : d.lacksApproval = false) :
    Enters now g (if g.CanStore result then d.appliedWith result else d)
      ((g.put d).apply now d result g.store.current.version).gate := by
  have hadvance : d.advance .applied [.result (some result)] = .ok (d.appliedWith result) := by
    refine (Decision.advance_eq_ok_iff ..).2 ⟨?_, fun _ => free, rfl⟩
    rcases h with h | h <;> simp [h, Stage.next]
  rw [apply, swap, Step.gate_after]
  -- the expected version is the current one, so that only writing can fail
  by_cases hsave : g.CanStore result
  · obtain ⟨disk, hdisk⟩ : ∃ disk, Store.save g.disk g.store.path result = (disk, none) :=
      ⟨_, Prod.ext rfl hsave⟩
    have hswap : (g.put d).store.swap (g.put d).disk result g.store.current.version.toJson =
        (.ok { g.store with current := result }, disk) :=
      (Store.swap_eq_ok_iff ..).2 ⟨isWhole_version g, rfl, hdisk⟩
    rw [if_pos hsave, hswap]
    simp only
    rw [gate_finish hadvance]
    refine Enters.of_put (d := d) ⟨rfl, rfl, fun _ => rfl, fun is => absurd rfl is, rfl, rfl⟩ rfl
  · obtain ⟨e, disk, hswap⟩ := swap_of_not_canStore (g := g.put d) hsave
    have hcurrent : (g.put d).store.current = g.store.current := rfl
    rw [if_neg hsave, ← hcurrent, hswap]
    refine ⟨rfl, ?_, fun is => absurd is h.ne_applied, fun _ => rfl, rfl, rfl⟩
    rw [h.isTerminal]
    exact (List.append_nil _).symm

/-- A result that cannot be written is the answer. -/
theorem writeFails_apply {result : Snapshot} (fault : ¬ g.CanStore result) :
    ((g.put d).apply now d result g.store.current.version).writeFails = true := by
  obtain ⟨e, disk, hswap⟩ := swap_of_not_canStore (g := g.put d) fault
  have hcurrent : (g.put d).store.current = g.store.current := rfl
  rw [apply, swap, Step.writeFails_after, ← hcurrent, hswap]
  rfl

end Gate

end ChangeControl
