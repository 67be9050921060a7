import ChangeControl.Gate.Start
import ChangeControl.Proofs.Gate.Invariant
import Mathlib.Data.List.Induction
/-!
Histories of a gate.

A history is any sequence of operations, each at its moment, that begins with a gate without
decisions.  This module carries the facts about one operation over to whole histories: the invariant
holds at every time, a decision that is there stays there and goes on, and every decision goes back
to one proposal, which was made to the workflow that the decision holds.

Main definitions:

* `Gate.after`, `Gate.fresh` — a gate after a history, and before any;
* `Gate.applied` — the decisions that are applied;
* `Gate.Proposed` — the proposal that a decision goes back to;
* `Gate.blank` — a small gate to begin with.

Main results:

* `Gate.sound_after_fresh` — **the invariant holds after every history**;
* `Gate.Sound.continues_after`, `Gate.Sound.stays_after` — decisions go on, and made ones stay;
* `Gate.proposed_of_mem`, `Gate.Proposed.kind_eq` — every decision was proposed, and what was
  proposed as critical is critical.
-/

set_option autoImplicit false

namespace ChangeControl

open Calendar (Timestamp)
open Decimal (Binary64)
open Storage (Disk)

/-- The first moment of the year 1970. -/
def Calendar.Timestamp.epoch : Timestamp :=
  ⟨1970, 1, 1, 0, 0, 0, 0, some 0, by decide, by decide, by decide, by decide, by decide,
    by decide, by decide, by decide, by decide, by decide, by decide⟩

/-- Operations in their order, each with the moment at which it happens. -/
abbrev History := List (Timestamp × Operation)

namespace Gate

variable {P : Timestamp → Prop} {now : Timestamp} {g g' : Gate} {d e : Decision} {o : Operation}

/-! ### Definitions -/

/-- The gate after a history, whether its operations end in an error or not. -/
def after (g : Gate) (h : History) : Gate := h.foldl (fun g m => (g.step m.1 m.2).gate) g

/-- The gate as it was before its first decision. -/
def fresh (g : Gate) : Gate := { g with decisions := [] }

/-- The decisions that are applied. -/
def applied (g : Gate) : List Decision := g.decisions.filter fun d => d.stage == .applied

/-- In the history that begins with the gate `g`, the decision `d` was created: its proposal was
made as one of some kind, to the workflow that the decision holds, when its identifier was the next
one. -/
def Proposed (g : Gate) (h : History) (d : Decision) (kind : DecisionKind) : Prop :=
  ∃ (before later : History) (now : Timestamp) (ref : WorkflowRef),
    h = before ++ (now, .propose ref (.proposal d.proposal) kind) :: later ∧
      (g.after before).nextId = d.id ∧ (g.after before).workflow? ref = .ok d.workflow

/-- A small gate: in memory, on an empty project, without workflows. -/
def blank : Gate where
  registry := .empty .full
  store := ⟨none, .first .epoch ⟨"Plan", [], [], List.nodup_nil, List.nodup_nil⟩⟩
  audit := ⟨none, []⟩
  disk := .empty
  timeout := none
  decisions := []
  issued := 0

/-! ### Running -/

theorem after_cons (g : Gate) (m : Timestamp × Operation) (h : History) :
    g.after (m :: h) = (g.step m.1 m.2).gate.after h := rfl

theorem after_append (g : Gate) (h later : History) :
    g.after (h ++ later) = (g.after h).after later :=
  List.foldl_append

theorem after_concat (g : Gate) (h : History) (now : Timestamp) (o : Operation) :
    g.after (h ++ [(now, o)]) = ((g.after h).step now o).gate :=
  after_append g h [(now, o)]

/-- Running operations at one moment is one of the histories. -/
theorem run_eq_after (now : Timestamp) (g : Gate) (operations : List Operation) :
    g.run now operations = g.after (operations.map fun o => (now, o)) := by
  rw [after, List.foldl_map, run]

/-- A gate that was just started is without decisions. -/
theorem fresh_of_start {registry : Registry} {disk : Disk} {files : Files}
    {initial : Option Snapshot} {timeout : Option Binary64} {issued : Nat}
    (h : (start now registry disk files initial timeout issued).1 = .ok g) : g.fresh = g := by
  unfold start at h
  split at h
  · simp at h
  · simp only at h
    split at h
    · simp at h
    · simp only [Except.ok.injEq] at h
      rw [← h]
      rfl

/-! ### The invariant -/

theorem sound_fresh (P : Timestamp → Prop) (g : Gate) : Sound P g.fresh :=
  ⟨List.nodup_nil, fun _ hd => absurd hd List.not_mem_nil,
    fun _ hd => absurd hd List.not_mem_nil⟩

/-- The invariant is kept by every history. -/
theorem Sound.after {h : History} (sound : Sound P g) (moments : ∀ m ∈ h, P m.1) :
    Sound P (g.after h) := by
  induction h generalizing g with
  | nil => exact sound
  | cons m h ih =>
    rw [List.forall_mem_cons] at moments
    exact ih (sound.step moments.1 m.2) moments.2

/-- **The invariant holds after every history.** -/
theorem sound_after_fresh {h : History} (moments : ∀ m ∈ h, P m.1) : Sound P (g.fresh.after h) :=
  (sound_fresh P g).after moments

/-- The same, when it does not matter at which moments proposals were validated. -/
theorem sound_after (g : Gate) (h : History) : Sound (fun _ => True) (g.fresh.after h) :=
  sound_after_fresh fun _ _ => trivial

/-! ### Decisions go on -/

/-- A decision that is there goes on with every operation. -/
theorem Sound.continues_step (sound : Sound (fun _ => True) g) (now : Timestamp) (o : Operation)
    (hd : d ∈ g.decisions) : ∃ e ∈ (g.step now o).gate.decisions, d.Continues e := by
  rcases (move_step now g o).idle_or_entry sound trivial with idle | ⟨e, entry⟩
  · exact ⟨d, idle.decisions ▸ hd, .refl d⟩
  · by_cases same : d.id = e.id
    · exact ⟨e, (entry.mem_decisions_iff sound).2 (.inl rfl), (entry.earlier d hd same).2⟩
    · exact ⟨d, (entry.mem_decisions_iff sound).2 (.inr ⟨hd, same⟩), .refl d⟩

/-- A decision that is there goes on with every history. -/
theorem Sound.continues_after {h : History} (sound : Sound (fun _ => True) g)
    (hd : d ∈ g.decisions) : ∃ e ∈ (g.after h).decisions, d.Continues e := by
  induction h generalizing g d with
  | nil => exact ⟨d, hd, .refl d⟩
  | cons m h ih =>
    obtain ⟨c, hc, first⟩ := sound.continues_step m.1 m.2 hd
    obtain ⟨e, he, rest⟩ := ih (sound.step trivial m.2) hc
    exact ⟨e, he, first.trans rest⟩

/-- A decision that is made stays as it is. -/
theorem Sound.stays_after {h : History} (sound : Sound (fun _ => True) g) (hd : d ∈ g.decisions)
    (terminal : d.stage.isTerminal = true) : d ∈ (g.after h).decisions := by
  obtain ⟨e, he, continues⟩ := sound.continues_after (h := h) hd
  exact continues.made terminal ▸ he

/-! ### Where decisions come from -/

/-- Every decision after an operation was there before, or the operation is its proposal. -/
theorem Move.origin (m : Move now g o g') (sound : Sound P g) (hd : d ∈ g'.decisions) :
    (∃ c ∈ g.decisions, c.Continues d) ∨
      ∃ ref kind, o = .propose ref (.proposal d.proposal) kind ∧ g.nextId = d.id ∧
        g.workflow? ref = .ok d.workflow := by
  cases m with
  | idle same => exact .inl ⟨d, same.decisions ▸ hd, .refl d⟩
  | @settles ref p kind w e _ reads fate enters =>
    rcases enters.eq_or_mem sound.nodup hd with rfl | old
    · cases fate <;> exact .inr ⟨ref, kind, rfl, rfl, reads⟩
    · exact .inl ⟨d, old, .refl d⟩
  | @parks ref p kind w r _ reads admits critical enters =>
    rcases enters.eq_or_mem sound.nodup hd with rfl | old
    · exact .inr ⟨ref, kind, rfl, rfl, reads⟩
    · exact .inl ⟨d, old, .refl d⟩
  | @approves id approver c e _ found waits fate enters =>
    rcases enters.eq_or_mem sound.nodup hd with rfl | old
    · have hopen : c.IsOpen := .inr waits
      refine .inl ⟨c, (mem_of_find? found).1, ?_⟩
      cases fate <;> exact .of_isOpen hopen rfl rfl rfl rfl
    · exact .inl ⟨d, old, .refl d⟩
  | @refuses _ id c b reasons _ target found waits form enters =>
    rcases enters.eq_or_mem sound.nodup hd with rfl | old
    · have hopen : c.IsOpen := .inr waits
      refine .inl ⟨c, (mem_of_find? found).1, ?_⟩
      rcases form with rfl | ⟨approver, rfl⟩ <;> exact .of_isOpen hopen rfl rfl rfl rfl
    · exact .inl ⟨d, old, .refl d⟩

/-- A proposal to a workflow that is there creates a decision about it. -/
theorem creates_of_propose {ref : WorkflowRef} {w : Workflow} (now : Timestamp) (p : Proposal)
    (kind : DecisionKind) (reads : g.workflow? ref = .ok w) :
    ∃ c ∈ (g.step now (.propose ref (.proposal p) kind)).gate.decisions,
      c.id = g.nextId ∧ (kind = .critical → c.kind = .critical) := by
  obtain ⟨c, enters, form, -⟩ := enters_propose now p kind reads
  refine ⟨c, (mem_of_find? enters.find?_self).1, ?_⟩
  rcases form with fate | ⟨r, -, -, rfl⟩
  · cases fate <;> exact ⟨rfl, fun critical => critical⟩
  · exact ⟨rfl, fun _ => rfl⟩

namespace Proposed

variable {kind : DecisionKind} {h later : History}

theorem append (proposed : Proposed g h d kind) : Proposed g (h ++ later) d kind := by
  obtain ⟨before, rest, now, ref, rfl, hid, hw⟩ := proposed
  exact ⟨before, rest ++ later, now, ref, by simp, hid, hw⟩

/-- A decision goes back to the proposal of its earlier forms. -/
theorem of_continues (proposed : Proposed g h d kind) (continues : d.Continues e) :
    Proposed g h e kind := by
  obtain ⟨before, rest, now, ref, hsplit, hid, hw⟩ := proposed
  refine ⟨before, rest, now, ref, ?_, hid.trans continues.id.symm, ?_⟩
  · rw [continues.proposal, hsplit]
  · rw [hw, continues.workflow]

end Proposed

/-- **Every decision was proposed.** -/
theorem proposed_of_mem {h : History} (hd : d ∈ (g.fresh.after h).decisions) :
    ∃ kind, Proposed g.fresh h d kind := by
  induction h using List.reverseRecOn generalizing d with
  | nil => exact absurd hd List.not_mem_nil
  | append_singleton h m ih =>
    obtain ⟨now, o⟩ := m
    rw [after_concat] at hd
    rcases (move_step now _ o).origin (sound_after g h) hd with
      ⟨c, hc, continues⟩ | ⟨ref, kind, rfl, hid, hw⟩
    · -- it goes back to the proposal of its earlier form
      obtain ⟨kind, proposed⟩ := ih hc
      exact ⟨kind, (proposed.of_continues continues).append⟩
    · exact ⟨kind, h, [], now, ref, rfl, hid, hw⟩

/-- **What was proposed as critical is critical.** -/
theorem Proposed.kind_eq {h : History} (proposed : Proposed g.fresh h d .critical)
    (hd : d ∈ (g.fresh.after h).decisions) : d.kind = .critical := by
  obtain ⟨before, later, now, ref, rfl, hid, hw⟩ := proposed
  obtain ⟨c, hc, hcid, hkind⟩ := creates_of_propose now d.proposal .critical hw
  rw [← after_concat] at hc
  -- what was created then is the decision of today
  obtain ⟨e, he, continues⟩ := (sound_after g _).continues_after (h := later) hc
  rw [← after_append, List.append_assoc, List.singleton_append] at he
  have same : d.id = e.id := hid.symm.trans (hcid.symm.trans continues.id.symm)
  obtain rfl := (sound_after g _).eq_of_id hd he same
  exact continues.kind (hkind rfl)

end Gate

end ChangeControl
