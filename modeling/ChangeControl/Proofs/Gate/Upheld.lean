import ChangeControl.Proofs.Gate.Refinement
import ChangeControl.Proofs.Workflow.CoreRules
/-!
The core rules in the current project.

A project may break the core rules when its gate starts.  As soon as one decision is applied it
follows them, and it does so for ever, because every decision holds a workflow that was loaded, and
loading never loses a core rule.

Main definitions:

* `Operation.held?` — the workflow that a proposal brings along.

Main results:

* `Gate.isLoaded_of_mem_registry` — a registry only ever offers loaded workflows;
* `Gate.isLoaded_of_proposed` — a decision holds a loaded workflow;
* `Gate.followsCoreRules_of_applied` — **the current project follows the core rules**.
-/

set_option autoImplicit false

namespace ChangeControl

open Calendar (Timestamp)

/-- The workflow that a proposal brings along instead of naming one. -/
def Operation.held? : Operation → Option Workflow
  | .propose (.held w _) _ _ => some w
  | .propose (.named _) _ _ | .approve .. | .deny .. | .cancel .. | .wait .. | .load _ => none

namespace Gate

variable {now : Timestamp} {g : Gate} {d : Decision} {w : Workflow}

/-! ### Loaded workflows -/

/-- What a registry offers after an operation was there before, or it was loaded. -/
theorem mem_registry_step {o : Operation} (h : w ∈ (g.step now o).gate.registry.entries) :
    w ∈ g.registry.entries ∨ w.IsLoaded := by
  cases move_step now g o with
  | idle idle =>
    rcases idle.registry with same | ⟨text, v, hload⟩
    · exact .inl (same ▸ h)
    · rw [(Registry.load_eq_ok_iff.1 hload).2] at h
      rcases Registry.eq_or_mem_of_mem_publish h with rfl | old
      · exact .inr ⟨_, _, text, hload⟩
      · exact .inl old
  | settles _ _ enters | parks _ _ _ enters | approves _ _ _ enters | refuses _ _ _ _ enters =>
    exact .inl (enters.registry ▸ h)

/-- A registry only ever offers loaded workflows. -/
theorem isLoaded_of_mem_registry {h : History} (loaded : ∀ w ∈ g.registry.entries, w.IsLoaded)
    (hw : w ∈ (g.after h).registry.entries) : w.IsLoaded := by
  induction h generalizing g with
  | nil => exact loaded w hw
  | cons m h ih =>
    refine ih ?_ hw
    intro v hv
    exact (mem_registry_step hv).elim (loaded v) id

/-- A decision holds a loaded workflow, if proposals bring no other ones along. -/
theorem isLoaded_of_proposed {h : History} {kind : DecisionKind}
    (loaded : ∀ w ∈ g.registry.entries, w.IsLoaded)
    (held : ∀ m ∈ h, ∀ w ∈ m.2.held?, w.IsLoaded) (proposed : Proposed g h d kind) :
    d.workflow.IsLoaded := by
  obtain ⟨before, later, t, ref, rfl, -, reads⟩ := proposed
  -- the workflow was brought along, or the registry offered it at that time
  cases ref with
  | held w _ =>
    obtain rfl : w = d.workflow := Except.ok.inj reads
    exact held _ (List.mem_append_right before List.mem_cons_self) _ rfl
  | named name =>
    rw [workflow?] at reads
    cases found : (g.after before).registry.find? name with
    | none => simp [found] at reads
    | some w =>
      simp only [found, Except.ok.injEq] at reads
      exact reads ▸ isLoaded_of_mem_registry loaded (List.mem_of_find?_eq_some found)

/-! ### The current project -/

/-- **From the first applied decision on, the current project follows the core rules**, whatever
the loaded texts declare and whatever the first snapshot was. -/
theorem followsCoreRules_of_applied {h : History}
    (loaded : ∀ w ∈ g.registry.entries, w.IsLoaded)
    (held : ∀ m ∈ h, ∀ w ∈ m.2.held?, w.IsLoaded) (applied : (g.fresh.after h).applied ≠ []) :
    (g.fresh.after h).store.current.project.FollowsCoreRules := by
  induction h using List.reverseRecOn with
  | nil => exact absurd rfl applied
  | append_singleton h m ih =>
    obtain ⟨now, o⟩ := m
    have hbefore := fun m hm => held m (List.mem_append_left _ hm)
    rw [after_concat] at applied ⊢
    rcases (sound_after g h).rests_or_applies trivial o with rests | ⟨d, applies⟩
    · rw [rests.current]
      apply ih hbefore
      intro none
      apply applied
      rw [← List.perm_nil, ← none]
      exact rests.applied
    · -- the project is what the workflow of the applied decision admits
      obtain ⟨t, -, admits⟩ := applies.admits
      have hmem : d ∈ (g.fresh.after (h ++ [(now, o)])).decisions := by
        rw [after_concat]
        exact applies.mem_decisions
      obtain ⟨kind, proposed⟩ := proposed_of_mem hmem
      have hloaded : ∀ w ∈ g.fresh.registry.entries, w.IsLoaded := loaded
      exact admits.upheld.followsCoreRules (isLoaded_of_proposed hloaded held proposed)

/-- A workflow is loaded into a small gate, and a task is put into the backlog by it. -/
def firstTask : History :=
  [(.epoch, .load "workflow Delivery { states: [Plan]; }"),
    (.epoch, .propose (.named "Delivery") (.proposal (.taskMove ⟨"T1", .backlog, none, none⟩))
      .routine)]

theorem followsCoreRules_after_firstTask :
    (blank.fresh.after firstTask).store.current.project.FollowsCoreRules := by
  have hnone : ∀ m ∈ firstTask, m.2.held? = none := by decide
  refine followsCoreRules_of_applied ?_ ?_ ?_
  · intro w hw
    exact absurd hw List.not_mem_nil
  · intro m hm w hw
    rw [hnone m hm] at hw
    exact absurd hw (by simp)
  · decide +kernel

end Gate

end ChangeControl
