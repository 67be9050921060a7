import ChangeControl.Gate.Examination
import ChangeControl.Proofs.Evaluation.Truth
/-!
What validation admits.

`Workflow.examine` validates a proposal by computing: it builds the snapshot that the proposal leads
to, evaluates the contract of a transition and the invariants, and stops at the first thing that is
wrong.  This module says the same without computing.  A workflow *admits* a snapshot for a proposal
when the proposal, applied to the snapshot that is current, leads exactly there, the contract of the
workflow is kept, and every invariant is true at the end.

Main definitions:

* `Workflow.Upholds` — every invariant of a workflow is true;
* `Workflow.Allows` — where a proposal leads, and the contract on the way;
* `Workflow.Admits` — both;
* `Workflow.declaresCritical` — a proposal that the workflow itself declares critical.

Main results:

* `Workflow.finding_examine_iff` — **validation passes exactly what is admitted**;
* `Workflow.events_examine` — it is silent about what it passes;
* `Workflow.Admits.unique`, `Workflow.Admits.version` — what is admitted is one snapshot, and its
  version is the next one.
-/

set_option autoImplicit false

namespace ChangeControl

open Calendar (Timestamp)
open Rule (Formula)

/-- The validation lets the proposal pass. -/
def Examination.passes (x : Examination) : Bool :=
  match x.finding with
  | .ok (.passed _ _) => true
  | .ok (.failed _) | .error _ => false

theorem Examination.passes_iff {x : Examination} :
    x.passes = true ↔ ∃ r b, x.finding = .ok (.passed r b) := by
  unfold passes
  split
  · next r b hfinding => simp [hfinding]
  · next hfinding => simp [hfinding]
  · next hfinding => simp [hfinding]

namespace Workflow

variable {w : Workflow} {vocabulary : Vocabulary} {now : Timestamp} {p : Proposal}
  {s r : Snapshot}

/-! ### Definitions -/

/-- Every invariant of the workflow is true on the project. -/
def Upholds (w : Workflow) (vocabulary : Vocabulary) (p : Project) : Prop :=
  ∀ i ∈ w.invariants, (w.setting vocabulary p).Yields [] i.formula true

/-- The proposal may be applied to the snapshot `s`, as far as its own contract goes, and leads to
the other snapshot. -/
inductive Allows (w : Workflow) (vocabulary : Vocabulary) (now : Timestamp) (s : Snapshot) :
    Proposal → Snapshot → Prop
  /-- The project goes to the target state and is changed by the declared effects in their order. -/
  | transition {source target : String} {t : Transition}
      (declared : w.transition? source target = some t)
      (state : s.project.state = source)
      (pre : (w.setting vocabulary s.project).Yields [] t.precondition true)
      (post : (w.setting vocabulary
        (Effect.applyAll t.effects (s.project.withState target))).Yields [] t.postcondition true) :
      Allows w vocabulary now s (.transition source target)
        (s.evolve now (Effect.applyAll t.effects (s.project.withState target)))
  | taskMove (m : TaskMove) :
      Allows w vocabulary now s (.taskMove m) (s.evolve now (m.applyProject s.project))
  /-- The commit is recorded as validated, to be reverted to the digest of `s`. -/
  | commit {c : NewCommit} {q : Project}
      (recorded : (c.journalMentioned s.project).withCommit
        ⟨c.id, c.message, true, c.reverts, some s.digest⟩ = .ok q)
      (undone : ∀ id ∈ c.reverts, (s.project.commit? id).isSome = true) :
      Allows w vocabulary now s (.commit c) (s.evolve now q)

/-- The proposal, applied to the snapshot `s`, leads to the snapshot `r`, by the contract of the
workflow, and the invariants of the workflow are true there. -/
structure Admits (w : Workflow) (vocabulary : Vocabulary) (now : Timestamp) (p : Proposal)
    (s r : Snapshot) : Prop where
  allowed : w.Allows vocabulary now s p r
  upheld : w.Upholds vocabulary r.project

/-- The workflow itself declares the proposal critical. -/
def declaresCritical (w : Workflow) : Proposal → Bool
  | .transition source target => w.isCritical source target
  | .taskMove _ | .commit _ => false

/-! ### The result -/

theorem violations_eq_nil_iff {q : Project} :
    w.violations vocabulary q = .ok [] ↔ w.Upholds vocabulary q :=
  violationsOf_eq_nil_iff

/-- A result passes exactly when it upholds the invariants. -/
theorem finding_examineResult_iff {result : Snapshot} {critical c : Bool} :
    (w.examineResult vocabulary result critical).finding = .ok (.passed r c) ↔
      w.Upholds vocabulary result.project ∧ r = result ∧ c = critical := by
  rw [← violations_eq_nil_iff, examineResult]
  cases w.violations vocabulary result.project with
  | error e => simp
  | ok vs =>
    cases vs with
    | nil => simp [eq_comm]
    | cons v vs => simp

theorem events_examineResult {result : Snapshot} {critical c : Bool}
    (h : (w.examineResult vocabulary result critical).finding = .ok (.passed r c)) :
    (w.examineResult vocabulary result critical).events = [] := by
  rw [finding_examineResult_iff, ← violations_eq_nil_iff] at h
  rw [examineResult, h.1]

/-! ### Transitions -/

/-- A transition is accepted exactly when it is allowed. -/
theorem checkTransition_accept_iff {source target : String} {after : Snapshot} :
    w.checkTransition vocabulary now source target s = .ok (.accept after) ↔
      w.Allows vocabulary now s (.transition source target) after := by
  constructor
  · intro h
    -- only one branch of the check accepts, and it carries the whole contract
    unfold checkTransition at h
    split at h
    · simp at h
    · next t declared =>
      split at h
      · next state =>
        split at h
        · simp at h
        · simp at h
        · next met =>
          rw [unmetOf_eq_nil_iff, Setting.yields_conjuncts_iff] at met
          obtain ⟨-, -, htarget⟩ := mem_of_transition? declared
          simp only at h
          split at h
          · simp at h
          · next o evaluated =>
            split at h
            · next holds =>
              have hafter : t.apply now s = after := by simpa using h
              rw [← hafter, Transition.apply, Transition.applyProject, htarget]
              refine .transition declared state met ⟨o, ?_, holds⟩
              rwa [Transition.apply, Snapshot.project_evolve, Transition.applyProject, htarget]
                at evaluated
            · simp at h
      · simp at h
  · intro h
    cases h with
    | @transition _ _ t declared state pre post =>
      obtain ⟨-, -, rfl⟩ := mem_of_transition? declared
      have met := unmetOf_eq_nil_iff.2 (Setting.yields_conjuncts_iff t.precondition |>.2 pre)
      obtain ⟨o, evaluated, holds⟩ := post
      have hafter : t.apply now s =
          s.evolve now (Effect.applyAll t.effects (s.project.withState t.target)) := rfl
      simp only [checkTransition, declared, state, if_true, met, hafter, Snapshot.project_evolve,
        evaluated, holds]

/-! ### Commits -/

theorem apply_newCommit_eq_ok_iff {c : NewCommit} :
    c.apply now s = .ok r ↔
      ∃ q, (c.journalMentioned s.project).withCommit
        ⟨c.id, c.message, true, c.reverts, some s.digest⟩ = .ok q ∧ r = s.evolve now q := by
  rw [NewCommit.apply, NewCommit.recorded]
  cases (c.journalMentioned s.project).withCommit
      ⟨c.id, c.message, true, c.reverts, some s.digest⟩ with
  | error e => simp
  | ok q => simp [eq_comm]

/-- A commit is passed on to the check of the invariants, or it fails. -/
theorem finding_examineCommit_iff {c : NewCommit} {b : Bool} :
    (w.examineCommit vocabulary now c s).finding = .ok (.passed r b) ↔
      w.Admits vocabulary now (.commit c) s r ∧ b = false := by
  constructor
  · intro h
    unfold examineCommit at h
    split at h
    · simp at h
    · next after recorded =>
      obtain ⟨q, hq, rfl⟩ := apply_newCommit_eq_ok_iff.1 recorded
      split at h
      · next undoes =>
        obtain ⟨upheld, rfl, rfl⟩ := finding_examineResult_iff.1 h
        exact ⟨⟨.commit hq (by simp [undoes]), upheld⟩, rfl⟩
      · next undone undoes =>
        split at h
        · next known =>
          obtain ⟨upheld, rfl, rfl⟩ := finding_examineResult_iff.1 h
          exact ⟨⟨.commit hq (by simpa [undoes] using known), upheld⟩, rfl⟩
        · simp at h
  · rintro ⟨⟨allowed, upheld⟩, rfl⟩
    cases allowed with
    | @commit _ q recorded undone =>
      rw [examineCommit, apply_newCommit_eq_ok_iff.2 ⟨q, recorded, rfl⟩]
      cases hreverts : c.reverts with
      | none => exact finding_examineResult_iff.2 ⟨upheld, rfl, rfl⟩
      | some id =>
        simp only [undone id hreverts, if_true]
        exact finding_examineResult_iff.2 ⟨upheld, rfl, rfl⟩

/-! ### Validation -/

/-- **Validation passes exactly what is admitted**, and tells what the workflow declares
critical. -/
theorem finding_examine_iff {b : Bool} :
    (w.examine vocabulary now p s).finding = .ok (.passed r b) ↔
      w.Admits vocabulary now p s r ∧ b = w.declaresCritical p := by
  cases p with
  | transition source target =>
    have haccept := @checkTransition_accept_iff w vocabulary now s source target
    rw [examine, examineTransition, declaresCritical]
    cases hcheck : w.checkTransition vocabulary now source target s with
    | error e =>
      simp only [hcheck, reduceCtorEq, false_iff] at haccept ⊢
      intro h
      exact haccept h.1.allowed
    | ok outcome =>
      cases outcome with
      | reject rejection =>
        simp only [hcheck, Except.ok.injEq, reduceCtorEq, false_iff] at haccept ⊢
        intro h
        exact haccept h.1.allowed
      | accept after =>
        simp only [hcheck, Except.ok.injEq, Outcome.accept.injEq] at haccept ⊢
        rw [finding_examineResult_iff]
        constructor
        · rintro ⟨upheld, rfl, rfl⟩
          exact ⟨⟨haccept.1 rfl, upheld⟩, rfl⟩
        · rintro ⟨⟨allowed, upheld⟩, rfl⟩
          obtain rfl := haccept.2 allowed
          exact ⟨upheld, rfl, rfl⟩
  | taskMove m =>
    rw [examine, finding_examineResult_iff]
    constructor
    · rintro ⟨upheld, rfl, rfl⟩
      exact ⟨⟨.taskMove m, upheld⟩, rfl⟩
    · rintro ⟨⟨allowed, upheld⟩, rfl⟩
      cases allowed with
      | taskMove m => exact ⟨upheld, rfl, rfl⟩
  | commit c => exact finding_examineCommit_iff

/-- Nothing is told to the log about a proposal that passes. -/
theorem events_examine {b : Bool}
    (h : (w.examine vocabulary now p s).finding = .ok (.passed r b)) :
    (w.examine vocabulary now p s).events = [] := by
  cases p with
  | transition source target =>
    rw [examine, examineTransition] at h ⊢
    cases hcheck : w.checkTransition vocabulary now source target s with
    | error e => rfl
    | ok outcome =>
      cases outcome with
      | reject rejection => simp [hcheck] at h
      | accept after =>
        simp only [hcheck] at h ⊢
        exact events_examineResult h
  | taskMove m => exact events_examineResult h
  | commit c =>
    rw [examine, examineCommit] at h ⊢
    cases happly : c.apply now s with
    | error e => rfl
    | ok after =>
      simp only [happly] at h ⊢
      cases hreverts : c.reverts with
      | none =>
        simp only [hreverts] at h ⊢
        exact events_examineResult h
      | some id =>
        cases hknown : (s.project.commit? id).isSome with
        | false => simp [hreverts, hknown] at h
        | true =>
          simp only [hreverts, hknown, if_true] at h ⊢
          exact events_examineResult h

namespace Admits

/-- A proposal leads to one snapshot only. -/
theorem unique {r' : Snapshot} (h : w.Admits vocabulary now p s r)
    (h' : w.Admits vocabulary now p s r') : r = r' := by
  have hr := finding_examine_iff.2 ⟨h, rfl⟩
  rw [finding_examine_iff.2 ⟨h', rfl⟩] at hr
  simpa [eq_comm] using hr

/-- The version of what is admitted is the next one. -/
theorem version (h : w.Admits vocabulary now p s r) :
    r.version = .number (s.version.toInt + 1) := by
  cases h.allowed <;> rfl

end Admits

end Workflow

end ChangeControl
