import ChangeControl.Gate.Decision
/-!
The lifecycle of a decision.

A decision moves by calls, each of which names a stage and changes some fields on the way.  Whether
a critical decision has its approval is asked after the changes, so that a call that makes the
decision routine is not asked.  Nothing else leads around the approval: a call that applies a
decision, critical before or after the call, leaves it approved or has made it routine itself.

Main definitions:

* `Decision.Call` — a stage to move to, and changes on the way;
* `Decision.afterCalls` — a decision after several calls.

Main results:

* `Decision.kind_change` — a kind is kept or asked for;
* `Decision.exists_applying_call` — what is applied in the end was applied by one of the calls;
* `Decision.approved_unless_routine` — **the approval cannot be left out, except by a call that
  makes the decision routine**.
-/

set_option autoImplicit false

namespace ChangeControl.Decision

variable {d e : Decision} {target : Stage} {changes : List Change}

/-! ### Calls -/

/-- A stage to move to, and changes on the way. -/
structure Call where
  target : Stage
  changes : List Change

/-- A decision after a call; a call that is refused leaves it as it was. -/
def afterCall (d : Decision) (c : Call) : Decision :=
  match d.advance c.target c.changes with
  | .ok e => e
  | .error _ => d

/-- A decision after several calls. -/
def afterCalls (d : Decision) (calls : List Call) : Decision := calls.foldl afterCall d

theorem afterCall_of_ok {c : Call} (h : d.advance c.target c.changes = .ok e) :
    d.afterCall c = e := by
  rw [afterCall, h]

theorem afterCall_of_error {c : Call} {r : Refusal}
    (h : d.advance c.target c.changes = .error r) : d.afterCall c = d := by
  rw [afterCall, h]

@[simp] theorem afterCalls_nil (d : Decision) : d.afterCalls [] = d := rfl

@[simp] theorem afterCalls_cons (d : Decision) (c : Call) (calls : List Call) :
    d.afterCalls (c :: calls) = (d.afterCall c).afterCalls calls := rfl

/-! ### One call -/

/-- A kind is kept by changes, or one of them asks for it. -/
theorem kind_change (d : Decision) (changes : List Change) :
    (d.change changes).kind = d.kind ∨ .kind (d.change changes).kind ∈ changes := by
  induction changes generalizing d with
  | nil => exact .inl rfl
  | cons c changes ih =>
    rw [change_cons]
    rcases ih (c.apply d) with kept | asked
    · cases c with
      | kind k =>
        -- the last change of the kind is the one that counts
        rw [kept]
        exact .inr List.mem_cons_self
      | id | workflow | proposal | approval | approver | reasons | baseVersion | baseDigest |
        result => exact .inl kept
    · exact .inr (List.mem_cons_of_mem c asked)

theorem kind_of_advance (h : d.advance target changes = .ok e) :
    e.kind = d.kind ∨ .kind e.kind ∈ changes := by
  obtain ⟨-, -, rfl⟩ := (advance_eq_ok_iff _ _ _ _).1 h
  exact kind_change d changes

/-- A call that applies a decision leaves it approved or routine. -/
theorem approved_or_routine_of_advance (h : d.advance target changes = .ok e)
    (applied : e.stage = .applied) : e.approval = some .approved ∨ e.kind = .routine := by
  obtain rfl : target = .applied := (stage_of_advance h).symm.trans applied
  cases hkind : e.kind with
  | critical => exact .inl (approval_of_advance_applied h hkind)
  | routine => exact .inr rfl

/-- An applied decision is refused every call. -/
theorem afterCalls_of_applied (applied : d.stage = .applied) (calls : List Call) :
    d.afterCalls calls = d := by
  induction calls with
  | nil => rfl
  | cons c calls ih =>
    have refused : d.advance c.target c.changes = .error (.noSuchMove d.id d.stage c.target) := by
      rw [advance, applied]
      simp [Stage.next]
    rw [afterCalls_cons, afterCall_of_error refused, ih]

/-! ### Several calls -/

/-- What is applied in the end was applied by one of the calls, and stayed as that call left it. -/
theorem exists_applying_call {calls : List Call} (start : d.stage ≠ .applied)
    (applied : (d.afterCalls calls).stage = .applied) :
    ∃ before c later, calls = before ++ c :: later ∧ (d.afterCalls before).stage ≠ .applied ∧
      (d.afterCalls before).advance c.target c.changes = .ok (d.afterCalls calls) := by
  induction calls generalizing d with
  | nil => exact absurd applied start
  | cons c calls ih =>
    rw [afterCalls_cons] at applied ⊢
    by_cases here : (d.afterCall c).stage = .applied
    · rw [afterCalls_of_applied here]
      cases hadvance : d.advance c.target c.changes with
      | error r => exact absurd (afterCall_of_error hadvance ▸ here) start
      | ok e =>
        rw [afterCall_of_ok hadvance]
        exact ⟨[], c, calls, rfl, start, hadvance⟩
    · obtain ⟨before, c', later, rfl, waits, moves⟩ := ih here applied
      exact ⟨c :: before, c', later, rfl, waits, moves⟩

/-- A critical decision stays critical, as long as no call asks for another kind. -/
theorem kind_afterCalls {calls : List Call} (critical : d.kind = .critical)
    (keep : ∀ c ∈ calls, .kind .routine ∉ c.changes) :
    (d.afterCalls calls).kind = .critical := by
  induction calls generalizing d with
  | nil => exact critical
  | cons c calls ih =>
    obtain ⟨hc, keep⟩ := List.forall_mem_cons.1 keep
    rw [afterCalls_cons]
    refine ih ?_ keep
    cases hadvance : d.advance c.target c.changes with
    | error r => rw [afterCall_of_error hadvance, critical]
    | ok e =>
      rw [afterCall_of_ok hadvance]
      rcases kind_of_advance hadvance with kept | asked
      · rw [kept, critical]
      · cases hkind : e.kind with
        | critical => rfl
        | routine => exact absurd (hkind ▸ asked) hc

/-- **The approval cannot be left out, except by a call that makes the decision routine.**  However
a decision that was proposed is moved: a call that applies it, while it is critical before or after
the call, leaves it approved or asks for the routine kind itself; and a critical decision that no
call makes routine is approved when it is applied in the end. -/
theorem approved_unless_routine (start : d.stage = .proposed) :
    (∀ (calls : List Call) (target : Stage) (changes : List Change) (e : Decision),
      (d.afterCalls calls).advance target changes = .ok e → e.stage = .applied →
      (d.afterCalls calls).kind = .critical ∨ e.kind = .critical →
      e.approval = some .approved ∨ e.kind = .routine ∧ .kind .routine ∈ changes) ∧
    ∀ calls : List Call, d.kind = .critical → (∀ c ∈ calls, .kind .routine ∉ c.changes) →
      (d.afterCalls calls).stage = .applied → (d.afterCalls calls).approval = some .approved := by
  constructor
  · intro calls target changes e moves applied critical
    rcases approved_or_routine_of_advance moves applied with approved | routine
    · exact .inl approved
    · refine .inr ⟨routine, ?_⟩
      rcases kind_of_advance moves with kept | asked
      · rw [← kept, or_self, routine] at critical
        cases critical
      · exact routine ▸ asked
  · intro calls critical keep applied
    have waits : d.stage ≠ .applied := by simp [start]
    obtain ⟨before, c, later, -, -, moves⟩ := exists_applying_call waits applied
    rcases approved_or_routine_of_advance moves applied with approved | routine
    · exact approved
    · rw [kind_afterCalls critical keep] at routine
      cases routine

/-- A critical decision about a task, to begin with. -/
def criticalTask : Decision :=
  .new "d1" ⟨"W", ["A"], [], [], []⟩ (.taskMove ⟨"T1", .backlog, none, none⟩) .critical

/-- It is parked, approved and applied. -/
theorem approved_criticalTask :
    ((criticalTask.afterCalls [⟨.validating, []⟩, ⟨.pendingApproval, [.approval (some .pending)]⟩,
      ⟨.applied, [.approval (some .approved), .approver (some "ann")]⟩]).approval =
        some .approved) :=
  (approved_unless_routine (d := criticalTask) rfl).2 _ rfl (by decide) rfl

/-- A call that applies a critical decision and makes it routine needs no approval. -/
theorem not_approved_of_routine :
    ¬ ∀ (d : Decision) (calls : List Call) (target : Stage) (changes : List Change) (e : Decision),
      d.stage = .proposed → (d.afterCalls calls).advance target changes = .ok e →
      e.stage = .applied → (d.afterCalls calls).kind = .critical ∨ e.kind = .critical →
      e.approval = some .approved := by
  intro h
  have approved := h criticalTask [⟨.validating, []⟩] .applied [.kind .routine] _ rfl rfl rfl
    (.inl rfl)
  cases approved

end ChangeControl.Decision
