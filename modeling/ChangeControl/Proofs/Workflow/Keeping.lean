import ChangeControl.Proofs.Gate.Growth
import ChangeControl.Proofs.Workflow.Missing
/-!
The core rules are kept.

What the core rules say of a project, they say of each task and of each commit on its own.  An
effect moves a task only when it is ready for the layer it moves to, and a commit takes what it
moves for committed, so that neither can break a core rule.  Where the core rules are kept they are
true, as soon as their predicates are known, and what a workflow demands in addition is all that is
left to check.

Main definitions:

* `Task.InOrder`, `Commit.InOrder` — the core rules about one task and about one commit;
* `Workflow.withoutCoreRules` — a workflow that does not demand the core rules;
* `Workflow.Conclusive` — what is asked of a validation so that the core rules have no say in it.

Main results:

* `Effect.followsCoreRules_apply`, `Effect.followsCoreRules_applyAll` — **effects keep the core
  rules**, one of them and any number;
* `NewCommit.followsCoreRules_apply` — **so do new commits**;
* `Project.followsCoreRules_iff_yields` — a project follows the core rules exactly if they are true
  on it;
* `Workflow.examine_withoutCoreRules` — the core rules have no say in the validation of a
  transition or a commit.
-/

set_option autoImplicit false

namespace ChangeControl

open Calendar (Timestamp)
open Rule (Formula Term)

/-! ### Tasks and commits in order -/

/-- What the core rules say of one task. -/
def Task.InOrder (t : Task) : Prop :=
  (t.layer = .backlog → t.completed = false) ∧ (t.layer = .changelog → t.completed = true) ∧
    (t.layer = .journal → t.committed = true)

/-- What the core rules say of one commit. -/
def Commit.InOrder (c : Commit) : Prop := c.validated = true → c.revertTarget ≠ none

instance (t : Task) : Decidable t.InOrder := inferInstanceAs (Decidable (_ ∧ _))

instance (c : Commit) : Decidable c.InOrder := inferInstanceAs (Decidable (_ → _))

theorem Project.followsCoreRules_iff {p : Project} :
    p.FollowsCoreRules ↔ (∀ t ∈ p.tasks, t.InOrder) ∧ ∀ c ∈ p.commits, c.InOrder := by
  constructor
  · intro h
    exact ⟨fun t ht => ⟨h.backlog t ht, h.changelog t ht, h.journal t ht⟩, h.commits⟩
  · rintro ⟨tasks, commits⟩
    exact ⟨fun t ht => (tasks t ht).1, fun t ht => (tasks t ht).2.1, fun t ht => (tasks t ht).2.2,
      commits⟩

instance (p : Project) : Decidable p.FollowsCoreRules :=
  decidable_of_iff _ Project.followsCoreRules_iff.symm

/-- The core rules are kept where the tasks are changed in their places, each so that it stays in
order, and what is added to the commits is in order. -/
theorem Project.FollowsCoreRules.of_map {p q : Project} (h : p.FollowsCoreRules) {f : Task → Task}
    (keeps : ∀ t, t.InOrder → (f t).InOrder) (tasks : q.tasks = p.tasks.map f) {more : List Commit}
    (commits : q.commits = p.commits ++ more) (inOrder : ∀ c ∈ more, c.InOrder) :
    q.FollowsCoreRules := by
  rw [followsCoreRules_iff] at h ⊢
  rw [tasks, commits]
  exact ⟨List.forall_mem_map.2 fun t ht => keeps t (h.1 t ht),
    List.forall_mem_append.2 ⟨h.2, inOrder⟩⟩

/-! ### Transitions -/

namespace Effect

/-- An effect leaves every task in order: only completed work gets into the changelog, and only
committed work into the journal. -/
theorem inOrder_onTask (e : Effect) {t : Task} (h : t.InOrder) : (e.onTask t).InOrder := by
  cases e with
  | archiveCompleted =>
    simp only [onTask]
    split
    · next ready => simp [Task.InOrder, ready.2]
    · exact h
  | journalCommitted =>
    simp only [onTask]
    split
    · next ready => simp [Task.InOrder, ready.2]
    · exact h

/-- **An effect keeps the core rules.** -/
theorem followsCoreRules_apply {p : Project} (h : p.FollowsCoreRules) (e : Effect) :
    (e.apply p).FollowsCoreRules :=
  h.of_map (fun _ => e.inOrder_onTask) rfl (List.append_nil _).symm
    (List.forall_mem_nil _)

/-- **Any effects keep the core rules**, in any order and any number of times. -/
theorem followsCoreRules_applyAll (es : List Effect) {p : Project} (h : p.FollowsCoreRules) :
    (applyAll es p).FollowsCoreRules := by
  induction es generalizing p with
  | nil => exact h
  | cons e es ih => exact ih (followsCoreRules_apply h e)

end Effect

/-- A transition keeps the core rules, whatever state it leads to. -/
theorem Transition.followsCoreRules_apply (t : Transition) (now : Timestamp) {s : Snapshot}
    (h : s.project.FollowsCoreRules) : (t.apply now s).project.FollowsCoreRules :=
  -- no core rule speaks of the state
  Effect.followsCoreRules_applyAll t.effects ⟨h.backlog, h.changelog, h.journal, h.commits⟩

/-! ### Commits -/

namespace NewCommit

theorem inOrder_onTask (c : NewCommit) {t : Task} (h : t.InOrder) : (c.onTask t).InOrder := by
  unfold onTask
  split
  · simp [journaled, Task.InOrder]
  · exact h

/-- A recorded commit can be reverted. -/
theorem inOrder_recorded (c : NewCommit) (s : Snapshot) : (c.recorded s).InOrder := by
  intro _ none
  cases none

/-- **A new commit keeps the core rules.** -/
theorem followsCoreRules_apply {c : NewCommit} {now : Timestamp} {s r : Snapshot}
    (h : s.project.FollowsCoreRules) (recorded : c.apply now s = .ok r) :
    r.project.FollowsCoreRules := by
  have new := (apply_isOk_iff now c s).1 (by rw [recorded]; rfl)
  obtain ⟨q, happly, -, htasks, hcommits⟩ := exists_apply now new
  rw [recorded, Except.ok.injEq] at happly
  rw [happly]
  exact h.of_map (fun _ => c.inOrder_onTask) htasks hcommits
    (List.forall_mem_singleton.2 (c.inOrder_recorded s))

end NewCommit

/-! ### The truth of the core rules -/

namespace Setting

variable {m : Setting} {env : Bindings} {b c : Bool}

/-- What can be evaluated with some predicates can be with all of them. -/
theorem standard_full_agrees (m : Setting) : m.full.standard.Agrees m where
  pred {env name args b} happ := by
    refine (standard_agrees m.full).pred ?_
    cases known : m.vocabulary.find? name with
    | none => simp [application, known] at happ
    | some q =>
      obtain ⟨-, rfl⟩ := Vocabulary.find?_eq_some_iff.1 known
      have hfull : m.full.vocabulary.find? q.name = some q :=
        find?_name_of_mem (Predicate.mem_all q)
      rw [← happ, application, application, known, hfull, values_full]
      rfl
  member hmem := (standard_agrees m.full).member (membership_full.trans hmem)
  domain hvs := (standard_agrees m.full).domain hvs

/-- Fewer predicates give no other truth value. -/
theorem Yields.eq_of_full {f : Formula} (h : m.Yields env f b) (hfull : m.full.Yields env f c) :
    b = c := by
  have hholds := (standard_full_agrees m).holds_iff f h
  rw [(standard_agrees m.full).holds_iff f hfull] at hholds
  exact Bool.eq_iff_iff.2 hholds.symm

/-- A known predicate of one variable says what its application to the value of the variable
gives. -/
theorem yields_holdsOf_iff {q : Predicate} {v : String} {x : Value} (known : q ∈ m.vocabulary)
    (bound : env.find? v = some x) :
    m.Yields env (Core.holdsOf q.name v) b ↔ q.apply m.project [x] = .ok b := by
  refine ⟨apply_of_yields_holdsOf bound, fun happly => ?_⟩
  rw [Core.holdsOf, yields_pred_iff, application, find?_name_of_mem known]
  simp only [values, value, bound, happly]

/-- A task is a member of its layer and of no other one. -/
theorem yields_member_layer {t : Task} (ht : t ∈ m.project.tasks) (l : Layer) :
    m.Yields [("task", .task t)] (.member (.var "task") l.name false) (t.layer == l) := by
  have hvalue : ∀ place, m.value [("task", .task t)] place (.var "task") = .ok (.task t) :=
    fun _ => rfl
  rw [yields_member_iff, membership, members_layer]
  simp only [hvalue, Bool.bne_false, Except.ok.injEq]
  by_cases same : t.layer = l
  · rw [← same, isIn_layerMembers ht, beq_self_eq_true]
  · have outside : Value.task t ∉ Domain.layerMembers m.project l := by
      intro mem
      obtain ⟨u, hu, huv⟩ := List.mem_map.1 mem
      obtain rfl := Value.task.inj huv
      exact same (eq_of_beq (List.mem_filter.1 (List.mem_mergeSort.1 hu)).2)
    rw [beq_false_of_ne same]
    exact Bool.eq_false_iff.2 fun inside => outside (List.contains_iff_mem.1 inside)

/-- A rule about a layer is true if what it says is true of each task in it. -/
theorem yields_layerRule {l : Layer} {body : Formula}
    (h : ∀ t ∈ m.project.tasks, t.layer = l → m.Yields [("task", .task t)] body true) :
    m.Yields [] (Core.layerRule l.name body) true := by
  refine (yields_all_true_iff (d := .tasks) rfl).2 fun x hx => ?_
  obtain ⟨t, ht, rfl⟩ := List.mem_map.1 hx
  have ht := List.mem_mergeSort.1 ht
  have hmember := yields_member_layer ht l
  by_cases same : t.layer = l
  · rw [same, beq_self_eq_true] at hmember
    exact yields_implies_true_iff.2 (.inr ⟨hmember, h t ht same⟩)
  · rw [beq_false_of_ne same] at hmember
    exact yields_implies_true_iff.2 (.inl hmember)

/-- The core rules are true on a project that follows them, where their predicates are known. -/
theorem yields_core (known : ∀ q ∈ Core.predicates, q ∈ m.vocabulary)
    (h : m.project.FollowsCoreRules) {rule : Invariant} (hrule : rule ∈ Core.rules) :
    m.Yields [] rule.formula true := by
  simp only [Core.rules, List.mem_cons, List.not_mem_nil, or_false] at hrule
  rcases hrule with rfl | rfl | rfl | rfl
  · refine yields_layerRule (l := .backlog) fun t ht layer => yields_not_iff.2 ?_
    refine (yields_holdsOf_iff (q := .completed) (known _ (by decide)) rfl).2 ?_
    exact congrArg Except.ok (h.backlog t ht layer)
  · refine yields_layerRule (l := .changelog) fun t ht layer => ?_
    refine (yields_holdsOf_iff (q := .completed) (known _ (by decide)) rfl).2 ?_
    exact congrArg Except.ok (h.changelog t ht layer)
  · refine yields_layerRule (l := .journal) fun t ht layer => ?_
    refine (yields_holdsOf_iff (q := .committed) (known _ (by decide)) rfl).2 ?_
    exact congrArg Except.ok (h.journal t ht layer)
  · refine (yields_all_true_iff (d := .commits) rfl).2 fun x hx => ?_
    obtain ⟨c, hc, rfl⟩ := List.mem_map.1 hx
    have hvalidated : m.Yields [("commit", .commit c)]
        (Core.holdsOf Predicate.validated.name "commit") c.validated :=
      (yields_holdsOf_iff (known _ (by decide)) rfl).2 rfl
    cases valid : c.validated with
    | false => exact yields_implies_true_iff.2 (.inl (valid ▸ hvalidated))
    | true =>
      refine yields_implies_true_iff.2 (.inr ⟨valid ▸ hvalidated, ?_⟩)
      refine (yields_holdsOf_iff (q := .revertible) (known _ (by decide)) rfl).2 ?_
      exact congrArg Except.ok (Option.isSome_iff_ne_none.2
        (h.commits c (List.mem_mergeSort.1 hc) valid))

/-- No core rule is false on a project that follows them, whatever predicates are known. -/
theorem eq_true_of_yields_core (h : m.project.FollowsCoreRules) {rule : Invariant}
    (hrule : rule ∈ Core.rules) (hb : m.Yields [] rule.formula b) : b = true :=
  hb.eq_of_full (yields_core (m := m.full) (fun q _ => Predicate.mem_all q) h hrule)

end Setting

/-- **A project follows the core rules exactly if they are true on it**, where their predicates are
known. -/
theorem Project.followsCoreRules_iff_yields {m : Setting}
    (known : ∀ q ∈ Core.predicates, q ∈ m.vocabulary) :
    m.project.FollowsCoreRules ↔ ∀ rule ∈ Core.rules, m.Yields [] rule.formula true :=
  ⟨fun h _ hrule => Setting.yields_core known h hrule, Setting.followsCoreRules_of_yields⟩

/-! ### Workflows without the core rules -/

/-- What the core rules say. -/
def Core.formulas : List Formula := Core.rules.map Invariant.formula

/-- The workflow without the invariants that say what a core rule says. -/
def Workflow.withoutCoreRules (w : Workflow) : Workflow :=
  { w with invariants := w.invariants.filter fun i => i.formula ∉ Core.formulas }

/-- A definition that may be held may be held without the core rules too. -/
theorem Workflow.IsProper.withoutCoreRules {w : Workflow} (proper : w.IsProper) :
    w.withoutCoreRules.IsProper := by
  intro f hf
  rcases List.mem_append.1 hf with hf | hf
  · exact proper f (List.mem_append_left _ hf)
  · obtain ⟨i, hi, rfl⟩ := List.mem_map.1 hf
    exact proper _ (mem_formulas_of_invariant (List.mem_filter.1 hi).1)

section Violations

variable {m : Setting} {is : List Invariant} {vs : List Violation} {v : Violation}

/-- What is true breaks nothing. -/
theorem violationsOf_filter {keep : Invariant → Bool}
    (h : ∀ i ∈ is, keep i = false → m.Yields [] i.formula true) :
    violationsOf m (is.filter keep) = violationsOf m is := by
  induction is with
  | nil => rfl
  | cons i is ih =>
    obtain ⟨hi, h⟩ := List.forall_mem_cons.1 h
    cases hkeep : keep i with
    | true => simp only [List.filter_cons, hkeep, if_true, violationsOf, ih h]
    | false =>
      obtain ⟨r, hr, holds⟩ := hi hkeep
      rw [List.filter_cons, hkeep, if_neg Bool.false_ne_true, ih h, violationsOf, hr]
      cases violationsOf m is <;> simp [holds]

/-- What is broken is one of the invariants; it is false, and its witness is told. -/
theorem evaluate_of_mem_violationsOf (h : violationsOf m is = .ok vs) (hv : v ∈ vs) :
    v.invariant ∈ is ∧ m.evaluate v.invariant.formula [] = .ok ⟨false, v.witness⟩ := by
  induction is generalizing vs with
  | nil =>
    cases h
    exact absurd hv List.not_mem_nil
  | cons i is ih =>
    rw [violationsOf] at h
    cases hi : m.evaluate i.formula [] with
    | error e => simp [hi] at h
    | ok r =>
      cases hrest : violationsOf m is with
      | error e => simp [hi, hrest] at h
      | ok us =>
        simp only [hi, hrest, Except.ok.injEq] at h
        subst h
        cases holds : r.holds with
        | true =>
          rw [holds, if_pos rfl] at hv
          exact (ih hrest hv).imp_left (List.mem_cons_of_mem i)
        | false =>
          rw [holds, if_neg Bool.false_ne_true] at hv
          rcases List.mem_cons.1 hv with rfl | hv
          · exact ⟨List.mem_cons_self, by rw [hi, ← holds]⟩
          · exact (ih hrest hv).imp_left (List.mem_cons_of_mem i)

end Violations

namespace Workflow

variable {w : Workflow} {vocabulary : Vocabulary} {p : Project} {now : Timestamp}
  {s r : Snapshot}

/-- A project that follows the core rules breaks none of them, whatever predicates are known. -/
theorem not_core_of_mem_violations (h : p.FollowsCoreRules) {vs : List Violation}
    (hvs : w.violations vocabulary p = .ok vs) : ∀ v ∈ vs, v.invariant.formula ∉ Core.formulas := by
  intro v hv hcore
  obtain ⟨rule, hrule, same⟩ := List.mem_map.1 hcore
  have hfalse : (w.setting vocabulary p).Yields [] v.invariant.formula false :=
    ⟨_, (evaluate_of_mem_violationsOf hvs hv).2, rfl⟩
  rw [← same] at hfalse
  cases Setting.eq_true_of_yields_core (m := w.setting vocabulary p) h hrule hfalse

/-- The predicates of the core rules are known, or at least the validation of the proposal does not
end in an error of evaluation. -/
def Conclusive (w : Workflow) (vocabulary : Vocabulary) (now : Timestamp) (p : Proposal)
    (s : Snapshot) : Prop :=
  (∀ q ∈ Core.predicates, q ∈ vocabulary) ∨ ∀ e, (w.examine vocabulary now p s).finding ≠ .error e

/-- What a project that follows the core rules breaks, it breaks without them. -/
theorem violations_withoutCoreRules (h : p.FollowsCoreRules)
    (conclusive : (∀ q ∈ Core.predicates, q ∈ vocabulary) ∨
      ∃ vs, w.violations vocabulary p = .ok vs) :
    w.withoutCoreRules.violations vocabulary p = w.violations vocabulary p := by
  refine violationsOf_filter fun i hi hcore => ?_
  obtain ⟨rule, hrule, same⟩ := List.mem_map.1 (not_not.1 (of_decide_eq_false hcore))
  rw [← same]
  rcases conclusive with known | ⟨vs, hvs⟩
  · exact Setting.yields_core (m := w.setting vocabulary p) known h hrule
  · -- what has a truth value is true
    obtain ⟨b, hb⟩ := yields_of_violationsOf_ok hvs i hi
    rw [← same] at hb
    exact Setting.eq_true_of_yields_core (m := w.setting vocabulary p) h hrule hb ▸ hb

theorem examineResult_withoutCoreRules (h : r.project.FollowsCoreRules) {critical : Bool}
    (conclusive : (∀ q ∈ Core.predicates, q ∈ vocabulary) ∨
      ∀ e, (w.examineResult vocabulary r critical).finding ≠ .error e) :
    w.withoutCoreRules.examineResult vocabulary r critical =
      w.examineResult vocabulary r critical := by
  have evaluated : (∀ q ∈ Core.predicates, q ∈ vocabulary) ∨
      ∃ vs, w.violations vocabulary r.project = .ok vs := by
    refine conclusive.imp_right fun noError => ?_
    cases outcome : w.violations vocabulary r.project with
    | ok vs => exact ⟨vs, rfl⟩
    | error e => exact absurd (by rw [examineResult, outcome]) (noError e)
  rw [examineResult, violations_withoutCoreRules h evaluated]
  rfl

/-- What a workflow allows keeps the core rules, unless a task is moved by hand. -/
theorem Allows.followsCoreRules {p : Proposal} (allowed : w.Allows vocabulary now s p r)
    (h : s.project.FollowsCoreRules) (other : ∀ m, p ≠ .taskMove m) :
    r.project.FollowsCoreRules := by
  cases allowed with
  | @transition source target t declared state pre post =>
    exact Effect.followsCoreRules_applyAll t.effects
      (p := s.project.withState target) ⟨h.backlog, h.changelog, h.journal, h.commits⟩
  | taskMove m => exact absurd rfl (other m)
  | commit recorded undone =>
    exact NewCommit.followsCoreRules_apply h (apply_newCommit_eq_ok_iff.2 ⟨_, recorded, rfl⟩)

/-- **The core rules have no say in the validation** of a transition or a commit, where the current
project follows them. -/
theorem examine_withoutCoreRules {p : Proposal} (h : s.project.FollowsCoreRules)
    (other : ∀ m, p ≠ .taskMove m) (conclusive : w.Conclusive vocabulary now p s) :
    w.withoutCoreRules.examine vocabulary now p s = w.examine vocabulary now p s := by
  cases p with
  | taskMove m => exact absurd rfl (other m)
  | transition source target =>
    have hcheck : w.withoutCoreRules.checkTransition vocabulary now source target s =
        w.checkTransition vocabulary now source target s := rfl
    rw [Conclusive, examine, examineTransition] at conclusive
    rw [examine, examine, examineTransition, examineTransition, hcheck]
    cases outcome : w.checkTransition vocabulary now source target s with
    | error e => rfl
    | ok o =>
      cases o with
      | reject rejection => rfl
      | accept after =>
        have hafter := (checkTransition_accept_iff.1 outcome).followsCoreRules h other
        rw [outcome] at conclusive
        exact examineResult_withoutCoreRules hafter conclusive
  | commit c =>
    rw [Conclusive, examine, examineCommit] at conclusive
    rw [examine, examine, examineCommit, examineCommit]
    cases recorded : c.apply now s with
    | error e => rfl
    | ok after =>
      have hafter := NewCommit.followsCoreRules_apply h recorded
      cases reverts : c.reverts with
      | none =>
        simp only [recorded, reverts] at conclusive ⊢
        exact examineResult_withoutCoreRules hafter conclusive
      | some undone =>
        simp only [recorded, reverts] at conclusive ⊢
        split
        · next known =>
          rw [if_pos known] at conclusive
          exact examineResult_withoutCoreRules hafter conclusive
        · rfl

end Workflow

end ChangeControl
