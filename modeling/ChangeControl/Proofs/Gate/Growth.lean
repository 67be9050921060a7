import ChangeControl.Proofs.Gate.Chain
import Mathlib.Data.List.Infix
/-!
The history of a project only grows.

A gate changes its project by admitted proposals only, and none of the three kinds takes anything
away: a transition changes tasks in their places, a task move changes one or adds it behind the
others, and a commit is recorded behind all others, on the snapshot that is current then.  So the
commits of a younger snapshot begin with those of an older one, the tasks with the same tasks, and
whatever was recorded in between tells where it was recorded.

Main definitions:

* `Commit.RecordedOn`, `Snapshot.Extends` — a commit that is new on a snapshot, and a snapshot with
  one at most;
* `Gate.Adds` — a history that records a commit at some place;
* `Gate.Grows` — a project before and after a history;
* `Proposal.build` — the project of a proposal, put together from its parts.

Main results:

* `Workflow.Allows.extends`, `Gate.Sound.extends_step` — **nothing is taken away**, by a proposal
  and by an operation;
* `Gate.Sound.grows` — the same for histories;
* `Proposal.build_error_iff` — identifiers are repeated only by a commit that is there already, and
  then the proposal is rejected;
* `Gate.project_grows` — **the history of a project only grows**.
-/

set_option autoImplicit false

namespace ChangeControl

open Calendar (Timestamp)

/-! ### Tasks stay in their places -/

namespace Project

variable {p : Project}

/-- The identifiers of the tasks, in the order of the tasks. -/
def taskIds (p : Project) : List String := p.tasks.map Task.id

/-- The identifiers of the commits, in the order of the commits. -/
def commitIds (p : Project) : List String := p.commits.map Commit.id

@[simp] theorem taskIds_withState (p : Project) (state : String) :
    (p.withState state).taskIds = p.taskIds := rfl

@[simp] theorem taskIds_mapTasks (p : Project) (f : Task → Task) (keeps : ∀ t, (f t).id = t.id) :
    (p.mapTasks f keeps).taskIds = p.taskIds := by
  have hid : Task.id ∘ f = Task.id := funext keeps
  rw [taskIds, mapTasks, List.map_map, hid]
  rfl

theorem taskIds_withTask (p : Project) (t : Task) : p.taskIds <+: (p.withTask t).taskIds := by
  unfold withTask
  split
  · rw [taskIds_mapTasks]
  · rw [taskIds, taskIds, List.map_append]
    exact List.prefix_append _ _

theorem taskIds_of_withCommit {q : Project} {c : Commit} (h : p.withCommit c = .ok q) :
    q.taskIds = p.taskIds := by
  unfold withCommit at h
  split at h
  · cases h
  · obtain rfl := Except.ok.inj h
    rfl

end Project

@[simp] theorem NewCommit.taskIds_journalMentioned (c : NewCommit) (p : Project) :
    (c.journalMentioned p).taskIds = p.taskIds := by
  rw [Project.taskIds, tasks_journalMentioned, List.map_map]
  exact List.map_congr_left fun t _ => c.id_onTask t

/-- A new commit is recorded, and the parts of the project are these. -/
theorem NewCommit.exists_apply (now : Timestamp) {c : NewCommit} {s : Snapshot}
    (new : c.id ∉ s.project.commitIds) :
    ∃ q : Project, c.apply now s = .ok (s.evolve now q) ∧ q.state = s.project.state ∧
      q.tasks = s.project.tasks.map c.onTask ∧
        q.commits = s.project.commits ++ [c.recorded s] := by
  have hnew : (c.recorded s).id ∉ (c.journalMentioned s.project).commits.map Commit.id := by
    rwa [commits_journalMentioned]
  rw [apply, Project.withCommit, dif_neg hnew]
  exact ⟨_, rfl, by simp⟩

namespace Effect

@[simp] theorem taskIds_applyAll (es : List Effect) (p : Project) :
    (applyAll es p).taskIds = p.taskIds := by
  induction es generalizing p with
  | nil => rfl
  | cons e es ih =>
    rw [applyAll, List.foldl_cons, ← applyAll, ih, apply, Project.taskIds_mapTasks]

theorem tasks_applyAll (es : List Effect) (p : Project) :
    (applyAll es p).tasks = p.tasks.map fun t => es.foldl (fun t e => e.onTask t) t := by
  induction es generalizing p with
  | nil => exact (List.map_id _).symm
  | cons e es ih =>
    rw [applyAll, List.foldl_cons, ← applyAll, ih, apply, Project.mapTasks, List.map_map]
    rfl

@[simp] theorem state_applyAll (es : List Effect) (p : Project) :
    (applyAll es p).state = p.state := by
  induction es generalizing p with
  | nil => rfl
  | cons e es ih =>
    rw [applyAll, List.foldl_cons, ← applyAll, ih]
    rfl

@[simp] theorem commits_applyAll (es : List Effect) (p : Project) :
    (applyAll es p).commits = p.commits := by
  induction es generalizing p with
  | nil => rfl
  | cons e es ih =>
    rw [applyAll, List.foldl_cons, ← applyAll, ih]
    rfl

end Effect

/-! ### Snapshots that extend each other -/

/-- The commit is new on the snapshot: it is validated, it can be reverted to the snapshot, and what
it undoes, if it undoes something, is there. -/
structure Commit.RecordedOn (c : Commit) (s : Snapshot) : Prop where
  validated : c.validated = true
  target : c.revertTarget = some s.digest
  undone : ∀ id ∈ c.reverts, id ∈ s.project.commitIds

/-- The snapshot `r` has the tasks of the snapshot `s` and perhaps more, and the commits of `s` and
at most one more. -/
structure Snapshot.Extends (s r : Snapshot) : Prop where
  tasks : s.project.taskIds <+: r.project.taskIds
  commits : r.project.commits = s.project.commits ∨
    ∃ c : Commit, r.project.commits = s.project.commits ++ [c] ∧ c.RecordedOn s

theorem Snapshot.Extends.refl (s : Snapshot) : s.Extends s := ⟨List.prefix_refl _, .inl rfl⟩

theorem Snapshot.Extends.prefix_commits {s r : Snapshot} (h : s.Extends r) :
    s.project.commits <+: r.project.commits := by
  rcases h.commits with same | ⟨c, more, -⟩
  · rw [same]
  · rw [more]
    exact List.prefix_append _ _

theorem Project.mem_commitIds_iff {p : Project} {id : String} :
    id ∈ p.commitIds ↔ (p.commit? id).isSome = true := by
  rw [commitIds, List.mem_map, Option.isSome_iff_exists]
  constructor
  · rintro ⟨c, hc, same⟩
    exact ⟨c, (p.commit?_eq_some_iff id c).2 ⟨hc, same⟩⟩
  · rintro ⟨c, hc⟩
    exact ⟨c, (p.commit?_eq_some_iff id c).1 hc⟩

/-- **A proposal takes nothing away.** -/
theorem Workflow.Allows.extends {w : Workflow} {vocabulary : Vocabulary} {now : Timestamp}
    {p : Proposal} {s r : Snapshot} (h : w.Allows vocabulary now s p r) : s.Extends r := by
  cases h with
  | @transition source target t declared state pre post =>
    refine ⟨?_, .inl ?_⟩
    · rw [Snapshot.project_evolve, Effect.taskIds_applyAll, Project.taskIds_withState]
    · rw [Snapshot.project_evolve, Effect.commits_applyAll]
      rfl
  | taskMove m =>
    refine ⟨?_, .inl ?_⟩
    · exact Project.taskIds_withTask _ _
    · exact Project.commits_withTask _ _
  | @commit c q recorded undone =>
    have hcommits := Project.commits_of_withCommit recorded
    rw [NewCommit.commits_journalMentioned] at hcommits
    refine ⟨?_, .inr ⟨c.recorded s, hcommits, rfl, rfl, ?_⟩⟩
    · rw [Snapshot.project_evolve, Project.taskIds_of_withCommit recorded,
        NewCommit.taskIds_journalMentioned]
    · intro id hid
      exact Project.mem_commitIds_iff.2 (undone id hid)

/-! ### Identifiers are not repeated -/

/-- A task in the place of the one with its identifier, or as the last one. -/
def storeTask (task : Task) (tasks : List Task) : List Task :=
  if task.id ∈ tasks.map Task.id then tasks.map (Project.replacing task) else tasks ++ [task]

/-- The project that a proposal leads to, put together from its parts.  An identifier that is there
twice is an error. -/
def Proposal.build (w : Workflow) (s : Snapshot) : Proposal → Except DuplicateId Project
  | .transition source target =>
    match w.transition? source target with
    | none => .ok s.project
    | some t =>
      Project.make t.target
        (s.project.tasks.map fun task => t.effects.foldl (fun task e => e.onTask task) task)
        s.project.commits
  | .taskMove m =>
    Project.make s.project.state
      (storeTask (m.onTask ((s.project.task? m.task).getD (.new m.task))) s.project.tasks)
      s.project.commits
  | .commit c =>
    Project.make s.project.state (s.project.tasks.map c.onTask)
      (s.project.commits ++ [c.recorded s])

/-- Parts can be put together when no identifier is there twice. -/
theorem Project.make_isOk_iff {state : String} {tasks : List Task} {commits : List Commit} :
    (∃ p, make state tasks commits = .ok p) ↔
      (tasks.map Task.id).Nodup ∧ (commits.map Commit.id).Nodup := by
  constructor
  · rintro ⟨p, h⟩
    unfold make at h
    split at h
    · cases h
    · next htasks =>
      split at h
      · cases h
      · next hcommits =>
        exact ⟨nodup_of_firstRepeated? htasks, nodup_of_firstRepeated? hcommits⟩
  · rintro ⟨htasks, hcommits⟩
    exact ⟨_, make_self ⟨state, tasks, commits, htasks, hcommits⟩⟩

theorem Project.tasks_withTask (p : Project) (t : Task) :
    (p.withTask t).tasks = storeTask t p.tasks := by
  unfold withTask storeTask
  split <;> rfl

namespace Proposal

variable {w : Workflow} {vocabulary : Vocabulary} {now : Timestamp} {p : Proposal}
  {s r : Snapshot}

theorem build_transition {source target : String} {t : Transition}
    (declared : w.transition? source target = some t) :
    (Proposal.transition source target).build w s =
      .ok (Effect.applyAll t.effects (s.project.withState target)) := by
  obtain ⟨-, -, rfl⟩ := Workflow.mem_of_transition? declared
  have hparts := Project.make_self (Effect.applyAll t.effects (s.project.withState t.target))
  rw [Effect.tasks_applyAll, Effect.state_applyAll, Effect.commits_applyAll] at hparts
  rw [build, declared]
  exact hparts

theorem build_taskMove (m : TaskMove) :
    (Proposal.taskMove m).build w s = .ok (m.applyProject s.project) := by
  have hparts := Project.make_self (m.applyProject s.project)
  rw [TaskMove.applyProject, Project.tasks_withTask, Project.state_withTask,
    Project.commits_withTask] at hparts
  exact hparts

/-- A commit can be put together with the others when it is new, and then it is recorded. -/
theorem build_commit (w : Workflow) (now : Timestamp) {c : NewCommit}
    (new : c.id ∉ s.project.commitIds) :
    ∃ q, (Proposal.commit c).build w s = .ok q ∧ c.apply now s = .ok (s.evolve now q) := by
  obtain ⟨q, happly, hstate, htasks, hcommits⟩ := NewCommit.exists_apply now new
  have hparts := Project.make_self q
  rw [hstate, htasks, hcommits] at hparts
  exact ⟨q, hparts, happly⟩

theorem build_commit_of_mem {c : NewCommit} (known : c.id ∈ s.project.commitIds) :
    ∃ e, (Proposal.commit c).build w s = .error e := by
  cases hbuild : (Proposal.commit c).build w s with
  | error e => exact ⟨e, rfl⟩
  | ok q =>
    have nodup := (Project.make_isOk_iff.1 ⟨q, hbuild⟩).2
    rw [List.map_append, List.nodup_append] at nodup
    exact absurd rfl (nodup.2.2 c.id known c.id (by simp [NewCommit.recorded]))

/-- **An identifier is there twice only if a commit is there already.** -/
theorem build_error_iff :
    (∃ e, p.build w s = .error e) ↔ ∃ c, p = .commit c ∧ c.id ∈ s.project.commitIds := by
  constructor
  · rintro ⟨e, h⟩
    cases p with
    | transition source target =>
      cases declared : w.transition? source target with
      | none =>
        rw [build, declared] at h
        cases h
      | some t =>
        rw [build_transition declared] at h
        cases h
    | taskMove m =>
      rw [build_taskMove] at h
      cases h
    | commit c =>
      refine ⟨c, rfl, ?_⟩
      by_contra new
      obtain ⟨q, hq, -⟩ := build_commit w .epoch new
      rw [hq] at h
      cases h
  · rintro ⟨c, rfl, known⟩
    exact build_commit_of_mem known

/-- A commit that is there already is rejected, before it is put together with the others. -/
theorem finding_of_mem {c : NewCommit} (known : c.id ∈ s.project.commitIds) :
    (w.examine vocabulary now (.commit c) s).finding =
      .ok (.failed ["commit " ++ Text.quote c.id ++ " already exists"]) := by
  rw [Workflow.examine, Workflow.examineCommit]
  cases happly : c.apply now s with
  | error e => rfl
  | ok after =>
    have hok := (NewCommit.apply_isOk_iff now c s).1 (by rw [happly]; rfl)
    exact absurd known hok

/-- What a workflow allows was put together without a repeated identifier. -/
theorem build_of_allows (h : w.Allows vocabulary now s p r) : p.build w s = .ok r.project := by
  cases h with
  | transition declared => exact build_transition declared
  | taskMove m => exact build_taskMove m
  | @commit c q recorded undone =>
    have happly : c.apply now s = .ok (s.evolve now q) :=
      Workflow.apply_newCommit_eq_ok_iff.2 ⟨q, recorded, rfl⟩
    have new := (NewCommit.apply_isOk_iff now c s).1 (by rw [happly]; rfl)
    obtain ⟨q', hbuild, happly'⟩ := build_commit w now new
    rw [happly] at happly'
    have same : q = q' := congrArg Snapshot.project (Except.ok.inj happly')
    rw [hbuild, ← same]
    rfl

end Proposal

namespace Gate

variable {P : Timestamp → Prop} {now : Timestamp} {g : Gate} {o : Operation} {h later : History}
  {c : Commit} {i : Nat}

/-! ### Definitions -/

/-- In the history that begins with the gate `g`, an operation records the commit `c` behind `i`
other ones, on the snapshot that is current then. -/
def Adds (g : Gate) (h : History) (i : Nat) (c : Commit) : Prop :=
  ∃ (before rest : History) (now : Timestamp) (o : Operation),
    h = before ++ (now, o) :: rest ∧
      (g.after before).store.current.project.commits.length = i ∧
      (g.after (before ++ [(now, o)])).store.current.project.commits =
        (g.after before).store.current.project.commits ++ [c] ∧
      c.RecordedOn (g.after before).store.current

/-- The history that begins with the gate `g` takes nothing away from the project, and records
whatever commit is new. -/
structure Grows (g : Gate) (h : History) : Prop where
  tasks : g.store.current.project.taskIds <+: (g.after h).store.current.project.taskIds
  commits : g.store.current.project.commits <+: (g.after h).store.current.project.commits
  added : ∀ i c, g.store.current.project.commits.length ≤ i →
    (g.after h).store.current.project.commits[i]? = some c → Adds g h i c

/-- The reason to reject a commit that is there already. -/
def alreadyExists (c : NewCommit) : String := "commit " ++ Text.quote c.id ++ " already exists"

/-- No operation on the gate puts a project together in which an identifier is there twice: it does
not happen to a result that passes or is kept, it could happen only to a commit that is there
already, and such a commit is rejected when it is proposed and when it is approved. -/
structure NeverRepeats (g : Gate) : Prop where
  passed : ∀ w vocabulary now p r b,
    (Workflow.examine w vocabulary now p g.store.current).finding = .ok (.passed r b) →
      p.build w g.store.current = .ok r.project
  kept : ∀ d ∈ g.decisions, d.stage = .pendingApproval → ∀ r, cached? d g.store.current = some r →
    d.proposal.build d.workflow g.store.current = .ok r.project
  repeated : ∀ w p e, Proposal.build w g.store.current p = .error e →
    ∃ c, p = .commit c ∧ c.id ∈ g.store.current.project.commitIds
  proposed : ∀ now ref w c kind, g.workflow? ref = .ok w →
    c.id ∈ g.store.current.project.commitIds →
      (g.propose now ref (.proposal (.commit c)) kind none).reply =
          .ok ⟨.rejected, g.nextId, [alreadyExists c], none⟩ ∨
        (g.propose now ref (.proposal (.commit c)) kind none).writeFails = true
  approved : ∀ now id d approver c, g.find? id = some d → d.stage = .pendingApproval →
    d.proposal = .commit c → c.id ∈ g.store.current.project.commitIds →
      (g.approve now id approver none).reply = .ok ⟨.rejected, id, [alreadyExists c], none⟩ ∨
        (g.approve now id approver none).writeFails = true

/-! ### Operations and histories -/

/-- **An operation takes nothing away.** -/
theorem Sound.extends_step (sound : Sound P g) (hnow : P now) (o : Operation) :
    g.store.current.Extends (g.step now o).gate.store.current := by
  rcases sound.rests_or_applies hnow o with rests | ⟨d, applies⟩
  · rw [rests.current]
    exact .refl _
  · obtain ⟨t, -, admits⟩ := applies.admits
    exact admits.allowed.extends

theorem Adds.append (adds : Adds g h i c) : Adds g (h ++ later) i c := by
  obtain ⟨before, rest, now, o, rfl, hlength, hcommits, recorded⟩ := adds
  exact ⟨before, rest ++ later, now, o, by simp, hlength, hcommits, recorded⟩

/-- **A history takes nothing away.** -/
theorem Sound.grows (sound : Sound (fun _ => True) g) (h : History) : Grows g h := by
  induction h using List.reverseRecOn with
  | nil =>
    refine ⟨List.prefix_refl _, List.prefix_refl _, ?_⟩
    intro i c hi hc
    have hnone : g.store.current.project.commits[i]? = none := List.getElem?_eq_none hi
    cases hnone.symm.trans hc
  | append_singleton h m ih =>
    obtain ⟨now, o⟩ := m
    have hsound : Sound (fun _ => True) (g.after h) := sound.after fun _ _ => trivial
    have step : (g.after h).store.current.Extends ((g.after h).step now o).gate.store.current :=
      hsound.extends_step trivial o
    rw [← after_concat] at step
    refine ⟨ih.tasks.trans step.tasks, ih.commits.trans step.prefix_commits, ?_⟩
    intro i c hi hc
    by_cases old : i < (g.after h).store.current.project.commits.length
    · -- it was there before this operation
      have hbefore := List.prefix_iff_getElem?.1 step.prefix_commits i old
      rw [hc] at hbefore
      have hsome := List.getElem?_eq_getElem old
      rw [← hbefore] at hsome
      exact (ih.added i c hi hsome).append
    · rcases step.commits with same | ⟨c', more, recorded⟩
      · rw [same, List.getElem?_eq_none (Nat.le_of_not_lt old)] at hc
        cases hc
      · rw [more, List.getElem?_append_right (Nat.le_of_not_lt old),
          List.getElem?_singleton] at hc
        split at hc
        · next last =>
          obtain rfl := Option.some.inj hc
          exact ⟨h, [], now, o, rfl, by omega, more, recorded⟩
        · cases hc

/-! ### Known commits -/

/-- Rejecting answers with a rejection, unless the record cannot be written. -/
theorem reply_reject (now : Timestamp) (g : Gate) {d : Decision} (reasons : List String)
    (h : d.IsOpen) :
    (g.reject now d reasons []).reply = .ok ⟨.rejected, d.id, reasons, none⟩ ∨
      (g.reject now d reasons []).writeFails = true := by
  have moves : d.advance .rejected [.reasons reasons] = .ok (d.rejectedFor reasons) := by
    refine (Decision.advance_eq_ok_iff ..).2 ⟨?_, by simp, rfl⟩
    rcases h with h | h <;> simp [h, Stage.next]
  rw [reject, List.nil_append, finish, conclude, moves]
  simp only
  split
  · next same => cases same
  · exact .inr rfl
  · next same =>
    simp only [Except.ok.injEq, Prod.mk.injEq] at same
    rw [← same.2.1]
    exact .inl rfl

/-- The proposal of a commit that is there already is rejected. -/
theorem reply_propose_of_mem {ref : WorkflowRef} {w : Workflow} {c : NewCommit}
    (now : Timestamp) (kind : DecisionKind) (hw : g.workflow? ref = .ok w)
    (known : c.id ∈ g.store.current.project.commitIds) :
    (g.propose now ref (.proposal (.commit c)) kind none).reply =
        .ok ⟨.rejected, g.nextId, [alreadyExists c], none⟩ ∨
      (g.propose now ref (.proposal (.commit c)) kind none).writeFails = true := by
  have finding : (w.examine g.registry.vocabulary now (.commit c) g.store.current).finding =
      .ok (.failed [alreadyExists c]) := Proposal.finding_of_mem known
  rw [propose_eq hw, Step.reply_after, Step.writeFails_after, settle, Step.reply_after,
    Step.writeFails_after, finding]
  exact reply_reject now _ [alreadyExists c] (.inl rfl)

/-- What is taken from a waiting decision was put together without a repeated identifier. -/
theorem Sound.build_of_cached (sound : Sound P g) {d : Decision} (hd : d ∈ g.decisions)
    (waits : d.stage = .pendingApproval) {r : Snapshot}
    (hr : cached? d g.store.current = some r) :
    d.proposal.build d.workflow g.store.current = .ok r.project := by
  obtain ⟨t, -, admits⟩ := (sound.parked d hd waits).admits_of_cached hr
  exact Proposal.build_of_allows admits.allowed

/-- The approval of a commit that is there by then is a rejection. -/
theorem Sound.reply_approve_of_mem (sound : Sound P g) {id : String} {d : Decision}
    {c : NewCommit} (now : Timestamp) (approver : Option String) (found : g.find? id = some d)
    (waits : d.stage = .pendingApproval) (commits : d.proposal = .commit c)
    (known : c.id ∈ g.store.current.project.commitIds) :
    (g.approve now id approver none).reply = .ok ⟨.rejected, id, [alreadyExists c], none⟩ ∨
      (g.approve now id approver none).writeFails = true := by
  obtain ⟨hd, hid⟩ := mem_of_find? found
  have hnone : cached? (d.approvedBy approver) g.store.current = none := by
    cases hcached : cached? d g.store.current with
    | none => exact hcached
    | some r =>
      -- a result that is kept would have been put together
      obtain ⟨e, he⟩ := Proposal.build_commit_of_mem (w := d.workflow) known
      have hbuild := sound.build_of_cached hd waits hcached
      rw [commits, he] at hbuild
      cases hbuild
  have finding : (g.put (d.approvedBy approver)).examine now (d.approvedBy approver) =
      d.workflow.examine g.registry.vocabulary now (.commit c) g.store.current := by
    rw [← commits]
    rfl
  have hchange : d.change [.approval (some .approved), .approver approver] =
      d.approvedBy approver := rfl
  have hcurrent : (g.put (d.approvedBy approver)).store.current = g.store.current := rfl
  rw [approve, pending_eq_ok_iff.2 ⟨found, waits⟩]
  simp only [hchange, hcurrent, hnone, finding]
  rw [Step.reply_after, Step.writeFails_after, settle, Step.reply_after, Step.writeFails_after,
    Proposal.finding_of_mem known, ← hid]
  exact reply_reject now _ [alreadyExists c] (.inr waits)

theorem Sound.neverRepeats (sound : Sound P g) : NeverRepeats g where
  passed _ _ _ _ _ _ hpassed :=
    Proposal.build_of_allows (Workflow.finding_examine_iff.1 hpassed).1.allowed
  kept _ hd waits _ hr := sound.build_of_cached hd waits hr
  repeated _ _ e he := Proposal.build_error_iff.1 ⟨e, he⟩
  proposed now _ _ _ kind hw known := reply_propose_of_mem now kind hw known
  approved now _ _ approver _ found waits commits known :=
    sound.reply_approve_of_mem now approver found waits commits known

/-! ### The whole history -/

/-- What a commit undoes stands before it. -/
theorem Adds.earlier (sound : Sound (fun _ => True) g) (adds : Adds g h i c) :
    ∀ id ∈ c.reverts, ∃ j < i,
      ((g.after h).store.current.project.commits[j]?).map Commit.id = some id := by
  obtain ⟨before, rest, now, o, rfl, hlength, hcommits, recorded⟩ := adds
  intro id hid
  obtain ⟨b, hb, same⟩ := List.mem_map.1 (recorded.undone id hid)
  obtain ⟨j, hj, rfl⟩ := List.getElem_of_mem hb
  have hsound : Sound (fun _ => True) (g.after before) := sound.after fun _ _ => trivial
  -- the commits of that time are still there, in the same places
  have stays := List.prefix_iff_getElem?.1 (hsound.grows ((now, o) :: rest)).commits j hj
  refine ⟨j, hlength ▸ hj, ?_⟩
  rw [after_append, stays, ← same]
  rfl

/-- **The history of a project only grows.**  Whatever a history does, no identifier is there twice
at any time; the commits of an older snapshot stand unchanged at the beginning of those of a younger
one, and the identifiers of the tasks likewise; every commit in between was recorded by an operation
of the history, as validated, to be reverted to the snapshot that was current then, and undoes
nothing but a commit that stands before it; and no operation repeats an identifier. -/
theorem project_grows (g : Gate) (h later : History) :
    let s := (g.fresh.after h).store.current.project
    let r := (g.fresh.after (h ++ later)).store.current.project
    (s.taskIds.Nodup ∧ s.commitIds.Nodup ∧ r.taskIds.Nodup ∧ r.commitIds.Nodup) ∧
    s.commits <+: r.commits ∧ s.taskIds <+: r.taskIds ∧
    (∀ i c, s.commits.length ≤ i → r.commits[i]? = some c →
      Adds (g.fresh.after h) later i c ∧ c.validated = true ∧
        ∀ id ∈ c.reverts, ∃ j < i, (r.commits[j]?).map Commit.id = some id) ∧
    NeverRepeats (g.fresh.after h) := by
  intro s r
  have sound := sound_after g h
  have grows := sound.grows later
  have hr : r = ((g.fresh.after h).after later).store.current.project := by
    rw [← after_append]
  rw [hr]
  refine ⟨⟨s.task_ids_nodup, s.commit_ids_nodup, Project.task_ids_nodup _,
    Project.commit_ids_nodup _⟩, grows.commits, grows.tasks, ?_, sound.neverRepeats⟩
  intro i c hi hc
  have adds := grows.added i c hi hc
  refine ⟨adds, ?_, adds.earlier sound⟩
  obtain ⟨before, rest, now, o, -, -, -, recorded⟩ := adds
  exact recorded.validated

/-- A commit waits while another one is recorded under its identifier, and is approved then. -/
example :
    let w : Workflow := ⟨"W", ["Plan"], [], [], []⟩
    let s := (blank.fresh.after
      [(.epoch, .propose (.held w) (.proposal (.commit ⟨"c1", "first", none⟩)) .critical),
        (.epoch, .propose (.held w) (.proposal (.commit ⟨"c1", "second", none⟩)) .routine),
        (.epoch, .propose (.held w) (.proposal (.commit ⟨"c2", "undone", some "c1"⟩)) .routine),
        (.epoch, .approve "d1" (some "ann"))]).store.current.project
    s.commits.map (fun c => (c.id, c.message, c.reverts)) =
      [("c1", "second", none), ("c2", "undone", some "c1")] := by
  decide +kernel

end Gate

end ChangeControl
