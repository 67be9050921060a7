import ChangeControl.Snapshot.Json
import ChangeControl.Text.Occurrence
/-!
Proposals: the changes that somebody may ask for.

Main definitions:

* `TaskMove`, `NewCommit` — a task put into a layer, and a commit that is recorded;
* `TaskMove.apply`, `NewCommit.apply` — the snapshots they lead to;
* `Proposal` — a transition, a task move or a new commit, with `Proposal.describe`;
* `Submission` — what arrives as a proposal, which may be no proposal at all.

Main statements:

* `NewCommit.tasks_journalMentioned` — recording a commit changes tasks in their places;
* `NewCommit.apply_isOk_iff` — a commit can be recorded exactly when its identifier is new.
-/

set_option autoImplicit false

namespace ChangeControl

open Calendar (Timestamp)

/-! ### Task moves -/

/-- A task is to be in a layer.  A flag that is not given stays as it is. -/
structure TaskMove where
  task : String
  layer : Layer
  completed : Option Bool
  committed : Option Bool
deriving DecidableEq, Repr

namespace TaskMove

/-- A task after the move. -/
def onTask (m : TaskMove) (t : Task) : Task :=
  { t with
    layer := m.layer
    completed := m.completed.getD t.completed
    committed := m.committed.getD t.committed }

/-- The project after the move; a task that it does not have is added. -/
def applyProject (m : TaskMove) (p : Project) : Project :=
  p.withTask (m.onTask ((p.task? m.task).getD (.new m.task)))

/-- The snapshot after the move. -/
def apply (now : Timestamp) (m : TaskMove) (s : Snapshot) : Snapshot :=
  s.evolve now (m.applyProject s.project)

end TaskMove

/-! ### New commits -/

/-- A commit is to be recorded as validated. -/
structure NewCommit where
  id : String
  message : String
  /-- The commit that it undoes. -/
  reverts : Option String
deriving DecidableEq, Repr

namespace NewCommit

/-- The task as committed work in the journal. -/
def journaled (t : Task) : Task := { t with layer := .journal, committed := true }

/-- A task after the commit: in the journal and committed, if it was in the changelog and the
message mentions it. -/
def onTask (c : NewCommit) (t : Task) : Task :=
  if t.layer = .changelog ∧ Text.mentions c.message t.id then journaled t else t

theorem id_onTask (c : NewCommit) (t : Task) : (c.onTask t).id = t.id := by
  unfold onTask
  split <;> rfl

/-- The project with every task of the changelog that the message mentions in the journal.  The
tasks are those that were in the changelog before; each is stored on its own. -/
def journalMentioned (c : NewCommit) (p : Project) : Project :=
  (p.tasksIn .changelog).foldl
    (fun q t => if Text.mentions c.message t.id then q.withTask (journaled t) else q) p

/-- The tasks that the message moves to the journal. -/
def moved (c : NewCommit) (p : Project) : List Task :=
  (p.tasksIn .changelog).filter fun t => Text.mentions c.message t.id

theorem journalMentioned_eq_foldl (c : NewCommit) (p : Project) :
    c.journalMentioned p = ((c.moved p).map journaled).foldl Project.withTask p := by
  rw [moved, List.foldl_map, List.foldl_filter]
  rfl

theorem mem_moved_iff {c : NewCommit} {p : Project} {t : Task} :
    t ∈ c.moved p ↔ t ∈ p.tasks ∧ t.layer = .changelog ∧ Text.mentions c.message t.id := by
  simp only [moved, Project.tasksIn, List.mem_filter, beq_iff_eq, and_assoc]

theorem nodup_journaled_moved (c : NewCommit) (p : Project) :
    (((c.moved p).map journaled).map Task.id).Nodup := by
  rw [List.map_map]
  exact p.task_ids_nodup.sublist ((List.filter_sublist.trans List.filter_sublist).map Task.id)

/-- A task is found among the moved ones if it is to be moved. -/
theorem find?_journaled_moved {c : NewCommit} {p : Project} {t : Task} (mem : t ∈ p.tasks) :
    (((c.moved p).map journaled).find? fun u => u.id == t.id).getD t = c.onTask t := by
  unfold onTask
  split
  · next h =>
    have among : journaled t ∈ (c.moved p).map journaled :=
      List.mem_map_of_mem (mem_moved_iff.2 ⟨mem, h⟩)
    rw [(Project.find?_key_eq_some_iff Task.id _ (c.nodup_journaled_moved p) t.id _).2 ⟨among, rfl⟩,
      Option.getD_some]
  · next h =>
    have missing : ((c.moved p).map journaled).find? (fun u => u.id == t.id) = none := by
      refine List.find?_eq_none.2 fun u hu same => h ?_
      obtain ⟨v, hv, rfl⟩ := List.mem_map.1 hu
      obtain ⟨hv, hmoved⟩ := mem_moved_iff.1 hv
      -- there is one task of that identifier
      have one : p.task? t.id = some v := (p.task?_eq_some_iff t.id v).2 ⟨hv, eq_of_beq same⟩
      rw [(p.task?_eq_some_iff t.id t).2 ⟨mem, rfl⟩, Option.some.injEq] at one
      exact one ▸ hmoved
    rw [missing, Option.getD_none]

@[simp] theorem tasks_journalMentioned (c : NewCommit) (p : Project) :
    (c.journalMentioned p).tasks = p.tasks.map c.onTask := by
  have known : ∀ t ∈ (c.moved p).map journaled, t.id ∈ p.tasks.map Task.id := by
    intro t ht
    obtain ⟨u, hu, rfl⟩ := List.mem_map.1 ht
    exact List.mem_map.2 ⟨u, (mem_moved_iff.1 hu).1, rfl⟩
  rw [journalMentioned_eq_foldl, Project.tasks_foldl_withTask p _ (c.nodup_journaled_moved p) known]
  exact List.map_congr_left fun t mem => find?_journaled_moved mem

@[simp] theorem state_journalMentioned (c : NewCommit) (p : Project) :
    (c.journalMentioned p).state = p.state := by
  rw [journalMentioned_eq_foldl, Project.state_foldl_withTask]

@[simp] theorem commits_journalMentioned (c : NewCommit) (p : Project) :
    (c.journalMentioned p).commits = p.commits := by
  rw [journalMentioned_eq_foldl, Project.commits_foldl_withTask]

/-- The commit as it is recorded on a snapshot, to whose project it can be reverted. -/
def recorded (c : NewCommit) (s : Snapshot) : Commit :=
  ⟨c.id, c.message, true, c.reverts, some s.digest⟩

/-- The snapshot after the commit. -/
def apply (now : Timestamp) (c : NewCommit) (s : Snapshot) : Except DuplicateId Snapshot :=
  match (c.journalMentioned s.project).withCommit (c.recorded s) with
  | .error e => .error e
  | .ok p => .ok (s.evolve now p)

theorem apply_isOk_iff (now : Timestamp) (c : NewCommit) (s : Snapshot) :
    (c.apply now s).isOk = true ↔ c.id ∉ s.project.commits.map Commit.id := by
  unfold apply Project.withCommit
  by_cases known : c.id ∈ s.project.commits.map Commit.id <;>
    simp [known, recorded, Except.isOk, Except.toBool]

end NewCommit

/-! ### Proposals -/

/-- A change that somebody asks for. -/
inductive Proposal
  /-- The project is to move between two states of its workflow. -/
  | transition (source target : String)
  | taskMove (m : TaskMove)
  | commit (c : NewCommit)
deriving DecidableEq, Repr

/-- The change in a few words. -/
def Proposal.describe : Proposal → String
  | transition source target => "transition " ++ source ++ " -> " ++ target
  | taskMove m => "move task " ++ m.task ++ " to " ++ m.layer.name
  | commit c => "commit " ++ c.id

/-- What arrives as a proposal. -/
inductive Submission
  | proposal (p : Proposal)
  /-- Data of some other form. -/
  | foreign (data : Json)
deriving Repr

/-- Data that is no proposal. -/
def unsupportedProposal (data : Json) : String := "Unsupported proposal: " ++ data.inspect

end ChangeControl
