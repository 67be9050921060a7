import ChangeControl.Project.Commit
import ChangeControl.Project.Task
/-!
The state of a project.

A project is in a workflow state and holds tasks and commits, each list in the order in which its
entries were added and without two entries of one identifier.

Main definitions:

* `Project`, and `Project.make` from parts that may repeat an identifier;
* `Project.task?`, `Project.commit?`, `Project.tasksIn` — looking things up;
* `Project.withState`, `Project.withTask`, `Project.withCommit`, `Project.mapTasks` — changed
  copies.

Main statements:

* `firstRepeated?_eq_none_iff` — nothing is repeated exactly when the list has no duplicates;
* `Project.make_self` — the parts of a project can be put together again;
* `Project.task?_eq_some_iff`, `Project.commit?_eq_some_iff` — looking up by identifier;
* `Project.tasks_foldl_withTask` — what several changed tasks make of the list.
-/

set_option autoImplicit false

namespace ChangeControl

/-- The first entry that occurs among `seen` or earlier in the list. -/
def firstRepeated? (seen : List String) : List String → Option String
  | [] => none
  | x :: xs => if seen.contains x then some x else firstRepeated? (x :: seen) xs

theorem firstRepeated?_eq_none_iff (seen xs : List String) :
    firstRepeated? seen xs = none ↔ xs.Nodup ∧ ∀ x ∈ xs, x ∉ seen := by
  induction xs generalizing seen with
  | nil => simp [firstRepeated?]
  | cons x xs ih =>
    by_cases h : x ∈ seen
    · simp [firstRepeated?, h]
    · simp only [firstRepeated?, List.contains_iff_mem, h, if_false, ih, List.nodup_cons,
        List.mem_cons]
      constructor
      · rintro ⟨nodup, fresh⟩
        exact ⟨⟨fun mem => fresh x mem (.inl rfl), nodup⟩, by
          rintro y (rfl | mem)
          · exact h
          · exact fun seen => fresh y mem (.inr seen)⟩
      · rintro ⟨⟨notMem, nodup⟩, fresh⟩
        refine ⟨nodup, fun y mem => ?_⟩
        rintro (rfl | seen)
        · exact notMem mem
        · exact fresh y (.inr mem) seen

theorem nodup_of_firstRepeated? {xs : List String} (h : firstRepeated? [] xs = none) : xs.Nodup :=
  ((firstRepeated?_eq_none_iff [] xs).1 h).1

/-- The state of a project. -/
structure Project where
  /-- The workflow state. -/
  state : String
  tasks : List Task
  commits : List Commit
  task_ids_nodup : (tasks.map Task.id).Nodup
  commit_ids_nodup : (commits.map Commit.id).Nodup
deriving DecidableEq, Repr

/-- An identifier stands for two entries. -/
inductive DuplicateId
  | task (id : String)
  | commit (id : String)
deriving DecidableEq, Repr

/-- One sentence on the duplicate. -/
def DuplicateId.message : DuplicateId → String
  | task id => "Duplicate task id: " ++ Text.quote id
  | commit id => "Duplicate commit id: " ++ Text.quote id

namespace Project

/-- The project with these parts; tasks are looked at before commits. -/
def make (state : String) (tasks : List Task) (commits : List Commit) :
    Except DuplicateId Project :=
  match taskIds : firstRepeated? [] (tasks.map Task.id) with
  | some id => .error (.task id)
  | none =>
    match commitIds : firstRepeated? [] (commits.map Commit.id) with
    | some id => .error (.commit id)
    | none =>
      .ok ⟨state, tasks, commits, nodup_of_firstRepeated? taskIds,
        nodup_of_firstRepeated? commitIds⟩

/-- The parts of a project can be put together again. -/
theorem make_self (p : Project) : make p.state p.tasks p.commits = .ok p := by
  have htasks : firstRepeated? [] (p.tasks.map Task.id) = none :=
    (firstRepeated?_eq_none_iff [] _).2 ⟨p.task_ids_nodup, fun _ _ => List.not_mem_nil⟩
  have hcommits : firstRepeated? [] (p.commits.map Commit.id) = none :=
    (firstRepeated?_eq_none_iff [] _).2 ⟨p.commit_ids_nodup, fun _ _ => List.not_mem_nil⟩
  unfold make
  split
  · next repeated => simp [htasks] at repeated
  · split
    · next repeated => simp [hcommits] at repeated
    · rfl

/-! ### Looking things up -/

/-- The task with an identifier. -/
def task? (p : Project) (id : String) : Option Task := p.tasks.find? fun t => t.id == id

/-- The commit with an identifier. -/
def commit? (p : Project) (id : String) : Option Commit := p.commits.find? fun c => c.id == id

/-- The tasks in a layer, in the order of the project. -/
def tasksIn (p : Project) (layer : Layer) : List Task := p.tasks.filter fun t => t.layer == layer

/-- In a list without repeated keys an entry is found by its key. -/
theorem find?_key_eq_some_iff {α κ : Type} [BEq κ] [LawfulBEq κ] (key : α → κ) (xs : List α)
    (nodup : (xs.map key).Nodup) (k : κ) (x : α) :
    xs.find? (fun y => key y == k) = some x ↔ x ∈ xs ∧ key x = k := by
  induction xs with
  | nil => simp
  | cons y ys ih =>
    rw [List.map_cons, List.nodup_cons] at nodup
    by_cases h : key y = k
    · have other : x ∈ ys → key x ≠ k := fun mem same =>
        nodup.1 (h ▸ same ▸ List.mem_map_of_mem mem)
      simp only [List.find?_cons, h, beq_self_eq_true, Option.some.injEq, List.mem_cons]
      constructor
      · rintro rfl
        exact ⟨.inl rfl, h⟩
      · rintro ⟨rfl | mem, same⟩
        · rfl
        · exact absurd same (other mem)
    · have differ : (key y == k) = false := by simpa using h
      simp only [List.find?_cons, differ, ih nodup.2, List.mem_cons]
      constructor
      · exact fun ⟨mem, same⟩ => ⟨.inr mem, same⟩
      · rintro ⟨rfl | mem, same⟩
        · exact absurd same h
        · exact ⟨mem, same⟩

theorem task?_eq_some_iff (p : Project) (id : String) (t : Task) :
    p.task? id = some t ↔ t ∈ p.tasks ∧ t.id = id :=
  find?_key_eq_some_iff Task.id p.tasks p.task_ids_nodup id t

theorem commit?_eq_some_iff (p : Project) (id : String) (c : Commit) :
    p.commit? id = some c ↔ c ∈ p.commits ∧ c.id = id :=
  find?_key_eq_some_iff Commit.id p.commits p.commit_ids_nodup id c

/-! ### Changed copies -/

/-- The project in another state. -/
def withState (p : Project) (state : String) : Project := { p with state := state }

/-- The project with every task changed by `f`, which keeps identifiers. -/
def mapTasks (p : Project) (f : Task → Task) (keeps : ∀ t, (f t).id = t.id) : Project :=
  { p with
    tasks := p.tasks.map f
    task_ids_nodup := by
      have : Task.id ∘ f = Task.id := funext keeps
      rw [List.map_map, this]
      exact p.task_ids_nodup }

/-- `task` in the place of the task with its identifier. -/
def replacing (task t : Task) : Task := if t.id = task.id then task else t

theorem id_replacing (task t : Task) : (replacing task t).id = t.id := by
  unfold replacing
  split
  · next h => exact h.symm
  · rfl

/-- The project with `task` in the place of the task with its identifier, or as the last one. -/
def withTask (p : Project) (task : Task) : Project :=
  if fresh : task.id ∈ p.tasks.map Task.id then p.mapTasks (replacing task) (id_replacing task)
  else
    { p with
      tasks := p.tasks ++ [task]
      task_ids_nodup := by
        rw [List.map_append, List.nodup_append]
        refine ⟨p.task_ids_nodup, by simp, fun a ha b hb same => fresh ?_⟩
        simp only [List.map_cons, List.map_nil, List.mem_singleton] at hb
        exact hb ▸ same ▸ ha }

theorem state_withTask (p : Project) (t : Task) : (p.withTask t).state = p.state := by
  unfold withTask
  split <;> rfl

theorem commits_withTask (p : Project) (t : Task) : (p.withTask t).commits = p.commits := by
  unfold withTask
  split <;> rfl

theorem tasks_withTask_of_mem {p : Project} {t : Task} (known : t.id ∈ p.tasks.map Task.id) :
    (p.withTask t).tasks = p.tasks.map (replacing t) := by
  rw [withTask, dif_pos known]
  rfl

/-- **No task that is stored gets lost**: tasks that are stored one after the other, under different
identifiers that the project has, stand in the end in the places of the old ones. -/
theorem tasks_foldl_withTask (p : Project) (ts : List Task) (nodup : (ts.map Task.id).Nodup)
    (known : ∀ t ∈ ts, t.id ∈ p.tasks.map Task.id) :
    (ts.foldl withTask p).tasks =
      p.tasks.map fun u => (ts.find? fun t => t.id == u.id).getD u := by
  induction ts generalizing p with
  | nil => exact (List.map_id _).symm
  | cons t ts ih =>
    rw [List.map_cons, List.nodup_cons] at nodup
    obtain ⟨hknown, known⟩ := List.forall_mem_cons.1 known
    have htasks := tasks_withTask_of_mem hknown
    have hids : (p.withTask t).tasks.map Task.id = p.tasks.map Task.id := by
      rw [htasks, List.map_map]
      exact List.map_congr_left fun u _ => id_replacing t u
    rw [List.foldl_cons, ih (p.withTask t) nodup.2 (hids ▸ known), htasks, List.map_map]
    refine List.map_congr_left fun u _ => ?_
    by_cases same : u.id = t.id
    · -- the later tasks leave the place alone
      have later : ts.find? (fun v => v.id == t.id) = none :=
        List.find?_eq_none.2 fun v mem hv => nodup.1 (eq_of_beq hv ▸ List.mem_map_of_mem mem)
      simp [replacing, same, later]
    · simp [replacing, same, Ne.symm same]

theorem state_foldl_withTask (p : Project) (ts : List Task) :
    (ts.foldl withTask p).state = p.state := by
  induction ts generalizing p with
  | nil => rfl
  | cons t ts ih => rw [List.foldl_cons, ih, state_withTask]

theorem commits_foldl_withTask (p : Project) (ts : List Task) :
    (ts.foldl withTask p).commits = p.commits := by
  induction ts generalizing p with
  | nil => rfl
  | cons t ts ih => rw [List.foldl_cons, ih, commits_withTask]

/-- The project with one more commit. -/
def withCommit (p : Project) (commit : Commit) : Except DuplicateId Project :=
  if known : commit.id ∈ p.commits.map Commit.id then .error (.commit commit.id)
  else
    .ok
      { p with
        commits := p.commits ++ [commit]
        commit_ids_nodup := by
          rw [List.map_append, List.nodup_append]
          refine ⟨p.commit_ids_nodup, by simp, fun a ha b hb same => known ?_⟩
          simp only [List.map_cons, List.map_nil, List.mem_singleton] at hb
          exact hb ▸ same ▸ ha }

end Project

end ChangeControl
