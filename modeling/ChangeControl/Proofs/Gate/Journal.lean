import ChangeControl.Proofs.Gate.Growth
import ChangeControl.Proofs.Workflow.Evaluation
import Mathlib.Data.List.Forall2
/-!
What a commit moves to the journal.

A commit is recorded behind the others, and the tasks of the changelog that its message mentions
move to the journal, each in its place.  Whether a message mentions a task is asked twice, by the
commit when it moves tasks and by the predicates of the rules afterwards; both get the same answer.

Main definitions:

* `Setting.Denotes`, `Setting.NamesTask`, `Setting.NamesCommit` — the ways in which a term of a
  rule can be about a task or a commit;
* `NewCommit.Journals` — a snapshot before and after a commit.

Main results:

* `Setting.yields_mentions_iff`, `Setting.yields_mentioned_iff` — what the predicates say about the
  tasks and the commits of a project;
* `NewCommit.journals_of_apply` — **a commit moves exactly the tasks that it mentions**.
-/

set_option autoImplicit false

namespace ChangeControl

open Calendar (Timestamp)
open Rule (Term Formula)

/-! ### Terms for tasks and commits -/

namespace Setting

variable {m : Setting} {env : Bindings} {x y : Term} {v : Value} {c : Commit} {t : Task} {b : Bool}

/-- The term stands for the value, in whatever atom it is used. -/
def Denotes (m : Setting) (env : Bindings) (x : Term) (v : Value) : Prop :=
  ∀ place, m.value env place x = .ok v

/-- The term stands for a task of that identifier, or for the identifier. -/
def NamesTask (m : Setting) (env : Bindings) (x : Term) (id : String) : Prop :=
  m.Denotes env x (.text id) ∨ ∃ t : Task, t.id = id ∧ m.Denotes env x (.task t)

/-- The term stands for the commit, or for its identifier. -/
def NamesCommit (m : Setting) (env : Bindings) (x : Term) (c : Commit) : Prop :=
  m.Denotes env x (.text c.id) ∨ m.Denotes env x (.commit c)

theorem denotes_literal (s : String) : m.Denotes env (.literal s) (.text s) := fun _ => rfl

theorem denotes_var {name : String} (h : env.find? name = some v) :
    m.Denotes env (.var name) v := by
  intro place
  rw [value, h]

/-- A term that names a task of the project is taken for a task of that identifier. -/
theorem NamesTask.exists_asTask (h : m.NamesTask env x t.id) (mem : t ∈ m.project.tasks) :
    ∃ v u, m.Denotes env x v ∧ Predicate.asTask m.project v = .ok u ∧ u.id = t.id := by
  obtain htext | ⟨u, same, htask⟩ := h
  · have found := (m.project.task?_eq_some_iff t.id t).2 ⟨mem, rfl⟩
    exact ⟨_, t, htext, by rw [Predicate.asTask, found], rfl⟩
  · exact ⟨_, u, htask, rfl, same⟩

/-- A term that names a commit of the project is taken for it. -/
theorem NamesCommit.exists_asCommit (h : m.NamesCommit env x c) (mem : c ∈ m.project.commits) :
    ∃ v, m.Denotes env x v ∧ Predicate.asCommit m.project v = .ok c := by
  obtain htext | hcommit := h
  · have found := (m.project.commit?_eq_some_iff c.id c).2 ⟨mem, rfl⟩
    exact ⟨_, htext, by rw [Predicate.asCommit, found]⟩
  · exact ⟨_, hcommit, rfl⟩

/-! ### Predicates on messages -/

/-- The message of a commit mentions a task exactly if it contains the identifier. -/
theorem yields_mentions_iff (known : .mentions ∈ m.vocabulary) (hx : m.NamesCommit env x c)
    (hc : c ∈ m.project.commits) (hy : m.NamesTask env y t.id) (ht : t ∈ m.project.tasks) :
    m.Yields env (.pred "mentions" [x, y]) b ↔ Text.mentions c.message t.id = b := by
  obtain ⟨v, hv, hcommit⟩ := hx.exists_asCommit hc
  obtain ⟨w, u, hw, htask, same⟩ := hy.exists_asTask ht
  have hfind : m.vocabulary.find? "mentions" = some .mentions := find?_name_of_mem known
  have hvalues : ∀ place, m.values env place [x, y] = .ok [v, w] := by
    intro place
    simp only [values, hv place, hw place]
  have happly : Predicate.mentions.apply m.project [v, w] = .ok (Text.mentions c.message u.id) := by
    rw [Predicate.apply, htask, hcommit]
    rfl
  rw [yields_pred_iff, application, hfind]
  simp only [hvalues, happly, same, Except.ok.injEq]

/-- The last commit is the one that mentions. -/
theorem yields_mentioned_iff (known : .mentioned ∈ m.vocabulary)
    (hlast : m.project.commits.getLast? = some c) (hx : m.NamesTask env x t.id)
    (ht : t ∈ m.project.tasks) :
    m.Yields env (.pred "mentioned" [x]) b ↔ Text.mentions c.message t.id = b := by
  obtain ⟨v, u, hv, htask, same⟩ := hx.exists_asTask ht
  have hfind : m.vocabulary.find? "mentioned" = some .mentioned := find?_name_of_mem known
  have hvalues : ∀ place, m.values env place [x] = .ok [v] := by
    intro place
    simp only [values, hv place]
  have happly : Predicate.mentioned.apply m.project [v] = .ok (Text.mentions c.message u.id) := by
    rw [Predicate.apply, hlast]
    simp only [htask]
    rfl
  rw [yields_pred_iff, application, hfind]
  simp only [hvalues, happly, same, Except.ok.injEq]

end Setting

/-! ### Commits -/

namespace NewCommit

variable {c : NewCommit} {s r : Snapshot} {now : Timestamp}

/-- The snapshot `r` is what the new commit makes of the snapshot `s`. -/
structure Journals (c : NewCommit) (s r : Snapshot) : Prop where
  state : r.project.state = s.project.state
  commits : r.project.commits = s.project.commits ++ [c.recorded s]
  /-- Every task stays in its place.  By the rules, the new commit mentions it or not, and it is
  moved if it was in the changelog and is mentioned. -/
  tasks : ∀ (m : Setting) (env : Bindings), m.project = r.project → .mentions ∈ m.vocabulary →
    List.Forall₂
      (fun t u => ∀ x y, m.NamesCommit env x (c.recorded s) → m.NamesTask env y t.id →
        ∃ b, m.Yields env (.pred "mentions" [x, y]) b ∧
          u = if t.layer = .changelog ∧ b = true then
            { t with layer := .journal, committed := true }
          else t)
      s.project.tasks r.project.tasks
  /-- By the rules, a task is mentioned exactly if its identifier stands in the message. -/
  mentioned : ∀ (m : Setting) (env : Bindings), m.project = r.project →
    .mentioned ∈ m.vocabulary → ∀ t ∈ r.project.tasks, ∀ x, m.NamesTask env x t.id →
      m.Yields env (.pred "mentioned" [x]) (decide (t.id.toList <:+: c.message.toList))

/-- **A commit moves exactly the tasks that it mentions.**  A commit that is new is recorded, as the
last one, and nothing changes but the tasks of the changelog of which the rules say that the new
commit mentions them. -/
theorem journals_of_apply (now : Timestamp) (new : c.id ∉ s.project.commits.map Commit.id) :
    ∃ r, c.apply now s = .ok r ∧ c.Journals s r := by
  obtain ⟨q, happly, hstate, htasks, hcommits⟩ := exists_apply now new
  have hrecorded : c.recorded s ∈ q.commits := by simp [hcommits]
  refine ⟨s.evolve now q, happly, hstate, hcommits, ?_, ?_⟩
  · intro m env hm known
    rw [Snapshot.project_evolve, htasks, List.forall₂_map_right_iff, List.forall₂_same]
    intro t ht x y hx hy
    -- the rules see the task as it is afterwards, under the same identifier
    have hafter : c.onTask t ∈ m.project.tasks := by
      rw [hm, Snapshot.project_evolve, htasks]
      exact List.mem_map_of_mem ht
    have hyields := (Setting.yields_mentions_iff known hx (hm ▸ hrecorded)
      ((c.id_onTask t).symm ▸ hy) hafter).2 rfl
    rw [c.id_onTask] at hyields
    exact ⟨_, hyields, rfl⟩
  · intro m env hm known t ht x hx
    have hlast : m.project.commits.getLast? = some (c.recorded s) := by
      rw [hm, Snapshot.project_evolve, hcommits, List.getLast?_concat]
    rw [Setting.yields_mentioned_iff known hlast hx (hm ▸ ht), Bool.eq_iff_iff, Text.mentions_iff,
      decide_eq_true_iff]
    rfl

/-- A commit that mentions one task of two: asked about by its identifier, that one is mentioned,
and the value of a variable is not. -/
theorem journals_of_apply_two_tasks :
    let t (id : String) : Task := ⟨id, .changelog, true, false⟩
    let s := Snapshot.first .epoch ⟨"Build", [t "T1", t "T2"], [], by decide, by decide⟩
    let c : NewCommit := ⟨"c1", "finish T1", none⟩
    c.id ∉ s.project.commits.map Commit.id ∧
      ∃ r, c.apply .epoch s = .ok r ∧ c.Journals s r ∧
        (⟨r.project, [], .full⟩ : Setting).Yields [] (.pred "mentioned" [.literal "T1"]) true ∧
        (⟨r.project, [], .full⟩ : Setting).Yields [("t", .task (t "T2"))]
          (.pred "mentioned" [.var "t"]) false := by
  intro t s c
  have new : c.id ∉ s.project.commits.map Commit.id := List.not_mem_nil
  obtain ⟨r, happly, h⟩ := journals_of_apply .epoch new
  have htasks : r.project.tasks = [journaled (t "T1"), t "T2"] := by
    obtain ⟨q, happly', -, htasks, -⟩ := exists_apply .epoch new
    rw [happly', Except.ok.injEq] at happly
    rw [← happly, Snapshot.project_evolve, htasks]
    decide
  have yes : decide ("T1".toList <:+: "finish T1".toList) = true := by decide +kernel
  have no : decide ("T2".toList <:+: "finish T1".toList) = false := by decide +kernel
  refine ⟨new, r, happly, h, ?_, ?_⟩
  · rw [← yes]
    exact h.mentioned ⟨r.project, [], .full⟩ [] rfl (Predicate.mem_all _) (journaled (t "T1"))
      (by simp [htasks]) (.literal "T1") (.inl (Setting.denotes_literal "T1"))
  · rw [← no]
    exact h.mentioned ⟨r.project, [], .full⟩ [("t", .task (t "T2"))] rfl (Predicate.mem_all _)
      (t "T2") (by simp [htasks]) (.var "t") (.inr ⟨t "T2", rfl, Setting.denotes_var rfl⟩)

end NewCommit

end ChangeControl
