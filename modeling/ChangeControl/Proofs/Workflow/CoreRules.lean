import ChangeControl.Proofs.Gate.Admission
import ChangeControl.Proofs.Workflow.Loading
/-!
What the core rules say.

The core rules are formulas, and a project satisfies them when the evaluator says so.  This module
says what that means for the tasks and commits of the project, without formulas, quantifiers and
predicates.  The predicates that a registry knows do not matter: a rule that uses an unknown one is
not true.

Main definitions:

* `Project.FollowsCoreRules` — the core rules as plain facts about a project.

Main results:

* `Setting.apply_of_yields_holdsOf`, `Setting.yields_of_layerRule` — what predicates and rules about
  layers say;
* `Setting.followsCoreRules_of_yields` — where the core rules are true, the project follows them;
* `Workflow.Upholds.followsCoreRules` — **a project that upholds a loaded workflow follows the core
  rules**.
-/

set_option autoImplicit false

namespace ChangeControl

open Rule (Formula Term)

/-- The core rules, as plain facts about the project. -/
structure Project.FollowsCoreRules (p : Project) : Prop where
  backlog : ∀ t ∈ p.tasks, t.layer = .backlog → t.completed = false
  changelog : ∀ t ∈ p.tasks, t.layer = .changelog → t.completed = true
  journal : ∀ t ∈ p.tasks, t.layer = .journal → t.committed = true
  commits : ∀ c ∈ p.commits, c.validated = true → c.revertTarget ≠ none

namespace Setting

variable {m : Setting} {env : Bindings}

/-! ### Predicates -/

theorem eq_of_find?_name {vocabulary : Vocabulary} {p q : Predicate}
    (h : vocabulary.find? q.name = some p) : p = q := by
  have hname := List.find?_some h
  exact Predicate.name_injective (eq_of_beq hname)

/-- A predicate of one variable is what its application to the value of the variable gives. -/
theorem apply_of_yields_holdsOf {q : Predicate} {v : String} {x : Value} {b : Bool}
    (bound : env.find? v = some x) (h : m.Yields env (Core.holdsOf q.name v) b) :
    q.apply m.project [x] = .ok b := by
  have happly : m.application env q.name [.var v] = .ok b := yields_pred_iff.1 h
  rw [application] at happly
  cases known : m.vocabulary.find? q.name with
  | none => simp [known] at happly
  | some p =>
    obtain rfl := eq_of_find?_name known
    simp only [known, values, value, bound] at happly
    split at happly
    · simp at happly
    · next holds => rw [holds, Except.ok.inj happly]

theorem yields_holdsOf_unique {q : Predicate} {v : String} {x : Value} {b c : Bool}
    (bound : env.find? v = some x) (h : m.Yields env (Core.holdsOf q.name v) b)
    (happly : q.apply m.project [x] = .ok c) : b = c := by
  rw [apply_of_yields_holdsOf bound h] at happly
  exact Except.ok.inj happly

/-! ### Layers -/

theorem members_layer (m : Setting) (l : Layer) :
    m.members l.name = .ok (Domain.layerMembers m.project l) := by
  cases l <;> rfl

/-- A task is among the members of its layer. -/
theorem isIn_layerMembers {t : Task} (ht : t ∈ m.project.tasks) :
    (Value.task t).isIn (Domain.layerMembers m.project t.layer) = true := by
  have hmem : t ∈ Domain.sortTasks (m.project.tasksIn t.layer) :=
    List.mem_mergeSort.2 (List.mem_filter.2 ⟨ht, by simp⟩)
  exact List.contains_iff_mem.2 (List.mem_map_of_mem hmem)

/-- A rule about the tasks of a layer holds of each of them. -/
theorem yields_of_layerRule {l : Layer} {body : Formula}
    (h : m.Yields [] (Core.layerRule l.name body) true) {t : Task} (ht : t ∈ m.project.tasks)
    (layer : t.layer = l) : m.Yields [("task", .task t)] body true := by
  have hmem : Value.task t ∈ Domain.members .tasks m.project m.states :=
    List.mem_map_of_mem (List.mem_mergeSort.2 ht)
  have hrule := (yields_all_true_iff (d := .tasks) rfl).1 h _ hmem
  rcases yields_implies_true_iff.1 hrule with outside | ⟨-, hbody⟩
  · -- the task is a member, so the antecedent is not false
    rw [yields_member_iff, membership, members_layer] at outside
    simp only [value, Bindings.find?, ← layer] at outside
    have hin := isIn_layerMembers ht
    simp [hin] at outside
  · exact hbody

/-! ### Projects -/

/-- Where the core rules are true, the project follows them. -/
theorem followsCoreRules_of_yields
    (h : ∀ rule ∈ Core.rules, m.Yields [] rule.formula true) : m.project.FollowsCoreRules where
  backlog t ht layer := by
    have hrule := h Core.backlogOpen (by decide)
    have hbody := yields_of_layerRule (l := .backlog) hrule ht layer
    rw [yields_not_iff] at hbody
    exact (yields_holdsOf_unique (q := .completed) rfl hbody rfl).symm
  changelog t ht layer := by
    have hrule := h Core.changelogCompleted (by decide)
    have hbody := yields_of_layerRule (l := .changelog) hrule ht layer
    exact (yields_holdsOf_unique (q := .completed) rfl hbody rfl).symm
  journal t ht layer := by
    have hrule := h Core.journalEntriesCommitted (by decide)
    have hbody := yields_of_layerRule (l := .journal) hrule ht layer
    exact (yields_holdsOf_unique (q := .committed) rfl hbody rfl).symm
  commits c hc validated := by
    have hrule := h Core.validatedCommitRevertible (by decide)
    have hmem : Value.commit c ∈ Domain.members .commits m.project m.states :=
      List.mem_map_of_mem (List.mem_mergeSort.2 hc)
    have hbody := (yields_all_true_iff (d := .commits) rfl).1 hrule _ hmem
    rcases yields_implies_true_iff.1 hbody with invalid | ⟨-, revertible⟩
    · have hfalse := yields_holdsOf_unique (q := .validated) rfl invalid rfl
      rw [validated] at hfalse
      exact absurd hfalse (by decide)
    · have hsome := yields_holdsOf_unique (q := .revertible) rfl revertible rfl
      exact Option.isSome_iff_ne_none.1 hsome.symm

end Setting

namespace Workflow.Upholds

variable {w : Workflow} {vocabulary : Vocabulary} {p : Project}

/-- A core rule is true on a project that upholds a loaded workflow. -/
theorem core (h : w.Upholds vocabulary p) (loaded : w.IsLoaded) (rule : Invariant)
    (hrule : rule ∈ Core.rules) : (w.setting vocabulary p).Yields [] rule.formula true := by
  obtain ⟨i, hi, same⟩ := loaded.core hrule
  exact same ▸ h i hi

/-- **A project that upholds a loaded workflow follows the core rules.** -/
theorem followsCoreRules (h : w.Upholds vocabulary p) (loaded : w.IsLoaded) :
    p.FollowsCoreRules :=
  Setting.followsCoreRules_of_yields (h.core loaded)

end Workflow.Upholds

end ChangeControl
