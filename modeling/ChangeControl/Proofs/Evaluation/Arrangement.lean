import ChangeControl.Proofs.Evaluation.Order
import Mathlib.Data.List.Nodup
/-!
The arrangement of a project.

A project keeps its tasks and commits in the order in which they were added.  Formulas cannot see
that order: the members of a domain stand in the order of their identifiers, an identifier names one
entry only, and nothing but the last commit is looked at by its place.  So a project whose entries
are rearranged gives every formula the same result, down to the witness or the error.

Main definitions:

* `Project.Rearranges` — the same entries in any order, the last commit still the last one;
* `Setting.Alike` — two settings that mean the same by every domain and every predicate.

Main results:

* `Domain.members_of_rearranges`, `Predicate.apply_of_rearranges` — domains and predicates do not
  see the order;
* `Setting.Alike.evaluate` — alike settings give every formula the same result;
* `Project.Rearranges.evaluate_eq` — **rearranging a project changes no evaluation**.
-/

set_option autoImplicit false

namespace ChangeControl

open Rule (Term Formula)

/-! ### Lists without repeated keys -/

section Keys

variable {α : Type} {xs ys : List α} {key : α → String}

/-- What is found by its key does not depend on the order. -/
theorem find?_key_of_perm (perm : xs.Perm ys) (nodup : (xs.map key).Nodup) (k : String) :
    xs.find? (fun x => key x == k) = ys.find? fun x => key x == k := by
  have nodup' : (ys.map key).Nodup := (perm.map key).nodup_iff.1 nodup
  refine Option.ext fun x => ?_
  rw [Project.find?_key_eq_some_iff key xs nodup, Project.find?_key_eq_some_iff key ys nodup',
    perm.mem_iff]

theorem pairwise_mergeSort_key (xs : List α) :
    (xs.mergeSort fun x y => decide (key x ≤ key y)).Pairwise fun x y => key x ≤ key y := by
  refine (List.pairwise_mergeSort ?_ ?_ xs).imp fun h => of_decide_eq_true h
  · intro x y z hxy hyz
    exact decide_eq_true (String.le_trans (of_decide_eq_true hxy) (of_decide_eq_true hyz))
  · intro x y
    simpa using String.le_total (key x) (key y)

/-- A list has one arrangement by ascending keys. -/
theorem mergeSort_key_of_perm (perm : xs.Perm ys) (nodup : (xs.map key).Nodup) :
    xs.mergeSort (fun x y => decide (key x ≤ key y)) =
      ys.mergeSort fun x y => decide (key x ≤ key y) := by
  have hxs := List.mergeSort_perm xs fun x y => decide (key x ≤ key y)
  have hys := List.mergeSort_perm ys fun x y => decide (key x ≤ key y)
  refine List.Perm.eq_of_pairwise (fun x y hx hy hxy hyx => ?_) (pairwise_mergeSort_key xs)
    (pairwise_mergeSort_key ys) ((hxs.trans perm).trans hys.symm)
  -- of two entries with one key, there is one
  exact List.inj_on_of_nodup_map nodup (hxs.mem_iff.1 hx) (perm.mem_iff.2 (hys.mem_iff.1 hy))
    (String.le_antisymm hxy hyx)

end Keys

/-! ### Rearranged projects -/

/-- The second project has the entries of the first one, in whatever order, and the same last
commit. -/
structure Project.Rearranges (p q : Project) : Prop where
  state : p.state = q.state
  tasks : p.tasks.Perm q.tasks
  commits : p.commits.Perm q.commits
  last : p.commits.getLast? = q.commits.getLast?

namespace Project.Rearranges

variable {p q : Project}

theorem task?_eq (h : p.Rearranges q) (id : String) : p.task? id = q.task? id :=
  find?_key_of_perm h.tasks p.task_ids_nodup id

theorem commit?_eq (h : p.Rearranges q) (id : String) : p.commit? id = q.commit? id :=
  find?_key_of_perm h.commits p.commit_ids_nodup id

theorem sortTasks_eq (h : p.Rearranges q) (layer : Layer) :
    Domain.sortTasks (p.tasksIn layer) = Domain.sortTasks (q.tasksIn layer) :=
  mergeSort_key_of_perm (h.tasks.filter _)
    (p.task_ids_nodup.sublist (List.filter_sublist.map Task.id))

end Project.Rearranges

/-- The members of a domain stand in the same order, whatever order the entries were added in. -/
theorem Domain.members_of_rearranges {p q : Project} (h : p.Rearranges q) (d : Domain)
    (declared : List String) : d.members p declared = d.members q declared := by
  cases d with
  | tasks => exact congrArg _ (mergeSort_key_of_perm h.tasks p.task_ids_nodup)
  | backlog => exact congrArg _ (h.sortTasks_eq .backlog)
  | changelog => exact congrArg _ (h.sortTasks_eq .changelog)
  | journal => exact congrArg _ (h.sortTasks_eq .journal)
  | commits => exact congrArg _ (mergeSort_key_of_perm h.commits p.commit_ids_nodup)
  | states => rfl

namespace Predicate

variable {p q : Project}

theorem asTask_of_rearranges (h : p.Rearranges q) (v : Value) : asTask p v = asTask q v := by
  cases v <;> simp only [asTask, h.task?_eq]

theorem asCommit_of_rearranges (h : p.Rearranges q) (v : Value) : asCommit p v = asCommit q v := by
  cases v <;> simp only [asCommit, h.commit?_eq]

/-- A predicate looks at entries by their identifiers, and by its place only at the last commit. -/
theorem apply_of_rearranges (h : p.Rearranges q) (r : Predicate) (args : List Value) :
    r.apply p args = r.apply q args := by
  have htask : asTask p = asTask q := funext (asTask_of_rearranges h)
  have hcommit : asCommit p = asCommit q := funext (asCommit_of_rearranges h)
  unfold apply
  rw [htask, hcommit, h.state, h.last]

end Predicate

/-! ### Alike settings -/

namespace Setting

/-- Two settings that mean the same by every domain and every predicate. -/
structure Alike (m m' : Setting) : Prop where
  members : ∀ name, m.members name = m'.members name
  vocabulary : m.vocabulary = m'.vocabulary
  apply : ∀ (q : Predicate) (args : List Value), q.apply m.project args = q.apply m'.project args

namespace Alike

variable {m m' : Setting}

theorem value (h : m.Alike m') (env : Bindings) (place : Formula) (t : Term) :
    m.value env place t = m'.value env place t := by
  cases t <;> simp only [Setting.value, h.members]

theorem values (h : m.Alike m') (env : Bindings) (place : Formula) (ts : List Term) :
    m.values env place ts = m'.values env place ts := by
  induction ts with
  | nil => rfl
  | cons t ts ih => simp only [Setting.values, h.value, ih]

theorem application (h : m.Alike m') (env : Bindings) (name : String) (args : List Term) :
    m.application env name args = m'.application env name args := by
  simp only [Setting.application, h.vocabulary, h.values, h.apply]

theorem membership (h : m.Alike m') (env : Bindings) (element : Term) (domain : String)
    (negated : Bool) :
    m.membership env element domain negated = m'.membership env element domain negated := by
  simp only [Setting.membership, h.members, h.value]

/-- The search among operands ends in the same way if every operand gives the same result. -/
theorem evalFirst_congr {fs : List Formula} {env : Bindings}
    (same : ∀ f ∈ fs, m.eval f env = m'.eval f env) (want : Bool) :
    m.evalFirst want fs env = m'.evalFirst want fs env := by
  induction fs with
  | nil => rfl
  | cons f fs ih =>
    obtain ⟨hf, same⟩ := List.forall_mem_cons.1 same
    simp only [evalFirst, hf, ih same]

/-- **Alike settings give every formula the same result**, with the same witness or error. -/
theorem evaluate (h : m.Alike m') (f : Formula) (env : Bindings) :
    m.evaluate f env = m'.evaluate f env := by
  unfold Setting.evaluate
  induction f generalizing env with
  | truth b | bare text => rfl
  | pred name args => simp only [eval, h.application]
  | member element domain negated => simp only [eval, h.membership]
  | not f ih => simp only [eval, ih]
  | and fs ih => simp only [eval, evalFirst_congr fun f hf => ih f hf env]
  | or fs ih => simp only [eval, evalFirst_congr fun f hf => ih f hf env]
  | implies f g ihf ihg => simp only [eval, ihf, ihg]
  | all v d f ih => simp only [eval, h.members, ih]
  | any v d f ih => simp only [eval, h.members, ih]

end Alike

end Setting

theorem Project.Rearranges.alike {p q : Project} (h : p.Rearranges q) (states : List String)
    (vocabulary : Vocabulary) :
    Setting.Alike ⟨p, states, vocabulary⟩ ⟨q, states, vocabulary⟩ where
  members name := by
    simp only [Setting.members, Domain.members_of_rearranges h]
  vocabulary := rfl
  apply := Predicate.apply_of_rearranges h

/-- **Rearranging a project changes no evaluation**: for every formula, all states a workflow may
declare, all predicates that may be known and all variables that may be bound beforehand, the result
is the same, be it a truth value with its witness or an error. -/
theorem Project.Rearranges.evaluate_eq {p q : Project} (h : p.Rearranges q) (states : List String)
    (vocabulary : Vocabulary) (f : Formula) (env : Bindings) :
    (⟨q, states, vocabulary⟩ : Setting).evaluate f env =
      (⟨p, states, vocabulary⟩ : Setting).evaluate f env :=
  ((h.alike states vocabulary).evaluate f env).symm

/-- Two tasks and two early commits in either order: by the last commit, `a` is not mentioned. -/
theorem Project.Rearranges.evaluate_eq_three_commits :
    let c (id message : String) : Commit := ⟨id, message, true, none, none⟩
    let p : Project := ⟨"Plan", [.new "a", .new "b"], [c "1" "a", c "2" "", c "3" "b"], by decide,
      by decide⟩
    let q : Project := ⟨"Plan", [.new "b", .new "a"], [c "2" "", c "1" "a", c "3" "b"], by decide,
      by decide⟩
    let f : Formula := .all "t" "tasks" (.pred "mentioned" [.var "t"])
    p.Rearranges q ∧
      (⟨q, ["Plan"], .full⟩ : Setting).evaluate f [] =
        (⟨p, ["Plan"], .full⟩ : Setting).evaluate f [] := by
  intro c p q f
  have h : p.Rearranges q := ⟨rfl, .swap _ _ _, .swap _ _ _, rfl⟩
  exact ⟨h, h.evaluate_eq ["Plan"] .full f []⟩

end ChangeControl
