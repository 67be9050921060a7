import ChangeControl.Proofs.Calendar.RoundTrip
import ChangeControl.Proofs.Evaluation.Order
import ChangeControl.Proofs.Workflow.Declared
/-!
The contract of a transition.

A transition is judged in four steps: it has to be declared, the project has to be in its source
state, its precondition has to be true, and its postcondition has to be true on the snapshot that it
leads to.  The check of a transition takes these steps in this order.  It takes the precondition
apart, though, and evaluates each of its conjuncts, so as to tell all of them that fail.  Where every
conjunct has a truth value that is the same as to evaluate the whole.  Where one of them has none, it
is not: the whole is settled by the first conjunct that is false, while the check goes on and may
end in the error of one that the first was to guard.

Main definitions:

* `Rule.Formula.Leaves` — what a tree of nested conjunctions joins;
* `Setting.unmet?`, `Setting.FirstInError` — what is told of a condition, and the error that a row of
  conditions ends in;
* `Workflow.Contract` — **what the contract of a transition demands of the answer**.

Main results:

* `unmetOf_eq_ok_iff`, `unmetOf_eq_error_iff` — the conditions that fail are told exactly if all have
  a truth value;
* `Workflow.checkTransition_decides` — **where everything has a truth value the check decides
  exactly the contract**;
* `Workflow.precondition_judged` — how the check judges a precondition, and where it differs from
  the evaluation of the whole;
* `not_judged_alike` — it does differ for a guarded precondition.
-/

set_option autoImplicit false

namespace ChangeControl

open Calendar (Timestamp)
open Rule (Formula)

/-! ### Nested conjunctions -/

namespace Rule.Formula

/-- What a tree of nested conjunctions joins, from left to right. -/
inductive Leaves : Formula → List Formula → Prop
  /-- Whatever is no conjunction is a leaf. -/
  | leaf {f : Formula} (h : ∀ fs, f ≠ .and fs) : Leaves f [f]
  | nil : Leaves (.and []) []
  | cons {f : Formula} {fs ls ms : List Formula} :
    Leaves f ls → Leaves (.and fs) ms → Leaves (.and (f :: fs)) (ls ++ ms)

theorem leaves_conjuncts (f : Formula) : f.Leaves f.conjuncts := by
  induction f with
  | and fs ih =>
    rw [conjuncts]
    induction fs with
    | nil => exact .nil
    | cons f fs ihs =>
      obtain ⟨hf, ih⟩ := List.forall_mem_cons.1 ih
      exact .cons hf (ihs ih)
  | truth | pred | member | not | or | implies | all | any | bare =>
    exact .leaf (by simp)

/-- The conjuncts of a formula are its leaves. -/
theorem leaves_iff {f : Formula} {ls : List Formula} : f.Leaves ls ↔ ls = f.conjuncts := by
  constructor
  · intro h
    induction h with
    | @leaf f h =>
      cases f with
      | and fs => exact absurd rfl (h fs)
      | truth | pred | member | not | or | implies | all | any | bare => rfl
    | nil => rfl
    | cons _ _ ihf ihfs =>
      rw [ihf, ihfs]
      rfl
  · rintro rfl
    exact leaves_conjuncts f

end Rule.Formula

/-! ### Conditions -/

namespace Setting

/-- What is told of a condition that is false; of any other one nothing is told. -/
def unmet? (m : Setting) (f : Formula) : Option Unmet :=
  match m.evaluate f [] with
  | .error _ => none
  | .ok r => if r.holds then none else some ⟨f, r.witness⟩

/-- Among the conditions the first one without a truth value has the error `e`. -/
def FirstInError (m : Setting) (fs : List Formula) (e : EvalError) : Prop :=
  ∃ pre f post, fs = pre ++ f :: post ∧ (∀ g ∈ pre, ∃ r, m.evaluate g [] = .ok r) ∧
    m.evaluate f [] = .error e

variable {m : Setting} {f : Formula} {fs gs : List Formula} {e : EvalError}

theorem unmet?_eq_some_iff {u : Unmet} :
    m.unmet? f = some u ↔ u.formula = f ∧ m.evaluate f [] = .ok ⟨false, u.witness⟩ := by
  unfold unmet?
  cases m.evaluate f [] with
  | error e => simp
  | ok r =>
    obtain ⟨holds, witness⟩ := r
    obtain ⟨formula, told⟩ := u
    cases holds <;> simp [eq_comm]

theorem unmet?_of_true (h : m.Yields [] f true) : m.unmet? f = none := by
  obtain ⟨r, hr, holds⟩ := h
  simp only [unmet?, hr, holds, if_true]

/-- A condition without truth value stands behind every row of conditions that have one. -/
theorem FirstInError.not_forall (h : m.FirstInError fs e) :
    ¬∀ f ∈ fs, ∃ r, m.evaluate f [] = .ok r := by
  obtain ⟨pre, f, post, rfl, -, hf⟩ := h
  intro hall
  obtain ⟨r, hr⟩ := hall f (List.mem_append_right pre List.mem_cons_self)
  rw [hf] at hr
  cases hr

theorem filterMap_unmet?_of_true (h : ∀ f ∈ fs, m.Yields [] f true) :
    fs.filterMap m.unmet? = [] :=
  List.filterMap_eq_nil_iff.2 fun f hf => unmet?_of_true (h f hf)

theorem firstInError_cons :
    m.FirstInError (f :: fs) e ↔
      m.evaluate f [] = .error e ∨ (∃ r, m.evaluate f [] = .ok r) ∧ m.FirstInError fs e := by
  constructor
  · rintro ⟨pre, g, post, hcut, hpre, hg⟩
    cases pre with
    | nil =>
      obtain ⟨rfl, rfl⟩ := List.cons.inj hcut
      exact .inl hg
    | cons f' pre =>
      obtain ⟨rfl, rfl⟩ := List.cons.inj hcut
      obtain ⟨hf, hpre⟩ := List.forall_mem_cons.1 hpre
      exact .inr ⟨hf, pre, g, post, rfl, hpre, hg⟩
  · rintro (hf | ⟨hf, pre, g, post, rfl, hpre, hg⟩)
    · exact ⟨[], f, fs, rfl, List.forall_mem_nil _, hf⟩
    · exact ⟨f :: pre, g, post, rfl, List.forall_mem_cons.2 ⟨hf, hpre⟩, hg⟩

theorem firstInError_append (h : ∀ f ∈ fs, ∃ r, m.evaluate f [] = .ok r) :
    m.FirstInError (fs ++ gs) e ↔ m.FirstInError gs e := by
  induction fs with
  | nil => rfl
  | cons f fs ih =>
    obtain ⟨⟨r, hr⟩, h⟩ := List.forall_mem_cons.1 h
    rw [List.cons_append, firstInError_cons, ih h, hr]
    simp

end Setting

section Conditions

variable {m : Setting} {fs : List Formula} {us : List Unmet} {e : EvalError}

/-- The conditions that fail are told, each with its witness, exactly if every one has a truth
value. -/
theorem unmetOf_eq_ok_iff :
    unmetOf m fs = .ok us ↔
      (∀ f ∈ fs, ∃ r, m.evaluate f [] = .ok r) ∧ us = fs.filterMap m.unmet? := by
  induction fs generalizing us with
  | nil => simp [unmetOf, eq_comm]
  | cons f fs ih =>
    rw [unmetOf, List.forall_mem_cons, List.filterMap_cons, Setting.unmet?]
    cases m.evaluate f [] with
    | error e => simp
    | ok r =>
      cases hrest : unmetOf m fs with
      | error e =>
        have hnever : ¬ ∀ f ∈ fs, ∃ r, m.evaluate f [] = .ok r := by
          intro h
          simpa [hrest] using ih.2 ⟨h, rfl⟩
        simp [hnever]
      | ok vs =>
        obtain ⟨hall, rfl⟩ := ih.1 hrest
        rw [and_iff_right ⟨⟨r, rfl⟩, hall⟩, @eq_comm _ us]
        cases hr : r.holds <;> simp [hr]

theorem unmetOf_eq_error_iff : unmetOf m fs = .error e ↔ m.FirstInError fs e := by
  induction fs with
  | nil => simp [unmetOf, Setting.FirstInError]
  | cons f fs ih =>
    rw [unmetOf, Setting.firstInError_cons, ← ih]
    cases m.evaluate f [] with
    | error e' => simp
    | ok r => cases unmetOf m fs <;> simp

/-- A formula is false if its conjuncts have truth values and some are unmet. -/
theorem yields_false_of_unmetOf {f : Formula} (h : unmetOf m f.conjuncts = .ok us)
    (fails : us ≠ []) : m.Yields [] f false := by
  obtain ⟨values, rfl⟩ := unmetOf_eq_ok_iff.1 h
  cases hf : m.evaluate f [] with
  | error e =>
    obtain ⟨pre, c, post, hcut, -, hc⟩ := Setting.evaluate_eq_error_iff.1 hf
    have hmem : c ∈ f.conjuncts := hcut ▸ List.mem_append_right pre List.mem_cons_self
    obtain ⟨r, hr⟩ := values c hmem
    rw [hc] at hr
    cases hr
  | ok r =>
    cases hr : r.holds with
    | false => exact ⟨r, hf, hr⟩
    | true =>
      have hall := (Setting.yields_conjuncts_iff f).2 ⟨r, hf, hr⟩
      exact absurd (Setting.filterMap_unmet?_of_true hall) fails

/-- If a formula is false and its conjuncts have truth values, some are unmet. -/
theorem unmet_ne_nil_of_yields_false {f : Formula} (h : m.Yields [] f false)
    (hus : unmetOf m f.conjuncts = .ok us) : us ≠ [] := by
  rintro rfl
  have htrue := (Setting.yields_conjuncts_iff f).1 (unmetOf_eq_nil_iff.1 hus)
  exact Bool.false_ne_true (h.unique htrue)

end Conditions

/-- The snapshot that a transition is to lead to: the state is set to the target, the declared
effects are applied in their order, and the version is one higher. -/
def Transition.after (now : Timestamp) (t : Transition) (s : Snapshot) : Snapshot :=
  ⟨t.effects.foldl (fun p e => e.apply p) (s.project.withState t.target),
    .number (s.version.toInt + 1), now⟩

theorem Transition.apply_eq_after (now : Timestamp) (t : Transition) (s : Snapshot) :
    t.apply now s = t.after now s := rfl

namespace Workflow

variable {w : Workflow} {vocabulary : Vocabulary} {now : Timestamp} {source target : String}
  {s : Snapshot} {t : Transition} {us : List Unmet} {o : Outcome} {e : EvalError}

/-! ### Declared transitions -/

theorem transition?_eq_none_iff :
    w.transition? source target = none ↔
      ∀ t ∈ w.transitions, ¬(t.source = source ∧ t.target = target) := by
  rw [transition?, List.find?_eq_none]
  simp

/-- In a loaded workflow the transition between two states is the one that is declared. -/
theorem IsLoaded.transition?_eq_some_iff (loaded : w.IsLoaded) :
    w.transition? source target = some t ↔
      t ∈ w.transitions ∧ t.source = source ∧ t.target = target := by
  obtain ⟨r, r', text, hload⟩ := loaded
  obtain ⟨d, -, hbuild⟩ := Registry.check_eq_ok_iff.1 (Registry.load_eq_ok_iff.1 hload).1
  obtain ⟨decl, -, clean, rfl⟩ := buildWorkflow_eq_ok_iff.1 hbuild
  have hpairs : ((decl.transitions.map transitionOf).map fun t => (t.source, t.target)).Nodup := by
    rw [List.map_map]
    exact (problems_eq_nil_iff.1 clean).pairs
  rw [← Prod.mk.injEq]
  exact Project.find?_key_eq_some_iff (fun t : Transition => (t.source, t.target)) _ hpairs
    (source, target) t

/-! ### The steps of the check -/

section Steps

variable (declared : w.transition? source target = some t) (state : s.project.state = source)

include declared state

theorem checkTransition_of_error
    (h : unmetOf (w.setting vocabulary s.project) t.precondition.conjuncts = .error e) :
    w.checkTransition vocabulary now source target s = .error e := by
  simp only [checkTransition, declared, state, if_true, h]

theorem checkTransition_of_unmet (fails : us ≠ [])
    (h : unmetOf (w.setting vocabulary s.project) t.precondition.conjuncts = .ok us) :
    w.checkTransition vocabulary now source target s = .ok (.reject (.precondition us)) := by
  obtain ⟨u, us, rfl⟩ := List.exists_cons_of_ne_nil fails
  simp only [checkTransition, declared, state, if_true, h]

theorem checkTransition_of_met
    (h : unmetOf (w.setting vocabulary s.project) t.precondition.conjuncts = .ok []) :
    w.checkTransition vocabulary now source target s =
      match (w.setting vocabulary (t.apply now s).project).evaluate t.postcondition [] with
      | .error e => .error e
      | .ok r =>
        if r.holds then .ok (.accept (t.apply now s))
        else .ok (.reject (.postcondition t ⟨t.postcondition, r.witness⟩)) := by
  cases hpost : (w.setting vocabulary (t.apply now s).project).evaluate t.postcondition [] <;>
    simp only [checkTransition, declared, state, if_true, h, hpost]

/-- The precondition is the reason for a rejection exactly if some of its conjuncts fail and the
others hold. -/
theorem checkTransition_eq_precondition_iff :
    w.checkTransition vocabulary now source target s = .ok (.reject (.precondition us)) ↔
      us ≠ [] ∧ unmetOf (w.setting vocabulary s.project) t.precondition.conjuncts = .ok us := by
  constructor
  · intro h
    cases hus : unmetOf (w.setting vocabulary s.project) t.precondition.conjuncts with
    | error e =>
      rw [checkTransition_of_error declared state hus] at h
      cases h
    | ok vs =>
      by_cases fails : vs = []
      · rw [checkTransition_of_met declared state (fails ▸ hus)] at h
        split at h
        · cases h
        · split at h <;> cases h
      · rw [checkTransition_of_unmet declared state fails hus] at h
        cases h
        exact ⟨fails, rfl⟩
  · rintro ⟨fails, hus⟩
    exact checkTransition_of_unmet declared state fails hus

/-- The check ends in error exactly if a conjunct of the precondition has no truth value, or all are
true and the postcondition has none. -/
theorem checkTransition_eq_error_iff :
    w.checkTransition vocabulary now source target s = .error e ↔
      (w.setting vocabulary s.project).FirstInError t.precondition.conjuncts e ∨
        (w.setting vocabulary s.project).Yields [] t.precondition true ∧
          (w.setting vocabulary (t.apply now s).project).evaluate t.postcondition [] =
            .error e := by
  rw [← unmetOf_eq_error_iff, ← Setting.yields_conjuncts_iff, ← unmetOf_eq_nil_iff]
  cases hus : unmetOf (w.setting vocabulary s.project) t.precondition.conjuncts with
  | error e' =>
    rw [checkTransition_of_error declared state hus]
    simp
  | ok us =>
    by_cases fails : us = []
    · subst fails
      rw [checkTransition_of_met declared state hus]
      simp only [reduceCtorEq, true_and, false_or]
      split
      · next h => simp [h]
      · next r h => cases r.holds <;> simp [h]
    · rw [checkTransition_of_unmet declared state fails hus]
      simp [fails]

end Steps

/-- Only a transition that is declared, from the state that the project is in, may end in error. -/
theorem exists_of_checkTransition_error
    (h : w.checkTransition vocabulary now source target s = .error e) :
    ∃ t, w.transition? source target = some t ∧ s.project.state = source := by
  cases found : w.transition? source target with
  | none => simp [checkTransition, found] at h
  | some t =>
    by_cases state : s.project.state = source
    · exact ⟨t, rfl, state⟩
    · simp [checkTransition, found, state] at h

/-! ### The contract -/

/-- **What the contract of a transition demands of the answer.** -/
inductive Contract (w : Workflow) (vocabulary : Vocabulary) (now : Timestamp)
    (source target : String) (s : Snapshot) : Outcome → Prop
  | undeclared (none : ∀ t ∈ w.transitions, ¬(t.source = source ∧ t.target = target)) :
    Contract w vocabulary now source target s (.reject .undeclared)
  | wrongState {t : Transition} (declared : t ∈ w.transitions)
    (ends : t.source = source ∧ t.target = target) (state : s.project.state ≠ source) :
    Contract w vocabulary now source target s (.reject (.wrongState s.project.state source))
  /-- The leaves of the precondition that are false are told, each with its witness. -/
  | precondition {t : Transition} {leaves : List Formula} (declared : t ∈ w.transitions)
    (ends : t.source = source ∧ t.target = target) (state : s.project.state = source)
    (pre : (w.setting vocabulary s.project).Yields [] t.precondition false)
    (joined : t.precondition.Leaves leaves) :
    Contract w vocabulary now source target s
      (.reject (.precondition (leaves.filterMap (w.setting vocabulary s.project).unmet?)))
  | postcondition {t : Transition} {witness : Option Witness} (declared : t ∈ w.transitions)
    (ends : t.source = source ∧ t.target = target) (state : s.project.state = source)
    (pre : (w.setting vocabulary s.project).Yields [] t.precondition true)
    (post : (w.setting vocabulary (t.after now s).project).evaluate t.postcondition [] =
      .ok ⟨false, witness⟩) :
    Contract w vocabulary now source target s
      (.reject (.postcondition t ⟨t.postcondition, witness⟩))
  | accept {t : Transition} (declared : t ∈ w.transitions)
    (ends : t.source = source ∧ t.target = target) (state : s.project.state = source)
    (pre : (w.setting vocabulary s.project).Yields [] t.precondition true)
    (post : (w.setting vocabulary (t.after now s).project).Yields [] t.postcondition true) :
    Contract w vocabulary now source target s (.accept (t.after now s))

/-- Every answer of the check is the one that the contract demands. -/
theorem contract_of_checkTransition
    (h : w.checkTransition vocabulary now source target s = .ok o) :
    w.Contract vocabulary now source target s o := by
  cases found : w.transition? source target with
  | none =>
    simp only [checkTransition, found, Except.ok.injEq] at h
    exact h ▸ .undeclared (transition?_eq_none_iff.1 found)
  | some t =>
    obtain ⟨declared, ends⟩ := mem_of_transition? found
    by_cases state : s.project.state = source
    · cases hus : unmetOf (w.setting vocabulary s.project) t.precondition.conjuncts with
      | error e =>
        rw [checkTransition_of_error found state hus] at h
        cases h
      | ok us =>
        by_cases fails : us = []
        · subst fails
          have pre := (Setting.yields_conjuncts_iff _).1 (unmetOf_eq_nil_iff.1 hus)
          rw [checkTransition_of_met found state hus] at h
          split at h
          · cases h
          · next r post =>
            obtain ⟨holds, witness⟩ := r
            cases holds with
            | true =>
              obtain rfl := Except.ok.inj h
              exact .accept declared ends state pre ⟨_, post, rfl⟩
            | false =>
              obtain rfl := Except.ok.inj h
              exact .postcondition declared ends state pre post
        · rw [checkTransition_of_unmet found state fails hus] at h
          obtain rfl := Except.ok.inj h
          have pre := yields_false_of_unmetOf hus fails
          obtain ⟨-, rfl⟩ := unmetOf_eq_ok_iff.1 hus
          exact .precondition declared ends state pre (Rule.Formula.leaves_conjuncts _)
    · simp only [checkTransition, found, state, if_false, Except.ok.injEq] at h
      exact h ▸ .wrongState declared ends state

/-- **Where everything has a truth value the check decides exactly the contract**: it gives an
answer, and that answer is the one that the contract demands. -/
theorem checkTransition_decides (loaded : w.IsLoaded) (vocabulary : Vocabulary) (now : Timestamp)
    (source target : String) (s : Snapshot)
    (evaluable : ∀ t ∈ w.transitions, t.source = source ∧ t.target = target →
      s.project.state = source →
        (∀ c ∈ t.precondition.conjuncts,
          ∃ r, (w.setting vocabulary s.project).evaluate c [] = .ok r) ∧
        ((∀ c ∈ t.precondition.conjuncts, (w.setting vocabulary s.project).Yields [] c true) →
          ∃ r, (w.setting vocabulary (t.after now s).project).evaluate t.postcondition [] =
            .ok r)) :
    (∃ o, w.checkTransition vocabulary now source target s = .ok o) ∧
      ∀ o, w.checkTransition vocabulary now source target s = .ok o ↔
        w.Contract vocabulary now source target s o := by
  have found : ∀ {t}, t ∈ w.transitions → t.source = source ∧ t.target = target →
      w.transition? source target = some t :=
    fun declared ends => loaded.transition?_eq_some_iff.2 ⟨declared, ends⟩
  constructor
  · cases h : w.checkTransition vocabulary now source target s with
    | ok o => exact ⟨o, rfl⟩
    | error e =>
      obtain ⟨t, hfound, state⟩ := exists_of_checkTransition_error h
      obtain ⟨declared, ends⟩ := mem_of_transition? hfound
      obtain ⟨values, post⟩ := evaluable t declared ends state
      obtain hpre | ⟨pre, hpost⟩ := (checkTransition_eq_error_iff hfound state).1 h
      · exact absurd values hpre.not_forall
      · obtain ⟨r, hr⟩ := post ((Setting.yields_conjuncts_iff _).2 pre)
        rw [Transition.apply_eq_after, hr] at hpost
        cases hpost
  · intro o
    refine ⟨contract_of_checkTransition, fun h => ?_⟩
    cases h with
    | undeclared none => simp only [checkTransition, transition?_eq_none_iff.2 none]
    | wrongState declared ends state =>
      simp only [checkTransition, found declared ends, state, if_false]
    | precondition declared ends state pre joined =>
      obtain rfl := Rule.Formula.leaves_iff.1 joined
      have hus := unmetOf_eq_ok_iff.2 ⟨(evaluable _ declared ends state).1, rfl⟩
      exact checkTransition_of_unmet (found declared ends) state
        (unmet_ne_nil_of_yields_false pre hus) hus
    | @postcondition t witness declared ends state pre post =>
      have met := unmetOf_eq_nil_iff.2 ((Setting.yields_conjuncts_iff _).2 pre)
      rw [checkTransition_of_met (found declared ends) state met, Transition.apply_eq_after, post]
      rfl
    | @accept t declared ends state pre post =>
      have met := unmetOf_eq_nil_iff.2 ((Setting.yields_conjuncts_iff _).2 pre)
      obtain ⟨r, hr, holds⟩ := post
      rw [checkTransition_of_met (found declared ends) state met, Transition.apply_eq_after, hr]
      simp only [holds, if_true]

end Workflow

/-- The task T9 is there. -/
def isThere : Formula := .member (.literal "T9") "tasks" false

/-- The task T9 is completed. -/
def isCompleted : Formula := .pred "completed" [.literal "T9"]

/-- There are commits. -/
def hasCommits : Formula := .pred "nonempty" [.domain "commits"]

/-- A workflow whose one transition asks for a task before it asks something of it. -/
def guardedTask : Workflow where
  name := "Review"
  states := ["Draft", "Done"]
  transitions := [{
    source := "Draft"
    target := "Done"
    precondition := .and [.and [isThere, isCompleted], hasCommits]
    postcondition := .truth true
    effects := []
    critical := false }]
  invariants := Core.rules
  parameters := []

/-- The text of that workflow. -/
def guardedTaskText : String :=
  "workflow Review \x7b states: [Draft, Done]; transitions: [Draft -> Done
    requires (\"T9\" in tasks and completed[\"T9\"]) and nonempty[commits]]; \x7d"

theorem load_guardedTask : (Registry.empty .full).load guardedTaskText =
    .ok ((Registry.empty .full).publish guardedTask, guardedTask) := by
  have checked : (Registry.empty .full).check guardedTaskText = .ok guardedTask :=
    Rule.toOption_eq_some_iff.1 (by decide +kernel)
  exact Registry.load_eq_ok_iff.2 ⟨checked, rfl⟩

/-- A draft with some tasks and no commits. -/
def draft (tasks : List Task) (nodup : (tasks.map Task.id).Nodup) : Snapshot :=
  .first .leapNight ⟨"Draft", tasks, [], nodup, List.nodup_nil⟩

/-- A draft with the task T9 in the backlog. -/
def taskDraft : Snapshot := draft [⟨"T9", .backlog, false, false⟩] (List.nodup_singleton _)

/-- A draft without tasks. -/
def emptyDraft : Snapshot := draft [] List.nodup_nil

/-- On the draft with the task everything has a truth value, and the two leaves that are false are
told, each with itself as its witness. -/
theorem checkTransition_taskDraft :
    guardedTask.IsLoaded ∧
      (∀ c ∈ [isThere, isCompleted, hasCommits],
        ∃ r, (guardedTask.setting .full taskDraft.project).evaluate c [] = .ok r) ∧
      guardedTask.checkTransition .full taskDraft.clock "Draft" "Done" taskDraft =
        .ok (.reject (.precondition
          [⟨isCompleted, some ⟨[], isCompleted⟩⟩, ⟨hasCommits, some ⟨[], hasCommits⟩⟩])) := by
  have loaded : guardedTask.IsLoaded := ⟨_, _, _, load_guardedTask⟩
  have there : (guardedTask.setting .full taskDraft.project).evaluate isThere [] =
      .ok ⟨true, none⟩ := by decide +kernel
  have incomplete : (guardedTask.setting .full taskDraft.project).evaluate isCompleted [] =
      .ok ⟨false, some ⟨[], isCompleted⟩⟩ := by decide +kernel
  have bare : (guardedTask.setting .full taskDraft.project).evaluate hasCommits [] =
      .ok ⟨false, some ⟨[], hasCommits⟩⟩ := by decide +kernel
  have values : ∀ c ∈ [isThere, isCompleted, hasCommits],
      ∃ r, (guardedTask.setting .full taskDraft.project).evaluate c [] = .ok r :=
    List.forall_mem_cons.2 ⟨⟨_, there⟩, List.forall_mem_cons.2 ⟨⟨_, incomplete⟩,
      List.forall_mem_singleton.2 ⟨_, bare⟩⟩⟩
  have pre : (guardedTask.setting .full taskDraft.project).Yields []
      (.and [.and [isThere, isCompleted], hasCommits]) false :=
    Setting.yields_false_iff.2 ⟨[isThere], isCompleted, [hasCommits], rfl,
      List.forall_mem_singleton.2 ⟨_, there, rfl⟩, _, incomplete, rfl⟩
  have unmet : [isThere, isCompleted, hasCommits].filterMap
      (guardedTask.setting .full taskDraft.project).unmet? =
        [⟨isCompleted, some ⟨[], isCompleted⟩⟩, ⟨hasCommits, some ⟨[], hasCommits⟩⟩] := by
    decide +kernel
  have decided := Workflow.checkTransition_decides loaded .full taskDraft.clock "Draft" "Done"
    taskDraft fun t ht _ _ => by
      obtain rfl := List.mem_singleton.1 ht
      exact ⟨values, fun _ => ⟨_, rfl⟩⟩
  refine ⟨loaded, values, ?_⟩
  rw [← unmet]
  exact (decided.2 _).2 (.precondition List.mem_cons_self ⟨rfl, rfl⟩ rfl pre
    (Rule.Formula.leaves_conjuncts _))

namespace Workflow

variable {w : Workflow} {s : Snapshot} {t : Transition}

/-! ### Judging a precondition -/

/-- **How the check judges a precondition.**  Where the evaluation of the whole ends in error the
check ends in the same error, and where the whole is true it finds nothing unmet.  Where the whole is
false, one conjunct is the first that is false.  The check then rejects the transition, and tells
that conjunct and those behind it that are false, exactly if all behind it have truth values; and
otherwise it ends in the error of the first one that has none. -/
theorem precondition_judged (loaded : w.IsLoaded) (vocabulary : Vocabulary) (now : Timestamp)
    (declared : t ∈ w.transitions) (state : s.project.state = t.source) :
    (∀ e, (w.setting vocabulary s.project).evaluate t.precondition [] = .error e →
      w.checkTransition vocabulary now t.source t.target s = .error e) ∧
    ((w.setting vocabulary s.project).Yields [] t.precondition true →
      unmetOf (w.setting vocabulary s.project) t.precondition.conjuncts = .ok [] ∧
        ∀ us, w.checkTransition vocabulary now t.source t.target s ≠
          .ok (.reject (.precondition us))) ∧
    ((w.setting vocabulary s.project).Yields [] t.precondition false →
      ∃ pre c post, t.precondition.conjuncts = pre ++ c :: post ∧
        (∀ g ∈ pre, (w.setting vocabulary s.project).Yields [] g true) ∧
        (w.setting vocabulary s.project).Yields [] c false ∧
        (∀ us, w.checkTransition vocabulary now t.source t.target s =
            .ok (.reject (.precondition us)) ↔
          (∀ g ∈ post, ∃ r, (w.setting vocabulary s.project).evaluate g [] = .ok r) ∧
            us = (c :: post).filterMap (w.setting vocabulary s.project).unmet?) ∧
        ∀ e, w.checkTransition vocabulary now t.source t.target s = .error e ↔
          (w.setting vocabulary s.project).FirstInError post e) := by
  have found := loaded.transition?_eq_some_iff.2 ⟨declared, rfl, rfl⟩
  refine ⟨?_, ?_, ?_⟩
  · intro e h
    obtain ⟨pre, c, post, hcut, hpre, hc⟩ := Setting.evaluate_eq_error_iff.1 h
    have hfirst : (w.setting vocabulary s.project).FirstInError t.precondition.conjuncts e :=
      ⟨pre, c, post, hcut, fun g hg => (hpre g hg).imp fun _ => And.left, hc⟩
    exact (checkTransition_eq_error_iff found state).2 (.inl hfirst)
  · intro h
    have met := unmetOf_eq_nil_iff.2 ((Setting.yields_conjuncts_iff _).2 h)
    refine ⟨met, fun us hus => ?_⟩
    obtain ⟨fails, hus⟩ := (checkTransition_eq_precondition_iff found state).1 hus
    exact fails (Except.ok.inj (hus.symm.trans met))
  · intro h
    obtain ⟨pre, c, post, hcut, hpre, hc⟩ := Setting.yields_false_iff.1 h
    -- nothing up to the first conjunct that is false can end the check
    have hvalues : ∀ g ∈ pre ++ [c],
        ∃ r, (w.setting vocabulary s.project).evaluate g [] = .ok r := by
      intro g hg
      rcases List.mem_append.1 hg with hg | hg
      · exact (hpre g hg).imp fun _ => And.left
      · exact List.mem_singleton.1 hg ▸ hc.imp fun _ => And.left
    have hrow : t.precondition.conjuncts = (pre ++ [c]) ++ post := by
      rw [hcut, List.append_assoc, List.singleton_append]
    refine ⟨pre, c, post, hcut, hpre, hc, ?_, ?_⟩
    · intro us
      rw [checkTransition_eq_precondition_iff found state]
      have hus := @unmetOf_eq_ok_iff (w.setting vocabulary s.project) t.precondition.conjuncts us
      rw [hcut, List.filterMap_append, Setting.filterMap_unmet?_of_true hpre, List.nil_append,
        ← hcut] at hus
      constructor
      · rintro ⟨-, h⟩
        obtain ⟨hall, rfl⟩ := hus.1 h
        rw [hrow] at hall
        exact ⟨fun g hg => hall g (List.mem_append_right _ hg), rfl⟩
      · rintro ⟨hall, rfl⟩
        have hunmet := hus.2 ⟨by
          rw [hrow]
          exact List.forall_mem_append.2 ⟨hvalues, hall⟩, rfl⟩
        exact ⟨unmet_ne_nil_of_yields_false h hunmet, hunmet⟩
    · intro e
      rw [checkTransition_eq_error_iff found state, hrow, Setting.firstInError_append hvalues]
      refine or_iff_left ?_
      rintro ⟨htrue, -⟩
      exact Bool.false_ne_true (h.unique htrue)

end Workflow

/-- On the draft without tasks the guard is false, and so is the whole precondition; the check
nevertheless ends in the error of what is behind the guard. -/
theorem precondition_emptyDraft :
    guardedTask.IsLoaded ∧
      (guardedTask.setting .full emptyDraft.project).Yields []
        (.and [.and [isThere, isCompleted], hasCommits]) false ∧
      guardedTask.checkTransition .full emptyDraft.clock "Draft" "Done" emptyDraft =
        .error (.call .completed (.noTask "T9") isCompleted) := by
  have loaded : guardedTask.IsLoaded := ⟨_, _, _, load_guardedTask⟩
  have absent : (guardedTask.setting .full emptyDraft.project).Yields [] isThere false :=
    ⟨⟨false, some ⟨[], isThere⟩⟩, by decide +kernel, rfl⟩
  have fault : (guardedTask.setting .full emptyDraft.project).evaluate isCompleted [] =
      .error (.call .completed (.noTask "T9") isCompleted) := by decide +kernel
  have pre : (guardedTask.setting .full emptyDraft.project).Yields []
      (.and [.and [isThere, isCompleted], hasCommits]) false :=
    Setting.yields_false_iff.2 ⟨[], isThere, [isCompleted, hasCommits], rfl,
      List.forall_mem_nil _, absent⟩
  refine ⟨loaded, pre, ?_⟩
  obtain ⟨-, -, hfalse⟩ := Workflow.precondition_judged loaded .full emptyDraft.clock
    (t := ⟨"Draft", "Done", .and [.and [isThere, isCompleted], hasCommits], .truth true, [], false⟩)
    (s := emptyDraft) List.mem_cons_self rfl
  obtain ⟨front, c, post, hcut, hfront, -, -, herror⟩ := hfalse pre
  -- the first conjunct that is false is the guard itself
  cases front with
  | nil =>
    obtain ⟨rfl, rfl⟩ := List.cons.inj hcut
    exact (herror _).2 ⟨[], isCompleted, [hasCommits], rfl, List.forall_mem_nil _, fault⟩
  | cons g front =>
    obtain ⟨rfl, -⟩ := List.cons.inj hcut
    exact absurd (absent.unique (hfront _ List.mem_cons_self)) Bool.false_ne_true

/-- The check of a guarded precondition and its evaluation as a whole may differ: the guard is false,
which settles the whole, and the check ends in an error. -/
theorem not_judged_alike :
    ¬∀ (r r' : Registry) (text : String) (w : Workflow), r.load text = .ok (r', w) →
      ∀ t ∈ w.transitions, ∀ (now : Timestamp) (s : Snapshot), s.project.state = t.source →
        ∀ result, (w.setting r.vocabulary s.project).evaluate t.precondition [] = .ok result →
          (∃ us, unmetOf (w.setting r.vocabulary s.project) t.precondition.conjuncts = .ok us) ∧
            ((∃ us, w.checkTransition r.vocabulary now t.source t.target s =
              .ok (.reject (.precondition us))) ↔ result.holds = false) := by
  intro h
  have value : (guardedTask.setting .full emptyDraft.project).evaluate
      (.and [.and [isThere, isCompleted], hasCommits]) [] =
        .ok ⟨false, some ⟨[], isThere⟩⟩ := by decide +kernel
  have raised : unmetOf (guardedTask.setting .full emptyDraft.project)
      [isThere, isCompleted, hasCommits] =
        .error (.call .completed (.noTask "T9") isCompleted) := by decide +kernel
  obtain ⟨⟨us, hus⟩, -⟩ := h _ _ _ _ load_guardedTask _ List.mem_cons_self emptyDraft.clock
    emptyDraft rfl _ value
  cases raised.symm.trans hus

end ChangeControl
