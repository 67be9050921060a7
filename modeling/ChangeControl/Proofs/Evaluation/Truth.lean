import ChangeControl.Validation
/-!
Truth values of formulas.

`Setting.evaluate` gives a truth value together with a witness, or an error.  This module forgets
the witness: a formula *yields* a truth value when it is evaluated without an error and gives it.
Each connective then has the law one expects of it, up to what is not evaluated because the value is
already settled.

Main definitions:

* `Setting.Yields` — a formula is evaluated to a truth value.

Main results:

* `Setting.yields_and_true_iff`, `Setting.yields_implies_true_iff`, `Setting.yields_all_true_iff` —
  when a conjunction, an implication, a universal formula is true;
* `Setting.yields_conjuncts_iff` — a formula is true exactly when its top-level conjuncts are;
* `unmetOf_eq_nil_iff`, `violationsOf_eq_nil_iff` — the checks of a precondition and of the
  invariants find nothing exactly when every formula is true.
-/

set_option autoImplicit false

namespace ChangeControl

open Rule (Term Formula)

namespace Setting

variable {m : Setting} {env : Bindings}

/-! ### Truth values -/

/-- The formula is evaluated without an error, and its truth value is `b`. -/
def Yields (m : Setting) (env : Bindings) (f : Formula) (b : Bool) : Prop :=
  ∃ r, m.evaluate f env = .ok r ∧ r.holds = b

/-- A formula has at most one truth value. -/
theorem Yields.unique {f : Formula} {b c : Bool} (hb : m.Yields env f b) (hc : m.Yields env f c) :
    b = c := by
  obtain ⟨r, hr, rfl⟩ := hb
  obtain ⟨s, hs, rfl⟩ := hc
  rw [hr] at hs
  rw [Except.ok.inj hs]

theorem yields_atom_iff {f : Formula} {x : Except EvalError Bool} {b : Bool}
    (hf : m.evaluate f env =
      match x with
      | .error e => .error e
      | .ok c => .ok (atomResult env f c)) :
    m.Yields env f b ↔ x = .ok b := by
  unfold Yields
  rw [hf]
  cases x with
  | error e => simp
  | ok c => simp [atomResult]

theorem yields_pred_iff {name : String} {args : List Term} {b : Bool} :
    m.Yields env (.pred name args) b ↔ m.application env name args = .ok b :=
  yields_atom_iff (by cases h : m.application env name args <;> simp only [evaluate, eval, h])

theorem yields_member_iff {element : Term} {domain : String} {negated b : Bool} :
    m.Yields env (.member element domain negated) b ↔
      m.membership env element domain negated = .ok b :=
  yields_atom_iff (by
    cases h : m.membership env element domain negated <;> simp only [evaluate, eval, h])

theorem yields_not_iff {f : Formula} {b : Bool} :
    m.Yields env (.not f) b ↔ m.Yields env f (!b) := by
  unfold Yields
  rw [evaluate, evaluate, eval]
  cases m.eval f env with
  | error e => simp
  | ok r => cases hr : r.holds <;> cases b <;> simp [hr]

/-! ### Conjunctions and implications -/

/-- Nothing with the truth value `want` is found exactly when every formula yields the other one. -/
theorem evalFirst_eq_none_iff {want : Bool} {fs : List Formula} :
    m.evalFirst want fs env = .ok none ↔ ∀ f ∈ fs, m.Yields env f (!want) := by
  induction fs with
  | nil => simp [evalFirst]
  | cons f fs ih =>
    rw [evalFirst, List.forall_mem_cons, ← ih]
    unfold Yields evaluate
    cases m.eval f env with
    | error e => simp
    | ok r => cases hr : r.holds <;> cases want <;> simp [hr]

theorem yields_and_true_iff {fs : List Formula} :
    m.Yields env (.and fs) true ↔ ∀ f ∈ fs, m.Yields env f true := by
  rw [show (true : Bool) = !false from rfl, ← evalFirst_eq_none_iff]
  unfold Yields
  rw [evaluate, eval]
  cases m.evalFirst false fs env with
  | error e => simp
  | ok found =>
    cases found with
    | none => simp
    | some p => simp

theorem yields_implies_true_iff {f g : Formula} :
    m.Yields env (.implies f g) true ↔
      m.Yields env f false ∨ m.Yields env f true ∧ m.Yields env g true := by
  unfold Yields
  rw [evaluate, evaluate, eval, evaluate]
  cases m.eval f env with
  | error e => simp
  | ok r =>
    cases hr : r.holds with
    | false => simp [hr]
    | true =>
      cases m.eval g env with
      | error e => simp [hr]
      | ok s => cases hs : s.holds <;> simp [hr, hs]

mutual

/-- A formula is true exactly when all its top-level conjuncts are. -/
theorem yields_conjuncts_iff :
    ∀ f : Formula, (∀ c ∈ f.conjuncts, m.Yields env c true) ↔ m.Yields env f true
  | .and fs => by rw [Formula.conjuncts, yields_and_true_iff, yields_conjunctsOf_iff fs]
  | .truth _ | .pred .. | .member .. | .not _ | .or _ | .implies .. | .all .. | .any ..
  | .bare _ => by
    simp [Formula.conjuncts]

theorem yields_conjunctsOf_iff :
    ∀ fs : List Formula, (∀ c ∈ Formula.conjunctsOf fs, m.Yields env c true) ↔
      ∀ f ∈ fs, m.Yields env f true
  | [] => by simp [Formula.conjunctsOf]
  | f :: fs => by
    rw [Formula.conjunctsOf, List.forall_mem_append, yields_conjuncts_iff f,
      yields_conjunctsOf_iff fs, List.forall_mem_cons]

end

/-! ### Universal formulas -/

/-- Nothing with the truth value `want` is found exactly when every value is tested to the other
one. -/
theorem search_eq_none_iff (want : Bool) (test : Value → Except EvalError EvalResult)
    (vs : List Value) :
    search want test vs = .ok none ↔ ∀ v ∈ vs, ∃ r, test v = .ok r ∧ r.holds = !want := by
  induction vs with
  | nil => simp [search]
  | cons v vs ih =>
    rw [search, List.forall_mem_cons, ← ih]
    cases test v with
    | error e => simp
    | ok r => cases hr : r.holds <;> cases want <;> simp [hr]

theorem members_eq {name : String} {d : Domain} (hd : Domain.ofName? name = some d) :
    m.members name = .ok (d.members m.project m.states) := by
  rw [members, hd]

theorem yields_all_true_iff {v name : String} {f : Formula} {d : Domain}
    (hd : Domain.ofName? name = some d) :
    m.Yields env (.all v name f) true ↔
      ∀ x ∈ d.members m.project m.states, m.Yields (env ++ [(v, x)]) f true := by
  -- a universal formula is true when the search for a counterexample finds nothing
  have hsearch := search_eq_none_iff false (fun x => m.eval f (env ++ [(v, x)]))
    (d.members m.project m.states)
  rw [show (∀ x ∈ d.members m.project m.states, m.Yields (env ++ [(v, x)]) f true) ↔ _ from
    hsearch.symm]
  unfold Yields
  simp only [evaluate, eval, members_eq hd]
  cases search false (fun x => m.eval f (env ++ [(v, x)])) (d.members m.project m.states) with
  | error e => simp
  | ok found =>
    cases found with
    | none => simp
    | some p => simp

end Setting

/-! ### Checks -/

/-- No condition is unmet exactly when all of them are true. -/
theorem unmetOf_eq_nil_iff {m : Setting} {fs : List Formula} :
    unmetOf m fs = .ok [] ↔ ∀ f ∈ fs, m.Yields [] f true := by
  induction fs with
  | nil => simp [unmetOf]
  | cons f fs ih =>
    rw [unmetOf, List.forall_mem_cons, ← ih]
    unfold Setting.Yields
    cases m.evaluate f [] with
    | error e => simp
    | ok r =>
      cases unmetOf m fs with
      | error e => simp
      | ok us => cases hr : r.holds <;> simp [hr]

/-- No invariant is broken exactly when all of them are true. -/
theorem violationsOf_eq_nil_iff {m : Setting} {is : List Invariant} :
    violationsOf m is = .ok [] ↔ ∀ i ∈ is, m.Yields [] i.formula true := by
  induction is with
  | nil => simp [violationsOf]
  | cons i is ih =>
    rw [violationsOf, List.forall_mem_cons, ← ih]
    unfold Setting.Yields
    cases m.evaluate i.formula [] with
    | error e => simp
    | ok r =>
      cases violationsOf m is with
      | error e => simp
      | ok vs => cases hr : r.holds <;> simp [hr]

end ChangeControl
