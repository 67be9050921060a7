import ChangeControl.Proofs.Evaluation.Semantics
/-!
The order of evaluation.

Operands and members are looked at one after the other, and nothing is looked at behind the first
one that settles the value.  So a result is told by a cut: what stands before it has the other truth
value, and nothing is said of what stands behind it.  A nest of conjunctions is judged like the row
of its top-level conjuncts.

Main definitions:

* `Setting.firstOf` — the search among operands and the search among members, as one;
* `Setting.verdict` — the truth value of a formula, or the error.

Main results:

* `Setting.firstOf_eq_some_iff`, `Setting.firstOf_eq_error_iff` — where a search ends;
* `Setting.verdict_congr` — **equal variables, equal verdicts**;
* `Setting.verdict_eq_conjuncts` — **a formula is judged like the row of its conjuncts**;
* `Setting.yields_false_iff`, `Setting.evaluate_eq_error_iff` — a formula is false or in error
  exactly if the first of its conjuncts that is not true is.
-/

set_option autoImplicit false

namespace ChangeControl

open Rule (Term Formula)

/-- Bindings in which every variable has the same value still do after one more is bound. -/
theorem Bindings.concat_congr {env env' : Bindings} (h : env.find? = env'.find?) (v : String)
    (x : Value) : Bindings.find? (env ++ [(v, x)]) = Bindings.find? (env' ++ [(v, x)]) := by
  rw [find?_concat, find?_concat, h]

namespace Setting

variable {m : Setting} {env : Bindings} {e : EvalError}

/-! ### Searches -/

section Search

variable {α : Type} {want : Bool} {test : α → Except EvalError EvalResult} {x : α} {xs ys : List α}
  {r : EvalResult}

/-- The first of some things for which `test` gives the truth value `want`, with the result. -/
def firstOf (want : Bool) (test : α → Except EvalError EvalResult) :
    List α → Except EvalError (Option (α × EvalResult))
  | [] => .ok none
  | x :: xs =>
    match test x with
    | .error e => .error e
    | .ok r => if r.holds = want then .ok (some (x, r)) else firstOf want test xs

theorem evalFirst_eq_firstOf (fs : List Formula) :
    m.evalFirst want fs env = firstOf want (fun f => m.evaluate f env) fs := by
  induction fs with
  | nil => rfl
  | cons f fs ih =>
    cases hf : m.eval f env <;> simp only [evalFirst, firstOf, evaluate, hf, ih]

theorem search_eq_firstOf (test : Value → Except EvalError EvalResult) (vs : List Value) :
    search want test vs = firstOf want test vs := by
  induction vs with
  | nil => rfl
  | cons v vs ih =>
    cases hv : test v <;> simp only [search, firstOf, hv, ih]

/-- What is tested to the other truth value is passed over. -/
theorem firstOf_append_of_other (other : ∀ y ∈ xs, ∃ s, test y = .ok s ∧ s.holds = !want) :
    firstOf want test (xs ++ ys) = firstOf want test ys := by
  induction xs with
  | nil => rfl
  | cons x xs ih =>
    obtain ⟨⟨s, hx, hs⟩, other⟩ := List.forall_mem_cons.1 other
    simp only [List.cons_append, firstOf, hx, Bool.eq_not.1 hs, if_false]
    exact ih other

/-- **A search ends at a cut.**  Either nothing is found, as everything is tested to the other truth
value, or everything before what settles the search is. -/
theorem firstOf_cases (want : Bool) (test : α → Except EvalError EvalResult) (xs : List α) :
    (firstOf want test xs = .ok none ∧ ∀ y ∈ xs, ∃ s, test y = .ok s ∧ s.holds = !want) ∨
      ∃ pre x post, xs = pre ++ x :: post ∧ (∀ y ∈ pre, ∃ s, test y = .ok s ∧ s.holds = !want) ∧
        ((∃ e, test x = .error e ∧ firstOf want test xs = .error e) ∨
          ∃ r, test x = .ok r ∧ r.holds = want ∧ firstOf want test xs = .ok (some (x, r))) := by
  induction xs with
  | nil => exact .inl ⟨rfl, List.forall_mem_nil _⟩
  | cons x xs ih =>
    cases hx : test x with
    | error e =>
      exact .inr ⟨[], x, xs, rfl, List.forall_mem_nil _, .inl ⟨e, hx, by simp only [firstOf, hx]⟩⟩
    | ok r =>
      by_cases hr : r.holds = want
      · refine .inr ⟨[], x, xs, rfl, List.forall_mem_nil _, .inr ⟨r, hx, hr, ?_⟩⟩
        simp only [firstOf, hx, hr, if_true]
      · have hother : ∃ s, test x = .ok s ∧ s.holds = !want := ⟨r, hx, Bool.eq_not.2 hr⟩
        have hpass : firstOf want test (x :: xs) = firstOf want test xs := by
          simp only [firstOf, hx, hr, if_false]
        rw [hpass]
        obtain ⟨hnone, hall⟩ | ⟨pre, y, post, rfl, hpre, hend⟩ := ih
        · exact .inl ⟨hnone, List.forall_mem_cons.2 ⟨hother, hall⟩⟩
        · exact .inr ⟨x :: pre, y, post, rfl, List.forall_mem_cons.2 ⟨hother, hpre⟩, hend⟩

/-- What is found has the truth value that is wanted, and nothing before it has. -/
theorem firstOf_eq_some_iff :
    firstOf want test xs = .ok (some (x, r)) ↔
      ∃ pre post, xs = pre ++ x :: post ∧ (∀ y ∈ pre, ∃ s, test y = .ok s ∧ s.holds = !want) ∧
        test x = .ok r ∧ r.holds = want := by
  constructor
  · intro h
    obtain ⟨hnone, -⟩ | ⟨pre, y, post, rfl, hpre, hend⟩ := firstOf_cases want test xs
    · simp [hnone] at h
    · obtain ⟨e, -, herror⟩ | ⟨s, hy, hs, hsome⟩ := hend
      · simp [herror] at h
      · simp only [hsome, Except.ok.injEq, Option.some.injEq, Prod.mk.injEq] at h
        obtain ⟨rfl, rfl⟩ := h
        exact ⟨pre, post, rfl, hpre, hy, hs⟩
  · rintro ⟨pre, post, rfl, hpre, hx, hr⟩
    rw [firstOf_append_of_other hpre]
    simp only [firstOf, hx, hr, if_true]

/-- A search ends in error at the first thing in error, if nothing before it is what is wanted. -/
theorem firstOf_eq_error_iff :
    firstOf want test xs = .error e ↔
      ∃ pre x post, xs = pre ++ x :: post ∧ (∀ y ∈ pre, ∃ s, test y = .ok s ∧ s.holds = !want) ∧
        test x = .error e := by
  constructor
  · intro h
    obtain ⟨hnone, -⟩ | ⟨pre, y, post, rfl, hpre, hend⟩ := firstOf_cases want test xs
    · simp [hnone] at h
    · obtain ⟨e', hy, herror⟩ | ⟨s, -, -, hsome⟩ := hend
      · rw [herror, Except.error.injEq] at h
        exact ⟨pre, y, post, rfl, hpre, h ▸ hy⟩
      · simp [hsome] at h
  · rintro ⟨pre, x, post, rfl, hpre, hx⟩
    rw [firstOf_append_of_other hpre]
    simp only [firstOf, hx]

/-- Where tests give the same truth values, a search ends in the same way. -/
theorem firstOf_map_congr (want : Bool) {test' : α → Except EvalError EvalResult}
    (same : ∀ x ∈ xs, (test x).map EvalResult.holds = (test' x).map EvalResult.holds) :
    (firstOf want test xs).map Option.isNone = (firstOf want test' xs).map Option.isNone := by
  induction xs with
  | nil => rfl
  | cons x xs ih =>
    obtain ⟨hx, same⟩ := List.forall_mem_cons.1 same
    rw [firstOf, firstOf]
    cases h : test x with
    | error e => cases h' : test' x <;> simp_all [Except.map]
    | ok r =>
      cases h' : test' x with
      | error e => simp [h, h', Except.map] at hx
      | ok r' =>
        have hholds : r.holds = r'.holds := by simpa [h, h', Except.map] using hx
        by_cases hr : r'.holds = want
        · simp [hholds, hr, Except.map]
        · simpa [hholds, hr] using ih same

end Search

/-! ### Verdicts -/

/-- The truth value of a formula, or why it has none. -/
def verdict (m : Setting) (f : Formula) (env : Bindings) : Except EvalError Bool :=
  (m.evaluate f env).map EvalResult.holds

theorem verdict_eq_ok_iff {f : Formula} {b : Bool} :
    m.verdict f env = .ok b ↔ m.Yields env f b := by
  unfold verdict Yields
  cases m.evaluate f env <;> simp [Except.map]

theorem verdict_eq_error_iff {f : Formula} :
    m.verdict f env = .error e ↔ m.evaluate f env = .error e := by
  unfold verdict
  cases m.evaluate f env <;> simp [Except.map]

theorem verdict_of_atom {f : Formula} {x : Except EvalError Bool}
    (hf : m.evaluate f env =
      match x with
      | .error e => .error e
      | .ok c => .ok (atomResult env f c)) :
    m.verdict f env = x := by
  unfold verdict
  rw [hf]
  cases x <;> rfl

theorem verdict_pred {name : String} {args : List Term} :
    m.verdict (.pred name args) env = m.application env name args :=
  verdict_of_atom (by cases h : m.application env name args <;> simp only [evaluate, eval, h])

theorem verdict_member {element : Term} {domain : String} {negated : Bool} :
    m.verdict (.member element domain negated) env = m.membership env element domain negated :=
  verdict_of_atom (by
    cases h : m.membership env element domain negated <;> simp only [evaluate, eval, h])

theorem verdict_not (f : Formula) : m.verdict (.not f) env = (m.verdict f env).map not := by
  unfold verdict
  rw [evaluate, eval, evaluate]
  cases m.eval f env with
  | error e => rfl
  | ok r => cases hr : r.holds <;> simp [Except.map, hr]

/-- A conjunction or a disjunction has the value that does not settle it if the search among its
operands finds nothing. -/
theorem verdict_junction (want : Bool) (fs : List Formula) :
    m.verdict (if want then .or fs else .and fs) env =
      ((firstOf want (fun f => m.evaluate f env) fs).map Option.isNone).map (· != want) := by
  rw [← evalFirst_eq_firstOf]
  cases h : m.evalFirst want fs env with
  | error e => cases want <;> simp [verdict, evaluate, eval, h, Except.map]
  | ok found =>
    cases found with
    | none => cases want <;> simp [verdict, evaluate, eval, h, Except.map]
    | some p =>
      obtain ⟨-, -, hp⟩ := mem_of_evalFirst h
      cases want <;> simp [verdict, evaluate, eval, h, hp, Except.map]

theorem verdict_junction_congr (want : Bool) {fs : List Formula} {env' : Bindings}
    (same : ∀ f ∈ fs, m.verdict f env = m.verdict f env') :
    m.verdict (if want then .or fs else .and fs) env =
      m.verdict (if want then .or fs else .and fs) env' := by
  rw [verdict_junction, verdict_junction, firstOf_map_congr want same]

theorem verdict_implies (f g : Formula) :
    m.verdict (.implies f g) env =
      match m.verdict f env with
      | .error e => .error e
      | .ok true => m.verdict g env
      | .ok false => .ok true := by
  unfold verdict
  rw [evaluate, eval, evaluate, evaluate]
  cases m.eval f env with
  | error e => rfl
  | ok r =>
    cases hr : r.holds with
    | false => simp [Except.map, hr]
    | true =>
      cases m.eval g env with
      | error e => simp [Except.map, hr]
      | ok s => cases hs : s.holds <;> simp [Except.map, hr, hs]

/-- A quantified formula has the value that does not settle it if the search in its domain finds
nothing. -/
theorem verdict_quantifier (want : Bool) (v d : String) (f : Formula) :
    m.verdict (if want then .any v d f else .all v d f) env =
      match m.members d with
      | .error e => .error e
      | .ok vs =>
        ((firstOf want (fun x => m.evaluate f (env ++ [(v, x)])) vs).map Option.isNone).map
          (· != want) := by
  simp only [← search_eq_firstOf, evaluate]
  cases hvs : m.members d with
  | error e => cases want <;> simp [verdict, evaluate, eval, hvs, Except.map]
  | ok vs =>
    cases h : search want (fun x => m.eval f (env ++ [(v, x)])) vs with
    | error e => cases want <;> simp [verdict, evaluate, eval, hvs, h, Except.map]
    | ok found =>
      cases found <;> cases want <;> simp [verdict, evaluate, eval, hvs, h, Except.map]

theorem verdict_quantifier_congr (want : Bool) {v d : String} {f : Formula} {env' : Bindings}
    (same : ∀ x, m.verdict f (env ++ [(v, x)]) = m.verdict f (env' ++ [(v, x)])) :
    m.verdict (if want then .any v d f else .all v d f) env =
      m.verdict (if want then .any v d f else .all v d f) env' := by
  rw [verdict_quantifier, verdict_quantifier]
  cases m.members d with
  | error e => rfl
  | ok vs => simp only [firstOf_map_congr want fun x _ => same x]

/-- **Equal variables, equal verdicts**: of the bindings, only the value of each variable counts. -/
theorem verdict_congr (f : Formula) {env env' : Bindings} (h : env.find? = env'.find?) :
    m.verdict f env = m.verdict f env' := by
  induction f generalizing env env' with
  | truth b | bare text => rfl
  | pred name args => rw [verdict_pred, verdict_pred, application_congr h]
  | member element domain negated => rw [verdict_member, verdict_member, membership_congr h]
  | not f ih => rw [verdict_not, verdict_not, ih h]
  | and fs ih => exact verdict_junction_congr false fun f hf => ih f hf h
  | or fs ih => exact verdict_junction_congr true fun f hf => ih f hf h
  | implies f g ihf ihg => rw [verdict_implies, verdict_implies, ihf h, ihg h]
  | all v d f ih => exact verdict_quantifier_congr false fun x => ih (Bindings.concat_congr h v x)
  | any v d f ih => exact verdict_quantifier_congr true fun x => ih (Bindings.concat_congr h v x)

theorem yields_congr {f : Formula} {b : Bool} {env' : Bindings} (h : env.find? = env'.find?) :
    m.Yields env f b ↔ m.Yields env' f b := by
  rw [← verdict_eq_ok_iff, ← verdict_eq_ok_iff, verdict_congr f h]

/-- The verdict on a row of formulas: they are all true, or the first one that is not decides. -/
def verdictOfRow (m : Setting) (fs : List Formula) (env : Bindings) : Except EvalError Bool :=
  (firstOf false (fun f => m.evaluate f env) fs).map Option.isNone

@[simp] theorem verdictOfRow_nil : m.verdictOfRow [] env = .ok true := rfl

theorem verdictOfRow_cons (f : Formula) (fs : List Formula) :
    m.verdictOfRow (f :: fs) env =
      match m.verdict f env with
      | .error e => .error e
      | .ok true => m.verdictOfRow fs env
      | .ok false => .ok false := by
  unfold verdictOfRow verdict
  rw [firstOf]
  cases m.evaluate f env with
  | error e => rfl
  | ok r => cases hr : r.holds <;> simp [Except.map, hr]

theorem verdictOfRow_append (fs gs : List Formula) :
    m.verdictOfRow (fs ++ gs) env =
      match m.verdictOfRow fs env with
      | .error e => .error e
      | .ok true => m.verdictOfRow gs env
      | .ok false => .ok false := by
  induction fs with
  | nil => simp
  | cons f fs ih =>
    rw [List.cons_append, verdictOfRow_cons, verdictOfRow_cons, ih]
    cases m.verdict f env with
    | error e => rfl
    | ok b => cases b <;> rfl

theorem verdict_and (fs : List Formula) : m.verdict (.and fs) env = m.verdictOfRow fs env := by
  rw [show m.verdict (.and fs) env = _ from verdict_junction false fs, verdictOfRow]
  cases firstOf false (fun f => m.evaluate f env) fs <;> simp [Except.map]

mutual

/-- **A formula is judged like the row of its conjuncts**, however they are nested. -/
theorem verdict_eq_conjuncts :
    ∀ f : Formula, m.verdict f env = m.verdictOfRow f.conjuncts env
  | .and fs => by rw [verdict_and, Formula.conjuncts, verdictOfRow_conjunctsOf fs]
  | .truth _ | .pred .. | .member .. | .not _ | .or _ | .implies .. | .all .. | .any ..
  | .bare _ => by
    rw [Formula.conjuncts, verdictOfRow_cons, verdictOfRow_nil]
    · split <;> simp [*]
    · simp

theorem verdictOfRow_conjunctsOf :
    ∀ fs : List Formula, m.verdictOfRow fs env = m.verdictOfRow (Formula.conjunctsOf fs) env
  | [] => rfl
  | f :: fs => by
    rw [Formula.conjunctsOf, verdictOfRow_append, verdictOfRow_cons, verdict_eq_conjuncts f,
      verdictOfRow_conjunctsOf fs]

end

/-- A row of formulas is judged false exactly if the first one that is not true is false. -/
theorem verdictOfRow_eq_false_iff {fs : List Formula} :
    m.verdictOfRow fs env = .ok false ↔
      ∃ pre f post, fs = pre ++ f :: post ∧ (∀ g ∈ pre, m.Yields env g true) ∧
        m.Yields env f false := by
  have hfound : m.verdictOfRow fs env = .ok false ↔
      ∃ f r, firstOf false (fun f => m.evaluate f env) fs = .ok (some (f, r)) := by
    unfold verdictOfRow
    cases firstOf false (fun f => m.evaluate f env) fs with
    | error e => simp [Except.map]
    | ok found =>
      cases found with
      | none => simp [Except.map]
      | some p => exact iff_of_true rfl ⟨p.1, p.2, rfl⟩
  rw [hfound]
  constructor
  · rintro ⟨f, r, h⟩
    obtain ⟨pre, post, hcut, hpre, hf, hr⟩ := firstOf_eq_some_iff.1 h
    exact ⟨pre, f, post, hcut, hpre, r, hf, hr⟩
  · rintro ⟨pre, f, post, hcut, hpre, r, hf, hr⟩
    exact ⟨f, r, firstOf_eq_some_iff.2 ⟨pre, post, hcut, hpre, hf, hr⟩⟩

theorem verdictOfRow_eq_error_iff {fs : List Formula} :
    m.verdictOfRow fs env = .error e ↔
      ∃ pre f post, fs = pre ++ f :: post ∧ (∀ g ∈ pre, m.Yields env g true) ∧
        m.evaluate f env = .error e := by
  have hraised : m.verdictOfRow fs env = .error e ↔
      firstOf false (fun f => m.evaluate f env) fs = .error e := by
    unfold verdictOfRow
    cases firstOf false (fun f => m.evaluate f env) fs <;> simp [Except.map]
  rw [hraised, firstOf_eq_error_iff]
  rfl

/-- A formula is false exactly if the first of its conjuncts that is not true is false. -/
theorem yields_false_iff {f : Formula} :
    m.Yields env f false ↔
      ∃ pre c post, f.conjuncts = pre ++ c :: post ∧ (∀ g ∈ pre, m.Yields env g true) ∧
        m.Yields env c false := by
  rw [← verdict_eq_ok_iff, verdict_eq_conjuncts, verdictOfRow_eq_false_iff]

/-- A formula is in error exactly if the first of its conjuncts that is not true is in error. -/
theorem evaluate_eq_error_iff {f : Formula} :
    m.evaluate f env = .error e ↔
      ∃ pre c post, f.conjuncts = pre ++ c :: post ∧ (∀ g ∈ pre, m.Yields env g true) ∧
        m.evaluate c env = .error e := by
  rw [← verdict_eq_error_iff, verdict_eq_conjuncts, verdictOfRow_eq_error_iff]

end Setting

end ChangeControl
