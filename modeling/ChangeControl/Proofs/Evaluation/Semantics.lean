import ChangeControl.Proofs.Evaluation.Truth
import Mathlib.Logic.Function.Basic
/-!
Evaluation and truth.

An *interpretation* says of every atom whether it holds, also of those that cannot be evaluated, and
what every domain ranges over, also one that is not known.  Under an interpretation a formula has a
truth value in the sense of Tarski.  Evaluation leaves operands out once the value is settled, and
it ends at the first atom at fault; what it gives is nevertheless the truth value under *every*
interpretation that respects what can be evaluated.  Whatever was left out had no say in it.

The *instances* of a formula are its subformulas under the bindings that its quantifiers give them.
An error of the whole is an error of one of them.

Main definitions:

* `Interpretation`, `Interpretation.Holds` — interpretations, and truth under one of them;
* `Interpretation.Agrees` — the interpretation respects what can be evaluated;
* `Setting.Reaches` — the instances of a formula;
* `Setting.Raises` — the errors that an instance meets in itself.

Main results:

* `Interpretation.Agrees.holds_iff` — **what is evaluated is true**;
* `Setting.exists_raises_of_error` — **what is in error has an instance at fault**;
* `Setting.standard_agrees` — there is an interpretation that respects what can be evaluated;
* `Setting.evaluate_decides_truth` — evaluation computes truth, and gives a result unless an
  instance is at fault.
-/

set_option autoImplicit false

namespace ChangeControl

open Rule (Term Formula)

/-! ### Interpretations -/

/-- What each variable stands for, if it is bound. -/
abbrev Assignment := String → Option Value

/-- What atoms and domains mean, whether or not they can be evaluated. -/
structure Interpretation where
  /-- Whether a predicate holds of some terms. -/
  pred : String → List Term → Assignment → Bool
  /-- Whether a term is in a domain. -/
  member : Term → String → Assignment → Bool
  domain : String → List Value
  /-- What a text in the place of a formula says. -/
  bare : String → Bool

namespace Interpretation

mutual

/-- The truth of a formula under an interpretation. -/
def Holds (I : Interpretation) : Formula → Assignment → Prop
  | .truth b, _ => b = true
  | .pred name args, σ => I.pred name args σ = true
  | .member element domain false, σ => I.member element domain σ = true
  | .member element domain true, σ => ¬ I.member element domain σ = true
  | .not f, σ => ¬ I.Holds f σ
  | .and fs, σ => I.AllHold fs σ
  | .or fs, σ => I.SomeHolds fs σ
  | .implies f g, σ => ¬ I.Holds f σ ∨ I.Holds g σ
  | .all v d f, σ => ∀ x ∈ I.domain d, I.Holds f (Function.update σ v (some x))
  | .any v d f, σ => ∃ x ∈ I.domain d, I.Holds f (Function.update σ v (some x))
  | .bare text, _ => I.bare text = true

/-- All of some formulas hold. -/
def AllHold (I : Interpretation) : List Formula → Assignment → Prop
  | [], _ => True
  | f :: fs, σ => I.Holds f σ ∧ I.AllHold fs σ

/-- One of some formulas holds. -/
def SomeHolds (I : Interpretation) : List Formula → Assignment → Prop
  | [], _ => False
  | f :: fs, σ => I.Holds f σ ∨ I.SomeHolds fs σ

end

variable {I : Interpretation} {σ : Assignment}

theorem allHold_iff {fs : List Formula} : I.AllHold fs σ ↔ ∀ f ∈ fs, I.Holds f σ := by
  induction fs with
  | nil => simp [AllHold]
  | cons f fs ih => rw [AllHold, ih, List.forall_mem_cons]

theorem someHolds_iff {fs : List Formula} : I.SomeHolds fs σ ↔ ∃ f ∈ fs, I.Holds f σ := by
  induction fs with
  | nil => simp [SomeHolds]
  | cons f fs ih => simp [SomeHolds, ih]

theorem holds_member_iff {element : Term} {domain : String} {negated : Bool} :
    I.Holds (.member element domain negated) σ ↔ (I.member element domain σ != negated) = true := by
  cases negated <;> simp [Holds]

end Interpretation

/-- The interpretation says what evaluation says of every atom and every domain that can be
evaluated.  A negated membership test is the negation of the plain one. -/
structure Interpretation.Agrees (I : Interpretation) (m : Setting) : Prop where
  pred : ∀ {env : Bindings} {name : String} {args : List Term} {b : Bool},
    m.application env name args = .ok b → I.pred name args env.find? = b
  member : ∀ {env : Bindings} {element : Term} {domain : String} {b : Bool},
    m.membership env element domain false = .ok b → I.member element domain env.find? = b
  domain : ∀ {name : String} {vs : List Value}, m.members name = .ok vs → I.domain name = vs

/-! ### Bindings -/

/-- The innermost binding of a variable wins. -/
theorem Bindings.find?_concat (env : Bindings) (v : String) (x : Value) :
    Bindings.find? (env ++ [(v, x)]) = Function.update env.find? v (some x) := by
  funext name
  rw [find?, List.reverse_append, List.reverse_singleton, List.singleton_append, List.find?_cons]
  by_cases h : v = name
  · subst h
    simp
  · rw [Function.update_of_ne (Ne.symm h), beq_false_of_ne h, find?]

namespace Setting

variable {m : Setting} {env env' : Bindings} {f g : Formula} {fs : List Formula} {b : Bool}

/-! ### What a result was made of -/

/-- What was found among some formulas is one of them. -/
theorem mem_of_evalFirst {want : Bool} {r : EvalResult}
    (h : m.evalFirst want fs env = .ok (some (f, r))) :
    f ∈ fs ∧ m.eval f env = .ok r ∧ r.holds = want := by
  induction fs with
  | nil => cases h
  | cons g fs ih =>
    rw [evalFirst] at h
    cases hg : m.eval g env with
    | error e => simp [hg] at h
    | ok s =>
      by_cases hs : s.holds = want
      · simp only [hg, hs, if_true, Except.ok.injEq, Option.some.injEq, Prod.mk.injEq] at h
        obtain ⟨rfl, rfl⟩ := h
        exact ⟨List.mem_cons_self, hg, hs⟩
      · simp only [hg, hs, if_false] at h
        exact ⟨List.mem_cons_of_mem _ (ih h).1, (ih h).2⟩

/-- What was found among some values is one of them. -/
theorem mem_of_search {want : Bool} {test : Value → Except EvalError EvalResult}
    {vs : List Value} {x : Value} {r : EvalResult} (h : search want test vs = .ok (some (x, r))) :
    x ∈ vs ∧ test x = .ok r ∧ r.holds = want := by
  induction vs with
  | nil => cases h
  | cons v vs ih =>
    rw [search] at h
    cases hv : test v with
    | error e => simp [hv] at h
    | ok s =>
      by_cases hs : s.holds = want
      · simp only [hv, hs, if_true, Except.ok.injEq, Option.some.injEq, Prod.mk.injEq] at h
        obtain ⟨rfl, rfl⟩ := h
        exact ⟨List.mem_cons_self, hv, hs⟩
      · simp only [hv, hs, if_false] at h
        exact ⟨List.mem_cons_of_mem _ (ih h).1, (ih h).2⟩

theorem yields_truth_iff {c : Bool} : m.Yields env (.truth c) b ↔ c = b := by
  simp [Yields, evaluate, eval, atomResult]

theorem value_eq_ok_iff_of_place {place place' : Formula} {t : Term} {v : Value} :
    m.value env place t = .ok v ↔ m.value env place' t = .ok v := by
  cases t with
  | var name => cases h : env.find? name <;> simp [value, h]
  | domain name => simp only [value]
  | state name | literal s => simp only [value]
  | bare text => simp [value]

/-- A negated membership test is the negation of the plain one. -/
theorem membership_of_negated {element : Term} {domain : String} {negated : Bool}
    (h : m.membership env element domain negated = .ok b) :
    m.membership env element domain false = .ok (b != negated) := by
  unfold membership at h ⊢
  cases hvs : m.members domain with
  | error e => simp [hvs] at h
  | ok vs =>
    cases hv : m.value env (.member element domain negated) element with
    | error e => simp [hvs, hv] at h
    | ok v =>
      simp only [hvs, hv, Except.ok.injEq] at h
      simp only [value_eq_ok_iff_of_place.1 hv, ← h]
      cases negated <;> simp

/-- The value of a disjunction or a conjunction, by the truth value that settles it, and the
operands that it comes from. -/
theorem Yields.of_junction (want : Bool)
    (h : m.Yields env (if want then .or fs else .and fs) b) :
    (b = !want ∧ ∀ f ∈ fs, m.Yields env f (!want)) ∨
      (b = want ∧ ∃ f ∈ fs, m.Yields env f want) := by
  obtain ⟨r, hr, rfl⟩ := h
  -- the search ends at the first operand that settles the value, or has gone through all of them
  cases hfound : m.evalFirst want fs env with
  | error e => cases want <;> simp [evaluate, eval, hfound] at hr
  | ok found =>
    cases found with
    | none =>
      refine .inl ⟨?_, evalFirst_eq_none_iff.1 hfound⟩
      cases want <;>
        simp only [evaluate, Bool.false_eq_true, if_true, if_false, eval, hfound,
          Except.ok.injEq] at hr <;>
        simp [← hr]
    | some p =>
      obtain ⟨hmem, heval, hholds⟩ := mem_of_evalFirst hfound
      refine .inr ⟨?_, p.1, hmem, p.2, heval, hholds⟩
      cases want <;>
        simp only [evaluate, Bool.false_eq_true, if_true, if_false, eval, hfound,
          Except.ok.injEq] at hr <;>
        simp [← hr, hholds]

theorem Yields.of_and (h : m.Yields env (.and fs) b) :
    (b = true ∧ ∀ f ∈ fs, m.Yields env f true) ∨ (b = false ∧ ∃ f ∈ fs, m.Yields env f false) :=
  of_junction false h

theorem Yields.of_or (h : m.Yields env (.or fs) b) :
    (b = false ∧ ∀ f ∈ fs, m.Yields env f false) ∨ (b = true ∧ ∃ f ∈ fs, m.Yields env f true) :=
  of_junction true h

theorem Yields.of_implies (h : m.Yields env (.implies f g) b) :
    (b = true ∧ m.Yields env f false) ∨ (m.Yields env f true ∧ m.Yields env g b) := by
  obtain ⟨r, hr, rfl⟩ := h
  rw [evaluate, eval] at hr
  cases hf : m.eval f env with
  | error e => simp [hf] at hr
  | ok s =>
    cases hs : s.holds with
    | false =>
      simp only [hf, hs, Bool.false_eq_true, if_false, Except.ok.injEq] at hr
      exact .inl ⟨by rw [← hr], s, hf, hs⟩
    | true =>
      cases hg : m.eval g env with
      | error e => simp [hf, hs, hg] at hr
      | ok t =>
        -- the value is that of the consequent in either case
        have hvalue : r.holds = t.holds := by
          cases ht : t.holds <;> simp only [hf, hs, hg, ht, if_true, Bool.false_eq_true, if_false,
            Except.ok.injEq] at hr <;> simp [← hr, ht]
        exact .inr ⟨⟨s, hf, hs⟩, t, hg, hvalue.symm⟩

/-- The value of a quantified formula, by the truth value that settles it, and the members of its
domain that it comes from. -/
theorem Yields.of_quantifier (want : Bool) {v d : String}
    (h : m.Yields env (if want then .any v d f else .all v d f) b) :
    ∃ vs, m.members d = .ok vs ∧
      ((b = !want ∧ ∀ x ∈ vs, m.Yields (env ++ [(v, x)]) f (!want)) ∨
        (b = want ∧ ∃ x ∈ vs, m.Yields (env ++ [(v, x)]) f want)) := by
  obtain ⟨r, hr, rfl⟩ := h
  cases hvs : m.members d with
  | error e => cases want <;> simp [evaluate, eval, hvs] at hr
  | ok vs =>
    refine ⟨vs, rfl, ?_⟩
    cases hfound : search want (fun x => m.eval f (env ++ [(v, x)])) vs with
    | error e => cases want <;> simp [evaluate, eval, hvs, hfound] at hr
    | ok found =>
      cases found with
      | none =>
        refine .inl ⟨?_, (search_eq_none_iff want _ vs).1 hfound⟩
        cases want <;>
          simp only [evaluate, Bool.false_eq_true, if_true, if_false, eval, hvs, hfound,
            Except.ok.injEq] at hr <;>
          simp [← hr]
      | some p =>
        obtain ⟨hmem, htest, hholds⟩ := mem_of_search hfound
        refine .inr ⟨?_, p.1, hmem, p.2, htest, hholds⟩
        cases want <;>
          simp only [evaluate, Bool.false_eq_true, if_true, if_false, eval, hvs, hfound,
            Except.ok.injEq] at hr <;>
          simp [← hr]

theorem Yields.of_all {v d : String} (h : m.Yields env (.all v d f) b) :
    ∃ vs, m.members d = .ok vs ∧
      ((b = true ∧ ∀ x ∈ vs, m.Yields (env ++ [(v, x)]) f true) ∨
        (b = false ∧ ∃ x ∈ vs, m.Yields (env ++ [(v, x)]) f false)) :=
  of_quantifier false h

theorem Yields.of_any {v d : String} (h : m.Yields env (.any v d f) b) :
    ∃ vs, m.members d = .ok vs ∧
      ((b = false ∧ ∀ x ∈ vs, m.Yields (env ++ [(v, x)]) f false) ∨
        (b = true ∧ ∃ x ∈ vs, m.Yields (env ++ [(v, x)]) f true)) :=
  of_quantifier true h

end Setting

/-! ### What is evaluated is true -/

/-- **What is evaluated is true**, and what is evaluated to false is false, under every
interpretation that respects what can be evaluated. -/
theorem Interpretation.Agrees.holds_iff {I : Interpretation} {m : Setting} (agrees : I.Agrees m)
    (f : Formula) {env : Bindings} {b : Bool} (h : m.Yields env f b) :
    I.Holds f env.find? ↔ b = true := by
  induction f generalizing env b with
  | truth c =>
    rw [Holds, Setting.yields_truth_iff.1 h]
  | pred name args =>
    rw [Holds, agrees.pred (Setting.yields_pred_iff.1 h)]
  | member element domain negated =>
    have hplain := Setting.membership_of_negated (Setting.yields_member_iff.1 h)
    rw [holds_member_iff, agrees.member hplain]
    cases negated <;> simp
  | not f ih =>
    rw [Holds, ih (Setting.yields_not_iff.1 h)]
    cases b <;> simp
  | and fs ih =>
    rw [Holds, allHold_iff]
    obtain ⟨rfl, hall⟩ | ⟨rfl, f, hf, hfalse⟩ := h.of_and
    · exact iff_of_true (fun f hf => (ih f hf (hall f hf)).2 rfl) rfl
    · refine iff_of_false (fun hall => ?_) Bool.false_ne_true
      exact absurd ((ih f hf hfalse).1 (hall f hf)) Bool.false_ne_true
  | or fs ih =>
    rw [Holds, someHolds_iff]
    obtain ⟨rfl, hall⟩ | ⟨rfl, f, hf, htrue⟩ := h.of_or
    · refine iff_of_false (fun ⟨f, hf, hholds⟩ => ?_) Bool.false_ne_true
      exact absurd ((ih f hf (hall f hf)).1 hholds) Bool.false_ne_true
    · exact iff_of_true ⟨f, hf, (ih f hf htrue).2 rfl⟩ rfl
  | implies f g ihf ihg =>
    rw [Holds]
    obtain ⟨rfl, hfalse⟩ | ⟨htrue, hg⟩ := h.of_implies
    · exact iff_of_true (.inl fun hholds => absurd ((ihf hfalse).1 hholds) Bool.false_ne_true) rfl
    · rw [ihg hg]
      exact or_iff_right (not_not_intro ((ihf htrue).2 rfl))
  | all v d f ih =>
    obtain ⟨vs, hvs, hvalue⟩ := h.of_all
    simp only [Holds, agrees.domain hvs, ← Bindings.find?_concat]
    obtain ⟨rfl, hall⟩ | ⟨rfl, x, hx, hfalse⟩ := hvalue
    · exact iff_of_true (fun x hx => (ih (hall x hx)).2 rfl) rfl
    · refine iff_of_false (fun hall => ?_) Bool.false_ne_true
      exact absurd ((ih hfalse).1 (hall x hx)) Bool.false_ne_true
  | any v d f ih =>
    obtain ⟨vs, hvs, hvalue⟩ := h.of_any
    simp only [Holds, agrees.domain hvs, ← Bindings.find?_concat]
    obtain ⟨rfl, hall⟩ | ⟨rfl, x, hx, htrue⟩ := hvalue
    · refine iff_of_false (fun ⟨x, hx, hholds⟩ => ?_) Bool.false_ne_true
      exact absurd ((ih (hall x hx)).1 hholds) Bool.false_ne_true
    · exact iff_of_true ⟨x, hx, (ih htrue).2 rfl⟩ rfl
  | bare text =>
    obtain ⟨r, hr, -⟩ := h
    cases hr

namespace Setting

variable {m : Setting} {env env' : Bindings} {f g : Formula} {fs : List Formula} {e : EvalError}

/-! ### There is such an interpretation -/

section Congruence

variable (h : env.find? = env'.find?)

include h

theorem value_congr {place : Formula} {t : Term} : m.value env place t = m.value env' place t := by
  cases t <;> simp only [value, h]

theorem values_congr {place : Formula} {ts : List Term} :
    m.values env place ts = m.values env' place ts := by
  induction ts with
  | nil => rfl
  | cons t ts ih => rw [values, values, value_congr h, ih]

theorem application_congr {name : String} {args : List Term} :
    m.application env name args = m.application env' name args := by
  simp only [application, values_congr h]

theorem membership_congr {element : Term} {domain : String} {negated : Bool} :
    m.membership env element domain negated = m.membership env' element domain negated := by
  simp only [membership, value_congr h]

end Congruence

open Classical in
/-- The interpretation under which whatever cannot be evaluated does not hold, and an unknown domain
is empty. -/
noncomputable def standard (m : Setting) : Interpretation where
  pred name args σ :=
    decide (∃ env : Bindings, env.find? = σ ∧ m.application env name args = .ok true)
  member element domain σ :=
    decide (∃ env : Bindings, env.find? = σ ∧ m.membership env element domain false = .ok true)
  domain name := (m.members name).toOption.getD []
  bare _ := false

open Classical in
theorem standard_agrees (m : Setting) : m.standard.Agrees m where
  pred {env name args b} h := by
    cases b with
    | true => exact decide_eq_true ⟨env, rfl, h⟩
    | false =>
      refine decide_eq_false ?_
      rintro ⟨env', same, htrue⟩
      rw [application_congr same, h] at htrue
      cases htrue
  member {env element domain b} h := by
    cases b with
    | true => exact decide_eq_true ⟨env, rfl, h⟩
    | false =>
      refine decide_eq_false ?_
      rintro ⟨env', same, htrue⟩
      rw [membership_congr same, h] at htrue
      cases htrue
  domain {name vs} h := by
    simp [standard, h, Except.toOption]

/-! ### Instances -/

/-- The instances of a formula under some bindings: its subformulas, under the bindings that the
quantifiers around them give. -/
inductive Reaches (m : Setting) : Formula → Bindings → Formula → Bindings → Prop
  | here (f : Formula) (env : Bindings) : Reaches m f env f env
  | not {f g : Formula} {env env' : Bindings} :
    Reaches m f env g env' → Reaches m (.not f) env g env'
  | and {fs : List Formula} {f g : Formula} {env env' : Bindings} :
    f ∈ fs → Reaches m f env g env' → Reaches m (.and fs) env g env'
  | or {fs : List Formula} {f g : Formula} {env env' : Bindings} :
    f ∈ fs → Reaches m f env g env' → Reaches m (.or fs) env g env'
  | antecedent {f f' g : Formula} {env env' : Bindings} :
    Reaches m f env g env' → Reaches m (.implies f f') env g env'
  | consequent {f f' g : Formula} {env env' : Bindings} :
    Reaches m f' env g env' → Reaches m (.implies f f') env g env'
  | all {v d : String} {vs : List Value} {x : Value} {f g : Formula} {env env' : Bindings} :
    m.members d = .ok vs → x ∈ vs → Reaches m f (env ++ [(v, x)]) g env' →
      Reaches m (.all v d f) env g env'
  | any {v d : String} {vs : List Value} {x : Value} {f g : Formula} {env env' : Bindings} :
    m.members d = .ok vs → x ∈ vs → Reaches m f (env ++ [(v, x)]) g env' →
      Reaches m (.any v d f) env g env'

/-- The formula is in error under the bindings, and none of its operands is the cause: it is an atom
that cannot be evaluated, or it ranges over an unknown domain. -/
inductive Raises (m : Setting) : Formula → Bindings → EvalError → Prop
  | pred {name : String} {args : List Term} {env : Bindings} {e : EvalError} :
    m.application env name args = .error e → Raises m (.pred name args) env e
  | member {element : Term} {domain : String} {negated : Bool} {env : Bindings} {e : EvalError} :
    m.membership env element domain negated = .error e →
      Raises m (.member element domain negated) env e
  | all {v d : String} {f : Formula} {env : Bindings} {e : EvalError} :
    m.members d = .error e → Raises m (.all v d f) env e
  | any {v d : String} {f : Formula} {env : Bindings} {e : EvalError} :
    m.members d = .error e → Raises m (.any v d f) env e
  | bare (text : String) (env : Bindings) : Raises m (.bare text) env (.notFormula text)

theorem exists_mem_of_evalFirst_error {want : Bool} (h : m.evalFirst want fs env = .error e) :
    ∃ f ∈ fs, m.eval f env = .error e := by
  induction fs with
  | nil => cases h
  | cons g fs ih =>
    rw [evalFirst] at h
    cases hg : m.eval g env with
    | error e' =>
      simp only [hg, Except.error.injEq] at h
      exact ⟨g, List.mem_cons_self, h ▸ hg⟩
    | ok r =>
      by_cases hr : r.holds = want
      · simp [hg, hr] at h
      · simp only [hg, hr, if_false] at h
        obtain ⟨f, hmem, hf⟩ := ih h
        exact ⟨f, List.mem_cons_of_mem _ hmem, hf⟩

theorem exists_mem_of_search_error {want : Bool} {test : Value → Except EvalError EvalResult}
    {vs : List Value} (h : search want test vs = .error e) : ∃ x ∈ vs, test x = .error e := by
  induction vs with
  | nil => cases h
  | cons v vs ih =>
    rw [search] at h
    cases hv : test v with
    | error e' =>
      simp only [hv, Except.error.injEq] at h
      exact ⟨v, List.mem_cons_self, h ▸ hv⟩
    | ok r =>
      by_cases hr : r.holds = want
      · simp [hv, hr] at h
      · simp only [hv, hr, if_false] at h
        obtain ⟨x, hmem, hx⟩ := ih h
        exact ⟨x, List.mem_cons_of_mem _ hmem, hx⟩

theorem exists_mem_of_junction_error (want : Bool)
    (h : m.eval (if want then .or fs else .and fs) env = .error e) :
    ∃ f ∈ fs, m.eval f env = .error e := by
  cases hfound : m.evalFirst want fs env with
  | ok found => cases want <;> cases found <;> simp [eval, hfound] at h
  | error e' =>
    obtain rfl : e' = e := by cases want <;> simpa [eval, hfound] using h
    exact exists_mem_of_evalFirst_error hfound

theorem members_or_mem_of_quantifier_error (want : Bool) {v d : String}
    (h : m.eval (if want then .any v d f else .all v d f) env = .error e) :
    m.members d = .error e ∨
      ∃ vs, m.members d = .ok vs ∧ ∃ x ∈ vs, m.eval f (env ++ [(v, x)]) = .error e := by
  cases hvs : m.members d with
  | error e' =>
    obtain rfl : e' = e := by cases want <;> simpa [eval, hvs] using h
    exact .inl rfl
  | ok vs =>
    cases hfound : search want (fun x => m.eval f (env ++ [(v, x)])) vs with
    | ok found => cases want <;> cases found <;> simp [eval, hvs, hfound] at h
    | error e' =>
      obtain rfl : e' = e := by cases want <;> simpa [eval, hvs, hfound] using h
      exact .inr ⟨vs, rfl, exists_mem_of_search_error hfound⟩

/-- **What is in error has an instance at fault**, with the same error. -/
theorem exists_raises_of_error (f : Formula) {env : Bindings} {e : EvalError}
    (h : m.eval f env = .error e) : ∃ g env', m.Reaches f env g env' ∧ m.Raises g env' e := by
  induction f generalizing env with
  | truth b => cases h
  | pred name args =>
    rw [eval] at h
    cases happ : m.application env name args with
    | ok b => simp [happ] at h
    | error e' =>
      simp only [happ, Except.error.injEq] at h
      exact ⟨_, _, .here _ _, .pred (h ▸ happ)⟩
  | member element domain negated =>
    rw [eval] at h
    cases hmem : m.membership env element domain negated with
    | ok b => simp [hmem] at h
    | error e' =>
      simp only [hmem, Except.error.injEq] at h
      exact ⟨_, _, .here _ _, .member (h ▸ hmem)⟩
  | not f ih =>
    rw [eval] at h
    cases hf : m.eval f env with
    | ok r => cases hr : r.holds <;> simp [hf, hr] at h
    | error e' =>
      simp only [hf, Except.error.injEq] at h
      obtain ⟨g, env', hreach, hraise⟩ := ih (h ▸ hf)
      exact ⟨g, env', .not hreach, hraise⟩
  | and fs ih =>
    obtain ⟨f, hmem, hf⟩ := exists_mem_of_junction_error false h
    obtain ⟨g, env', hreach, hraise⟩ := ih f hmem hf
    exact ⟨g, env', .and hmem hreach, hraise⟩
  | or fs ih =>
    obtain ⟨f, hmem, hf⟩ := exists_mem_of_junction_error true h
    obtain ⟨g, env', hreach, hraise⟩ := ih f hmem hf
    exact ⟨g, env', .or hmem hreach, hraise⟩
  | implies f f' ih ih' =>
    rw [eval] at h
    cases hf : m.eval f env with
    | error e' =>
      simp only [hf, Except.error.injEq] at h
      obtain ⟨g, env', hreach, hraise⟩ := ih (h ▸ hf)
      exact ⟨g, env', .antecedent hreach, hraise⟩
    | ok r =>
      cases hf' : m.eval f' env with
      | ok s => cases hr : r.holds <;> cases hs : s.holds <;> simp [hf, hr, hf', hs] at h
      | error e' =>
        cases hr : r.holds with
        | false => simp [hf, hr] at h
        | true =>
          simp only [hf, hr, if_true, hf', Except.error.injEq] at h
          obtain ⟨g, env', hreach, hraise⟩ := ih' (h ▸ hf')
          exact ⟨g, env', .consequent hreach, hraise⟩
  | all v d f ih =>
    obtain hunknown | ⟨vs, hvs, x, hx, hf⟩ := members_or_mem_of_quantifier_error false h
    · exact ⟨_, _, .here _ _, .all hunknown⟩
    · obtain ⟨g, env', hreach, hraise⟩ := ih hf
      exact ⟨g, env', .all hvs hx hreach, hraise⟩
  | any v d f ih =>
    obtain hunknown | ⟨vs, hvs, x, hx, hf⟩ := members_or_mem_of_quantifier_error true h
    · exact ⟨_, _, .here _ _, .any hunknown⟩
    · obtain ⟨g, env', hreach, hraise⟩ := ih hf
      exact ⟨g, env', .any hvs hx hreach, hraise⟩
  | bare text =>
    cases h
    exact ⟨_, _, .here _ _, .bare text env⟩

/-! ### Evaluation computes truth -/

/-- **Evaluation computes truth, and an error is never turned into a verdict.**  A result is the
truth value of the formula under every interpretation that respects what can be evaluated; and
unless one of its instances is at fault in itself, a formula has a result. -/
theorem evaluate_decides_truth (m : Setting) (f : Formula) (env : Bindings) :
    (∀ I : Interpretation, I.Agrees m → ∀ r, m.evaluate f env = .ok r →
      (r.holds = true ↔ I.Holds f env.find?)) ∧
    ((∀ g env' e, m.Reaches f env g env' → ¬ m.Raises g env' e) →
      ∃ r, m.evaluate f env = .ok r) := by
  constructor
  · intro I agrees r hr
    exact (agrees.holds_iff f ⟨r, hr, rfl⟩).symm
  · intro sane
    cases h : m.evaluate f env with
    | ok r => exact ⟨r, rfl⟩
    | error e =>
      obtain ⟨g, env', hreach, hraise⟩ := exists_raises_of_error f h
      exact absurd hraise (sane g env' e hreach)

/-- A project with one task, which is completed, and all predicates. -/
def oneTask : Setting where
  project := ⟨"Plan", [⟨"T1", .backlog, true, false⟩], [], by decide, by decide⟩
  states := ["Plan"]
  vocabulary := .full

/-- Some task is completed. -/
def someCompleted : Formula := .any "task" "tasks" (.pred "completed" [.var "task"])

/-- No instance of that formula is at fault, so that it has a result; and by that alone its
disjunction with an atom that cannot be evaluated is true. -/
theorem evaluate_decides_truth_oneTask :
    (∃ r, oneTask.evaluate someCompleted [] = .ok r) ∧
      oneTask.standard.Holds (.or [someCompleted, .pred "finished" []]) (Bindings.find? []) := by
  have members : oneTask.members "tasks" = .ok [.task ⟨"T1", .backlog, true, false⟩] := by
    simp [Setting.members, Domain.ofName?, Domain.members, Domain.sortTasks, oneTask]
  have result : oneTask.evaluate (.or [someCompleted, .pred "finished" []]) [] =
      .ok ⟨true, some ⟨[("task", .task ⟨"T1", .backlog, true, false⟩)],
        .pred "completed" [.var "task"]⟩⟩ := by
    simp only [evaluate, someCompleted, eval, evalFirst, members, search]
    rfl
  constructor
  · refine (evaluate_decides_truth oneTask someCompleted []).2 fun g env' e hreach hraise => ?_
    cases hreach with
    | here => cases hraise with | any hvs => cases members.symm.trans hvs
    | any hvs hx hreach =>
      cases members.symm.trans hvs
      cases List.mem_singleton.1 hx
      cases hreach
      cases hraise with | pred happ => cases happ
  · exact ((evaluate_decides_truth oneTask (.or [someCompleted, .pred "finished" []]) []).1 _
      oneTask.standard_agrees _ result).1 rfl

end Setting

end ChangeControl
