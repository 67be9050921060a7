import ChangeControl.Proofs.Evaluation.Order
import Mathlib.Data.List.Forall2
import Mathlib.Data.List.Induction
import Mathlib.Data.List.Nodup
/-!
Witnesses.

A witness names an occurrence of a subformula and gives a value to every variable that is bound
there.  It is found at the bottom, where a formula names itself or one of its operands, and every
formula above hands it on as it is.  Only a negation turns it round: the instance that makes the
operand true becomes the explanation of why the negation is false.  What such a witness names holds,
although the result is false.

Main definitions:

* `Rule.Formula.Occurs` — the occurrences of subformulas, with what stands above them;
* `Setting.Locates` — where in a formula a witness points;
* `Setting.Explains` — in what sense it explains a result;
* `Setting.Shows` — what its formula is evaluated to under its bindings;
* `Setting.Leads` — it starts from the first member that settles a quantified formula;
* `Rule.Formula.Supports` — the formulas that may have a witness when they are true.

Main results:

* `Bindings.find?_toMapping` — bindings and the mapping made of them give variables equal values;
* `Setting.explains_of_evaluate` — every witness explains its result;
* `Setting.witness_of_evaluate` — **what every witness points to**, and when there is one;
* `Setting.witness_fails_iff` — **when the witness of a false result fails itself**.
-/

set_option autoImplicit false

namespace ChangeControl

open Rule (Term Formula)

/-! ### Occurrences -/

namespace Rule.Formula

/-- The second formula occurs in the first, below the listed ones, outermost first. -/
inductive Occurs : Formula → List Formula → Formula → Prop
  | here (f : Formula) : Occurs f [] f
  | under {f g h : Formula} {above : List Formula} :
    g ∈ f.children → Occurs g above h → Occurs f (f :: above) h

/-- The variable and the domain of a quantified formula. -/
def binder? : Formula → Option (String × String)
  | all v d _ | any v d _ => some (v, d)
  | _ => none

/-- The formula is a negation. -/
def isNot : Formula → Bool
  | not _ => true
  | _ => false

/-- The formula may have a witness when it is true. -/
inductive Supports : Formula → Prop
  | not (f : Formula) : Supports (.not f)
  | any (v d : String) (f : Formula) : Supports (.any v d f)
  | or {fs : List Formula} {f : Formula} : f ∈ fs → Supports f → Supports (.or fs)
  | implies (f : Formula) {g : Formula} : Supports g → Supports (.implies f g)

end Rule.Formula

/-! ### Bindings -/

namespace Bindings

/-- The bindings with one place for each variable: a later value takes the place of an earlier
one. -/
def toMapping (env : Bindings) : Bindings := env.foldl (fun known b => set b.1 b.2 known) []

theorem find?_cons (b : String × Value) (env : Bindings) (name : String) :
    find? (b :: env) name = (env.find? name).or (if b.1 = name then some b.2 else none) := by
  unfold find?
  rw [List.reverse_cons, List.find?_append, List.find?_singleton]
  cases env.reverse.find? fun b => b.1 == name with
  | none => by_cases h : b.1 = name <;> simp [h]
  | some b' => simp

theorem find?_eq_none {env : Bindings} {name : String} (h : name ∉ env.map Prod.fst) :
    env.find? name = none := by
  unfold find?
  rw [Option.map_eq_none_iff, List.find?_eq_none]
  intro b hb
  have hne : b.1 ≠ name := fun heq => h (heq ▸ List.mem_map_of_mem (List.mem_reverse.1 hb))
  simpa using hne

theorem names_set (name : String) (v : Value) (env : Bindings) :
    (set name v env).map Prod.fst =
      if name ∈ env.map Prod.fst then env.map Prod.fst else env.map Prod.fst ++ [name] := by
  induction env with
  | nil => rfl
  | cons b env ih =>
    by_cases h : b.1 = name
    · simp [set, h]
    · simp only [set, h, if_false, List.map_cons, ih, List.mem_cons, Ne.symm h, false_or]
      split <;> rfl

theorem nodup_set (name : String) (v : Value) {env : Bindings} (h : (env.map Prod.fst).Nodup) :
    ((set name v env).map Prod.fst).Nodup := by
  rw [names_set]
  split
  · exact h
  · next hnew => exact List.nodup_append'.2 ⟨h, List.nodup_singleton _, by simpa using hnew⟩

theorem nodup_toMapping (env : Bindings) : (env.toMapping.map Prod.fst).Nodup := by
  induction env using List.reverseRecOn with
  | nil => exact List.nodup_nil
  | append_singleton env b ih =>
    rw [toMapping, List.foldl_concat]
    exact nodup_set b.1 b.2 ih

/-- Where no variable repeats, a later value takes the place of the earlier one. -/
theorem find?_set (name : String) (v : Value) {env : Bindings} (h : (env.map Prod.fst).Nodup) :
    find? (set name v env) = Function.update env.find? name (some v) := by
  induction env with
  | nil => exact find?_concat [] name v
  | cons b env ih =>
    obtain ⟨hfresh, hnodup⟩ := List.nodup_cons.1 h
    funext other
    by_cases hb : b.1 = name
    · subst hb
      rw [set, if_pos rfl, find?_cons]
      by_cases hother : other = b.1
      · subst hother
        simp [find?_eq_none hfresh]
      · simp [Function.update_of_ne hother, find?_cons, Ne.symm hother]
    · rw [set, if_neg hb, find?_cons, ih hnodup]
      by_cases hother : other = name
      · subst hother
        simp
      · simp only [Function.update_of_ne hother, find?_cons]

/-- A mapping gives every variable its innermost value. -/
theorem find?_toMapping (env : Bindings) : env.toMapping.find? = env.find? := by
  induction env using List.reverseRecOn with
  | nil => rfl
  | append_singleton env b ih =>
    rw [toMapping, List.foldl_concat, ← toMapping, find?_set _ _ (nodup_toMapping env), ih,
      find?_concat]

end Bindings

namespace Setting

variable {m : Setting} {env env' : Bindings} {f g : Formula} {fs : List Formula} {b : Bool}
  {r : EvalResult} {w : Witness}

/-! ### Where a witness points -/

/-- Every quantifier has its variable bound to a member of its domain. -/
def Binds (m : Setting) (quantifiers : List (String × String)) (added : Bindings) : Prop :=
  List.Forall₂ (fun q b => b.1 = q.1 ∧ ∃ vs, m.members q.2 = .ok vs ∧ b.2 ∈ vs) quantifiers added

theorem binds_nil_iff {added : Bindings} : m.Binds [] added ↔ added = [] :=
  List.forall₂_nil_left_iff

theorem binds_singleton_iff {v d : String} {added : Bindings} :
    m.Binds [(v, d)] added ↔ ∃ x vs, added = [(v, x)] ∧ m.members d = .ok vs ∧ x ∈ vs := by
  constructor
  · intro h
    obtain ⟨b, rest, ⟨rfl, vs, hvs, hmem⟩, hrest, rfl⟩ := List.forall₂_cons_left_iff.1 h
    exact ⟨b.2, vs, by rw [binds_nil_iff.1 hrest], hvs, hmem⟩
  · rintro ⟨x, vs, rfl, hvs, hx⟩
    exact .cons ⟨rfl, vs, hvs, hx⟩ .nil

/-- The formula of the witness occurs below the formulas `above`, and its bindings are the ones
from before, then one for each quantifier above. -/
structure Locates (m : Setting) (f : Formula) (env : Bindings) (above : List Formula)
    (w : Witness) : Prop where
  occurs : f.Occurs above w.formula
  bindings : ∃ added, w.bindings = env ++ added ∧ m.Binds (above.filterMap Formula.binder?) added

/-- A witness explains that the formula has the truth value: what it names has the same value; or
it makes the operand of a negation true, and with that the formula false. -/
inductive Explains (m : Setting) (f : Formula) (env : Bindings) (w : Witness) : Bool → Prop
  | direct {b : Bool} {above : List Formula} :
    m.Locates f env above w → above.countP Formula.isNot = 0 → m.Yields w.bindings w.formula b →
      Explains m f env w b
  | negated {above : List Formula} {g : Formula} {env' : Bindings} :
    m.Locates f env above w → above.countP Formula.isNot = 1 →
      m.Reaches f env (.not g) env' → m.evaluate g env' = .ok ⟨true, some w⟩ →
        m.Yields w.bindings w.formula true → Explains m f env w false

theorem Locates.here (f : Formula) (env : Bindings) : m.Locates f env [] ⟨env, f⟩ where
  occurs := .here f
  bindings := ⟨[], (List.append_nil env).symm, .nil⟩

theorem Locates.under {own : Bindings} {above : List Formula} (hg : g ∈ f.children)
    (hown : m.Binds f.binder?.toList own) (h : m.Locates g (env ++ own) above w) :
    m.Locates f env (f :: above) w where
  occurs := .under hg h.occurs
  bindings := by
    obtain ⟨added, hadded, hbinds⟩ := h.bindings
    refine ⟨own ++ added, by rw [hadded, List.append_assoc], ?_⟩
    rw [show (f :: above).filterMap Formula.binder? = f.binder?.toList ++
      above.filterMap Formula.binder? by cases h : f.binder? <;> simp [h]]
    exact List.rel_append hown hbinds

/-- The instances of an operand are instances of the formula. -/
theorem Reaches.under {own : Bindings} {h : Formula} (hg : g ∈ f.children)
    (hown : m.Binds f.binder?.toList own) (hreach : m.Reaches g (env ++ own) h env') :
    m.Reaches f env h env' := by
  cases f with
  | truth | pred | member | bare => cases hg
  | not f =>
    rw [binds_nil_iff.1 hown, List.append_nil] at hreach
    exact .not (List.mem_singleton.1 hg ▸ hreach)
  | and fs =>
    rw [binds_nil_iff.1 hown, List.append_nil] at hreach
    exact .and hg hreach
  | or fs =>
    rw [binds_nil_iff.1 hown, List.append_nil] at hreach
    exact .or hg hreach
  | implies f f' =>
    rw [binds_nil_iff.1 hown, List.append_nil] at hreach
    obtain rfl | hg := List.mem_cons.1 hg
    · exact .antecedent hreach
    · exact .consequent (List.mem_singleton.1 hg ▸ hreach)
  | all v d f =>
    obtain ⟨x, vs, rfl, hvs, hx⟩ := binds_singleton_iff.1 hown
    exact .all hvs hx (List.mem_singleton.1 hg ▸ hreach)
  | any v d f =>
    obtain ⟨x, vs, rfl, hvs, hx⟩ := binds_singleton_iff.1 hown
    exact .any hvs hx (List.mem_singleton.1 hg ▸ hreach)

/-- A formula explains its own value. -/
theorem Explains.own (h : m.Yields env f b) : m.Explains f env ⟨env, f⟩ b :=
  .direct (.here f env) rfl h

theorem Explains.under {own : Bindings} (hg : g ∈ f.children)
    (hown : m.Binds f.binder?.toList own) (hf : f.isNot = false)
    (h : m.Explains g (env ++ own) w b) : m.Explains f env w b := by
  cases h with
  | direct hw hcount hyields =>
    exact .direct (hw.under hg hown) (by rw [List.countP_cons_of_neg (by simp [hf]), hcount])
      hyields
  | negated hw hcount hreach heval hyields =>
    exact .negated (hw.under hg hown) (by rw [List.countP_cons_of_neg (by simp [hf]), hcount])
      (hreach.under hg hown) heval hyields

/-- What made the operand true explains that its negation is false. -/
theorem Explains.not (heval : m.evaluate f env = .ok ⟨true, some w⟩)
    (h : m.Explains f env w true) : m.Explains (.not f) env w false := by
  cases h with
  | @direct _ above hw hcount hyields =>
    have hnot : m.Locates (.not f) env (.not f :: above) w :=
      .under (List.mem_singleton_self f) .nil (by rwa [List.append_nil])
    have hcount : (Formula.not f :: above).countP Formula.isNot = 1 := by
      rw [List.countP_cons_of_pos rfl, hcount]
    exact .negated hnot hcount (.here _ _) heval hyields

/-! ### What a result was made of -/

theorem result_of_truth {c : Bool} (h : m.evaluate (.truth c) env = .ok r) :
    r = atomResult env (.truth c) r.holds := by
  cases h
  rfl

theorem result_of_pred {name : String} {args : List Term}
    (h : m.evaluate (.pred name args) env = .ok r) :
    r = atomResult env (.pred name args) r.holds := by
  rw [evaluate, eval] at h
  cases happ : m.application env name args with
  | error e => simp [happ] at h
  | ok c =>
    simp only [happ, Except.ok.injEq] at h
    subst h
    rfl

theorem result_of_member {element : Term} {domain : String} {negated : Bool}
    (h : m.evaluate (.member element domain negated) env = .ok r) :
    r = atomResult env (.member element domain negated) r.holds := by
  rw [evaluate, eval] at h
  cases hmem : m.membership env element domain negated with
  | error e => simp [hmem] at h
  | ok c =>
    simp only [hmem, Except.ok.injEq] at h
    subst h
    rfl

theorem result_of_not (h : m.evaluate (.not f) env = .ok r) :
    ∃ s, m.evaluate f env = .ok s ∧
      ((s.holds = true ∧ r = ⟨false, some (s.witness.getD ⟨env, .not f⟩)⟩) ∨
        (s.holds = false ∧ r = ⟨true, some ⟨env, .not f⟩⟩)) := by
  rw [evaluate, eval] at h
  cases hf : m.eval f env with
  | error e => simp [hf] at h
  | ok s =>
    refine ⟨s, hf, ?_⟩
    cases hs : s.holds with
    | true =>
      simp only [hf, hs, if_true, Except.ok.injEq] at h
      exact .inl ⟨rfl, h.symm⟩
    | false =>
      simp only [hf, hs, Bool.false_eq_true, if_false, Except.ok.injEq] at h
      exact .inr ⟨rfl, h.symm⟩

theorem result_of_and (h : m.evaluate (.and fs) env = .ok r) :
    r = ⟨true, none⟩ ∨ ∃ g ∈ fs, ∃ s, m.evaluate g env = .ok s ∧ s.holds = false ∧
      r = ⟨false, some (s.witness.getD ⟨env, g⟩)⟩ := by
  rw [evaluate, eval] at h
  cases hfound : m.evalFirst false fs env with
  | error e => simp [hfound] at h
  | ok found =>
    cases found with
    | none =>
      simp only [hfound, Except.ok.injEq] at h
      exact .inl h.symm
    | some p =>
      simp only [hfound, Except.ok.injEq] at h
      obtain ⟨hmem, heval, hholds⟩ := mem_of_evalFirst hfound
      exact .inr ⟨p.1, hmem, p.2, heval, hholds, h.symm⟩

theorem result_of_or (h : m.evaluate (.or fs) env = .ok r) :
    r = ⟨false, some ⟨env, .or fs⟩⟩ ∨
      ∃ g ∈ fs, m.evaluate g env = .ok r ∧ r.holds = true := by
  rw [evaluate, eval] at h
  cases hfound : m.evalFirst true fs env with
  | error e => simp [hfound] at h
  | ok found =>
    cases found with
    | none =>
      simp only [hfound, Except.ok.injEq] at h
      exact .inl h.symm
    | some p =>
      simp only [hfound, Except.ok.injEq] at h
      obtain ⟨hmem, heval, hholds⟩ := mem_of_evalFirst hfound
      exact .inr ⟨p.1, hmem, h ▸ heval, h ▸ hholds⟩

theorem result_of_implies (h : m.evaluate (.implies f g) env = .ok r) :
    r = ⟨true, none⟩ ∨ ∃ s, m.evaluate g env = .ok s ∧
      ((s.holds = true ∧ r = s) ∨
        (s.holds = false ∧ r = ⟨false, some (s.witness.getD ⟨env, g⟩)⟩)) := by
  rw [evaluate, eval] at h
  cases hf : m.eval f env with
  | error e => simp [hf] at h
  | ok t =>
    cases ht : t.holds with
    | false =>
      simp only [hf, ht, Bool.false_eq_true, if_false, Except.ok.injEq] at h
      exact .inl h.symm
    | true =>
      cases hg : m.eval g env with
      | error e => simp [hf, ht, hg] at h
      | ok s =>
        refine .inr ⟨s, hg, ?_⟩
        cases hs : s.holds with
        | true =>
          simp only [hf, ht, hg, hs, if_true, Except.ok.injEq] at h
          exact .inl ⟨rfl, h.symm⟩
        | false =>
          simp only [hf, ht, hg, hs, Bool.false_eq_true, if_true, if_false, Except.ok.injEq] at h
          exact .inr ⟨rfl, h.symm⟩

/-- The result of a quantified formula, by the truth value that settles it: it comes from the first
member of the domain for which the body has that value, or there is none. -/
theorem result_of_quantifier (want : Bool) {v d : String}
    (h : m.evaluate (if want then .any v d f else .all v d f) env = .ok r) :
    r = ⟨!want, none⟩ ∨
      ∃ pre x post s, m.members d = .ok (pre ++ x :: post) ∧
        (∀ y ∈ pre, m.Yields (env ++ [(v, y)]) f (!want)) ∧
        m.evaluate f (env ++ [(v, x)]) = .ok s ∧ s.holds = want ∧
        r = ⟨want, some (s.witness.getD ⟨env ++ [(v, x)], f⟩)⟩ := by
  cases hvs : m.members d with
  | error e => cases want <;> simp [evaluate, eval, hvs] at h
  | ok vs =>
    cases hfound : search want (fun x => m.eval f (env ++ [(v, x)])) vs with
    | error e => cases want <;> simp [evaluate, eval, hvs, hfound] at h
    | ok found =>
      cases found with
      | none =>
        refine .inl ?_
        cases want <;> simpa [evaluate, eval, hvs, hfound] using h.symm
      | some p =>
        have hresult : r = ⟨want, some (p.2.witness.getD ⟨env ++ [(v, p.1)], f⟩)⟩ := by
          cases want <;> simpa [evaluate, eval, hvs, hfound] using h.symm
        rw [search_eq_firstOf] at hfound
        obtain ⟨pre, post, rfl, hpre, htest, hholds⟩ := firstOf_eq_some_iff.1 hfound
        exact .inr ⟨pre, p.1, post, p.2, rfl, hpre, htest, hholds, hresult⟩

/-! ### Every witness explains its result -/

/-- An operand that binds nothing and negates nothing hands its explanation on. -/
theorem Explains.operand (hg : g ∈ f.children) (hbinder : f.binder? = none)
    (hnot : f.isNot = false) (h : m.Explains g env w b) : m.Explains f env w b := by
  have hown : m.Binds f.binder?.toList [] := by
    rw [hbinder]
    exact .nil
  exact .under hg hown hnot (by rwa [List.append_nil])

/-- An instance of the body of a quantified formula hands its explanation on. -/
theorem Explains.body {v d : String} {vs : List Value} {x : Value} (hchild : f.children = [g])
    (hbinder : f.binder? = some (v, d)) (hnot : f.isNot = false) (hvs : m.members d = .ok vs)
    (hx : x ∈ vs) (h : m.Explains g (env ++ [(v, x)]) w b) : m.Explains f env w b := by
  have hown : m.Binds f.binder?.toList [(v, x)] := by
    rw [hbinder]
    exact binds_singleton_iff.2 ⟨x, vs, rfl, hvs, hx⟩
  exact .under (hchild ▸ List.mem_singleton_self g) hown hnot h

/-- A result without a witness is explained by the formula itself. -/
theorem Explains.getD (heval : m.evaluate f env = .ok r)
    (h : ∀ w, r.witness = some w → m.Explains f env w r.holds) :
    m.Explains f env (r.witness.getD ⟨env, f⟩) r.holds := by
  cases hw : r.witness with
  | none => exact .own ⟨r, heval, rfl⟩
  | some w => exact h w hw

/-- A false atom is its own witness, and a true one has none. -/
theorem Explains.of_atom (h : m.evaluate f env = .ok r) (hatom : r = atomResult env f r.holds)
    (hw : r.witness = some w) : m.Explains f env w r.holds := by
  rw [hatom] at hw
  cases hr : r.holds with
  | true => simp [atomResult, hr] at hw
  | false =>
    obtain rfl : ⟨env, f⟩ = w := by simpa [atomResult, hr] using hw
    exact .own ⟨r, h, hr⟩

/-- **Every witness explains its result.** -/
theorem explains_of_evaluate (f : Formula) {env : Bindings} {r : EvalResult} {w : Witness}
    (h : m.evaluate f env = .ok r) (hw : r.witness = some w) : m.Explains f env w r.holds := by
  induction f generalizing env r w with
  | truth c => exact .of_atom h (result_of_truth h) hw
  | pred name args => exact .of_atom h (result_of_pred h) hw
  | member element domain negated => exact .of_atom h (result_of_member h) hw
  | not f ih =>
    have hyields : m.Yields env (.not f) r.holds := ⟨r, h, rfl⟩
    obtain ⟨s, hs, ⟨hholds, rfl⟩ | ⟨-, rfl⟩⟩ := result_of_not h
    · obtain ⟨sholds, switness⟩ := s
      cases hholds
      cases switness with
      | none =>
        cases hw
        exact .own hyields
      | some w' =>
        cases hw
        exact .not hs (ih hs rfl)
    · cases hw
      exact .own hyields
  | and fs ih =>
    obtain rfl | ⟨g, hg, s, hs, hholds, rfl⟩ := result_of_and h
    · cases hw
    · cases hw
      exact .operand hg rfl rfl (hholds ▸ .getD hs fun w hw => ih g hg hs hw)
  | or fs ih =>
    have hyields : m.Yields env (.or fs) r.holds := ⟨r, h, rfl⟩
    obtain rfl | ⟨g, hg, hs, -⟩ := result_of_or h
    · cases hw
      exact .own hyields
    · exact .operand hg rfl rfl (ih g hg hs hw)
  | implies f g _ ih =>
    have hg : g ∈ (Formula.implies f g).children := by simp [Formula.children]
    obtain rfl | ⟨s, hs, ⟨-, rfl⟩ | ⟨hholds, rfl⟩⟩ := result_of_implies h
    · cases hw
    · exact .operand hg rfl rfl (ih hs hw)
    · cases hw
      exact .operand hg rfl rfl (hholds ▸ .getD hs fun w hw => ih hs hw)
  | all v d f ih =>
    obtain rfl | ⟨pre, x, post, s, hvs, -, hs, hholds, rfl⟩ := result_of_quantifier false h
    · cases hw
    · cases hw
      have hbody : m.Explains f (env ++ [(v, x)]) _ s.holds := .getD hs fun w hw => ih hs hw
      exact .body rfl rfl rfl hvs List.mem_append_cons_self (hholds ▸ hbody)
  | any v d f ih =>
    obtain rfl | ⟨pre, x, post, s, hvs, -, hs, hholds, rfl⟩ := result_of_quantifier true h
    · cases hw
    · cases hw
      have hbody : m.Explains f (env ++ [(v, x)]) _ s.holds := .getD hs fun w hw => ih hs hw
      exact .body rfl rfl rfl hvs List.mem_append_cons_self (hholds ▸ hbody)
  | bare text => cases h

/-- The formula of the witness is evaluated to `b` under the bindings of the witness, also if these
are handed in as a mapping. -/
def Shows (m : Setting) (w : Witness) (b : Bool) : Prop :=
  m.Yields w.bindings w.formula b ∧ m.Yields w.bindings.toMapping w.formula b

theorem shows_iff : m.Shows w b ↔ m.Yields w.bindings w.formula b :=
  (and_congr_right_iff.2 fun _ => yields_congr (Bindings.find?_toMapping w.bindings)).trans
    and_self_iff

theorem Explains.shows (h : m.Explains f env w b) : m.Shows w false ∨ m.Shows w true := by
  cases h with
  | direct _ _ hyields =>
    cases b with
    | false => exact .inl (shows_iff.2 hyields)
    | true => exact .inr (shows_iff.2 hyields)
  | negated _ _ _ _ hyields => exact .inr (shows_iff.2 hyields)

theorem Explains.yields (h : m.Explains f env w true) : m.Yields w.bindings w.formula true := by
  cases h with | direct _ _ hyields => exact hyields

theorem Explains.exists_locates (h : m.Explains f env w b) :
    ∃ above, m.Locates f env above w ∧ above.countP Formula.isNot ≤ 1 ∧
      (b = true → above.countP Formula.isNot = 0) ∧
        m.Shows w (if above.countP Formula.isNot = 0 then b else !b) := by
  cases h with
  | @direct _ above hw hcount hyields =>
    refine ⟨above, hw, by omega, fun _ => hcount, ?_⟩
    rw [if_pos hcount]
    exact shows_iff.2 hyields
  | @negated above _ _ hw hcount _ _ hyields =>
    refine ⟨above, hw, by omega, fun hb => absurd hb Bool.false_ne_true, ?_⟩
    rw [if_neg (by omega)]
    exact shows_iff.2 hyields

/-- The first variable that the witness binds is the one of a quantifier, and its value is the first
member of the domain for which the body has the truth value `b`. -/
def Leads (m : Setting) (env : Bindings) (v d : String) (body : Formula) (b : Bool)
    (w : Witness) : Prop :=
  ∃ pre x post rest, m.members d = .ok (pre ++ x :: post) ∧
    (∀ y ∈ pre, m.Yields (env ++ [(v, y)]) body (!b)) ∧ m.Yields (env ++ [(v, x)]) body b ∧
      w.bindings = env ++ (v, x) :: rest

theorem leads_of_evaluate {v d : String} (hf : f = if b then .any v d g else .all v d g)
    (h : m.evaluate f env = .ok r) (hr : r.holds = b) :
    ∃ w, r.witness = some w ∧ m.Leads env v d g b w := by
  subst hf
  obtain rfl | ⟨pre, x, post, s, hvs, hpre, hs, hholds, rfl⟩ := result_of_quantifier b h
  · cases b <;> cases hr
  · refine ⟨_, rfl, pre, x, post, ?_⟩
    -- the witness of the body adds its own bindings behind the member
    obtain ⟨rest, hrest⟩ : ∃ rest, (s.witness.getD ⟨env ++ [(v, x)], g⟩).bindings =
        (env ++ [(v, x)]) ++ rest := by
      cases hw : s.witness with
      | none => exact ⟨[], (List.append_nil _).symm⟩
      | some w =>
        obtain ⟨above, hlocates, -⟩ := (explains_of_evaluate g hs hw).exists_locates
        exact hlocates.bindings.imp fun _ h => h.1
    exact ⟨rest, hvs, hpre, ⟨s, hs, hholds⟩, by rw [hrest, List.append_assoc]; rfl⟩

/-- A false result has no witness exactly if the formula is existential. -/
theorem witness_eq_none_iff (h : m.evaluate f env = .ok r) (hr : r.holds = false) :
    r.witness = none ↔ ∃ v d g, f = .any v d g := by
  cases f with
  | truth c =>
    rw [result_of_truth h, hr]
    simp [atomResult]
  | pred name args =>
    rw [result_of_pred h, hr]
    simp [atomResult]
  | member element domain negated =>
    rw [result_of_member h, hr]
    simp [atomResult]
  | not f =>
    obtain ⟨s, -, ⟨-, rfl⟩ | ⟨-, rfl⟩⟩ := result_of_not h <;> simp
  | and fs =>
    obtain rfl | ⟨g, -, s, -, -, rfl⟩ := result_of_and h
    · cases hr
    · simp
  | or fs =>
    obtain rfl | ⟨g, -, -, htrue⟩ := result_of_or h
    · simp
    · cases hr.symm.trans htrue
  | implies f g =>
    obtain rfl | ⟨s, -, ⟨htrue, rfl⟩ | ⟨-, rfl⟩⟩ := result_of_implies h
    · cases hr
    · cases hr.symm.trans htrue
    · simp
  | all v d f =>
    obtain rfl | ⟨pre, x, post, s, -, -, -, -, rfl⟩ := result_of_quantifier false h
    · cases hr
    · simp
  | any v d f =>
    obtain rfl | ⟨pre, x, post, s, -, -, -, -, rfl⟩ := result_of_quantifier true h
    · simp
    · cases hr
  | bare text => cases h

/-- **What every witness points to.**  It names an occurrence of a subformula and binds the variable
of every quantifier above it to a member of the domain.  There is at most one negation above, and
none if the result is true; the subformula has the truth value of the result, or the other one below
a negation.  For a true existential formula and for a false universal one, the first member with
that truth value is bound; and only a false existential formula has no witness. -/
theorem witness_of_evaluate (h : m.evaluate f env = .ok r) :
    (∀ w, r.witness = some w →
      ∃ above, m.Locates f env above w ∧ above.countP Formula.isNot ≤ 1 ∧
        (r.holds = true → above.countP Formula.isNot = 0) ∧
          m.Shows w (if above.countP Formula.isNot = 0 then r.holds else !r.holds)) ∧
    (∀ v d body,
      f = .any v d body ∧ r.holds = true ∨ f = .all v d body ∧ r.holds = false →
        ∃ w, r.witness = some w ∧ m.Leads env v d body r.holds w) ∧
    (r.holds = false → (r.witness = none ↔ ∃ v d body, f = .any v d body)) := by
  refine ⟨fun w hw => (explains_of_evaluate f h hw).exists_locates, ?_, witness_eq_none_iff h⟩
  rintro v d body (⟨rfl, hr⟩ | ⟨rfl, hr⟩)
  · rw [hr]
    exact leads_of_evaluate rfl h hr
  · rw [hr]
    exact leads_of_evaluate rfl h hr

/-- The one task is completed. -/
def firstCompleted : Witness where
  bindings := [("task", .task ⟨"T1", .backlog, true, false⟩)]
  formula := .pred "completed" [.var "task"]

theorem evaluate_someCompleted :
    oneTask.evaluate someCompleted [] = .ok ⟨true, some firstCompleted⟩ := by decide +kernel

theorem evaluate_not_someCompleted :
    oneTask.evaluate (.not someCompleted) [] = .ok ⟨false, some firstCompleted⟩ := by
  decide +kernel

/-- That some task is completed is witnessed by the first one.  It is also what makes the negation
false: it stands below one `not`, or below none and fails. -/
theorem witness_oneTask :
    oneTask.Leads [] "task" "tasks" (.pred "completed" [.var "task"]) true firstCompleted ∧
      ∃ above, oneTask.Locates (.not someCompleted) [] above firstCompleted ∧
        above.countP Formula.isNot ≤ 1 ∧
          oneTask.Shows firstCompleted (if above.countP Formula.isNot = 0 then false else true) := by
  obtain ⟨-, hleads, -⟩ := witness_of_evaluate evaluate_someCompleted
  obtain ⟨hlocates, -, -⟩ := witness_of_evaluate evaluate_not_someCompleted
  constructor
  · obtain ⟨w, hw, h⟩ := hleads _ _ _ (.inl ⟨rfl, rfl⟩)
    cases hw
    exact h
  · obtain ⟨above, hw, hcount, -, hshows⟩ := hlocates _ rfl
    exact ⟨above, hw, hcount, hshows⟩

/-! ### Witnesses of false results -/

theorem Reaches.exists_occurs (h : m.Reaches f env g env') : ∃ above, f.Occurs above g := by
  induction h with
  | here f env => exact ⟨[], .here f⟩
  | not _ ih | antecedent _ ih | all _ _ _ ih | any _ _ _ ih =>
    exact ih.imp' _ fun _ hoccurs => .under List.mem_cons_self hoccurs
  | consequent _ ih =>
    exact ih.imp' _ fun _ hoccurs => .under (List.mem_cons_of_mem _ List.mem_cons_self) hoccurs
  | and hf _ ih | or hf _ ih => exact ih.imp' _ fun _ hoccurs => .under hf hoccurs

/-- A true formula with a witness is one that may have a witness. -/
theorem supports_of_evaluate (f : Formula) {env : Bindings} {w : Witness}
    (h : m.evaluate f env = .ok ⟨true, some w⟩) : f.Supports := by
  induction f generalizing env w with
  | truth c => cases result_of_truth h
  | pred name args => cases result_of_pred h
  | member element domain negated => cases result_of_member h
  | not f => exact .not f
  | and fs =>
    obtain hr | ⟨g, -, s, -, -, hr⟩ := result_of_and h <;> cases hr
  | or fs ih =>
    obtain hr | ⟨g, hg, hs, -⟩ := result_of_or h
    · cases hr
    · exact .or hg (ih g hg hs)
  | implies f g _ ih =>
    obtain hr | ⟨s, hs, ⟨-, rfl⟩ | ⟨-, hr⟩⟩ := result_of_implies h
    · cases hr
    · exact .implies f (ih hs)
    · cases hr
  | all v d f =>
    obtain hr | ⟨_, _, _, _, -, -, -, -, hr⟩ := result_of_quantifier false h <;> cases hr
  | any v d f => exact .any v d f
  | bare text => cases h

/-- **When the witness of a false result fails itself**: exactly if it is not what made the operand
of a negation true.  Otherwise it holds.  In particular it fails if every negation stands before a
formula that has no witness when it is true. -/
theorem witness_fails_iff (h : m.evaluate f env = .ok ⟨false, some w⟩) :
    (m.Shows w false ↔ ∀ g env', m.Reaches f env (.not g) env' →
      m.evaluate g env' ≠ .ok ⟨true, some w⟩) ∧
    (¬ m.Shows w false → m.Shows w true) ∧
    ((∀ above g, f.Occurs above (.not g) → ¬ g.Supports) → m.Shows w false) := by
  have hexplains := explains_of_evaluate f h rfl
  have hiff : m.Shows w false ↔ ∀ g env', m.Reaches f env (.not g) env' →
      m.evaluate g env' ≠ .ok ⟨true, some w⟩ := by
    constructor
    · intro hfalse g env' _ hg
      exact absurd (hfalse.1.unique (explains_of_evaluate g hg rfl).yields) Bool.false_ne_true
    · intro hno
      cases hexplains with
      | direct _ _ hyields => exact shows_iff.2 hyields
      | negated _ _ hreach hg _ => exact absurd hg (hno _ _ hreach)
  refine ⟨hiff, hexplains.shows.resolve_left, fun hplain => hiff.2 fun g env' hreach hg => ?_⟩
  obtain ⟨above, hoccurs⟩ := hreach.exists_occurs
  exact hplain above g hoccurs (supports_of_evaluate g hg)

/-- No task is completed. -/
def noneCompleted : Formula := .all "task" "tasks" (.not (.pred "completed" [.var "task"]))

/-- That no task is completed is refuted by an instance that fails. -/
theorem witness_fails_noneCompleted :
    oneTask.evaluate noneCompleted [] =
        .ok ⟨false, some ⟨firstCompleted.bindings, .not firstCompleted.formula⟩⟩ ∧
      oneTask.Shows ⟨firstCompleted.bindings, .not firstCompleted.formula⟩ false := by
  have hresult : oneTask.evaluate noneCompleted [] =
      .ok ⟨false, some ⟨firstCompleted.bindings, .not firstCompleted.formula⟩⟩ := by
    decide +kernel
  refine ⟨hresult, (witness_fails_iff hresult).2.2 fun above g hoccurs hsupports => ?_⟩
  -- the only negation stands before an atom
  cases hoccurs with
  | under hbody hoccurs =>
    cases List.mem_singleton.1 hbody
    cases hoccurs with
    | here => cases hsupports
    | under hatom hoccurs =>
      cases List.mem_singleton.1 hatom
      cases hoccurs with
      | under hnone _ => cases hnone

/-- The witness of a false result may hold: that not some task is completed is refuted by a task
that is. -/
theorem not_witness_fails :
    ¬ ∀ (m : Setting) (f : Formula) (env : Bindings) (w : Witness),
      m.evaluate f env = .ok ⟨false, some w⟩ →
        m.Yields w.bindings.toMapping w.formula false := by
  intro h
  have hholds : oneTask.Yields firstCompleted.bindings.toMapping firstCompleted.formula true :=
    ⟨⟨true, none⟩, by decide +kernel, rfl⟩
  have hfails := h oneTask (.not someCompleted) [] firstCompleted evaluate_not_someCompleted
  exact absurd (hfails.unique hholds) Bool.false_ne_true

end Setting

end ChangeControl
