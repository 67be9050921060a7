import ChangeControl.Proofs.Workflow.References
import Mathlib.Data.List.Nodup
/-!
What is declared, and what is published.

A text is loaded exactly if it declares one workflow in which everything is in order: the states and
the ends of the transitions, the effects, the parameters, the names of the rules, and every
reference in every formula.  What is published then is in order as well, the core rules included,
which are added where the text does not restate them.

Main definitions:

* `WellDeclared` — a declared workflow in which everything is in order;
* `Workflow.WellFormed` — the same of a published workflow.

Main results:

* `problems_eq_nil_iff` — **a declared workflow has no problems exactly if it is in order**;
* `Registry.load_iff_wellDeclared` — **which texts are loaded, and what is published**.
-/

set_option autoImplicit false

namespace ChangeControl

open Rule (Term Formula TransitionDecl FormulaDecl WorkflowDecl Document)

/-! ### Definitions -/

/-- Everything in the declared workflow and in the formula blocks beside it is in order. -/
structure WellDeclared (vocabulary : Vocabulary) (w : WorkflowDecl) (blocks : List FormulaDecl) :
    Prop where
  states : w.states ≠ [] ∧ w.states.Nodup
  ends : ∀ t ∈ w.transitions, t.source ∈ w.states ∧ t.target ∈ w.states
  pairs : (w.transitions.map fun t => (t.source, t.target)).Nodup
  effects : ∀ t ∈ w.transitions, ∀ e ∈ t.effects, (Effect.ofName? e).isSome = true
  parameters : ∀ p ∈ w.parameters, (Domain.ofName? p).isSome = true
  names : (blocks.map FormulaDecl.name).Nodup
  reserved : ∀ b ∈ blocks, ∀ rule ∈ Core.rules, b.name = rule.name → b.formula = rule.formula
  references : ∀ f ∈ w.formulas ++ blocks.map FormulaDecl.formula, ∀ g ∈ f.walk,
    (scopeOf vocabulary w).Resolves g
  kinds : ∀ f ∈ w.formulas ++ blocks.map FormulaDecl.formula, f.Fits vocabulary []

/-- Everything in the published workflow is in order.  Its own formulas are those that its text
declares; they range over the domains that its parameters admit, the core rules over any. -/
structure Workflow.WellFormed (vocabulary : Vocabulary) (w : Workflow) (own : List Formula) :
    Prop where
  states : w.states ≠ [] ∧ w.states.Nodup
  ends : ∀ t ∈ w.transitions, t.source ∈ w.states ∧ t.target ∈ w.states
  pairs : (w.transitions.map fun t => (t.source, t.target)).Nodup
  found : ∀ t ∈ w.transitions, w.transition? t.source t.target = some t
  parameters : ∀ p ∈ w.parameters, (Domain.ofName? p).isSome = true
  references : ∀ f ∈ w.formulas, ∀ g ∈ f.walk, (⟨w.states, [], vocabulary⟩ : Scope).Resolves g
  own : ∀ f ∈ own, f ∈ w.formulas ∧
    ∀ g ∈ f.walk, (⟨w.states, w.parameters, vocabulary⟩ : Scope).Resolves g
  names : (w.invariants.map Invariant.name).Nodup
  core : ∀ rule ∈ Core.rules, (w.invariants.map Invariant.name).count rule.name = 1 ∧
    ∀ i ∈ w.invariants, i.name = rule.name → i.formula = rule.formula

/-! ### Repetitions -/

/-- Nothing is there twice, and nothing that was seen before. -/
def Fresh {α : Type} (seen xs : List α) : Prop := xs.Nodup ∧ ∀ x ∈ xs, x ∉ seen

theorem fresh_nil {α : Type} {seen : List α} : Fresh seen [] :=
  ⟨List.nodup_nil, List.forall_mem_nil _⟩

theorem fresh_nil_iff {α : Type} {xs : List α} : Fresh [] xs ↔ xs.Nodup :=
  and_iff_left fun _ _ => List.not_mem_nil

theorem fresh_cons_iff {α : Type} {seen xs : List α} {x : α} :
    Fresh seen (x :: xs) ↔ x ∉ seen ∧ Fresh (x :: seen) xs := by
  rw [Fresh, Fresh, List.nodup_cons, List.forall_mem_cons]
  constructor
  · rintro ⟨⟨absent, nodup⟩, new, rest⟩
    refine ⟨new, nodup, ?_⟩
    intro y hy known
    rcases List.mem_cons.1 known with rfl | known
    · exact absent hy
    · exact rest y hy known
  · rintro ⟨new, nodup, rest⟩
    refine ⟨⟨fun hx => rest x hx List.mem_cons_self, nodup⟩, new, ?_⟩
    intro y hy known
    exact rest y hy (List.mem_cons_of_mem _ known)

/-- A fault for what was seen before. -/
theorem repeated_eq_nil_iff {α β : Type} [BEq α] [LawfulBEq α] {seen : List α} {x : α} {fault : β} :
    (if seen.contains x then [fault] else []) = [] ↔ x ∉ seen := by
  rw [ite_eq_right_iff, List.contains_iff_mem]
  exact imp_congr_right fun _ => by simp

/-- The names without an entry in a table. -/
theorem unlisted_eq_nil_iff {α : Type} {table : String → Option α} {names : List String} :
    (names.filter fun x => (table x).isNone) = [] ↔ ∀ x ∈ names, (table x).isSome = true := by
  rw [List.filter_eq_nil_iff]
  refine forall₂_congr fun x _ => ?_
  cases table x <;> simp

theorem repetitions_eq_nil_iff {seen xs : List String} :
    repetitions seen xs = [] ↔ Fresh seen xs := by
  induction xs generalizing seen with
  | nil => exact iff_of_true rfl fresh_nil
  | cons x xs ih =>
    rw [repetitions, List.append_eq_nil_iff, ih, fresh_cons_iff]
    simp

/-! ### Declarations without problems -/

section Problems

variable {s : Scope} {vocabulary : Vocabulary} {w : WorkflowDecl} {blocks : List FormulaDecl}

/-- A transition has no problems where its ends and effects are known, it is the first one between
its ends, and its formulas are without faults. -/
theorem transitionProblems_eq_nil_iff {seen : List (String × String)} {t : TransitionDecl} :
    transitionProblems s seen t = [] ↔
      (t.source, t.target) ∉ seen ∧ (t.source ∈ s.states ∧ t.target ∈ s.states) ∧
        (∀ e ∈ t.effects, (Effect.ofName? e).isSome = true) ∧
          ∀ f ∈ t.formulas, s.formulaFaults f [] = [] := by
  have hends : ([t.source, t.target].filter fun e => !s.states.contains e) = [] ↔
      t.source ∈ s.states ∧ t.target ∈ s.states := by
    rw [List.filter_eq_nil_iff, List.forall_mem_cons, List.forall_mem_singleton]
    simp
  have hformulas : (∀ f ∈ t.formulas, s.formulaFaults f [] = []) ↔
      s.formulaFaults t.precondition [] = [] ∧ s.formulaFaults t.postcondition [] = [] := by
    rw [TransitionDecl.formulas, List.forall_mem_cons, List.forall_mem_singleton]
  simp only [transitionProblems, faultsAt, List.append_eq_nil_iff, List.map_eq_nil_iff]
  rw [hends, hformulas, unlisted_eq_nil_iff, repeated_eq_nil_iff]
  constructor
  · rintro ⟨⟨⟨⟨ends, new⟩, effects⟩, pre⟩, post⟩
    exact ⟨new, ends, effects, pre, post⟩
  · rintro ⟨new, ends, effects, pre, post⟩
    exact ⟨⟨⟨⟨ends, new⟩, effects⟩, pre⟩, post⟩

theorem transitionsProblems_eq_nil_iff {seen : List (String × String)} {ts : List TransitionDecl} :
    transitionsProblems s seen ts = [] ↔
      Fresh seen (ts.map fun t => (t.source, t.target)) ∧
        ∀ t ∈ ts, (t.source ∈ s.states ∧ t.target ∈ s.states) ∧
          (∀ e ∈ t.effects, (Effect.ofName? e).isSome = true) ∧
            ∀ f ∈ t.formulas, s.formulaFaults f [] = [] := by
  induction ts generalizing seen with
  | nil => exact iff_of_true rfl ⟨fresh_nil, List.forall_mem_nil _⟩
  | cons t ts ih =>
    rw [transitionsProblems, List.append_eq_nil_iff, transitionProblems_eq_nil_iff, ih,
      List.map_cons, fresh_cons_iff, List.forall_mem_cons]
    exact and_and_and_comm

/-- A formula leaves the core rules as they are if it is that of the core rule with its name, in
case there is one. -/
theorem reserved_iff {b : FormulaDecl} :
    (∀ rule ∈ Core.rules, b.name = rule.name → b.formula = rule.formula) ↔
      ∀ core, Core.find? b.name = some core → b.formula = core.formula := by
  constructor
  · intro h core hcore
    have named : core.name = b.name := by simpa using List.find?_some hcore
    exact h core (List.mem_of_find?_eq_some hcore) named.symm
  · intro h rule hrule same
    exact h rule (same ▸ Core.find?_name rule hrule)

/-- A formula block has no problems where it is the first one of its name, leaves the core rules as
they are, and is without faults. -/
theorem blockProblems_eq_nil_iff {seen : List String} {b : FormulaDecl} :
    blockProblems s seen b = [] ↔
      b.name ∉ seen ∧ (∀ rule ∈ Core.rules, b.name = rule.name → b.formula = rule.formula) ∧
        s.formulaFaults b.formula [] = [] := by
  rw [blockProblems, faultsAt, List.map_eq_nil_iff, List.append_eq_nil_iff, List.append_eq_nil_iff,
    repeated_eq_nil_iff, reserved_iff, and_assoc]
  cases Core.find? b.name <;> simp

theorem blocksProblems_eq_nil_iff {seen : List String} :
    blocksProblems s seen blocks = [] ↔
      Fresh seen (blocks.map FormulaDecl.name) ∧
        ∀ b ∈ blocks,
          (∀ rule ∈ Core.rules, b.name = rule.name → b.formula = rule.formula) ∧
            s.formulaFaults b.formula [] = [] := by
  induction blocks generalizing seen with
  | nil => exact iff_of_true rfl ⟨fresh_nil, List.forall_mem_nil _⟩
  | cons b blocks ih =>
    rw [blocksProblems, List.append_eq_nil_iff, blockProblems_eq_nil_iff, ih, List.map_cons,
      fresh_cons_iff, List.forall_mem_cons]
    exact and_and_and_comm

/-- **A declared workflow has no problems exactly if everything in it is in order.** -/
theorem problems_eq_nil_iff :
    problems vocabulary w blocks = [] ↔ WellDeclared vocabulary w blocks := by
  have hstates : (if w.states.isEmpty then [Problem.noStates w.name] else []) = [] ↔
      w.states ≠ [] := by
    cases w.states <;> simp
  have hfaultless : ∀ f, (scopeOf vocabulary w).formulaFaults f [] = [] ↔
      (∀ g ∈ f.walk, (scopeOf vocabulary w).Resolves g) ∧ f.Fits vocabulary [] :=
    fun f => Scope.formulaFaults_eq_nil_iff f []
  simp only [problems, List.append_eq_nil_iff, List.map_eq_nil_iff]
  rw [hstates, repetitions_eq_nil_iff, fresh_nil_iff, unlisted_eq_nil_iff,
    transitionsProblems_eq_nil_iff, fresh_nil_iff, blocksProblems_eq_nil_iff, fresh_nil_iff]
  constructor
  · rintro ⟨⟨⟨⟨nonempty, nodup⟩, parameters⟩, pairs, transitions⟩, names, blocksOk⟩
    have faultless : ∀ f ∈ w.formulas ++ blocks.map FormulaDecl.formula,
        (scopeOf vocabulary w).formulaFaults f [] = [] := by
      intro f hf
      rcases List.mem_append.1 hf with hf | hf
      · obtain ⟨t, ht, hf⟩ := List.mem_flatMap.1 hf
        exact (transitions t ht).2.2 f hf
      · obtain ⟨b, hb, rfl⟩ := List.mem_map.1 hf
        exact (blocksOk b hb).2
    exact ⟨⟨nonempty, nodup⟩, fun t ht => (transitions t ht).1, pairs,
      fun t ht => (transitions t ht).2.1, parameters, names, fun b hb => (blocksOk b hb).1,
      fun f hf => ((hfaultless f).1 (faultless f hf)).1,
      fun f hf => ((hfaultless f).1 (faultless f hf)).2⟩
  · intro h
    have faultless : ∀ f ∈ w.formulas ++ blocks.map FormulaDecl.formula,
        (scopeOf vocabulary w).formulaFaults f [] = [] :=
      fun f hf => (hfaultless f).2 ⟨h.references f hf, h.kinds f hf⟩
    refine ⟨⟨⟨h.states, h.parameters⟩, h.pairs, ?_⟩, h.names, ?_⟩
    · intro t ht
      refine ⟨h.ends t ht, h.effects t ht, fun f hf => faultless f ?_⟩
      exact List.mem_append_left _ (List.mem_flatMap.2 ⟨t, ht, hf⟩)
    · intro b hb
      exact ⟨h.reserved b hb, faultless _ (List.mem_append_right _ (List.mem_map_of_mem hb))⟩

end Problems

/-! ### What is published -/

/-- References that are in order stay in order where more states are declared, no parameters, and
more predicates are known. -/
theorem Scope.Resolves.mono {s s' : Scope} {g : Formula} (h : s.Resolves g)
    (states : s.states ⊆ s'.states)
    (parameters : s'.parameters = [] ∨ s'.parameters = s.parameters)
    (vocabulary : s.vocabulary ⊆ s'.vocabulary) : s'.Resolves g := by
  have admits : ∀ name, s.Admits name → s'.Admits name := by
    rintro name ⟨d, named, admitted⟩
    refine ⟨d, named, ?_⟩
    rcases parameters with none | same
    · exact .inl none
    · rwa [same]
  refine ⟨fun d hd => admits d (h.domain d hd), ?_, ?_⟩
  · intro t ht
    have hknows := h.terms t ht
    cases t with
    | state name => exact states hknows
    | domain name => exact admits name hknows
    | var _ | literal _ | bare _ => trivial
  · intro name args same
    obtain ⟨q, known, applied⟩ := h.predicate name args same
    exact ⟨q, vocabulary known, applied⟩

/-- Core rules of one name are one rule. -/
theorem Core.eq_of_name {rule rule' : Invariant} (h : rule ∈ Core.rules) (h' : rule' ∈ Core.rules)
    (same : rule.name = rule'.name) : rule = rule' := by
  have hfound := Core.find?_name rule h
  rw [same, Core.find?_name rule' h'] at hfound
  exact (Option.some.inj hfound).symm

section Published

variable {vocabulary : Vocabulary} {decl : WorkflowDecl} {blocks : List FormulaDecl}

/-- The workflow that is published for a declared one. -/
def publishedOf (decl : WorkflowDecl) (blocks : List FormulaDecl) : Workflow :=
  ⟨decl.name, decl.states, decl.transitions.map transitionOf, invariantsWithCore blocks,
    decl.parameters⟩

/-- What is published of the rules: those that are declared, and core rules. -/
theorem mem_invariantsWithCore {i : Invariant} :
    i ∈ invariantsWithCore blocks ↔
      (∃ b ∈ blocks, i = ⟨b.name, b.formula, b.kind⟩) ∨
        i ∈ Core.rules ∧ ∀ b ∈ blocks, b.name ≠ i.name := by
  have hnew : (!((blocks.map fun b => (⟨b.name, b.formula, b.kind⟩ : Invariant)).map
      Invariant.name).contains i.name) = true ↔ ∀ b ∈ blocks, b.name ≠ i.name := by
    rw [Bool.not_eq_true', ← Bool.not_eq_true, List.contains_iff_mem, List.map_map, List.mem_map,
      not_exists]
    exact forall_congr' fun b => not_and
  rw [invariantsWithCore, List.mem_append, List.mem_map, List.mem_filter, hnew]
  exact or_congr_left (exists_congr fun b => and_congr_right fun _ => eq_comm)

/-- The names of the published rules are not repeated. -/
theorem nodup_invariantsWithCore (names : (blocks.map FormulaDecl.name).Nodup) :
    ((invariantsWithCore blocks).map Invariant.name).Nodup := by
  have hcore : (Core.rules.map Invariant.name).Nodup := by decide
  have hdeclared : (blocks.map fun b => (⟨b.name, b.formula, b.kind⟩ : Invariant)).map
      Invariant.name = blocks.map FormulaDecl.name := List.map_map
  rw [invariantsWithCore, List.map_append, List.nodup_append, hdeclared]
  refine ⟨names, hcore.sublist (List.filter_sublist.map _), ?_⟩
  -- a core rule is added only if its name is not there
  intro name hname other hother same
  obtain ⟨rule, hrule, rfl⟩ := List.mem_map.1 hother
  have hnew := (List.mem_filter.1 hrule).2
  rw [← same, Bool.not_eq_true', ← Bool.not_eq_true, List.contains_iff_mem] at hnew
  exact hnew hname

/-- What is declared is published. -/
theorem mem_formulas_publishedOf {f : Formula}
    (hf : f ∈ decl.formulas ++ blocks.map FormulaDecl.formula) :
    f ∈ (publishedOf decl blocks).formulas := by
  rcases List.mem_append.1 hf with hf | hf
  · obtain ⟨t, ht, hf⟩ := List.mem_flatMap.1 hf
    refine List.mem_append_left _ (List.mem_flatMap.2 ⟨transitionOf t, ?_, hf⟩)
    exact List.mem_map_of_mem ht
  · obtain ⟨b, hb, rfl⟩ := List.mem_map.1 hf
    refine List.mem_append_right _ (List.mem_map.2 ⟨⟨b.name, b.formula, b.kind⟩, ?_, rfl⟩)
    exact mem_invariantsWithCore.2 (.inl ⟨b, hb, rfl⟩)

/-- What is published was declared, or is a core rule. -/
theorem mem_or_core_of_mem_formulas {f : Formula} (hf : f ∈ (publishedOf decl blocks).formulas) :
    f ∈ decl.formulas ++ blocks.map FormulaDecl.formula ∨
      ∃ rule ∈ Core.rules, rule ∈ (publishedOf decl blocks).invariants ∧ f = rule.formula := by
  rcases List.mem_append.1 hf with hf | hf
  · obtain ⟨t', ht', hf⟩ := List.mem_flatMap.1 hf
    obtain ⟨t, ht, rfl⟩ := List.mem_map.1 ht'
    exact .inl (List.mem_append_left _ (List.mem_flatMap.2 ⟨t, ht, hf⟩))
  · obtain ⟨i, hi, rfl⟩ := List.mem_map.1 hf
    rcases mem_invariantsWithCore.1 hi with ⟨b, hb, rfl⟩ | ⟨hrule, -⟩
    · exact .inl (List.mem_append_right _ (List.mem_map_of_mem hb))
    · exact .inr ⟨i, hrule, hi, rfl⟩

/-- **What is published is in order**, if what is declared is and the predicates of the core rules
are known. -/
theorem WellDeclared.wellFormed (h : WellDeclared vocabulary decl blocks)
    (core : ∀ q ∈ Core.predicates, q ∈ vocabulary) :
    (publishedOf decl blocks).WellFormed vocabulary
      (decl.formulas ++ blocks.map FormulaDecl.formula) where
  states := h.states
  ends t ht := by
    obtain ⟨d, hd, rfl⟩ := List.mem_map.1 ht
    exact h.ends d hd
  pairs := by
    have hpairs := h.pairs
    rwa [publishedOf, List.map_map]
  found t ht := by
    have hpairs := h.pairs
    have hmap : ((publishedOf decl blocks).transitions.map fun t => (t.source, t.target)) =
        decl.transitions.map fun t => (t.source, t.target) := List.map_map
    rw [← hmap] at hpairs
    exact (Project.find?_key_eq_some_iff _ _ hpairs _ t).2 ⟨ht, rfl⟩
  parameters := h.parameters
  references f hf g hg := by
    rcases mem_or_core_of_mem_formulas hf with own | ⟨rule, hrule, -, rfl⟩
    · exact (h.references f own g hg).mono (List.Subset.refl _) (.inl rfl) (List.Subset.refl _)
    · have hcore := (Scope.formulaFaults_eq_nil_iff _ _).1 (faultless_core core hrule)
      exact (hcore.1 g hg).mono (List.nil_subset _) (.inl rfl) (List.Subset.refl _)
  own f hf := ⟨mem_formulas_publishedOf hf, h.references f hf⟩
  names := nodup_invariantsWithCore h.names
  core rule hrule := by
    have hnamed : ∀ i ∈ invariantsWithCore blocks, i.name = rule.name →
        i.formula = rule.formula := by
      intro i hi same
      rcases mem_invariantsWithCore.1 hi with ⟨b, hb, rfl⟩ | ⟨hcore, -⟩
      · exact h.reserved b hb rule hrule same
      · rw [Core.eq_of_name hcore hrule same]
    refine ⟨List.count_eq_one_of_mem (nodup_invariantsWithCore h.names) ?_, hnamed⟩
    -- the rule is declared under its name, or added
    by_cases declared : ∃ b ∈ blocks, b.name = rule.name
    · obtain ⟨b, hb, same⟩ := declared
      exact List.mem_map.2 ⟨_, mem_invariantsWithCore.2 (.inl ⟨b, hb, rfl⟩), same⟩
    · simp only [not_exists, not_and] at declared
      exact List.mem_map_of_mem (mem_invariantsWithCore.2 (.inr ⟨hrule, declared⟩))

theorem Effect.name_of_ofName? {name : String} {e : Effect} (h : Effect.ofName? name = some e) :
    e.name = name := by
  unfold Effect.ofName? at h
  split at h
  · next is =>
    obtain rfl := Option.some.inj h
    exact is.symm
  · split at h
    · next is =>
      obtain rfl := Option.some.inj h
      exact is.symm
    · cases h

/-- No declared effect is lost. -/
theorem effects_publishedOf (h : WellDeclared vocabulary decl blocks) :
    (publishedOf decl blocks).transitions.map (fun t => t.effects.map Effect.name) =
      decl.transitions.map TransitionDecl.effects := by
  have heffects : ∀ names : List String,
      (∀ e ∈ names, (Effect.ofName? e).isSome = true) →
        (names.filterMap Effect.ofName?).map Effect.name = names := by
    intro names known
    induction names with
    | nil => rfl
    | cons name names ih =>
      obtain ⟨hname, known⟩ := List.forall_mem_cons.1 known
      obtain ⟨e, he⟩ := Option.isSome_iff_exists.1 hname
      rw [List.filterMap_cons_some he, List.map_cons, ih known, Effect.name_of_ofName? he]
  rw [publishedOf, List.map_map]
  refine List.map_congr_left ?_
  intro t ht
  exact heffects t.effects (h.effects t ht)

end Published

/-! ### Loading -/

/-- **Which texts are loaded, and what is published.**  With all predicates there are, a text is
loaded exactly if it declares one workflow in which everything is in order; and then everything in
the published workflow is in order, none of its effects is lost, and its own formulas are those of
the text. -/
theorem Registry.load_iff_wellDeclared (entries : List Workflow) (text : String) :
    ((∃ r w, (⟨.full, entries⟩ : Registry).load text = .ok (r, w)) ↔
      ∃ d decl, Rule.parse text = .ok d ∧ d.workflows = [decl] ∧
        WellDeclared .full decl d.formulas) ∧
    ∀ r w, (⟨.full, entries⟩ : Registry).load text = .ok (r, w) →
      ∃ d decl, Rule.parse text = .ok d ∧ d.workflows = [decl] ∧
        w.WellFormed .full (decl.formulas ++ d.formulas.map FormulaDecl.formula) ∧
        w.transitions.map (fun t => t.effects.map Effect.name) =
          decl.transitions.map TransitionDecl.effects := by
  have unpack : ∀ r w, (⟨.full, entries⟩ : Registry).load text = .ok (r, w) →
      ∃ d decl, Rule.parse text = .ok d ∧ d.workflows = [decl] ∧
        WellDeclared .full decl d.formulas ∧ w = publishedOf decl d.formulas := by
    intro r w loaded
    obtain ⟨d, hparse, hbuild⟩ := Registry.check_eq_ok_iff.1 (Registry.load_eq_ok_iff.1 loaded).1
    obtain ⟨decl, single, clean, rfl⟩ := buildWorkflow_eq_ok_iff.1 hbuild
    exact ⟨d, decl, hparse, single, problems_eq_nil_iff.1 clean, rfl⟩
  refine ⟨⟨?_, ?_⟩, ?_⟩
  · rintro ⟨r, w, loaded⟩
    obtain ⟨d, decl, hparse, single, declared, -⟩ := unpack r w loaded
    exact ⟨d, decl, hparse, single, declared⟩
  · rintro ⟨d, decl, hparse, single, declared⟩
    have hbuild : buildWorkflow .full d = .ok (publishedOf decl d.formulas) :=
      buildWorkflow_eq_ok_iff.2 ⟨decl, single, problems_eq_nil_iff.2 declared, rfl⟩
    exact ⟨_, _, Registry.load_eq_ok_iff.2
      ⟨Registry.check_eq_ok_iff.2 ⟨d, hparse, hbuild⟩, rfl⟩⟩
  · intro r w loaded
    obtain ⟨d, decl, hparse, single, declared, rfl⟩ := unpack r w loaded
    have core : ∀ q ∈ Core.predicates, q ∈ Vocabulary.full := by decide
    exact ⟨d, decl, hparse, single, declared.wellFormed core, effects_publishedOf declared⟩

end ChangeControl
