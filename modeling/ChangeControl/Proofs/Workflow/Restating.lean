import ChangeControl.Proofs.Rule.Joining
import ChangeControl.Proofs.Workflow.Declared
/-!
Texts that restate the core rules.

The core rules belong to every workflow, and a text may restate them.  To restate all of them should
change nothing, and where it is accepted, it changes nothing.  But a rule that a text states is
checked like any other rule of the text, while a rule that is added is not: a workflow with
parameters need not admit tasks and commits, and its text is refused then if it restates the core
rules.

Main definitions:

* `CoversCore` — with these parameters a workflow may range over tasks and commits;
* `Workflow.coreProblems` — the problems of the core rules among the rules of a text.

Main results:

* `Workflow.coreProblems_eq_nil_iff` — when the core rules can be restated;
* `Registry.load_restated` — **restating the core rules changes nothing, or is refused**, and which
  of the two.
-/

set_option autoImplicit false

namespace ChangeControl

open Rule (Formula Term FormulaDecl WorkflowDecl Document)

/-! ### The core rules as text -/

/-- The text of the core rules declares the core rules. -/
theorem Core.parse_text :
    (Rule.parse Core.text).toOption.map (fun d => (d.workflows, Core.invariantsOf d)) =
      some ([], Core.rules) := by
  -- line by line, which is evaluated faster than the whole text
  have chars : Core.text.toList = Core.lines.flatMap String.toList := String.toList_join
  rw [Rule.parse, Rule.scan, chars]
  decide +kernel

/-- A rule stated further down is the same rule. -/
theorem Core.invariantsOf_shift (d : Document) (n : Nat) :
    Core.invariantsOf (d.shift n) = Core.invariantsOf d := by
  rw [Core.invariantsOf, Document.shift, List.map_map]
  rfl

/-- A text followed by the core rules declares what it declares by itself, and the core rules. -/
theorem Core.exists_parse_restated {text : String} {d : Document} (h : Rule.parse text = .ok d) :
    ∃ e : Document, Rule.parse (text ++ "\n" ++ Core.text) = .ok (d.append e) ∧
      e.workflows = [] ∧ Core.invariantsOf e = Core.rules := by
  obtain ⟨e, he, heq⟩ := Option.map_eq_some_iff.1 Core.parse_text
  obtain ⟨workflows, rules⟩ := Prod.mk.injEq .. ▸ heq
  refine ⟨e.shift _, Rule.parse_append h (Rule.toOption_eq_some_iff.1 he), ?_, ?_⟩
  · rw [Document.shift, workflows, List.map_nil]
  · rw [Core.invariantsOf_shift, rules]

/-! ### Checking the core rules -/

/-- The domains that a formula names. -/
def Rule.Formula.domains (f : Formula) : List String := f.walk.filterMap Formula.domain?

/-- With these parameters a workflow may range over values of the kind. -/
def CoversKind (parameters : List String) (k : ValueKind) : Prop :=
  parameters = [] ∨ ∃ p ∈ parameters, ∃ d, Domain.ofName? p = some d ∧ d.kind = k

/-- With these parameters a workflow may range over tasks and commits, as the core rules do. -/
def CoversCore (parameters : List String) : Prop :=
  CoversKind parameters .task ∧ CoversKind parameters .commit

section Checking

variable {s : Scope} {name : String} {d : Domain} {env : KindEnv}

namespace Scope

theorem domainFaults_eq_nil_iff_covers (h : Domain.ofName? name = some d) :
    s.domainFaults name = [] ↔ CoversKind s.parameters d.kind := by
  rw [domainFaults_eq_nil_iff]
  simp [Admits, CoversKind, h]

theorem domainFaults_of_ofName? (h : Domain.ofName? name = some d) :
    s.domainFaults name = [] ∨
      s.domainFaults name = [.domainOutsideParameters name s.parameters] := by
  rw [domainFaults, h]
  simp only
  split
  · exact .inl rfl
  · exact .inr rfl

/-- A predicate of one variable is in order where the variable may have the kind it asks for. -/
theorem formulaFaults_holdsOf {q : Predicate} {v : String} {k : ValueKind}
    (known : q ∈ s.vocabulary) (params : q.params = [k])
    (suits : ∀ given, env.find? v = some given → given = k) :
    s.formulaFaults (Core.holdsOf q.name v) env = [] := by
  have fits : s.argumentFaults env q.name (.var v) k = [] :=
    argumentFaults_eq_nil_iff.2 ⟨trivial, suits, fun _ same => nomatch same⟩
  simp [Core.holdsOf, formulaFaults, predicateFaults, find?_name_of_mem known, params, fits]

/-- A test of a variable that may be in the domain has the faults of the domain only. -/
theorem membershipFaults_var {v : String} (h : Domain.ofName? name = some d)
    (suits : ∀ given, env.find? v = some given → given = d.kind) :
    s.membershipFaults env (.var v) name = s.domainFaults name := by
  rw [membershipFaults]
  cases hfaults : s.domainFaults name with
  | cons fault faults => rfl
  | nil =>
    simp only [h, termFaults]
    cases hgiven : env.find? v with
    | none => rfl
    | some given => exact if_pos (suits given hgiven)

/-- A variable has the kind of the members of its domain, if it has one. -/
theorem find?_variableKind {v : String} (h : Domain.ofName? name = some d) :
    ∀ given, KindEnv.find? [(v, s.variableKind name)] v = some given → given = d.kind := by
  intro given hgiven
  have kind : s.variableKind name = some given := by simpa [KindEnv.find?] using hgiven
  rw [variableKind, h] at kind
  split at kind
  · exact (Option.some.inj kind).symm
  · cases kind

theorem formulaFaults_layerRule (l : Layer) {body : Formula}
    (h : s.formulaFaults body [("task", s.variableKind "tasks")] = []) :
    s.formulaFaults (Core.layerRule l.name body) [] =
      s.domainFaults "tasks" ++ s.domainFaults l.name := by
  obtain ⟨d, named, kind⟩ : ∃ d, Domain.ofName? l.name = some d ∧ d.kind = .task := by
    cases l <;> exact ⟨_, rfl, rfl⟩
  have suits : ∀ given, KindEnv.find? [("task", s.variableKind "tasks")] "task" = some given →
      given = .task := find?_variableKind (d := .tasks) rfl
  have member := membershipFaults_var (s := s) named fun given hgiven =>
    (suits given hgiven).trans kind.symm
  simp only [Core.layerRule, formulaFaults, h, List.append_nil]
  rw [member]

end Scope

/-- The core rules name domains of tasks and of commits. -/
theorem Core.exists_domain {rule : Invariant} (hrule : rule ∈ Core.rules)
    (hname : name ∈ rule.formula.domains) :
    ∃ d, Domain.ofName? name = some d ∧ (d.kind = .task ∨ d.kind = .commit) := by
  have all : ∀ rule ∈ Core.rules, ∀ name ∈ rule.formula.domains,
      (Domain.ofName? name).map Domain.kind = some .task ∨
        (Domain.ofName? name).map Domain.kind = some .commit := by decide +kernel
  rcases all rule hrule name hname with h | h
  all_goals
    obtain ⟨d, hd, kind⟩ := Option.map_eq_some_iff.1 h
    simp [hd, kind]

/-- **A core rule has no faults but those of the domains that it names.** -/
theorem Core.formulaFaults_eq (core : ∀ q ∈ Core.predicates, q ∈ s.vocabulary) {rule : Invariant}
    (hrule : rule ∈ Core.rules) :
    s.formulaFaults rule.formula [] = rule.formula.domains.flatMap s.domainFaults := by
  have task : ∀ given, KindEnv.find? [("task", s.variableKind "tasks")] "task" = some given →
      given = .task := Scope.find?_variableKind (d := .tasks) rfl
  have commit : ∀ given, KindEnv.find? [("commit", s.variableKind "commits")] "commit" =
      some given → given = .commit := Scope.find?_variableKind (d := .commits) rfl
  simp only [Core.rules, List.mem_cons, List.not_mem_nil, or_false] at hrule
  rcases hrule with rfl | rfl | rfl | rfl
  · have domains : Core.backlogOpen.formula.domains = ["tasks", "backlog"] := by decide +kernel
    have body := Scope.formulaFaults_holdsOf (q := .completed) (core _ (by decide)) rfl task
    rw [domains, List.flatMap_cons, List.flatMap_singleton]
    refine Scope.formulaFaults_layerRule .backlog ?_
    rw [Scope.formulaFaults]
    exact body
  · have domains : Core.changelogCompleted.formula.domains = ["tasks", "changelog"] := by
      decide +kernel
    have body := Scope.formulaFaults_holdsOf (q := .completed) (core _ (by decide)) rfl task
    rw [domains, List.flatMap_cons, List.flatMap_singleton]
    exact Scope.formulaFaults_layerRule .changelog body
  · have domains : Core.journalEntriesCommitted.formula.domains = ["tasks", "journal"] := by
      decide +kernel
    have body := Scope.formulaFaults_holdsOf (q := .committed) (core _ (by decide)) rfl task
    rw [domains, List.flatMap_cons, List.flatMap_singleton]
    exact Scope.formulaFaults_layerRule .journal body
  · have domains : Core.validatedCommitRevertible.formula.domains = ["commits"] := by
      decide +kernel
    have validated : s.formulaFaults (Core.holdsOf "validated" "commit")
        [("commit", s.variableKind "commits")] = [] :=
      Scope.formulaFaults_holdsOf (q := .validated) (core _ (by decide)) rfl commit
    have revertible : s.formulaFaults (Core.holdsOf "revertible" "commit")
        [("commit", s.variableKind "commits")] = [] :=
      Scope.formulaFaults_holdsOf (q := .revertible) (core _ (by decide)) rfl commit
    rw [domains, List.flatMap_singleton, Core.validatedCommitRevertible, Scope.formulaFaults,
      Scope.formulaFaults]
    simp only [validated, revertible, List.append_nil]

/-- The core rules have no faults exactly if tasks and commits may be ranged over. -/
theorem Core.formulaFaults_eq_nil_iff (core : ∀ q ∈ Core.predicates, q ∈ s.vocabulary) :
    (∀ rule ∈ Core.rules, s.formulaFaults rule.formula [] = []) ↔ CoversCore s.parameters := by
  constructor
  · intro faultless
    have named (rule : Invariant) (hrule : rule ∈ Core.rules) (name : String)
        (hname : name ∈ rule.formula.domains) : s.domainFaults name = [] := by
      have faults := faultless rule hrule
      rw [Core.formulaFaults_eq core hrule, List.flatMap_eq_nil_iff] at faults
      exact faults name hname
    have tasks := named Core.backlogOpen (by decide) "tasks" (by decide +kernel)
    have commits := named Core.validatedCommitRevertible (by decide) "commits" (by decide +kernel)
    exact ⟨(Scope.domainFaults_eq_nil_iff_covers (d := .tasks) rfl).1 tasks,
      (Scope.domainFaults_eq_nil_iff_covers (d := .commits) rfl).1 commits⟩
  · rintro ⟨task, commit⟩ rule hrule
    rw [Core.formulaFaults_eq core hrule, List.flatMap_eq_nil_iff]
    intro name hname
    obtain ⟨d, hd, kind⟩ := Core.exists_domain hrule hname
    rw [Scope.domainFaults_eq_nil_iff_covers hd]
    rcases kind with kind | kind
    · exact kind ▸ task
    · exact kind ▸ commit

/-- All faults of core rules are domains outside the parameters. -/
theorem Core.exists_of_mem_formulaFaults (core : ∀ q ∈ Core.predicates, q ∈ s.vocabulary)
    {rule : Invariant} (hrule : rule ∈ Core.rules) {fault : Fault}
    (h : fault ∈ s.formulaFaults rule.formula []) :
    ∃ name, fault = .domainOutsideParameters name s.parameters := by
  rw [Core.formulaFaults_eq core hrule, List.mem_flatMap] at h
  obtain ⟨name, hname, hfault⟩ := h
  obtain ⟨d, hd, -⟩ := Core.exists_domain hrule hname
  rcases Scope.domainFaults_of_ofName? hd with none | one
  · rw [none] at hfault
    cases hfault
  · rw [one, List.mem_singleton] at hfault
    exact ⟨name, hfault⟩

/-! ### Problems -/

theorem blocksProblems_append {seen : List String} (fs gs : List FormulaDecl) :
    blocksProblems s seen (fs ++ gs) =
      blocksProblems s seen fs ++
        blocksProblems s ((fs.map FormulaDecl.name).reverse ++ seen) gs := by
  induction fs generalizing seen with
  | nil => rfl
  | cons f fs ih =>
    rw [List.cons_append, blocksProblems, ih, blocksProblems, List.append_assoc, List.map_cons,
      List.reverse_cons, List.append_assoc]
    rfl

/-- Core rules that are stated for the first time have no problems but their faults. -/
theorem blocksProblems_of_core {seen : List String} {fs : List FormulaDecl}
    (restated : ∀ f ∈ fs, (⟨f.name, f.formula, f.kind⟩ : Invariant) ∈ Core.rules)
    (new : Fresh seen (fs.map FormulaDecl.name)) :
    blocksProblems s seen fs =
      fs.flatMap fun f => faultsAt (.block f.kind f.name) (s.formulaFaults f.formula []) := by
  induction fs generalizing seen with
  | nil => rfl
  | cons f fs ih =>
    obtain ⟨isCore, others⟩ := List.forall_mem_cons.1 restated
    obtain ⟨fresh, more⟩ := fresh_cons_iff.1 new
    have found : Core.find? f.name = some ⟨f.name, f.formula, f.kind⟩ := Core.find?_name _ isCore
    rw [blocksProblems, ih others more, List.flatMap_cons, blockProblems,
      repeated_eq_nil_iff.2 fresh, found]
    simp only [if_pos, List.nil_append]

end Checking

/-! ### Loading -/

theorem Core.mem_full : ∀ q ∈ Core.predicates, q ∈ Vocabulary.full := by decide

/-- The problems of the core rules where the text of the workflow states them. -/
def Workflow.coreProblems (w : Workflow) : List Problem :=
  Core.rules.flatMap fun rule =>
    faultsAt (.block rule.kind rule.name)
      ((⟨w.states, w.parameters, .full⟩ : Scope).formulaFaults rule.formula [])

theorem Workflow.coreProblems_eq_nil_iff {w : Workflow} :
    w.coreProblems = [] ↔ CoversCore w.parameters := by
  rw [coreProblems, List.flatMap_eq_nil_iff]
  simp only [faultsAt, List.map_eq_nil_iff]
  exact Core.formulaFaults_eq_nil_iff Core.mem_full

theorem Workflow.exists_of_mem_coreProblems {w : Workflow} {p : Problem}
    (h : p ∈ w.coreProblems) : ∃ rule ∈ Core.rules, ∃ name,
      p = .located (.block rule.kind rule.name) (.domainOutsideParameters name w.parameters) := by
  obtain ⟨rule, hrule, hp⟩ := List.mem_flatMap.1 h
  obtain ⟨fault, hfault, rfl⟩ := List.mem_map.1 hp
  obtain ⟨name, rfl⟩ := Core.exists_of_mem_formulaFaults Core.mem_full hrule hfault
  exact ⟨rule, hrule, name, rfl⟩

section Loading

variable {decl : WorkflowDecl} {fs gs : List FormulaDecl}

/-- The problems of a text without problems that goes on with the core rules are those of the core
rules. -/
theorem problems_append_core (clean : problems .full decl fs = [])
    (silent : ∀ f ∈ fs, f.name ∉ Core.rules.map Invariant.name)
    (core : gs.map (fun g => (⟨g.name, g.formula, g.kind⟩ : Invariant)) = Core.rules) :
    problems .full decl (fs ++ gs) = (publishedOf decl fs).coreProblems := by
  obtain ⟨before, blocks⟩ := List.append_eq_nil_iff.1 clean
  have restated : ∀ g ∈ gs, (⟨g.name, g.formula, g.kind⟩ : Invariant) ∈ Core.rules := by
    intro g hg
    rw [← core]
    exact List.mem_map_of_mem hg
  have names : gs.map FormulaDecl.name = Core.rules.map Invariant.name := by
    rw [← core, List.map_map]
    rfl
  have new : Fresh ((fs.map FormulaDecl.name).reverse ++ []) (gs.map FormulaDecl.name) := by
    rw [names, List.append_nil]
    refine ⟨by decide, ?_⟩
    intro name hname known
    obtain ⟨f, hf, rfl⟩ := List.mem_map.1 (List.mem_reverse.1 known)
    exact silent f hf hname
  simp only [problems]
  rw [before, List.nil_append, blocksProblems_append, blocks, List.nil_append,
    blocksProblems_of_core restated new, Workflow.coreProblems, ← core, List.flatMap_map]
  rfl

/-- What is published does not change where the core rules are restated. -/
theorem invariantsWithCore_append_core
    (silent : ∀ f ∈ fs, f.name ∉ Core.rules.map Invariant.name)
    (core : gs.map (fun g => (⟨g.name, g.formula, g.kind⟩ : Invariant)) = Core.rules) :
    invariantsWithCore (fs ++ gs) = invariantsWithCore fs := by
  rw [invariantsWithCore, invariantsWithCore, List.map_append, core]
  have added : Core.rules.filter (fun rule =>
      !((fs.map fun f => (⟨f.name, f.formula, f.kind⟩ : Invariant)).map
        Invariant.name).contains rule.name) = Core.rules := by
    refine List.filter_eq_self.2 fun rule hrule => ?_
    rw [Bool.not_eq_true', ← Bool.not_eq_true, List.contains_iff_mem, List.map_map]
    intro known
    obtain ⟨f, hf, same⟩ := List.mem_map.1 known
    exact silent f hf (List.mem_map.2 ⟨rule, hrule, same.symm⟩)
  have stated : Core.rules.filter (fun rule =>
      !(((fs.map fun f => (⟨f.name, f.formula, f.kind⟩ : Invariant)) ++ Core.rules).map
        Invariant.name).contains rule.name) = [] := by
    refine List.filter_eq_nil_iff.2 fun rule hrule => ?_
    rw [Bool.not_eq_true', Bool.not_eq_false, List.contains_iff_mem, List.map_append]
    exact List.mem_append_right _ (List.mem_map_of_mem hrule)
  rw [added, stated, List.append_nil]

end Loading

namespace Registry

variable {entries : List Workflow} {text : String} {r : Registry} {w : Workflow}

/-- A text without rules under the names of the core rules is checked with the core rules after it:
there is the same workflow, or there are the problems of the core rules. -/
theorem check_restated (checked : (⟨.full, entries⟩ : Registry).check text = .ok w)
    (silent : ∀ d, Rule.parse text = .ok d →
      ∀ f ∈ d.formulas, f.name ∉ Core.rules.map Invariant.name) :
    (⟨.full, entries⟩ : Registry).check (text ++ "\n" ++ Core.text) =
      match w.coreProblems with
      | [] => .ok w
      | ps => .error (.inconsistent (.inconsistent w.name ps)) := by
  obtain ⟨d, hparse, hbuild⟩ := check_eq_ok_iff.1 checked
  obtain ⟨decl, single, clean, hw⟩ := buildWorkflow_eq_ok_iff.1 hbuild
  obtain rfl : w = publishedOf decl d.formulas := hw
  obtain ⟨e, hparse', none, core⟩ := Core.exists_parse_restated hparse
  have single' : (d.append e).workflows = [decl] := by
    rw [Document.append, none, List.append_nil, single]
  have found : problems .full decl (d.append e).formulas =
      (publishedOf decl d.formulas).coreProblems :=
    problems_append_core clean (silent d hparse) core
  have same : invariantsWithCore (d.append e).formulas = invariantsWithCore d.formulas :=
    invariantsWithCore_append_core (silent d hparse) core
  rw [check, hparse']
  simp only [buildWorkflow, single', found]
  cases (publishedOf decl d.formulas).coreProblems with
  | nil => rw [same, publishedOf]
  | cons p ps => rfl

/-- A text without rules states none under the name of a core rule. -/
theorem silent_of_no_formulas (h : (Rule.parse text).toOption.map Document.formulas = some []) :
    ∀ d, Rule.parse text = .ok d → ∀ f ∈ d.formulas, f.name ∉ Core.rules.map Invariant.name := by
  intro d hparse f hf
  rw [hparse] at h
  rw [Option.some.inj h] at hf
  exact absurd hf List.not_mem_nil

/-- **Restating the core rules changes nothing, or is refused.**  A text that is loaded, and states
no rule under the name of a core rule, can be followed by the core rules.  If its workflow may range
over tasks and commits, then the longer text is loaded as well, and the same is published; if not,
it is refused, and all its problems are that a core rule ranges over a domain outside the
parameters. -/
theorem load_restated (loaded : (⟨.full, entries⟩ : Registry).load text = .ok (r, w))
    (silent : ∀ d, Rule.parse text = .ok d →
      ∀ f ∈ d.formulas, f.name ∉ Core.rules.map Invariant.name) :
    (CoversCore w.parameters →
      (⟨.full, entries⟩ : Registry).load (text ++ "\n" ++ Core.text) = .ok (r, w)) ∧
    (¬ CoversCore w.parameters → ∃ ps, ps ≠ [] ∧
      (⟨.full, entries⟩ : Registry).load (text ++ "\n" ++ Core.text) =
        .error (.inconsistent (.inconsistent w.name ps)) ∧
      ∀ p ∈ ps, ∃ rule ∈ Core.rules, ∃ name,
        p = .located (.block rule.kind rule.name)
          (.domainOutsideParameters name w.parameters)) := by
  obtain ⟨checked, rfl⟩ := load_eq_ok_iff.1 loaded
  have hcheck := check_restated checked silent
  constructor
  · intro covers
    rw [Workflow.coreProblems_eq_nil_iff.2 covers] at hcheck
    exact load_eq_ok_iff.2 ⟨hcheck, rfl⟩
  · intro narrow
    have some : w.coreProblems ≠ [] := fun clear =>
      narrow (Workflow.coreProblems_eq_nil_iff.1 clear)
    refine ⟨w.coreProblems, some, ?_, fun p hp => Workflow.exists_of_mem_coreProblems hp⟩
    rw [load, hcheck]
    cases hps : w.coreProblems with
    | nil => exact absurd hps some
    | cons p ps => rfl

/-- At a workflow that names both kinds among its parameters. -/
theorem load_restated_backlog_commits :
    ∃ r w, (⟨.full, []⟩ : Registry).load "workflow W[backlog, commits] \x7b states: [A]; \x7d" =
        .ok (r, w) ∧
      (⟨.full, []⟩ : Registry).load
        ("workflow W[backlog, commits] \x7b states: [A]; \x7d" ++ "\n" ++ Core.text) =
        .ok (r, w) := by
  have known : ((⟨.full, []⟩ : Registry).load
      "workflow W[backlog, commits] \x7b states: [A]; \x7d").toOption.map
        (fun loaded => loaded.2.parameters) = some ["backlog", "commits"] := by decide +kernel
  have silent : (Rule.parse "workflow W[backlog, commits] \x7b states: [A]; \x7d").toOption.map
      Document.formulas = some [] := by decide +kernel
  obtain ⟨⟨r, w⟩, hload, parameters⟩ := Option.map_eq_some_iff.1 known
  have loaded := Rule.toOption_eq_some_iff.1 hload
  have covers : CoversCore w.parameters := by
    rw [parameters]
    exact ⟨.inr ⟨"backlog", by decide, .backlog, rfl, rfl⟩,
      .inr ⟨"commits", by decide, .commits, rfl, rfl⟩⟩
  exact ⟨r, w, loaded, (load_restated loaded (silent_of_no_formulas silent)).1 covers⟩

/-- A workflow with tasks as its only parameter is loaded, and is refused with the core rules after
it. -/
theorem exists_not_restated :
    ¬ ∀ (entries : List Workflow) (text : String) (r : Registry) (w : Workflow),
      (⟨.full, entries⟩ : Registry).load text = .ok (r, w) →
      (∀ d, Rule.parse text = .ok d →
        ∀ f ∈ d.formulas, f.name ∉ Core.rules.map Invariant.name) →
      (⟨.full, entries⟩ : Registry).load (text ++ "\n" ++ Core.text) = .ok (r, w) := by
  intro restates
  have known : ((⟨.full, []⟩ : Registry).load
      "workflow W[tasks] \x7b states: [A]; \x7d").toOption.map
        (fun loaded => loaded.2.parameters) = some ["tasks"] := by decide +kernel
  have silent : (Rule.parse "workflow W[tasks] \x7b states: [A]; \x7d").toOption.map
      Document.formulas = some [] := by decide +kernel
  obtain ⟨⟨r, w⟩, hload, parameters⟩ := Option.map_eq_some_iff.1 known
  have loaded := Rule.toOption_eq_some_iff.1 hload
  have none := silent_of_no_formulas silent
  have again := (load_eq_ok_iff.1 (restates [] _ r w loaded none)).1
  rw [check_restated (load_eq_ok_iff.1 loaded).1 none] at again
  have clear : w.coreProblems = [] := by
    cases hps : w.coreProblems with
    | nil => rfl
    | cons p ps => simp [hps] at again
  have covers := Workflow.coreProblems_eq_nil_iff.1 clear
  rw [parameters] at covers
  rcases covers.2 with empty | ⟨p, hp, d, named, kind⟩
  · cases empty
  · obtain rfl := List.mem_singleton.1 hp
    obtain rfl : Domain.tasks = d := Option.some.inj named
    cases kind

end Registry

end ChangeControl
