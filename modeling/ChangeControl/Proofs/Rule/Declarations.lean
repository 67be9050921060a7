import ChangeControl.Proofs.Rule.WellFormed
import ChangeControl.Rule.Document.Parser
/-!
The formulas of a document.

Every formula that a document declares, before or after a transition or in a block of its own, was
read by the grammar of formulas and is therefore closed.  The other parts of a document only carry
these formulas along.

Main definitions:

* `Rule.Document.sentences` — everything that a document says.

Main results:

* `Rule.isClosed_of_parse` — **every formula of a document is closed**.
-/

set_option autoImplicit false

namespace ChangeControl.Rule

/-! ### What is declared -/

/-- What a transition demands. -/
def TransitionDecl.formulas (t : TransitionDecl) : List Formula := [t.precondition, t.postcondition]

/-- What the transitions of a workflow demand. -/
def WorkflowDecl.formulas (w : WorkflowDecl) : List Formula :=
  w.transitions.flatMap TransitionDecl.formulas

/-- Everything that a document says. -/
def Document.sentences (d : Document) : List Formula :=
  d.workflows.flatMap WorkflowDecl.formulas ++ d.formulas.map FormulaDecl.formula

/-! ### Parts of a workflow -/

section Parts

variable {stop : Position}

theorem isClosed_of_closedFormula_eq_ok {context : Context} {ts : List Token}
    {p : Parsed Formula ts.length} (h : closedFormula stop context ts = .ok p) :
    p.value.IsClosed anyWord :=
  isClosed_of_closedFormula (spelled_anyWord ts) (by rw [h, outcome_ok])

/-- What the clauses demand is closed. -/
structure Clauses.AreClosed (c : Clauses) : Prop where
  requires : ∀ f, c.requires = some f → f.IsClosed anyWord
  ensures : ∀ f, c.ensures = some f → f.IsClosed anyWord

theorem Clauses.areClosed_none : Clauses.none.AreClosed := ⟨by simp [none], by simp [none]⟩

theorem areClosed_of_clause {word : String} {c : Clauses} {ts : List Token}
    {p : Parsed Clauses ts.length} (closed : c.AreClosed)
    (h : clause stop word c ts = .ok p) : p.value.AreClosed := by
  unfold clause at h
  split at h
  · -- effects are no formulas
    split at h
    · cases h
    · split at h
      · cases h
      · cases h
        exact ⟨closed.requires, closed.ensures⟩
  · split at h
    · cases h
    · next f hf =>
      cases h
      have hclosed := isClosed_of_closedFormula_eq_ok hf
      simp only [Parsed.value_map]
      split
      · exact ⟨fun g hg => Option.some.inj hg ▸ hclosed, closed.ensures⟩
      · exact ⟨closed.requires, fun g hg => Option.some.inj hg ▸ hclosed⟩

theorem areClosed_of_clausesFrom {source target : String} {c : Clauses} {ts : List Token}
    {p : Parsed Clauses (ts.length + 1)} (closed : c.AreClosed)
    (h : clausesFrom stop source target c ts = .ok p) : p.value.AreClosed := by
  unfold clausesFrom at h
  split at h
  · cases h
    exact closed
  · next word hword =>
    split at h
    · cases h
    · split at h
      · cases h
      · next read hread =>
        split at h
        · cases h
        · next all hall =>
          cases h
          have := word.shorter
          have := read.shorter
          show all.value.AreClosed
          exact areClosed_of_clausesFrom (areClosed_of_clause closed hread) hall
termination_by ts.length
decreasing_by omega

theorem isClosed_of_transition {ts : List Token} {p : Parsed TransitionDecl ts.length}
    (h : transition stop ts = .ok p) : ∀ f ∈ p.value.formulas, f.IsClosed anyWord := by
  have trivially : (Formula.truth true).IsClosed anyWord := ⟨trivial, rfl⟩
  unfold transition at h
  simp only at h
  split at h
  · cases h
  · split at h
    · cases h
    · split at h
      · cases h
      · split at h
        · cases h
        · next clauses hclauses =>
          cases h
          have closed := areClosed_of_clausesFrom Clauses.areClosed_none hclauses
          intro f hf
          simp only [Parsed.value_maybeBefore, Parsed.value_before, Parsed.value_followedBy,
            Parsed.value_map, TransitionDecl.formulas, List.mem_cons, List.not_mem_nil,
            or_false] at hf
          rcases hf with rfl | rfl
          · cases hr : clauses.value.requires with
            | none => exact trivially
            | some f => exact closed.requires f hr
          · cases he : clauses.value.ensures with
            | none => exact trivially
            | some f => exact closed.ensures f he

theorem forall_of_bracketedItems {α : Type} {P : α → Prop} {opener : Position}
    {item : (ts : List Token) → Reading α ts} (hitem : ∀ ts p, item ts = .ok p → P p.value)
    {ts : List Token} {p : Parsed (List α) ts.length}
    (h : bracketedItems stop opener item ts = .ok p) : ∀ a ∈ p.value, P a := by
  unfold bracketedItems at h
  split at h
  · cases h
  · next first hfirst =>
    have hP := hitem ts first hfirst
    split at h
    · next comma hcomma =>
      split at h
      · cases h
      · next more hmore =>
        cases h
        have := comma.shorter
        have := first.shorter
        show ∀ a ∈ first.value :: more.value, P a
        exact List.forall_mem_cons.2 ⟨hP, forall_of_bracketedItems hitem hmore⟩
    · split at h
      · cases h
        simpa using hP
      · split at h <;> cases h
termination_by ts.length
decreasing_by omega

theorem forall_of_sectionBody {α : Type} {P : α → Prop}
    {item : (ts : List Token) → Reading α ts} (hitem : ∀ ts p, item ts = .ok p → P p.value)
    {ts : List Token} {p : Parsed (List α) ts.length} (h : sectionBody stop item ts = .ok p) :
    ∀ a ∈ p.value, P a := by
  unfold sectionBody at h
  split at h
  · cases h
  · split at h
    · cases h
    · next items hitems =>
      cases h
      unfold bracketed at hitems
      split at hitems
      · cases hitems
      · split at hitems
        · cases hitems
          simp
        · split at hitems
          · cases hitems
          · next items hitems' =>
            cases hitems
            show ∀ a ∈ items.value, P a
            exact forall_of_bracketedItems hitem hitems'

/-- What the transitions of the sections demand is closed. -/
def Sections.AreClosed (s : Sections) : Prop :=
  ∀ ts, s.transitions = some ts → ∀ t ∈ ts, ∀ f ∈ t.formulas, f.IsClosed anyWord

theorem areClosed_of_workflowSection {s : Sections} {ts : List Token}
    {p : Parsed Sections ts.length} (closed : s.AreClosed)
    (h : workflowSection stop s ts = .ok p) : p.value.AreClosed := by
  unfold workflowSection at h
  split at h
  · split at h
    · cases h
    · split at h
      · cases h
      · cases h
        exact closed
  · split at h
    · split at h
      · cases h
      · split at h
        · cases h
        · next transitions htransitions =>
          cases h
          intro ts hts
          cases hts
          exact forall_of_sectionBody (fun _ _ => isClosed_of_transition) htransitions
    · cases h

theorem areClosed_of_workflowBody {opener : Position} {name : String} {s : Sections}
    {ts : List Token} {p : Parsed Sections ts.length} (closed : s.AreClosed)
    (h : workflowBody stop opener name s ts = .ok p) : p.value.AreClosed := by
  unfold workflowBody at h
  simp only at h
  split at h
  · cases h
    exact closed
  · split at h
    · cases h
    · split at h
      · cases h
      · next read hread =>
        split at h
        · cases h
        · next all hall =>
          cases h
          have := (read.followedBy (skipSemicolon read.rest)).shorter
          show all.value.AreClosed
          exact areClosed_of_workflowBody (areClosed_of_workflowSection closed hread) hall
termination_by ts.length
decreasing_by omega

theorem isClosed_of_workflow {offset : Nat} {ts : List Token}
    {p : Parsed WorkflowDecl ts.length} (h : workflow stop offset ts = .ok p) :
    ∀ f ∈ p.value.formulas, f.IsClosed anyWord := by
  unfold workflow at h
  simp only at h
  split at h
  · cases h
  · split at h
    · cases h
    · split at h
      · cases h
      · split at h
        · cases h
        · next sections hsections =>
          cases h
          have closed := areClosed_of_workflowBody (by intro ts hts; cases hts) hsections
          intro f hf
          obtain ⟨t, ht, hf⟩ := List.mem_flatMap.1 hf
          change t ∈ sections.value.transitions.getD [] at ht
          cases hs : sections.value.transitions with
          | none => simp [hs] at ht
          | some ts => exact closed ts hs t (by simpa [hs] using ht) f hf

theorem isClosed_of_formulaBlock {kind : Kind} {offset : Nat} {ts : List Token}
    {p : Parsed FormulaDecl ts.length} (h : formulaBlock stop kind offset ts = .ok p) :
    p.value.formula.IsClosed anyWord := by
  unfold formulaBlock at h
  split at h
  · cases h
  · split at h
    · cases h
    · split at h
      · cases h
      · split at h
        · cases h
        · next f hf =>
          cases h
          exact isClosed_of_closedFormula_eq_ok hf

end Parts

/-! ### Documents -/

theorem isClosed_of_documentFrom {stop : Position} {ts : List Token} {d : Document}
    (h : documentFrom stop ts = .ok d) : ∀ f ∈ d.sentences, f.IsClosed anyWord := by
  match ts, h with
  | [], h =>
    rw [documentFrom] at h
    cases h
    simp [Document.sentences, Document.empty]
  | t :: rest, h =>
    rw [documentFrom] at h
    split at h
    · split at h
      · cases h
      · next w hw =>
        split at h
        · cases h
        · next d' hd =>
          cases h
          have := w.shorter
          have hrest := isClosed_of_documentFrom hd
          intro f hf
          simp only [Document.sentences, Document.addWorkflow, List.flatMap_cons,
            List.append_assoc, List.mem_append] at hf hrest
          rcases hf with hf | hf
          · exact isClosed_of_workflow hw f hf
          · exact hrest f hf
    · split at h
      · cases h
      · next b hb =>
        split at h
        · cases h
        · next d' hd =>
          cases h
          have := b.shorter
          have hrest := isClosed_of_documentFrom hd
          intro f hf
          simp only [Document.sentences, Document.addFormula, List.map_cons, List.mem_append,
            List.mem_cons] at hf hrest
          rcases hf with hf | rfl | hf
          · exact hrest f (.inl hf)
          · exact isClosed_of_formulaBlock hb
          · exact hrest f (.inr hf)
    · exact isClosed_of_documentFrom h
    · cases h
termination_by ts.length
decreasing_by all_goals simp only [List.length_cons]; omega

/-- **Every formula of a document is closed.** -/
theorem isClosed_of_parse {s : String} {d : Document} (h : parse s = .ok d) :
    ∀ f ∈ d.sentences, f.IsClosed anyWord := by
  rw [parse] at h
  cases hscan : scan s with
  | error e => simp [hscan] at h
  | ok stream =>
    simp only [hscan] at h
    exact isClosed_of_documentFrom h

end ChangeControl.Rule
