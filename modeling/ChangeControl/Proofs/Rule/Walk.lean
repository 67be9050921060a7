import ChangeControl.Rule.Formula
/-!
The nodes of a formula.

`Formula.walk` visits the nodes of a formula with a stack.  What is on the stack is visited tree by
tree, so that a formula is visited before its children, and these one after the other.

Main results:

* `Formula.walkStack_eq` — the trees of a stack are visited one after the other;
* `Formula.walk_eq` — **a node is visited before the nodes of its children**;
* `Formula.forall_mem_walk`, `Formula.exists_mem_walk` — what is true of every node, or of some.
-/

set_option autoImplicit false

namespace ChangeControl.Rule.Formula

theorem walkStack_append (stack rest : List Formula) :
    walkStack (stack ++ rest) = walkStack stack ++ walkStack rest := by
  induction stack using walkStack.induct with
  | case1 => rw [walkStack, List.nil_append, List.nil_append]
  | case2 f stack ih =>
    rw [List.cons_append, walkStack, walkStack, List.cons_append, ← ih, List.append_assoc]

/-- The trees of a stack are visited one after the other. -/
theorem walkStack_eq (stack : List Formula) : walkStack stack = stack.flatMap walk := by
  induction stack with
  | nil => rw [walkStack, List.flatMap_nil]
  | cons f stack ih =>
    rw [← List.singleton_append, walkStack_append, ih, List.flatMap_append, List.flatMap_singleton,
      walk]

/-- **A node is visited before the nodes of its children.** -/
theorem walk_eq (f : Formula) : f.walk = f :: f.children.flatMap walk := by
  rw [walk, walkStack, List.append_nil, walkStack_eq]

section Nodes

variable {P : Formula → Prop} {f g : Formula} {fs : List Formula} {v d : String}

/-- A property of every node is one of the formula itself and of every node of its children. -/
theorem forall_mem_walk :
    (∀ g ∈ f.walk, P g) ↔ P f ∧ ∀ c ∈ f.children, ∀ g ∈ c.walk, P g := by
  rw [walk_eq, List.forall_mem_cons]
  constructor
  · rintro ⟨here, below⟩
    exact ⟨here, fun c hc g hg => below g (List.mem_flatMap.2 ⟨c, hc, hg⟩)⟩
  · rintro ⟨here, below⟩
    refine ⟨here, ?_⟩
    intro g hg
    obtain ⟨c, hc, hg⟩ := List.mem_flatMap.1 hg
    exact below c hc g hg

/-- Some node has a property where the formula itself has it or some node of a child. -/
theorem exists_mem_walk :
    (∃ g ∈ f.walk, P g) ↔ P f ∨ ∃ c ∈ f.children, ∃ g ∈ c.walk, P g := by
  simp only [walk_eq f, List.mem_cons, or_and_right, exists_or, exists_eq_left]
  refine or_congr_right ⟨?_, ?_⟩
  · rintro ⟨g, hg, holds⟩
    obtain ⟨c, hc, hg⟩ := List.mem_flatMap.1 hg
    exact ⟨c, hc, g, hg, holds⟩
  · rintro ⟨c, hc, g, hg, holds⟩
    exact ⟨g, List.mem_flatMap.2 ⟨c, hc, hg⟩, holds⟩

theorem forall_mem_walk_of_leaf (leaf : f.children = []) : (∀ g ∈ f.walk, P g) ↔ P f := by
  rw [forall_mem_walk, leaf]
  exact and_iff_left (fun c hc => absurd hc List.not_mem_nil)

theorem forall_mem_walk_of_child (child : f.children = [g]) :
    (∀ h ∈ f.walk, P h) ↔ P f ∧ ∀ h ∈ g.walk, P h := by
  rw [forall_mem_walk, child, List.forall_mem_singleton]

theorem exists_mem_walk_of_leaf (leaf : f.children = []) : (∃ g ∈ f.walk, P g) ↔ P f := by
  rw [exists_mem_walk, leaf]
  exact or_iff_left (fun ⟨_, hc, _⟩ => List.not_mem_nil hc)

theorem exists_mem_walk_of_child (child : f.children = [g]) :
    (∃ h ∈ f.walk, P h) ↔ P f ∨ ∃ h ∈ g.walk, P h := by
  rw [exists_mem_walk, child]
  simp only [List.mem_singleton, exists_eq_left]

theorem forall_mem_walk_not : (∀ g ∈ (not f).walk, P g) ↔ P (.not f) ∧ ∀ g ∈ f.walk, P g :=
  forall_mem_walk_of_child rfl

theorem forall_mem_walk_and :
    (∀ g ∈ (and fs).walk, P g) ↔ P (.and fs) ∧ ∀ f ∈ fs, ∀ g ∈ f.walk, P g :=
  forall_mem_walk

theorem forall_mem_walk_or :
    (∀ g ∈ (or fs).walk, P g) ↔ P (.or fs) ∧ ∀ f ∈ fs, ∀ g ∈ f.walk, P g :=
  forall_mem_walk

theorem forall_mem_walk_implies :
    (∀ h ∈ (implies f g).walk, P h) ↔
      P (.implies f g) ∧ (∀ h ∈ f.walk, P h) ∧ ∀ h ∈ g.walk, P h := by
  have hchildren : (implies f g).children = [f, g] := rfl
  rw [forall_mem_walk, hchildren, List.forall_mem_cons, List.forall_mem_singleton]

theorem forall_mem_walk_all :
    (∀ g ∈ (all v d f).walk, P g) ↔ P (.all v d f) ∧ ∀ g ∈ f.walk, P g :=
  forall_mem_walk_of_child rfl

theorem forall_mem_walk_any :
    (∀ g ∈ (any v d f).walk, P g) ↔ P (.any v d f) ∧ ∀ g ∈ f.walk, P g :=
  forall_mem_walk_of_child rfl

end Nodes

end ChangeControl.Rule.Formula
