import ChangeControl.Proofs.Rule.Address
import ChangeControl.Proofs.Rule.Walk
/-!
The order of a walk.

`Formula.walk` visits a tree by a loop over a stack.  In each round the tree on top of the stack is
taken off, its root is visited, and its children are put on in its place, the first one on top.
What was visited, followed by the trees on the stack in preorder, is at any time the preorder of the
whole tree; and a round takes as many nodes off the stack as it visits, namely one.

Main definitions:

* `Formula.preorder` — the traversal by recursion on the tree;
* `Formula.Tour`, `Tour.round`, `Tour.after` — a walk under way, one round of its loop, and several;
* `Tour.Of` — the invariant of the loop;
* `Formula.HasConjunct` — where the conjuncts of a formula stand in it.

Main results:

* `Formula.Tour.Of.round` — **a round keeps the invariant**;
* `Formula.Tour.after_size` — the loop ends, after as many rounds as there are nodes;
* `Formula.enumerates_walk` — a walk visits every node once, in the order of the addresses;
* `Formula.enumerates_conjuncts` — the conjuncts are what conjunctions alone lead to;
* `Formula.walk_traverses` — **the walk is the recursive traversal**.
-/

set_option autoImplicit false

namespace ChangeControl.Rule.Formula

variable {f : Formula}

/-! ### Sizes -/

theorem size_eq (f : Formula) : f.size = totalSize f.children + 1 := by
  cases f <;> simp only [children, size, totalSize, Nat.add_zero]

theorem totalSize_reverse (fs : List Formula) : totalSize fs.reverse = totalSize fs := by
  induction fs with
  | nil => rfl
  | cons f fs ih =>
    rw [List.reverse_cons, totalSize_append, ih, totalSize, totalSize, totalSize, Nat.add_zero,
      Nat.add_comm]

theorem size_le_totalSize {fs : List Formula} (mem : f ∈ fs) : f.size ≤ totalSize fs := by
  obtain ⟨before, after, rfl⟩ := List.append_of_mem mem
  rw [totalSize_append, totalSize]
  omega

theorem size_lt_of_mem_children {c : Formula} (child : c ∈ f.children) : c.size < f.size :=
  Nat.lt_of_le_of_lt (size_le_totalSize child) f.size_children_lt

theorem eq_nil_of_totalSize {fs : List Formula} (empty : totalSize fs = 0) : fs = [] := by
  cases fs with
  | nil => rfl
  | cons f fs =>
    rw [totalSize, size_eq] at empty
    omega

/-! ### The recursive traversal -/

/-- The nodes in preorder: the root, then the traversals of its children from left to right. -/
def preorder (f : Formula) : List Formula :=
  f :: f.children.attach.flatMap fun c => c.val.preorder
termination_by f.size
decreasing_by exact size_lt_of_mem_children c.property

theorem preorder_eq (f : Formula) : f.preorder = f :: f.children.flatMap preorder := by
  rw [preorder, ← List.flatMap_map Subtype.val preorder, List.attach_map_subtype_val]

theorem walk_eq_preorder (f : Formula) : f.walk = f.preorder := by
  rw [walk_eq, preorder_eq, List.flatMap_congr fun c child => walk_eq_preorder c]
termination_by f.size
decreasing_by exact size_lt_of_mem_children child

/-! ### The loop -/

/-- A walk under way. -/
structure Tour where
  /-- The nodes visited so far. -/
  visited : List Formula
  /-- The trees that wait to be visited, the next one last. -/
  stack : List Formula

namespace Tour

variable {t u : Tour}

/-- A walk that has not yet begun. -/
def start (f : Formula) : Tour := ⟨[], [f]⟩

/-- One round of the loop: the last tree of the stack is taken off, its root is visited, and its
children are put on, the last one first.  There is none if the stack is empty. -/
def round (t : Tour) : Option Tour :=
  t.stack.getLast?.map fun f => ⟨t.visited ++ [f], t.stack.dropLast ++ f.children.reverse⟩

/-- The walk after some number of rounds, unless it has ended before. -/
def after (t : Tour) : Nat → Option Tour
  | 0 => some t
  | n + 1 => (t.after n).bind round

theorem round_eq_some_iff :
    t.round = some u ↔
      ∃ rest f, t.stack = rest ++ [f] ∧ u = ⟨t.visited ++ [f], rest ++ f.children.reverse⟩ := by
  simp only [round, Option.map_eq_some_iff, List.getLast?_eq_some_iff]
  constructor
  · rintro ⟨f, ⟨rest, hstack⟩, rfl⟩
    exact ⟨rest, f, hstack, by rw [hstack, List.dropLast_concat]⟩
  · rintro ⟨rest, f, hstack, rfl⟩
    exact ⟨f, ⟨rest, hstack⟩, by rw [hstack, List.dropLast_concat]⟩

/-- There is a next round unless the stack is empty. -/
theorem exists_round (more : t.stack ≠ []) : ∃ u, t.round = some u := by
  obtain ⟨rest, f, hstack⟩ := (List.eq_nil_or_concat' t.stack).resolve_left more
  exact ⟨_, round_eq_some_iff.2 ⟨rest, f, hstack, rfl⟩⟩

/-- **The invariant of the loop.**  The walk is one of the tree `f`: the nodes that it visited and
those of the trees on the stack, from the top, are the nodes of `f` in preorder. -/
structure Of (f : Formula) (t : Tour) : Prop where
  order : t.visited ++ t.stack.reverse.flatMap preorder = f.preorder
  count : t.visited.length + totalSize t.stack = f.size

theorem Of.start (f : Formula) : (start f).Of f where
  order := by
    rw [Tour.start, List.nil_append, List.reverse_singleton, List.flatMap_singleton]
  count := by
    rw [Tour.start, List.length_nil, Nat.zero_add, totalSize, totalSize, Nat.add_zero]

/-- **A round keeps the invariant**: the tree on top of the stack gives way to its root, which is
visited, and its children, which follow in order. -/
theorem Of.round (h : t.Of f) (hround : t.round = some u) : u.Of f := by
  obtain ⟨rest, g, hstack, rfl⟩ := round_eq_some_iff.1 hround
  constructor
  · -- what was put on from right to left is read from the top, so from left to right again
    calc (t.visited ++ [g]) ++ (rest ++ g.children.reverse).reverse.flatMap preorder
        = t.visited ++ (g :: g.children.flatMap preorder) ++ rest.reverse.flatMap preorder := by
          simp
      _ = t.visited ++ g.preorder ++ rest.reverse.flatMap preorder := by rw [← preorder_eq]
      _ = t.visited ++ t.stack.reverse.flatMap preorder := by simp [hstack]
      _ = f.preorder := h.order
  · calc (t.visited ++ [g]).length + totalSize (rest ++ g.children.reverse)
        = t.visited.length + (totalSize rest + (totalSize g.children + 1)) := by
          rw [List.length_append, List.length_singleton, totalSize_append, totalSize_reverse]
          omega
      _ = t.visited.length + totalSize t.stack := by
          rw [← size_eq, hstack, totalSize_append, totalSize, totalSize, Nat.add_zero]
      _ = f.size := h.count

theorem length_visited_round (hround : t.round = some u) :
    u.visited.length = t.visited.length + 1 := by
  obtain ⟨rest, g, -, rfl⟩ := round_eq_some_iff.1 hround
  exact List.length_append

/-- The loop goes on until every node is visited. -/
theorem exists_after {n : Nat} (le : n ≤ f.size) :
    ∃ t, (start f).after n = some t ∧ t.Of f ∧ t.visited.length = n := by
  induction n with
  | zero => exact ⟨start f, rfl, .start f, rfl⟩
  | succ n ih =>
    obtain ⟨t, hafter, h, hlength⟩ := ih (Nat.le_of_succ_le le)
    -- by the count, the nodes that are not yet visited are on the stack
    have more : t.stack ≠ [] := by
      intro empty
      have count := h.count
      rw [empty, totalSize, hlength] at count
      omega
    obtain ⟨u, hround⟩ := exists_round more
    refine ⟨u, ?_, h.round hround, ?_⟩
    · rw [after, hafter, Option.bind_some, hround]
    · rw [length_visited_round hround, hlength]

/-- The loop ends after as many rounds as there are nodes, when they are visited in preorder. -/
theorem after_size (f : Formula) : (start f).after f.size = some ⟨f.preorder, []⟩ := by
  obtain ⟨⟨visited, stack⟩, hafter, ⟨order, count⟩, hlength⟩ := exists_after (Nat.le_refl f.size)
  have empty : stack = [] := by
    refine eq_nil_of_totalSize ?_
    rw [hlength] at count
    exact Nat.add_eq_left.1 count
  subst empty
  rw [hafter, ← order, List.reverse_nil, List.flatMap_nil, List.append_nil]

end Tour

/-! ### The nodes of a walk -/

/-- A walk visits every node once, in the order of the addresses. -/
theorem enumerates_walk (f : Formula) : f.Enumerates f.HasNode f.walk := by
  have below := enumerates_below (f := f) fun c child => enumerates_walk c
  rw [walk_eq]
  refine (enumerates_cons below ?_).congr ?_
  · rintro ⟨i, c, q, h, -⟩
    exact List.cons_ne_nil i q h.symm
  · intro p
    cases p with
    | nil => exact iff_of_true (.inl rfl) ⟨f, rfl⟩
    | cons i q => simp [hasNode_cons_iff]
termination_by f.size
decreasing_by exact size_lt_of_mem_children child

/-! ### Conjuncts -/

/-- A conjunct stands at the address: a node that is no conjunction, with nothing but conjunctions
above it. -/
def HasConjunct (f : Formula) (p : Address) : Prop :=
  (∃ g, f.at? p = some g ∧ ∀ fs, g ≠ and fs) ∧
    ∀ q i r, p = q ++ i :: r → ∃ fs, f.at? q = some (and fs)

theorem hasConjunct_nil_iff : f.HasConjunct [] ↔ ∀ fs, f ≠ and fs := by
  constructor
  · rintro ⟨⟨g, node, plain⟩, -⟩
    cases node
    exact plain
  · intro plain
    refine ⟨⟨f, rfl, plain⟩, ?_⟩
    intro q i r h
    simp at h

theorem hasConjunct_cons_iff {i : Nat} {p : Address} :
    f.HasConjunct (i :: p) ↔
      (∃ fs, f = and fs) ∧ ∃ c, f.children[i]? = some c ∧ c.HasConjunct p := by
  constructor
  · rintro ⟨⟨g, node, plain⟩, above⟩
    obtain ⟨c, child, node⟩ := at?_cons_eq_some_iff.1 node
    obtain ⟨fs, root⟩ := above [] i p rfl
    refine ⟨⟨fs, Option.some.inj root⟩, c, child, ⟨g, node, plain⟩, ?_⟩
    intro q j r hp
    rw [← at?_cons child]
    exact above (i :: q) j r (by rw [hp, List.cons_append])
  · rintro ⟨⟨fs, root⟩, c, child, ⟨g, node, plain⟩, above⟩
    refine ⟨⟨g, by rw [at?_cons child, node], plain⟩, ?_⟩
    intro q j r hp
    cases q with
    | nil => exact ⟨fs, congrArg some root⟩
    | cons k q =>
      obtain ⟨rfl, below⟩ := List.cons.inj hp
      rw [at?_cons child]
      exact above q j r below

theorem conjunctsOf_eq (fs : List Formula) : conjunctsOf fs = fs.flatMap conjuncts := by
  induction fs with
  | nil => rfl
  | cons f fs ih => rw [conjunctsOf, ih, List.flatMap_cons]

theorem conjuncts_of_ne_and (plain : ∀ fs, f ≠ and fs) : f.conjuncts = [f] := by
  cases f with
  | and fs => exact absurd rfl (plain fs)
  | truth | pred | member | not | or | implies | all | any | bare => rfl

theorem enumerates_conjuncts_of_ne_and (plain : ∀ fs, f ≠ and fs) :
    f.Enumerates f.HasConjunct f.conjuncts := by
  rw [conjuncts_of_ne_and plain]
  refine (enumerates_root f).congr ?_
  intro p
  cases p with
  | nil => exact iff_of_true rfl (hasConjunct_nil_iff.2 plain)
  | cons i q =>
    refine iff_of_false (List.cons_ne_nil i q) ?_
    intro h
    obtain ⟨⟨fs, root⟩, -⟩ := hasConjunct_cons_iff.1 h
    exact plain fs root

/-- The conjuncts are the nodes to which nothing but conjunctions lead, from left to right. -/
theorem enumerates_conjuncts (f : Formula) : f.Enumerates f.HasConjunct f.conjuncts := by
  induction f with
  | and fs ih =>
    rw [conjuncts, conjunctsOf_eq]
    refine (enumerates_below (f := and fs) ih).congr ?_
    intro p
    cases p with
    | nil => simp [hasConjunct_nil_iff]
    | cons i q => simp [hasConjunct_cons_iff]
  | truth | pred | member | not | or | implies | all | any | bare =>
    exact enumerates_conjuncts_of_ne_and nofun

example :
    conjuncts (and [.truth true, and [.truth false, or [.truth true, .truth false]]]) =
      [.truth true, .truth false, or [.truth true, .truth false]] :=
  rfl

/-- **The walk is the recursive traversal.**  The loop over the stack ends, after one round for each
node, and has visited the nodes in preorder: every one of them once, a node before its children and
these from left to right.  The conjuncts are, from left to right, the first nodes that are no
conjunctions on the ways down from the root. -/
theorem walk_traverses (f : Formula) :
    f.walk = f.preorder ∧ (Tour.start f).after f.size = some ⟨f.walk, []⟩ ∧
      f.Enumerates f.HasNode f.walk ∧ f.Enumerates f.HasConjunct f.conjuncts :=
  ⟨walk_eq_preorder f, walk_eq_preorder f ▸ Tour.after_size f, enumerates_walk f,
    enumerates_conjuncts f⟩

end ChangeControl.Rule.Formula
