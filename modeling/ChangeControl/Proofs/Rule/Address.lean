import ChangeControl.Rule.Formula
import Mathlib.Data.List.Range
import Mathlib.Tactic.Choose
/-!
Addresses of nodes.

A subformula may occur in a formula several times, so a node is told by its *address*: which child
to go to at each step down from the root.  One address is *before* another if it is the address of
an ancestor, or if the ways part and it turns off further to the left.

Main definitions:

* `Rule.Address`, `Address.Before` — addresses and their order;
* `Formula.at?` — the node at an address;
* `Formula.Enumerates` — a list has the nodes at certain addresses, each address once and in order.

Main results:

* `Address.Before.ne` — no address is before itself;
* `Formula.enumerates_below` — **enumerations of the children, one after the other, enumerate what
  is below the root**;
* `Formula.enumerates_cons` — the root comes before everything else.
-/

set_option autoImplicit false

namespace ChangeControl.Rule

/-- The way from the root of a tree to a node: the number of the child at each step. -/
abbrev Address := List Nat

/-! ### The order of addresses -/

/-- The address `p` is before `q`: its node is above that of `q`, or to the left of it. -/
inductive Address.Before : Address → Address → Prop
  /-- A node is before those below it. -/
  | above (p : Address) (i : Nat) (q : Address) : Before p (p ++ i :: q)
  /-- Where the ways part, the one to the left is before the other. -/
  | left (r : Address) {i j : Nat} (lt : i < j) (p q : Address) :
      Before (r ++ i :: p) (r ++ j :: q)

namespace Address.Before

variable {p q : Address}

/-- No address is before itself. -/
theorem ne (h : p.Before q) : p ≠ q := by
  cases h with
  | above p i q =>
    intro same
    exact List.cons_ne_nil i q (List.self_eq_append_right.1 same)
  | left r lt p q =>
    intro same
    exact Nat.ne_of_lt lt (List.cons.inj (List.append_cancel_left same)).1

theorem nil_cons (i : Nat) (q : Address) : Before [] (i :: q) := .above [] i q

theorem of_lt {i j : Nat} (lt : i < j) (p q : Address) : Before (i :: p) (j :: q) :=
  .left [] lt p q

/-- Addresses in one child are ordered as they are ordered in the child. -/
theorem cons (i : Nat) (h : p.Before q) : Before (i :: p) (i :: q) := by
  cases h with
  | above p j s => exact .above (i :: p) j s
  | left r lt s t => exact .left (i :: r) lt s t

end Address.Before

namespace Formula

variable {f : Formula}

/-! ### Nodes at addresses -/

/-- The node at an address, if the address does not leave the tree. -/
def at? : Formula → Address → Option Formula
  | f, [] => some f
  | f, i :: p => f.children[i]?.bind fun c => c.at? p

@[simp] theorem at?_nil (f : Formula) : f.at? [] = some f := rfl

theorem at?_cons {i : Nat} {c : Formula} (child : f.children[i]? = some c) (p : Address) :
    f.at? (i :: p) = c.at? p := by
  rw [at?, child, Option.bind_some]

/-- There is a node below the root where there is one in a child. -/
theorem at?_cons_eq_some_iff {i : Nat} {p : Address} {g : Formula} :
    f.at? (i :: p) = some g ↔ ∃ c, f.children[i]? = some c ∧ c.at? p = some g := by
  rw [at?, Option.bind_eq_some_iff]

/-- The tree has a node at the address. -/
def HasNode (f : Formula) (p : Address) : Prop := ∃ g, f.at? p = some g

theorem hasNode_cons_iff {i : Nat} {p : Address} :
    f.HasNode (i :: p) ↔ ∃ c, f.children[i]? = some c ∧ c.HasNode p := by
  simp only [HasNode, at?_cons_eq_some_iff]
  constructor
  · rintro ⟨g, c, child, node⟩
    exact ⟨c, child, g, node⟩
  · rintro ⟨c, child, g, node⟩
    exact ⟨g, c, child, node⟩

/-! ### Enumerations -/

/-- The formulas of `gs` are the nodes at the addresses with the property `P`, one for each address:
no address is left out, none is taken twice, a node comes before those below it, and what is on the
left before what is on the right. -/
def Enumerates (f : Formula) (P : Address → Prop) (gs : List Formula) : Prop :=
  ∃ ps : List Address, (∀ p, p ∈ ps ↔ P p) ∧ ps.Nodup ∧ ps.Pairwise Address.Before ∧
    ps.map f.at? = gs.map some

variable {P : Address → Prop} {gs : List Formula}

theorem Enumerates.of_before (ps : List Address) (all : ∀ p, p ∈ ps ↔ P p)
    (ordered : ps.Pairwise Address.Before) (nodes : ps.map f.at? = gs.map some) :
    f.Enumerates P gs :=
  ⟨ps, all, ordered.imp Address.Before.ne, ordered, nodes⟩

theorem Enumerates.congr {Q : Address → Prop} (h : f.Enumerates P gs) (same : ∀ p, P p ↔ Q p) :
    f.Enumerates Q gs := by
  obtain ⟨ps, all, nodup, ordered, nodes⟩ := h
  exact ⟨ps, fun p => (all p).trans (same p), nodup, ordered, nodes⟩

/-- The root alone. -/
theorem enumerates_root (f : Formula) : f.Enumerates (· = []) [f] :=
  .of_before [[]] (fun _ => List.mem_singleton) (List.pairwise_singleton _ _) rfl

/-- The root comes before everything else. -/
theorem enumerates_cons (h : f.Enumerates P gs) (below : ¬ P []) :
    f.Enumerates (fun p => p = [] ∨ P p) (f :: gs) := by
  obtain ⟨ps, all, -, ordered, nodes⟩ := h
  refine .of_before ([] :: ps) ?_ ?_ ?_
  · intro p
    rw [List.mem_cons, all]
  · refine List.pairwise_cons.2 ⟨?_, ordered⟩
    intro p hp
    cases p with
    | nil => exact absurd ((all []).1 hp) below
    | cons i q => exact .nil_cons i q
  · rw [List.map_cons, List.map_cons, nodes, at?_nil]

/-- **Enumerations of the children, one after the other, enumerate what is below the root.** -/
theorem enumerates_below {Q : Formula → Address → Prop} {nodes : Formula → List Formula}
    (each : ∀ c ∈ f.children, c.Enumerates (Q c) (nodes c)) :
    f.Enumerates (fun p => ∃ i c q, p = i :: q ∧ f.children[i]? = some c ∧ Q c q)
      (f.children.flatMap nodes) := by
  choose! ps all _ ordered same using each
  have child : ∀ x ∈ f.children.zipIdx, f.children[x.2]? = some x.1 :=
    fun x hx => List.mem_zipIdx_iff_getElem?.1 hx
  refine .of_before (f.children.zipIdx.flatMap fun x => (ps x.1).map (x.2 :: ·)) ?_ ?_ ?_
  · intro p
    simp only [List.mem_flatMap, List.mem_map]
    constructor
    · rintro ⟨⟨c, i⟩, hx, q, hq, rfl⟩
      have hc := child _ hx
      exact ⟨i, c, q, rfl, hc, (all c (List.mem_of_getElem? hc) q).1 hq⟩
    · rintro ⟨i, c, q, rfl, hc, hq⟩
      exact ⟨⟨c, i⟩, List.mem_zipIdx_iff_getElem?.2 hc, q,
        (all c (List.mem_of_getElem? hc) q).2 hq, rfl⟩
  · refine List.pairwise_flatMap.2 ⟨?_, ?_⟩
    · intro x hx
      have within := ordered x.1 (List.mem_of_getElem? (child x hx))
      exact List.pairwise_map.2 (within.imp (Address.Before.cons x.2))
    · -- an address in one child is before every address in a later one
      have numbered : f.children.zipIdx.Pairwise fun x y => x.2 < y.2 := by
        rw [← List.pairwise_map, List.zipIdx_map_snd]
        exact List.pairwise_lt_range' 1
      refine numbered.imp ?_
      intro x y lt p hp q hq
      obtain ⟨p, -, rfl⟩ := List.mem_map.1 hp
      obtain ⟨q, -, rfl⟩ := List.mem_map.1 hq
      exact .of_lt lt p q
  · have inChild : ∀ x ∈ f.children.zipIdx,
        ((ps x.1).map (x.2 :: ·)).map f.at? = (nodes x.1).map some := by
      intro x hx
      rw [List.map_map, ← same x.1 (List.mem_of_getElem? (child x hx))]
      exact List.map_congr_left fun p _ => at?_cons (child x hx) p
    calc (f.children.zipIdx.flatMap fun x => (ps x.1).map (x.2 :: ·)).map f.at?
        = f.children.zipIdx.flatMap fun x => (nodes x.1).map some := by
          rw [List.map_flatMap, List.flatMap_congr inChild]
      _ = (f.children.zipIdx.map Prod.fst).flatMap fun c => (nodes c).map some := by
          rw [List.flatMap_map]
      _ = (f.children.flatMap nodes).map some := by
          rw [List.zipIdx_map_fst, List.map_flatMap]

end Formula

end ChangeControl.Rule
