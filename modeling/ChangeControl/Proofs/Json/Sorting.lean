import ChangeControl.Proofs.Json.RoundTrip
/-!
Objects with their fields in the order of their names.

Sorting changes the places of the fields and nothing else: an object without a name that it has
twice has the same names afterwards, and the value under a name is the one that was there, sorted.

Main results:

* `Json.perm_sortFields` — the names are kept;
* `Json.lookup_sortFields` — **the values are found under their names**;
* `Regular.sortKeys` — a value that can be read back can be read back sorted.
-/

set_option autoImplicit false

namespace ChangeControl.Json

variable {key : String} {value : Json} {fields : List (String × Json)}

theorem perm_insertSorted (key : String) (value : Json) (fields : List (String × Json)) :
    (insertSorted key value fields).Perm ((key, value) :: fields) := by
  induction fields with
  | nil => exact .refl _
  | cons f rest ih =>
    obtain ⟨k, v⟩ := f
    rw [insertSorted]
    split
    · exact .refl _
    · exact (ih.cons (k, v)).trans (.swap (key, value) (k, v) rest)

/-- The fields of a sorted object are those of the object, each with its value sorted. -/
theorem perm_sortFields (fields : List (String × Json)) :
    (sortFields fields).Perm (fields.map fun f => (f.1, f.2.sortKeys)) := by
  induction fields with
  | nil => exact .refl _
  | cons f rest ih =>
    obtain ⟨k, v⟩ := f
    rw [sortFields]
    exact (perm_insertSorted k v.sortKeys (sortFields rest)).trans (ih.cons (k, v.sortKeys))

theorem sortItems_eq_map (items : List Json) : sortItems items = items.map sortKeys := by
  induction items with
  | nil => rfl
  | cons v rest ih => rw [sortItems, ih, List.map_cons]

/-- What is found under a name is what stands there, if no name occurs twice. -/
theorem lookup_eq_some_iff (nodup : (fields.map Prod.fst).Nodup) (key : String) (value : Json) :
    lookup key fields = some value ↔ (key, value) ∈ fields := by
  induction fields with
  | nil => simp [lookup]
  | cons f rest ih =>
    obtain ⟨k, v⟩ := f
    rw [List.map_cons, List.nodup_cons] at nodup
    rw [lookup, List.mem_cons]
    split
    · next same =>
      subst same
      have alone : (k, value) ∉ rest := fun mem =>
        nodup.1 (List.mem_map.2 ⟨(k, value), mem, rfl⟩)
      simp [alone, eq_comm]
    · next other =>
      have differ : (key, value) ≠ (k, v) := fun same => other (Prod.mk.inj same).1.symm
      simp [ih nodup.2, differ]

theorem nodup_sortFields (nodup : (fields.map Prod.fst).Nodup) :
    ((sortFields fields).map Prod.fst).Nodup := by
  have names : ((sortFields fields).map Prod.fst).Perm (fields.map Prod.fst) := by
    have := (perm_sortFields fields).map Prod.fst
    rwa [List.map_map] at this
  exact names.nodup_iff.2 nodup

/-- **The values are found under their names**, sorted. -/
theorem lookup_sortFields (nodup : (fields.map Prod.fst).Nodup) (key : String) :
    lookup key (sortFields fields) = (lookup key fields).map sortKeys := by
  refine Option.ext fun value => ?_
  rw [lookup_eq_some_iff (nodup_sortFields nodup), (perm_sortFields fields).mem_iff,
    Option.map_eq_some_iff, List.mem_map]
  constructor
  · rintro ⟨f, mem, same⟩
    obtain ⟨rfl, rfl⟩ := Prod.mk.inj same
    exact ⟨f.2, (lookup_eq_some_iff nodup f.1 f.2).2 mem, rfl⟩
  · rintro ⟨v, found, rfl⟩
    exact ⟨(key, v), (lookup_eq_some_iff nodup key v).1 found, rfl⟩

/-- A value that can be read back can be read back sorted. -/
theorem Regular.sortKeys {v : Json} (h : v.Regular) : v.sortKeys.Regular := by
  induction h with
  | null => exact .null
  | bool b => exact .bool b
  | int n => exact .int n
  | str s => exact .str s
  | @arr items _ ih =>
    rw [Json.sortKeys, sortItems_eq_map]
    refine .arr fun v mem => ?_
    obtain ⟨w, hw, rfl⟩ := List.mem_map.1 mem
    exact ih w hw
  | @obj fields nodup _ ih =>
    rw [Json.sortKeys]
    refine .obj (nodup_sortFields nodup) fun f mem => ?_
    obtain ⟨g, hg, rfl⟩ := List.mem_map.1 ((perm_sortFields fields).mem_iff.1 mem)
    exact ih g hg

end ChangeControl.Json
