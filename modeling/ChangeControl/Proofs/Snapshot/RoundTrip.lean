import ChangeControl.Proofs.Calendar.RoundTrip
import ChangeControl.Proofs.Json.Sorting
import ChangeControl.Snapshot.Json
/-!
Snapshots read back from data.

A task, a commit, a project and a snapshot are each read from any object that has their values under
their names: the order of the fields does not matter, so that a sorted object is read as well as one
that was written.  A commit has no field for a value that is absent, which is how that is told from
an empty text.

Main definitions:

* `Task.fields`, `Commit.fields`, `Project.fieldsBy` — the fields that are written;
* `Json.SameFields` — the same values under the same names.

Main results:

* `Task.ofJson_of_sameFields`, `Commit.ofJson_of_sameFields`, `Project.ofJson_of_sameFields` — the
  order of the fields does not matter;
* `Project.ofJson_toJson`, `Project.ofJson_sortKeys` — a project is read back, sorted or not;
* `Snapshot.ofJson_toJson` — **a snapshot is read back**, if its clock can be read.
-/

set_option autoImplicit false

namespace ChangeControl

open Calendar (Timestamp)

variable {fs gs : List (String × Json)}

/-- The same values stand under the same names. -/
def Json.SameFields (fs gs : List (String × Json)) : Prop :=
  ∀ name, Json.lookup name fs = Json.lookup name gs

/-- Sorting keeps fields whose values have nothing to sort. -/
theorem Json.sameFields_sortFields (nodup : (fs.map Prod.fst).Nodup)
    (flat : ∀ f ∈ fs, f.2.sortKeys = f.2) : Json.SameFields (Json.sortFields fs) fs := by
  intro name
  rw [Json.lookup_sortFields nodup]
  cases found : Json.lookup name fs with
  | none => rfl
  | some v =>
    have mem := (Json.lookup_eq_some_iff nodup name v).1 found
    rw [Option.map_some, flat _ mem]

/-! ### Tasks -/

/-- The fields of a task as data. -/
def Task.fields (t : Task) : List (String × Json) :=
  [("id", .str t.id), ("layer", .str t.layer.name), ("completed", .bool t.completed),
    ("committed", .bool t.committed)]

theorem Task.nodup_fields (t : Task) : (t.fields.map Prod.fst).Nodup := by
  simp [fields]

/-- A task is read from any object that has its fields. -/
theorem Task.ofJson_of_sameFields {t : Task} (same : Json.SameFields fs t.fields) :
    Task.ofJson (.obj fs) = .ok t := by
  simp [ofJson, requiredField, textField, flagField, Json.field?, same _, fields, Json.lookup,
    Json.display, Json.isTruthy]

theorem Task.regular_toJson (t : Task) : t.toJson.Regular := by
  refine .obj t.nodup_fields ?_
  simp only [List.forall_mem_cons]
  exact ⟨.str _, .str _, .bool _, .bool _, fun _ mem => absurd mem List.not_mem_nil⟩

theorem Task.ofJson_toJson (t : Task) : Task.ofJson t.toJson = .ok t :=
  ofJson_of_sameFields fun _ => rfl

theorem Task.ofJson_sortKeys (t : Task) : Task.ofJson t.toJson.sortKeys = .ok t := by
  refine ofJson_of_sameFields (Json.sameFields_sortFields t.nodup_fields ?_)
  simp [Json.sortKeys]

/-! ### Commits -/

/-- The fields of a commit as data. -/
def Commit.fields (c : Commit) : List (String × Json) :=
  [("id", .str c.id), ("message", .str c.message), ("validated", .bool c.validated)] ++
    optionalField "reverts" c.reverts ++ optionalField "revert_target" c.revertTarget

theorem Commit.nodup_fields (c : Commit) : (c.fields.map Prod.fst).Nodup := by
  cases hr : c.reverts <;> cases ht : c.revertTarget <;> simp [fields, optionalField, hr, ht]

/-- A commit is read from any object that has its fields. -/
theorem Commit.ofJson_of_sameFields {c : Commit} (same : Json.SameFields fs c.fields) :
    Commit.ofJson (.obj fs) = .ok c := by
  obtain ⟨id, message, validated, reverts, target⟩ := c
  cases reverts <;> cases target <;>
    simp [ofJson, requiredField, textField, flagField, textOnlyField, Json.field?, same _, fields,
      optionalField, Json.lookup, Json.display, Json.isTruthy]

theorem Commit.regular_of_mem_fields {c : Commit} :
    ∀ f ∈ c.fields, f.2.Regular ∧ f.2.sortKeys = f.2 := by
  have optional : ∀ name value, ∀ f ∈ optionalField name value,
      f.2.Regular ∧ f.2.sortKeys = f.2 := by
    intro name value f mem
    cases value with
    | none => cases mem
    | some s =>
      obtain rfl := List.mem_singleton.1 mem
      exact ⟨.str s, by simp [Json.sortKeys]⟩
  intro f mem
  simp only [fields, List.mem_append] at mem
  rcases mem with (mem | mem) | mem
  · simp only [List.mem_cons, List.not_mem_nil, or_false] at mem
    rcases mem with rfl | rfl | rfl
    · exact ⟨.str _, by simp [Json.sortKeys]⟩
    · exact ⟨.str _, by simp [Json.sortKeys]⟩
    · exact ⟨.bool _, by simp [Json.sortKeys]⟩
  · exact optional _ _ f mem
  · exact optional _ _ f mem

theorem Commit.regular_toJson (c : Commit) : c.toJson.Regular :=
  .obj c.nodup_fields fun f mem => (regular_of_mem_fields f mem).1

theorem Commit.ofJson_toJson (c : Commit) : Commit.ofJson c.toJson = .ok c :=
  ofJson_of_sameFields fun _ => rfl

theorem Commit.ofJson_sortKeys (c : Commit) : Commit.ofJson c.toJson.sortKeys = .ok c :=
  ofJson_of_sameFields (Json.sameFields_sortFields c.nodup_fields fun f mem =>
    (regular_of_mem_fields f mem).2)

/-! ### Projects -/

theorem readAll_map {α : Type} {read : Json → Except DataError α} {write : α → Json}
    (undoes : ∀ x, read (write x) = .ok x) (xs : List α) :
    readAll read (xs.map write) = .ok xs := by
  induction xs with
  | nil => rfl
  | cons x xs ih => rw [List.map_cons, readAll, undoes, ih]

variable {writeTask : Task → Json} {writeCommit : Commit → Json}

/-- The fields of a project as data, with its tasks and commits written in some way. -/
def Project.fieldsBy (writeTask : Task → Json) (writeCommit : Commit → Json) (p : Project) :
    List (String × Json) :=
  [("state", .str p.state), ("tasks", .arr (p.tasks.map writeTask)),
    ("commits", .arr (p.commits.map writeCommit))]

theorem Project.toJson_eq (p : Project) :
    p.toJson = .obj (p.fieldsBy Task.toJson Commit.toJson) := rfl

theorem Project.nodup_fieldsBy (p : Project) :
    ((p.fieldsBy writeTask writeCommit).map Prod.fst).Nodup := by
  simp [fieldsBy]

/-- A project is read from any object that has its fields, in whichever way its tasks and commits
are written. -/
theorem Project.ofJson_of_sameFields {p : Project}
    (task : ∀ t, Task.ofJson (writeTask t) = .ok t)
    (commit : ∀ c, Commit.ofJson (writeCommit c) = .ok c)
    (same : Json.SameFields fs (p.fieldsBy writeTask writeCommit)) :
    Project.ofJson (.obj fs) = .ok p := by
  simp [ofJson, requiredField, listField, Json.field?, same _, fieldsBy, Json.lookup, Json.display,
    readAll_map task, readAll_map commit, make_self]

theorem Project.regular_toJson (p : Project) : p.toJson.Regular := by
  rw [toJson_eq]
  refine .obj p.nodup_fieldsBy ?_
  simp only [fieldsBy, List.forall_mem_cons]
  refine ⟨.str _, .arr ?_, .arr ?_, fun _ mem => absurd mem List.not_mem_nil⟩
  · intro v mem
    obtain ⟨t, -, rfl⟩ := List.mem_map.1 mem
    exact t.regular_toJson
  · intro v mem
    obtain ⟨c, -, rfl⟩ := List.mem_map.1 mem
    exact c.regular_toJson

theorem Project.ofJson_toJson (p : Project) : Project.ofJson p.toJson = .ok p :=
  ofJson_of_sameFields Task.ofJson_toJson Commit.ofJson_toJson fun _ => rfl

/-- A project is read back from sorted data as well. -/
theorem Project.ofJson_sortKeys (p : Project) : Project.ofJson p.toJson.sortKeys = .ok p := by
  rw [toJson_eq, Json.sortKeys]
  refine ofJson_of_sameFields Task.ofJson_sortKeys Commit.ofJson_sortKeys fun name => ?_
  rw [Json.lookup_sortFields p.nodup_fieldsBy]
  simp only [fieldsBy, Json.lookup]
  split_ifs <;> simp [Json.sortKeys, Json.sortItems_eq_map]

/-! ### Snapshots -/

theorem Version.ofJson?_toJson (v : Version) : Version.ofJson? (some v.toJson) = v := by
  cases v <;> rfl

theorem Version.regular_toJson (v : Version) : v.toJson.Regular := by
  cases v with
  | number n => exact .int n
  | flag b => exact .bool b

theorem Snapshot.regular_toJson (s : Snapshot) : s.toJson.Regular := by
  refine .obj (by simp) ?_
  simp only [List.forall_mem_cons]
  exact ⟨s.version.regular_toJson, .str _, s.project.regular_toJson,
    fun _ mem => absurd mem List.not_mem_nil⟩

/-- **A snapshot is read back**, if its clock can be read. -/
theorem Snapshot.ofJson_toJson (now : Timestamp) {s : Snapshot} (readable : s.clock.Readable) :
    Snapshot.ofJson now s.toJson = .ok s := by
  have clock : readClock now (some (.str s.clock.text)) = .ok s.clock := by
    rw [readClock, (Timestamp.ofText_text_iff s.clock).2 readable]
  have project : Project.ofJson (.obj (s.project.fieldsBy Task.toJson Commit.toJson)) =
      .ok s.project := s.project.ofJson_toJson
  simp [ofJson, toJson, Json.field?, Json.lookup, clock, Project.toJson_eq, project,
    Version.ofJson?_toJson]

end ChangeControl
