import ChangeControl.Proofs.Json.RoundTrip
import ChangeControl.Storage.Store
/-!
What is kept in files.

Data that is written to a file is read back from it.  A text that takes the place of a file is
written beside it first: the directories that are made for it are made where no file is, the file
beside has another place, and a file that cannot take the place leaves it alone.  So whatever fault
there is on the way, the old text is still there.

Main definitions:

* `Disk.Widens` — more directories, and the same files.

Main results:

* `read?_fileText` — **data is read back from its file**;
* `Disk.widens_makeDirectories` — making directories leaves the files alone;
* `Disk.resolve_beside_ne` — a name with something added to it leads to another place;
* `Disk.look_of_replace_error` — **the file is still there when it cannot be replaced**.
-/

set_option autoImplicit false

namespace ChangeControl.Storage

/-- **Data is read back from its file.** -/
theorem read?_fileText {data : Json} (regular : data.Regular) :
    Json.read? (fileText data) = some data := by
  refine Json.read?_print Json.Style.isPlain_file regular "\n" ?_
  simp [Json.Blank, Json.isBlank]

/-! ### The way that steps lead -/

theorem Place.child_injective (q : Place) : Function.Injective q.child := by
  intro name name' same
  exact (List.cons.inj (congrArg Place.names same)).1

/-- No step leads both up and down. -/
theorem Place.child_ne_parent (q : Place) (name : List Char) : q.child name ≠ q.parent := by
  intro same
  have names : name :: q.names = q.parent.names := congrArg Place.names same
  have shorter : q.parent.names.length ≤ q.names.length := by
    unfold parent
    split
    · next empty => split <;> simp [empty]
    · next held => simp [held]
  rw [← names, List.length_cons] at shorter
  omega

theorem Path.names_beside (ending : List Char) {p : Path} {names : List (List Char)}
    {name : List Char} (h : p.names = names ++ [name]) :
    (p.beside ending).names = names ++ [name ++ ending] := by
  simp [beside, h]

theorem Path.root_beside (ending : List Char) (p : Path) : (p.beside ending).root = p.root := by
  unfold beside
  split <;> rfl

namespace Disk

variable {d e f : Disk} {p : Path} {q r : Place} {text old : String}

/-! ### More directories -/

/-- The disk `e` has the files of `d`, and all of its directories.  Others may be there, but not
where a file is. -/
structure Widens (d e : Disk) : Prop where
  files : e.files = d.files
  kept : ∀ q, d.isDirectory q = true → e.isDirectory q = true
  free : ∀ q, (d.fileAt? q).isSome = true → e.isDirectory q = d.isDirectory q

theorem Widens.refl (d : Disk) : d.Widens d := ⟨rfl, fun _ is => is, fun _ _ => rfl⟩

theorem Widens.fileAt? (h : d.Widens e) (q : Place) : e.fileAt? q = d.fileAt? q := by
  rw [Disk.fileAt?, Disk.fileAt?, h.files]

theorem Widens.trans (h : d.Widens e) (h' : e.Widens f) : d.Widens f where
  files := h'.files.trans h.files
  kept q is := h'.kept q (h.kept q is)
  free q held := by
    have held' : (e.fileAt? q).isSome = true := by rwa [h.fileAt? q]
    exact (h'.free q held').trans (h.free q held)

theorem look_eq_file_iff :
    d.look p = .file text ↔
      ∃ q, d.resolve p = .ok q ∧ d.isDirectory q = false ∧ d.fileAt? q = some text := by
  constructor
  · intro found
    unfold look at found
    split at found
    · simp at found
    · simp at found
    · next q leads =>
      split at found
      · simp at found
      · next free =>
        split at found
        · next held =>
          obtain rfl := Entry.file.inj found
          exact ⟨q, leads, Bool.eq_false_iff.2 free, held⟩
        · simp at found
  · rintro ⟨q, leads, free, held⟩
    exact look_eq_file leads free held

/-- A file that can be looked at stays so. -/
theorem Widens.look (h : d.Widens e) (found : d.look p = .file text) : e.look p = .file text := by
  obtain ⟨q, leads, free, held⟩ := look_eq_file_iff.1 found
  refine look_eq_file (resolve_mono h.kept leads) ?_ ((h.fileAt? q).trans held)
  rw [h.free q (by rw [held]; rfl), free]

theorem widens_makeDirectory (h : d.makeDirectory p = .ok e) : d.Widens e := by
  unfold makeDirectory at h
  split at h
  · simp at h
  · next q leads =>
    split at h
    · obtain rfl := Except.ok.inj h
      exact .refl d
    · next new =>
      split at h
      · simp at h
      · next empty =>
        obtain rfl := Except.ok.inj h
        refine ⟨rfl, ?_, ?_⟩
        · intro r is
          simp only [isDirectory, Bool.or_eq_true, List.contains_cons] at is ⊢
          exact is.imp_right .inr
        · intro r held
          have other : (r == q) = false := by
            refine beq_eq_false_iff_ne.2 ?_
            rintro rfl
            exact empty held
          simp only [isDirectory, List.contains_cons, other, Bool.false_or]

theorem widens_makeWay (d : Disk) (root : List Char) (names : List (List Char)) :
    d.Widens (d.makeWay root names).1 := by
  induction names with
  | nil => exact .refl d
  | cons name outer ih =>
    simp only [makeWay]
    split
    · next made => exact widens_makeDirectory made
    · split
      · next failed => exact failed ▸ ih
      · next e made =>
        have wider : d.Widens e := by rwa [made] at ih
        split
        · next made => exact wider.trans (widens_makeDirectory made)
        · exact wider
    · exact .refl d

/-- **Making directories leaves the files alone.** -/
theorem widens_makeDirectories (d : Disk) (p : Path) : d.Widens (d.makeDirectories p).1 :=
  widens_makeWay d p.root p.names.reverse

/-! ### The place beside a file -/

theorem walk_concat (d : Disk) (q : Place) (names : List (List Char)) (name : List Char) :
    d.walk q (names ++ [name]) =
      match d.walk q names with
      | .error e => .error e
      | .ok r => d.enter r name := by
  induction names generalizing q with
  | nil =>
    simp only [List.nil_append, walk]
    cases d.enter q name <;> rfl
  | cons first names ih =>
    simp only [List.cons_append, walk]
    cases d.enter q first with
    | error e => rfl
    | ok r => exact ih r

/-- A step leads to the place below, or to the one above. -/
theorem enter_eq_ok {name : List Char} (h : d.enter q name = .ok r) :
    (name = Path.above ∧ r = q.parent) ∨ (name ≠ Path.above ∧ r = q.child name) := by
  unfold enter at h
  split at h
  · split at h
    · next up => exact .inl ⟨up, (Except.ok.inj h).symm⟩
    · next down =>
      split at h
      · simp at h
      · exact .inr ⟨down, (Except.ok.inj h).symm⟩
  · split at h <;> simp at h

theorem walk_of_resolve (h : d.resolve p = .ok q) : d.walk (.start p) p.names = .ok q := by
  unfold resolve at h
  split at h
  · simp at h
  · split at h
    · simp at h
    · exact h

/-- The last step on the way to something that is not a directory. -/
theorem last_step (leads : d.resolve p = .ok q) (free : d.isDirectory q = false) :
    ∃ names name r, p.names = names ++ [name] ∧ d.walk (.start p) names = .ok r ∧
      d.enter r name = .ok q := by
  have way := walk_of_resolve leads
  rcases List.eq_nil_or_concat p.names with empty | ⟨names, name, cut⟩
  · -- where ways begin there is a directory
    rw [empty] at way
    obtain rfl := Except.ok.inj way
    exact absurd free (by simp [isDirectory, Place.start])
  · rw [List.concat_eq_append] at cut
    rw [cut, walk_concat] at way
    split at way
    · simp at way
    · next r there => exact ⟨names, name, r, cut, there, way⟩

/-- **A name with something added to it leads to another place.** -/
theorem resolve_beside_ne {ending : List Char} (long : 2 < ending.length)
    (leads : d.resolve p = .ok q) (free : d.isDirectory q = false)
    (aside : d.resolve (p.beside ending) = .ok r) : q ≠ r := by
  obtain ⟨names, name, above, cut, there, step⟩ := last_step leads free
  have start : Place.start (p.beside ending) = .start p := by
    rw [Place.start, Path.root_beside, Place.start]
  have step' : d.enter above (name ++ ending) = .ok r := by
    have way := walk_of_resolve aside
    rwa [start, Path.names_beside ending cut, walk_concat, there] at way
  have down : r = above.child (name ++ ending) := by
    rcases enter_eq_ok step' with ⟨up, -⟩ | ⟨-, down⟩
    · have length := congrArg List.length up
      simp only [List.length_append, Path.above, List.length_cons, List.length_nil] at length
      omega
    · exact down
  rw [down]
  rcases enter_eq_ok step with ⟨-, rfl⟩ | ⟨-, rfl⟩
  · exact (above.child_ne_parent _).symm
  · intro same
    have length := congrArg List.length (above.child_injective same)
    rw [List.length_append] at length
    omega

/-! ### Replacing -/

theorem look_of_write_of_ne (leads : d.resolve p = .ok q) (free : d.isDirectory q = false)
    (held : d.fileAt? q = some old) (ne : q ≠ r) : (d.put r text).look p = .file old := by
  have same : (d.put r text).directories = d.directories := rfl
  refine look_eq_file (resolve_congr same leads) ?_ ((fileAt?_put_of_ne d ne text).trans held)
  rw [isDirectory_congr same, free]

/-- Writing beside a file leaves the file alone. -/
theorem look_of_write_beside {ending : List Char} (long : 2 < ending.length)
    (found : d.look p = .file old) (h : d.write (p.beside ending) text = .ok e) :
    e.look p = .file old := by
  obtain ⟨q, leads, free, held⟩ := look_eq_file_iff.1 found
  unfold write at h
  split at h
  · simp at h
  · next r aside =>
    split at h
    · simp at h
    · obtain rfl := Except.ok.inj h
      exact look_of_write_of_ne leads free held (resolve_beside_ne long leads free aside)

/-- **The file is still there when it cannot be replaced.** -/
theorem look_of_replace_error {fault : Fault} (found : d.look p = .file old)
    (h : d.replace p text = (e, some fault)) : e.look p = .file old := by
  have wider := widens_makeDirectories d p.parent
  unfold replace at h
  split at h
  · next made =>
    obtain ⟨rfl, -⟩ := Prod.mk.inj h
    rw [made] at wider
    exact wider.look found
  · next d' made =>
    rw [made] at wider
    have found' : d'.look p = .file old := wider.look found
    simp only at h
    split at h
    · obtain ⟨rfl, -⟩ := Prod.mk.inj h
      exact found'
    · next written =>
      split at h
      · obtain ⟨rfl, -⟩ := Prod.mk.inj h
        exact look_of_write_beside (by decide) found' written
      · simp at h

end Disk

end ChangeControl.Storage
