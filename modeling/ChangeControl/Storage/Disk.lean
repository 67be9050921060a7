import ChangeControl.Storage.Path
import ChangeControl.Text.Decode
/-!
Files and directories.

A path leads to a place by way of directories, each of which must be there.  Steps upwards are made
from where the path has led so far.  A file is written where its directory is; directories are made
on demand.  What cannot be done is told by a fault, and what was done before the fault stays.

Main definitions:

* `Storage.Place`, `Disk.resolve` — a place in the tree of directories, and where a path leads;
* `Storage.Disk` — the text of every file, and the directories;
* `Storage.Fault` — why something cannot be done;
* `Disk.look` — what is at a path;
* `Disk.makeDirectories`, `Disk.write` — making directories and writing a file;
* `Disk.save`, `Disk.replace` — a file with its directories, written in place or put in its place
  when it is finished.

Main statements:

* `Disk.look_of_write`, `Disk.look_of_save`, `Disk.look_of_replace` — reading after writing;
* `Disk.fileAt?_put_of_ne` — other files stay as they are.
-/

set_option autoImplicit false

namespace ChangeControl.Storage

/-! ### Places -/

/-- A place in the tree of directories. -/
structure Place where
  /-- The way begins at the root, and not at the current directory. -/
  fromRoot : Bool
  /-- How many directories above that the way begins. -/
  up : Nat
  /-- The names on the way, the last one first. -/
  names : List (List Char)
deriving DecidableEq, Repr

namespace Place

/-- Where the way of a path begins. -/
def start (p : Path) : Place := ⟨!p.root.isEmpty, 0, []⟩

/-- The place with a name below this one. -/
def child (q : Place) (name : List Char) : Place := { q with names := name :: q.names }

/-- The place above this one; above the root there is nothing else. -/
def parent (q : Place) : Place :=
  match q.names with
  | [] => if q.fromRoot then q else { q with up := q.up + 1 }
  | _ :: names => { q with names := names }

end Place

/-! ### Faults -/

/-- Why something cannot be done with files. -/
inductive Fault
  /-- There is nothing at the path. -/
  | absent
  /-- A file is where a directory should be on the way. -/
  | notDirectory
  /-- A directory is where a file should be. -/
  | isDirectory
  /-- A file is where a directory should be made. -/
  | inTheWay
  /-- A step upwards cannot be replaced. -/
  | busy
  /-- A name or the whole path is too long. -/
  | tooLong
  /-- The path holds the character U+0000. -/
  | badName
deriving DecidableEq, Repr

/-- One sentence on the fault. -/
def Fault.message : Fault → String
  | badName => "embedded null byte"
  | absent | notDirectory | isDirectory | inTheWay | busy | tooLong => ""

/-! ### Disks -/

/-- The files with their texts, and the directories. -/
structure Disk where
  files : List (Place × String)
  directories : List Place
deriving DecidableEq, Repr

/-- What is at a path. -/
inductive Entry
  | nothing
  | directory
  | file (text : String)
  /-- The path cannot be followed. -/
  | fault (e : Fault)
deriving DecidableEq, Repr

namespace Disk

/-- No files and no directories. -/
def empty : Disk := ⟨[], []⟩

/-- There is a directory at a place: the one where ways begin, one above it, or one that was
made. -/
def isDirectory (d : Disk) (q : Place) : Bool := q.names.isEmpty || d.directories.contains q

/-- The text of the file at a place. -/
def fileAt? (d : Disk) (q : Place) : Option String := d.files.lookup q

/-- A name has at most 255 bytes. -/
def isTooLong (name : List Char) : Bool := decide (255 < (String.ofList name).utf8ByteSize)

/-- The step from a place to a name. -/
def enter (d : Disk) (q : Place) (name : List Char) : Except Fault Place :=
  if d.isDirectory q then
    if name = Path.above then .ok q.parent
    else if isTooLong name then .error .tooLong
    else .ok (q.child name)
  else if (d.fileAt? q).isSome then .error .notDirectory
  else .error .absent

/-- Steps to one name after the other. -/
def walk (d : Disk) (q : Place) : List (List Char) → Except Fault Place
  | [] => .ok q
  | name :: names =>
    match d.enter q name with
    | .error e => .error e
    | .ok q => d.walk q names

/-- The place that a path leads to.  The last name needs not be there. -/
def resolve (d : Disk) (p : Path) : Except Fault Place :=
  if p.names.any fun name => name.contains '\x00' then .error .badName
  else if 4095 < p.text.utf8ByteSize then .error .tooLong
  else d.walk (.start p) p.names

/-- What is at a path. -/
def look (d : Disk) (p : Path) : Entry :=
  match d.resolve p with
  | .error .tooLong => .fault .tooLong
  | .error _ => .nothing
  | .ok q =>
    if d.isDirectory q then .directory
    else
      match d.fileAt? q with
      | some text => .file text
      | none => .nothing

/-- The text of a file as it is read, if there is one: every line is ended by a line feed. -/
def read? (d : Disk) (p : Path) : Except Fault (Option String) :=
  match d.look p with
  | .nothing => .ok none
  | .directory => .error .isDirectory
  | .file text => .ok (some (Text.linesOf text))
  | .fault e => .error e

/-! ### Writing -/

/-- The disk without a file at a place. -/
def remove (d : Disk) (q : Place) : Disk := { d with files := d.files.filter fun f => f.1 != q }

/-- The disk with a text in the file at a place. -/
def put (d : Disk) (q : Place) (text : String) : Disk :=
  { d with files := (q, text) :: (d.remove q).files }

/-- The disk with a directory at a path, whose parent must be there. -/
def makeDirectory (d : Disk) (p : Path) : Except Fault Disk :=
  match d.resolve p with
  | .error e => .error e
  | .ok q =>
    if d.isDirectory q then .ok d
    else if (d.fileAt? q).isSome then .error .inTheWay
    else .ok { d with directories := q :: d.directories }

/-- The disk with a directory at a path, the names of which are given from the last one backwards.
The directories on the way are made where it turns out that one is missing. -/
def makeWay (d : Disk) (root : List Char) : List (List Char) → Disk × Option Fault
  | [] => (d, none)
  | name :: outer =>
    let p : Path := ⟨root, (name :: outer).reverse⟩
    match d.makeDirectory p with
    | .ok d => (d, none)
    | .error .absent =>
      match d.makeWay root outer with
      | (d, some e) => (d, some e)
      | (d, none) =>
        match d.makeDirectory p with
        | .ok d => (d, none)
        | .error e => (d, some e)
    | .error e => (d, some e)

/-- The disk with a directory at a path, and with those on the way. -/
def makeDirectories (d : Disk) (p : Path) : Disk × Option Fault := d.makeWay p.root p.names.reverse

/-- The disk with a text in a file, whose directory must be there. -/
def write (d : Disk) (p : Path) (text : String) : Except Fault Disk :=
  match d.resolve p with
  | .error e => .error e
  | .ok q => if d.isDirectory q then .error .isDirectory else .ok (d.put q text)

/-- The disk with a text in a file and with the directories on the way. -/
def save (d : Disk) (p : Path) (text : String) : Disk × Option Fault :=
  match d.makeDirectories p.parent with
  | (d, some e) => (d, some e)
  | (d, none) =>
    match d.write p text with
    | .error e => (d, some e)
    | .ok d => (d, none)

/-- The disk with a finished file, which is at `part`, put in the place of another one. -/
def move (d : Disk) (part p : Path) (text : String) : Except Fault Disk :=
  match d.resolve part, d.resolve p with
  | .error e, _ | .ok _, .error e => .error e
  | .ok a, .ok q =>
    if p.names.getLast? = some Path.above then .error .busy
    else if d.isDirectory q then .error .isDirectory
    else .ok ((d.remove a).put q text)

/-- The disk with a text in a file that is written beside it first and then takes its place: nobody
ever sees a part of it, and nothing is left beside it unless it cannot take that place. -/
def replace (d : Disk) (p : Path) (text : String) : Disk × Option Fault :=
  match d.makeDirectories p.parent with
  | (d, some e) => (d, some e)
  | (d, none) =>
    let part := p.beside ['.', 't', 'm', 'p']
    match d.write part text with
    | .error e => (d, some e)
    | .ok d =>
      match d.move part p text with
      | .error e => (d, some e)
      | .ok d => (d, none)

/-! ### Reading after writing -/

theorem fileAt?_put_self (d : Disk) (q : Place) (text : String) :
    (d.put q text).fileAt? q = some text := by
  simp [fileAt?, put]

/-- Leaving out another key does not change what is found. -/
theorem lookup_filter_of_ne {q r : Place} (ne : r ≠ q) (files : List (Place × String)) :
    (files.filter fun f => f.1 != q).lookup r = files.lookup r := by
  induction files with
  | nil => rfl
  | cons f rest ih =>
    obtain ⟨s, text⟩ := f
    by_cases same : s = q
    · have other : (r == q) = false := beq_eq_false_iff_ne.2 ne
      simp [List.lookup_cons, same, other, ih]
    · simp [List.lookup_cons, same, ih]

theorem fileAt?_remove_of_ne (d : Disk) {q r : Place} (ne : r ≠ q) :
    (d.remove q).fileAt? r = d.fileAt? r :=
  lookup_filter_of_ne ne d.files

theorem fileAt?_put_of_ne (d : Disk) {q r : Place} (ne : r ≠ q) (text : String) :
    (d.put q text).fileAt? r = d.fileAt? r := by
  have other : (r == q) = false := beq_eq_false_iff_ne.2 ne
  rw [← fileAt?_remove_of_ne d ne]
  simp [fileAt?, put, List.lookup_cons, other]

/-- Where there are directories does not depend on the files. -/
theorem isDirectory_congr {d e : Disk} (same : e.directories = d.directories) (q : Place) :
    e.isDirectory q = d.isDirectory q := by
  simp only [isDirectory, same]

/-- A path still leads where it led as long as every directory is still there. -/
theorem walk_mono {d e : Disk} (kept : ∀ q, d.isDirectory q = true → e.isDirectory q = true)
    {q r : Place} {names : List (List Char)} (h : d.walk q names = .ok r) :
    e.walk q names = .ok r := by
  induction names generalizing q with
  | nil => exact h
  | cons name names ih =>
    have there : d.isDirectory q = true := by
      cases is : d.isDirectory q with
      | true => rfl
      | false => by_cases file : (d.fileAt? q).isSome <;> simp [walk, enter, is, file] at h
    have step : e.enter q name = d.enter q name := by
      simp [enter, kept q there, there]
    simp only [walk, step] at h ⊢
    split at h
    · simp at h
    · next found => exact ih h

theorem resolve_mono {d e : Disk} (kept : ∀ q, d.isDirectory q = true → e.isDirectory q = true)
    {p : Path} {q : Place} (h : d.resolve p = .ok q) : e.resolve p = .ok q := by
  unfold resolve at h ⊢
  split
  · next bad =>
    rw [if_pos bad] at h
    exact absurd h (by simp)
  · next good =>
    rw [if_neg good] at h
    split
    · next long =>
      rw [if_pos long] at h
      exact absurd h (by simp)
    · next short =>
      rw [if_neg short] at h
      exact walk_mono kept h

/-- Where a path leads does not depend on the files. -/
theorem resolve_congr {d e : Disk} (same : e.directories = d.directories) {p : Path} {q : Place}
    (h : d.resolve p = .ok q) : e.resolve p = .ok q :=
  resolve_mono (fun r is => (isDirectory_congr same r).trans is) h

theorem look_eq_file {d : Disk} {p : Path} {q : Place} {text : String}
    (leads : d.resolve p = .ok q) (free : d.isDirectory q = false)
    (held : d.fileAt? q = some text) : d.look p = .file text := by
  simp [look, leads, free, held]

theorem look_of_write {d e : Disk} {p : Path} {text : String} (h : d.write p text = .ok e) :
    e.look p = .file text := by
  unfold write at h
  split at h
  · simp at h
  · next q leads =>
    split at h
    · simp at h
    · next free =>
      simp only [Except.ok.injEq] at h
      subst h
      have same : (d.put q text).directories = d.directories := rfl
      refine look_eq_file (resolve_congr same leads) ?_ (fileAt?_put_self d q text)
      simpa [isDirectory_congr same] using free

theorem look_of_save {d e : Disk} {p : Path} {text : String} (h : d.save p text = (e, none)) :
    e.look p = .file text := by
  unfold save at h
  split at h
  · simp at h
  · split at h
    · simp at h
    · next written =>
      simp only [Prod.mk.injEq, and_true] at h
      exact h ▸ look_of_write written

theorem look_of_move {d e : Disk} {part p : Path} {text : String}
    (h : d.move part p text = .ok e) : e.look p = .file text := by
  unfold move at h
  split at h
  · simp at h
  · simp at h
  · next a q _ leads =>
    split at h
    · simp at h
    · split at h
      · simp at h
      · next free =>
        simp only [Except.ok.injEq] at h
        subst h
        have same : ((d.remove a).put q text).directories = d.directories := rfl
        refine look_eq_file (resolve_congr same leads) ?_ (fileAt?_put_self _ q text)
        simpa [isDirectory_congr same] using free

theorem look_of_replace {d e : Disk} {p : Path} {text : String}
    (h : d.replace p text = (e, none)) : e.look p = .file text := by
  unfold replace at h
  split at h
  · simp at h
  · simp only at h
    split at h
    · simp at h
    · split at h
      · simp at h
      · next moved =>
        simp only [Prod.mk.injEq, and_true] at h
        exact h ▸ look_of_move moved

end Disk

end ChangeControl.Storage
