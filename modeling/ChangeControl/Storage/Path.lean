/-!
Names of files.

A path is read leniently: repeated slashes, a slash at the end and steps to the same directory (`.`)
do not count.  Steps to the parent directory are kept, because what they lead to depends on the
directories there are.

Main definitions:

* `Storage.Path` — a root and the names below it;
* `Path.ofText`, `Path.text` — reading and writing;
* `Path.beside` — the path with something added to its last name;
* `Path.parent` — the path without its last name.
-/

set_option autoImplicit false

namespace ChangeControl.Storage

/-- The name of a file or a directory. -/
structure Path where
  /-- The slashes in front: none, one, or exactly two. -/
  root : List Char
  /-- The names from the outermost directory inwards. -/
  names : List (List Char)
deriving DecidableEq, Repr

namespace Path

/-- A text cut at every slash. -/
def cut : List Char → List (List Char)
  | [] => [[]]
  | c :: cs =>
    if c = '/' then [] :: cut cs
    else
      match cut cs with
      | [] => [[c]]
      | name :: rest => (c :: name) :: rest

/-- The name of the directory above. -/
def above : List Char := ['.', '.']

/-- A name that leads somewhere else. -/
def counts (name : List Char) : Bool := !name.isEmpty && name != ['.']

/-- The slashes in front of a text that count.  Two of them are more than one, but three are not
more than one. -/
def rootOf (cs : List Char) : List Char :=
  let slashes := cs.takeWhile (· == '/')
  if slashes.length = 2 then slashes else slashes.take 1

/-- The path that a text names. -/
def ofText (s : String) : Path := ⟨rootOf s.toList, (cut s.toList).filter counts⟩

/-- The characters of the written path; the empty one is a point. -/
def write (p : Path) : List Char :=
  if p.root.isEmpty && p.names.isEmpty then ['.']
  else p.root ++ List.intercalate ['/'] p.names

/-- The written path. -/
def text (p : Path) : String := String.ofList p.write

/-- The path with `ending` behind its last name. -/
def beside (ending : List Char) (p : Path) : Path :=
  match p.names.getLast? with
  | none => { p with names := [ending] }
  | some name => { p with names := p.names.dropLast ++ [name ++ ending] }

/-- The path without its last name. -/
def parent (p : Path) : Path := { p with names := p.names.dropLast }

end Path

end ChangeControl.Storage
