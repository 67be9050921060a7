import ChangeControl.Json.Inspect
import ChangeControl.Text.Upper
/-!
How important a log line is.

Levels are whole numbers; some of them have names, and two of these have two.

Main definitions:

* `Log.levelOfName?` — the level with a name in capitals;
* `Log.levelName` — the name of a level; a level without one is called by its number;
* `Log.levelNumber?` — data as a level;
* `Log.levelShown?` — what a record shows for a level that is given as data.

Main statements:

* `Log.levelOfName?_levelName` — a level that has a name has that one;
* `Log.levelShown?_int` — a whole number is shown by its name.
-/

set_option autoImplicit false

namespace ChangeControl.Log

/-- Details for those who look for a fault. -/
def debug : Int := 10

/-- What happens in the normal course of things. -/
def info : Int := 20

/-- What somebody may have to look after. -/
def warning : Int := 30

/-- The names with their levels; the first name of a level is the one it is called by. -/
def levels : List (String × Int) :=
  [("CRITICAL", 50), ("FATAL", 50), ("ERROR", 40), ("WARNING", warning), ("WARN", warning),
    ("INFO", info), ("DEBUG", debug), ("NOTSET", 0)]

/-- The level with a name. -/
def levelOfName? (name : String) : Option Int := levels.lookup name

/-- The name of a level that has none. -/
def unnamedLevel (shown : String) : String := "Level " ++ shown

/-- The name of a level. -/
def levelName (level : Int) : String :=
  match levels.find? fun l => l.2 == level with
  | some l => l.1
  | none => unnamedLevel (toString level)

/-- A text that is no level's name. -/
def unknownLevel (name : String) : String := "Unknown level: " ++ Text.quote name

theorem levelOfName?_levelName (level : Int) (named : level ∈ levels.map Prod.snd) :
    levelOfName? (levelName level) = some level := by
  simp only [levels, List.map_cons, List.map_nil, List.mem_cons, List.not_mem_nil, or_false]
    at named
  rcases named with rfl | rfl | rfl | rfl | rfl | rfl | rfl | rfl <;> rfl

/-! ### Levels as data -/

/-- The level that data stands for; truth values count as 1 and 0. -/
def levelNumber? : Json → Option Int
  | .int n => some n
  | .bool b => some (if b then 1 else 0)
  | .null | .real _ | .str _ | .arr _ | .obj _ => none

/-- What a record shows for a level: the name of a number, and the number of a name.  Lists and
objects cannot stand for levels. -/
def levelShown? (level : Json) : Option Json :=
  match level with
  | .arr _ | .obj _ => none
  | _ =>
    match levels.find? fun l => level.isWhole l.2, level with
    | some l, _ => some (.str l.1)
    | none, .str name =>
      match levelOfName? name with
      | some n => some (.int n)
      | none => some (.str (unnamedLevel name))
    | none, _ => some (.str (unnamedLevel level.display))

theorem levelShown?_int (level : Int) :
    levelShown? (.int level) = some (.str (levelName level)) := by
  have same : (fun l : String × Int => (Json.int level).isWhole l.2) = fun l => l.2 == level := by
    funext l
    exact Bool.beq_comm
  simp only [levelShown?, levelName, same]
  cases levels.find? fun l => l.2 == level <;> rfl

end ChangeControl.Log
