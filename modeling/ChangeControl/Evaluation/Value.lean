import ChangeControl.Json.Inspect
import ChangeControl.Snapshot
/-!
Values that terms stand for.

Main definitions:

* `ValueKind` — what a predicate can ask for;
* `Value` — tasks, commits, texts (states and literals) and lists of values (domains);
* `Value.display`, `Value.inspect` — a value by its name, and a value as a message shows it;
* `Value.isIn` — membership: a text is a member when it names one.
-/

set_option autoImplicit false

namespace ChangeControl

/-- What a term can stand for, as far as the load-time checks can tell. -/
inductive ValueKind
  | task | commit | state | domain
deriving DecidableEq, Repr

/-- The word for a kind of value. -/
def ValueKind.word : ValueKind → String
  | task => "task"
  | commit => "commit"
  | state => "state"
  | domain => "domain"

/-- What a term stands for. -/
inductive Value
  | task (t : Task)
  | commit (c : Commit)
  | text (s : String)
  | list (values : List Value)
deriving Repr, Inhabited

namespace Value

/-! ### Equality -/

mutual

/-- Whether two values are the same. -/
def same : Value → Value → Bool
  | task t, task u => t == u
  | commit c, commit d => c == d
  | text s, text t => s == t
  | list vs, list ws => sameList vs ws
  | _, _ => false

/-- Whether two lists of values are the same. -/
def sameList : List Value → List Value → Bool
  | [], [] => true
  | v :: vs, w :: ws => v.same w && sameList vs ws
  | _, _ => false

end

mutual

theorem same_iff : ∀ v w : Value, v.same w = true ↔ v = w
  | task _, w | commit _, w | text _, w => by cases w <;> simp [same]
  | list vs, w => by cases w <;> simp [same, sameList_iff vs]

theorem sameList_iff : ∀ vs ws : List Value, sameList vs ws = true ↔ vs = ws
  | [], ws => by cases ws <;> simp [sameList]
  | v :: vs, ws => by cases ws <;> simp [sameList, same_iff v, sameList_iff vs]

end

instance : DecidableEq Value := fun v w => decidable_of_iff (v.same w = true) (same_iff v w)

/-! ### Values in texts -/

/-- An optional text as a message shows it. -/
def inspectOption : Option String → String
  | none => "None"
  | some s => Text.quote s

/-- A task as a message shows it. -/
def inspectTask (t : Task) : String :=
  "Task(id=" ++ Text.quote t.id ++ ", layer=<Layer." ++ t.layer.name.toUpper ++ ": " ++
    Text.quote t.layer.name ++ ">, completed=" ++ Text.boolWord t.completed ++ ", committed=" ++
    Text.boolWord t.committed ++ ")"

/-- A commit as a message shows it. -/
def inspectCommit (c : Commit) : String :=
  "Commit(id=" ++ Text.quote c.id ++ ", message=" ++ Text.quote c.message ++ ", validated=" ++
    Text.boolWord c.validated ++ ", reverts=" ++ inspectOption c.reverts ++ ", revert_target=" ++
    inspectOption c.revertTarget ++ ")"

mutual

/-- A value as a message shows it; a list of one value keeps a comma. -/
def inspect : Value → String
  | task t => inspectTask t
  | commit c => inspectCommit c
  | text s => Text.quote s
  | list vs => "(" ++ ", ".intercalate (inspectList vs) ++ (if vs.length = 1 then ",)" else ")")

/-- Each of some values. -/
def inspectList : List Value → List String
  | [] => []
  | v :: vs => v.inspect :: inspectList vs

end

/-- A value by its name: tasks and commits by their identifiers, a text by itself. -/
def display : Value → String
  | task t => t.id
  | commit c => c.id
  | text s => s
  | list vs => (list vs).inspect

/-! ### Membership -/

/-- Whether a text names this value. -/
def isNamed (s : String) : Value → Bool
  | task t => t.id == s
  | commit c => c.id == s
  | text t => t == s
  | list _ => false

/-- Whether a value is among others; a text is when it names one of them. -/
def isIn (members : List Value) : Value → Bool
  | text s => members.any (isNamed s)
  | v => members.contains v

end Value

end ChangeControl
