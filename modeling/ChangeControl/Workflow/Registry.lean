import ChangeControl.Text.Decode
import ChangeControl.Workflow.Check
/-!
The workflows that are loaded.

Loading a text parses and checks it, and only then publishes its workflow, in the place of an
earlier one of the same name if there is one.  A registry is a value: who holds an earlier one, or a
workflow of it, keeps it.

Main definitions:

* `Registry`, `Registry.empty`, `Registry.find?`, `Registry.names`;
* `LoadFailure`, `FileFailure` — a text and a file that are refused;
* `Registry.load` — the registry with the workflow of a text, and that workflow;
* `Registry.loadFile` — the same for the bytes of a file.

Main statements:

* `Registry.find?_publish_self`, `Registry.find?_publish_of_ne` — what is found after publishing.
-/

set_option autoImplicit false

namespace ChangeControl

/-- Workflows by name. -/
structure Registry where
  vocabulary : Vocabulary
  entries : List Workflow
deriving DecidableEq, Repr

/-- Why a text is not loaded. -/
inductive LoadFailure
  | unparsed (e : Rule.SyntaxError)
  | inconsistent (e : LoadError)
deriving DecidableEq, Repr

/-- Why a file is not loaded. -/
inductive FileFailure
  /-- There is no such file. -/
  | absent
  /-- The file is not text. -/
  | undecodable
  | refused (e : LoadFailure)
deriving DecidableEq, Repr

namespace Registry

/-- The registry without workflows. -/
def empty (vocabulary : Vocabulary) : Registry := ⟨vocabulary, []⟩

/-- The workflow with a name. -/
def find? (r : Registry) (name : String) : Option Workflow :=
  r.entries.find? fun w => w.name == name

/-- The names of the workflows, in order. -/
def names (r : Registry) : List String :=
  (r.entries.map Workflow.name).mergeSort fun a b => decide (a ≤ b)

/-- `w` in the place of the workflow with its name, or last. -/
def put (w : Workflow) : List Workflow → List Workflow
  | [] => [w]
  | v :: vs => if v.name = w.name then w :: vs else v :: put w vs

/-- The registry with one more workflow. -/
def publish (r : Registry) (w : Workflow) : Registry := { r with entries := put w r.entries }

theorem find?_publish_self (r : Registry) (w : Workflow) :
    (r.publish w).find? w.name = some w := by
  unfold publish find?
  simp only
  induction r.entries with
  | nil => simp [put]
  | cons v vs ih => by_cases h : v.name = w.name <;> simp [put, h, ih]

theorem find?_publish_of_ne (r : Registry) (w : Workflow) {name : String} (ne : name ≠ w.name) :
    (r.publish w).find? name = r.find? name := by
  unfold publish find?
  simp only
  induction r.entries with
  | nil => simp [put, ne.symm]
  | cons v vs ih =>
    by_cases h : v.name = w.name
    · simp [put, h, ne.symm]
    · by_cases h' : v.name = name <;> simp_all [put]

/-- The workflow that a text declares. -/
def check (r : Registry) (text : String) : Except LoadFailure Workflow :=
  match Rule.parse text with
  | .error e => .error (.unparsed e)
  | .ok d =>
    match buildWorkflow r.vocabulary d with
    | .error e => .error (.inconsistent e)
    | .ok w => .ok w

/-- The registry with the workflow of a text, and that workflow. -/
def load (r : Registry) (text : String) : Except LoadFailure (Registry × Workflow) :=
  match r.check text with
  | .error e => .error e
  | .ok w => .ok (r.publish w, w)

/-- The registry with the workflow of a file, given its bytes, and that workflow. -/
def loadFile (r : Registry) (bytes : Option ByteArray) : Except FileFailure (Registry × Workflow) :=
  match bytes with
  | none => .error .absent
  | some bytes =>
    match Text.decode? bytes with
    | none => .error .undecodable
    | some text =>
      match r.load text with
      | .error e => .error (.refused e)
      | .ok loaded => .ok loaded

end Registry

/-- No workflow of this name is loaded. -/
def unknownWorkflow (name : String) : String :=
  "No workflow named " ++ Text.quote name ++ " is loaded"

end ChangeControl
