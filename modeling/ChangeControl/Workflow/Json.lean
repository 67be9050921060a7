import ChangeControl.Json
import ChangeControl.Rule.Formula.Printer
import ChangeControl.Workflow
/-!
Workflows as data.

Conditions are written as texts, and effects by their names.

Main definitions:

* `Transition.toJson` — a transition as data;
* `Workflow.toJson` — a workflow as data.
-/

set_option autoImplicit false

namespace ChangeControl

/-- A transition as data. -/
def Transition.toJson (t : Transition) : Json :=
  .obj [("text", .str t.text), ("source", .str t.source), ("target", .str t.target),
    ("precondition", .str t.precondition.text), ("postcondition", .str t.postcondition.text),
    ("effects", .arr (t.effects.map fun e => .str e.name)), ("critical", .bool t.critical)]

/-- An invariant as data. -/
def Invariant.toJson (i : Invariant) : Json :=
  .obj [("name", .str i.name), ("kind", .str i.kind.word), ("formula", .str i.formula.text)]

/-- A workflow as data. -/
def Workflow.toJson (w : Workflow) : Json :=
  .obj [("name", .str w.name), ("states", .arr (w.states.map .str)),
    ("parameters", .arr (w.parameters.map .str)),
    ("transitions", .arr (w.transitions.map Transition.toJson)),
    ("invariants", .arr (w.invariants.map Invariant.toJson))]

end ChangeControl
