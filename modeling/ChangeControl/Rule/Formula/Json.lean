import ChangeControl.Json
import ChangeControl.Rule.Formula
/-!
Formulas as data.

Every node of a tree is an object that tells its kind and its parts.

Main definitions:

* `Term.toJson`, `Formula.toJson` — a term and a formula as data.

Main statements:

* `Formula.length_listJson` — every operand is written.
-/

set_option autoImplicit false

namespace ChangeControl.Rule

/-- A node of a kind, with its parts. -/
def node (kind : String) (parts : List (String × Json)) : Json := .obj (("t", .str kind) :: parts)

/-- A term as data. -/
def Term.toJson : Term → Json
  | .var name => node "var" [("name", .str name)]
  | .domain name => node "domain" [("name", .str name)]
  | .state name => node "state" [("name", .str name)]
  | .literal text => node "lit" [("value", .str text)]
  | .bare text => node "raw" [("value", .str text)]

namespace Formula

mutual

/-- A formula as data. -/
def toJson : Formula → Json
  | truth b => node "truth" [("value", .bool b)]
  | pred name args => node "pred" [("name", .str name), ("args", .arr (args.map Term.toJson))]
  | member element domain negated =>
    node "member" [("element", element.toJson), ("domain", .str domain), ("negated", .bool negated)]
  | not f => node "not" [("operand", f.toJson)]
  | and fs => node "and" [("operands", .arr (listJson fs))]
  | or fs => node "or" [("operands", .arr (listJson fs))]
  | implies f g => node "implies" [("antecedent", f.toJson), ("consequent", g.toJson)]
  | all var domain body =>
    node "forall" [("var", .str var), ("domain", .str domain), ("body", body.toJson)]
  | any var domain body =>
    node "exists" [("var", .str var), ("domain", .str domain), ("body", body.toJson)]
  | bare text => node "raw" [("value", .str text)]

/-- Each of some formulas as data. -/
def listJson : List Formula → List Json
  | [] => []
  | f :: fs => f.toJson :: listJson fs

end

theorem length_listJson (fs : List Formula) : (listJson fs).length = fs.length := by
  induction fs with
  | nil => rfl
  | cons f fs ih => simp [listJson, ih]

end Formula

end ChangeControl.Rule
