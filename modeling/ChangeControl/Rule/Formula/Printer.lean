import ChangeControl.Rule.Formula
/-!
Formulas as rule text.

The text of a formula uses words for the connectives and as few parentheses as the binding
strengths allow.  From loosest to tightest these are quantifiers, implication, disjunction,
conjunction, negation, and everything else; an operand that binds more loosely than its place
demands is put in parentheses.

Main definitions:

* `Term.text`, `Formula.text` — the text;
* `Formula.firstBare?` — the first bare leaf, for which there is no rule text;
* `Formula.print?` — the text of a formula without bare leaves.
-/

set_option autoImplicit false

namespace ChangeControl.Rule

/-- A literal between double quotes, with a backslash before each backslash and double quote. -/
def literalText (value : String) : String :=
  let escaped := value.toList.flatMap fun c => if c = '\\' ∨ c = '"' then ['\\', c] else [c]
  "\"" ++ String.ofList escaped ++ "\""

/-- A term as it is written. -/
def Term.text : Term → String
  | var name | domain name | state name => name
  | literal value => literalText value
  | bare text => text

namespace Formula

/-- How tightly the outermost operator of a formula binds. -/
def strength : Formula → Nat
  | all .. | any .. => 0
  | implies .. => 1
  | or _ => 2
  | and _ => 3
  | not _ => 4
  | truth _ | pred .. | member .. | bare _ => 5

/-- Parentheses around the text of a formula that binds more loosely than `least`. -/
def parenthesize (least : Nat) (f : Formula) (text : String) : String :=
  if f.strength < least then "(" ++ text ++ ")" else text

mutual

/-- A formula as it is written. -/
def text : Formula → String
  | truth value => if value then "true" else "false"
  | pred name args => name ++ "[" ++ ", ".intercalate (args.map Term.text) ++ "]"
  | member element domain negated =>
    element.text ++ (if negated then " not in " else " in ") ++ domain
  | not f => "not " ++ f.parenthesize 4 f.text
  | and fs => " and ".intercalate (operandTexts 4 fs)
  | or fs => " or ".intercalate (operandTexts 3 fs)
  | implies f g => f.parenthesize 2 f.text ++ " -> " ++ g.parenthesize 1 g.text
  | all v d f => "forall " ++ v ++ " in " ++ d ++ ": " ++ f.text
  | any v d f => "exists " ++ v ++ " in " ++ d ++ ": " ++ f.text
  | bare text => text

/-- The texts of operands in places that demand the strength `least`. -/
def operandTexts (least : Nat) : List Formula → List String
  | [] => []
  | f :: fs => f.parenthesize least f.text :: operandTexts least fs

end

mutual

/-- The first bare leaf, from left to right. -/
def firstBare? : Formula → Option String
  | truth _ | pred .. | member .. => none
  | bare text => some text
  | not f | all _ _ f | any _ _ f => f.firstBare?
  | and fs | or fs => firstBareOf? fs
  | implies f g => f.firstBare? <|> g.firstBare?

/-- The first bare leaf of several formulas. -/
def firstBareOf? : List Formula → Option String
  | [] => none
  | f :: fs => f.firstBare? <|> firstBareOf? fs

end

/-- The text of a formula.  A bare leaf below the root has no rule text and is the error; a bare
leaf by itself is its own text. -/
def print? (f : Formula) : Except String String :=
  match f with
  | bare text => .ok text
  | f =>
    match f.firstBare? with
    | some leaf => .error leaf
    | none => .ok f.text

end Formula

end ChangeControl.Rule
