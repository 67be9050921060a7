import ChangeControl.Rule.Position
import ChangeControl.Text.Quoted
/-!
What can be wrong with a rule text.

An error has a cause and a place.  The causes are listed one by one; each has the name of the
grammar rule that was not met and a sentence that says what was found instead.

Main definitions:

* `Rule.Cause` — the causes, with `Cause.rule` and `Cause.message`;
* `Rule.SyntaxError` — a cause at a place, with `SyntaxError.message`.
-/

set_option autoImplicit false

namespace ChangeControl.Rule

open Text

/-- What stood at the place of an error: the text of a token, or nothing at the end of input. -/
abbrev Found := Option String

/-- A token by its quoted text, or the words for the end. -/
def describeFound : Found → String
  | none => "end of input"
  | some text => quote text

/-- Why a rule text is refused. -/
inductive Cause
  /-- A string literal is still open at the end of its line. -/
  | openLiteral
  /-- A character that starts no token. -/
  | unknownCharacter (c : Char)
  /-- A certain word or mark had to come next. -/
  | expected (mark : String) (found : Found)
  /-- A name had to come next; `what` says of what. -/
  | expectedName (what : String) (found : Found)
  /-- A bracket or parenthesis is never closed. -/
  | unclosed (mark : String)
  /-- The body of a workflow is never closed. -/
  | unclosedWorkflow (name : String)
  /-- A quantifier inside parentheses that are never closed. -/
  | unclosedQuantifier
  /-- After an item of a list in brackets. -/
  | expectedSeparator (found : Found)
  /-- After an argument of a predicate. -/
  | expectedArgumentEnd (closer predicate : String) (found : Found)
  /-- At the top of a document. -/
  | expectedBlock (found : Found)
  /-- In the body of a workflow. -/
  | expectedSection (found : Found)
  /-- A section of a workflow occurs twice. -/
  | repeatedSection (name : String)
  /-- A clause of a transition occurs twice. -/
  | repeatedClause (clause source target : String)
  /-- A word or an operator where a formula could only go on with a connective. -/
  | notConnective (text : String)
  /-- Anything else after a complete formula. -/
  | unexpected (found : Found)
  /-- A quantifier without a variable. -/
  | quantifierVariable (head : String) (found : Found)
  /-- A quantifier without `in`. -/
  | quantifierIn (head var : String) (found : Found)
  /-- A quantifier without a domain. -/
  | quantifierDomain (found : Found)
  /-- A quantifier whose scope is not opened. -/
  | quantifierScope (head var domain : String) (found : Found)
  /-- A quantifier without a body. -/
  | quantifierBody (head var domain : String)
  /-- A reserved word in front of arguments. -/
  | reservedWord (word : String)
  /-- A term that no `in` or `not in` follows. -/
  | danglingTerm (term : String)
  /-- A formula had to come next. -/
  | expectedFormula (found : Found)
  /-- A term had to come next. -/
  | expectedTerm (found : Found)
  /-- A variable outside the scope of every quantifier. -/
  | unboundVariable (name : String)
deriving DecidableEq, Repr

namespace Cause

/-- The grammar rule that was not met. -/
def rule : Cause → String
  | openLiteral => "unterminated string"
  | unknownCharacter _ => "unknown character"
  | expectedName .. => "expected name"
  | unclosed _ | unclosedWorkflow _ => "unterminated block"
  | repeatedSection _ => "duplicate section"
  | repeatedClause .. => "duplicate clause"
  | notConnective _ => "unknown connective"
  | unclosedQuantifier | quantifierVariable .. | quantifierIn .. | quantifierDomain _
  | quantifierScope .. | quantifierBody .. => "unmatched quantifier scope"
  | danglingTerm _ | expectedFormula _ => "expected formula"
  | expectedTerm _ => "expected term"
  | unboundVariable _ => "unbound variable"
  | expected .. | expectedSeparator _ | expectedArgumentEnd .. | expectedBlock _
  | expectedSection _ | unexpected _ | reservedWord _ => "unexpected token"

/-- One sentence on what was expected and what was found. -/
def message : Cause → String
  | openLiteral => "string literal is not closed before end of line"
  | unknownCharacter c => "unexpected character " ++ quote c.toString
  | expected mark found => "expected " ++ quote mark ++ ", found " ++ describeFound found
  | expectedName what found => "expected " ++ what ++ ", found " ++ describeFound found
  | unclosed mark => quote mark ++ " is never closed"
  | unclosedWorkflow name => "workflow " ++ quote name ++ " is never closed"
  | unclosedQuantifier => "quantifier opened inside '(' is never closed"
  | expectedSeparator found => "expected ',' or ']', found " ++ describeFound found
  | expectedArgumentEnd closer predicate found =>
    "expected ',' or " ++ quote closer ++ " in arguments of " ++ quote predicate ++ ", found " ++
      describeFound found
  | expectedBlock found =>
    "expected a 'workflow', 'invariant', 'proof' or 'axiom' block, found " ++ describeFound found
  | expectedSection found =>
    "expected 'states', 'transitions' or '\x7d', found " ++ describeFound found
  | repeatedSection name => "'" ++ name ++ "' is declared twice"
  | repeatedClause clause source target =>
    quote clause ++ " given twice for " ++ source ++ " -> " ++ target
  | notConnective text =>
    quote text ++ " is not a logical connective (expected and, or, not, implies or their symbols)"
  | unexpected found => "unexpected " ++ describeFound found
  | quantifierVariable head found =>
    "expected a variable after " ++ quote head ++ ", found " ++ describeFound found
  | quantifierIn head var found =>
    "expected 'in' after '" ++ head ++ " " ++ var ++ "', found " ++ describeFound found
  | quantifierDomain found => "expected a domain after 'in', found " ++ describeFound found
  | quantifierScope head var domain found =>
    "expected ':' to open the scope of '" ++ head ++ " " ++ var ++ " in " ++ domain ++
      "', found " ++ describeFound found
  | quantifierBody head var domain =>
    "'" ++ head ++ " " ++ var ++ " in " ++ domain ++ "' has no body"
  | reservedWord word => quote word ++ " is a reserved word"
  | danglingTerm term => "term " ++ quote term ++ " must be followed by 'in' or 'not in'"
  | expectedFormula found => "expected a formula, found " ++ describeFound found
  | expectedTerm found => "expected a variable or name, found " ++ describeFound found
  | unboundVariable name =>
    "variable " ++ quote name ++ " is not bound by any enclosing quantifier"

end Cause

/-- A rule text is refused for one cause, at one place. -/
structure SyntaxError where
  cause : Cause
  place : Position
deriving DecidableEq, Repr

/-- The place, the grammar rule and the sentence, on one line. -/
def SyntaxError.message (e : SyntaxError) : String :=
  "line " ++ toString e.place.line ++ ", column " ++ toString e.place.column ++
    " (offset " ++ toString e.place.offset ++ "): " ++ e.cause.rule ++ ": " ++ e.cause.message

end ChangeControl.Rule
