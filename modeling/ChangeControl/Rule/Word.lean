/-!
The words and characters of the rule language.

Main definitions:

* `Rule.isNameStart`, `Rule.isNameChar`, `Rule.isSpace` — character classes; names are ASCII;
* `Rule.reserved` — the words that cannot be names;
* `Rule.domainNames`, `Rule.domainOfSort?` — the finite domains a variable may range over, and
  the sort names that stand for a variable of one of them.
-/

set_option autoImplicit false

namespace ChangeControl.Rule

/-- A name starts with a letter of ASCII or an underscore. -/
def isNameStart (c : Char) : Bool := c.isAlpha || c == '_'

/-- A name goes on with letters and digits of ASCII and underscores. -/
def isNameChar (c : Char) : Bool := c.isAlphanum || c == '_'

/-- Blank characters inside a line. -/
def isSpace (c : Char) : Bool :=
  c == ' ' || c == '\t' || c == '\r' || c == '\x0c' || c == '\x0b'

theorem isNameChar_of_isNameStart {c : Char} (h : isNameStart c = true) : isNameChar c = true := by
  simp only [isNameStart, isNameChar, Char.isAlphanum, Bool.or_eq_true] at h ⊢
  rcases h with h | h <;> simp [h]

/-- Words that open a block. -/
def blockWords : List String := ["workflow", "invariant", "proof", "axiom"]

/-- Words that open a clause of a transition. -/
def clauseWords : List String := ["requires", "ensures", "effect"]

/-- Words that join formulas or bind variables. -/
def connectiveWords : List String := ["and", "or", "not", "implies", "in", "forall", "exists"]

/-- The words that cannot be used as names. -/
def reserved : List String :=
  blockWords ++ clauseWords ++ connectiveWords ++
    ["true", "false", "that", "critical", "states", "transitions"]

/-- The finite domains that a quantifier or a membership test may name. -/
def domainNames : List String := ["tasks", "backlog", "changelog", "journal", "commits", "states"]

/-- The domain of a sort name: a variable written `task` without a quantifier ranges over `tasks`
in the whole of its declaration. -/
def domainOfSort? (name : String) : Option String :=
  if name = "task" then some "tasks"
  else if name = "commit" then some "commits"
  else if name = "state" then some "states"
  else none

/-- A domain may be written in any mixture of cases; a name of no domain is left as it is. -/
def domainName (name : String) : String :=
  if domainNames.contains name.toLower then name.toLower else name

/-- Whether a name starts with a capital letter of ASCII. -/
def startsUpper (name : String) : Bool :=
  match name.toList with
  | [] => false
  | c :: _ => c.isUpper

end ChangeControl.Rule
