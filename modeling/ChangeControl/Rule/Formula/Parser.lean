import ChangeControl.Rule.Formula.Printer
import ChangeControl.Rule.Lexer
import ChangeControl.Rule.Parsed
/-!
Rule text as formulas.

The grammar has one function for each of its levels, from quantifiers, which bind loosest, to
atoms.  A quantifier's variable is in scope in its body and nowhere else; a name outside every
scope is a domain, a state (when it starts with a capital) or a sort name, and anything else is an
error at that name.  The sort names left free in a whole declaration are quantified in the end.

Main definitions:

* `Rule.resolve?` — what a name in the place of a term stands for;
* `Rule.term`, `Rule.application`, `Rule.membership`, `Rule.quantifierHead` — the parts of atoms
  and quantifiers that hold no formula;
* `Rule.formula` and the functions beside it — the levels of the grammar;
* `Rule.Context`, `Rule.closedFormula` — a formula that ends where its declaration ends;
* `Rule.parseFormula` — a formula by itself.
-/

set_option autoImplicit false

namespace ChangeControl.Rule

/-! ### Terms -/

/-- A name in the place of a term: a variable in scope, a domain, a state or a sort name. -/
def resolve? (scope : List String) (name : String) : Option Term :=
  if scope.contains name then some (.var name)
  else if domainNames.contains name.toLower then some (.domain name.toLower)
  else if startsUpper name then some (.state name)
  else if (domainOfSort? name).isSome then some (.var name)
  else none

/-- A literal or a name. -/
def term (stop : Position) (scope : List String) (tokens : List Token) : Reading Term tokens :=
  match tokens with
  | [] => failAt stop [] (.expectedTerm none)
  | t :: rest =>
    match t.lexeme with
    | .literal value => .ok (.one (.literal value) t rest)
    | .name name =>
      if barredDomains.contains name then failAt stop (t :: rest) (.expectedTerm (some t.text))
      else
        match resolve? scope name with
        | some term => .ok (.one term t rest)
        | none => failAt stop (t :: rest) (.unboundVariable name)
    | _ => failAt stop (t :: rest) (.expectedTerm (some t.text))

/-- The arguments of `predicate` from the first one to the mark `closer`; the opening mark `mark`
stands at `opener`. -/
def arguments (stop opener : Position) (predicate : String) (mark closer : Char)
    (scope : List String) (tokens : List Token) : Reading (List Term) tokens :=
  match term stop scope tokens with
  | .error e => .error e
  | .ok first =>
    match next? (Token.isPunct ',') first.rest with
    | some comma =>
      have := comma.shorter
      have := first.shorter
      match arguments stop opener predicate mark closer scope comma.rest with
      | .error e => .error e
      | .ok more => .ok (first.before (comma.before (more.map (first.value :: ·))))
    | none =>
      match next? (Token.isPunct closer) first.rest with
      | some closed => .ok (first.before (closed.map fun _ => [first.value]))
      | none =>
        if first.rest.isEmpty then .error ⟨.unclosed mark.toString, opener⟩
        else
          failAt stop first.rest
            (.expectedArgumentEnd closer.toString predicate (found first.rest))
termination_by tokens.length
decreasing_by omega

/-- The mark that opens arguments, with the mark that closes them. -/
def argumentMarks? (t : Token) : Option (Char × Char) :=
  if t.isPunct '[' then some ('[', ']') else if t.isPunct '(' then some ('(', ')') else none

/-- A predicate `name` and its arguments, read from after the name. -/
def application (stop : Position) (scope : List String) (name : String) (marks : Char × Char)
    (opener : Token) (tokens : List Token) :
    Except SyntaxError (Parsed Formula (tokens.length + 1)) :=
  match next? (Token.isPunct marks.2) tokens with
  | some closed => .ok (closed.map fun _ => .pred name []).weaken
  | none =>
    match arguments stop opener.start name marks.1 marks.2 scope tokens with
    | .error e => .error e
    | .ok args => .ok (args.map (.pred name)).weaken

/-- The tokens that ask for membership: `in`, the symbol for `not in`, or the words `not in`.  The
result tells whether the test is negated. -/
def membershipMark? (tokens : List Token) : Option (Parsed Bool tokens.length) :=
  match tokens with
  | [] => none
  | t :: rest =>
    if t.means .mem then some (.one false t rest)
    else if t.isSymbol .notMem then some (.one true t rest)
    else if t.isWord "not" then
      match next? (Token.means .mem) rest with
      | some after => some (after.map fun _ => true).weaken
      | none => none
    else none

/-- A membership test. -/
def membership (stop : Position) (scope : List String) (tokens : List Token) :
    Reading Formula tokens :=
  match term stop scope tokens with
  | .error e => .error e
  | .ok element =>
    match membershipMark? element.rest with
    | none => failAt stop element.rest (.danglingTerm element.value.text)
    | some mark =>
      match expectDomain stop mark.rest with
      | .error e => .error e
      | .ok domain =>
        let test := domain.map fun d => Formula.member element.value d mark.value
        .ok (element.before (mark.before test))

/-! ### Quantifiers -/

/-- The quantifier that a token stands for: `true` for the universal one. -/
def quantifier? (t : Token) : Option Bool :=
  if t.means .all then some true else if t.means .any then some false else none

/-- What stands before the body of a quantifier. -/
structure QuantifierHead where
  universal : Bool
  var : String
  domain : String
deriving DecidableEq, Repr

/-- The quantified formula with the body `body`. -/
def QuantifierHead.bind (h : QuantifierHead) (body : Formula) : Formula :=
  if h.universal then .all h.var h.domain body else .any h.var h.domain body

/-- The tokens with which no body can begin. -/
def cannotBegin (tokens : List Token) : Bool :=
  match tokens with
  | [] => true
  | t :: _ => t.isPunct ';' || t.isPunct ')' || t.isPunct ']' || t.isPunct ','

/-- A variable, `in`, a domain and the mark that opens the scope, read from after the quantifier
that is written `head`. -/
def quantifierHead (stop : Position) (universal : Bool) (head : String) (tokens : List Token) :
    Reading QuantifierHead tokens :=
  match nameOutside? reserved tokens with
  | none => failAt stop tokens (.quantifierVariable head (found tokens))
  | some var =>
    match next? (Token.means .mem) var.rest with
    | none => failAt stop var.rest (.quantifierIn head var.value (found var.rest))
    | some inside =>
      match nameOutside? barredDomains inside.rest with
      | none => failAt stop inside.rest (.quantifierDomain (found inside.rest))
      | some domain =>
        let domainIs := domainName domain.value
        match next? (fun t => t.isPunct ':' || t.isPunct '.') domain.rest with
        | none =>
          failAt stop domain.rest
            (.quantifierScope head var.value domainIs (found domain.rest))
        | some mark =>
          if cannotBegin mark.rest then
            failAt stop mark.rest (.quantifierBody head var.value domainIs)
          else
            let read := mark.map fun _ => (⟨universal, var.value, domainIs⟩ : QuantifierHead)
            .ok (var.before (inside.before (domain.before read)))

/-! ### The levels of the grammar -/

/-- The error about a token that neither continues nor ends a formula. -/
def trailing {α : Type} (stop : Position) (tokens : List Token) : Except SyntaxError α :=
  match tokens with
  | [] => failAt stop [] (.unexpected none)
  | t :: rest =>
    match t.lexeme with
    | .name _ | .symbol _ | .stray _ => failAt stop (t :: rest) (.notConnective t.text)
    | .literal _ | .punct _ => failAt stop (t :: rest) (.unexpected (some t.text))

/-- The error about a parenthesis at `opener` that is not closed after the formula `inner`. -/
def unclosedParenthesis {α : Type} (stop opener : Position) (inner : Formula)
    (tokens : List Token) : Except SyntaxError α :=
  match tokens with
  | [] =>
    match inner with
    | .all .. | .any .. => .error ⟨.unclosedQuantifier, opener⟩
    | _ => .error ⟨.unclosed "(", opener⟩
  | _ => trailing stop tokens

/-- Several operands under `join`; one operand stands for itself. -/
def joined (join : List Formula → Formula) (first : Formula) (more : List Formula) : Formula :=
  if more.isEmpty then first else join (first :: more)

mutual

/-- A quantified formula or an implication. -/
def formula (stop : Position) (scope : List String) (tokens : List Token) :
    Reading Formula tokens :=
  match tokens with
  | [] => implication stop scope []
  | t :: rest =>
    match quantifier? t with
    | some universal =>
      match quantified stop scope universal t.text rest with
      | .error e => .error e
      | .ok f => .ok f.weaken
    | none => implication stop scope (t :: rest)
termination_by 8 * tokens.length + 6

/-- A quantifier's variable, domain and body, read from after the quantifier, which is written
`head`. -/
def quantified (stop : Position) (scope : List String) (universal : Bool) (head : String)
    (tokens : List Token) : Reading Formula tokens :=
  match quantifierHead stop universal head tokens with
  | .error e => .error e
  | .ok h =>
    have := h.shorter
    match formula stop (h.value.var :: scope) h.rest with
    | .error e => .error e
    | .ok body => .ok (h.before (body.map h.value.bind))
termination_by 8 * tokens.length + 7
decreasing_by omega

/-- A disjunction, or an implication from one to a formula. -/
def implication (stop : Position) (scope : List String) (tokens : List Token) :
    Reading Formula tokens :=
  match disjunction stop scope tokens with
  | .error e => .error e
  | .ok left =>
    match next? (Token.means .implies) left.rest with
    | none => .ok left
    | some arrow =>
      have := left.shorter
      have := arrow.shorter
      match formula stop scope arrow.rest with
      | .error e => .error e
      | .ok right => .ok (left.before (arrow.before (right.map (.implies left.value))))
termination_by 8 * tokens.length + 5
decreasing_by all_goals omega

/-- Conjunctions joined by `or`. -/
def disjunction (stop : Position) (scope : List String) (tokens : List Token) :
    Reading Formula tokens :=
  match conjunction stop scope tokens with
  | .error e => .error e
  | .ok first =>
    have := first.shorter
    match disjuncts stop scope first.rest with
    | .error e => .error e
    | .ok more => .ok (first.followedBy (more.map (joined .or first.value)))
termination_by 8 * tokens.length + 4
decreasing_by all_goals omega

/-- The disjuncts after the first one, each after an `or`. -/
def disjuncts (stop : Position) (scope : List String) (tokens : List Token) :
    Except SyntaxError (Parsed (List Formula) (tokens.length + 1)) :=
  match next? (Token.means .or) tokens with
  | none => .ok (.nothing [] tokens)
  | some mark =>
    have := mark.shorter
    match conjunction stop scope mark.rest with
    | .error e => .error e
    | .ok first =>
      have := first.shorter
      match disjuncts stop scope first.rest with
      | .error e => .error e
      | .ok more => .ok (mark.before (first.followedBy (more.map (first.value :: ·)))).weaken
termination_by 8 * tokens.length + 4
decreasing_by all_goals omega

/-- Negations joined by `and`. -/
def conjunction (stop : Position) (scope : List String) (tokens : List Token) :
    Reading Formula tokens :=
  match negation stop scope tokens with
  | .error e => .error e
  | .ok first =>
    have := first.shorter
    match conjuncts stop scope first.rest with
    | .error e => .error e
    | .ok more => .ok (first.followedBy (more.map (joined .and first.value)))
termination_by 8 * tokens.length + 3
decreasing_by all_goals omega

/-- The conjuncts after the first one, each after an `and`. -/
def conjuncts (stop : Position) (scope : List String) (tokens : List Token) :
    Except SyntaxError (Parsed (List Formula) (tokens.length + 1)) :=
  match next? (Token.means .and) tokens with
  | none => .ok (.nothing [] tokens)
  | some mark =>
    have := mark.shorter
    match negation stop scope mark.rest with
    | .error e => .error e
    | .ok first =>
      have := first.shorter
      match conjuncts stop scope first.rest with
      | .error e => .error e
      | .ok more => .ok (mark.before (first.followedBy (more.map (first.value :: ·)))).weaken
termination_by 8 * tokens.length + 3
decreasing_by all_goals omega

/-- An atom after any number of negations. -/
def negation (stop : Position) (scope : List String) (tokens : List Token) :
    Reading Formula tokens :=
  match next? (Token.means .not) tokens with
  | none => atom stop scope tokens
  | some mark =>
    have := mark.shorter
    match negation stop scope mark.rest with
    | .error e => .error e
    | .ok operand => .ok (mark.before (operand.map .not))
termination_by 8 * tokens.length + 2
decreasing_by all_goals omega

/-- A formula in parentheses, a quantified formula, a truth value, a predicate or a membership
test. -/
def atom (stop : Position) (scope : List String) (tokens : List Token) : Reading Formula tokens :=
  match tokens with
  | [] => failAt stop [] (.expectedFormula none)
  | t :: rest =>
    if t.isPunct '(' then
      match formula stop scope rest with
      | .error e => .error e
      | .ok inner =>
        match next? (Token.isPunct ')') inner.rest with
        | some closed => .ok (inner.before (closed.map fun _ => inner.value)).weaken
        | none => unclosedParenthesis stop t.start inner.value inner.rest
    else
      match quantifier? t with
      | some universal =>
        match quantified stop scope universal t.text rest with
        | .error e => .error e
        | .ok f => .ok f.weaken
      | none =>
        if t.isWord "true" then .ok (.one (.truth true) t rest)
        else if t.isWord "false" then .ok (.one (.truth false) t rest)
        else
          match t.lexeme with
          | .literal _ => membership stop scope (t :: rest)
          | .name name =>
            match rest with
            | [] =>
              if reserved.contains name then
                failAt stop [t] (.expectedFormula (some t.text))
              else membership stop scope [t]
            | opener :: args =>
              match argumentMarks? opener with
              | some marks =>
                if reserved.contains name then
                  failAt stop (t :: opener :: args) (.reservedWord name)
                else
                  match application stop scope name marks opener args with
                  | .error e => .error e
                  | .ok f => .ok f.weaken
              | none =>
                if reserved.contains name then
                  failAt stop (t :: opener :: args) (.expectedFormula (some t.text))
                else membership stop scope (t :: opener :: args)
          | _ => failAt stop (t :: rest) (.expectedFormula (some t.text))
termination_by 8 * tokens.length + 1
decreasing_by all_goals simp only [List.length_cons]; omega

end

/-! ### Whole formulas -/

/-- What a formula is part of, and so what may follow it. -/
inductive Context
  /-- A formula by itself, or a formula block. -/
  | top
  /-- A clause of a transition. -/
  | clause
deriving DecidableEq, Repr

/-- Whether a formula in this context may end before these tokens. -/
def Context.endsAt (context : Context) (tokens : List Token) : Bool :=
  match tokens with
  | [] => true
  | t :: _ =>
    match context with
    | .top => t.isPunct ';' || blockWords.any t.isWord
    | .clause => t.isPunct ',' || t.isPunct ']' || clauseWords.any t.isWord

/-- A formula with its free sort names quantified; it ends where its context allows. -/
def closedFormula (stop : Position) (context : Context) (tokens : List Token) :
    Reading Formula tokens :=
  match formula stop [] tokens with
  | .error e => .error e
  | .ok f =>
    if context.endsAt f.rest then .ok (f.map Formula.closure)
    else trailing stop f.rest

/-- The formula that a whole list of tokens stands for. -/
def formulaOfTokens (stream : TokenStream) : Except SyntaxError Formula :=
  match closedFormula stream.stop .top stream.tokens with
  | .error e => .error e
  | .ok f => if f.rest.isEmpty then .ok f.value else trailing stream.stop f.rest

/-- The formula that a text stands for. -/
def parseFormula (source : String) : Except SyntaxError Formula :=
  match scan source with
  | .error e => .error e
  | .ok stream => formulaOfTokens stream

end ChangeControl.Rule
