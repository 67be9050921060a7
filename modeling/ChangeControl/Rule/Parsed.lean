import ChangeControl.Rule.SyntaxError
import ChangeControl.Rule.Token
import ChangeControl.Rule.Word
/-!
Reading from the front of a list of tokens.

What is read comes with the tokens that are left and with the fact that they are fewer than a given
bound, which is what lets a grammar recurse.  The place of the end of the text goes along as the
parameter `stop`, since an error there has no token to point at.

Main definitions:

* `Rule.Parsed` — a value, the rest, and the bound on its length;
* `Parsed.map`, `Parsed.before`, `Parsed.followedBy`, `Parsed.maybeBefore` — putting readings
  together;
* `Rule.placeOf`, `Rule.found`, `Rule.failAt` — errors about the token that comes next;
* `Rule.next?` — a token with a certain property;
* `Rule.expectPunct`, `Rule.expectWord`, `Rule.expectName`, `Rule.expectDomain` — one token;
* `Rule.bracketed` — a list in square brackets.

Main statements:

* `Parsed.value_map` and the equations after it — values and rests of readings put together.
-/

set_option autoImplicit false

namespace ChangeControl.Rule

/-- A value read from the front of fewer than `bound` tokens, and what follows it. -/
structure Parsed (α : Type) (bound : Nat) where
  value : α
  rest : List Token
  shorter : rest.length < bound

namespace Parsed

variable {α β : Type} {n : Nat}

/-- One token was read. -/
def one (value : α) (t : Token) (rest : List Token) : Parsed α (t :: rest).length :=
  ⟨value, rest, Nat.lt_succ_self rest.length⟩

/-- No token was read. -/
def nothing (value : α) (tokens : List Token) : Parsed α (tokens.length + 1) :=
  ⟨value, tokens, Nat.lt_succ_self tokens.length⟩

/-- The same tokens were read, and another value is made of the value. -/
def map (f : α → β) (p : Parsed α n) : Parsed β n := ⟨f p.value, p.rest, p.shorter⟩

/-- The same was read, with a larger bound. -/
def weaken (p : Parsed α n) : Parsed α (n + 1) := ⟨p.value, p.rest, Nat.lt_succ_of_lt p.shorter⟩

/-- Something was read, and something else from what was left; the value is the second one. -/
def before (p : Parsed α n) (q : Parsed β p.rest.length) : Parsed β n :=
  ⟨q.value, q.rest, Nat.lt_trans q.shorter p.shorter⟩

/-- Something was read, and then something else or nothing; the value is the second one. -/
def followedBy (p : Parsed α n) (q : Parsed β (p.rest.length + 1)) : Parsed β n :=
  ⟨q.value, q.rest, Nat.lt_of_le_of_lt (Nat.le_of_lt_succ q.shorter) p.shorter⟩

/-- Something or nothing was read, and then something else; the value is the second one. -/
def maybeBefore (p : Parsed α (n + 1)) (q : Parsed β p.rest.length) : Parsed β n :=
  ⟨q.value, q.rest, Nat.lt_of_lt_of_le q.shorter (Nat.le_of_lt_succ p.shorter)⟩

@[simp] theorem value_one (value : α) (t : Token) (rest : List Token) :
    (one value t rest).value = value := rfl

@[simp] theorem rest_one (value : α) (t : Token) (rest : List Token) :
    (one value t rest).rest = rest := rfl

@[simp] theorem value_nothing (value : α) (tokens : List Token) :
    (nothing value tokens).value = value := rfl

@[simp] theorem rest_nothing (value : α) (tokens : List Token) :
    (nothing value tokens).rest = tokens := rfl

@[simp] theorem value_map (f : α → β) (p : Parsed α n) : (p.map f).value = f p.value := rfl

@[simp] theorem rest_map (f : α → β) (p : Parsed α n) : (p.map f).rest = p.rest := rfl

@[simp] theorem value_weaken (p : Parsed α n) : p.weaken.value = p.value := rfl

@[simp] theorem rest_weaken (p : Parsed α n) : p.weaken.rest = p.rest := rfl

@[simp] theorem value_before (p : Parsed α n) (q : Parsed β p.rest.length) :
    (p.before q).value = q.value := rfl

@[simp] theorem rest_before (p : Parsed α n) (q : Parsed β p.rest.length) :
    (p.before q).rest = q.rest := rfl

@[simp] theorem value_followedBy (p : Parsed α n) (q : Parsed β (p.rest.length + 1)) :
    (p.followedBy q).value = q.value := rfl

@[simp] theorem rest_followedBy (p : Parsed α n) (q : Parsed β (p.rest.length + 1)) :
    (p.followedBy q).rest = q.rest := rfl

@[simp] theorem value_maybeBefore (p : Parsed α (n + 1)) (q : Parsed β p.rest.length) :
    (p.maybeBefore q).value = q.value := rfl

@[simp] theorem rest_maybeBefore (p : Parsed α (n + 1)) (q : Parsed β p.rest.length) :
    (p.maybeBefore q).rest = q.rest := rfl

end Parsed

/-- The outcome of reading from the front of some tokens: at least one token is used up. -/
abbrev Reading (α : Type) (tokens : List Token) : Type :=
  Except SyntaxError (Parsed α tokens.length)

/-- The place of the next token, or the end of the text. -/
def placeOf (stop : Position) : List Token → Position
  | [] => stop
  | t :: _ => t.start

/-- The text of the next token, if there is one. -/
def found : List Token → Found
  | [] => none
  | t :: _ => some t.text

/-- An error about the next token. -/
def failAt {α : Type} (stop : Position) (tokens : List Token) (cause : Cause) :
    Except SyntaxError α :=
  .error ⟨cause, placeOf stop tokens⟩

/-- The first token, if it has the property `p`. -/
def next? (p : Token → Bool) (tokens : List Token) : Option (Parsed Unit tokens.length) :=
  match tokens with
  | [] => none
  | t :: rest => if p t then some (.one () t rest) else none

theorem next?_nil (p : Token → Bool) : next? p [] = none := rfl

theorem next?_cons (p : Token → Bool) (t : Token) (rest : List Token) :
    next? p (t :: rest) = if p t then some (.one () t rest) else none := rfl

/-- The mark `c` comes next. -/
def expectPunct (stop : Position) (c : Char) (tokens : List Token) : Reading Unit tokens :=
  match next? (Token.isPunct c) tokens with
  | some mark => .ok mark
  | none => failAt stop tokens (.expected c.toString (found tokens))

/-- The word `word` comes next. -/
def expectWord (stop : Position) (word : String) (tokens : List Token) : Reading Unit tokens :=
  match next? (Token.isWord word) tokens with
  | some mark => .ok mark
  | none => failAt stop tokens (.expected word (found tokens))

/-- The word of a token that is a name or a word. -/
def Token.word? (t : Token) : Option String :=
  match t.lexeme with
  | .name word => some word
  | _ => none

/-- The name at the front of some tokens: a word outside the list `barred`. -/
def nameOutside? (barred : List String) (tokens : List Token) :
    Option (Parsed String tokens.length) :=
  match tokens with
  | [] => none
  | t :: rest =>
    match t.word? with
    | some word => if barred.contains word then none else some (.one word t rest)
    | none => none

/-- The reserved words that cannot be domains: all but `states`. -/
def barredDomains : List String := reserved.filter (· ≠ "states")

/-- A name comes next; `what` says of what. -/
def expectName (stop : Position) (what : String) (tokens : List Token) : Reading String tokens :=
  match nameOutside? reserved tokens with
  | some name => .ok name
  | none => failAt stop tokens (.expectedName what (found tokens))

/-- The name of a domain comes next. -/
def expectDomain (stop : Position) (tokens : List Token) : Reading String tokens :=
  match nameOutside? barredDomains tokens with
  | some name => .ok (name.map domainName)
  | none => failAt stop tokens (.expectedName "a domain name" (found tokens))

/-- The items of a list whose opening bracket stands at `opener`, from the first item to the
closing bracket. -/
def bracketedItems {α : Type} (stop opener : Position)
    (item : (tokens : List Token) → Reading α tokens) (tokens : List Token) :
    Reading (List α) tokens :=
  match item tokens with
  | .error e => .error e
  | .ok first =>
    match next? (Token.isPunct ',') first.rest with
    | some comma =>
      have := comma.shorter
      have := first.shorter
      match bracketedItems stop opener item comma.rest with
      | .error e => .error e
      | .ok more => .ok (first.before (comma.before (more.map (first.value :: ·))))
    | none =>
      match next? (Token.isPunct ']') first.rest with
      | some closer => .ok (first.before (closer.map fun _ => [first.value]))
      | none =>
        if first.rest.isEmpty then .error ⟨.unclosed "[", opener⟩
        else failAt stop first.rest (.expectedSeparator (found first.rest))
termination_by tokens.length
decreasing_by omega

/-- A list in square brackets, with commas between the items. -/
def bracketed {α : Type} (stop : Position)
    (item : (tokens : List Token) → Reading α tokens) (tokens : List Token) :
    Reading (List α) tokens :=
  match expectPunct stop '[' tokens with
  | .error e => .error e
  | .ok opened =>
    match next? (Token.isPunct ']') opened.rest with
    | some closer => .ok (opened.before (closer.map fun _ => []))
    | none =>
      match bracketedItems stop (placeOf stop tokens) item opened.rest with
      | .error e => .error e
      | .ok items => .ok (opened.before items)

end ChangeControl.Rule
