import ChangeControl.Text.Blank
import ChangeControl.Text.Decode
/-!
Files of environment variables.

Each line sets a variable: a name, an equals sign and a value.  The word `export` in front of the
name is passed over, a name may be in apostrophes, and a value may be in quotes of either kind, in
which case it may go over several lines.  A number sign after white space starts a comment.  What
has no such form is passed over to the end of its line.  Inside of values, a name in braces after a
dollar sign stands for the value of that variable.

Main definitions:

* `EnvFile.readBinding` — what one line sets;
* `EnvFile.bindings` — what a text sets, line by line;
* `EnvFile.expand` — a value with the variables in it replaced;
* `EnvFile.assignments` — the variables that a text sets.
-/

set_option autoImplicit false

namespace ChangeControl.EnvFile

open Text (isBlank)

/-- The marks that end a line. -/
def isLineEnd (c : Char) : Bool := c == '\n' || c == '\r'

/-- White space inside of a line. -/
def isGap (c : Char) : Bool := isBlank c && !isLineEnd c

/-- The text without the white space of this line in front. -/
def skipGap (cs : List Char) : List Char := cs.dropWhile isGap

/-- A name with a value; without a value the line sets nothing. -/
structure Binding where
  name : String
  value : Option String
deriving DecidableEq, Repr

/-- What was read and what follows, or the text from where reading failed. -/
abbrev Reading (α : Type) := Except (List Char) (α × List Char)

/-! ### Names and values -/

/-- The characters up to the quote that closes a text.  Two backslashes belong together.  A quote
after a single backslash belongs to the text, unless no later one could close it. -/
def quoted (q : Char) : List Char → Option (List Char × List Char)
  | [] => none
  | [c] => if c = q then some ([], []) else none
  | c :: d :: cs =>
    if c = q then some ([], d :: cs)
    else if c = '\\' ∧ d = '\\' then (quoted q cs).map fun r => (c :: d :: r.1, r.2)
    else if c = '\\' ∧ d = q then
      match quoted q cs with
      | some (body, rest) => some (c :: d :: body, rest)
      | none => some ([c], cs)
    else (quoted q (d :: cs)).map fun r => (c :: r.1, r.2)

/-- What a character after a backslash stands for, between quotes `q`. -/
def escape? (q c : Char) : Option Char :=
  if c = '\\' ∨ c = '\'' then some c
  else if q = '\'' then none
  else
    match c with
    | '"' => some '"'
    | 'a' => some '\x07'
    | 'b' => some '\x08'
    | 'f' => some '\x0c'
    | 'n' => some '\n'
    | 'r' => some '\r'
    | 't' => some '\t'
    | 'v' => some '\x0b'
    | _ => none

/-- A text between quotes `q` with its escapes replaced. -/
def unescape (q : Char) : List Char → List Char
  | '\\' :: c :: cs =>
    match escape? q c with
    | some d => d :: unescape q cs
    | none => '\\' :: unescape q (c :: cs)
  | c :: cs => c :: unescape q cs
  | [] => []

/-- A text without a comment, which is set off by white space. -/
def withoutComment : List Char → List Char
  | [] => []
  | c :: cs =>
    if isBlank c && ((c :: cs).dropWhile isBlank).head? == some '#' then []
    else c :: withoutComment cs

/-- A text without the white space at its end. -/
def trimEnd (cs : List Char) : List Char := (cs.reverse.dropWhile isBlank).reverse

/-- The text without the word `export`, if white space sets it off from what follows. -/
def skipExport (cs : List Char) : List Char :=
  match cs with
  | 'e' :: 'x' :: 'p' :: 'o' :: 'r' :: 't' :: c :: rest => if isGap c then skipGap rest else cs
  | cs => cs

/-- The name at the front of a line; a comment has none. -/
def readName (cs : List Char) : Reading (Option String) :=
  match cs with
  | '#' :: _ => .ok (none, cs)
  | '\'' :: rest =>
    let name := rest.takeWhile (· != '\'')
    match name.isEmpty, rest.dropWhile (· != '\'') with
    | false, _ :: after => .ok (some (String.ofList name), after)
    | _, _ => .error cs
  | cs =>
    let stops (c : Char) : Bool := c == '=' || c == '#' || isBlank c
    let name := cs.takeWhile fun c => !stops c
    if name.isEmpty then .error cs
    else .ok (some (String.ofList name), cs.dropWhile fun c => !stops c)

/-- The value after an equals sign and white space. -/
def readQuotedOrPlain (cs : List Char) : Reading String :=
  match cs with
  | [] => .ok ("", [])
  | c :: rest =>
    if c = '\'' ∨ c = '"' then
      match quoted c rest with
      | some (body, after) => .ok (String.ofList (unescape c body), after)
      | none => .error cs
    else
      let line := cs.takeWhile fun c => !isLineEnd c
      .ok (String.ofList (trimEnd (withoutComment line)), cs.dropWhile fun c => !isLineEnd c)

/-- The value after an equals sign; a comment that white space sets off leaves it empty. -/
def readValue (cs : List Char) : Reading String :=
  match skipGap cs with
  | '#' :: rest => if cs.head? = some '#' then readQuotedOrPlain cs else .ok ("", '#' :: rest)
  | value => readQuotedOrPlain value

/-! ### Lines -/

/-- The text after a comment, if there is one. -/
def skipComment (cs : List Char) : List Char :=
  match skipGap cs with
  | '#' :: rest => rest.dropWhile fun c => !isLineEnd c
  | _ => cs

/-- The text after the end of a line. -/
def readLineEnd (cs : List Char) : Except (List Char) (List Char) :=
  match skipGap cs with
  | [] => .ok []
  | '\r' :: '\n' :: rest => .ok rest
  | c :: rest => if isLineEnd c then .ok rest else .error cs

/-- The text of the lines after this one. -/
def skipLine (cs : List Char) : List Char :=
  match cs.dropWhile fun c => !isLineEnd c with
  | [] => []
  | _ :: rest => rest

/-- What the line at the front of a text sets, which starts with no white space. -/
def readBinding (cs : List Char) : Reading (Option Binding) :=
  match readName (skipExport cs) with
  | .error stop => .error stop
  | .ok (name, rest) =>
    let value : Reading (Option String) :=
      match skipGap rest with
      | '=' :: after =>
        match readValue after with
        | .error stop => .error stop
        | .ok (value, rest) => .ok (some value, rest)
      | rest => .ok (none, rest)
    match value with
    | .error stop => .error stop
    | .ok (value, rest) =>
      match readLineEnd (skipComment rest) with
      | .error stop => .error stop
      | .ok rest => .ok (name.map fun name => ⟨name, value⟩, rest)

/-- What a text sets, line by line.  Every line has a character at least, so the length of the text
is enough `fuel`. -/
def bindingsWith : Nat → List Char → List Binding
  | 0, _ => []
  | fuel + 1, cs =>
    match cs.dropWhile isBlank with
    | [] => []
    | cs =>
      match readBinding cs with
      | .error stop => bindingsWith fuel (skipLine stop)
      | .ok (found, rest) => found.toList ++ bindingsWith fuel rest

/-- What a text sets, line by line. -/
def bindings (cs : List Char) : List Binding := bindingsWith cs.length cs

/-! ### Variables in values -/

/-- A reference to a variable after a dollar sign and an opening brace: the name, the value to take
without such a variable, and what follows the closing brace. -/
def reference? (cs : List Char) : Option (String × String × List Char) :=
  let stops (c : Char) : Bool := c == '\x7d' || c == ':'
  let name := String.ofList (cs.takeWhile fun c => !stops c)
  match cs.dropWhile fun c => !stops c with
  | '\x7d' :: rest => some (name, "", rest)
  | ':' :: '-' :: rest =>
    match rest.dropWhile (· != '\x7d') with
    | _ :: after => some (name, String.ofList (rest.takeWhile (· != '\x7d')), after)
    | [] => none
  | _ => none

/-- A value with its references replaced by what `value` gives for a name and a default.  The length
of the text is enough `fuel`. -/
def expandWith (value : String → String → String) : Nat → List Char → List Char
  | 0, cs => cs
  | _, [] => []
  | fuel + 1, c :: cs =>
    match c, cs with
    | '$', '\x7b' :: rest =>
      match reference? rest with
      | some (name, default, after) =>
        (value name default).toList ++ expandWith value fuel after
      | none => c :: expandWith value fuel cs
    | _, _ => c :: expandWith value fuel cs

/-- The text of a value with its references replaced. -/
def expand (value : String → String → String) (text : String) : String :=
  String.ofList (expandWith value text.toList.length text.toList)

/-- The value of the last entry with a name. -/
def lastValue? {α : Type} (name : String) (entries : List (String × α)) : Option α :=
  entries.reverse.lookup name

/-- What a reference stands for, given what the file has set so far and the environment. -/
def referenceValue (known : List (String × Option String)) (environment : List (String × String))
    (name default : String) : String :=
  match lastValue? name known with
  | some value => value.getD ""
  | none => (lastValue? name environment).getD default

/-- The entries with a value under a name: in the place of the entry with that name, or last. -/
def assign {α : Type} (name : String) (value : α) : List (String × α) → List (String × α)
  | [] => [(name, value)]
  | (n, v) :: rest =>
    if n = name then (n, value) :: rest else (n, v) :: assign name value rest

/-- The variables that some lines set after others have set `known`. -/
def resolve (environment : List (String × String)) (known : List (String × Option String)) :
    List Binding → List (String × Option String)
  | [] => known
  | b :: bs =>
    let value := b.value.map (expand (referenceValue known environment))
    resolve environment (assign b.name value known) bs

/-- The characters of a text without the byte order mark in front. -/
def withoutMark (text : String) : List Char :=
  match text.toList with
  | '\ufeff' :: rest => rest
  | cs => cs

/-- The variables that the text of a file sets, each in the place where it is first set. -/
def assignments (environment : List (String × String)) (text : String) :
    List (String × Option String) :=
  resolve environment [] (bindings (withoutMark (Text.linesOf text)))

end ChangeControl.EnvFile
