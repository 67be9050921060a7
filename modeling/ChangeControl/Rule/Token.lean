import ChangeControl.Rule.Position
/-!
Tokens of the rule language.

The logical symbols may be written in ASCII or in mathematical signs; both spellings give the same
symbol, and the connectives may also be written as words.

Main definitions:

* `Rule.Symbol` — the logical symbols, with the word that names each of them;
* `Rule.Lexeme` — what a token is; `Lexeme.kind` and `Lexeme.value` name it;
* `Rule.Token` — a lexeme with the text it was written as and the place where it starts;
* `Token.means` — a connective, as a symbol or as a word.
-/

set_option autoImplicit false

namespace ChangeControl.Rule

/-- The logical symbols. -/
inductive Symbol
  | and | or | not | implies
  /-- The universal quantifier. -/
  | all
  /-- The existential quantifier. -/
  | any
  | mem | notMem
deriving DecidableEq, Repr

/-- The name of a symbol; except for `notin` it can be written instead of the symbol. -/
def Symbol.word : Symbol → String
  | and => "and"
  | or => "or"
  | not => "not"
  | implies => "implies"
  | all => "forall"
  | any => "exists"
  | mem => "in"
  | notMem => "notin"

/-- What a token is. -/
inductive Lexeme
  /-- A name or a word. -/
  | name (word : String)
  /-- A string literal, by the text it stands for. -/
  | literal (value : String)
  /-- A logical symbol. -/
  | symbol (s : Symbol)
  /-- Punctuation. -/
  | punct (mark : Char)
  /-- A sign that looks like an operator and has no meaning in the grammar. -/
  | stray (sign : Char)
deriving DecidableEq, Repr

namespace Lexeme

/-- The name of the kind of token. -/
def kind : Lexeme → String
  | name _ => "ident"
  | literal _ => "string"
  | symbol _ => "op"
  | punct _ => "punct"
  | stray _ => "unknown"

/-- The word, text, symbol name or sign that the token stands for. -/
def value : Lexeme → String
  | name word => word
  | literal text => text
  | symbol s => s.word
  | punct mark => mark.toString
  | stray sign => sign.toString

end Lexeme

/-- A token, its spelling and its place. -/
structure Token where
  lexeme : Lexeme
  text : String
  start : Position
deriving DecidableEq, Repr

namespace Token

/-- The token is this mark of punctuation. -/
def isPunct (mark : Char) (t : Token) : Bool := t.lexeme == .punct mark

/-- The token is this word. -/
def isWord (word : String) (t : Token) : Bool := t.lexeme == .name word

/-- The token is this symbol. -/
def isSymbol (s : Symbol) (t : Token) : Bool := t.lexeme == .symbol s

/-- The token is this symbol, or its word. -/
def means (s : Symbol) (t : Token) : Bool := t.isSymbol s || t.isWord s.word

end Token

/-- The tokens of a text, and the place where the text ends. -/
structure TokenStream where
  tokens : List Token
  stop : Position
deriving DecidableEq, Repr

end ChangeControl.Rule
