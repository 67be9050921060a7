import ChangeControl.Rule.Document
import ChangeControl.Rule.Formula.Parser
/-!
Rule text as documents.

A document is a sequence of blocks; a semicolon may stand between any two of them.  A workflow
block declares states and transitions, each section at most once and in either order; a transition
has at most one clause of each kind, in any order.

Main definitions:

* `Rule.transition`, `Rule.workflow`, `Rule.formulaBlock` — the blocks and their parts;
* `Rule.documentOfTokens`, `Rule.parse` — documents.
-/

set_option autoImplicit false

namespace ChangeControl.Rule

/-! ### Transitions -/

/-- The clauses of a transition read so far. -/
structure Clauses where
  requires : Option Formula
  ensures : Option Formula
  effects : Option (List String)

/-- No clause yet. -/
def Clauses.none : Clauses := ⟨.none, .none, .none⟩

/-- Whether a clause that opens with this word has been read. -/
def Clauses.has (c : Clauses) (word : String) : Bool :=
  if word = "requires" then c.requires.isSome
  else if word = "ensures" then c.ensures.isSome
  else c.effects.isSome

/-- The names of effects after the first one, each after a plus sign. -/
def moreEffects (stop : Position) (tokens : List Token) :
    Except SyntaxError (Parsed (List String) (tokens.length + 1)) :=
  match next? (Token.isPunct '+') tokens with
  | none => .ok (.nothing [] tokens)
  | some plus =>
    match expectName stop "an effect name" plus.rest with
    | .error e => .error e
    | .ok name =>
      have := plus.shorter
      have := name.shorter
      match moreEffects stop name.rest with
      | .error e => .error e
      | .ok more => .ok (plus.before (name.followedBy (more.map (name.value :: ·)))).weaken
termination_by tokens.length
decreasing_by omega

/-- The clause that the word `word` opens, read from after that word. -/
def clause (stop : Position) (word : String) (clauses : Clauses) (tokens : List Token) :
    Reading Clauses tokens :=
  if word = "effect" then
    match expectName stop "an effect name" tokens with
    | .error e => .error e
    | .ok first =>
      match moreEffects stop first.rest with
      | .error e => .error e
      | .ok more =>
        let read := more.map fun names => { clauses with effects := some (first.value :: names) }
        .ok (first.followedBy read)
  else
    match closedFormula stop .clause tokens with
    | .error e => .error e
    | .ok f =>
      .ok <| f.map fun f =>
        if word = "requires" then { clauses with requires := some f }
        else { clauses with ensures := some f }

/-- The word at the front of some tokens, if it opens a clause. -/
def clauseWord? (tokens : List Token) : Option (Parsed String tokens.length) :=
  match tokens with
  | [] => none
  | t :: rest =>
    match t.word? with
    | some word => if clauseWords.contains word then some (.one word t rest) else none
    | none => none

/-- The clauses of the transition from `source` to `target`. -/
def clausesFrom (stop : Position) (source target : String) (clauses : Clauses)
    (tokens : List Token) : Except SyntaxError (Parsed Clauses (tokens.length + 1)) :=
  match clauseWord? tokens with
  | none => .ok (.nothing clauses tokens)
  | some word =>
    if clauses.has word.value then
      failAt stop tokens (.repeatedClause word.value source target)
    else
      match clause stop word.value clauses word.rest with
      | .error e => .error e
      | .ok read =>
        have := word.shorter
        have := read.shorter
        match clausesFrom stop source target read.value read.rest with
        | .error e => .error e
        | .ok all => .ok (word.before (read.followedBy all)).weaken
termination_by tokens.length
decreasing_by omega

/-- Whether `critical` comes next, and the tokens after it. -/
def criticalMark (tokens : List Token) : Parsed Bool (tokens.length + 1) :=
  match next? (Token.isWord "critical") tokens with
  | some mark => (mark.map fun _ => true).weaken
  | none => .nothing false tokens

/-- A transition. -/
def transition (stop : Position) (tokens : List Token) : Reading TransitionDecl tokens :=
  let critical := criticalMark tokens
  match expectName stop "a source state" critical.rest with
  | .error e => .error e
  | .ok source =>
    match next? (Token.isSymbol .implies) source.rest with
    | none => failAt stop source.rest (.expected "->" (found source.rest))
    | some arrow =>
      match expectName stop "a target state" arrow.rest with
      | .error e => .error e
      | .ok target =>
        match clausesFrom stop source.value target.value .none target.rest with
        | .error e => .error e
        | .ok clauses =>
          let declared := clauses.map fun clauses =>
            { source := source.value
              target := target.value
              precondition := clauses.requires.getD (.truth true)
              postcondition := clauses.ensures.getD (.truth true)
              effects := clauses.effects.getD []
              critical := critical.value
              offset := (placeOf stop tokens).offset : TransitionDecl }
          .ok (critical.maybeBefore (source.before (arrow.before (target.followedBy declared))))

/-! ### Workflows -/

/-- The sections of a workflow read so far. -/
structure Sections where
  states : Option (List String)
  transitions : Option (List TransitionDecl)

/-- No section yet. -/
def Sections.none : Sections := ⟨.none, .none⟩

/-- A semicolon, if one comes next. -/
def skipSemicolon (tokens : List Token) : Parsed Unit (tokens.length + 1) :=
  match next? (Token.isPunct ';') tokens with
  | some mark => mark.weaken
  | none => .nothing () tokens

/-- A colon and a list in brackets. -/
def sectionBody {α : Type} (stop : Position) (item : (tokens : List Token) → Reading α tokens)
    (tokens : List Token) : Reading (List α) tokens :=
  match expectPunct stop ':' tokens with
  | .error e => .error e
  | .ok colon =>
    match bracketed stop item colon.rest with
    | .error e => .error e
    | .ok items => .ok (colon.before items)

/-- The section that comes next, with the ones before it. -/
def workflowSection (stop : Position) (sections : Sections) (tokens : List Token) :
    Reading Sections tokens :=
  match next? (Token.isWord "states") tokens with
  | some word =>
    if sections.states.isSome then failAt stop tokens (.repeatedSection "states")
    else
      match sectionBody stop (expectName stop "a state name") word.rest with
      | .error e => .error e
      | .ok states => .ok (word.before (states.map fun s => { sections with states := some s }))
  | none =>
    match next? (Token.isWord "transitions") tokens with
    | some word =>
      if sections.transitions.isSome then failAt stop tokens (.repeatedSection "transitions")
      else
        match sectionBody stop (transition stop) word.rest with
        | .error e => .error e
        | .ok transitions =>
          .ok (word.before (transitions.map fun ts => { sections with transitions := some ts }))
    | none => failAt stop tokens (.expectedSection (found tokens))

/-- The sections up to the closing brace of the workflow `name`, whose brace opens at `opener`. -/
def workflowBody (stop opener : Position) (name : String) (sections : Sections)
    (tokens : List Token) : Reading Sections tokens :=
  match next? (Token.isPunct '\x7d') tokens with
  | some closed => .ok (closed.map fun _ => sections)
  | none =>
    if tokens.isEmpty then .error ⟨.unclosedWorkflow name, opener⟩
    else
      match workflowSection stop sections tokens with
      | .error e => .error e
      | .ok read =>
        let passed := read.followedBy (skipSemicolon read.rest)
        have := passed.shorter
        match workflowBody stop opener name read.value passed.rest with
        | .error e => .error e
        | .ok all => .ok (passed.before all)
termination_by tokens.length
decreasing_by omega

/-- The parameters of a workflow, if a list in brackets comes next. -/
def parameterList (stop : Position) (tokens : List Token) :
    Except SyntaxError (Parsed (List String) (tokens.length + 1)) :=
  match next? (Token.isPunct '[') tokens with
  | none => .ok (.nothing [] tokens)
  | some _ =>
    match bracketed stop (expectDomain stop) tokens with
    | .error e => .error e
    | .ok names => .ok names.weaken

/-- A workflow, read from after the word `workflow`, which stands at `offset`. -/
def workflow (stop : Position) (offset : Nat) (tokens : List Token) :
    Reading WorkflowDecl tokens :=
  match expectName stop "a workflow name" tokens with
  | .error e => .error e
  | .ok name =>
    match parameterList stop name.rest with
    | .error e => .error e
    | .ok parameters =>
      match expectPunct stop '\x7b' parameters.rest with
      | .error e => .error e
      | .ok opened =>
        let opener := placeOf stop parameters.rest
        match workflowBody stop opener name.value .none opened.rest with
        | .error e => .error e
        | .ok sections =>
          let declared := sections.map fun sections =>
            { name := name.value
              states := sections.states.getD []
              transitions := sections.transitions.getD []
              parameters := parameters.value
              offset := offset : WorkflowDecl }
          .ok ((name.followedBy parameters).before (opened.before declared))

/-! ### Documents -/

/-- A formula block of a kind, read from after the word that opens it, which stands at `offset`. -/
def formulaBlock (stop : Position) (kind : Kind) (offset : Nat) (tokens : List Token) :
    Reading FormulaDecl tokens :=
  match expectWord stop "that" tokens with
  | .error e => .error e
  | .ok that =>
    match expectName stop ("a name for the " ++ kind.word) that.rest with
    | .error e => .error e
    | .ok name =>
      match expectPunct stop ':' name.rest with
      | .error e => .error e
      | .ok colon =>
        match closedFormula stop .top colon.rest with
        | .error e => .error e
        | .ok f =>
          let declared := (skipSemicolon f.rest).map fun _ =>
            (⟨kind, name.value, f.value, offset⟩ : FormulaDecl)
          .ok (that.before (name.before (colon.before (f.followedBy declared))))

/-- What a token at the top of a document opens. -/
inductive Opening
  | workflow
  | block (kind : Kind)
  | separator
  | nothing
deriving DecidableEq, Repr

/-- What the token opens. -/
def Token.opening (t : Token) : Opening :=
  if t.isWord "workflow" then .workflow
  else
    match t.word? >>= Kind.ofWord? with
    | some kind => .block kind
    | none => if t.isPunct ';' then .separator else .nothing

/-- The declarations from the next token on. -/
def documentFrom (stop : Position) (tokens : List Token) : Except SyntaxError Document :=
  match tokens with
  | [] => .ok .empty
  | t :: rest =>
    match t.opening with
    | .workflow =>
      match workflow stop t.start.offset rest with
      | .error e => .error e
      | .ok w =>
        have := w.shorter
        match documentFrom stop w.rest with
        | .error e => .error e
        | .ok d => .ok (d.addWorkflow w.value)
    | .block kind =>
      match formulaBlock stop kind t.start.offset rest with
      | .error e => .error e
      | .ok f =>
        have := f.shorter
        match documentFrom stop f.rest with
        | .error e => .error e
        | .ok d => .ok (d.addFormula f.value)
    | .separator => documentFrom stop rest
    | .nothing => failAt stop (t :: rest) (.expectedBlock (some t.text))
termination_by tokens.length
decreasing_by all_goals simp only [List.length_cons]; omega

/-- The document that a list of tokens stands for. -/
def documentOfTokens (stream : TokenStream) : Except SyntaxError Document :=
  documentFrom stream.stop stream.tokens

/-- The document that a text stands for. -/
def parse (source : String) : Except SyntaxError Document :=
  match scan source with
  | .error e => .error e
  | .ok stream => documentOfTokens stream

end ChangeControl.Rule
