import ChangeControl.Proofs.Rule.Outcome
import ChangeControl.Rule.Document.Parser
/-!
What the parser of documents returns.

As for formulas, places have no say in what is read, apart from the offsets at which declarations
start.  For every part of a document there is one equation between the outcome of its reading and
those of the parts inside it.

Main definitions:

* `Rule.clauseAt`, `Rule.criticalAt`, `Rule.semicolonAt` — words and marks at the front.

Main results:

* `Rule.outcome_bracketed`, `Rule.outcome_transition`, `Rule.outcome_workflow`,
  `Rule.outcome_formulaBlock`, … — one equation for each part of a document;
* `Rule.toOption_documentFrom_cons` — a document, by its first token.
-/

set_option autoImplicit false

namespace ChangeControl.Rule

variable {α : Type} {stop opener : Position} {t : Token} {ts : List Token}

/-! ### Marks and lists -/

theorem skip?_isPunct (stop : Position) (c : Char) :
    skip? (Token.isPunct c) ts = (outcome (expectPunct stop c ts)).map Prod.snd := by
  rw [expectPunct]
  cases h : next? (Token.isPunct c) ts with
  | some mark => simp [skip?_of_some h]
  | none => simp [skip?_of_none h]

theorem skip?_isWord (stop : Position) (word : String) :
    skip? (Token.isWord word) ts = (outcome (expectWord stop word ts)).map Prod.snd := by
  rw [expectWord]
  cases h : next? (Token.isWord word) ts with
  | some mark => simp [skip?_of_some h]
  | none => simp [skip?_of_none h]

theorem outcome_expectName (what : String) :
    outcome (expectName stop what ts) = firstWord? reserved ts := by
  rw [expectName, firstWord?_eq]
  cases nameOutside? reserved ts <;> rfl

theorem outcome_bracketedItems {item : (ts : List Token) → Reading α ts} :
    outcome (bracketedItems stop opener item ts) =
      (outcome (item ts)).bind fun first =>
        match skip? (Token.isPunct ',') first.2 with
        | some after =>
          (outcome (bracketedItems stop opener item after)).map fun r => (first.1 :: r.1, r.2)
        | none => (skip? (Token.isPunct ']') first.2).map fun after => ([first.1], after) := by
  rw [bracketedItems]
  cases item ts with
  | error e => rfl
  | ok first =>
    simp only [outcome_ok, Option.bind_some]
    cases hcomma : next? (Token.isPunct ',') first.rest with
    | some comma =>
      simp only [skip?_of_some hcomma]
      cases bracketedItems stop opener item comma.rest <;> rfl
    | none =>
      simp only [skip?_of_none hcomma]
      cases hclosed : next? (Token.isPunct ']') first.rest with
      | some closed => simp [skip?_of_some hclosed]
      | none => by_cases h : first.rest.isEmpty <;> simp [skip?_of_none hclosed, h]

theorem outcome_bracketed {item : (ts : List Token) → Reading α ts} :
    outcome (bracketed stop item ts) =
      (skip? (Token.isPunct '[') ts).bind fun opened =>
        match skip? (Token.isPunct ']') opened with
        | some after => some ([], after)
        | none => outcome (bracketedItems stop (placeOf stop ts) item opened) := by
  rw [bracketed, skip?_isPunct stop]
  cases expectPunct stop '[' ts with
  | error e => rfl
  | ok opened =>
    simp only [outcome_ok, Option.map_some, Option.bind_some]
    cases hclosed : next? (Token.isPunct ']') opened.rest with
    | some closed => simp [skip?_of_some hclosed]
    | none =>
      simp only [skip?_of_none hclosed]
      cases bracketedItems stop (placeOf stop ts) item opened.rest <;> rfl

/-! ### Transitions -/

theorem outcome_moreEffects :
    outcome (moreEffects stop ts) =
      match skip? (Token.isPunct '+') ts with
      | none => some ([], ts)
      | some after =>
        (firstWord? reserved after).bind fun name =>
          (outcome (moreEffects stop name.2)).map fun r => (name.1 :: r.1, r.2) := by
  rw [moreEffects]
  cases hplus : next? (Token.isPunct '+') ts with
  | none => simp [skip?_of_none hplus]
  | some plus =>
    simp only [skip?_of_some hplus, ← @outcome_expectName stop plus.rest "an effect name"]
    cases expectName stop "an effect name" plus.rest with
    | error e => rfl
    | ok name =>
      simp only [outcome_ok, Option.bind_some]
      cases moreEffects stop name.rest <;> rfl

theorem outcome_clause {word : String} {clauses : Clauses} :
    outcome (clause stop word clauses ts) =
      if word = "effect" then
        (firstWord? reserved ts).bind fun first =>
          (outcome (moreEffects stop first.2)).map fun r =>
            ({ clauses with effects := some (first.1 :: r.1) }, r.2)
      else
        (outcome (closedFormula stop .clause ts)).map fun f =>
          (if word = "requires" then { clauses with requires := some f.1 }
            else { clauses with ensures := some f.1 }, f.2) := by
  rw [clause]
  split
  · rw [← @outcome_expectName stop ts "an effect name"]
    cases expectName stop "an effect name" ts with
    | error e => rfl
    | ok first =>
      simp only [outcome_ok, Option.bind_some]
      cases moreEffects stop first.rest <;> rfl
  · cases closedFormula stop .clause ts <;> rfl

/-- The word at the front that opens a clause, and the tokens after it. -/
def clauseAt (ts : List Token) : Option (String × List Token) :=
  (clauseWord? ts).map Parsed.pair

theorem outcome_clausesFrom {source target : String} {clauses : Clauses} :
    outcome (clausesFrom stop source target clauses ts) =
      match clauseAt ts with
      | none => some (clauses, ts)
      | some word =>
        if clauses.has word.1 then none
        else
          (outcome (clause stop word.1 clauses word.2)).bind fun read =>
            outcome (clausesFrom stop source target read.1 read.2) := by
  rw [clausesFrom, clauseAt]
  cases clauseWord? ts with
  | none => rfl
  | some word =>
    simp only [Option.map_some, Parsed.pair]
    split
    · rfl
    · cases clause stop word.value clauses word.rest with
      | error e => rfl
      | ok read =>
        simp only [outcome_ok, Option.bind_some]
        cases clausesFrom stop source target read.value read.rest <;> rfl

/-- Whether `critical` comes next, and the tokens after it. -/
def criticalAt (ts : List Token) : Bool × List Token :=
  match skip? (Token.isWord "critical") ts with
  | some after => (true, after)
  | none => (false, ts)

theorem pair_criticalMark : (criticalMark ts).pair = criticalAt ts := by
  rw [criticalMark, criticalAt]
  cases h : next? (Token.isWord "critical") ts with
  | some mark => simp [skip?_of_some h, Parsed.pair]
  | none => simp [skip?_of_none h, Parsed.pair]

/-- The transition with these parts. -/
def Clauses.declare (clauses : Clauses) (critical : Bool) (source target : String) (offset : Nat) :
    TransitionDecl where
  source := source
  target := target
  precondition := clauses.requires.getD (.truth true)
  postcondition := clauses.ensures.getD (.truth true)
  effects := clauses.effects.getD []
  critical := critical
  offset := offset

theorem outcome_transition :
    outcome (transition stop ts) =
      (firstWord? reserved (criticalAt ts).2).bind fun source =>
        (skip? (Token.isSymbol .implies) source.2).bind fun arrow =>
          (firstWord? reserved arrow).bind fun target =>
            (outcome (clausesFrom stop source.1 target.1 .none target.2)).map fun clauses =>
              (clauses.1.declare (criticalAt ts).1 source.1 target.1 (placeOf stop ts).offset,
                clauses.2) := by
  rw [transition, ← pair_criticalMark, ← @outcome_expectName stop _ "a source state"]
  simp only [Parsed.pair]
  cases expectName stop "a source state" (criticalMark ts).rest with
  | error e => rfl
  | ok source =>
    simp only [outcome_ok, Option.bind_some]
    cases harrow : next? (Token.isSymbol .implies) source.rest with
    | none => simp [skip?_of_none harrow]
    | some arrow =>
      simp only [skip?_of_some harrow, Option.bind_some,
        ← @outcome_expectName stop arrow.rest "a target state"]
      cases expectName stop "a target state" arrow.rest with
      | error e => rfl
      | ok target =>
        simp only [outcome_ok, Option.bind_some]
        cases clausesFrom stop source.value target.value .none target.rest <;> rfl

/-! ### Workflows -/

/-- The tokens after a semicolon, if one comes next. -/
def semicolonAt (ts : List Token) : List Token := (skip? (Token.isPunct ';') ts).getD ts

theorem rest_skipSemicolon : (skipSemicolon ts).rest = semicolonAt ts := by
  rw [skipSemicolon, semicolonAt]
  cases h : next? (Token.isPunct ';') ts with
  | some mark => simp [skip?_of_some h]
  | none => simp [skip?_of_none h]

theorem outcome_sectionBody {item : (ts : List Token) → Reading α ts} :
    outcome (sectionBody stop item ts) =
      (skip? (Token.isPunct ':') ts).bind fun after => outcome (bracketed stop item after) := by
  rw [sectionBody, skip?_isPunct stop]
  cases expectPunct stop ':' ts with
  | error e => rfl
  | ok colon =>
    simp only [outcome_ok, Option.map_some, Option.bind_some]
    cases bracketed stop item colon.rest <;> rfl

theorem outcome_workflowSection {sections : Sections} :
    outcome (workflowSection stop sections ts) =
      match skip? (Token.isWord "states") ts with
      | some after =>
        if sections.states.isSome then none
        else
          (outcome (sectionBody stop (expectName stop "a state name") after)).map fun r =>
            ({ sections with states := some r.1 }, r.2)
      | none =>
        (skip? (Token.isWord "transitions") ts).bind fun after =>
          if sections.transitions.isSome then none
          else
            (outcome (sectionBody stop (transition stop) after)).map fun r =>
              ({ sections with transitions := some r.1 }, r.2) := by
  rw [workflowSection]
  cases hstates : next? (Token.isWord "states") ts with
  | some word =>
    simp only [skip?_of_some hstates]
    split
    · rfl
    · cases sectionBody stop (expectName stop "a state name") word.rest <;> rfl
  | none =>
    simp only [skip?_of_none hstates]
    cases htransitions : next? (Token.isWord "transitions") ts with
    | none => simp [skip?_of_none htransitions]
    | some word =>
      simp only [skip?_of_some htransitions, Option.bind_some]
      split
      · rfl
      · cases sectionBody stop (transition stop) word.rest <;> rfl

theorem outcome_workflowBody {name : String} {sections : Sections} :
    outcome (workflowBody stop opener name sections ts) =
      match skip? (Token.isPunct '\x7d') ts with
      | some after => some (sections, after)
      | none =>
        (outcome (workflowSection stop sections ts)).bind fun read =>
          outcome (workflowBody stop opener name read.1 (semicolonAt read.2)) := by
  rw [workflowBody]
  cases hclosed : next? (Token.isPunct '\x7d') ts with
  | some closed => simp [skip?_of_some hclosed]
  | none =>
    simp only [skip?_of_none hclosed]
    split
    · next none =>
      rw [List.isEmpty_iff.1 none, outcome_workflowSection]
      rfl
    · cases workflowSection stop sections ts with
      | error e => rfl
      | ok read =>
        simp only [outcome_ok, Option.bind_some, Parsed.rest_followedBy]
        rw [← rest_skipSemicolon]
        cases workflowBody stop opener name read.value (skipSemicolon read.rest).rest <;> rfl

theorem outcome_parameterList :
    outcome (parameterList stop ts) =
      match skip? (Token.isPunct '[') ts with
      | none => some ([], ts)
      | some _ => outcome (bracketed stop (expectDomain stop) ts) := by
  rw [parameterList]
  cases hopened : next? (Token.isPunct '[') ts with
  | none => simp [skip?_of_none hopened]
  | some opened =>
    simp only [skip?_of_some hopened]
    cases bracketed stop (expectDomain stop) ts <;> rfl

/-- The workflow with these parts. -/
def Sections.declare (sections : Sections) (name : String) (parameters : List String)
    (offset : Nat) : WorkflowDecl where
  name := name
  states := sections.states.getD []
  transitions := sections.transitions.getD []
  parameters := parameters
  offset := offset

theorem outcome_workflow {offset : Nat} :
    outcome (workflow stop offset ts) =
      (firstWord? reserved ts).bind fun name =>
        (outcome (parameterList stop name.2)).bind fun parameters =>
          (skip? (Token.isPunct '\x7b') parameters.2).bind fun opened =>
            (outcome (workflowBody stop (placeOf stop parameters.2) name.1 .none opened)).map
              fun sections => (sections.1.declare name.1 parameters.1 offset, sections.2) := by
  rw [workflow, ← @outcome_expectName stop ts "a workflow name"]
  cases expectName stop "a workflow name" ts with
  | error e => rfl
  | ok name =>
    simp only [outcome_ok, Option.bind_some]
    cases parameterList stop name.rest with
    | error e => rfl
    | ok parameters =>
      simp only [outcome_ok, Option.bind_some, skip?_isPunct stop]
      cases expectPunct stop '\x7b' parameters.rest with
      | error e => rfl
      | ok opened =>
        simp only [outcome_ok, Option.map_some, Option.bind_some]
        cases workflowBody stop (placeOf stop parameters.rest) name.value .none opened.rest <;> rfl

/-! ### Documents -/

theorem outcome_formulaBlock {kind : Kind} {offset : Nat} :
    outcome (formulaBlock stop kind offset ts) =
      (skip? (Token.isWord "that") ts).bind fun that =>
        (firstWord? reserved that).bind fun name =>
          (skip? (Token.isPunct ':') name.2).bind fun colon =>
            (outcome (closedFormula stop .top colon)).map fun f =>
              (⟨kind, name.1, f.1, offset⟩, semicolonAt f.2) := by
  rw [formulaBlock, skip?_isWord stop]
  cases expectWord stop "that" ts with
  | error e => rfl
  | ok that =>
    simp only [outcome_ok, Option.map_some, Option.bind_some,
      ← @outcome_expectName stop that.rest ("a name for the " ++ kind.word)]
    cases expectName stop ("a name for the " ++ kind.word) that.rest with
    | error e => rfl
    | ok name =>
      simp only [outcome_ok, Option.bind_some, skip?_isPunct stop]
      cases expectPunct stop ':' name.rest with
      | error e => rfl
      | ok colon =>
        simp only [outcome_ok, Option.map_some, Option.bind_some]
        cases closedFormula stop .top colon.rest with
        | error e => rfl
        | ok f =>
          simp only [outcome_ok, Option.map_some, ← rest_skipSemicolon]
          rfl

/-- The declarations that come after one that is added to them. -/
theorem toOption_documentFrom_cons :
    (documentFrom stop (t :: ts)).toOption =
      match t.opening with
      | .workflow =>
        (outcome (workflow stop t.start.offset ts)).bind fun w =>
          (documentFrom stop w.2).toOption.map (Document.addWorkflow w.1)
      | .block kind =>
        (outcome (formulaBlock stop kind t.start.offset ts)).bind fun f =>
          (documentFrom stop f.2).toOption.map (Document.addFormula f.1)
      | .separator => (documentFrom stop ts).toOption
      | .nothing => none := by
  rw [documentFrom]
  cases t.opening with
  | workflow =>
    simp only
    cases workflow stop t.start.offset ts with
    | error e => rfl
    | ok w =>
      simp only [outcome_ok, Option.bind_some]
      cases documentFrom stop w.rest <;> rfl
  | block kind =>
    simp only
    cases formulaBlock stop kind t.start.offset ts with
    | error e => rfl
    | ok f =>
      simp only [outcome_ok, Option.bind_some]
      cases documentFrom stop f.rest <;> rfl
  | separator => rfl
  | nothing => rfl

end ChangeControl.Rule
