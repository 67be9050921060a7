import ChangeControl.Proofs.Rule.Outcome
import ChangeControl.Rule.Document.Parser
/-!
Where the parser points.

An error of the parser stands at a token of its text or at the end of the text, never anywhere else.
So whatever holds of the places of all tokens and of the end holds of the place of every error.

Main definitions:

* `Rule.Stand` — tokens, and the end after them, stand at places of some kind;
* `Rule.Placed` — so do the tokens that a reading leaves, or else its error.

Main results:

* `Rule.placed_formula` and the theorems beside it — the levels of the grammar;
* `Rule.place_of_formulaOfTokens`, `Rule.place_of_documentFrom` — **an error of the parser stands at
  a token or at the end**.
-/

set_option autoImplicit false

namespace ChangeControl.Rule

variable {α : Type} {n : Nat} {P : Position → Prop} {stop opener : Position}
  {t : Token} {ts : List Token}

/-! ### Places of tokens -/

/-- The tokens, and the end after them, stand at places with the property `P`. -/
structure Stand (P : Position → Prop) (stop : Position) (ts : List Token) : Prop where
  stop : P stop
  starts : ∀ t ∈ ts, P t.start

/-- The tokens that a reading leaves stand at places with the property `P`, or else its error
does. -/
def Placed (P : Position → Prop) (stop : Position) : Except SyntaxError (Parsed α n) → Prop
  | .ok p => Stand P stop p.rest
  | .error e => P e.place

namespace Stand

theorem head (h : Stand P stop (t :: ts)) : P t.start := h.starts t (.head _)

theorem tail (h : Stand P stop (t :: ts)) : Stand P stop ts :=
  ⟨h.stop, fun u hu => h.starts u (.tail _ hu)⟩

theorem place (h : Stand P stop ts) : P (placeOf stop ts) := by
  cases ts with
  | nil => exact h.stop
  | cons t ts => exact h.head

theorem next {p : Token → Bool} {m : Parsed Unit ts.length} (h : Stand P stop ts)
    (hm : next? p ts = some m) : Stand P stop m.rest := by
  cases ts with
  | nil => cases hm
  | cons t ts =>
    rw [next?_cons] at hm
    split at hm
    · cases hm
      exact h.tail
    · cases hm

theorem name {barred : List String} {m : Parsed String ts.length} (h : Stand P stop ts)
    (hm : nameOutside? barred ts = some m) : Stand P stop m.rest := by
  unfold nameOutside? at hm
  split at hm
  · cases hm
  · split at hm
    · split at hm
      · cases hm
      · cases hm
        exact h.tail
    · cases hm

theorem mark {m : Parsed Bool ts.length} (h : Stand P stop ts) (hm : membershipMark? ts = some m) :
    Stand P stop m.rest := by
  unfold membershipMark? at hm
  split at hm
  · cases hm
  · split at hm
    · cases hm
      exact h.tail
    · split at hm
      · cases hm
        exact h.tail
      · split at hm
        · split at hm
          · next hafter =>
            cases hm
            exact h.tail.next hafter
          · cases hm
        · cases hm

theorem clause {m : Parsed String ts.length} (h : Stand P stop ts) (hm : clauseWord? ts = some m) :
    Stand P stop m.rest := by
  unfold clauseWord? at hm
  split at hm
  · cases hm
  · split at hm
    · split at hm
      · cases hm
        exact h.tail
      · cases hm
    · cases hm

theorem critical (h : Stand P stop ts) : Stand P stop (criticalMark ts).rest := by
  unfold criticalMark
  split
  · next hmark => exact h.next hmark
  · exact h

theorem semicolon (h : Stand P stop ts) : Stand P stop (skipSemicolon ts).rest := by
  unfold skipSemicolon
  split
  · next hmark => exact h.next hmark
  · exact h

theorem failAt (h : Stand P stop ts) (cause : Cause) :
    Placed P stop (failAt stop ts cause : Except SyntaxError (Parsed α n)) := h.place

theorem place_of_trailing {e : SyntaxError} (h : Stand P stop ts)
    (he : (Rule.trailing stop ts : Except SyntaxError α) = .error e) : P e.place := by
  unfold Rule.trailing at he
  split at he
  · cases he
    exact h.place
  · split at he <;> cases he <;> exact h.place

theorem trailing (h : Stand P stop ts) :
    Placed P stop (trailing stop ts : Except SyntaxError (Parsed α n)) := by
  obtain ⟨e, he⟩ := exists_trailing_eq_error stop ts
  rw [he]
  exact h.place_of_trailing (@he α)

end Stand

theorem Placed.ok {r : Except SyntaxError (Parsed α n)} {p : Parsed α n} (h : Placed P stop r)
    (hr : r = .ok p) : Stand P stop p.rest := by
  subst hr
  exact h

theorem Placed.error {r : Except SyntaxError (Parsed α n)} {e : SyntaxError} (h : Placed P stop r)
    (hr : r = .error e) : P e.place := by
  subst hr
  exact h

/-! ### Single tokens and lists -/

theorem placed_expectPunct (h : Stand P stop ts) (c : Char) :
    Placed P stop (expectPunct stop c ts) := by
  unfold expectPunct
  split
  · next hmark => exact h.next hmark
  · exact h.place

theorem placed_expectWord (h : Stand P stop ts) (word : String) :
    Placed P stop (expectWord stop word ts) := by
  unfold expectWord
  split
  · next hmark => exact h.next hmark
  · exact h.place

theorem placed_expectName (h : Stand P stop ts) (what : String) :
    Placed P stop (expectName stop what ts) := by
  unfold expectName
  split
  · next hname => exact h.name hname
  · exact h.place

theorem placed_expectDomain (h : Stand P stop ts) : Placed P stop (expectDomain stop ts) := by
  unfold expectDomain
  split
  · next hname => exact (h.name hname :)
  · exact h.place

theorem placed_bracketedItems {item : (ts : List Token) → Reading α ts}
    (hitem : ∀ ts, Stand P stop ts → Placed P stop (item ts)) (hopener : P opener)
    {ts : List Token} (h : Stand P stop ts) :
    Placed P stop (bracketedItems stop opener item ts) := by
  unfold bracketedItems
  split
  · next hfirst => exact (hitem ts h).error hfirst
  · next first hfirst =>
    have afterFirst := (hitem ts h).ok hfirst
    split
    · next comma hcomma =>
      have := comma.shorter
      have := first.shorter
      have hmore := placed_bracketedItems hitem hopener (afterFirst.next hcomma)
      simp only
      split
      · next herror => exact hmore.error herror
      · next hok => exact (hmore.ok hok :)
    · split
      · next hclosed => exact afterFirst.next hclosed
      · split
        · exact hopener
        · exact afterFirst.place
termination_by ts.length
decreasing_by omega

theorem placed_bracketed {item : (ts : List Token) → Reading α ts}
    (hitem : ∀ ts, Stand P stop ts → Placed P stop (item ts)) (h : Stand P stop ts) :
    Placed P stop (bracketed stop item ts) := by
  unfold bracketed
  split
  · next hopened => exact (placed_expectPunct h _).error hopened
  · next hopened =>
    have inside := (placed_expectPunct h _).ok hopened
    split
    · next hclosed => exact inside.next hclosed
    · have items := placed_bracketedItems hitem h.place inside
      split
      · next herror => exact items.error herror
      · next hok => exact (items.ok hok :)

/-! ### Atoms -/

theorem placed_term (h : Stand P stop ts) (scope : List String) :
    Placed P stop (term stop scope ts) := by
  unfold term
  split
  · exact h.place
  · split
    · exact h.tail
    · split
      · exact h.place
      · split
        · exact h.tail
        · exact h.place
    · exact h.place

theorem placed_arguments (hopener : P opener) (predicate : String) (mark closer : Char)
    (scope : List String) {ts : List Token} (h : Stand P stop ts) :
    Placed P stop (arguments stop opener predicate mark closer scope ts) := by
  unfold arguments
  split
  · next hfirst => exact (placed_term h scope).error hfirst
  · next first hfirst =>
    have afterFirst := (placed_term h scope).ok hfirst
    split
    · next comma hcomma =>
      have := comma.shorter
      have := first.shorter
      have hmore := placed_arguments hopener predicate mark closer scope (afterFirst.next hcomma)
      simp only
      split
      · next herror => exact hmore.error herror
      · next hok => exact (hmore.ok hok :)
    · split
      · next hclosed => exact afterFirst.next hclosed
      · split
        · exact hopener
        · exact afterFirst.place
termination_by ts.length
decreasing_by omega

theorem placed_application (hopener : P t.start) (h : Stand P stop ts) (scope : List String)
    (name : String) (marks : Char × Char) :
    Placed P stop (application stop scope name marks t ts) := by
  unfold application
  split
  · next hclosed => exact (h.next hclosed :)
  · have args := placed_arguments hopener name marks.1 marks.2 scope h
    split
    · next herror => exact args.error herror
    · next hok => exact (args.ok hok :)

theorem placed_membership (h : Stand P stop ts) (scope : List String) :
    Placed P stop (membership stop scope ts) := by
  unfold membership
  split
  · next herror => exact (placed_term h scope).error herror
  · next helement =>
    have after := (placed_term h scope).ok helement
    split
    · exact after.place
    · next hmark =>
      have domain := placed_expectDomain (after.mark hmark)
      split
      · next herror => exact domain.error herror
      · next hok => exact (domain.ok hok :)

theorem placed_quantifierHead (h : Stand P stop ts) (universal : Bool) (head : String) :
    Placed P stop (quantifierHead stop universal head ts) := by
  unfold quantifierHead
  split
  · exact h.place
  · next hvar =>
    have afterVar := h.name hvar
    split
    · exact afterVar.place
    · next hinside =>
      have inside := afterVar.next hinside
      split
      · exact inside.place
      · next hdomain =>
        have afterDomain := inside.name hdomain
        simp only
        split
        · exact afterDomain.place
        · next hmark =>
          have body := afterDomain.next hmark
          split
          · exact body.place
          · exact (body :)

/-! ### The levels of the grammar -/

theorem placed_unclosedParenthesis (hopener : P opener) (h : Stand P stop ts) (inner : Formula) :
    Placed P stop (unclosedParenthesis stop opener inner ts : Except _ (Parsed α n)) := by
  unfold unclosedParenthesis
  split
  · split <;> exact hopener
  · exact h.trailing

mutual

theorem placed_formula (scope : List String) {ts : List Token} (h : Stand P stop ts) :
    Placed P stop (formula stop scope ts) := by
  match ts, h with
  | [], h =>
    rw [formula.eq_1]
    exact placed_implication scope h
  | t :: rest, h =>
    rw [formula]
    split
    · next universal _ =>
      have hread := placed_quantified scope universal t.text h.tail
      split
      · next herror => exact hread.error herror
      · next hok => exact (hread.ok hok :)
    · exact placed_implication scope h
termination_by 8 * ts.length + 6
decreasing_by all_goals simp only [List.length_cons, List.length_nil]; omega

theorem placed_quantified (scope : List String) (universal : Bool) (head : String)
    {ts : List Token} (h : Stand P stop ts) :
    Placed P stop (quantified stop scope universal head ts) := by
  unfold quantified
  split
  · next herror => exact (placed_quantifierHead h universal head).error herror
  · next p hhead =>
    have := p.shorter
    have body := placed_formula (p.value.var :: scope)
      ((placed_quantifierHead h universal head).ok hhead)
    simp only
    split
    · next herror => exact body.error herror
    · next hok => exact (body.ok hok :)
termination_by 8 * ts.length + 7
decreasing_by omega

theorem placed_implication (scope : List String) {ts : List Token} (h : Stand P stop ts) :
    Placed P stop (implication stop scope ts) := by
  unfold implication
  split
  · next herror => exact (placed_disjunction scope h).error herror
  · next left hleft =>
    have afterLeft := (placed_disjunction scope h).ok hleft
    split
    · exact afterLeft
    · next arrow harrow =>
      have := left.shorter
      have := arrow.shorter
      have right := placed_formula scope (afterLeft.next harrow)
      simp only
      split
      · next herror => exact right.error herror
      · next hok => exact (right.ok hok :)
termination_by 8 * ts.length + 5
decreasing_by all_goals omega

theorem placed_disjunction (scope : List String) {ts : List Token} (h : Stand P stop ts) :
    Placed P stop (disjunction stop scope ts) := by
  unfold disjunction
  split
  · next herror => exact (placed_conjunction scope h).error herror
  · next first hfirst =>
    have := first.shorter
    have more := placed_disjuncts scope ((placed_conjunction scope h).ok hfirst)
    simp only
    split
    · next herror => exact more.error herror
    · next hok => exact (more.ok hok :)
termination_by 8 * ts.length + 4
decreasing_by all_goals omega

theorem placed_disjuncts (scope : List String) {ts : List Token} (h : Stand P stop ts) :
    Placed P stop (disjuncts stop scope ts) := by
  unfold disjuncts
  split
  · exact h
  · next mark hmark =>
    have := mark.shorter
    have operand := placed_conjunction scope (h.next hmark)
    simp only
    split
    · next herror => exact operand.error herror
    · next first hfirst =>
      have := first.shorter
      have more := placed_disjuncts scope (operand.ok hfirst)
      split
      · next herror => exact more.error herror
      · next hok => exact (more.ok hok :)
termination_by 8 * ts.length + 4
decreasing_by all_goals omega

theorem placed_conjunction (scope : List String) {ts : List Token} (h : Stand P stop ts) :
    Placed P stop (conjunction stop scope ts) := by
  unfold conjunction
  split
  · next herror => exact (placed_negation scope h).error herror
  · next first hfirst =>
    have := first.shorter
    have more := placed_conjuncts scope ((placed_negation scope h).ok hfirst)
    simp only
    split
    · next herror => exact more.error herror
    · next hok => exact (more.ok hok :)
termination_by 8 * ts.length + 3
decreasing_by all_goals omega

theorem placed_conjuncts (scope : List String) {ts : List Token} (h : Stand P stop ts) :
    Placed P stop (conjuncts stop scope ts) := by
  unfold conjuncts
  split
  · exact h
  · next mark hmark =>
    have := mark.shorter
    have operand := placed_negation scope (h.next hmark)
    simp only
    split
    · next herror => exact operand.error herror
    · next first hfirst =>
      have := first.shorter
      have more := placed_conjuncts scope (operand.ok hfirst)
      split
      · next herror => exact more.error herror
      · next hok => exact (more.ok hok :)
termination_by 8 * ts.length + 3
decreasing_by all_goals omega

theorem placed_negation (scope : List String) {ts : List Token} (h : Stand P stop ts) :
    Placed P stop (negation stop scope ts) := by
  unfold negation
  split
  · exact placed_atom scope h
  · next mark hmark =>
    have := mark.shorter
    have operand := placed_negation scope (h.next hmark)
    simp only
    split
    · next herror => exact operand.error herror
    · next hok => exact (operand.ok hok :)
termination_by 8 * ts.length + 2
decreasing_by all_goals omega

theorem placed_atom (scope : List String) {ts : List Token} (h : Stand P stop ts) :
    Placed P stop (atom stop scope ts) := by
  match ts, h with
  | [], h =>
    rw [atom]
    exact h.place
  | t :: rest, h =>
    rw [atom]
    split
    · have inner := placed_formula scope h.tail
      split
      · next herror => exact inner.error herror
      · next f hok =>
        have after := inner.ok hok
        split
        · next hclosed => exact (after.next hclosed :)
        · exact placed_unclosedParenthesis h.head after f.value
    · split
      · next universal _ =>
        have hread := placed_quantified scope universal t.text h.tail
        split
        · next herror => exact hread.error herror
        · next hok => exact (hread.ok hok :)
      · split
        · exact h.tail
        · split
          · exact h.tail
          · split
            · exact placed_membership h scope
            · next name _ =>
              split
              · split
                · exact h.place
                · exact placed_membership h scope
              · split
                · next marks _ =>
                  split
                  · exact h.place
                  · have args := placed_application h.tail.head h.tail.tail scope name marks
                    split
                    · next herror => exact args.error herror
                    · next hok => exact (args.ok hok :)
                · split
                  · exact h.place
                  · exact placed_membership h scope
            · exact h.place
termination_by 8 * ts.length + 1
decreasing_by all_goals simp only [List.length_cons]; omega

end

theorem placed_closedFormula (h : Stand P stop ts) (context : Context) :
    Placed P stop (closedFormula stop context ts) := by
  unfold closedFormula
  split
  · next herror => exact (placed_formula [] h).error herror
  · next hok =>
    have after := (placed_formula [] h).ok hok
    split
    · exact (after :)
    · exact after.trailing

/-- The error about tokens that are no formula stands at one of them, or at the end. -/
theorem place_of_formulaOfTokens {stream : TokenStream} {e : SyntaxError}
    (hstand : Stand P stream.stop stream.tokens) (h : formulaOfTokens stream = .error e) :
    P e.place := by
  have hread := placed_closedFormula hstand .top
  unfold formulaOfTokens at h
  split at h
  · next herror =>
    cases h
    exact hread.error herror
  · next hok =>
    split at h
    · cases h
    · exact (hread.ok hok).place_of_trailing h

/-! ### Transitions -/

theorem placed_moreEffects {ts : List Token} (h : Stand P stop ts) :
    Placed P stop (moreEffects stop ts) := by
  unfold moreEffects
  split
  · exact h
  · next plus hplus =>
    have effect := placed_expectName (h.next hplus) "an effect name"
    split
    · next herror => exact effect.error herror
    · next name hname =>
      have := plus.shorter
      have := name.shorter
      have more := placed_moreEffects (effect.ok hname)
      simp only
      split
      · next herror => exact more.error herror
      · next hok => exact (more.ok hok :)
termination_by ts.length
decreasing_by omega

theorem placed_clause (h : Stand P stop ts) (word : String) (clauses : Clauses) :
    Placed P stop (clause stop word clauses ts) := by
  unfold clause
  split
  · have effect := placed_expectName h "an effect name"
    split
    · next herror => exact effect.error herror
    · next hname =>
      have more := placed_moreEffects (effect.ok hname)
      split
      · next herror => exact more.error herror
      · next hok => exact (more.ok hok :)
  · have hread := placed_closedFormula h .clause
    split
    · next herror => exact hread.error herror
    · next hok => exact (hread.ok hok :)

theorem placed_clausesFrom (source target : String) (clauses : Clauses) {ts : List Token}
    (h : Stand P stop ts) : Placed P stop (clausesFrom stop source target clauses ts) := by
  unfold clausesFrom
  split
  · exact h
  · next word hword =>
    split
    · exact h.place
    · have hread := placed_clause (h.clause hword) word.value clauses
      split
      · next herror => exact hread.error herror
      · next read hok =>
        have := word.shorter
        have := read.shorter
        have more := placed_clausesFrom source target read.value (hread.ok hok)
        simp only
        split
        · next herror => exact more.error herror
        · next hok => exact (more.ok hok :)
termination_by ts.length
decreasing_by omega

theorem placed_transition (h : Stand P stop ts) : Placed P stop (transition stop ts) := by
  have hsource := placed_expectName h.critical "a source state"
  unfold transition
  simp only
  split
  · next herror => exact hsource.error herror
  · next source hok =>
    have afterSource := hsource.ok hok
    split
    · exact afterSource.place
    · next harrow =>
      have htarget := placed_expectName (afterSource.next harrow) "a target state"
      split
      · next herror => exact htarget.error herror
      · next target hok =>
        have clauses := placed_clausesFrom source.value target.value .none (htarget.ok hok)
        split
        · next herror => exact clauses.error herror
        · next hok => exact (clauses.ok hok :)

/-! ### Workflows -/

theorem placed_sectionBody {item : (ts : List Token) → Reading α ts}
    (hitem : ∀ ts, Stand P stop ts → Placed P stop (item ts)) (h : Stand P stop ts) :
    Placed P stop (sectionBody stop item ts) := by
  unfold sectionBody
  split
  · next herror => exact (placed_expectPunct h _).error herror
  · next hcolon =>
    have items := placed_bracketed hitem ((placed_expectPunct h _).ok hcolon)
    split
    · next herror => exact items.error herror
    · next hok => exact (items.ok hok :)

theorem placed_workflowSection (h : Stand P stop ts) (sections : Sections) :
    Placed P stop (workflowSection stop sections ts) := by
  unfold workflowSection
  split
  · next hword =>
    split
    · exact h.place
    · have states := placed_sectionBody (fun _ hts => placed_expectName hts "a state name")
        (h.next hword)
      split
      · next herror => exact states.error herror
      · next hok => exact (states.ok hok :)
  · split
    · next hword =>
      split
      · exact h.place
      · have transitions := placed_sectionBody (fun _ hts => placed_transition hts) (h.next hword)
        split
        · next herror => exact transitions.error herror
        · next hok => exact (transitions.ok hok :)
    · exact h.place

theorem placed_workflowBody (hopener : P opener) (name : String) (sections : Sections)
    {ts : List Token} (h : Stand P stop ts) :
    Placed P stop (workflowBody stop opener name sections ts) := by
  unfold workflowBody
  split
  · next hclosed => exact (h.next hclosed :)
  · split
    · exact hopener
    · have hread := placed_workflowSection h sections
      split
      · next herror => exact hread.error herror
      · next read hok =>
        have : (skipSemicolon read.rest).rest.length < ts.length :=
          (read.followedBy (skipSemicolon read.rest)).shorter
        have more := placed_workflowBody hopener name read.value (hread.ok hok).semicolon
        simp only
        split
        · next herror => exact more.error herror
        · next hok => exact (more.ok hok :)
termination_by ts.length
decreasing_by omega

theorem placed_parameterList (h : Stand P stop ts) : Placed P stop (parameterList stop ts) := by
  unfold parameterList
  split
  · exact h
  · have names := placed_bracketed (fun _ hts => placed_expectDomain hts) h
    split
    · next herror => exact names.error herror
    · next hok => exact (names.ok hok :)

theorem placed_workflow (h : Stand P stop ts) (offset : Nat) :
    Placed P stop (workflow stop offset ts) := by
  have hname := placed_expectName h "a workflow name"
  unfold workflow
  split
  · next herror => exact hname.error herror
  · next name hok =>
    have hparameters := placed_parameterList (hname.ok hok)
    split
    · next herror => exact hparameters.error herror
    · next parameters hok =>
      have before := hparameters.ok hok
      have hopened := placed_expectPunct before '\x7b'
      split
      · next herror => exact hopened.error herror
      · next hok =>
        have body := placed_workflowBody before.place name.value .none (hopened.ok hok)
        simp only
        split
        · next herror => exact body.error herror
        · next hok => exact (body.ok hok :)

/-! ### Documents -/

theorem placed_formulaBlock (h : Stand P stop ts) (kind : Kind) (offset : Nat) :
    Placed P stop (formulaBlock stop kind offset ts) := by
  have hthat := placed_expectWord h "that"
  unfold formulaBlock
  split
  · next herror => exact hthat.error herror
  · next hok =>
    have hname := placed_expectName (hthat.ok hok) ("a name for the " ++ kind.word)
    split
    · next herror => exact hname.error herror
    · next hok =>
      have hcolon := placed_expectPunct (hname.ok hok) ':'
      split
      · next herror => exact hcolon.error herror
      · next hok =>
        have hread := placed_closedFormula (hcolon.ok hok) .top
        split
        · next herror => exact hread.error herror
        · next hok => exact ((hread.ok hok).semicolon :)

theorem place_of_documentFrom {e : SyntaxError} {ts : List Token} (hstand : Stand P stop ts)
    (h : documentFrom stop ts = .error e) : P e.place := by
  match ts, hstand, h with
  | [], _, h =>
    rw [documentFrom] at h
    cases h
  | t :: rest, hstand, h =>
    rw [documentFrom] at h
    split at h
    · have hread := placed_workflow hstand.tail t.start.offset
      split at h
      · next herror =>
        cases h
        exact hread.error herror
      · next w hok =>
        split at h
        · next herror =>
          cases h
          have := w.shorter
          exact place_of_documentFrom (hread.ok hok) herror
        · cases h
    · next kind _ =>
      have hread := placed_formulaBlock hstand.tail kind t.start.offset
      split at h
      · next herror =>
        cases h
        exact hread.error herror
      · next f hok =>
        split at h
        · next herror =>
          cases h
          have := f.shorter
          exact place_of_documentFrom (hread.ok hok) herror
        · cases h
    · exact place_of_documentFrom hstand.tail h
    · cases h
      exact hstand.head
termination_by ts.length
decreasing_by all_goals simp only [List.length_cons]; omega

end ChangeControl.Rule
