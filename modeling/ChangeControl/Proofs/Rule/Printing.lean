import ChangeControl.Proofs.Rule.Scanning
import Mathlib.Data.List.Basic
/-!
The lexemes of a printed formula.

The text of a well-formed formula is scanned to the lexemes that one would write for it by hand,
with the same words, marks and parentheses.  A literal that holds a line feed is the exception:
there is no way to write it, and the whole text is not scanned.

Main definitions:

* `Term.lexeme`, `Formula.lexemes` — how a tree is written.

Main results:

* `Rule.scans_text` — **the text of a formula is scanned to its lexemes**.
-/

set_option autoImplicit false

namespace ChangeControl.Rule

/-! ### How formulas are written -/

/-- How a term is written. -/
def Term.lexeme : Term → Lexeme
  | .var name | .domain name | .state name | .bare name => .name name
  | .literal value => .literal value

/-- Parts with a separator between any two of them. -/
def separated (sep : Lexeme) : List (List Lexeme) → List Lexeme
  | [] => []
  | l :: ls => l ++ ls.flatMap (sep :: ·)

namespace Formula

/-- How a formula is written in a place that demands the strength `least`. -/
def enclose (least : Nat) (f : Formula) (ls : List Lexeme) : List Lexeme :=
  if f.strength < least then .punct '(' :: (ls ++ [.punct ')']) else ls

mutual

/-- How a formula is written. -/
def lexemes : Formula → List Lexeme
  | truth value => [.name (if value then "true" else "false")]
  | pred name args =>
    .name name :: .punct '[' ::
      (separated (.punct ',') (args.map fun t => [t.lexeme]) ++ [.punct ']'])
  | member element domain negated =>
    element.lexeme :: ((if negated then [.name "not", .name "in"] else [.name "in"]) ++
      [.name domain])
  | not f => .name "not" :: f.enclose 4 f.lexemes
  | and fs => separated (.name "and") (operandLexemes 4 fs)
  | or fs => separated (.name "or") (operandLexemes 3 fs)
  | implies f g => f.enclose 2 f.lexemes ++ .symbol .implies :: g.enclose 1 g.lexemes
  | all v d f => .name "forall" :: .name v :: .name "in" :: .name d :: .punct ':' :: f.lexemes
  | any v d f => .name "exists" :: .name v :: .name "in" :: .name d :: .punct ':' :: f.lexemes
  | bare _ => []

/-- How operands are written in places that demand the strength `least`. -/
def operandLexemes (least : Nat) : List Formula → List (List Lexeme)
  | [] => []
  | f :: fs => f.enclose least f.lexemes :: operandLexemes least fs

end

theorem operandLexemes_eq_map (least : Nat) (fs : List Formula) :
    operandLexemes least fs = fs.map fun f => f.enclose least f.lexemes := by
  induction fs with
  | nil => rfl
  | cons f fs ih => rw [operandLexemes, ih, List.map_cons]

theorem operandTexts_eq_map (least : Nat) (fs : List Formula) :
    operandTexts least fs = fs.map fun f => f.parenthesize least f.text := by
  induction fs with
  | nil => rfl
  | cons f fs ih => rw [operandTexts, ih, List.map_cons]

theorem literalsOf_eq_flatMap (fs : List Formula) : literalsOf fs = fs.flatMap literals := by
  induction fs with
  | nil => rfl
  | cons f fs ih => rw [literalsOf, ih, List.flatMap_cons]

end Formula

/-! ### Parts of a text -/

section Parts

variable {cs : List Char} {literals : List String} {ls : List Lexeme} {scope : List String}

theorem intercalate_cons_flatMap {α : Type} (sep x : List α) (xs : List (List α)) :
    List.intercalate sep (x :: xs) = x ++ xs.flatMap (sep ++ ·) := by
  induction xs generalizing x with
  | nil => simp
  | cons y ys ih =>
    rw [List.intercalate_cons_cons, ih, List.flatMap_cons, List.append_assoc, List.append_assoc]

theorem stopsName_cons {c : Char} (h : isNameChar c = false) : StopsName (c :: cs) := by
  simpa [StopsName] using h

/-- What is written with separators is scanned part by part. -/
theorem scans_separated {α : Type} (sepChars : List Char) (sep : Lexeme)
    (hsep : ∀ {cs literals ls}, Scans cs literals ls → Scans (sepChars ++ cs) literals (sep :: ls))
    (stops : ∀ cs, StopsName (sepChars ++ cs)) {chars : α → List Char}
    {literals : α → List String} {lexemes : α → List Lexeme} {xs : List α}
    (h : ∀ x ∈ xs, Scans (chars x) (literals x) (lexemes x)) :
    Scans (sepChars.intercalate (xs.map chars)) (xs.flatMap literals)
      (separated sep (xs.map lexemes)) := by
  have hmore : ∀ ys : List α, (∀ y ∈ ys, Scans (chars y) (literals y) (lexemes y)) →
      StopsName ((ys.map chars).flatMap (sepChars ++ ·)) ∧
      Scans ((ys.map chars).flatMap (sepChars ++ ·)) (ys.flatMap literals)
        ((ys.map lexemes).flatMap (sep :: ·)) := by
    intro ys hys
    induction ys with
    | nil => exact ⟨by simp [StopsName], scans_nil⟩
    | cons y ys ih =>
      obtain ⟨hy, hys⟩ := List.forall_mem_cons.1 hys
      obtain ⟨hstops, hscans⟩ := ih hys
      simp only [List.map_cons, List.flatMap_cons, List.append_assoc]
      exact ⟨stops _, hsep (hy.append hscans hstops)⟩
  cases xs with
  | nil => exact scans_nil
  | cons x xs =>
    obtain ⟨hx, hxs⟩ := List.forall_mem_cons.1 h
    obtain ⟨hstops, hscans⟩ := hmore xs hxs
    rw [List.map_cons, intercalate_cons_flatMap]
    exact hx.append hscans hstops

theorem isIdentifier_of_isDomainName {d : String} (h : IsDomainName IsIdentifier d) :
    IsIdentifier d := by
  have known : ∀ d ∈ domainNames, IsIdentifier d := by decide
  exact h.word.elim (known d) id

theorem scans_term {t : Term} (wf : t.WellFormed IsIdentifier scope) :
    Scans t.text.toList (termLiterals [t]) [t.lexeme] := by
  cases t with
  | var v => exact scans_name wf.1
  | domain d => exact scans_name (isIdentifier_of_isDomainName (isDomainName_of_mem wf))
  | state s => exact scans_name wf.1
  | literal value => exact scans_literal value
  | bare => exact absurd wf id

theorem scans_terms {args : List Term} (wf : ∀ t ∈ args, t.WellFormed IsIdentifier scope) :
    Scans (", ".intercalate (args.map Term.text)).toList (termLiterals args)
      (separated (.punct ',') (args.map fun t => [t.lexeme])) := by
  have hscans := scans_separated [',', ' '] (.punct ',')
    (fun h => h.space.punct ',' (by decide)) (fun cs => stopsName_cons (by decide))
    fun t ht => scans_term (wf t ht)
  have hliterals : args.flatMap (fun t => termLiterals [t]) = termLiterals args := by
    rw [termLiterals, List.filterMap_eq_flatMap_toList]
    exact List.flatMap_congr fun t _ => by cases t <;> rfl
  rw [String.toList_intercalate, List.map_map, ← hliterals]
  exact hscans

theorem scans_enclose {f : Formula} (least : Nat)
    (h : Scans f.text.toList f.literals f.lexemes) :
    Scans (f.parenthesize least f.text).toList f.literals (f.enclose least f.lexemes) := by
  rw [Formula.parenthesize, Formula.enclose]
  split
  · have hclosed := h.append (scans_nil.punct ')' (by decide)) (stopsName_cons (by decide))
    have hopened := hclosed.punct '(' (by decide)
    simpa using hopened
  · exact h

/-- The head of a quantified formula is scanned to its words. -/
theorem scans_quantified (word : String) {v d : String} (isWord : IsIdentifier word)
    (isName : IsIdentifier v) (isDomain : IsDomainName IsIdentifier d) (h : Scans cs literals ls) :
    Scans (word.toList ++ ' ' :: (v.toList ++ ' ' :: ("in".toList ++ ' ' :: (d.toList ++
        ':' :: cs)))) literals
      (.name word :: .name v :: .name "in" :: .name d :: .punct ':' :: ls) := by
  have hcolon := h.punct ':' (by decide)
  have hdomain := (hcolon.word (isIdentifier_of_isDomainName isDomain)
    (stopsName_cons (by decide))).space
  have hin := (hdomain.word (w := "in") (by decide) (stopsName_cons (by decide))).space
  have hvar := (hin.word isName (stopsName_cons (by decide))).space
  exact hvar.word isWord (stopsName_cons (by decide))

/-- **The text of a well-formed formula is scanned to its lexemes**, unless a literal holds a line
feed. -/
theorem scans_text {f : Formula} (wf : f.WellFormed IsIdentifier scope) :
    Scans f.text.toList f.literals f.lexemes := by
  induction f generalizing scope with
  | truth b =>
    cases b
    · exact scans_name (w := "false") (by decide)
    · exact scans_name (w := "true") (by decide)
  | pred name args =>
    obtain ⟨isName, wfs⟩ := wf
    have hargs := (scans_terms wfs).append (scans_nil.punct ']' (by decide))
      (stopsName_cons (by decide))
    have hopened := hargs.punct '[' (by decide)
    have hall := hopened.word isName.word (stopsName_cons (by decide))
    simpa [Formula.text, Formula.literals, Formula.lexemes] using hall
  | member element d negated =>
    obtain ⟨wf, isDomain⟩ := wf
    have hdomain := (scans_name (isIdentifier_of_isDomainName isDomain)).space
    have hin := (hdomain.word (w := "in") (by decide) (stopsName_cons (by decide))).space
    have hnot := (hin.word (w := "not") (by decide) (stopsName_cons (by decide))).space
    cases negated with
    | false =>
      have hall := (scans_term wf).append hin (stopsName_cons (by decide))
      simpa [Formula.text, Formula.literals, Formula.lexemes] using hall
    | true =>
      have hall := (scans_term wf).append hnot (stopsName_cons (by decide))
      simpa [Formula.text, Formula.literals, Formula.lexemes] using hall
  | not f ih =>
    have hall := (scans_enclose 4 (ih wf)).space.word (w := "not") (by decide)
      (stopsName_cons (by decide))
    simpa [Formula.text, Formula.literals, Formula.lexemes] using hall
  | and fs ih =>
    have hscans := scans_separated " and ".toList (.name "and")
      (fun h => (h.space.word (w := "and") (by decide) (stopsName_cons (by decide))).space)
      (fun cs => stopsName_cons (by decide)) fun f hf =>
        scans_enclose 4 (ih f hf (Formula.wellFormedAll_iff.1 wf.2 f hf))
    rw [Formula.text, String.toList_intercalate, Formula.operandTexts_eq_map, List.map_map,
      Formula.literals, Formula.literalsOf_eq_flatMap, Formula.lexemes,
      Formula.operandLexemes_eq_map]
    exact hscans
  | or fs ih =>
    have hscans := scans_separated " or ".toList (.name "or")
      (fun h => (h.space.word (w := "or") (by decide) (stopsName_cons (by decide))).space)
      (fun cs => stopsName_cons (by decide)) fun f hf =>
        scans_enclose 3 (ih f hf (Formula.wellFormedAll_iff.1 wf.2 f hf))
    rw [Formula.text, String.toList_intercalate, Formula.operandTexts_eq_map, List.map_map,
      Formula.literals, Formula.literalsOf_eq_flatMap, Formula.lexemes,
      Formula.operandLexemes_eq_map]
    exact hscans
  | implies f g ihf ihg =>
    have harrow := (scans_enclose 1 (ihg wf.2)).space.arrow.space
    have hall := (scans_enclose 2 (ihf wf.1)).append harrow (stopsName_cons (by decide))
    simpa [Formula.text, Formula.literals, Formula.lexemes] using hall
  | all v d f ih =>
    have hall := scans_quantified "forall" (by decide) wf.1.word wf.2.1 (ih wf.2.2).space
    simpa [Formula.text, Formula.literals, Formula.lexemes] using hall
  | any v d f ih =>
    have hall := scans_quantified "exists" (by decide) wf.1.word wf.2.1 (ih wf.2.2).space
    simpa [Formula.text, Formula.literals, Formula.lexemes] using hall
  | bare => exact absurd wf id

end Parts

end ChangeControl.Rule
