import ChangeControl.Proofs.Rule.Leaves
/-!
The levels of the parser.

A level of the grammar is read by the function made for it.  What it leaves begins with no
connective that it could have gone on with, and the two levels for chains read their operands in the
same manner.

Main definitions:

* `Rule.Quiet` — tokens with which no level of a strength goes on;
* `Level.read` — what a level reads;
* `Rule.chainAt`, `Rule.Continues` — operands that are read in a row.

Main results:

* `Rule.read_conjunction`, `Rule.read_disjunction` — the levels for chains.
-/

set_option autoImplicit false

namespace ChangeControl.Rule

variable {stop : Position} {scope : List String} {ts rest : List Token}

/-! ### What follows -/

/-- No level that demands the strength `least` goes on with these tokens. -/
def Quiet (least : Nat) (ts : List Token) : Prop :=
  ∀ t ∈ ts.head?, (least ≤ 3 → t.means .and = false) ∧ (least ≤ 2 → t.means .or = false) ∧
    (least ≤ 1 → t.means .implies = false)

theorem Quiet.mono {least k : Nat} (h : Quiet least ts) (hle : least ≤ k) : Quiet k ts := by
  intro t ht
  obtain ⟨hand, hor, himplies⟩ := h t ht
  exact ⟨fun hk => hand (Nat.le_trans hle hk), fun hk => hor (Nat.le_trans hle hk),
    fun hk => himplies (Nat.le_trans hle hk)⟩

theorem quiet_nil {least : Nat} : Quiet least [] := by simp [Quiet]

theorem quiet_of_four_le {least : Nat} (h : 4 ≤ least) : Quiet least ts :=
  fun _ _ => ⟨by omega, by omega, by omega⟩

/-- Before a connective nothing is asked of the end. -/
theorem quiet_of_connective_eq (h : Next.connective = .ending) : Quiet 0 ts := by
  cases h

/-! ### Levels -/

namespace Level

/-- The strength that a level demands. -/
def least : Level → Nat
  | formula | quantifier => 0
  | disjunction => 2
  | conjunction => 3
  | negation | atom => 4

/-- A level calls levels of a smaller rank for the same tokens. -/
def rank : Level → Nat
  | formula => 5
  | disjunction => 4
  | conjunction => 3
  | negation => 2
  | atom => 1
  | quantifier => 0

/-- What a level reads. -/
def read (stop : Position) (level : Level) (scope : List String) (ts : List Token) :
    Option (Formula × List Token) :=
  match level with
  | formula => outcome (Rule.formula stop scope ts)
  | quantifier =>
    match ts with
    | [] => none
    | t :: ts => (quantifier? t).bind fun universal =>
      outcome (quantified stop scope universal t.text ts)
  | disjunction => outcome (Rule.disjunction stop scope ts)
  | conjunction => outcome (Rule.conjunction stop scope ts)
  | negation => outcome (Rule.negation stop scope ts)
  | atom => outcome (Rule.atom stop scope ts)

/-- A level reads at least one token. -/
theorem length_of_read {level : Level} {f : Formula}
    (h : level.read stop scope ts = some (f, rest)) : rest.length < ts.length := by
  cases level with
  | quantifier =>
    cases ts with
    | nil => cases h
    | cons t ts =>
      obtain ⟨universal, -, h⟩ := Option.bind_eq_some_iff.1 h
      exact Nat.lt_succ_of_lt (length_of_outcome h)
  | formula | disjunction | conjunction | negation | atom => exact length_of_outcome h

end Level

/-! ### Chains -/

/-- Some operands, each read by `operand`, with the ones after the first read by `more`. -/
def chainAt (operand : List Token → Option (Formula × List Token))
    (more : List Token → Option (List Formula × List Token)) (ts : List Token) :
    Option (List Formula × List Token) :=
  (operand ts).bind fun first => (more first.2).map fun r => (first.1 :: r.1, r.2)

/-- `more` reads the operands after the first one, each after a mark `join`. -/
def Continues (operand : List Token → Option (Formula × List Token)) (join : Symbol)
    (more : List Token → Option (List Formula × List Token)) : Prop :=
  ∀ ts, more ts =
    match skip? (Token.means join) ts with
    | none => some ([], ts)
    | some after => chainAt operand more after

theorem continues_conjuncts :
    Continues (Level.negation.read stop scope) .and
      fun ts => outcome (conjuncts stop scope ts) :=
  fun _ => outcome_conjuncts

theorem continues_disjuncts :
    Continues (Level.conjunction.read stop scope) .or
      fun ts => outcome (disjuncts stop scope ts) :=
  fun _ => outcome_disjuncts

theorem read_conjunction :
    Level.conjunction.read stop scope ts =
      (chainAt (Level.negation.read stop scope)
        (fun ts => outcome (conjuncts stop scope ts)) ts).map
          fun r => (collapse .and r.1, r.2) := by
  simp [Level.read, chainAt, outcome_conjunction, Option.map_bind, Function.comp_def,
    joined_eq_collapse]

theorem read_disjunction :
    Level.disjunction.read stop scope ts =
      (chainAt (Level.conjunction.read stop scope)
        (fun ts => outcome (disjuncts stop scope ts)) ts).map
          fun r => (collapse .or r.1, r.2) := by
  simp [Level.read, chainAt, outcome_disjunction, Option.map_bind, Function.comp_def,
    joined_eq_collapse]

theorem Continues.nothing {operand : List Token → Option (Formula × List Token)} {join : Symbol}
    {more : List Token → Option (List Formula × List Token)}
    (h : Continues operand join more) (ends : ∀ t ∈ ts.head?, t.means join = false) :
    more ts = some ([], ts) := by
  rw [h, skip?_eq_none_iff.2 ends]

end ChangeControl.Rule
