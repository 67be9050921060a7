/-!
Numbers of the 64-bit binary format, kept as exact values.

A finite number is a sign, a mantissa below `2 ^ 53` and a power of two not below `2 ^ (-1074)`.
No machine arithmetic is used: a fraction is rounded to the nearest such number by whole-number
division, ties going to the even mantissa.

Main definitions:

* `Decimal.Binary64` — the numbers, the infinities and the undefined result;
* `Decimal.divideEven` — a quotient rounded to the nearest whole number;
* `Binary64.ofRatio`, `Binary64.ofDecimal` — the nearest number to a fraction or a decimal;
* `Binary64.ratio` — a number as a fraction;
* `Binary64.isWhole` — whether a number is a given whole number.

Main statements:

* `Decimal.two_mul_sub_divideEven_le` — `divideEven` is off by at most half a unit.
-/

set_option autoImplicit false

namespace ChangeControl.Decimal

/-- A number of the 64-bit binary format. -/
inductive Binary64
  /-- The number `mantissa * 2 ^ exponent`, or its negation. -/
  | finite (negative : Bool) (mantissa : Nat) (exponent : Int)
  | infinite (negative : Bool)
  /-- The result of an undefined operation. -/
  | undefined
deriving DecidableEq, Repr, Inhabited

/-- The whole number nearest to `num / den`; of two equally near ones the even one. -/
def divideEven (num den : Nat) : Nat :=
  let q := num / den
  let r := num % den
  if den < 2 * r ∨ (2 * r = den ∧ q % 2 = 1) then q + 1 else q

/-- The rounded quotient is at most half a unit away from the quotient. -/
theorem two_mul_sub_divideEven_le (num den : Nat) (pos : 0 < den) :
    2 * num ≤ (2 * divideEven num den + 1) * den ∧
      2 * divideEven num den * den ≤ 2 * num + den := by
  have split := Nat.div_add_mod num den
  have rest := Nat.mod_lt num pos
  have scale : den * (num / den) = num / den * den := Nat.mul_comm _ _
  unfold divideEven
  simp only
  split
  · next up =>
    have half : den ≤ 2 * (num % den) := by omega
    constructor <;> grind
  · next down =>
    have half : 2 * (num % den) ≤ den := by omega
    constructor <;> grind

namespace Binary64

/-- Zero. -/
def zero : Binary64 := finite false 0 (-1074)

/-- Two to an integer power, as a fraction. -/
def power2 (e : Int) : Nat × Nat :=
  if 0 ≤ e then (Nat.pow 2 e.toNat, 1) else (1, Nat.pow 2 (-e).toNat)

/-- The number nearest to `num / den`, or to its negation. -/
def ofRatio (negative : Bool) (num den : Nat) : Binary64 :=
  if num = 0 then finite negative 0 (-1074)
  else
    let low : Int := (num.log2 : Int) - den.log2 - 53
    let bound := power2 (low + 53)
    let e : Int := max (-1074) (if num * bound.2 < bound.1 * den then low else low + 1)
    let unit := power2 e
    let m := divideEven (num * unit.2) (den * unit.1)
    if m = Nat.pow 2 53 then
      if 970 < e then infinite negative else finite negative (Nat.pow 2 52) (e + 1)
    else if 971 < e then infinite negative
    else finite negative m e

/-- The number nearest to `digits * 10 ^ exponent`, or to its negation. -/
def ofDecimal (negative : Bool) (digits : Nat) (exponent : Int) : Binary64 :=
  let point : Int := (Nat.toDigits 10 digits).length + exponent
  if digits = 0 ∨ point < -330 then finite negative 0 (-1074)
  else if 310 < point then infinite negative
  else if 0 ≤ exponent then ofRatio negative (digits * Nat.pow 10 exponent.toNat) 1
  else ofRatio negative digits (Nat.pow 10 (-exponent).toNat)

/-- The number nearest to a whole number. -/
def ofInt (n : Int) : Binary64 := ofRatio (decide (n < 0)) n.natAbs 1

/-- A finite number as a fraction, without its sign. -/
def ratio (mantissa : Nat) (exponent : Int) : Nat × Nat :=
  let p := power2 exponent
  (mantissa * p.1, p.2)

/-- The number is zero or negative zero. -/
def isZero : Binary64 → Bool
  | finite _ m _ => m == 0
  | _ => false

/-- The number is above zero. -/
def isPositive : Binary64 → Bool
  | finite negative m _ => !negative && m != 0
  | infinite negative => !negative
  | undefined => false

/-- The number is neither infinite nor undefined. -/
def isFinite : Binary64 → Bool
  | finite .. => true
  | infinite _ | undefined => false

/-- The number is the whole number `n`. -/
def isWhole (n : Int) : Binary64 → Bool
  | finite negative m e =>
    let (num, den) := ratio m e
    num == n.natAbs * den && (m == 0 || negative == decide (n < 0))
  | infinite _ | undefined => false

/-- The number with the opposite sign. -/
def negate : Binary64 → Binary64
  | finite negative m e => finite (!negative) m e
  | infinite negative => infinite (!negative)
  | undefined => undefined

end Binary64

end ChangeControl.Decimal
