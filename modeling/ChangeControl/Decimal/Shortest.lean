import ChangeControl.Decimal.Binary64
/-!
The shortest decimal that reads back.

Every real number in a certain interval around a finite binary number rounds to that number; the
ends belong to the interval when the mantissa is even.  For one digit, two digits and so on, the two
decimals next to the number are tried, and the first count of digits with a decimal in the interval
wins; of two the nearer, and of two equally near the even one.  Seventeen digits always suffice.

Main definitions:

* `Binary64.shortest` — the digits, and where the decimal point stands;
* `Binary64.text` — the number as it is written: positional while the point stands after the
  fourth zero and before the seventeenth digit, and otherwise with an exponent of at least two
  digits.
-/

set_option autoImplicit false

namespace ChangeControl.Decimal.Binary64

/-- The integer `p` with `10 ^ (p - 1) ≤ num / den < 10 ^ p`. -/
def decimalPoint (num den : Nat) : Int :=
  if den ≤ num then (Nat.toDigits 10 (num / den)).length
  else
    let guess := (Nat.toDigits 10 den).length - (Nat.toDigits 10 num).length
    if den ≤ num * Nat.pow 10 guess then 1 - (guess : Int) else -(guess : Int)

/-- A decimal `c * 10 ^ k` and a binary number `x * 2 ^ f`, both multiplied by the same factor so
that they are whole. -/
def align (k f : Int) : (Nat → Nat) × (Nat → Nat) :=
  (fun c => c * (Nat.pow 10 k.toNat * Nat.pow 2 (-f).toNat),
    fun x => x * (Nat.pow 2 f.toNat * Nat.pow 10 (-k).toNat))

/-- The decimal with `n` digits that reads back as `mantissa * 2 ^ exponent`, if there is one. -/
def withDigits? (mantissa : Nat) (exponent point : Int) (n : Nat) : Option (Nat × Int) :=
  let k := point - n
  let (decimal, binary) := align k (exponent - 2)
  let value := binary (4 * mantissa)
  let low :=
    if mantissa = Nat.pow 2 52 ∧ -1074 < exponent then binary (4 * mantissa - 1)
    else binary (4 * mantissa - 2)
  let high := binary (4 * mantissa + 2)
  let even := mantissa % 2 == 0
  let inside (c : Nat) : Bool :=
    let x := decimal c
    if even then low ≤ x && x ≤ high else low < x && x < high
  let below := value / decimal 1
  let above := below + 1
  let distance (c : Nat) : Nat := decimal c - value + (value - decimal c)
  let first :=
    if distance above < distance below ∨ (distance above = distance below ∧ below % 2 = 1) then
      above
    else below
  let second := if first = below then above else below
  if inside first then some (first, k) else if inside second then some (second, k) else none

/-- The digits of the shortest decimal that reads back as `mantissa * 2 ^ exponent`, and the number
of them that stand before the decimal point. -/
def shortest (mantissa : Nat) (exponent : Int) : List Char × Int :=
  let r := ratio mantissa exponent
  let point := decimalPoint r.1 r.2
  let hit := (List.range 17).findSome? fun n => withDigits? mantissa exponent point (n + 1)
  let (c, k) := hit.getD (0, 0)
  let digits := Nat.toDigits 10 c
  ((digits.reverse.dropWhile (· == '0')).reverse, digits.length + k)

/-- Digits with the decimal point after the first `point` of them. -/
def positional (digits : List Char) (point : Int) : String :=
  if point ≤ 0 then
    "0." ++ String.ofList (List.replicate (-point).toNat '0' ++ digits)
  else
    let whole := digits.take point.toNat
    let fraction := digits.drop point.toNat
    String.ofList (whole ++ List.replicate (point.toNat - whole.length) '0') ++ "." ++
      (if fraction.isEmpty then "0" else String.ofList fraction)

/-- Digits with the decimal point after the first one, and an exponent. -/
def scientific (digits : List Char) (point : Int) : String :=
  let e := point - 1
  let exponent := toString e.natAbs
  String.ofList (digits.take 1) ++
    (if digits.length ≤ 1 then "" else "." ++ String.ofList (digits.drop 1)) ++
    (if e < 0 then "e-" else "e+") ++ (if exponent.length < 2 then "0" else "") ++ exponent

/-- The number as it is written; `infinity` and `nan` are the names of what has no digits. -/
def text (infinity nan : String) : Binary64 → String
  | undefined => nan
  | infinite negative => (if negative then "-" else "") ++ infinity
  | finite negative mantissa exponent =>
    let sign := if negative then "-" else ""
    if mantissa = 0 then sign ++ "0.0"
    else
      let (digits, point) := shortest mantissa exponent
      if -4 < point ∧ point ≤ 16 then sign ++ positional digits point
      else sign ++ scientific digits point

end ChangeControl.Decimal.Binary64
