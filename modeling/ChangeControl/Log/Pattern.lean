import ChangeControl.Decimal.Shortest
import ChangeControl.Log.Item
/-!
Messages with places for arguments.

In a pattern a percent sign opens a conversion, which stands for the next argument, or for the value
under a key when there is one argument with keys.  Between the sign and the letter of the conversion
there may be a key in parentheses, flags, a width and a precision.  Two percent signs are one.

What a conversion asks for is looked at from left to right, so that of two faults the one further
left is told.

Main definitions:

* `Log.Conversion`, `Conversion.read` — a conversion, and reading one;
* `Log.PatternFault` — why a pattern cannot be filled, with `PatternFault.message`;
* `Conversion.present` — an argument as a conversion shows it;
* `Log.fill` — a pattern with its arguments.

Main statements:

* `Log.fillFrom_of_not_mem` — a text without percent signs takes no arguments and stays as it is.
* `Log.fill_of_isEmpty` — without arguments a pattern stays as it is.
-/

set_option autoImplicit false

namespace ChangeControl.Log

open Decimal (Binary64)

/-- Why a pattern cannot be filled. -/
inductive PatternFault
  /-- An argument is missing, left over or of the wrong kind. -/
  | argument
  /-- An argument is too large. -/
  | size
  /-- The text would be too long. -/
  | room
  /-- An argument is the result of an undefined operation, which is no whole number. -/
  | undefined
  /-- A width is written that is too large. -/
  | width
  /-- A precision is written that is too large. -/
  | precision
  /-- The text ends inside a conversion. -/
  | incomplete
  /-- The text ends inside a key. -/
  | incompleteKey
  /-- The object has no such key. -/
  | noKey (key : String)
  /-- A letter that is no conversion. -/
  | letter (c : Char) (index : Nat)
deriving DecidableEq, Repr

/-- One sentence on the fault; a missing key is told by its name. -/
def PatternFault.message : PatternFault → String
  | argument | size | room => ""
  | undefined => "cannot convert float NaN to integer"
  | width => "width too big"
  | precision => "precision too big"
  | incomplete => "incomplete format"
  | incompleteKey => "incomplete format key"
  | noKey key => Text.quote key
  | letter c index =>
    let shown := if 31 ≤ c.toNat ∧ c.toNat < 127 then c else '?'
    "unsupported format character '" ++ shown.toString ++ "' (0x" ++ Text.hex 1 c.toNat ++
      ") at index " ++ toString index

/-! ### Reading conversions -/

/-- A width or a precision. -/
inductive Extent
  | unset
  | given (n : Nat)
  /-- The next argument tells it. -/
  | argument
deriving DecidableEq, Repr

/-- What stands between parentheses in front of a conversion. -/
inductive Key
  | absent
  | named (key : String)
  /-- The text ends before the key does. -/
  | unclosed
deriving DecidableEq, Repr

/-- A place for an argument. -/
structure Conversion where
  key : Key
  flags : List Char
  width : Extent
  precision : Extent
  /-- The letter of the conversion, unless the text ends before it. -/
  letter : Option Char
deriving DecidableEq, Repr

/-- A key up to the parenthesis that closes it, and what follows. -/
def keyBody : Nat → List Char → Option (List Char × List Char)
  | _, [] => none
  | depth, c :: cs =>
    if c = ')' ∧ depth = 0 then some ([], cs)
    else
      let inner := if c = '(' then depth + 1 else if c = ')' then depth - 1 else depth
      (keyBody inner cs).map fun r => (c :: r.1, r.2)

/-- The key in front of a conversion, and what follows. -/
def readKey : List Char → Key × List Char
  | '(' :: cs =>
    match keyBody 0 cs with
    | none => (.unclosed, [])
    | some (key, rest) => (.named (String.ofList key), rest)
  | cs => (.absent, cs)

/-- The flags of conversions. -/
def isFlag (c : Char) : Bool := c == '-' || c == '+' || c == ' ' || c == '#' || c == '0'

/-- The number that some digits stand for. -/
def digitsValue (ds : List Char) : Nat := ds.foldl (fun n c => n * 10 + (c.toNat - 48)) 0

/-- A width, or what follows the point of a precision. -/
def readExtent : List Char → Extent × List Char
  | '*' :: cs => (.argument, cs)
  | cs =>
    let digits := cs.takeWhile Char.isDigit
    (if digits.isEmpty then .unset else .given (digitsValue digits), cs.dropWhile Char.isDigit)

/-- A precision; without digits it is zero. -/
def readPrecision : List Char → Extent × List Char
  | '.' :: cs =>
    match readExtent cs with
    | (.unset, rest) => (.given 0, rest)
    | r => r
  | cs => (.unset, cs)

/-- The text without a letter that tells the size of a machine number. -/
def skipSize : List Char → List Char
  | [] => []
  | c :: cs => if c = 'h' ∨ c = 'l' ∨ c = 'L' then cs else c :: cs

/-- The conversion after a percent sign, and what follows it. -/
def Conversion.read (cs : List Char) : Conversion × List Char :=
  let (key, cs) := readKey cs
  let flags := cs.takeWhile isFlag
  let (width, cs) := readExtent (cs.dropWhile isFlag)
  let (precision, cs) := readPrecision cs
  let cs := skipSize cs
  (⟨key, flags, width, precision, cs.head?⟩, cs.tail)

theorem length_of_keyBody {depth : Nat} {cs key rest : List Char}
    (h : keyBody depth cs = some (key, rest)) : rest.length < cs.length := by
  induction cs generalizing depth key with
  | nil => simp [keyBody] at h
  | cons c cs ih =>
    unfold keyBody at h
    split at h
    · simp only [Option.some.injEq, Prod.mk.injEq] at h
      obtain ⟨_, rfl⟩ := h
      simp
    · simp only [Option.map_eq_some_iff, Prod.mk.injEq] at h
      obtain ⟨⟨body, after⟩, inner, _, rfl⟩ := h
      have shorter : after.length < cs.length := ih inner
      simp only [List.length_cons]
      omega

theorem length_readKey_le (cs : List Char) : (readKey cs).2.length ≤ cs.length := by
  unfold readKey
  split
  · split
    · simp
    · next found =>
      have := length_of_keyBody found
      simp only [List.length_cons]
      omega
  · exact Nat.le_refl _

theorem length_readExtent_le (cs : List Char) : (readExtent cs).2.length ≤ cs.length := by
  unfold readExtent
  split
  · simp
  · exact (List.dropWhile_suffix _).length_le

theorem length_readPrecision_le (cs : List Char) : (readPrecision cs).2.length ≤ cs.length := by
  unfold readPrecision
  split
  · next cs =>
    have := length_readExtent_le cs
    split
    · next same => simp_all only [List.length_cons]; omega
    · simp only [List.length_cons]; omega
  · simp

theorem length_skipSize_le (cs : List Char) : (skipSize cs).length ≤ cs.length := by
  unfold skipSize
  split
  · simp
  · split <;> simp

theorem Conversion.length_read_le (cs : List Char) :
    (Conversion.read cs).2.length ≤ cs.length := by
  have one := length_readKey_le cs
  have two : ((readKey cs).2.dropWhile isFlag).length ≤ (readKey cs).2.length :=
    (List.dropWhile_suffix _).length_le
  have three := length_readExtent_le ((readKey cs).2.dropWhile isFlag)
  have four := length_readPrecision_le (readExtent ((readKey cs).2.dropWhile isFlag)).2
  have five :=
    length_skipSize_le (readPrecision (readExtent ((readKey cs).2.dropWhile isFlag)).2).2
  simp only [Conversion.read, List.length_tail]
  omega

/-! ### Arguments -/

/-- The arguments that are left, and the one that keys refer to. -/
structure Supply where
  next : List Item
  mapping : Option Item

/-- The arguments of a message; keys refer to a single list or object. -/
def Supply.ofArguments : Arguments → Supply
  | .several items => ⟨items, none⟩
  | .one (.data (.arr vs)) => ⟨[.data (.arr vs)], some (.data (.arr vs))⟩
  | .one (.data (.obj fields)) => ⟨[.data (.obj fields)], some (.data (.obj fields))⟩
  | .one item => ⟨[item], none⟩

/-- The next argument. -/
def Supply.take (s : Supply) : Except PatternFault (Item × Supply) :=
  match s.next with
  | [] => .error .argument
  | v :: rest => .ok (v, { s with next := rest })

/-- The arguments with the value under a key in front; a list has no keys. -/
def Supply.select (s : Supply) (key : Key) : Except PatternFault Supply :=
  match key, s.mapping with
  | .absent, _ => .ok s
  | _, none => .error .argument
  | .unclosed, some _ => .error .incompleteKey
  | .named key, some (.data (.obj fields)) =>
    match Json.lookup key fields with
    | none => .error (.noKey key)
    | some v => .ok { s with next := [.data v] }
  | .named _, some _ => .error .argument

/-- What a width or a precision is below, and the fault of one that is written and is not. -/
structure Bound where
  limit : Nat
  fault : PatternFault

/-- Widths are numbers of 64 bits. -/
def widthBound : Bound := ⟨9223372036854775808, .width⟩

/-- Precisions are numbers of 32 bits. -/
def precisionBound : Bound := ⟨2147483648, .precision⟩

/-- A whole number that tells a width or a precision. -/
def Supply.extent (s : Supply) (bound : Bound) : Extent → Except PatternFault (Option Int × Supply)
  | .unset => .ok (none, s)
  | .given n => if n < bound.limit then .ok (some n, s) else .error bound.fault
  | .argument =>
    match s.take with
    | .error e => .error e
    | .ok (.data (.int n), s) =>
      if -bound.limit ≤ n ∧ n < bound.limit then .ok (some n, s) else .error .size
    | .ok (.data (.bool b), s) => .ok (some (if b then 1 else 0), s)
    | .ok _ => .error .argument

/-! ### Showing arguments -/

/-- A sign, a mark for the base, and digits. -/
structure Numeral where
  negative : Bool
  mark : List Char
  digits : List Char

/-- A numeral of a whole number in a base, with at least `precision` digits. -/
def wholeNumeral (base : Nat) (mark : List Char) (precision : Nat) (n : Int) : Numeral :=
  let digits := Nat.toDigits base n.natAbs
  ⟨decide (n < 0), mark, List.replicate (precision - digits.length) '0' ++ digits⟩

/-- Digits with a point before the last `places` of them. -/
def pointBefore (places : Nat) (keepPoint : Bool) (digits : List Char) : List Char :=
  let digits := List.replicate (places + 1 - digits.length) '0' ++ digits
  let whole := digits.take (digits.length - places)
  let fraction := digits.drop (digits.length - places)
  whole ++ if fraction.isEmpty && !keepPoint then [] else '.' :: fraction

/-- No number has more digits than that, neither in all nor behind the point. -/
def mostDigits : Nat := 1100

/-- A fraction with a fixed number of places. -/
def fixedDigits (places : Nat) (keepPoint : Bool) (num den : Nat) : List Char :=
  let exact := min places mostDigits
  pointBefore exact keepPoint
    (Nat.toDigits 10 (Decimal.divideEven (num * Nat.pow 10 exact) den)) ++
      List.replicate (places - exact) '0'

/-- The digits of a fraction rounded to `places + 1` of them, and the power of ten of the first. -/
def leadingDigits (places num den : Nat) : Nat × Int :=
  if num = 0 then (0, 0)
  else
    let e := Binary64.decimalPoint num den - 1
    let shift : Int := places - e
    let n := Decimal.divideEven (num * Nat.pow 10 shift.toNat) (den * Nat.pow 10 (-shift).toNat)
    if n = Nat.pow 10 (places + 1) then (n / 10, e + 1) else (n, e)

/-- A power of ten behind digits. -/
def exponentText (e : Int) : List Char :=
  let digits := Nat.toDigits 10 e.natAbs
  'e' :: (if e < 0 then '-' else '+') :: (List.replicate (2 - digits.length) '0' ++ digits)

/-- A fraction with one digit before the point, a fixed number of places, and a power of ten. -/
def scientificDigits (places : Nat) (keepPoint : Bool) (num den : Nat) : List Char :=
  let exact := min places mostDigits
  let (n, e) := leadingDigits exact num den
  pointBefore exact keepPoint (Nat.toDigits 10 n) ++ List.replicate (places - exact) '0' ++
    exponentText e

/-- Digits without the zeros at the end of a fraction. -/
def withoutZeros (ds : List Char) : List Char :=
  if ds.contains '.' then
    let kept := (ds.reverse.dropWhile (· == '0')).reverse
    if kept.getLast? = some '.' then kept.dropLast else kept
  else ds

/-- A fraction with a number of significant digits, with a power of ten only where that is
shorter. -/
def generalDigits (significant : Nat) (keepPoint : Bool) (num den : Nat) : List Char :=
  let places := max (if keepPoint then significant else min significant mostDigits) 1 - 1
  let (n, e) := leadingDigits (min places mostDigits) num den
  let trim := if keepPoint then id else withoutZeros
  if -4 ≤ e ∧ e ≤ places then trim (fixedDigits (places - e).toNat keepPoint num den)
  else
    trim (pointBefore (min places mostDigits) keepPoint (Nat.toDigits 10 n) ++
      List.replicate (places - mostDigits) '0') ++ exponentText e

/-- A numeral of a real number. -/
def realNumeral (letter : Char) (precision : Nat) (keepPoint : Bool) : Binary64 → Numeral
  | .undefined => ⟨false, [], ['n', 'a', 'n']⟩
  | .infinite negative => ⟨negative, [], ['i', 'n', 'f']⟩
  | .finite negative mantissa exponent =>
    let (num, den) := Binary64.ratio mantissa exponent
    ⟨negative, [],
      if letter = 'f' then fixedDigits precision keepPoint num den
      else if letter = 'e' then scientificDigits precision keepPoint num den
      else generalDigits precision keepPoint num den⟩

/-- A number without what is behind its point. -/
def truncated : Binary64 → Except PatternFault Int
  | .finite negative mantissa exponent =>
    let (num, den) := Binary64.ratio mantissa exponent
    .ok (if negative then -((num / den : Nat) : Int) else (num / den : Nat))
  | .infinite _ => .error .size
  | .undefined => .error .undefined

/-- An argument as a whole number; only a decimal conversion cuts off fractions. -/
def wholeArgument (cutsOff : Bool) : Item → Except PatternFault Int
  | .data (.int n) => .ok n
  | .data (.bool b) => .ok (if b then 1 else 0)
  | .data (.real x) => if cutsOff then truncated x else .error .argument
  | .data .null | .data (.str _) | .data (.arr _) | .data (.obj _) | .value _ => .error .argument

/-- An argument as a real number. -/
def realArgument : Item → Except PatternFault Binary64
  | .data (.real x) => .ok x
  | .data (.int n) =>
    match Binary64.ofInt n with
    | .infinite _ => .error .size
    | x => .ok x
  | .data (.bool b) => .ok (.ofInt (if b then 1 else 0))
  | .data .null | .data (.str _) | .data (.arr _) | .data (.obj _) | .value _ => .error .argument

/-- A text with everything outside ASCII written by its number. -/
def inAscii (cs : List Char) : List Char :=
  cs.flatMap fun c => if c.toNat < 0x80 then [c] else
    (if c.toNat < 0x100 then "\\x" ++ Text.hex 2 c.toNat
      else if c.toNat < 0x10000 then "\\u" ++ Text.hex 4 c.toNat
      else "\\U" ++ Text.hex 8 c.toNat).toList

/-- A text as one character. -/
def singleCharacter (s : String) : Except PatternFault (List Char) :=
  if s.toList.length = 1 then .ok s.toList else .error .argument

/-- An argument as one character. -/
def characterArgument : Item → Except PatternFault (List Char)
  | .data (.str s) | .value (.text s) => singleCharacter s
  | .data (.int n) => if 0 ≤ n ∧ n < 0x110000 then .ok [Char.ofNat n.toNat] else .error .size
  | .data (.bool b) => .ok [if b then '\x01' else '\x00']
  | _ => .error .argument

/-- A text of more characters than that is too long. -/
def longest : Nat := 1073741824

/-- Characters padded with blanks to a width. -/
def padText (width : Nat) (left : Bool) (cs : List Char) : List Char :=
  let blanks := List.replicate (width - cs.length) ' '
  if left then cs ++ blanks else blanks ++ cs

namespace Conversion

/-- A flag is given. -/
def has (conversion : Conversion) (flag : Char) : Bool := conversion.flags.contains flag

/-- A numeral with its sign, padded to a width. -/
def padNumeral (conversion : Conversion) (width : Nat) (left : Bool) (n : Numeral) : List Char :=
  let front :=
    (if n.negative then ['-'] else if conversion.has '+' then ['+']
      else if conversion.has ' ' then [' '] else []) ++ n.mark
  if conversion.has '0' && !left then
    front ++ List.replicate (width - front.length - n.digits.length) '0' ++ n.digits
  else padText width left (front ++ n.digits)

/-- A whole number in the base that a letter stands for. -/
def whole (conversion : Conversion) (letter : Char) (precision : Nat) (v : Item) :
    Except PatternFault Numeral :=
  match wholeArgument (letter == 'd' || letter == 'i' || letter == 'u') v with
  | .error e => .error e
  | .ok n =>
    let mark (c : Char) : List Char := if conversion.has '#' then ['0', c] else []
    if 2147483644 < precision then .error .size
    else if longest < precision then .error .room
    else .ok <|
      if letter = 'x' then wholeNumeral 16 (mark 'x') precision n
      else if letter = 'X' then
        let numeral := wholeNumeral 16 (mark 'X') precision n
        { numeral with digits := numeral.digits.map Char.toUpper }
      else if letter = 'o' then wholeNumeral 8 (mark 'o') precision n
      else wholeNumeral 10 [] precision n

/-- A real number in the form that a letter stands for.  With the largest precision, one digit more
than that is none at all. -/
def realNumber (conversion : Conversion) (letter : Char) (precision : Nat) (v : Item) :
    Except PatternFault Numeral :=
  match realArgument v with
  | .error e => .error e
  | .ok x =>
    let form := letter.toLower
    let precision := if form = 'e' ∧ precision = 2147483647 then 0 else precision
    if longest < precision ∧ x.isFinite = true ∧ (form ≠ 'g' ∨ conversion.has '#' = true) then
      .error .room
    else
      let numeral := realNumeral form precision (conversion.has '#') x
      .ok <|
        if letter.isUpper then { numeral with digits := numeral.digits.map Char.toUpper }
        else numeral

/-- The characters of an argument that is shown as text. -/
def textOf (letter : Char) (v : Item) : List Char :=
  if letter = 's' then v.display.toList
  else if letter = 'r' then v.inspect.toList
  else inAscii v.inspect.toList

/-- An argument as a conversion with a letter shows it, before it is padded. -/
inductive Piece
  | text (cs : List Char)
  | number (n : Numeral)

/-- An argument as a conversion with a letter shows it, given the precision; `index` is where the
letter stands. -/
def piece (conversion : Conversion) (letter : Char) (index : Nat) (precision : Option Int)
    (v : Item) : Except PatternFault Piece :=
  if letter = 's' ∨ letter = 'r' ∨ letter = 'a' then
    let cs := textOf letter v
    .ok (.text (match precision with
      | none => cs
      | some n => cs.take n.toNat))
  else if letter = 'c' then
    match characterArgument v with
    | .error e => .error e
    | .ok cs => .ok (.text cs)
  else if ['d', 'i', 'u', 'x', 'X', 'o'].contains letter then
    match conversion.whole letter (precision.getD 0).toNat v with
    | .error e => .error e
    | .ok n => .ok (.number n)
  else if ['e', 'E', 'f', 'F', 'g', 'G'].contains letter then
    match conversion.realNumber letter (precision.getD 6).toNat v with
    | .error e => .error e
    | .ok n => .ok (.number n)
  else .error (.letter letter index)

/-- How many columns a width asks for, on the left or on the right; the least number of 64 bits has
no opposite. -/
def columnsOf (width : Int) : Nat :=
  if width < 0 then ((-width).bmod 18446744073709551616).toNat else width.toNat

/-- An argument as a conversion with a letter shows it, given width and precision; `index` is where
the letter stands. -/
def present (conversion : Conversion) (letter : Char) (index : Nat) (width precision : Option Int)
    (v : Item) : Except PatternFault (List Char) :=
  match conversion.piece letter index precision v with
  | .error e => .error e
  | .ok shown =>
    let left := conversion.has '-' || decide (width.getD 0 < 0)
    let columns := columnsOf (width.getD 0)
    if longest < columns then .error .room
    else
      match shown with
      | .text cs => .ok (padText columns left cs)
      | .number n => .ok (conversion.padNumeral columns left n)

/-- What a conversion becomes, and the arguments after it. -/
def fill (conversion : Conversion) (index : Nat) (s : Supply) :
    Except PatternFault (List Char × Supply) :=
  match s.select conversion.key with
  | .error e => .error e
  | .ok s =>
    match s.extent widthBound conversion.width with
    | .error e => .error e
    | .ok (width, s) =>
      match s.extent precisionBound conversion.precision with
      | .error e => .error e
      | .ok (precision, s) =>
        match conversion.letter with
        | none => .error .incomplete
        | some letter =>
          match s.take with
          | .error e => .error e
          | .ok (v, s) =>
            match conversion.present letter index width precision v with
            | .error e => .error e
            | .ok cs => .ok (cs, s)

end Conversion

/-! ### Filling patterns -/

/-- The rest of a pattern of `size` characters with its arguments, and the arguments after it. -/
def fillFrom (size : Nat) (cs : List Char) (s : Supply) :
    Except PatternFault (List Char × Supply) :=
  match cs with
  | [] => .ok ([], s)
  | c :: cs =>
    if c = '%' ∧ cs.head? ≠ some '%' then
      let rest := (Conversion.read cs).2
      match (Conversion.read cs).1.fill (size - rest.length - 1) s with
      | .error e => .error e
      | .ok (shown, s) =>
        match fillFrom size rest s with
        | .error e => .error e
        | .ok (tail, s) => .ok (shown ++ tail, s)
    else
      match fillFrom size (if c = '%' then cs.tail else cs) s with
      | .error e => .error e
      | .ok (tail, s) => .ok (c :: tail, s)
termination_by cs.length
decreasing_by
  · have := Conversion.length_read_le cs
    simp only [List.length_cons]
    omega
  · split <;> simp only [List.length_tail, List.length_cons] <;> omega

/-- A pattern with its arguments; without arguments it is an ordinary text. -/
def fill (pattern : String) (args : Arguments) : Except PatternFault String :=
  if args.isEmpty then .ok pattern
  else
    match fillFrom pattern.toList.length pattern.toList (.ofArguments args) with
    | .error e => .error e
    | .ok (cs, s) =>
      if s.next.isEmpty || s.mapping.isSome then .ok (String.ofList cs) else .error .argument

theorem fillFrom_of_not_mem (size : Nat) (cs : List Char) (s : Supply) (plain : '%' ∉ cs) :
    fillFrom size cs s = .ok (cs, s) := by
  induction cs with
  | nil => simp [fillFrom]
  | cons c cs ih =>
    simp only [List.mem_cons, not_or] at plain
    simp [fillFrom, Ne.symm plain.1, ih plain.2]

theorem fill_of_isEmpty (text : String) {args : Arguments} (none : args.isEmpty = true) :
    fill text args = .ok text := by
  simp [fill, none]

end ChangeControl.Log
