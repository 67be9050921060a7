import ChangeControl.Json
/-!
Text as JSON values.

A text is read from the left; what is read comes with the characters that are left and the fact
that they are fewer, which bounds the recursion.  Blanks are space, tab, line feed and carriage
return.  Of two fields with one name the later value counts and the earlier place.  Besides the
numbers of the standard, the three words for the infinities and for an undefined number are read.

Main definitions:

* `Json.stringBody` — a string from after its opening quote;
* `Json.number?` — a number;
* `Json.value?` — a value at the front of a text;
* `Json.read?` — the value that a whole text stands for.
-/

set_option autoImplicit false

namespace ChangeControl.Json

open Decimal (Binary64)

/-- Blank characters between the parts of a value. -/
def isBlank (c : Char) : Bool := c == ' ' || c == '\t' || c == '\n' || c == '\r'

/-- The text without the blanks in front. -/
def skipBlanks (cs : List Char) : List Char := cs.dropWhile isBlank

theorem length_skipBlanks_le (cs : List Char) : (skipBlanks cs).length ≤ cs.length :=
  (List.dropWhile_suffix _).length_le

/-! ### Strings -/

/-- The value of a hexadecimal digit. -/
def hexDigit? (c : Char) : Option Nat :=
  if c.isDigit then some (c.toNat - 48)
  else if 'a' ≤ c && c ≤ 'f' then some (c.toNat - 87)
  else if 'A' ≤ c && c ≤ 'F' then some (c.toNat - 55)
  else none

/-- The number that four hexadecimal digits stand for. -/
def hexUnit? (a b c d : Char) : Option Nat := do
  let a ← hexDigit? a
  let b ← hexDigit? b
  let c ← hexDigit? c
  let d ← hexDigit? d
  return ((a * 16 + b) * 16 + c) * 16 + d

/-- The code unit at the front of a text, written as an escape, and what follows it. -/
def unit? : List Char → Option (Nat × List Char)
  | '\\' :: 'u' :: a :: b :: c :: d :: rest => (hexUnit? a b c d).map (·, rest)
  | _ => none

/-- The character that a code unit stands for; half of a surrogate pair is replaced. -/
def unitChar (unit : Nat) : Char :=
  if 0xd800 ≤ unit ∧ unit < 0xe000 then '\ufffd' else Char.ofNat unit

/-- The character of a surrogate pair. -/
def pairChar (high low : Nat) : Char :=
  Char.ofNat (0x10000 + (high - 0xd800) * 0x400 + (low - 0xdc00))

/-- The character after a backslash, if it is one of the short escapes. -/
def shortEscape? (c : Char) : Option Char :=
  match c with
  | '"' => some '"'
  | '\\' => some '\\'
  | '/' => some '/'
  | 'b' => some '\x08'
  | 'f' => some '\x0c'
  | 'n' => some '\n'
  | 'r' => some '\r'
  | 't' => some '\t'
  | _ => none

/-- The first character of a string's body, and what follows it: a character that stands for
itself, a short escape, a code unit or a pair of them.  A control character, or a backslash that
starts no escape, is none of these. -/
def stringChar? (c : Char) (cs : List Char) : Option (Char × List Char) :=
  if c = '\\' then
    match unit? (c :: cs) with
    | some (high, rest) =>
      match unit? rest with
      | some (low, after) =>
        if 0xd800 ≤ high ∧ high < 0xdc00 ∧ 0xdc00 ≤ low ∧ low < 0xe000 then
          some (pairChar high low, after)
        else some (unitChar high, rest)
      | none => some (unitChar high, rest)
    | none =>
      match cs with
      | [] => none
      | d :: rest => (shortEscape? d).map (·, rest)
  else if c.toNat < 0x20 then none
  else some (c, cs)

theorem length_of_unit? {cs rest : List Char} {n : Nat} (h : unit? cs = some (n, rest)) :
    rest.length < cs.length := by
  unfold unit? at h
  split at h
  · simp only [Option.map_eq_some_iff, Prod.mk.injEq] at h
    obtain ⟨_, _, _, rfl⟩ := h
    simp
    omega
  · simp at h

theorem length_of_stringChar? {c d : Char} {cs rest : List Char}
    (h : stringChar? c cs = some (d, rest)) : rest.length ≤ cs.length := by
  unfold stringChar? at h
  split at h
  · split at h
    · next high middle first =>
      have := length_of_unit? first
      simp only [List.length_cons] at this
      split at h
      · next low after second =>
        have := length_of_unit? second
        split at h
        · simp only [Option.some.injEq, Prod.mk.injEq] at h
          obtain ⟨_, rfl⟩ := h
          omega
        · simp only [Option.some.injEq, Prod.mk.injEq] at h
          obtain ⟨_, rfl⟩ := h
          omega
      · simp only [Option.some.injEq, Prod.mk.injEq] at h
        obtain ⟨_, rfl⟩ := h
        omega
    · split at h
      · simp at h
      · simp only [Option.map_eq_some_iff, Prod.mk.injEq] at h
        obtain ⟨_, _, _, rfl⟩ := h
        simp
  · split at h
    · simp at h
    · simp only [Option.some.injEq, Prod.mk.injEq] at h
      obtain ⟨_, rfl⟩ := h
      simp

/-- The characters of a string from after its opening quote, in front of the reverse of `done`, and
what follows the closing quote. -/
def stringBody (done : List Char) (cs : List Char) : Option (List Char × List Char) :=
  match cs with
  | [] => none
  | c :: rest =>
    if c = '"' then some (done.reverse, rest)
    else
      match h : stringChar? c rest with
      | none => none
      | some (d, after) =>
        have := length_of_stringChar? h
        stringBody (d :: done) after
termination_by cs.length
decreasing_by simp only [List.length_cons]; omega

theorem length_of_stringBody {done cs s rest : List Char}
    (h : stringBody done cs = some (s, rest)) : rest.length < cs.length := by
  fun_induction stringBody done cs with
  | case1 => simp at h
  | case2 done rest' =>
    simp only [Option.some.injEq, Prod.mk.injEq] at h
    obtain ⟨_, rfl⟩ := h
    simp
  | case3 => simp at h
  | case4 done c rest' _ d after read shorter ih =>
    have := ih h
    simp only [List.length_cons]
    omega

/-! ### Numbers -/

/-- The number that some digits stand for. -/
def digitsValue (ds : List Char) : Nat := ds.foldl (fun n c => n * 10 + (c.toNat - 48)) 0

/-- The digits before the point: one zero, or digits that start with another one. -/
def wholeDigits? (cs : List Char) : Option (List Char × List Char) :=
  match cs with
  | [] => none
  | c :: rest =>
    if c = '0' then some (['0'], rest)
    else if c.isDigit then some (c :: rest.takeWhile Char.isDigit, rest.dropWhile Char.isDigit)
    else none

/-- A point and the digits after it. -/
def fractionDigits? (cs : List Char) : Option (List Char × List Char) :=
  match cs with
  | '.' :: rest =>
    let ds := rest.takeWhile Char.isDigit
    if ds.isEmpty then none else some (ds, rest.dropWhile Char.isDigit)
  | _ => none

/-- Whether a minus sign comes first, and the text after the sign, if any. -/
def takeSign : List Char → Bool × List Char
  | '-' :: rest => (true, rest)
  | '+' :: rest => (false, rest)
  | cs => (false, cs)

theorem length_takeSign_le (cs : List Char) : (takeSign cs).2.length ≤ cs.length := by
  unfold takeSign
  split <;> simp

/-- The letter `e`, a sign or none, and digits. -/
def exponentPart? (cs : List Char) : Option (Int × List Char) :=
  match cs with
  | [] => none
  | e :: rest =>
    if e = 'e' ∨ e = 'E' then
      let signed := takeSign rest
      let ds := signed.2.takeWhile Char.isDigit
      if ds.isEmpty then none
      else
        let n : Int := digitsValue ds
        some (if signed.1 then -n else n, signed.2.dropWhile Char.isDigit)
    else none

/-- A number without its sign, at the front of a text. -/
def magnitude? (negative : Bool) (cs : List Char) : Option (Json × List Char) :=
  match wholeDigits? cs with
  | none => none
  | some (whole, rest) =>
    match fractionDigits? rest, exponentPart? rest with
    | none, none =>
      let n : Int := digitsValue whole
      some (.int (if negative then -n else n), rest)
    | none, some (e, after) => some (.real (.ofDecimal negative (digitsValue whole) e), after)
    | some (ds, after), _ =>
      let digits := digitsValue (whole ++ ds)
      match exponentPart? after with
      | none => some (.real (.ofDecimal negative digits (-(ds.length : Int))), after)
      | some (e, last) => some (.real (.ofDecimal negative digits (e - ds.length)), last)

/-- The rest of a text after the word `word`. -/
def afterWord? (word : String) (cs : List Char) : Option (List Char) :=
  if word.toList.isPrefixOf cs then some (cs.drop word.length) else none

/-- A number at the front of a text. -/
def number? (cs : List Char) : Option (Json × List Char) :=
  match cs with
  | '-' :: rest =>
    match afterWord? "Infinity" rest with
    | some after => some (.real (.infinite true), after)
    | none => magnitude? true rest
  | _ => magnitude? false cs

/-- The words that are values. -/
def wordValues : List (String × Json) :=
  [("null", .null), ("true", .bool true), ("false", .bool false),
    ("NaN", .real .undefined), ("Infinity", .real (.infinite false))]

/-- A word or a number at the front of a text. -/
def plain? (cs : List Char) : Option (Json × List Char) :=
  match wordValues.findSome? fun (word, v) => (afterWord? word cs).map (v, ·) with
  | some r => some r
  | none => number? cs

theorem length_of_wholeDigits? {cs ds rest : List Char} (h : wholeDigits? cs = some (ds, rest)) :
    rest.length < cs.length := by
  unfold wholeDigits? at h
  split at h
  · simp at h
  · next c tail =>
    have := (List.dropWhile_suffix (l := tail) Char.isDigit).length_le
    split at h
    · simp only [Option.some.injEq, Prod.mk.injEq] at h
      obtain ⟨_, rfl⟩ := h
      simp
    · split at h
      · simp only [Option.some.injEq, Prod.mk.injEq] at h
        obtain ⟨_, rfl⟩ := h
        simp only [List.length_cons]
        omega
      · simp at h

theorem length_of_fractionDigits? {cs ds rest : List Char}
    (h : fractionDigits? cs = some (ds, rest)) : rest.length < cs.length := by
  unfold fractionDigits? at h
  split at h
  · next tail =>
    have := (List.dropWhile_suffix (l := tail) Char.isDigit).length_le
    simp only [Option.ite_none_left_eq_some, Option.some.injEq, Prod.mk.injEq] at h
    obtain ⟨_, _, rfl⟩ := h
    simp only [List.length_cons]
    omega
  · simp at h

theorem length_of_exponentPart? {cs rest : List Char} {e : Int}
    (h : exponentPart? cs = some (e, rest)) : rest.length < cs.length := by
  unfold exponentPart? at h
  split at h
  · simp at h
  · next c tail =>
    split at h
    · have := length_takeSign_le tail
      simp only [Option.ite_none_left_eq_some, Option.some.injEq, Prod.mk.injEq] at h
      obtain ⟨_, _, rfl⟩ := h
      refine Nat.lt_of_le_of_lt (List.dropWhile_suffix _).length_le ?_
      simp only [List.length_cons]
      omega
    · simp at h

theorem length_of_magnitude? {negative : Bool} {cs rest : List Char} {v : Json}
    (h : magnitude? negative cs = some (v, rest)) : rest.length < cs.length := by
  unfold magnitude? at h
  split at h
  · simp at h
  · next ds tail whole =>
    have := length_of_wholeDigits? whole
    split at h
    · simp only [Option.some.injEq, Prod.mk.injEq] at h
      obtain ⟨_, rfl⟩ := h
      exact this
    · next exponent =>
      have := length_of_exponentPart? exponent
      simp only [Option.some.injEq, Prod.mk.injEq] at h
      obtain ⟨_, rfl⟩ := h
      omega
    · next fraction =>
      have := length_of_fractionDigits? fraction
      simp only at h
      split at h
      · simp only [Option.some.injEq, Prod.mk.injEq] at h
        obtain ⟨_, rfl⟩ := h
        omega
      · next exponent =>
        have := length_of_exponentPart? exponent
        simp only [Option.some.injEq, Prod.mk.injEq] at h
        obtain ⟨_, rfl⟩ := h
        omega

theorem length_of_afterWord? {word : String} {cs rest : List Char} (nonempty : 0 < word.length)
    (h : afterWord? word cs = some rest) : rest.length < cs.length := by
  simp only [afterWord?, Option.ite_none_right_eq_some, Option.some.injEq] at h
  obtain ⟨front, rfl⟩ := h
  have := (List.isPrefixOf_iff_prefix.1 front).length_le
  rw [String.length_toList] at this
  rw [List.length_drop]
  omega

theorem length_of_number? {cs rest : List Char} {v : Json} (h : number? cs = some (v, rest)) :
    rest.length < cs.length := by
  unfold number? at h
  split at h
  · simp only [List.length_cons]
    split at h
    · next word =>
      have := length_of_afterWord? (by decide) word
      simp only [Option.some.injEq, Prod.mk.injEq] at h
      obtain ⟨_, rfl⟩ := h
      omega
    · have := length_of_magnitude? h
      omega
  · exact length_of_magnitude? h

theorem length_of_plain? {cs rest : List Char} {v : Json} (h : plain? cs = some (v, rest)) :
    rest.length < cs.length := by
  unfold plain? at h
  split at h
  · next r found =>
    obtain ⟨w, mem, word⟩ := List.exists_of_findSome?_eq_some found
    simp only [Option.map_eq_some_iff] at word
    obtain ⟨after, word, eq⟩ := word
    simp only [Option.some.injEq] at h
    subst h
    simp only [Prod.mk.injEq] at eq
    obtain ⟨_, rfl⟩ := eq
    refine length_of_afterWord? ?_ word
    simp only [wordValues, List.mem_cons, List.not_mem_nil, or_false] at mem
    rcases mem with rfl | rfl | rfl | rfl | rfl <;> decide
  · exact length_of_number? h

/-! ### Values -/

/-- A value read from the front of fewer than `bound` characters, and what follows it. -/
structure Read (α : Type) (bound : Nat) where
  value : α
  rest : List Char
  shorter : rest.length < bound

/-- A string and what follows it, read from after the opening quote. -/
def string? (cs : List Char) : Option (Read String cs.length) :=
  match h : stringBody [] cs with
  | none => none
  | some (s, rest) => some ⟨String.ofList s, rest, length_of_stringBody h⟩

/-- The rest after the character `c`, which comes next after blanks. -/
def afterChar? (c : Char) (cs : List Char) :
    Option { rest : List Char // rest.length < cs.length } :=
  match h : skipBlanks cs with
  | [] => none
  | d :: rest =>
    if d = c then
      some ⟨rest, by
        have := length_skipBlanks_le cs
        rw [h, List.length_cons] at this
        omega⟩
    else none

mutual

/-- A value at the front of a text; blanks may come first. -/
def value? (cs : List Char) : Option (Read Json cs.length) :=
  match h : skipBlanks cs with
  | [] => none
  | c :: rest =>
    have : rest.length < cs.length := by
      have := length_skipBlanks_le cs
      rw [h, List.length_cons] at this
      omega
    if c = '"' then
      match string? rest with
      | none => none
      | some s => some ⟨.str s.value, s.rest, Nat.lt_trans s.shorter this⟩
    else if c = '[' then
      match afterChar? ']' rest with
      | some after => some ⟨.arr [], after.1, Nat.lt_trans after.2 this⟩
      | none =>
        match items? rest with
        | none => none
        | some items => some ⟨.arr items.value, items.rest, Nat.lt_trans items.shorter this⟩
    else if c = '\x7b' then
      match afterChar? '\x7d' rest with
      | some after => some ⟨.obj [], after.1, Nat.lt_trans after.2 this⟩
      | none =>
        match fields? [] rest with
        | none => none
        | some fields => some ⟨.obj fields.value, fields.rest, Nat.lt_trans fields.shorter this⟩
    else
      match plain : plain? (c :: rest) with
      | none => none
      | some (v, after) => some ⟨v, after, by
          have := length_of_plain? plain
          simp only [List.length_cons] at this
          omega⟩
termination_by 2 * cs.length
decreasing_by all_goals omega

/-- The items of an array up to its closing bracket. -/
def items? (cs : List Char) : Option (Read (List Json) cs.length) :=
  match value? cs with
  | none => none
  | some first =>
    have := first.shorter
    match afterChar? ',' first.rest with
    | some rest =>
      have := rest.2
      match items? rest.1 with
      | none => none
      | some more =>
        some ⟨first.value :: more.value, more.rest, by
          have := more.shorter
          omega⟩
    | none =>
      match afterChar? ']' first.rest with
      | some rest => some ⟨[first.value], rest.1, Nat.lt_trans rest.2 first.shorter⟩
      | none => none
termination_by 2 * cs.length + 1
decreasing_by all_goals omega

/-- The fields of an object up to its closing brace, after the fields `done`. -/
def fields? (done : List (String × Json)) (cs : List Char) :
    Option (Read (List (String × Json)) cs.length) :=
  match afterChar? '"' cs with
  | none => none
  | some opened =>
    have := opened.2
    match string? opened.1 with
    | none => none
    | some key =>
      have := key.shorter
      match afterChar? ':' key.rest with
      | none => none
      | some colon =>
        have := colon.2
        match value? colon.1 with
        | none => none
        | some v =>
          have := v.shorter
          let all := setField key.value v.value done
          match afterChar? ',' v.rest with
          | some rest =>
            have := rest.2
            match fields? all rest.1 with
            | none => none
            | some more =>
              some ⟨more.value, more.rest, by
                have := more.shorter
                omega⟩
          | none =>
            match afterChar? '\x7d' v.rest with
            | some rest => some ⟨all, rest.1, by
                have := rest.2
                omega⟩
            | none => none
termination_by 2 * cs.length
decreasing_by all_goals omega

end

/-- The value that a whole text stands for. -/
def read? (text : String) : Option Json :=
  match value? text.toList with
  | none => none
  | some v => if (skipBlanks v.rest).isEmpty then some v.value else none

end ChangeControl.Json
