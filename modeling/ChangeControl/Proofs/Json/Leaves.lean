import ChangeControl.Json.Printer
import ChangeControl.Json.Reader
import Mathlib.Data.List.TakeWhile
/-!
Strings, numbers and words of JSON text.

Whatever is written for a leaf of a value is read back from the front of a text, and what follows it
is left.  A string ends with its quote and a word with its last letter; a number goes on as long as
it can, so that what follows must not be a part of one.

Main definitions:

* `Json.EndsNumber` — what may follow a number.

Main results:

* `Json.unit?_unitEscape` — four hexadecimal digits are the code unit that they were written for;
* `Json.stringBody_writeString` — **a string is read back**, however its characters are escaped;
* `Json.plain?_int` — **a whole number of any size is read back**.
-/

set_option autoImplicit false

namespace ChangeControl

/-! ### Hexadecimal digits -/

theorem Text.hex_of_lt {n : Nat} (small : n < 16) : (Text.hex 1 n).toList = [n.digitChar] := by
  simp [Text.hex, Nat.toDigits_of_lt_base small]

/-- The last digit of a number stands for the remainder, and the others for the quotient. -/
theorem Text.hex_succ {width : Nat} (pos : 0 < width) (n : Nat) :
    (Text.hex (width + 1) n).toList = (Text.hex width (n / 16)).toList ++ [(n % 16).digitChar] := by
  rcases Nat.lt_or_ge n 16 with small | large
  · have zeros : List.replicate width '0' = List.replicate (width - 1) '0' ++ ['0'] := by
      rw [← List.replicate_succ', Nat.sub_add_cancel pos]
    simp [Text.hex, Nat.toDigits_of_lt_base small, Nat.div_eq_of_lt small,
      Nat.mod_eq_of_lt small, zeros]
  · simp [Text.hex, Nat.toDigits_of_base_le (by decide) large]

theorem Text.hex_four {n : Nat} (bound : n < 0x10000) :
    (Text.hex 4 n).toList = [(n / 16 / 16 / 16).digitChar, (n / 16 / 16 % 16).digitChar,
      (n / 16 % 16).digitChar, (n % 16).digitChar] := by
  rw [Text.hex_succ (by decide), Text.hex_succ (by decide), Text.hex_succ (by decide),
    Text.hex_of_lt (by omega)]
  rfl

namespace Json

theorem hexDigit?_digitChar : ∀ d < 16, hexDigit? d.digitChar = some d := by decide

/-! ### Code units -/

/-- Four hexadecimal digits are the code unit that they were written for. -/
theorem unit?_unitEscape {n : Nat} (bound : n < 0x10000) (rest : List Char) :
    unit? (unitEscape n ++ rest) = some (n, rest) := by
  have value :
      ((n / 16 / 16 / 16 * 16 + n / 16 / 16 % 16) * 16 + n / 16 % 16) * 16 + n % 16 = n := by
    omega
  rw [unitEscape, Text.hex_four bound]
  simp only [List.cons_append, List.nil_append, unit?, hexUnit?]
  rw [hexDigit?_digitChar _ (by omega), hexDigit?_digitChar _ (Nat.mod_lt _ (by decide)),
    hexDigit?_digitChar _ (Nat.mod_lt _ (by decide)),
    hexDigit?_digitChar _ (Nat.mod_lt _ (by decide))]
  simp [value]

theorem toNat_lt_of_char (c : Char) : c.toNat < 0x110000 := by
  have := c.valid
  simp only [UInt32.isValidChar, Nat.isValidChar] at this
  simp only [Char.toNat]
  omega

/-- No character is half of a surrogate pair. -/
theorem not_surrogate (c : Char) : ¬ (0xd800 ≤ c.toNat ∧ c.toNat < 0xe000) := by
  have := c.valid
  simp only [UInt32.isValidChar, Nat.isValidChar] at this
  simp only [Char.toNat]
  omega

theorem unitChar_toNat (c : Char) : unitChar c.toNat = c := by
  rw [unitChar, if_neg (not_surrogate c), Char.ofNat_toNat]

/-- The two surrogates of a code point above the first plane are its pair. -/
theorem pairChar_toNat {c : Char} (above : 0x10000 ≤ c.toNat) :
    pairChar (0xd800 + (c.toNat - 0x10000) / 0x400) (0xdc00 + (c.toNat - 0x10000) % 0x400) = c := by
  have value : 0x10000 + (0xd800 + (c.toNat - 0x10000) / 0x400 - 0xd800) * 0x400 +
      (0xdc00 + (c.toNat - 0x10000) % 0x400 - 0xdc00) = c.toNat := by
    omega
  rw [pairChar, value, Char.ofNat_toNat]

/-! ### Characters of a string -/

/-- Some characters that are read as the character `c` of a string, whatever follows them. -/
def Spells (cs : List Char) (c : Char) : Prop :=
  ∃ d ds, cs = d :: ds ∧ d ≠ '"' ∧ ∀ rest, stringChar? d (ds ++ rest) = some (c, rest)

theorem spells_unitEscape {c : Char} (plane : c.toNat < 0x10000) :
    Spells (unitEscape c.toNat) c := by
  refine ⟨'\\', (unitEscape c.toNat).tail, rfl, by decide, fun rest => ?_⟩
  have text : '\\' :: ((unitEscape c.toNat).tail ++ rest) = unitEscape c.toNat ++ rest := rfl
  -- no low surrogate is looked for, because the code unit is no high one
  have single : ∀ low,
      ¬ (0xd800 ≤ c.toNat ∧ c.toNat < 0xdc00 ∧ 0xdc00 ≤ low ∧ low < 0xe000) := by
    have := not_surrogate c
    omega
  unfold stringChar?
  rw [if_pos rfl, text, unit?_unitEscape plane]
  cases h : unit? rest with
  | none => simp [h, unitChar_toNat]
  | some low => simp [h, single, unitChar_toNat]

theorem spells_pair (high low : Nat)
    (pair : 0xd800 ≤ high ∧ high < 0xdc00 ∧ 0xdc00 ≤ low ∧ low < 0xe000) :
    Spells (unitEscape high ++ unitEscape low) (pairChar high low) := by
  refine ⟨'\\', (unitEscape high).tail ++ unitEscape low, rfl, by decide, fun rest => ?_⟩
  have text : '\\' :: ((unitEscape high).tail ++ unitEscape low ++ rest) =
      unitEscape high ++ (unitEscape low ++ rest) := by
    rw [List.append_assoc]
    rfl
  unfold stringChar?
  rw [if_pos rfl, text, unit?_unitEscape (by omega)]
  simp only
  rw [unit?_unitEscape (by omega)]
  simp only
  rw [if_pos pair]

theorem spells_surrogates {c : Char} (above : 0x10000 ≤ c.toNat) :
    Spells (unitEscape (0xd800 + (c.toNat - 0x10000) / 0x400) ++
      unitEscape (0xdc00 + (c.toNat - 0x10000) % 0x400)) c := by
  have bound := toNat_lt_of_char c
  have spells := spells_pair (0xd800 + (c.toNat - 0x10000) / 0x400)
    (0xdc00 + (c.toNat - 0x10000) % 0x400) (by omega)
  rwa [pairChar_toNat above] at spells

theorem spells_numberEscape (c : Char) : Spells (numberEscape c) c := by
  rw [numberEscape]
  split
  · next plane => exact spells_unitEscape plane
  · next above => exact spells_surrogates (Nat.not_lt.1 above)

/-- A backslash and the letter of a short escape. -/
theorem spells_short {c d : Char} (letter : d ≠ 'u') (short : shortEscape? d = some c) :
    Spells ['\\', d] c := by
  refine ⟨'\\', [d], rfl, by decide, fun rest => ?_⟩
  have none : unit? ('\\' :: ([d] ++ rest)) = none := by
    rw [unit?]
    rintro a b c e after h
    simp only [List.cons_append, List.nil_append, List.cons.injEq] at h
    exact letter h.2.1
  unfold stringChar?
  rw [if_pos rfl, none]
  simp [short]

/-- However a character is escaped, it is read back. -/
theorem spells_escapeChar (ascii : Bool) (c : Char) : Spells (escapeChar ascii c) c := by
  unfold escapeChar
  split_ifs with quote backslash feed carriage tab back form control outside
  · exact spells_short (d := '"') (by decide) (by rw [quote]; rfl)
  · exact spells_short (d := '\\') (by decide) (by rw [backslash]; rfl)
  · exact spells_short (d := 'n') (by decide) (feed ▸ rfl)
  · exact spells_short (d := 'r') (by decide) (carriage ▸ rfl)
  · exact spells_short (d := 't') (by decide) (tab ▸ rfl)
  · exact spells_short (d := 'b') (by decide) (back ▸ rfl)
  · exact spells_short (d := 'f') (by decide) (form ▸ rfl)
  · exact spells_numberEscape c
  · exact spells_numberEscape c
  · refine ⟨c, [], rfl, quote, fun rest => ?_⟩
    unfold stringChar?
    rw [if_neg backslash, if_neg control]
    rfl

/-! ### Strings -/

theorem stringBody_quote (done rest : List Char) :
    stringBody done ('"' :: rest) = some (done.reverse, rest) := by
  rw [stringBody, if_pos rfl]

theorem stringBody_of_spells {cs : List Char} {c : Char} (spells : Spells cs c)
    (done rest : List Char) : stringBody done (cs ++ rest) = stringBody (c :: done) rest := by
  obtain ⟨d, ds, rfl, other, reads⟩ := spells
  rw [List.cons_append, stringBody, if_neg other]
  split
  · next none =>
    rw [reads] at none
    cases none
  · next e after some =>
    rw [reads] at some
    cases some
    rfl

theorem stringBody_flatMap (ascii : Bool) (s done rest : List Char) :
    stringBody done (s.flatMap (escapeChar ascii) ++ '"' :: rest) =
      some (done.reverse ++ s, rest) := by
  induction s generalizing done with
  | nil => simpa using stringBody_quote done rest
  | cons c s ih =>
    rw [List.flatMap_cons, List.append_assoc, stringBody_of_spells (spells_escapeChar ascii c), ih]
    simp

/-- **A string is read back**, from after the quote that opens it. -/
theorem stringBody_writeString (ascii : Bool) (s : String) (rest : List Char) :
    stringBody [] ((writeString ascii s).tail ++ rest) = some (s.toList, rest) := by
  have text : (writeString ascii s).tail ++ rest =
      s.toList.flatMap (escapeChar ascii) ++ '"' :: rest := by
    simp [writeString]
  rw [text, stringBody_flatMap]
  rfl

/-! ### Numbers -/

/-- What follows a number: no digit, no point and no exponent. -/
def EndsNumber (rest : List Char) : Prop :=
  ∀ c ∈ rest.head?, c.isDigit = false ∧ c ≠ '.' ∧ c ≠ 'e' ∧ c ≠ 'E'

variable {rest : List Char}

theorem fractionDigits?_of_endsNumber (ends : EndsNumber rest) : fractionDigits? rest = none := by
  cases rest with
  | nil => rfl
  | cons c cs =>
    have point := (ends c rfl).2.1
    rw [fractionDigits?]
    rintro cs' h
    exact point (List.cons.inj h).1

theorem exponentPart?_of_endsNumber (ends : EndsNumber rest) : exponentPart? rest = none := by
  cases rest with
  | nil => rfl
  | cons c cs =>
    obtain ⟨-, -, small, capital⟩ := ends c rfl
    simp [exponentPart?, small, capital]

theorem digitsValue_toDigits (n : Nat) : digitsValue (Nat.toDigits 10 n) = n := by
  have value := Nat.ofDigitChars_ten_toDigits (n := n)
  rw [Nat.ofDigitChars_eq_foldl] at value
  simp only [digitsValue, Nat.mul_comm _ 10]
  exact value

/-- The first digit of a number is zero for zero only. -/
theorem exists_toDigits (n : Nat) :
    ∃ c ds, Nat.toDigits 10 n = c :: ds ∧ (c = '0' → ds = []) := by
  induction n using Nat.strongRecOn with
  | ind n ih =>
    rcases Nat.lt_or_ge n 10 with small | large
    · exact ⟨n.digitChar, [], Nat.toDigits_of_lt_base small, fun _ => rfl⟩
    · obtain ⟨c, ds, digits, zero⟩ := ih (n / 10) (by omega)
      refine ⟨c, ds ++ [(n % 10).digitChar], ?_, ?_⟩
      · rw [Nat.toDigits_of_base_le (by decide) large, digits, List.cons_append]
      · intro h
        -- a quotient whose digits are a zero alone is zero
        have quotient := digitsValue_toDigits (n / 10)
        rw [digits, zero h, h] at quotient
        simp only [digitsValue, List.foldl_cons, List.foldl_nil] at quotient
        have : n / 10 = 0 := quotient.symm
        omega

theorem wholeDigits?_toDigits (n : Nat) (ends : EndsNumber rest) :
    wholeDigits? (Nat.toDigits 10 n ++ rest) = some (Nat.toDigits 10 n, rest) := by
  obtain ⟨c, ds, digits, zero⟩ := exists_toDigits n
  have isDigit : ∀ d ∈ c :: ds, d.isDigit = true := fun d mem =>
    Nat.isDigit_of_mem_toDigits (by decide) (by decide) (digits ▸ mem)
  have stops : rest.takeWhile Char.isDigit = [] ∧ rest.dropWhile Char.isDigit = rest := by
    cases rest with
    | nil => exact ⟨rfl, rfl⟩
    | cons d cs => simp [(ends d rfl).1]
  have run : ∀ d ∈ ds, d.isDigit = true := fun d mem => isDigit d (List.mem_cons_of_mem c mem)
  rw [digits, List.cons_append, wholeDigits?]
  split
  · next first =>
    rw [zero first, first]
    rfl
  · rw [if_pos (isDigit c List.mem_cons_self), List.takeWhile_append_of_pos run,
      List.dropWhile_append_of_pos run, stops.1, stops.2, List.append_nil]

theorem magnitude?_toDigits (negative : Bool) (n : Nat) (ends : EndsNumber rest) :
    magnitude? negative (Nat.toDigits 10 n ++ rest) =
      some (.int (if negative then -(n : Int) else n), rest) := by
  simp [magnitude?, wholeDigits?_toDigits n ends, fractionDigits?_of_endsNumber ends,
    exponentPart?_of_endsNumber ends, digitsValue_toDigits]

/-- A text that begins with a digit or a minus sign begins with no word. -/
theorem plain?_eq_number? {c : Char} (cs : List Char) (first : c.isDigit = true ∨ c = '-') :
    plain? (c :: cs) = number? (c :: cs) := by
  have other : c ≠ 'n' ∧ c ≠ 't' ∧ c ≠ 'f' ∧ c ≠ 'N' ∧ c ≠ 'I' := by
    refine ⟨?_, ?_, ?_, ?_, ?_⟩ <;>
    · rintro rfl
      exact absurd first (by decide)
  obtain ⟨n, t, f, nan, infinity⟩ := other
  simp [plain?, wordValues, afterWord?, n.symm, t.symm, f.symm, nan.symm, infinity.symm]

theorem plain?_toDigits (n : Nat) (ends : EndsNumber rest) :
    plain? (Nat.toDigits 10 n ++ rest) = some (.int n, rest) := by
  have value := magnitude?_toDigits false n ends
  obtain ⟨c, ds, digits, -⟩ := exists_toDigits n
  have first : c.isDigit = true :=
    Nat.isDigit_of_mem_toDigits (by decide) (by decide) (digits ▸ List.mem_cons_self)
  rw [digits, List.cons_append] at value ⊢
  rw [plain?_eq_number? _ (.inl first)]
  unfold number?
  split
  · next sign =>
    rw [(List.cons.inj sign).1] at first
    exact absurd first (by decide)
  · exact value

theorem plain?_minus_toDigits (n : Nat) (ends : EndsNumber rest) :
    plain? ('-' :: (Nat.toDigits 10 n ++ rest)) = some (.int (-(n : Int)), rest) := by
  have value := magnitude?_toDigits true n ends
  obtain ⟨c, ds, digits, -⟩ := exists_toDigits n
  have other : 'I' ≠ c := by
    rintro rfl
    have first : 'I'.isDigit = true :=
      Nat.isDigit_of_mem_toDigits (by decide) (by decide) (digits ▸ List.mem_cons_self)
    exact absurd first (by decide)
  rw [digits, List.cons_append] at value ⊢
  rw [plain?_eq_number? _ (.inr rfl)]
  simpa [number?, afterWord?, other] using value

theorem toList_toString_ofNat (m : Nat) :
    (toString (Int.ofNat m)).toList = Nat.toDigits 10 m := by
  rw [show toString (Int.ofNat m) = toString m from rfl, Nat.toString_eq_ofList_toDigits,
    String.toList_ofList]

theorem toList_toString_negSucc (m : Nat) :
    (toString (Int.negSucc m)).toList = '-' :: Nat.toDigits 10 (m + 1) := by
  rw [show toString (Int.negSucc m) = "-" ++ toString (m + 1) from rfl,
    Nat.toString_eq_ofList_toDigits]
  simp

/-- **A whole number of any size is read back.** -/
theorem plain?_int (n : Int) (ends : EndsNumber rest) :
    plain? ((toString n).toList ++ rest) = some (.int n, rest) := by
  cases n with
  | ofNat m =>
    rw [toList_toString_ofNat]
    exact plain?_toDigits m ends
  | negSucc m =>
    rw [toList_toString_negSucc]
    exact plain?_minus_toDigits (m + 1) ends

/-- A whole number begins with a digit or a minus sign. -/
theorem exists_toString_int (n : Int) :
    ∃ c cs, (toString n).toList = c :: cs ∧ (c.isDigit = true ∨ c = '-') := by
  cases n with
  | ofNat m =>
    obtain ⟨c, ds, digits, -⟩ := exists_toDigits m
    refine ⟨c, ds, by rw [toList_toString_ofNat, digits], .inl ?_⟩
    exact Nat.isDigit_of_mem_toDigits (by decide) (by decide) (digits ▸ List.mem_cons_self)
  | negSucc m => exact ⟨'-', _, toList_toString_negSucc m, .inr rfl⟩

theorem plain?_null (rest : List Char) :
    plain? (['n', 'u', 'l', 'l'] ++ rest) = some (.null, rest) := rfl

theorem plain?_bool (b : Bool) (rest : List Char) :
    plain? ((if b then ['t', 'r', 'u', 'e'] else ['f', 'a', 'l', 's', 'e']) ++ rest) =
      some (.bool b, rest) := by
  cases b <;> rfl

end Json

end ChangeControl
