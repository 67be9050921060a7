import ChangeControl.Proofs.Json.Leaves
/-!
JSON text read back.

A reader carries the proof that it uses characters up, which has no say in what is read: the
*outcome* of a reading is the value and the characters that are left, or nothing.  For every part of
the grammar there is one equation between its outcome and those of the parts it calls.

A value is read back from the front of any text in which it stands after blanks and before something
that does not go on with a number.  This is proved for values without numbers that are not whole and
without a name that an object has twice, and for every style that writes blanks and marks only.

Main definitions:

* `Json.outcome` — the value and the rest of a reading that succeeds;
* `Style.IsPlain` — which styles are meant, and `Json.Regular` — which values;
* `Json.ReadsBack` — a value is read back.

Main results:

* `Json.outcome_value`, `Json.outcome_items`, `Json.outcome_fields` — the equations of the reader;
* `Regular.readsBack` — **a value is read back from any text that it stands in**;
* `Json.read?_print` — **reading undoes writing**.
-/

set_option autoImplicit false

namespace ChangeControl.Json

variable {α : Type} {n : Nat} {cs rest : List Char}

/-! ### Outcomes -/

/-- What was read, and the characters that are left. -/
def Read.pair (r : Read α n) : α × List Char := (r.value, r.rest)

/-- What was read and the characters that are left, if the reading succeeds. -/
def outcome (r : Option (Read α n)) : Option (α × List Char) := r.map Read.pair

@[simp] theorem outcome_none : outcome (none : Option (Read α n)) = none := rfl

@[simp] theorem outcome_some (r : Read α n) : outcome (some r) = some (r.value, r.rest) := rfl

/-- The characters after `c`, which comes next after blanks. -/
def next? (c : Char) (cs : List Char) : Option (List Char) := (afterChar? c cs).map Subtype.val

theorem next?_eq (c : Char) (cs : List Char) :
    next? c cs =
      match skipBlanks cs with
      | [] => none
      | d :: rest => if d = c then some rest else none := by
  unfold next? afterChar?
  split
  · next h => simp [h]
  · next d rest h =>
    simp only [h]
    split <;> rfl

theorem outcome_string (cs : List Char) :
    outcome (string? cs) = (stringBody [] cs).map fun p => (String.ofList p.1, p.2) := by
  unfold string?
  split
  · next h => simp [h]
  · next h => simp [h]

theorem outcome_value {c : Char} (first : skipBlanks cs = c :: rest) :
    outcome (value? cs) =
      if c = '"' then (outcome (string? rest)).map fun p => (.str p.1, p.2)
      else if c = '[' then
        match next? ']' rest with
        | some after => some (.arr [], after)
        | none => (outcome (items? rest)).map fun p => (.arr p.1, p.2)
      else if c = '\x7b' then
        match next? '\x7d' rest with
        | some after => some (.obj [], after)
        | none => (outcome (fields? [] rest)).map fun p => (.obj p.1, p.2)
      else plain? (c :: rest) := by
  rw [value?]
  split
  · next none =>
    rw [none] at first
    cases first
  · next d rest' some =>
    rw [some] at first
    cases first
    split_ifs with quote bracket brace
    · cases string? rest <;> rfl
    · simp only [next?]
      cases afterChar? ']' rest with
      | some after => rfl
      | none => cases items? rest <;> rfl
    · simp only [next?]
      cases afterChar? '\x7d' rest with
      | some after => rfl
      | none => cases fields? [] rest <;> rfl
    · split
      · next h => exact h.symm
      · next h => exact h.symm

theorem outcome_items (cs : List Char) :
    outcome (items? cs) =
      match outcome (value? cs) with
      | none => none
      | some (v, rest) =>
        match next? ',' rest with
        | some rest => (outcome (items? rest)).map fun p => (v :: p.1, p.2)
        | none => (next? ']' rest).map ([v], ·) := by
  rw [items?]
  cases hv : value? cs with
  | none => rfl
  | some v =>
    simp only [outcome_some, next?]
    cases hc : afterChar? ',' v.rest with
    | some rest =>
      simp only [Option.map_some]
      cases items? rest.1 <;> rfl
    | none =>
      simp only [Option.map_none]
      cases hb : afterChar? ']' v.rest <;> rfl

theorem outcome_fields (done : List (String × Json)) (cs : List Char) :
    outcome (fields? done cs) =
      match next? '"' cs with
      | none => none
      | some opened =>
        match outcome (string? opened) with
        | none => none
        | some (key, rest) =>
          match next? ':' rest with
          | none => none
          | some rest =>
            match outcome (value? rest) with
            | none => none
            | some (v, rest) =>
              match next? ',' rest with
              | some rest => outcome (fields? (setField key v done) rest)
              | none => (next? '\x7d' rest).map (setField key v done, ·) := by
  rw [fields?]
  simp only [next?]
  cases afterChar? '"' cs with
  | none => rfl
  | some opened =>
    simp only [Option.map_some]
    cases string? opened.1 with
    | none => rfl
    | some key =>
      simp only [outcome_some]
      cases afterChar? ':' key.rest with
      | none => rfl
      | some colon =>
        simp only [Option.map_some]
        cases value? colon.1 with
        | none => rfl
        | some v =>
          simp only [outcome_some]
          cases afterChar? ',' v.rest with
          | some rest =>
            simp only [Option.map_some]
            cases fields? (setField key.value v.value done) rest.1 <;> rfl
          | none =>
            simp only [Option.map_none]
            cases afterChar? '\x7d' v.rest <;> rfl

/-! ### Blanks -/

/-- Nothing but blanks. -/
def Blank (cs : List Char) : Prop := ∀ c ∈ cs, isBlank c = true

theorem blank_nil : Blank [] := by simp [Blank]

theorem Blank.append {bs bs' : List Char} (h : Blank bs) (h' : Blank bs') : Blank (bs ++ bs') := by
  intro c mem
  exact (List.mem_append.1 mem).elim (h c) (h' c)

theorem skipBlanks_append {bs : List Char} (blank : Blank bs) (cs : List Char) :
    skipBlanks (bs ++ cs) = skipBlanks cs :=
  List.dropWhile_append_of_pos blank

theorem skipBlanks_cons {c : Char} (mark : isBlank c = false) (cs : List Char) :
    skipBlanks (c :: cs) = c :: cs := by
  simp [skipBlanks, mark]

variable {bs : List Char} {c d : Char}

theorem next?_self (blank : Blank bs) (mark : isBlank c = false) (rest : List Char) :
    next? c (bs ++ c :: rest) = some rest := by
  rw [next?_eq, skipBlanks_append blank, skipBlanks_cons mark]
  simp

theorem next?_of_ne (blank : Blank bs) (mark : isBlank d = false) (other : d ≠ c)
    (rest : List Char) : next? c (bs ++ d :: rest) = none := by
  rw [next?_eq, skipBlanks_append blank, skipBlanks_cons mark]
  simp [other]

theorem ends_of_isBlank (blank : isBlank c = true) :
    c.isDigit = false ∧ c ≠ '.' ∧ c ≠ 'e' ∧ c ≠ 'E' := by
  simp only [isBlank, Bool.or_eq_true, beq_iff_eq] at blank
  rcases blank with ((rfl | rfl) | rfl) | rfl <;> decide

theorem endsNumber_of_blank (blank : Blank bs) : EndsNumber bs := by
  intro c first
  exact ends_of_isBlank (blank c (List.mem_of_mem_head? first))

/-- A mark, or a blank before it, ends a number. -/
theorem endsNumber_of_mark (blank : Blank bs) (mark : c = ',' ∨ c = ']' ∨ c = '\x7d')
    (rest : List Char) : EndsNumber (bs ++ c :: rest) := by
  intro e first
  cases bs with
  | nil =>
    obtain rfl : c = e := by simpa using first
    rcases mark with rfl | rfl | rfl <;> decide
  | cons b bs =>
    obtain rfl : b = e := by simpa using first
    exact ends_of_isBlank (blank b List.mem_cons_self)

/-! ### Written values -/

/-- Between the items of lists and objects a style writes the marks and blanks only. -/
structure Style.IsPlain (style : Style) : Prop where
  comma : ∃ bs, style.comma = ',' :: bs ∧ Blank bs
  colon : ∃ bs, style.colon = ':' :: bs ∧ Blank bs
  newline : ∀ depth, Blank (style.newline depth)

theorem Style.isPlain_canonical : Style.canonical.IsPlain where
  comma := ⟨[], rfl, blank_nil⟩
  colon := ⟨[], rfl, blank_nil⟩
  newline _ := blank_nil

theorem Style.isPlain_file : Style.file.IsPlain where
  comma := ⟨[], rfl, blank_nil⟩
  colon := ⟨[' '], rfl, by simp [Blank, isBlank]⟩
  newline depth := by
    intro c mem
    simp only [Style.file, List.mem_cons, List.mem_replicate] at mem
    rcases mem with rfl | ⟨-, rfl⟩ <;> rfl

/-- Values without numbers that are not whole, and without a name that an object has twice. -/
inductive Regular : Json → Prop
  | null : Regular .null
  | bool (b : Bool) : Regular (.bool b)
  | int (n : Int) : Regular (.int n)
  | str (s : String) : Regular (.str s)
  | arr {items : List Json} : (∀ v ∈ items, Regular v) → Regular (.arr items)
  | obj {fields : List (String × Json)} : (fields.map Prod.fst).Nodup →
      (∀ f ∈ fields, Regular f.2) → Regular (.obj fields)

variable {style : Style} {v : Json}

/-- A character that is no blank and neither opens a string, a list or an object nor closes a
list. -/
abbrev OpensPlain (c : Char) : Prop := isBlank c = false ∧ c ∉ ['"', '[', ']', '\x7b']

theorem opensPlain_of_isDigit (first : c.isDigit = true ∨ c = '-') : OpensPlain c := by
  constructor
  · cases blank : isBlank c with
    | false => rfl
    | true =>
      simp only [isBlank, Bool.or_eq_true, beq_iff_eq] at blank
      rcases blank with ((rfl | rfl) | rfl) | rfl <;> exact absurd first (by decide)
  · intro mem
    simp only [List.mem_cons, List.not_mem_nil, or_false] at mem
    rcases mem with rfl | rfl | rfl | rfl <;> exact absurd first (by decide)

/-- A value begins with a character that is no blank and closes no list. -/
theorem Regular.exists_first (h : v.Regular) (style : Style) (depth : Nat) :
    ∃ c cs, v.write style depth = c :: cs ∧ isBlank c = false ∧ c ≠ ']' := by
  cases h with
  | null => exact ⟨'n', _, by rw [write], by decide⟩
  | bool b =>
    cases b with
    | true => exact ⟨'t', _, by rw [write, if_pos rfl], by decide⟩
    | false => exact ⟨'f', _, by rw [write, if_neg (by decide)], by decide⟩
  | int n =>
    obtain ⟨c, cs, text, first⟩ := exists_toString_int n
    obtain ⟨mark, other⟩ := opensPlain_of_isDigit first
    refine ⟨c, cs, by rw [write, text], mark, ?_⟩
    rintro rfl
    exact other (by decide)
  | str s => exact ⟨'"', _, by rw [write, writeString], by decide⟩
  | @arr items _ => cases items <;> exact ⟨'[', _, by rw [write], by decide⟩
  | @obj fields _ _ => cases fields <;> exact ⟨'\x7b', _, by rw [write], by decide⟩

/-- A value is read back, whatever blanks come before it and whatever comes after it. -/
def ReadsBack (style : Style) (v : Json) : Prop :=
  ∀ depth bs rest, Blank bs → EndsNumber rest →
    outcome (value? (bs ++ (v.write style depth ++ rest))) = some (v, rest)

theorem outcome_value_append (blank : Blank bs) (mark : isBlank c = false) (rest : List Char) :
    outcome (value? (bs ++ c :: rest)) =
      if c = '"' then (outcome (string? rest)).map fun p => (.str p.1, p.2)
      else if c = '[' then
        match next? ']' rest with
        | some after => some (.arr [], after)
        | none => (outcome (items? rest)).map fun p => (.arr p.1, p.2)
      else if c = '\x7b' then
        match next? '\x7d' rest with
        | some after => some (.obj [], after)
        | none => (outcome (fields? [] rest)).map fun p => (.obj p.1, p.2)
      else plain? (c :: rest) :=
  outcome_value (by rw [skipBlanks_append blank, skipBlanks_cons mark])

theorem outcome_value_plain (blank : Blank bs) (opens : OpensPlain c) (rest : List Char) :
    outcome (value? (bs ++ c :: rest)) = plain? (c :: rest) := by
  obtain ⟨mark, other⟩ := opens
  simp only [List.mem_cons, List.not_mem_nil, or_false, not_or] at other
  rw [outcome_value_append blank mark, if_neg other.1, if_neg other.2.1, if_neg other.2.2.2]

theorem readsBack_null : ReadsBack style .null := by
  intro depth bs rest blank ends
  rw [write]
  exact (outcome_value_plain blank (by decide) _).trans (plain?_null rest)

theorem readsBack_bool (b : Bool) : ReadsBack style (.bool b) := by
  intro depth bs rest blank ends
  rw [write]
  cases b with
  | true => exact (outcome_value_plain blank (by decide) _).trans (plain?_bool true rest)
  | false => exact (outcome_value_plain blank (by decide) _).trans (plain?_bool false rest)

theorem readsBack_int (n : Int) : ReadsBack style (.int n) := by
  intro depth bs rest blank ends
  obtain ⟨c, cs, text, first⟩ := exists_toString_int n
  have read := plain?_int n ends
  rw [write, text]
  rw [text] at read
  exact (outcome_value_plain blank (opensPlain_of_isDigit first) _).trans read

theorem outcome_string_write (ascii : Bool) (s : String) (rest : List Char) :
    outcome (string? ((writeString ascii s).tail ++ rest)) = some (s, rest) := by
  rw [outcome_string, stringBody_writeString]
  simp

theorem next?_writeString (blank : Blank bs) (ascii : Bool) (s : String) (rest : List Char) :
    next? '"' (bs ++ (writeString ascii s ++ rest)) = some ((writeString ascii s).tail ++ rest) :=
  next?_self blank (by decide) _

theorem readsBack_str (s : String) : ReadsBack style (.str s) := by
  intro depth bs rest blank ends
  have text : bs ++ (write style depth (.str s) ++ rest) =
      bs ++ '"' :: ((writeString style.ascii s).tail ++ rest) := by
    rw [write]
    rfl
  rw [text, outcome_value_append blank (by decide), if_pos rfl, outcome_string_write]
  rfl

/-- The items of a list after its first one, and the bracket that closes it. -/
theorem outcome_items_write (plain : style.IsPlain) (depth : Nat) (vs : List Json)
    (hvs : ∀ w ∈ vs, ReadsBack style w) : ∀ (v : Json), ReadsBack style v →
    ∀ (bs : List Char), Blank bs → ∀ (bs' : List Char), Blank bs' → ∀ rest : List Char,
    outcome (items? (bs ++ (v.write style depth ++
      (writeItems style depth vs ++ (bs' ++ ']' :: rest))))) = some (v :: vs, rest) := by
  induction vs with
  | nil =>
    intro v hv bs blank bs' blank' rest
    rw [outcome_items, writeItems, List.nil_append,
      hv depth bs _ blank (endsNumber_of_mark blank' (.inr (.inl rfl)) rest)]
    simp only
    rw [next?_of_ne blank' (by decide) (by decide), next?_self blank' (by decide)]
    rfl
  | cons w vs ih =>
    intro v hv bs blank bs' blank' rest
    obtain ⟨hw, hvs⟩ := List.forall_mem_cons.1 hvs
    obtain ⟨cs, comma, after⟩ := plain.comma
    have text : writeItems style depth (w :: vs) ++ (bs' ++ ']' :: rest) =
        [] ++ ',' :: ((cs ++ style.newline depth) ++ (w.write style depth ++
          (writeItems style depth vs ++ (bs' ++ ']' :: rest)))) := by
      rw [writeItems, comma]
      simp only [List.append_assoc, List.cons_append, List.nil_append]
    rw [outcome_items, text, hv depth bs _ blank (endsNumber_of_mark blank_nil (.inl rfl) _)]
    simp only
    rw [next?_self blank_nil (by decide)]
    simp only
    rw [ih hvs w hw _ (after.append (plain.newline depth)) bs' blank' rest]
    rfl

/-- One field is read, and what comes after it decides how it goes on. -/
theorem outcome_fields_field (plain : style.IsPlain) (readsBack : ReadsBack style v)
    (blank : Blank bs) (ends : EndsNumber rest) (done : List (String × Json)) (k : String)
    (depth : Nat) :
    outcome (fields? done (bs ++ (writeString style.ascii k ++ (style.colon ++
      (v.write style depth ++ rest))))) =
      match next? ',' rest with
      | some rest => outcome (fields? (setField k v done) rest)
      | none => (next? '\x7d' rest).map (setField k v done, ·) := by
  obtain ⟨cs, colon, after⟩ := plain.colon
  have text : style.colon ++ (v.write style depth ++ rest) =
      [] ++ ':' :: (cs ++ (v.write style depth ++ rest)) := by
    rw [colon]
    rfl
  rw [outcome_fields, next?_writeString blank, text]
  simp only
  rw [outcome_string_write]
  simp only
  rw [next?_self blank_nil (by decide)]
  simp only
  rw [readsBack depth cs rest after ends]

/-- A field with a new name comes last. -/
theorem setField_of_not_mem {k : String} {done : List (String × Json)}
    (fresh : k ∉ done.map Prod.fst) (v : Json) : setField k v done = done ++ [(k, v)] := by
  induction done with
  | nil => rfl
  | cons f done ih =>
    obtain ⟨k', v'⟩ := f
    simp only [List.map_cons, List.mem_cons, not_or] at fresh
    rw [setField, if_neg (Ne.symm fresh.1), ih fresh.2]
    rfl

/-- The fields of an object after its first one, and the brace that closes it. -/
theorem outcome_fields_write (plain : style.IsPlain) (depth : Nat) (fs : List (String × Json))
    (hfs : ∀ f ∈ fs, ReadsBack style f.2) : ∀ (k : String) (v : Json), ReadsBack style v →
    ∀ done : List (String × Json), (done.map Prod.fst ++ k :: fs.map Prod.fst).Nodup →
    ∀ bs : List Char, Blank bs → ∀ bs' : List Char, Blank bs' → ∀ rest : List Char,
    outcome (fields? done (bs ++ (writeString style.ascii k ++ (style.colon ++
      (v.write style depth ++ (writeFields style depth fs ++ (bs' ++ '\x7d' :: rest))))))) =
      some (done ++ (k, v) :: fs, rest) := by
  induction fs with
  | nil =>
    intro k v hv done nodup bs blank bs' blank' rest
    have fresh : k ∉ done.map Prod.fst := by
      intro mem
      exact (List.nodup_append.1 nodup).2.2 k mem k (by simp) rfl
    rw [writeFields, List.nil_append, outcome_fields_field plain hv blank
      (endsNumber_of_mark blank' (.inr (.inr rfl)) rest),
      next?_of_ne blank' (by decide) (by decide), next?_self blank' (by decide),
      setField_of_not_mem fresh]
    rfl
  | cons f fs ih =>
    intro k v hv done nodup bs blank bs' blank' rest
    obtain ⟨k', v'⟩ := f
    obtain ⟨hv', hfs⟩ := List.forall_mem_cons.1 hfs
    obtain ⟨cs, comma, after⟩ := plain.comma
    have fresh : k ∉ done.map Prod.fst := by
      intro mem
      exact (List.nodup_append.1 nodup).2.2 k mem k (by simp) rfl
    have text : writeFields style depth ((k', v') :: fs) ++ (bs' ++ '\x7d' :: rest) =
        [] ++ ',' :: ((cs ++ style.newline depth) ++ (writeString style.ascii k' ++ (style.colon ++
          (v'.write style depth ++ (writeFields style depth fs ++ (bs' ++ '\x7d' :: rest)))))) := by
      rw [writeFields, comma]
      simp only [List.append_assoc, List.cons_append, List.nil_append]
    rw [text, outcome_fields_field plain hv blank (endsNumber_of_mark blank_nil (.inl rfl) _),
      next?_self blank_nil (by decide), setField_of_not_mem fresh]
    simp only
    rw [ih hfs k' v' hv' (done ++ [(k, v)]) (by simpa using nodup) _
      (after.append (plain.newline depth)) bs' blank' rest]
    simp

/-- A list is read back if its items are. -/
theorem readsBack_arr (plain : style.IsPlain) {items : List Json}
    (regular : ∀ v ∈ items, v.Regular) (hitems : ∀ v ∈ items, ReadsBack style v) :
    ReadsBack style (.arr items) := by
  intro depth bs rest blank ends
  cases items with
  | nil =>
    have text : bs ++ (write style depth (.arr []) ++ rest) = bs ++ '[' :: ([] ++ ']' :: rest) := by
      rw [write]
      rfl
    rw [text, outcome_value_append blank (by decide), if_neg (by decide), if_pos rfl,
      next?_self blank_nil (by decide)]
  | cons v vs =>
    obtain ⟨hv, hvs⟩ := List.forall_mem_cons.1 hitems
    obtain ⟨c, cs, first, mark, other⟩ :=
      (regular v List.mem_cons_self).exists_first style (depth + 1)
    have text : bs ++ (write style depth (.arr (v :: vs)) ++ rest) =
        bs ++ '[' :: (style.newline (depth + 1) ++ (v.write style (depth + 1) ++
          (writeItems style (depth + 1) vs ++ (style.newline depth ++ ']' :: rest)))) := by
      rw [write]
      simp only [List.append_assoc, List.cons_append, List.nil_append]
    have more : next? ']' (style.newline (depth + 1) ++ (v.write style (depth + 1) ++
        (writeItems style (depth + 1) vs ++ (style.newline depth ++ ']' :: rest)))) = none := by
      rw [first]
      exact next?_of_ne (plain.newline _) mark other _
    rw [text, outcome_value_append blank (by decide), if_neg (by decide), if_pos rfl, more]
    simp only
    rw [outcome_items_write plain (depth + 1) vs hvs v hv _ (plain.newline _) _ (plain.newline _)]
    rfl

/-- An object is read back if its values are, and if it has no name twice. -/
theorem readsBack_obj (plain : style.IsPlain) {fields : List (String × Json)}
    (nodup : (fields.map Prod.fst).Nodup) (hfields : ∀ f ∈ fields, ReadsBack style f.2) :
    ReadsBack style (.obj fields) := by
  intro depth bs rest blank ends
  cases fields with
  | nil =>
    have text : bs ++ (write style depth (.obj []) ++ rest) =
        bs ++ '\x7b' :: ([] ++ '\x7d' :: rest) := by
      rw [write]
      rfl
    rw [text, outcome_value_append blank (by decide), if_neg (by decide), if_neg (by decide),
      if_pos rfl, next?_self blank_nil (by decide)]
  | cons f fs =>
    obtain ⟨k, v⟩ := f
    obtain ⟨hv, hfs⟩ := List.forall_mem_cons.1 hfields
    have text : bs ++ (write style depth (.obj ((k, v) :: fs)) ++ rest) =
        bs ++ '\x7b' :: (style.newline (depth + 1) ++ (writeString style.ascii k ++ (style.colon ++
          (v.write style (depth + 1) ++ (writeFields style (depth + 1) fs ++
            (style.newline depth ++ '\x7d' :: rest)))))) := by
      rw [write]
      simp only [List.append_assoc, List.cons_append, List.nil_append]
    have more : next? '\x7d' (style.newline (depth + 1) ++ (writeString style.ascii k ++
        (style.colon ++ (v.write style (depth + 1) ++ (writeFields style (depth + 1) fs ++
          (style.newline depth ++ '\x7d' :: rest)))))) = none :=
      next?_of_ne (plain.newline _) (by decide) (by decide) _
    rw [text, outcome_value_append blank (by decide), if_neg (by decide), if_neg (by decide),
      if_pos rfl, more]
    simp only
    rw [outcome_fields_write plain (depth + 1) fs hfs k v hv [] nodup _ (plain.newline _) _
      (plain.newline _)]
    rfl

/-- A regular value is read back from any text that it stands in. -/
theorem Regular.readsBack (plain : style.IsPlain) (h : v.Regular) : ReadsBack style v := by
  induction h with
  | null => exact readsBack_null
  | bool b => exact readsBack_bool b
  | int n => exact readsBack_int n
  | str s => exact readsBack_str s
  | arr regular ih => exact readsBack_arr plain regular ih
  | obj nodup _ ih => exact readsBack_obj plain nodup ih

theorem read?_of_outcome {text : String} (found : outcome (value? text.toList) = some (v, rest))
    (blank : Blank rest) : read? text = some v := by
  unfold read?
  cases hv : value? text.toList with
  | none =>
    rw [hv] at found
    cases found
  | some r =>
    rw [hv, outcome_some, Option.some.injEq, Prod.mk.injEq] at found
    obtain ⟨value, left⟩ := found
    have done : skipBlanks r.rest = [] := by
      rw [left]
      simpa [skipBlanks, Blank] using blank
    simp [done, value]

/-- **Reading undoes writing**: the text of a value stands for that value, also with blanks behind
it. -/
theorem read?_print (plain : style.IsPlain) (h : v.Regular) (ending : String)
    (blank : Blank ending.toList) : read? (v.print style ++ ending) = some v := by
  have text : (v.print style ++ ending).toList = [] ++ (v.write style 0 ++ ending.toList) := by
    simp [print]
  refine read?_of_outcome ?_ blank
  rw [text]
  exact h.readsBack plain 0 [] ending.toList blank_nil (endsNumber_of_blank blank)

end ChangeControl.Json
