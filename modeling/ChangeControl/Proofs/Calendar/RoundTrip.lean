import ChangeControl.Calendar.Timestamp
import Mathlib.Algebra.Group.Nat.Defs
import Mathlib.Data.List.TakeWhile
/-!
Moments read back from their notation.

The reader takes the written parts off one after the other: numbers of a fixed width, the marks
between them, and a fraction that is there only if it is not zero.  What is read is the moment that
was written, with one exception: a distance from universal time of less than a second is read as
none.  No text stands for a moment with such a distance, so that every moment that some text stands
for is read back from its own.

Main definitions:

* `Timestamp.dateText`, `Timestamp.fieldsText`, `Timestamp.zoneText` — the notation in parts;
* `Timestamp.Readable` — some text stands for the moment.

Main results:

* `Timestamp.digits?_pad` — a number of a fixed width is read back;
* `Timestamp.date?_dateText`, `Timestamp.clockFields?_fieldsText`,
  `Timestamp.zone?_distanceText` — each part of the notation is read back;
* `Timestamp.readable_iff` — **which moments some text stands for**;
* `Timestamp.ofText_text_iff` — **they are the ones that are read back**.
-/

set_option autoImplicit false

namespace ChangeControl.Calendar.Timestamp

/-! ### Numbers of a fixed width -/

theorem toList_pad (width n : Nat) :
    (pad width n).toList =
      List.replicate (width - (Nat.toDigits 10 n).length) '0' ++ Nat.toDigits 10 n := by
  simp [pad]

variable {width n : Nat}

theorem length_pad (pos : 0 < width) (bound : n < 10 ^ width) :
    (pad width n).toList.length = width := by
  have := (Nat.length_toDigits_le_iff (b := 10) (by decide) pos).2 bound
  rw [toList_pad, List.length_append, List.length_replicate]
  omega

theorem isDigit_of_mem_pad {c : Char} (mem : c ∈ (pad width n).toList) : c.isDigit = true := by
  rw [toList_pad, List.mem_append] at mem
  rcases mem with zero | digit
  · rw [List.eq_of_mem_replicate zero]
    decide
  · exact Nat.isDigit_of_mem_toDigits (by decide) (by decide) digit

theorem value_pad (width n : Nat) :
    (pad width n).toList.foldl (fun n c => n * 10 + (c.toNat - 48)) 0 = n := by
  have value : Nat.ofDigitChars 10 (pad width n).toList 0 = n := by
    rw [toList_pad, Nat.ofDigitChars_append, Nat.ofDigitChars_replicate_zero, Nat.mul_zero,
      Nat.ofDigitChars_ten_toDigits]
  rw [Nat.ofDigitChars_eq_foldl] at value
  simp only [Nat.mul_comm 10] at value
  exact value

/-- A number of a fixed width is read back. -/
theorem digits?_pad (pos : 0 < width) (bound : n < 10 ^ width) (rest : List Char) :
    digits? width ((pad width n).toList ++ rest) = some (n, rest) := by
  have length := length_pad pos bound
  have all : (pad width n).toList.all Char.isDigit = true :=
    List.all_eq_true.2 fun c mem => isDigit_of_mem_pad mem
  rw [digits?, List.take_left' length, List.drop_left' length, if_pos ⟨length, all⟩, value_pad]

theorem exists_pad (pos : 0 < width) (bound : n < 10 ^ width) :
    ∃ c cs, (pad width n).toList = c :: cs ∧ c.isDigit = true := by
  cases text : (pad width n).toList with
  | nil =>
    have := length_pad pos bound
    rw [text, List.length_nil] at this
    omega
  | cons c cs => exact ⟨c, cs, rfl, isDigit_of_mem_pad (text ▸ List.mem_cons_self)⟩

/-! ### Dates -/

variable (t : Timestamp)

/-- The date of a moment as it is written. -/
def dateText : List Char :=
  (pad 4 t.year).toList ++ '-' :: ((pad 2 t.month).toList ++ '-' :: (pad 2 t.day).toList)

theorem year_lt : t.year < 10 ^ 4 := by
  have := t.year_le
  omega

theorem month_lt : t.month < 10 ^ 2 := by
  have := t.month_le
  omega

theorem day_lt : t.day < 10 ^ 2 := by
  have le := t.day_le
  have : daysInMonth t.year t.month ≤ 31 := by
    unfold daysInMonth
    split_ifs <;> omega
  omega

theorem length_dateText : t.dateText.length = 10 := by
  simp only [dateText, List.length_append, List.length_cons,
    length_pad (by decide) t.year_lt, length_pad (by decide) t.month_lt,
    length_pad (by decide) t.day_lt]

theorem after?_self (c : Char) (rest : List Char) : after? c (c :: rest) = some rest := by
  simp [after?]

theorem date?_dateText : date? t.dateText = some (t.year, t.month, t.day) := by
  obtain ⟨c, cs, month, digit⟩ := exists_pad (by decide) t.month_lt
  have noWeek : after? 'W' ((pad 2 t.month).toList ++ '-' :: (pad 2 t.day).toList) = none := by
    have other : c ≠ 'W' := by
      rintro rfl
      exact absurd digit (by decide)
    simp [month, after?, other]
  have day : digits? 2 (pad 2 t.day).toList = some (t.day, []) := by
    simpa using digits?_pad (by decide) t.day_lt []
  simp [date?, dateText, digits?_pad (by decide) t.year_lt, after?_self, noWeek,
    digits?_pad (by decide) t.month_lt, day]

/-- The date takes ten characters. -/
theorem dateLength_dateText (rest : List Char) : dateLength (t.dateText ++ 'T' :: rest) = 10 := by
  obtain ⟨c, cs, month, digit⟩ := exists_pad (by decide) t.month_lt
  have other : c ≠ 'W' := by
    rintro rfl
    exact absurd digit (by decide)
  have year := length_pad (by decide) t.year_lt
  have long : (t.dateText ++ 'T' :: rest).length ≠ 7 := by
    rw [List.length_append, length_dateText]
    omega
  have fourth : (t.dateText ++ 'T' :: rest)[4]? = some '-' := by
    simp [dateText, year]
  have fifth : (t.dateText ++ 'T' :: rest)[5]? = some c := by
    simp [dateText, List.getElem?_append_right, year, month]
  rw [dateLength, if_neg long, if_pos fourth, fifth, if_neg (by simpa using other)]

/-! ### Clock times -/

theorem toList_fractionText (micro : Nat) :
    (fractionText micro).toList = if micro = 0 then [] else '.' :: (pad 6 micro).toList := by
  unfold fractionText
  split <;> simp

variable {followed : Bool} {count hour minute second micro : Nat}

theorem fraction?_pad (bound : micro < 10 ^ 6) :
    fraction? followed (pad 6 micro).toList = some ⟨[], micro, followed⟩ := by
  have length := length_pad (by decide) bound
  have digits : digits? 6 (pad 6 micro).toList = some (micro, []) := by
    simpa using digits?_pad (by decide) bound []
  simp [fraction?, length, digits, isOver]

/-- A field of a clock time that a colon follows. -/
theorem clockFields?_colon {colons : Option Bool} (marked : colons.getD true = true)
    (bound : n < 10 ^ 2) {tail : List Char} (more : tail ≠ []) :
    clockFields? followed (count + 1) colons ((pad 2 n).toList ++ ':' :: tail) =
      (clockFields? followed count (some true) tail).map
        fun r => { r with fields := n :: r.fields } := by
  cases tail with
  | nil => exact absurd rfl more
  | cons c cs =>
    rw [clockFields?, digits?_pad (by decide) bound]
    simp only [beq_self_eq_true, marked, Bool.and_self, if_true]

/-- The last field of a clock time, with the fraction. -/
theorem clockFields?_last (bound : n < 10 ^ 2) (small : micro < 10 ^ 6) :
    clockFields? followed (count + 1) (some true)
      ((pad 2 n).toList ++ (fractionText micro).toList) = some ⟨[n], micro, followed⟩ := by
  rw [clockFields?, digits?_pad (by decide) bound, toList_fractionText]
  rcases eq_or_ne micro 0 with rfl | some
  · simp only [if_true]
  · obtain ⟨c, cs, text, -⟩ := exists_pad (by decide) small
    have fraction : fraction? followed (pad 6 micro).toList = _ := fraction?_pad small
    rw [text] at fraction
    simp only [if_neg some, text, Option.getD_some, fraction]
    simp

theorem pad_append_ne_nil (pos : 0 < width) (bound : n < 10 ^ width) (rest : List Char) :
    (pad width n).toList ++ rest ≠ [] := by
  obtain ⟨c, cs, text, -⟩ := exists_pad pos bound
  simp [text]

/-- Three fields of a clock time with a fraction, as they are written. -/
def fieldsText (hour minute second micro : Nat) : List Char :=
  (pad 2 hour).toList ++ ':' :: ((pad 2 minute).toList ++ ':' :: ((pad 2 second).toList ++
    (fractionText micro).toList))

/-- A clock time is read back. -/
theorem clockFields?_fieldsText (hours : hour < 10 ^ 2) (minutes : minute < 10 ^ 2)
    (seconds : second < 10 ^ 2) (small : micro < 10 ^ 6) :
    clockFields? followed 3 none (fieldsText hour minute second micro) =
      some ⟨[hour, minute, second], micro, followed⟩ := by
  rw [fieldsText, clockFields?_colon rfl hours (pad_append_ne_nil (by decide) minutes _),
    clockFields?_colon rfl minutes (pad_append_ne_nil (by decide) seconds _),
    clockFields?_last seconds small]
  rfl

theorem not_isZoneMark_of_mem {c : Char} (mem : c ∈ fieldsText hour minute second micro) :
    isZoneMark c = false := by
  have digit : c.isDigit = true → isZoneMark c = false := by
    intro digit
    cases mark : isZoneMark c with
    | false => rfl
    | true =>
      simp only [isZoneMark, Bool.or_eq_true, beq_iff_eq] at mark
      rcases mark with (rfl | rfl) | rfl <;> exact absurd digit (by decide)
  simp only [fieldsText, toList_fractionText, List.mem_append, List.mem_cons] at mem
  rcases mem with mem | rfl | mem | rfl | mem | mem
  · exact digit (isDigit_of_mem_pad mem)
  · decide
  · exact digit (isDigit_of_mem_pad mem)
  · decide
  · exact digit (isDigit_of_mem_pad mem)
  · split at mem
    · cases mem
    · rcases List.mem_cons.1 mem with rfl | mem
      · decide
      · exact digit (isDigit_of_mem_pad mem)

/-! ### Distances from universal time -/

/-- A distance from universal time in microseconds, as it is written after its sign. -/
def distanceText (n : Nat) : List Char :=
  (pad 2 (n / 1000000 / 3600)).toList ++ ':' :: ((pad 2 (n / 1000000 / 60 % 60)).toList ++
    if n / 1000000 % 60 = 0 ∧ n % 1000000 = 0 then []
    else ':' :: ((pad 2 (n / 1000000 % 60)).toList ++ (fractionText (n % 1000000)).toList))

theorem toList_offsetText (z : Int) :
    (offsetText z).toList = (if z < 0 then '-' else '+') :: distanceText z.natAbs := by
  have sign : (if z < 0 then "-" else "+" : String).toList = [if z < 0 then '-' else '+'] := by
    split <;> rfl
  by_cases whole : z.natAbs / 1000000 % 60 = 0 ∧ z.natAbs % 1000000 = 0
  · simp [offsetText, sign, distanceText, whole, toList_fractionText]
  · simp [offsetText, sign, distanceText, whole]

theorem clockFields?_distanceText (bound : n < 86400000000) :
    ∃ r, clockFields? false 3 none (distanceText n) = some r ∧ r.seconds = n / 1000000 ∧
      r.microsecond = n % 1000000 ∧ r.leftOver = false := by
  have hours : n / 1000000 / 3600 < 10 ^ 2 := by omega
  have minutes : n / 1000000 / 60 % 60 < 10 ^ 2 := by omega
  by_cases whole : n / 1000000 % 60 = 0 ∧ n % 1000000 = 0
  · refine ⟨⟨[n / 1000000 / 3600, n / 1000000 / 60 % 60], 0, false⟩, ?_, ?_, whole.2.symm, rfl⟩
    · have last : clockFields? false 2 (some true)
          ((pad 2 (n / 1000000 / 60 % 60)).toList ++ (fractionText 0).toList) =
            some ⟨[n / 1000000 / 60 % 60], 0, false⟩ :=
        clockFields?_last minutes (by decide)
      rw [toList_fractionText, if_pos rfl] at last
      rw [distanceText, if_pos whole,
        clockFields?_colon rfl hours (pad_append_ne_nil (by decide) minutes _), last]
      rfl
    · simp only [ClockReading.seconds, ClockReading.field]
      simp
      omega
  · refine ⟨⟨[n / 1000000 / 3600, n / 1000000 / 60 % 60, n / 1000000 % 60], n % 1000000, false⟩,
      ?_, ?_, rfl, rfl⟩
    · rw [distanceText, if_neg whole]
      exact clockFields?_fieldsText hours minutes (by omega) (by omega)
    · simp only [ClockReading.seconds, ClockReading.field]
      simp
      omega

/-- A distance of at least a second, or none, is read back. -/
theorem zone?_distanceText {mark : Char} (sign : mark = '-' ∨ mark = '+')
    (bound : n < 86400000000) (known : n = 0 ∨ 1000000 ≤ n) :
    zone? mark (distanceText n) = some (if mark = '-' then -(n : Int) else n) := by
  obtain ⟨r, read, seconds, micro, left⟩ := clockFields?_distanceText bound
  have other : mark ≠ 'Z' := by
    rintro rfl
    exact absurd sign (by decide)
  have value : (if r.seconds = 0 then 0 else (r.seconds : Int) * 1000000 + r.microsecond) = n := by
    rw [seconds, micro]
    split <;> omega
  simp only [zone?, if_neg other, read, left, value]
  simp

/-! ### Moments -/

/-- The zone of a moment as it is written. -/
def zoneText : List Char :=
  match t.offset with
  | none => []
  | some z => (offsetText z).toList

theorem toList_text :
    t.text.toList = t.dateText ++ 'T' ::
      (fieldsText t.hour t.minute t.second t.microsecond ++ t.zoneText) := by
  cases offset : t.offset with
  | none => simp [text, dateText, fieldsText, zoneText, offset]
  | some z => simp [text, dateText, fieldsText, zoneText, offset]

/-- The parts of a moment. -/
def parts : Parts :=
  ⟨t.year, t.month, t.day, t.hour, t.minute, t.second, t.microsecond, t.offset⟩

theorem ofParts_parts : ofParts t.parts = .ok t := by
  have zone : ∀ z ∈ t.parts.offset, z.natAbs < 86400000000 := t.offset_lt
  have year : 1 ≤ t.parts.year ∧ t.parts.year ≤ 9999 := ⟨t.year_pos, t.year_le⟩
  have month : 1 ≤ t.parts.month ∧ t.parts.month ≤ 12 := ⟨t.month_pos, t.month_le⟩
  have day : 1 ≤ t.parts.day ∧ t.parts.day ≤ daysInMonth t.parts.year t.parts.month :=
    ⟨t.day_pos, t.day_le⟩
  have hour : t.parts.hour < 24 := t.hour_lt
  have minute : t.parts.minute < 60 := t.minute_lt
  have second : t.parts.second < 60 ∧ t.parts.microsecond < 1000000 :=
    ⟨t.second_lt, t.microsecond_lt⟩
  rw [ofParts, dif_pos zone, dif_pos year, dif_pos month, dif_pos day, dif_pos hour, dif_pos minute,
    dif_pos second]
  rfl

theorem offset_of_ofParts {p : Parts} {t : Timestamp} (h : ofParts p = .ok t) :
    t.offset = p.offset := by
  unfold ofParts at h
  split_ifs at h
  cases h
  rfl

/-- The clock time and the zone are taken apart at the mark that opens the zone. -/
theorem time?_text (known : ∀ z ∈ t.offset, z = 0 ∨ 1000000 ≤ z.natAbs) :
    time? (fieldsText t.hour t.minute t.second t.microsecond ++ t.zoneText) =
      some (⟨[t.hour, t.minute, t.second], t.microsecond, t.offset.isSome⟩, t.offset) := by
  have clock : ∀ followed, clockFields? followed 3 none
      (fieldsText t.hour t.minute t.second t.microsecond) =
        some ⟨[t.hour, t.minute, t.second], t.microsecond, followed⟩ := by
    intro followed
    have := t.hour_lt
    have := t.minute_lt
    have := t.second_lt
    exact clockFields?_fieldsText (by omega) (by omega) (by omega) t.microsecond_lt
  have noMark : ∀ c ∈ fieldsText t.hour t.minute t.second t.microsecond,
      (!isZoneMark c) = true := by
    intro c mem
    rw [not_isZoneMark_of_mem mem]
    rfl
  unfold time?
  rw [List.takeWhile_append_of_pos noMark, List.dropWhile_append_of_pos noMark]
  cases offset : t.offset with
  | none => simp [zoneText, offset, clock]
  | some z =>
    have sign : (if z < 0 then '-' else '+') = '-' ∨ (if z < 0 then '-' else '+') = '+' := by
      split <;> simp
    have mark : isZoneMark (if z < 0 then '-' else '+') = true := by
      split <;> rfl
    have value :
        (if (if z < 0 then '-' else '+') = '-' then -(z.natAbs : Int) else z.natAbs) = z := by
      by_cases negative : z < 0
      · rw [if_pos negative, if_pos rfl]
        omega
      · rw [if_neg negative, if_neg (by decide)]
        omega
    have zone := zone?_distanceText sign (t.offset_lt z offset) (by
      rcases known z offset with rfl | large
      · exact .inl rfl
      · exact .inr large)
    rw [value] at zone
    simp [zoneText, offset, toList_offsetText, mark, clock, zone]

theorem parts?_text (known : ∀ z ∈ t.offset, z = 0 ∨ 1000000 ≤ z.natAbs) :
    parts? t.text.toList = some t.parts := by
  have time := time?_text t known
  have text := t.toList_text
  generalize fieldsText t.hour t.minute t.second t.microsecond ++ t.zoneText = rest at time text
  have long : ¬ t.text.toList.length < 7 := by
    rw [text, List.length_append, length_dateText]
    omega
  have length : dateLength t.text.toList = 10 := by rw [text, dateLength_dateText]
  have date : t.text.toList.take 10 = t.dateText := by
    rw [text, List.take_left' t.length_dateText]
  have left : t.text.toList.drop 10 = 'T' :: rest := by
    rw [text, List.drop_left' t.length_dateText]
  simp [parts?, long, length, date, left, date?_dateText, time, parts, ClockReading.field]

/-- A distance from universal time that is read is none, or at least a second. -/
theorem zone?_eq_some {mark : Char} {cs : List Char} {z : Int} (h : zone? mark cs = some z) :
    z = 0 ∨ 1000000 ≤ z.natAbs := by
  unfold zone? at h
  split at h
  · split at h
    · exact .inl (Option.some.inj h).symm
    · cases h
  · split at h
    · cases h
    · next r _ =>
      simp only at h
      split at h
      · cases h
      · rw [Option.some.injEq] at h
        subst h
        by_cases none : r.seconds = 0
        · simp [none]
        · simp only [none, if_false]
          right
          split <;> omega

theorem known_of_time? {cs : List Char} {r : ClockReading} {offset : Option Int}
    (h : time? cs = some (r, offset)) : ∀ z ∈ offset, z = 0 ∨ 1000000 ≤ z.natAbs := by
  intro z mem
  obtain rfl : offset = some z := mem
  unfold time? at h
  simp only at h
  split at h
  · cases hr : clockFields? false 3 none (cs.takeWhile fun c => !isZoneMark c) with
    | none => simp [hr] at h
    | some r' => cases left : r'.leftOver <;> simp [hr, left] at h
  · next mark rest _ =>
    cases hr : clockFields? true 3 none (cs.takeWhile fun c => !isZoneMark c) with
    | none => simp [hr] at h
    | some r' =>
      cases hz : zone? mark rest with
      | none => simp [hr, hz] at h
      | some z' =>
        simp only [hr, hz, Option.pure_def, Option.bind_eq_bind, Option.bind_some,
          Option.some.injEq, Prod.mk.injEq] at h
        exact h.2 ▸ zone?_eq_some hz

/-- What a text stands for has a distance from universal time of none, or of at least a second. -/
theorem known_of_parts? {cs : List Char} {p : Parts} (h : parts? cs = some p) :
    ∀ z ∈ p.offset, z = 0 ∨ 1000000 ≤ z.natAbs := by
  unfold parts? at h
  split at h
  · cases h
  · cases hd : date? (cs.take (dateLength cs)) with
    | none => simp [hd] at h
    | some date =>
      simp only [hd, Option.pure_def, Option.bind_eq_bind, Option.bind_some] at h
      split at h
      · cases h
        simp
      · next c time _ =>
        cases ht : time? time with
        | none => simp [ht] at h
        | some read =>
          simp only [ht, Option.bind_some, Option.some.injEq] at h
          subst h
          exact known_of_time? ht

/-- Some text stands for the moment. -/
def Readable (t : Timestamp) : Prop := ∃ s, ofText s = .ok t

theorem ofText_text (known : ∀ z ∈ t.offset, z = 0 ∨ 1000000 ≤ z.natAbs) :
    ofText t.text = .ok t := by
  simp only [ofText, parts?_text t known, ofParts_parts]

/-- A text stands for the moments whose distance from universal time is none, or at least a
second. -/
theorem readable_iff : t.Readable ↔ ∀ z ∈ t.offset, z = 0 ∨ 1000000 ≤ z.natAbs := by
  constructor
  · rintro ⟨s, h⟩
    unfold ofText at h
    split at h
    · cases h
    · next p hp =>
      rw [offset_of_ofParts h]
      exact known_of_parts? hp
  · intro known
    exact ⟨t.text, ofText_text t known⟩

/-- **A moment that some text stands for is read back from its own text**, and only such a moment
is. -/
theorem ofText_text_iff : ofText t.text = .ok t ↔ t.Readable := by
  constructor
  · intro h
    exact ⟨t.text, h⟩
  · intro readable
    exact ofText_text t ((readable_iff t).1 readable)

/-- A moment before the end of a leap day, with fractions of a second in all its parts. -/
def leapNight : Timestamp :=
  ⟨2024, 2, 29, 23, 59, 59, 1, some (-19815250000), by decide, by decide, by decide, by decide,
    by decide, by decide, by decide, by decide, by decide, by decide, by decide⟩

example : leapNight.text = "2024-02-29T23:59:59.000001-05:30:15.250000" := by decide +kernel

theorem readable_leapNight : leapNight.Readable := by
  refine (readable_iff leapNight).2 fun z mem => .inr ?_
  cases mem
  decide

end ChangeControl.Calendar.Timestamp
