import Mathlib.Data.List.TakeWhile
import TreeQuery.Timestamp

/-!
# Writing and reading moments

A moment of the calendar is read back from the text that is written for it (`read_text`).  Numbers
of a fixed width are read digit by digit, so it is enough to know how they end (`padded_succ`).
The zeros at the end of the decimal places are not written; reading puts them back.

The moments that a clock tells are of the calendar (`isMoment_ofClock`).
-/

namespace TreeQuery.Timestamp

open List

/-- **A moment of the calendar**, of a year with four digits, at a place less than a day away from
universal time. -/
structure IsMoment (t : Timestamp) : Prop where
  year : t.year < 10000
  date : Text.isDate t.year t.month t.day = true
  hour : t.hour < 24
  minute : t.minute < 60
  second : t.second < 60
  nanosecond : t.nanosecond < 1000000000
  offset : t.offset.natAbs < 24 * 60

/-! ## Digits -/

variable {d n year : Nat} {c : Char}

theorem isDigit_digitChar (h : d < 10) : (Nat.digitChar d).isDigit := by
  have hall : ∀ d < 10, (Nat.digitChar d).isDigit = true := by decide
  exact hall d h

theorem toNat_digitChar (h : d < 10) : (Nat.digitChar d).toNat - 48 = d := by
  have hall : ∀ d < 10, (Nat.digitChar d).toNat - 48 = d := by decide
  exact hall d h

theorem digit?_digitChar (h : d < 10) (rest : List Char) :
    digit? (Nat.digitChar d :: rest) = some (d, rest) := by
  rw [digit?, if_pos (isDigit_digitChar h), toNat_digitChar h]

/-- A padded number ends with its last digit. -/
theorem padded_succ {width : Nat} (hwidth : 0 < width) (n : Nat) :
    padded (width + 1) n = padded width (n / 10) ++ [Nat.digitChar (n % 10)] := by
  unfold padded
  dsimp only
  by_cases h : n < 10
  · obtain ⟨width, rfl⟩ : ∃ k, width = k + 1 := ⟨width - 1, by omega⟩
    rw [Nat.toDigits_of_lt_base h, Nat.div_eq_of_lt h, Nat.mod_eq_of_lt h,
      Nat.toDigits_of_lt_base (by decide : 0 < 10)]
    show List.replicate (width + 1) '0' ++ _ = List.replicate width '0' ++ ['0'] ++ _
    rw [replicate_succ']
  · rw [Nat.toDigits_of_base_le (by decide) (Nat.le_of_not_lt h), length_append,
      length_singleton, Nat.add_sub_add_right, append_assoc]

theorem padded_one (h : n < 10) : padded 1 n = [Nat.digitChar n] := by
  unfold padded
  dsimp only
  rw [Nat.toDigits_of_lt_base h]
  rfl

theorem padded_two (h : n < 100) :
    padded 2 n = [Nat.digitChar (n / 10), Nat.digitChar (n % 10)] := by
  rw [padded_succ Nat.one_pos, padded_one (by omega)]
  rfl

theorem padded_four (n : Nat) :
    padded 4 n = padded 2 (n / 100) ++ padded 2 (n % 100) := by
  have htens : n / 10 % 10 = n % 100 / 10 := by omega
  have hunits : n % 10 = n % 100 % 10 := by omega
  rw [padded_two (n := n % 100) (by omega), padded_succ (by decide), padded_succ (by decide),
    Nat.div_div_eq_div_mul, htens, hunits, append_assoc]
  rfl

theorem twoDigits?_padded (h : n < 100) (rest : List Char) :
    twoDigits? (padded 2 n ++ rest) = some (n, rest) := by
  rw [padded_two h]
  show (digit? (Nat.digitChar (n / 10) :: Nat.digitChar (n % 10) :: rest)).bind _ = _
  rw [digit?_digitChar (by omega), Option.bind_some]
  show (digit? (Nat.digitChar (n % 10) :: rest)).bind _ = _
  rw [digit?_digitChar (by omega), Option.bind_some]
  show some (10 * (n / 10) + n % 10, rest) = _
  rw [Nat.div_add_mod]

theorem upToTwoDigits?_padded (h : n < 100) (rest : List Char) :
    upToTwoDigits? (padded 2 n ++ rest) = some (n, rest) := by
  rw [padded_two h]
  show (digit? (Nat.digitChar (n / 10) :: Nat.digitChar (n % 10) :: rest)).bind _ = _
  rw [digit?_digitChar (by omega), Option.bind_some]
  dsimp only
  rw [digit?_digitChar (by omega)]
  show some (10 * (n / 10) + n % 10, rest) = _
  rw [Nat.div_add_mod]

@[simp]
theorem after?_cons (c : Char) (rest : List Char) : after? c (c :: rest) = some rest :=
  if_pos rfl

/-! ## Date and time of day -/

theorem isDate_bounds {month day : Nat} (h : Text.isDate year month day) :
    month < 100 ∧ day < 100 := by
  simp only [Text.isDate, Bool.and_eq_true, decide_eq_true_eq] at h
  have hdays : Text.daysIn year month ≤ 31 := by
    unfold Text.daysIn
    split
    · split <;> decide
    · split <;> decide
  omega

theorem date?_padded {month day : Nat} (hyear : year < 10000)
    (h : Text.isDate year month day) (rest : List Char) :
    date? (padded 4 year ++ '-' :: (padded 2 month ++ '-' :: (padded 2 day ++ rest))) =
      some ((year, month, day), rest) := by
  obtain ⟨hmonth, hday⟩ := isDate_bounds h
  rw [padded_four, append_assoc]
  have hcentury : 100 * (year / 100) + year % 100 = year := Nat.div_add_mod year 100
  simp only [date?, twoDigits?_padded (show year / 100 < 100 by omega),
    twoDigits?_padded (show year % 100 < 100 by omega), twoDigits?_padded hmonth,
    twoDigits?_padded hday, after?_cons, Option.bind_eq_bind, Option.bind_some, hcentury, h,
    if_true, pure]

/-! ## Decimal places -/

/-- The number that digits spell. -/
def spelled (ds : List Char) : Nat :=
  (ds.map fun c => c.toNat - 48).foldl (fun n d => 10 * n + d) 0

theorem spelled_concat (ds : List Char) (c : Char) :
    spelled (ds ++ [c]) = 10 * spelled ds + (c.toNat - 48) := by
  simp [spelled]

theorem spelled_zeros (ds : List Char) (k : Nat) :
    spelled (ds ++ List.replicate k '0') = spelled ds * Nat.pow 10 k := by
  induction k with
  | zero => simp
  | succ k ih =>
    rw [replicate_succ', ← append_assoc, spelled_concat, ih]
    show 10 * (spelled ds * Nat.pow 10 k) + 0 = spelled ds * (Nat.pow 10 k * 10)
    rw [Nat.add_zero, Nat.mul_comm 10, Nat.mul_assoc]

/-- A number that fits is padded to its width, with digits that spell it. -/
theorem padded_spec (width : Nat) (h : n < Nat.pow 10 (width + 1)) :
    (padded (width + 1) n).length = width + 1 ∧ spelled (padded (width + 1) n) = n ∧
      ∀ c ∈ padded (width + 1) n, c.isDigit := by
  induction width generalizing n with
  | zero =>
    have hn : n < 10 := h
    rw [padded_one hn]
    refine ⟨rfl, ?_, forall_mem_singleton.mpr (isDigit_digitChar hn)⟩
    show 10 * 0 + ((Nat.digitChar n).toNat - 48) = n
    rw [toNat_digitChar hn, Nat.mul_zero, Nat.zero_add]
  | succ width ih =>
    have hdigit : n % 10 < 10 := Nat.mod_lt _ (by decide)
    obtain ⟨hlength, hspelled, hdigits⟩ := ih (n := n / 10)
      (Nat.div_lt_of_lt_mul (by rwa [Nat.mul_comm]))
    rw [padded_succ (Nat.succ_pos width)]
    refine ⟨?_, ?_, forall_mem_append.mpr
      ⟨hdigits, forall_mem_singleton.mpr (isDigit_digitChar hdigit)⟩⟩
    · rw [length_append, hlength, length_singleton]
    · rw [spelled_concat, hspelled, toNat_digitChar hdigit, Nat.div_add_mod]

/-- A text is what is left without the zeros at its end, and these zeros. -/
theorem exists_zeros (ds : List Char) :
    ∃ k, ds = (ds.reverse.dropWhile (· == '0')).reverse ++ List.replicate k '0' := by
  refine ⟨(ds.reverse.takeWhile (· == '0')).length, ?_⟩
  have hzeros : ds.reverse.takeWhile (· == '0') =
      List.replicate (ds.reverse.takeWhile (· == '0')).length '0' :=
    eq_replicate_iff.mpr ⟨rfl, fun c hc => by simpa using mem_takeWhile_imp hc⟩
  have hsplit := congrArg List.reverse
    (takeWhile_append_dropWhile (p := (· == '0')) (l := ds.reverse))
  rw [reverse_append, reverse_reverse] at hsplit
  rw [← reverse_replicate, ← hzeros, hsplit]

/-- **The decimal places of a second are read back**, up to what follows them. -/
theorem fraction_fractionText (h : n < 1000000000) (hc : c.isDigit = false)
    (hpoint : c ≠ '.') (hcomma : c ≠ ',') (rest : List Char) :
    fraction (fractionText n ++ c :: rest) = (n, c :: rest) := by
  unfold fractionText
  split
  · rename_i hzero
    rw [hzero, nil_append, fraction.eq_def]
    cases rest with
    | nil => rfl
    | cons d rest => exact if_neg fun hmark => hmark.1.elim hpoint hcomma
  rename_i hnonzero
  obtain ⟨hlength, hspelled, hdigits⟩ := padded_spec 8 h
  obtain ⟨k, hk⟩ := exists_zeros (padded 9 n)
  generalize ((padded 9 n).reverse.dropWhile (· == '0')).reverse = places at hk ⊢
  rw [hk] at hlength hspelled hdigits
  rw [length_append, length_replicate] at hlength
  rw [spelled_zeros] at hspelled
  have hplaces : ∀ c ∈ places, c.isDigit = true := (forall_mem_append.mp hdigits).1
  have hnanoseconds : nanoseconds places = n := by
    have hall : places.take 9 = places := take_of_length_le (by omega)
    have hmissing : 9 - places.length = k := by omega
    rw [← hspelled, nanoseconds, hall, length_map, hmissing]
    rfl
  cases places with
  | nil =>
    -- without places the number would be zero
    exact absurd (by simpa [spelled] using hspelled.symm) hnonzero
  | cons d places =>
    have htake : (d :: (places ++ c :: rest)).takeWhile Char.isDigit = d :: places := by
      rw [← cons_append, takeWhile_append_of_pos hplaces, takeWhile_cons_of_neg
        (by rw [hc]; exact Bool.false_ne_true), append_nil]
    have hdrop : (d :: (places ++ c :: rest)).dropWhile Char.isDigit = c :: rest := by
      rw [← cons_append, dropWhile_append_of_pos hplaces, dropWhile_cons_of_neg
        (by rw [hc]; exact Bool.false_ne_true)]
    have hpoint : ('.' = '.' ∨ '.' = ',') ∧ d.isDigit = true :=
      ⟨.inl rfl, hplaces d mem_cons_self⟩
    show fraction ('.' :: d :: (places ++ c :: rest)) = _
    rw [fraction, if_pos hpoint, htake, hdrop, hnanoseconds]

theorem clock?_padded {hour minute second nanosecond : Nat} (hhour : hour < 24)
    (hminute : minute < 60) (hsecond : second < 60) (hnanosecond : nanosecond < 1000000000)
    (hc : c.isDigit = false) (hpoint : c ≠ '.') (hcomma : c ≠ ',') (rest : List Char) :
    clock? (padded 2 hour ++ ':' :: (padded 2 minute ++ ':' :: (padded 2 second ++
        (fractionText nanosecond ++ c :: rest)))) =
      some ((hour, minute, second, nanosecond), c :: rest) := by
  have hinside : (hour < 24 && minute < 60 && second < 60) = true := by
    simp [hhour, hminute, hsecond]
  simp only [clock?, upToTwoDigits?_padded (show hour < 100 by omega),
    twoDigits?_padded (show minute < 100 by omega), twoDigits?_padded (show second < 100 by omega),
    after?_cons, Option.bind_eq_bind, Option.bind_some,
    fraction_fractionText hnanosecond hc hpoint hcomma, hinside, if_true, pure]

/-! ## The offset -/

/-- The offset starts with a character that ends the decimal places, and is read back. -/
theorem offset?_offsetText {offset : Int} (h : offset.natAbs < 24 * 60) :
    ∃ c rest, offsetText offset = c :: rest ∧ c.isDigit = false ∧ c ≠ '.' ∧ c ≠ ',' ∧
      offset? (c :: rest) = some offset := by
  by_cases hzero : offset = 0
  · exact ⟨'Z', [], if_pos hzero, by decide, by decide, by decide, by rw [hzero]; rfl⟩
  have htext : offsetText offset = (if offset < 0 then '-' else '+') ::
      (padded 2 (offset.natAbs / 60) ++ ':' :: padded 2 (offset.natAbs % 60)) := if_neg hzero
  have hminutes : offset.natAbs / 60 * 60 + offset.natAbs % 60 = offset.natAbs := by
    omega
  have hend := twoDigits?_padded (n := offset.natAbs % 60) (by omega) []
  rw [append_nil] at hend
  have hread : ∀ sign : Char, sign ≠ 'Z' →
      offset? (sign :: (padded 2 (offset.natAbs / 60) ++ ':' :: padded 2 (offset.natAbs % 60))) =
        if sign = '+' then some (offset.natAbs : Int)
        else if sign = '-' then some (-(offset.natAbs : Int)) else none := by
    intro sign hsign
    have hhours : ¬ offset.natAbs / 60 > 24 := by omega
    have hrest : ¬ offset.natAbs % 60 > 60 := by omega
    rw [offset?]
    · simp only [twoDigits?_padded (show offset.natAbs / 60 < 100 by omega), hend, after?_cons,
        Option.bind_eq_bind, Option.bind_some, hhours, hrest, decide_false, isEmpty_nil,
        Bool.not_true, Bool.or_self, Bool.false_eq_true, if_false, hminutes]
    · exact fun hz => absurd hz hsign
  by_cases hsign : offset < 0
  · refine ⟨'-', _, by rw [htext, if_pos hsign], by decide, by decide, by decide, ?_⟩
    rw [hread '-' (by decide), if_neg (by decide), if_pos rfl]
    congr 1
    omega
  · refine ⟨'+', _, by rw [htext, if_neg hsign], by decide, by decide, by decide, ?_⟩
    rw [hread '+' (by decide), if_pos rfl]
    congr 1
    omega

/-- **A moment is read back from its text.** -/
theorem read_text {t : Timestamp} (ht : t.IsMoment) : read t.text.toList = some t := by
  obtain ⟨c, rest, htext, hc, hpoint, hcomma, hoffset⟩ := offset?_offsetText ht.offset
  have hdate := date?_padded ht.year ht.date
  have hclock := clock?_padded ht.hour ht.minute ht.second ht.nanosecond hc hpoint hcomma rest
  rw [text, String.toList_ofList, htext]
  simp only [append_assoc, cons_append]
  simp only [read, hdate, hclock, hoffset, after?_cons, Option.bind_eq_bind, Option.bind_some, pure]

/-! ## The characters of a moment -/

/-- A character that moments are written with. -/
def isPart (c : Char) : Bool :=
  c.isDigit || ['-', 'T', ':', '.', 'Z', '+'].contains c

theorem isPart_of_mem_padded {width : Nat} (h : c ∈ padded width n) :
    isPart c := by
  have hdigit : c.isDigit = true := by
    rcases mem_append.mp h with h | h
    · rw [eq_of_mem_replicate h]
      rfl
    · exact Nat.isDigit_of_mem_toDigits (by decide) (by decide) h
  rw [isPart, hdigit, Bool.true_or]

theorem isPart_of_mem_fractionText (h : c ∈ fractionText n) :
    isPart c := by
  unfold fractionText at h
  split at h
  · cases h
  rcases mem_cons.mp h with rfl | h
  · rfl
  · have hmem := (dropWhile_sublist _).subset (mem_reverse.mp h)
    exact isPart_of_mem_padded (mem_reverse.mp hmem)

theorem isPart_of_mem_offsetText {offset : Int} (h : c ∈ offsetText offset) :
    isPart c := by
  unfold offsetText at h
  split at h
  · rw [mem_singleton.mp h]
    rfl
  rcases mem_cons.mp h with rfl | h
  · split <;> rfl
  rcases mem_append.mp h with h | h
  · exact isPart_of_mem_padded h
  · rcases mem_cons.mp h with rfl | h
    · rfl
    · exact isPart_of_mem_padded h

theorem isPart_of_mem_text (t : Timestamp) (h : c ∈ t.text.toList) :
    isPart c := by
  rw [text, String.toList_ofList] at h
  simp only [mem_append, mem_cons] at h
  grind [isPart_of_mem_padded, isPart_of_mem_fractionText, isPart_of_mem_offsetText, isPart]

/-! ## The clock -/

/-- The year of an era of four hundred years, from March on, that a day of the era falls in: it has
at most 366 days, and so many only if the February at its end has a leap day. -/
theorem yearOfEra_spec {ofEra : Nat} (h : ofEra < 146097)
    (hyear : year = (ofEra - ofEra / 1460 + ofEra / 36524 - ofEra / 146096) / 365) :
    year ≤ 399 ∧ 365 * year + year / 4 - year / 100 ≤ ofEra ∧
      ofEra - (365 * year + year / 4 - year / 100) ≤ 365 ∧
      (ofEra - (365 * year + year / 4 - year / 100) = 365 →
        year % 4 = 3 ∧ (year % 100 ≠ 99 ∨ year = 399)) := by
  have hcentury : ofEra / 36524 = 0 ∨ ofEra / 36524 = 1 ∨ ofEra / 36524 = 2 ∨ ofEra / 36524 = 3 ∨
      ofEra / 36524 = 4 := by omega
  have hlast : ofEra / 146096 = 0 ∨ ofEra / 146096 = 1 := by omega
  have hquarter : year / 4 = ofEra / 1460 ∨ year / 4 + 1 = ofEra / 1460 ∨
      year / 4 = ofEra / 1460 + 1 := by omega
  -- within a century the leap days fall every four years
  rcases hcentury with hc | hc | hc | hc | hc <;> rcases hlast with hl | hl <;> rw [hc, hl] at hyear
  · have : year / 100 = 0 := by omega
    omega
  · omega
  · have : year / 100 = 1 := by omega
    omega
  · omega
  · have : year / 100 = 2 := by omega
    omega
  · omega
  · have : year / 100 = 3 := by omega
    omega
  · omega
  · omega
  · have : year / 100 = 3 := by omega
    omega

/-- The month, counted from March, of a day of the year. -/
def monthFromMarch (dayOfYear : Nat) : Nat := (5 * dayOfYear + 2) / 153

/-- The days of a year from March on are days of its months. -/
theorem day_of_dayOfYear : ∀ dayOfYear < 366,
    let m := monthFromMarch dayOfYear
    let month := if m < 10 then m + 3 else m - 9
    let day := dayOfYear - (153 * m + 2) / 5 + 1
    1 ≤ month ∧ month ≤ 12 ∧ 1 ≤ day ∧ (dayOfYear ≤ 305 ↔ ¬ month ≤ 2) ∧
      (day ≤ Text.daysIn 1 month ∨ dayOfYear = 365 ∧ month = 2 ∧ day = 29) := by
  decide +kernel

theorem daysIn_of_leap (h : Text.isLeapYear year) :
    Text.daysIn year 2 = 29 := by
  simp [Text.daysIn, h]

theorem daysIn_one_le (year month : Nat) : Text.daysIn 1 month ≤ Text.daysIn year month := by
  have hone : Text.isLeapYear 1 = false := rfl
  unfold Text.daysIn
  rw [hone, if_neg Bool.false_ne_true]
  split
  · split <;> decide
  · exact Nat.le_refl _

/-- **A clock tells moments of the calendar**, up to the end of the year 9999. -/
theorem isMoment_ofClock {seconds nanosecond : Nat} (hseconds : seconds < 253402300800)
    (hnanosecond : nanosecond < 1000000000) : (ofClock seconds nanosecond).IsMoment := by
  have hera : (seconds / 86400 + 719468) % 146097 < 146097 := Nat.mod_lt _ (by decide)
  have hdays := Nat.div_add_mod (seconds / 86400 + 719468) 146097
  have hspec := yearOfEra_spec hera rfl
  unfold ofClock
  dsimp only
  generalize (seconds / 86400 + 719468) % 146097 = ofEra at *
  generalize (seconds / 86400 + 719468) / 146097 = era at *
  generalize (ofEra - ofEra / 1460 + ofEra / 36524 - ofEra / 146096) / 365 = year at *
  obtain ⟨hyear, hstart, hlength, hleap⟩ := hspec
  have hday : ofEra = 365 * year + year / 4 - year / 100 +
      (ofEra - (365 * year + year / 4 - year / 100)) := by omega
  generalize ofEra - (365 * year + year / 4 - year / 100) = dayOfYear at *
  have hdate := day_of_dayOfYear dayOfYear (by omega)
  unfold monthFromMarch at hdate
  dsimp only at hdate
  generalize (if (5 * dayOfYear + 2) / 153 < 10 then (5 * dayOfYear + 2) / 153 + 3
    else (5 * dayOfYear + 2) / 153 - 9) = month at *
  generalize dayOfYear - (153 * ((5 * dayOfYear + 2) / 153) + 2) / 5 + 1 = day at *
  obtain ⟨hfirst, htwelfth, hone, hspring, hend⟩ := hdate
  have hleapYear : dayOfYear = 365 → Text.isLeapYear (year + era * 400 + 1) = true := by
    intro h365
    obtain ⟨hfour, hhundred⟩ := hleap h365
    simp only [Text.isLeapYear, Bool.and_eq_true, Bool.or_eq_true, beq_iff_eq, bne_iff_ne, ne_eq]
    omega
  refine ⟨?_, ?_, ?_, ?_, ?_, hnanosecond, (by decide : (0 : Int).natAbs < 24 * 60)⟩
  · show (if month ≤ 2 then year + era * 400 + 1 else year + era * 400) < 10000
    split <;> omega
  · have hmonth : day ≤ Text.daysIn
        (if month ≤ 2 then year + era * 400 + 1 else year + era * 400) month := by
      rcases hend with hend | ⟨h365, rfl, rfl⟩
      · exact Nat.le_trans hend (daysIn_one_le _ month)
      · rw [if_pos (Nat.le_refl 2), daysIn_of_leap (hleapYear h365)]
    simp only [Text.isDate, Bool.and_eq_true, decide_eq_true_eq]
    exact ⟨⟨⟨hfirst, htwelfth⟩, hone⟩, hmonth⟩
  · show seconds % 86400 / 3600 < 24
    omega
  · exact Nat.mod_lt _ (by decide)
  · exact Nat.mod_lt _ (by decide)

end TreeQuery.Timestamp
