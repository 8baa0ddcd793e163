import Listing.Proofs.Text.Digits
import Listing.Time.Rfc3339

/-!
# Timestamps are read as they are written

`Instant.ofRfc3339?_toRfc3339`: every instant is read from its timestamp again. That covers years
with a sign, leap seconds and each of the four lengths of a fraction. Numbers are written with a
fixed number of digits, so each of them is read to its end whatever follows
(`Rfc3339.readNumber?_padded`); only a year with a sign ends at the dash behind it.
-/

set_option autoImplicit false
set_option relaxedAutoImplicit false

namespace Listing.Rfc3339

open Text (isBlank trimStart)

/-! ### Numbers -/

section Padded

variable {width n : Nat}

theorem isDigit_of_mem_padded {c : Char} (h : c ∈ padded width n) : c.isDigit = true := by
  rcases List.mem_append.mp h with hzero | hdigit
  · rw [List.eq_of_mem_replicate hzero]
    decide
  · exact Text.isDigit_of_mem_toDigits hdigit

/-- A number below a power of ten has exactly that many digits. -/
theorem length_padded (hwidth : 0 < width) (hn : n < 10 ^ width) :
    (padded width n).length = width := by
  have hdigits := (Nat.length_toDigits_le_iff (by decide) hwidth).mpr hn
  rw [padded, List.length_append, List.length_replicate, Nat.sub_add_cancel hdigits]

theorem padded_ne_nil : padded width n ≠ [] :=
  List.append_ne_nil_of_right_ne_nil _ Nat.toDigits_ne_nil

/-- The digits give the number. -/
theorem ofDigitChars_padded : Nat.ofDigitChars 10 (padded width n) 0 = n := by
  rw [padded, Text.ofDigitChars_replicate_zero, Nat.ofDigitChars_ten_toDigits]

/-- No blank stands in front of a number. -/
theorem trimStart_padded (rest : List Char) :
    trimStart (padded width n ++ rest) = padded width n ++ rest := by
  refine Text.trimStart_eq_self fun c hc ↦ ?_
  rw [List.head?_append_of_ne_nil _ padded_ne_nil] at hc
  exact Text.isBlank_of_isDigit (isDigit_of_mem_padded (List.mem_of_mem_head? hc))

/-- Digits in front of something else are read as their number. -/
theorem readNumber?_append {most : Nat} {digits rest : List Char} (hne : digits ≠ [])
    (hdigits : ∀ c ∈ digits, c.isDigit = true)
    (hrest : (rest.take (most - digits.length)).takeWhile Char.isDigit = [])
    (hlength : digits.length ≤ most) :
    readNumber? most (digits ++ rest) = some (Nat.ofDigitChars 10 digits 0, rest) := by
  have htake : ((digits ++ rest).take most).takeWhile Char.isDigit = digits := by
    rw [List.take_append, List.take_of_length_le hlength, List.takeWhile_append_of_pos hdigits,
      hrest, List.append_nil]
  rw [readNumber?, htake, if_neg (by simpa using hne), List.drop_left]

/-- A number of fixed width is read to its end. -/
theorem readNumber?_padded (hwidth : 0 < width) (hn : n < 10 ^ width) (rest : List Char) :
    readNumber? width (padded width n ++ rest) = some (n, rest) := by
  have hlength := length_padded hwidth hn
  have hrest : (rest.take (width - (padded width n).length)).takeWhile Char.isDigit = [] := by
    rw [hlength, Nat.sub_self, List.take_zero, List.takeWhile_nil]
  rw [readNumber?_append padded_ne_nil (fun _ ↦ isDigit_of_mem_padded) hrest
    (Nat.le_of_eq hlength), ofDigitChars_padded]

end Padded

/-! ### Days -/

/-- A year of four digits is read to its end. -/
theorem readYear?_padded {n : Nat} (hn : n < 10 ^ 4) (rest : List Char) :
    readYear? (padded 4 n ++ rest) = some ((n : Int), rest) := by
  have hnumber := readNumber?_padded (by decide : 0 < 4) hn rest
  cases hdigits : padded 4 n with
  | nil => exact absurd hdigits padded_ne_nil
  | cons c cs =>
    have hc : c.isDigit = true := isDigit_of_mem_padded (hdigits ▸ List.mem_cons_self)
    -- The first digit is no sign, so the year is read as one of four digits.
    have hminus : c ≠ '-' := by
      rintro rfl
      exact absurd hc (by decide)
    have hplus : c ≠ '+' := by
      rintro rfl
      exact absurd hc (by decide)
    rw [hdigits, List.cons_append] at hnumber
    rw [List.cons_append, readYear?, hnumber]
    · rfl
    · exact fun rest h ↦ hminus (List.cons.inj h).1
    · exact fun rest h ↦ hplus (List.cons.inj h).1

/-- The digits of a year with a sign are read to the dash behind them. -/
theorem readNumber?_signed (n : Nat) (rest : List Char) :
    readNumber? (padded 4 n ++ '-' :: rest).length (padded 4 n ++ '-' :: rest) =
      some (n, '-' :: rest) := by
  have hrest : ∀ k, (('-' :: rest).take k).takeWhile Char.isDigit = [] := by
    intro k
    cases k <;> rfl
  have hlength : (padded 4 n).length ≤ (padded 4 n ++ '-' :: rest).length := by
    rw [List.length_append]
    exact Nat.le_add_right _ _
  rw [readNumber?_append padded_ne_nil (fun _ ↦ isDigit_of_mem_padded) (hrest _) hlength,
    ofDigitChars_padded]

/-- A year is read to the dash behind it. -/
theorem readYear?_yearChars (year : Int) (rest : List Char) :
    readYear? (yearChars year ++ '-' :: rest) = some (year, '-' :: rest) := by
  rw [yearChars]
  by_cases hplain : 0 ≤ year ∧ year ≤ 9999
  · have hvalue : (year.toNat : Int) = year := Int.toNat_of_nonneg hplain.1
    rw [if_pos hplain, readYear?_padded (by omega), hvalue]
  · rw [if_neg hplain]
    by_cases hnegative : year < 0
    · have hvalue : -(year.natAbs : Int) = year := by omega
      rw [if_pos hnegative, List.cons_append, readYear?, readNumber?_signed]
      exact congrArg (fun y ↦ some (y, '-' :: rest)) hvalue
    · have hvalue : (year.natAbs : Int) = year := by omega
      rw [if_neg hnegative, List.cons_append, readYear?, readNumber?_signed]
      exact congrArg (fun y ↦ some (y, '-' :: rest)) hvalue

/-- No blank stands in front of a year. -/
theorem trimStart_yearChars (year : Int) (rest : List Char) :
    trimStart (yearChars year ++ rest) = yearChars year ++ rest := by
  rw [yearChars]
  by_cases hplain : 0 ≤ year ∧ year ≤ 9999
  · rw [if_pos hplain]
    exact trimStart_padded rest
  · rw [if_neg hplain]
    by_cases hnegative : year < 0
    · rw [if_pos hnegative]
      rfl
    · rw [if_neg hnegative]
      rfl

/-- A day is read as it is written. -/
theorem readDate?_write (date : Date) (rest : List Char) :
    readDate? (yearChars date.year ++ '-' :: (padded 2 date.month ++ '-' ::
      (padded 2 date.day ++ rest))) = some (date, rest) := by
  have hmonth : date.month < 10 ^ 2 := by have := date.month_mem; omega
  have hday : date.day < 10 ^ 2 := by have := date.day_le; omega
  have hdash : ∀ cs, trimStart ('-' :: cs) = '-' :: cs := fun _ ↦ rfl
  have hmark : ∀ cs, readMark? '-' ('-' :: cs) = some cs := fun _ ↦ rfl
  simp only [readDate?, trimStart_yearChars, readYear?_yearChars, hdash, hmark, trimStart_padded,
    readNumber?_padded (by decide : 0 < 2) hmonth, readNumber?_padded (by decide : 0 < 2) hday,
    Date.of?_self, Option.bind_eq_bind, Option.bind_some, Option.pure_def]

/-! ### Times of day -/

/-- The digits of a fraction are read with the missing ones as zeros. -/
theorem readFraction?_padded {width n : Nat} (hwidth : 0 < width) (hnine : width ≤ 9)
    (hn : n < 10 ^ width) :
    readFraction? ('.' :: padded width n ++ ['Z']) = some (n * 10 ^ (9 - width), ['Z']) := by
  have hlength := length_padded hwidth hn
  have htake : (padded width n ++ ['Z']).takeWhile Char.isDigit = padded width n := by
    rw [List.takeWhile_append_of_pos fun _ ↦ isDigit_of_mem_padded]
    exact List.append_nil _
  have hzeros : (padded width n ++ List.replicate 9 '0').take 9 =
      padded width n ++ List.replicate (9 - width) '0' := by
    rw [List.take_append, hlength, List.take_of_length_le (by omega), List.take_replicate,
      Nat.min_eq_left (Nat.sub_le 9 width)]
  have hvalue : Nat.ofDigitChars 10 (padded width n ++ List.replicate (9 - width) '0') 0 =
      n * 10 ^ (9 - width) := by
    rw [Nat.ofDigitChars_append, ofDigitChars_padded, Text.ofDigitChars_zeros]
  rw [List.cons_append, readFraction?, htake, if_neg (by simpa using padded_ne_nil), hzeros]
  dsimp only
  rw [hvalue, List.drop_left]

/-- A fraction is read as it is written. -/
theorem readFraction?_fractionChars {nanosecond : Nat} (h : nanosecond < 1000000000) :
    readFraction? (fractionChars nanosecond ++ ['Z']) = some (nanosecond, ['Z']) := by
  rw [fractionChars]
  -- Nothing, milliseconds, microseconds or nanoseconds, whichever is the first to be exact.
  by_cases hzero : nanosecond = 0
  · rw [if_pos hzero, hzero]
    rfl
  rw [if_neg hzero]
  by_cases hmilli : nanosecond % 1000000 = 0
  · have hvalue : nanosecond / 1000000 * 10 ^ (9 - 3) = nanosecond := by omega
    rw [if_pos hmilli, readFraction?_padded (by decide) (by decide) (by omega), hvalue]
  rw [if_neg hmilli]
  by_cases hmicro : nanosecond % 1000 = 0
  · have hvalue : nanosecond / 1000 * 10 ^ (9 - 6) = nanosecond := by omega
    rw [if_pos hmicro, readFraction?_padded (by decide) (by decide) (by omega), hvalue]
  · rw [if_neg hmicro, readFraction?_padded (by decide) (by decide) (by omega), Nat.sub_self,
      Nat.pow_zero, Nat.mul_one]

/-- A time of day is read as it is written. -/
theorem readTime?_write (t : Instant) :
    readTime? (padded 2 (t.minute / 60) ++ ':' :: (padded 2 (t.minute % 60) ++ ':' ::
      (padded 2 t.second ++ (fractionChars t.nanosecond ++ ['Z'])))) =
        some ((t.minute, t.second, t.nanosecond), ['Z']) := by
  have hminute := t.minute_lt
  have hsecond := t.second_le
  have hhours : t.minute / 60 < 24 := by omega
  have hminutes : t.minute % 60 < 60 := by omega
  have hsum : t.minute / 60 * 60 + t.minute % 60 = t.minute := by omega
  have hcolon : ∀ cs, trimStart (':' :: cs) = ':' :: cs := fun _ ↦ rfl
  have hmark : ∀ cs, readMark? ':' (':' :: cs) = some cs := fun _ ↦ rfl
  simp only [readTime?, trimStart_padded, hcolon, hmark,
    readNumber?_padded (by decide : 0 < 2) (by omega : t.minute / 60 < 10 ^ 2),
    readNumber?_padded (by decide : 0 < 2) (by omega : t.minute % 60 < 10 ^ 2),
    readNumber?_padded (by decide : 0 < 2) (by omega : t.second < 10 ^ 2),
    readFraction?_fractionChars t.nanosecond_lt, Option.bind_eq_bind, Option.bind_some,
    Option.pure_def, hhours, hminutes, hsum, and_self, if_true]

/-! ### Instants -/

/-- An instant is read as it is written. -/
theorem read?_write (t : Instant) : read? (write t) = some t := by
  have hdivider : ∀ cs, readDivider? ('T' :: cs) = some cs := fun _ ↦ rfl
  have hoffset : readOffset? (trimStart ['Z']) = some (0, []) := rfl
  have hend : trimStart [] = [] := rfl
  simp only [write, List.append_assoc, List.cons_append]
  simp only [read?, readDate?_write, hdivider, readTime?_write, hoffset, hend, Option.bind_eq_bind,
    Option.bind_some, if_true, Int.sub_zero]
  exact t.ofMinute?_self

end Listing.Rfc3339

namespace Listing

/-- The timestamp of an instant is read as the instant. -/
theorem Instant.ofRfc3339?_toRfc3339 (t : Instant) : ofRfc3339? t.toRfc3339 = some t := by
  rw [ofRfc3339?, toRfc3339, String.toList_ofList, Rfc3339.read?_write]

end Listing
