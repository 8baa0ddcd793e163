import Listing.Time.Date

/-!
# Instants

A point of time to the nanosecond, kept as its day, minute and second in universal time. The second
number 60 is a leap second: it stands after second 59 of its minute and before the next minute, so
instants are ordered field by field.
-/

set_option autoImplicit false
set_option relaxedAutoImplicit false

namespace Listing

/-- A point of time, in universal time. -/
structure Instant where
  date : Date
  /-- The minute of the day. -/
  minute : Nat
  /-- The second of the minute; 60 is a leap second. -/
  second : Nat
  nanosecond : Nat
  minute_lt : minute < 24 * 60
  second_le : second ≤ 60
  nanosecond_lt : nanosecond < 1000000000
deriving DecidableEq

namespace Instant

/-- Instants are ordered by day, then minute, then second, then nanosecond. -/
instance : Ord Instant where
  compare := compareLex (compareOn date)
    (compareLex (compareOn minute) (compareLex (compareOn second) (compareOn nanosecond)))

/-- The instant with the given fields, if there is one. -/
def of? (date : Date) (minute second nanosecond : Nat) : Option Instant :=
  if h : minute < 24 * 60 ∧ second ≤ 60 ∧ nanosecond < 1000000000 then
    some ⟨date, minute, second, nanosecond, h.1, h.2.1, h.2.2⟩
  else none

/-- The instant at a minute that may also lie on the day before or on the day after. -/
def ofMinute? (date : Date) (minute : Int) (second nanosecond : Nat) : Option Instant :=
  if minute < 0 then
    date.previous?.bind fun day ↦ of? day (minute + 24 * 60).toNat second nanosecond
  else if minute < 24 * 60 then
    of? date minute.toNat second nanosecond
  else
    date.next?.bind fun day ↦ of? day (minute - 24 * 60).toNat second nanosecond

/-- The fields of an instant lead back to it. -/
theorem ofMinute?_self (t : Instant) :
    ofMinute? t.date t.minute t.second t.nanosecond = some t := by
  have hstart : ¬ (t.minute : Int) < 0 := by omega
  have hend : (t.minute : Int) < 24 * 60 := by have := t.minute_lt; omega
  rw [ofMinute?, if_neg hstart, if_pos hend, Int.toNat_natCast, of?,
    dif_pos ⟨t.minute_lt, t.second_le, t.nanosecond_lt⟩]

end Instant

end Listing
