import Listing.Text.Blank
import Listing.Time.Instant

/-!
# RFC 3339 timestamps

`Instant.toRfc3339` writes an instant in universal time: a year of four digits, or of more with a
sign if it lies outside `0` to `9999`, and the fewest of 0, 3, 6 or 9 digits of a second that lose
nothing. `Instant.ofRfc3339?` reads more than is written: blanks before every number and around the
separators, numbers of one digit, years with a sign, `t` or a space before the time, a fraction of
any length, and any offset of less than a day.
-/

set_option autoImplicit false
set_option relaxedAutoImplicit false

namespace Listing

namespace Rfc3339

open Text (isBlank trimStart)

/-! ### Writing -/

/-- A number in decimal digits, with zeros in front up to the width. -/
def padded (width n : Nat) : List Char :=
  let digits := Nat.toDigits 10 n
  List.replicate (width - digits.length) '0' ++ digits

/-- Four digits, with a sign in front if the year is not one of `0` to `9999`. -/
def yearChars (year : Int) : List Char :=
  if 0 ≤ year ∧ year ≤ 9999 then padded 4 year.toNat
  else (if year < 0 then '-' else '+') :: padded 4 year.natAbs

/-- The fewest of 0, 3, 6 or 9 digits that give the nanoseconds exactly. -/
def fractionChars (nanosecond : Nat) : List Char :=
  if nanosecond = 0 then []
  else if nanosecond % 1000000 = 0 then '.' :: padded 3 (nanosecond / 1000000)
  else if nanosecond % 1000 = 0 then '.' :: padded 6 (nanosecond / 1000)
  else '.' :: padded 9 nanosecond

/-- The written form of an instant. -/
def write (t : Instant) : List Char :=
  yearChars t.date.year ++ '-' :: padded 2 t.date.month ++ '-' :: padded 2 t.date.day ++
    'T' :: padded 2 (t.minute / 60) ++ ':' :: padded 2 (t.minute % 60) ++
      ':' :: padded 2 t.second ++ fractionChars t.nanosecond ++ ['Z']

/-! ### Reading -/

/-- A number of at least one and at most `width` digits, and what follows it. -/
def readNumber? (width : Nat) (cs : List Char) : Option (Nat × List Char) :=
  let digits := (cs.take width).takeWhile Char.isDigit
  if digits.isEmpty then none
  else some (Nat.ofDigitChars 10 digits 0, cs.drop digits.length)

/-- A number of exactly two digits, and what follows it. -/
def readPair? : List Char → Option (Nat × List Char)
  | a :: b :: rest =>
    if a.isDigit && b.isDigit then some (Nat.ofDigitChars 10 [a, b] 0, rest) else none
  | _ => none

/-- What follows an expected character. -/
def readMark? (mark : Char) : List Char → Option (List Char)
  | [] => none
  | c :: rest => if c = mark then some rest else none

/-- A year of at most four digits, or a sign and a year of any number of digits. -/
def readYear? (cs : List Char) : Option (Int × List Char) :=
  match cs with
  | '-' :: rest => (readNumber? rest.length rest).map fun (n, rest) ↦ (-(n : Int), rest)
  | '+' :: rest => (readNumber? rest.length rest).map fun (n, rest) ↦ ((n : Int), rest)
  | _ => (readNumber? 4 cs).map fun (n, rest) ↦ ((n : Int), rest)

/-- A day: year, month and day of the month with dashes between them. -/
def readDate? (cs : List Char) : Option (Date × List Char) := do
  let (year, cs) ← readYear? (trimStart cs)
  let cs ← readMark? '-' (trimStart cs)
  let (month, cs) ← readNumber? 2 (trimStart cs)
  let cs ← readMark? '-' (trimStart cs)
  let (day, cs) ← readNumber? 2 (trimStart cs)
  let date ← Date.of? year month day
  return (date, cs)

/-- A `t`, a `T` or one space stands between the day and the time. -/
def readDivider? : List Char → Option (List Char)
  | [] => none
  | c :: rest => if c = 't' ∨ c = 'T' ∨ c = ' ' then some rest else none

/-- The nanoseconds of an optional fraction: digits beyond the ninth are dropped. -/
def readFraction? : List Char → Option (Nat × List Char)
  | '.' :: cs =>
    let digits := cs.takeWhile Char.isDigit
    if digits.isEmpty then none
    else
      let nine := (digits ++ List.replicate 9 '0').take 9
      some (Nat.ofDigitChars 10 nine 0, cs.drop digits.length)
  | cs => some (0, cs)

/-- A time of day: the minute of the day, the second and the nanosecond. -/
def readTime? (cs : List Char) : Option ((Nat × Nat × Nat) × List Char) := do
  let (hour, cs) ← readNumber? 2 (trimStart cs)
  let cs ← readMark? ':' (trimStart cs)
  let (minute, cs) ← readNumber? 2 (trimStart cs)
  let cs ← readMark? ':' (trimStart cs)
  let (second, cs) ← readNumber? 2 (trimStart cs)
  let (nanosecond, cs) ← readFraction? cs
  if hour < 24 ∧ minute < 60 then
    return ((hour * 60 + minute, second, nanosecond), cs)
  else
    none

/-- Whether the text goes on with the letters `UTC`, in either case. -/
def startsWithUtc (cs : List Char) : Bool := (cs.take 3).map Char.toUpper == ['U', 'T', 'C']

/-- A sign as a factor; the minus sign of typography counts as one. -/
def readSign? : List Char → Option (Int × List Char)
  | '+' :: rest => some (1, rest)
  | '-' :: rest => some (-1, rest)
  | '\u2212' :: rest => some (-1, rest)
  | _ => none

/-- The offset from universal time in minutes: none for `Z` and `UTC`, else hours and minutes. -/
def readOffset? (cs : List Char) : Option (Int × List Char) :=
  match cs with
  | 'Z' :: rest => some (0, rest)
  | 'z' :: rest => some (0, rest)
  | _ =>
    if startsWithUtc cs then some (0, cs.drop 3)
    else do
      let (sign, cs) ← readSign? cs
      let (hours, cs) ← readPair? cs
      let (minutes, cs) ← readPair? (cs.dropWhile fun c ↦ c == ':' || isBlank c)
      if minutes < 60 ∧ hours * 60 + minutes < 24 * 60 then
        return (sign * (hours * 60 + minutes : Nat), cs)
      else
        none

/-- The instant that a timestamp names. -/
def read? (cs : List Char) : Option Instant := do
  let (date, cs) ← readDate? cs
  let cs ← readDivider? cs
  let ((minute, second, nanosecond), cs) ← readTime? cs
  let (offset, cs) ← readOffset? (trimStart cs)
  if trimStart cs = [] then
    Instant.ofMinute? date (minute - offset) second nanosecond
  else
    none

end Rfc3339

namespace Instant

/-- The timestamp of an instant. -/
def toRfc3339 (t : Instant) : String := String.ofList (Rfc3339.write t)

/-- The instant of a timestamp. -/
def ofRfc3339? (s : String) : Option Instant := Rfc3339.read? s.toList

end Instant

end Listing
