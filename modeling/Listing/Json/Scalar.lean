import Listing.Count
import Listing.Json.Decoder
import Listing.Json.Value
import Listing.Time.Rfc3339

/-!
# Scalars in JSON

How 64-bit integers, counts and instants are written and read: numbers as integer literals in their
range, instants as RFC 3339 timestamps. Each reader accepts what the writer beside it produces.
-/

set_option autoImplicit false
set_option relaxedAutoImplicit false

namespace Listing.Json

/-- The 64-bit integer of that size, if there is one. -/
def int64? (n : Int) : Option Int64 :=
  if Int64.minValue.toInt ≤ n ∧ n ≤ Int64.maxValue.toInt then some (Int64.ofInt n) else none

/-- The count of that size, if there is one. -/
def count? (n : Int) : Option Count :=
  if 0 ≤ n ∧ n < UInt64.size then some (UInt64.ofNat n.toNat) else none

namespace Decoder

/-- Reads a 64-bit integer. -/
def int64 : Decoder Int64 := integer.filterMap int64?

/-- Reads a count. -/
def count : Decoder Count := integer.filterMap count?

/-- Reads an instant. -/
def instant : Decoder Instant := string.filterMap Instant.ofRfc3339?

end Decoder

namespace Value

/-- Writes a 64-bit integer. -/
def ofInt64 (n : Int64) : Value := .integer n.toInt

/-- Writes a count. -/
def ofCount (n : Count) : Value := .integer n.toNat

/-- Writes an instant. -/
def ofInstant (t : Instant) : Value := .string t.toRfc3339

end Value

end Listing.Json
