import Listing.Time.Instant

/-!
# Field values and records

A record is anything that gives a value, or none, for the name of a field. Values of one kind are
ordered: strings by code point, integers and instants by size, `false` before `true`. Values of
different kinds are not comparable (`Value.compare?`).
-/

set_option autoImplicit false
set_option relaxedAutoImplicit false

namespace Listing

/-- A relation between two values of one kind. -/
inductive Comparison where
  | equal
  | lessThan
  | greaterThan
deriving DecidableEq

/-- Whether the outcome of a comparison is the one asked for. -/
def Comparison.accepts : Comparison → Ordering → Bool
  | .equal, o => o.isEq
  | .lessThan, o => o.isLT
  | .greaterThan, o => o.isGT

/-- Whether the relation holds between two values of an ordered type. -/
def Comparison.holds {α : Type} [Ord α] (c : Comparison) (a b : α) : Bool :=
  c.accepts (compare a b)

/-- The value of a field. -/
inductive Value where
  | text (s : String)
  | integer (n : Int64)
  | moment (t : Instant)
  | flag (b : Bool)
deriving DecidableEq

/-- The order of two values of the same kind. -/
def Value.compare? : Value → Value → Option Ordering
  | .text s, .text t => some (compare s.toList t.toList)
  | .integer m, .integer n => some (compare m.toInt n.toInt)
  | .moment t, .moment u => some (compare t u)
  | .flag b, .flag c => some (compare b c)
  | _, _ => none

/-- Something whose fields can be looked up by name. -/
class Record (R : Type) where
  /-- The value of a field, if the record has it. -/
  field : R → String → Option Value

end Listing
