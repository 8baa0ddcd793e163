import Listing.Value

/-!
# Constraints

A constraint is the smallest condition on a record: a test of one field. A filter is compiled into
constraints joined by a backend's connectives.
-/

set_option autoImplicit false
set_option relaxedAutoImplicit false

namespace Listing

/-- A test of one value. -/
inductive Test where
  /-- The text is the given one. -/
  | equals (value : String) (ignoreCase : Bool)
  /-- The given text occurs in the text. -/
  | contains (value : String) (ignoreCase : Bool)
  | integer (comparison : Comparison) (value : Int64)
  | moment (comparison : Comparison) (value : Instant)
  | flag (value : Bool)
deriving DecidableEq

/-- A test of one field. -/
structure Constraint where
  field : String
  test : Test
deriving DecidableEq

end Listing
