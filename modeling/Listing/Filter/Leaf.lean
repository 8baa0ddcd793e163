import Listing.Constraint

/-!
# Leaf filters

A leaf filter restricts one field by bounds that must all hold. Which bounds there are depends on
the kind of the field; the filter of a flag is its value. `Kind.tests` lists the bounds that are
set.
-/

set_option autoImplicit false
set_option relaxedAutoImplicit false

namespace Listing

/-- The bounds on a text. -/
structure TextFilter where
  equals : Option String := none
  contains : Option String := none
  ignoreCase : Bool := false
deriving DecidableEq

/-- The bounds on an integer. -/
structure IntegerFilter where
  equals : Option Int64 := none
  lessThan : Option Int64 := none
  greaterThan : Option Int64 := none
deriving DecidableEq

/-- The bounds on a point of time. -/
structure MomentFilter where
  equals : Option Instant := none
  before : Option Instant := none
  after : Option Instant := none
deriving DecidableEq

namespace TextFilter

/-- The text must be the given one. -/
def equalTo (value : String) : TextFilter := { equals := some value }

/-- The given text must occur in the text. -/
def containing (value : String) : TextFilter := { contains := some value }

/-- The same bounds without regard to case. -/
def ignoringCase (f : TextFilter) : TextFilter := { f with ignoreCase := true }

/-- The bounds that are set. -/
def tests (f : TextFilter) : List Test :=
  (f.equals.map (Test.equals · f.ignoreCase)).toList ++
    (f.contains.map (Test.contains · f.ignoreCase)).toList

end TextFilter

/-- The bounds that are set. -/
def IntegerFilter.tests (f : IntegerFilter) : List Test :=
  (f.equals.map (Test.integer .equal)).toList ++
    (f.lessThan.map (Test.integer .lessThan)).toList ++
      (f.greaterThan.map (Test.integer .greaterThan)).toList

/-- The bounds that are set. -/
def MomentFilter.tests (f : MomentFilter) : List Test :=
  (f.equals.map (Test.moment .equal)).toList ++
    (f.before.map (Test.moment .lessThan)).toList ++
      (f.after.map (Test.moment .greaterThan)).toList

/-- The kinds of fields. -/
inductive Kind where
  | text
  | integer
  | moment
  | flag
deriving DecidableEq

/-- The leaf filters on fields of a kind. -/
def Kind.Leaf : Kind → Type
  | .text => TextFilter
  | .integer => IntegerFilter
  | .moment => MomentFilter
  | .flag => Bool

instance (k : Kind) : DecidableEq k.Leaf :=
  match k with
  | .text => inferInstanceAs (DecidableEq TextFilter)
  | .integer => inferInstanceAs (DecidableEq IntegerFilter)
  | .moment => inferInstanceAs (DecidableEq MomentFilter)
  | .flag => inferInstanceAs (DecidableEq Bool)

/-- The bounds that a leaf filter sets, in the order in which they are checked. -/
def Kind.tests : (k : Kind) → k.Leaf → List Test
  | .text, f => TextFilter.tests f
  | .integer, f => IntegerFilter.tests f
  | .moment, f => MomentFilter.tests f
  | .flag, b => [Test.flag b]

end Listing
