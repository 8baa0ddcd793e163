import Listing.Backend

/-!
# Formulas

The backend that keeps what it is given: its expressions are the trees of the calls that it
receives, and every other backend is a way to interpret such a tree (`Formula.interpret`).
-/

set_option autoImplicit false
set_option relaxedAutoImplicit false

namespace Listing

/-- A condition as a tree of constraints and connectives. -/
inductive Formula where
  | constraint (c : Constraint)
  | and (l r : Formula)
  | or (l r : Formula)
  | not (f : Formula)
deriving DecidableEq

namespace Formula

/-- The backend whose expressions are formulas. -/
def backend : Backend Formula where
  constraint := constraint
  and := and
  or := or
  not := not

/-- A formula in the terms of another backend. -/
def interpret {E : Type} (b : Backend E) : Formula → E
  | constraint c => b.constraint c
  | and l r => b.and (l.interpret b) (r.interpret b)
  | or l r => b.or (l.interpret b) (r.interpret b)
  | not f => b.not (f.interpret b)

end Formula

end Listing
