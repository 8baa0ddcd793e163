import Listing.Constraint

/-!
# Backends

A backend says in which terms a predicate is expressed: how a constraint is written, and how the
expressions of two predicates are joined or one is negated. Predicates that hold always or never are
not the backend's business (`Listing.Predicate`), so every expression is a real condition.
-/

set_option autoImplicit false
set_option relaxedAutoImplicit false

namespace Listing

/-- A language of conditions. -/
structure Backend (E : Type) where
  constraint : Constraint → E
  and : E → E → E
  or : E → E → E
  not : E → E

end Listing
