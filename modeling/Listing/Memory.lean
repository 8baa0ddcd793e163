import Listing.Predicate
import Listing.Text.Search
import Listing.Text.Uppercase

/-!
# Filtering records in memory

A constraint is checked against a record directly: a record that lacks the field, or has a value of
another kind there, does not meet it. Texts are compared after upper-casing both if case is ignored.
`Matcher.backend` expresses predicates as such checks.
-/

set_option autoImplicit false
set_option relaxedAutoImplicit false

namespace Listing

/-- Whether a value passes a test. -/
def Test.accepts : Test → Value → Bool
  | .equals value ignoreCase, .text s => Text.fold ignoreCase s == Text.fold ignoreCase value
  | .contains value ignoreCase, .text s =>
    Text.contains (Text.fold ignoreCase s) (Text.fold ignoreCase value)
  | .integer comparison value, .integer n => comparison.accepts (compare n.toInt value.toInt)
  | .moment comparison value, .moment t => comparison.holds t value
  | .flag value, .flag b => b == value
  | _, _ => false

/-- Whether a record meets a constraint. -/
def Constraint.holds {R : Type} [Record R] (c : Constraint) (r : R) : Bool :=
  match Record.field r c.field with
  | some v => c.test.accepts v
  | none => false

/-- A check of records. -/
abbrev Matcher (R : Type) := R → Bool

/-- The backend whose expressions are checks of records. -/
def Matcher.backend (R : Type) [Record R] : Backend (Matcher R) where
  constraint c r := c.holds r
  and f g r := f r && g r
  or f g r := f r || g r
  not f r := !f r

namespace Predicate

variable {R : Type}

/-- Whether a record meets a predicate. -/
def accepts : Predicate (Matcher R) → R → Bool
  | always, _ => true
  | never, _ => false
  | expr f, r => f r

/-- The records that meet a predicate, in their order. -/
def select (p : Predicate (Matcher R)) (rs : List R) : List R := rs.filter p.accepts

end Predicate

end Listing
