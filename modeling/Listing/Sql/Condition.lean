import Listing.Backend
import Listing.Count
import Listing.Predicate
import Listing.Sql.Dialect
import Listing.Text.Uppercase

/-!
# SQL conditions

A condition is a junction: comparisons and further junctions of which all or any must hold, with a
mark whether the whole is negated. `Condition.backend` expresses predicates as conditions. A
junction of one member that is not negated never stands inside another one: adding it adds its
member.

Texts are compared with the upper-cased column if case is ignored. Whether a text occurs in a column
is asked with `LIKE`, and where `LIKE` itself ignores case but the question does not, by the
position of the text in the column.
-/

set_option autoImplicit false
set_option relaxedAutoImplicit false

namespace Listing.Sql

/-- A value that is bound to a placeholder. -/
inductive Bound where
  | string (s : String)
  | bigInteger (n : Int64)
  | integer (n : Int)
  | bool (b : Bool)
  | moment (t : Instant)
  | count (n : Count)
deriving DecidableEq

/-- The left side of a comparison. -/
inductive Operand where
  | column (name : String)
  /-- The upper-cased column. -/
  | upper (name : String)
  /-- The position of a text in the column, counted from one; zero if it does not occur. -/
  | position (name : String) (needle : Bound)
  | value (v : Bound)
deriving DecidableEq

/-- A comparison that a condition is made of. -/
inductive Atom where
  | compare (lhs : Operand) (comparison : Comparison) (rhs : Bound)
  /-- The text matches a pattern in which a backslash takes the meaning from the next character. -/
  | like (lhs : Operand) (pattern : Bound)
deriving DecidableEq

/-- How the members of a junction are joined. -/
inductive Junction where
  | all
  | any
deriving DecidableEq

/-- A comparison, or a junction of conditions. -/
inductive Condition where
  | atom (a : Atom)
  | junction (kind : Junction) (negated : Bool) (members : List Condition)

namespace Condition

/-! ### Building conditions -/

/-- The junction of one comparison. -/
def single (a : Atom) : Condition := .junction .all false [.atom a]

/-- What is added to a junction for a condition. -/
def asMember : Condition → Condition
  | .junction _ false [member] => member
  | c => c

/-- The junction of two conditions. -/
def join (kind : Junction) (l r : Condition) : Condition :=
  .junction kind false [l.asMember, r.asMember]

/-- The condition with its mark of negation turned over. -/
def negate : Condition → Condition
  | .junction kind negated members => .junction kind (!negated) members
  | .atom a => .junction .all true [.atom a]

/-- Whether the condition is a junction without members. -/
def isEmpty : Condition → Bool
  | .junction _ _ members => members.isEmpty
  | .atom _ => false

/-! ### Constraints -/

/-- Takes the meaning from the characters that have one in a pattern. -/
def escapeLike (cs : List Char) : List Char :=
  cs.flatMap fun c ↦ if c = '\\' ∨ c = '%' ∨ c = '_' then ['\\', c] else [c]

/-- The pattern of the texts in which a text occurs. -/
def likePattern (s : String) : String :=
  String.ofList ('%' :: escapeLike s.toList ++ ['%'])

/-- The column, upper-cased if case is ignored. -/
def foldedColumn (field : String) (ignoreCase : Bool) : Operand :=
  if ignoreCase then .upper field else .column field

/-- The comparison that a constraint is. -/
def atomOf (d : Dialect) (c : Constraint) : Atom :=
  match c.test with
  | .equals value ignoreCase =>
    .compare (foldedColumn c.field ignoreCase) .equal (.string (Text.fold ignoreCase value))
  | .contains value ignoreCase =>
    if ignoreCase ∨ d = .postgres then
      .like (foldedColumn c.field ignoreCase) (.string (likePattern (Text.fold ignoreCase value)))
    else
      .compare (.position c.field (.string value)) .greaterThan (.integer 0)
  | .integer comparison value => .compare (.column c.field) comparison (.bigInteger value)
  | .moment comparison value => .compare (.column c.field) comparison (.moment value)
  | .flag value => .compare (.column c.field) .equal (.bool value)

/-- The backend whose expressions are conditions. -/
def backend (d : Dialect) : Backend Condition where
  constraint c := single (atomOf d c)
  and := join .all
  or := join .any
  not := negate

end Condition

end Listing.Sql

namespace Listing.Predicate

open Sql (Condition)

/-- A predicate as a condition: one without members if it holds always, and a comparison of two
different numbers if it holds never. -/
def toCondition : Predicate Condition → Condition
  | always => .junction .all false []
  | never => .single (.compare (.value (.integer 1)) .equal (.integer 0))
  | expr c => c

/-- The condition that a statement needs for a predicate; none if it holds always. -/
def toCondition? : Predicate Condition → Option Condition
  | always => none
  | p => some p.toCondition

end Listing.Predicate
