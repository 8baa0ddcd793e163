import Listing.Sql.Condition

/-!
# WHERE clauses

A condition is written with the binary operators `AND` and `OR`, to which its junctions are unfolded
from the left, and with `NOT`. Parentheses stand around an operand only where reading without them
would give another tree, or where the operand is a `NOT`.

The text is a row of pieces in which names and bound values keep their identity. A value never
becomes text: it leaves a placeholder there.
-/

set_option autoImplicit false
set_option relaxedAutoImplicit false

namespace Listing.Sql

/-- A piece of a statement. -/
inductive Piece where
  | verbatim (s : String)
  | name (s : String)
  | bound (v : Bound)
deriving DecidableEq

/-- A condition with binary operators. -/
inductive Clause where
  | truth
  | atom (a : Atom)
  | not (c : Clause)
  | join (kind : Junction) (l r : Clause)
deriving DecidableEq

/-! ### From conditions to clauses -/

/-- Joins clauses from the left; without any the result is true. -/
def Clause.joinAll (kind : Junction) : List Clause → Clause
  | [] => .truth
  | c :: cs => cs.foldl (.join kind) c

mutual

/-- The clause of a condition. -/
def Condition.clause : Condition → Clause
  | .atom a => .atom a
  | .junction kind false members => .joinAll kind (clauses members)
  | .junction kind true members => .not (.joinAll kind (clauses members))

/-- The clauses of the members of a junction. -/
def Condition.clauses : List Condition → List Clause
  | [] => []
  | c :: cs => c.clause :: clauses cs

end

/-! ### Writing clauses -/

/-- Writes the left side of a comparison. -/
def Operand.pieces : Operand → List Piece
  | .column name => [.name name]
  | .upper name => [.verbatim "UPPER(", .name name, .verbatim ")"]
  | .position name needle =>
    [.verbatim "INSTR(", .name name, .verbatim ", ", .bound needle, .verbatim ")"]
  | .value v => [.bound v]

/-- The sign of a comparison. -/
def comparisonSign : Comparison → String
  | .equal => " = "
  | .lessThan => " < "
  | .greaterThan => " > "

/-- Writes a comparison. -/
def Atom.pieces (d : Dialect) : Atom → List Piece
  | .compare lhs comparison rhs =>
    lhs.pieces ++ [.verbatim (comparisonSign comparison), .bound rhs]
  | .like lhs pattern =>
    lhs.pieces ++
      [.verbatim " LIKE ", .bound pattern, .verbatim " ESCAPE ", .verbatim d.backslashLiteral]

/-- The operator of a junction. -/
def Junction.operator : Junction → String
  | .all => " AND "
  | .any => " OR "

/-- Puts pieces into parentheses if asked to. -/
def parenthesized (needed : Bool) (pieces : List Piece) : List Piece :=
  if needed then .verbatim "(" :: pieces ++ [.verbatim ")"] else pieces

namespace Clause

/-- Whether the clause is a junction. -/
def isJoin : Clause → Bool
  | join _ _ _ => true
  | _ => false

/-- Whether the clause needs parentheses as the left operand of a junction: a junction of the same
kind needs none there. -/
def guardedLeft (kind : Junction) : Clause → Bool
  | not _ => true
  | join k _ _ => k ≠ kind
  | _ => false

/-- Whether the clause needs parentheses as the right operand of a junction. -/
def guardedRight : Clause → Bool
  | not _ => true
  | c => c.isJoin

/-- Writes a clause. -/
def pieces (d : Dialect) : Clause → List Piece
  | truth => [.verbatim "TRUE"]
  | atom a => a.pieces d
  | not c => .verbatim "NOT " :: parenthesized c.isJoin (c.pieces d)
  | join kind l r =>
    parenthesized (l.guardedLeft kind) (l.pieces d) ++ .verbatim kind.operator ::
      parenthesized r.guardedRight (r.pieces d)

end Clause

end Listing.Sql
