import Listing.Page.Basic
import Listing.Sql.Clause

/-!
# SELECT statements

A statement selects a column of a table, with an optional condition, sort keys and an optional
range. It is written as pieces, of which `Select.text` makes the text for a dialect, with a
placeholder for each bound value, and `Select.values` the list of those values in the order of their
placeholders.
-/

set_option autoImplicit false
set_option relaxedAutoImplicit false

namespace Listing.Sql

/-- A column of a table to select. -/
structure Source where
  table : String
  column : String
deriving DecidableEq

/-- A statement. -/
structure Select where
  source : Source
  condition : Option Condition := none
  order : SortOrder := {}
  range : Option PageRange := none

/-- Writes a sort key. -/
def sortKeyPieces (k : SortKey) : List Piece := [.name k.field, .verbatim (" " ++ k.direction.text)]

namespace Select

/-- Writes the condition. -/
def conditionPieces (d : Dialect) : Option Condition → List Piece
  | none => []
  | some c => .verbatim " WHERE " :: c.clause.pieces d

/-- Writes the sort keys. -/
def orderPieces (o : SortOrder) : List Piece :=
  match o.keys with
  | [] => []
  | k :: ks =>
    .verbatim " ORDER BY " :: sortKeyPieces k ++
      ks.flatMap fun k ↦ .verbatim ", " :: sortKeyPieces k

/-- Writes the range. -/
def rangePieces : Option PageRange → List Piece
  | none => []
  | some r =>
    [.verbatim " LIMIT ", .bound (.count r.limit), .verbatim " OFFSET ", .bound (.count r.offset)]

/-- Writes a statement. -/
def pieces (d : Dialect) (s : Select) : List Piece :=
  [.verbatim "SELECT ", .name s.source.table, .verbatim ".", .name s.source.column,
      .verbatim " FROM ", .name s.source.table] ++
    conditionPieces d s.condition ++ orderPieces s.order ++ rangePieces s.range

/-- The text of pieces; the bound values are numbered from the given number on. -/
def textFrom (d : Dialect) : Nat → List Piece → String
  | _, [] => ""
  | n, .verbatim s :: ps => s ++ textFrom d n ps
  | n, .name s :: ps => d.quoteName s ++ textFrom d n ps
  | n, .bound _ :: ps => d.placeholder n ++ textFrom d (n + 1) ps

/-- The values that are bound in pieces. -/
def boundValues (ps : List Piece) : List Bound := ps.filterMap fun
  | .bound v => some v
  | _ => none

/-- The text of a statement. -/
def text (d : Dialect) (s : Select) : String := textFrom d 1 (s.pieces d)

/-- The values of a statement, in the order of their placeholders. -/
def values (d : Dialect) (s : Select) : List Bound := boundValues (s.pieces d)

end Select

end Listing.Sql
