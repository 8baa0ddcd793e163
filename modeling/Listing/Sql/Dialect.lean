/-!
# SQL dialects

What differs between the databases in the statements of this library: the quotation mark of names,
the way a placeholder is written, and the spelling of a backslash in a literal.
-/

set_option autoImplicit false
set_option relaxedAutoImplicit false

namespace Listing.Sql

/-- A database whose SQL is written. -/
inductive Dialect where
  | sqlite
  | postgres
  | mysql
deriving DecidableEq

namespace Dialect

instance : Inhabited Dialect := ⟨sqlite⟩

/-- The name of the database. -/
def name : Dialect → String
  | sqlite => "Sqlite"
  | postgres => "Postgres"
  | mysql => "MySql"

/-- The mark on both sides of a name. -/
def nameMark : Dialect → Char
  | mysql => '\x60'
  | _ => '"'

/-- A name between its marks; a mark inside is doubled. -/
def quoteName (d : Dialect) (name : String) : String :=
  let mark := d.nameMark
  let inside := name.toList.flatMap fun c ↦ if c = mark then [mark, mark] else [c]
  String.ofList (mark :: inside ++ [mark])

/-- The placeholder of the value with the given number, counted from one. -/
def placeholder (d : Dialect) (number : Nat) : String :=
  match d with
  | postgres => "$" ++ toString number
  | _ => "?"

/-- A literal that holds one backslash. -/
def backslashLiteral : Dialect → String
  | sqlite => "'\\'"
  | postgres => "E'\\\\'"
  | mysql => "'\\\\'"

end Dialect

end Listing.Sql
