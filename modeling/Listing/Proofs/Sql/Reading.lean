import Listing.Proofs.Sql.Evaluation
import Listing.Proofs.Sql.Scanner

/-!
# Reading a condition back

`Clause.read?` reads the text of a condition as a database does: it scans the text, makes
comparisons of the lexemes and joins the comparisons by precedence. The text of a condition is read
as the clause that was written (`Clause.read?_textFrom`), and that clause has the value of the
condition for whatever values its comparisons have (`Condition.value_clause`).
-/

set_option autoImplicit false
set_option relaxedAutoImplicit false

namespace Listing.Sql

/-! ### Comparisons -/

/-- Makes items of lexemes. Behind the left side of a comparison its right side is read. Only a
literal of one backslash may be the character that takes the meaning from the next one. -/
def readItems : Option Operand → List Lexeme → Option (List Item)
  | none, [] => some []
  | none, .opening :: ls => (readItems none ls).map (.opening :: ·)
  | none, .closing :: ls => (readItems none ls).map (.closing :: ·)
  | none, .keyword .not :: ls => (readItems none ls).map (.not :: ·)
  | none, .keyword .and :: ls => (readItems none ls).map (.operator .all :: ·)
  | none, .keyword .or :: ls => (readItems none ls).map (.operator .any :: ·)
  | none, .keyword .true :: ls => (readItems none ls).map (.truth :: ·)
  | none, .name s :: ls => readItems (some (.column s)) ls
  | none, .value v :: ls => readItems (some (.value v)) ls
  | none, .keyword .upper :: .opening :: .name s :: .closing :: ls => readItems (some (.upper s)) ls
  | none, .keyword .instr :: .opening :: .name s :: .comma :: .value v :: .closing :: ls =>
    readItems (some (.position s v)) ls
  | some lhs, .sign comparison :: .value v :: ls =>
    (readItems none ls).map (.atom (.compare lhs comparison v) :: ·)
  | some lhs, .keyword .like :: .value v :: .keyword .escape :: .literal ['\\'] :: ls =>
    (readItems none ls).map (.atom (.like lhs v) :: ·)
  | _, _ => none

theorem readItems_operand (o : Operand) (ls : List Lexeme) :
    readItems none (o.lexemes ++ ls) = readItems (some o) ls := by
  cases o <;> rfl

theorem readItems_item (i : Item) (ls : List Lexeme) :
    readItems none (i.lexemes ++ ls) = (readItems none ls).map (i :: ·) := by
  cases i with
  | atom a =>
    cases a with
    | compare lhs comparison rhs =>
      rw [Item.lexemes, Atom.lexemes, List.append_assoc, readItems_operand]
      rfl
    | like lhs pattern =>
      rw [Item.lexemes, Atom.lexemes, List.append_assoc, readItems_operand]
      rfl
  | operator kind => cases kind <;> rfl
  | _ => rfl

/-- The items are read from their lexemes. -/
theorem readItems_flatMap_lexemes (items : List Item) :
    readItems none (items.flatMap Item.lexemes) = some items := by
  induction items with
  | nil => rfl
  | cons i items ih => rw [List.flatMap_cons, readItems_item, ih, Option.map_some]

/-! ### Conditions -/

/-- Reads the text of a condition, with the values of its placeholders. -/
def Clause.read? (d : Dialect) (vs : List Bound) (text : String) : Option Clause :=
  ((scan d vs ⟨[], 0, .between⟩ text.toList).bind (readItems none)).bind Clause.ofItems?

/-- A clause is read as it was written. -/
theorem Clause.read?_textFrom (d : Dialect) (c : Clause) :
    Clause.read? d (Select.boundValues (c.pieces d)) (Select.textFrom d 1 (c.pieces d)) =
      some c := by
  rw [read?, scan_textFrom, Option.bind_some, readItems_flatMap_lexemes, Option.bind_some,
    ofItems?_items]

/-- Without parentheses `NOT` takes one comparison and `AND` both of its neighbours. -/
example : Clause.read? .sqlite [.bool true, .integer 1, .integer 0]
    "NOT \"a\" = ? OR \"b\" > ? AND \"c\" < ?" =
      some (.join .any (.not (.atom (.compare (.column "a") .equal (.bool true))))
        (.join .all (.atom (.compare (.column "b") .greaterThan (.integer 1)))
          (.atom (.compare (.column "c") .lessThan (.integer 0))))) := by
  decide

/-! ### Values -/

/-- The value of a comparison from those of the comparisons that depend on a row. A comparison of
two values depends on none. -/
def Atom.valueWith (leaf : Atom → Truth) : Atom → Truth
  | .compare (.value v) comparison rhs =>
    match (Datum.ofBound v).compare? (.ofBound rhs) with
    | some order => .ofBool (comparison.accepts order)
    | none => .unknown
  | a => leaf a

/-- The comparison of a constraint depends on a row. -/
theorem Atom.valueWith_atomOf (leaf : Atom → Truth) (d : Dialect) (c : Constraint) :
    (Condition.atomOf d c).valueWith leaf = leaf (Condition.atomOf d c) := by
  obtain ⟨field, test⟩ := c
  cases test with
  | equals value ignoreCase => cases ignoreCase <;> rfl
  | contains value ignoreCase =>
    rw [Condition.atomOf]
    dsimp only
    split <;> rfl
  | _ => rfl

section Value

variable (atom : Atom → Truth)

/-- The value of a clause from the values of its comparisons. -/
def Clause.value : Clause → Truth
  | .truth => .yes
  | .atom a => atom a
  | .not c => c.value.not
  | .join kind l r => kind.combine l.value r.value

/-- Clauses that are joined have their values joined. -/
theorem Clause.value_joinAll (kind : Junction) (cs : List Clause) :
    (joinAll kind cs).value atom = kind.value (cs.map (value atom)) := by
  cases cs with
  | nil => rfl
  | cons c cs =>
    have hfold : ∀ l : Clause, (cs.foldl (.join kind) l).value atom =
        (cs.map (value atom)).foldl kind.combine (l.value atom) := by
      induction cs with
      | nil => exact fun _ ↦ rfl
      | cons c cs ih => exact fun l ↦ ih (.join kind l c)
    exact hfold c

mutual

/-- The clause of a condition has the value of the condition. -/
theorem Condition.value_clause : ∀ c : Condition, c.clause.value atom = c.value atom
  | .atom a => rfl
  | .junction kind false members => by
    change (Clause.joinAll kind (clauses members)).value atom = kind.value (values atom members)
    rw [Clause.value_joinAll, map_value_clauses members]
  | .junction kind true members => by
    change ((Clause.joinAll kind (clauses members)).value atom).not =
      (kind.value (values atom members)).not
    rw [Clause.value_joinAll, map_value_clauses members]

/-- The clauses of the members of a junction have the values of the members. -/
theorem Condition.map_value_clauses :
    ∀ cs : List Condition, (clauses cs).map (Clause.value atom) = values atom cs
  | [] => rfl
  | c :: cs => by rw [clauses, values, List.map_cons, value_clause c, map_value_clauses cs]

end

end Value

end Listing.Sql
