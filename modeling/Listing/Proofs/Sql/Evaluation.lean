import Listing.Proofs.Sql.Like
import Listing.Value

/-!
# The value of a condition

What a database makes of a condition on a row. Truth values are those of SQL: next to `yes` and `no`
there is `unknown`, and the connectives answer only what holds for either value of what is unknown
(`Truth.and`, `Truth.or`, `Truth.not`). A comparison with a missing value is unknown.

`Condition.value` is the value of a condition from those of its comparisons, member by member from
the left. Building conditions does to values what it says: `Condition.value_join` and
`Condition.value_negate`, whatever members are unwrapped on the way.

`Atom.value` is the value of a comparison on a row. How a database folds case, finds the position of
a text and matches patterns is an `Engine`; `Engine.standard` folds case as `Text.uppercase` does,
counts positions from one, and ignores the case of ASCII letters in patterns except on one database.
-/

set_option autoImplicit false
set_option relaxedAutoImplicit false

namespace Listing.Sql

/-! ### Truth values -/

/-- A truth value of SQL. -/
inductive Truth where
  | no
  | unknown
  | yes
deriving DecidableEq

namespace Truth

/-- The truth value of an answer. -/
def ofBool : Bool → Truth
  | true => yes
  | false => no

/-- Both hold. -/
def and : Truth → Truth → Truth
  | no, _ => no
  | _, no => no
  | yes, t => t
  | unknown, _ => unknown

/-- At least one holds. -/
def or : Truth → Truth → Truth
  | yes, _ => yes
  | _, yes => yes
  | no, t => t
  | unknown, _ => unknown

/-- It does not hold. -/
def not : Truth → Truth
  | no => yes
  | unknown => unknown
  | yes => no

theorem ofBool_and (a b : Bool) : (ofBool a).and (ofBool b) = ofBool (a && b) := by
  cases a <;> cases b <;> rfl

theorem ofBool_or (a b : Bool) : (ofBool a).or (ofBool b) = ofBool (a || b) := by
  cases a <;> cases b <;> rfl

theorem ofBool_not (a : Bool) : (ofBool a).not = ofBool !a := by
  cases a <;> rfl

theorem ofBool_eq_yes_iff {a : Bool} : ofBool a = yes ↔ a = true := by
  cases a <;> simp [ofBool]

theorem and_eq_yes_iff {s t : Truth} : s.and t = yes ↔ s = yes ∧ t = yes := by
  cases s <;> cases t <;> simp [and]

theorem or_eq_yes_iff {s t : Truth} : s.or t = yes ↔ s = yes ∨ t = yes := by
  cases s <;> cases t <;> simp [or]

end Truth

/-! ### Conditions -/

/-- Two truth values joined as the members of a junction are. -/
def Junction.combine : Junction → Truth → Truth → Truth
  | .all => .and
  | .any => .or

/-- The value of a junction from those of its members. One without members counts as true, as it is
written. -/
def Junction.value (kind : Junction) : List Truth → Truth
  | [] => .yes
  | t :: ts => ts.foldl kind.combine t

section Condition

variable (atom : Atom → Truth)

mutual

/-- The value of a condition from the values of its comparisons. -/
def Condition.value : Condition → Truth
  | .atom a => atom a
  | .junction kind false members => kind.value (values members)
  | .junction kind true members => (kind.value (values members)).not

/-- The values of the members of a junction. -/
def Condition.values : List Condition → List Truth
  | [] => []
  | c :: cs => c.value :: values cs

end

/-- What is added to a junction has the value of the condition. -/
theorem Condition.value_asMember (c : Condition) : c.asMember.value atom = c.value atom := by
  unfold asMember
  split
  · rfl
  · rfl

/-- A junction of two conditions joins their values. -/
theorem Condition.value_join (kind : Junction) (l r : Condition) :
    (join kind l r).value atom = kind.combine (l.value atom) (r.value atom) := by
  rw [← value_asMember atom l, ← value_asMember atom r]
  rfl

/-- Negating a condition negates its value. -/
theorem Condition.value_negate (c : Condition) :
    c.negate.value atom = (c.value atom).not := by
  cases c with
  | atom a => rfl
  | junction kind negated members =>
    cases negated with
    | false => rfl
    | true =>
      change kind.value (values atom members) = (kind.value (values atom members)).not.not
      cases kind.value (values atom members) <;> rfl

end Condition

/-! ### Rows -/

/-- What a database does with texts. -/
structure Engine where
  /-- The text in capital letters. -/
  upper : String → String
  /-- The position of the first text in the second one, counted from one. -/
  position : String → String → Nat
  /-- Whether the second text matches the first one as a pattern. -/
  like : String → String → Bool

/-- Whether a database takes two characters of a pattern and a text for the same. -/
def Dialect.sameChar : Dialect → Char → Char → Bool
  | .postgres, c, d => c == d
  | _, c, d => c.toUpper == d.toUpper

/-- The database of a dialect, with full capital letters for every character. -/
def Engine.standard (d : Dialect) : Engine where
  upper := Text.uppercase
  position needle text := Sql.position needle.toList text.toList
  like pattern text := LikeItem.fits d.sameChar (LikeItem.read pattern.toList) text.toList

/-- The database of a dialect matches a text as the items of the pattern do. -/
theorem Engine.standard_like (d : Dialect) (pattern text : String) :
    (standard d).like pattern text =
      LikeItem.fits d.sameChar (LikeItem.read pattern.toList) text.toList := rfl

/-- What an expression of a statement comes to. -/
inductive Datum where
  | text (s : String)
  | number (n : Int)
  | moment (t : Instant)
  | flag (b : Bool)

namespace Datum

/-- The value of a field as a datum. -/
def ofValue : Value → Datum
  | .text s => text s
  | .integer n => number n.toInt
  | .moment t => moment t
  | .flag b => flag b

/-- A bound value as a datum. -/
def ofBound : Bound → Datum
  | .string s => text s
  | .bigInteger n => number n.toInt
  | .integer n => number n
  | .bool b => flag b
  | .moment t => moment t
  | .count n => number n.toNat

/-- The order of two data of one kind: texts by code point, `no` before `yes`. -/
def compare? : Datum → Datum → Option Ordering
  | text s, text t => some (compare s.toList t.toList)
  | number m, number n => some (compare m n)
  | moment t, moment u => some (compare t u)
  | flag b, flag c => some (compare b c)
  | _, _ => none

end Datum

section Row

variable {R : Type} [Record R] (e : Engine) (row : R)

/-- What the left side of a comparison comes to on a row; nothing if the field is missing. Only
texts can be folded and searched. -/
def Operand.datum : Operand → Option Datum
  | .column name => (Record.field row name).map .ofValue
  | .upper name => match Record.field row name with
    | some (.text s) => some (.text (e.upper s))
    | _ => none
  | .position name needle => match Record.field row name, needle with
    | some (.text s), .string n => some (.number (e.position n s))
    | _, _ => none
  | .value v => some (.ofBound v)

/-- The value of a comparison on a row: unknown if a side of it is missing. -/
def Atom.value : Atom → Truth
  | .compare lhs comparison rhs =>
    match (lhs.datum e row).bind (Datum.compare? · (.ofBound rhs)) with
    | some order => .ofBool (comparison.accepts order)
    | none => .unknown
  | .like lhs pattern => match lhs.datum e row, pattern with
    | some (.text s), .string p => .ofBool (e.like p s)
    | _, _ => .unknown

/-! ### Sides of a comparison -/

variable {e row} {name : String} {lhs : Operand} {comparison : Comparison} {rhs : Bound}

/-- A column of a missing field comes to nothing, upper-cased or not. -/
theorem Operand.datum_foldedColumn_of_missing (h : Record.field row name = none)
    (ignoreCase : Bool) : (Condition.foldedColumn name ignoreCase).datum e row = none := by
  cases ignoreCase <;> simp [Condition.foldedColumn, datum, h]

/-- A text has no position in a missing field. -/
theorem Operand.datum_position_of_missing (h : Record.field row name = none) (needle : Bound) :
    (position name needle).datum e row = none := by
  simp [datum, h]

/-- A column comes to the value of its field. -/
theorem Operand.datum_column {v : Value} (h : Record.field row name = some v) :
    (column name).datum e row = some (.ofValue v) := by
  simp [datum, h]

/-- The column of a text comes to what a comparison looks at. -/
theorem Operand.datum_foldedColumn (d : Dialect) {s : String}
    (h : Record.field row name = some (.text s)) (ignoreCase : Bool) :
    (Condition.foldedColumn name ignoreCase).datum (Engine.standard d) row =
      some (.text (Text.fold ignoreCase s)) := by
  cases ignoreCase <;> simp [Condition.foldedColumn, datum, h, Text.fold, Datum.ofValue,
    Engine.standard]

/-- The position of a text in a text is a number. -/
theorem Operand.datum_position {s : String} (h : Record.field row name = some (.text s))
    (needle : String) :
    (position name (.string needle)).datum e row = some (.number (e.position needle s)) := by
  simp [datum, h]

/-- A comparison of nothing is unknown. -/
theorem Atom.value_compare_of_missing (h : lhs.datum e row = none) :
    (compare lhs comparison rhs).value e row = .unknown := by
  rw [value, h]
  rfl

/-- Whether nothing matches a pattern is unknown. -/
theorem Atom.value_like_of_missing (h : lhs.datum e row = none) :
    (like lhs rhs).value e row = .unknown := by
  simp [value, h]

/-- A comparison of two data of one kind asks for their order. -/
theorem Atom.value_compare {x : Datum} {order : Ordering} (hlhs : lhs.datum e row = some x)
    (horder : x.compare? (.ofBound rhs) = some order) :
    (compare lhs comparison rhs).value e row = .ofBool (comparison.accepts order) := by
  rw [value, hlhs, Option.bind_some, horder]

/-- A text is matched as the database matches it. -/
theorem Atom.value_like {s : String} (hlhs : lhs.datum e row = some (.text s)) (pattern : String) :
    (like lhs (.string pattern)).value e row = .ofBool (e.like pattern s) := by
  simp [value, hlhs]

end Row

end Listing.Sql

/-! ### Selected rows -/

namespace Listing.Predicate

open Sql (Condition Atom Truth)

/-- A row is selected if the statement has no condition or the condition is true. -/
def Selects (atom : Atom → Truth) (p : Predicate Condition) : Prop :=
  ∀ c ∈ p.toCondition?, c.value atom = .yes

end Listing.Predicate
