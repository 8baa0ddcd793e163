import Listing.Filter.Leaf

/-!
# Shapes

A shape is what a kind of record can be filtered by: its fields in their declared order, each with
the name that backends and records use, the key that JSON uses, and its kind. `Slots` holds one
optional leaf filter for each field.
-/

set_option autoImplicit false
set_option relaxedAutoImplicit false

namespace Listing

/-- A field that can be filtered and sorted by. -/
structure FieldSpec where
  /-- The name of the field in records and backends. -/
  name : String
  /-- The key of the field in JSON. -/
  key : String
  kind : Kind
deriving DecidableEq

/-- The fields of a kind of record. -/
structure Shape where
  fields : List FieldSpec
deriving DecidableEq

/-- The names of the fields. -/
def Shape.names (s : Shape) : List String := s.fields.map (·.name)

/-- An optional leaf filter for each field. -/
def Slots : List FieldSpec → Type
  | [] => Unit
  | f :: fs => Option f.kind.Leaf × Slots fs

namespace Slots

/-- No leaf filter at all. -/
def empty : (fs : List FieldSpec) → Slots fs
  | [] => ()
  | _ :: fs => (none, empty fs)

/-- The constraints of one slot. -/
def constraintsOf (f : FieldSpec) : Option f.kind.Leaf → List Constraint
  | none => []
  | some leaf => (f.kind.tests leaf).map (Constraint.mk f.name)

/-- The constraints of each slot, field by field. -/
def constraints : (fs : List FieldSpec) → Slots fs → List (List Constraint)
  | [], _ => []
  | f :: fs, (leaf, rest) => constraintsOf f leaf :: constraints fs rest

instance decidableEq : (fs : List FieldSpec) → DecidableEq (Slots fs)
  | [] => inferInstanceAs (DecidableEq Unit)
  | f :: fs =>
    have := decidableEq fs
    inferInstanceAs (DecidableEq (Option f.kind.Leaf × Slots fs))

end Slots

end Listing
