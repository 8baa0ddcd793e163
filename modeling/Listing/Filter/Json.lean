import Listing.Filter.Basic
import Listing.Json.Scalar

/-!
# Filters in JSON

A filter is written as an object: a member for each leaf filter that is present, and the members
`and`, `or` and `not` for the children. Absent bounds, absent leaf filters and empty lists of
children are not written; `ignoreCase` always is. A reader ignores unknown keys, takes `null` for an
absent bound, leaf filter or `not`, and also reads arrays of the fields in their order.
-/

set_option autoImplicit false
set_option relaxedAutoImplicit false

namespace Listing

open Json (Decoder)

/-! ### Leaf filters -/

namespace TextFilter

/-- The fields of a text filter. -/
def fields : List (Json.Field TextFilter) :=
  [ .of "equals" .optional (.optional .string) fun v f ↦ { f with equals := v },
    .of "contains" .optional (.optional .string) fun v f ↦ { f with contains := v },
    .of "ignoreCase" .defaulted .bool fun v f ↦ { f with ignoreCase := v } ]

/-- Reads a text filter. -/
def decoder : Decoder TextFilter := .record fields {}

/-- Writes a text filter. -/
def encode (f : TextFilter) : Json.Value :=
  .record
    [ ("equals", f.equals.map .string),
      ("contains", f.contains.map .string),
      ("ignoreCase", some (.bool f.ignoreCase)) ]

end TextFilter

namespace IntegerFilter

/-- The fields of an integer filter. -/
def fields : List (Json.Field IntegerFilter) :=
  [ .of "equals" .optional (.optional .int64) fun v f ↦ { f with equals := v },
    .of "lessThan" .optional (.optional .int64) fun v f ↦ { f with lessThan := v },
    .of "greaterThan" .optional (.optional .int64) fun v f ↦ { f with greaterThan := v } ]

/-- Reads an integer filter. -/
def decoder : Decoder IntegerFilter := .record fields {}

/-- Writes an integer filter. -/
def encode (f : IntegerFilter) : Json.Value :=
  .record
    [ ("equals", f.equals.map .ofInt64),
      ("lessThan", f.lessThan.map .ofInt64),
      ("greaterThan", f.greaterThan.map .ofInt64) ]

end IntegerFilter

namespace MomentFilter

/-- The fields of a filter on points of time. -/
def fields : List (Json.Field MomentFilter) :=
  [ .of "equals" .optional (.optional .instant) fun v f ↦ { f with equals := v },
    .of "before" .optional (.optional .instant) fun v f ↦ { f with before := v },
    .of "after" .optional (.optional .instant) fun v f ↦ { f with after := v } ]

/-- Reads a filter on points of time. -/
def decoder : Decoder MomentFilter := .record fields {}

/-- Writes a filter on points of time. -/
def encode (f : MomentFilter) : Json.Value :=
  .record
    [ ("equals", f.equals.map .ofInstant),
      ("before", f.before.map .ofInstant),
      ("after", f.after.map .ofInstant) ]

end MomentFilter

/-- Reads a leaf filter on a field of a kind. -/
def Kind.decoder : (k : Kind) → Decoder k.Leaf
  | .text => TextFilter.decoder
  | .integer => IntegerFilter.decoder
  | .moment => MomentFilter.decoder
  | .flag => Decoder.bool

/-- Writes a leaf filter on a field of a kind. -/
def Kind.encode : (k : Kind) → k.Leaf → Json.Value
  | .text, f => TextFilter.encode f
  | .integer, f => IntegerFilter.encode f
  | .moment, f => MomentFilter.encode f
  | .flag, b => .bool b

/-! ### Filters -/

namespace Slots

/-- The slots as fields of a record. -/
def fields : (fs : List FieldSpec) → List (Json.Field (Slots fs))
  | [] => []
  | f :: fs =>
    .of f.key .defaulted (.optional f.kind.decoder) (fun leaf s ↦ (leaf, s.2)) ::
      (fields fs).map (.lift fun change s ↦ (s.1, change s.2))

/-- The leaf filters that are present, as members of an object. -/
def members : (fs : List FieldSpec) → Slots fs → List (String × Option Json.Value)
  | [], _ => []
  | f :: fs, (leaf, rest) => (f.key, leaf.map f.kind.encode) :: members fs rest

end Slots

namespace Filter

variable {shape : Shape}

/-- The fields of a filter whose children are read as given. -/
def fields (child : Decoder (Filter shape)) : List (Json.Field (Filter shape)) :=
  (Slots.fields shape.fields).map (.lift fun change f ↦ { f with own := change f.own }) ++
    [ .of "and" .defaulted (.list child) fun fs f ↦ { f with and := fs },
      .of "or" .defaulted (.list child) fun fs f ↦ { f with or := fs },
      .of "not" .defaulted (.optional child) fun c f ↦ { f with not := c } ]

/-- Reads a filter of at most the given depth. -/
def decoderUpTo : Nat → Decoder (Filter shape)
  | 0 => fun _ _ ↦ .error .malformed
  | depth + 1 => .record (fields (decoderUpTo depth)) empty

/-- Reads a filter. Each node of it is a container, so its depth is at most the number of containers
that may be entered. -/
def decoder : Decoder (Filter shape) := fun room d ↦ decoderUpTo (room + 1) room d

/-- A list of children as the value of a member; an empty list is not written. -/
def encodeChildren : List Json.Value → Option Json.Value
  | [] => none
  | vs => some (.array vs)

/-- Writes a filter. -/
def encode : Filter shape → Json.Value := fold fun own and or not ↦
  .record (own.members shape.fields ++
    [("and", encodeChildren and), ("or", encodeChildren or), ("not", not)])

end Filter

end Listing
