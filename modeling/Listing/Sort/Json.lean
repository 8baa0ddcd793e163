import Listing.Json.Decoder
import Listing.Json.Value
import Listing.Sort.Basic

/-!
# Sort requests in JSON

Directions are the words `ASC` and `DESC`; both lists of a sort request may be left out.
-/

set_option autoImplicit false
set_option relaxedAutoImplicit false

namespace Listing

open Json (Decoder)

namespace Direction

/-- Reads a direction. -/
def decoder : Decoder Direction := .word ofText?

/-- Writes a direction. -/
def encode (d : Direction) : Json.Value := .string d.text

end Direction

namespace SortSpec

/-- The fields of a sort request. -/
def specFields : List (Json.Field SortSpec) :=
  [ .of "fields" .defaulted (.list .string) fun v s ↦ { s with fields := v },
    .of "directions" .defaulted (.list Direction.decoder) fun v s ↦ { s with directions := v } ]

/-- Reads a sort request. -/
def decoder : Decoder SortSpec := .record specFields {}

/-- Writes a sort request. -/
def encode (s : SortSpec) : Json.Value :=
  .object
    [ ("fields", .array (s.fields.map .string)),
      ("directions", .array (s.directions.map Direction.encode)) ]

end SortSpec

end Listing
