import Listing.Json.Scalar
import Listing.Page.Basic

/-!
# Pages in JSON

All fields of a page request, of a summary and of a page must be written.
-/

set_option autoImplicit false
set_option relaxedAutoImplicit false

namespace Listing

open Json (Decoder)

namespace PageRequest

/-- The fields of a page request. -/
def fields : List (Json.Field PageRequest) :=
  [ .of "page" .required .count fun v r ↦ { r with page := v },
    .of "size" .required .count fun v r ↦ { r with size := v } ]

/-- Reads a page request. -/
def decoder : Decoder PageRequest := .record fields ⟨0, 0⟩

/-- Writes a page request. -/
def encode (r : PageRequest) : Json.Value :=
  .object [("page", .ofCount r.page), ("size", .ofCount r.size)]

end PageRequest

namespace Summary

/-- The fields of a summary. -/
def fields : List (Json.Field Summary) :=
  [ .of "page" .required .count fun v s ↦ { s with page := v },
    .of "size" .required .count fun v s ↦ { s with size := v },
    .of "totalElements" .required .count fun v s ↦ { s with totalElements := v },
    .of "totalPages" .required .count fun v s ↦ { s with totalPages := v },
    .of "hasNext" .required .bool fun v s ↦ { s with hasNext := v } ]

/-- Reads a summary. -/
def decoder : Decoder Summary := .record fields ⟨0, 0, 0, 0, false⟩

/-- Writes a summary. -/
def encode (s : Summary) : Json.Value :=
  .object
    [ ("page", .ofCount s.page),
      ("size", .ofCount s.size),
      ("totalElements", .ofCount s.totalElements),
      ("totalPages", .ofCount s.totalPages),
      ("hasNext", .bool s.hasNext) ]

end Summary

namespace Page

variable {α : Type}

/-- The fields of a page whose items are read as given. -/
def fields (item : Decoder α) : List (Json.Field (Page α)) :=
  [ .of "content" .required (.list item) fun v p ↦ { p with content := v },
    .of "pagination" .required Summary.decoder fun v p ↦ { p with pagination := v } ]

/-- Reads a page. -/
def decoder (item : Decoder α) : Decoder (Page α) :=
  .record (fields item) ⟨[], ⟨0, 0, 0, 0, false⟩⟩

/-- Writes a page. -/
def encode (item : α → Json.Value) (p : Page α) : Json.Value :=
  .object [("content", .array (p.content.map item)), ("pagination", p.pagination.encode)]

end Page

end Listing
