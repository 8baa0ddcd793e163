import Listing.Count
import Listing.Sort.Basic

/-!
# Pages

A page request asks for one page of a result, counted from zero; a page size of zero counts as one.
It becomes a range of positions in the result, and a summary tells the client where the page stands.
All numbers are counts, and sums and products of counts do not wrap.
-/

set_option autoImplicit false
set_option relaxedAutoImplicit false

namespace Listing

/-- The number and the size of a page. -/
structure PageRequest where
  page : Count
  size : Count
deriving DecidableEq

namespace PageRequest

/-- The page size, at least one. -/
def limit (r : PageRequest) : Count := if r.size = 0 then 1 else r.size

/-- The number of items before the page. -/
def offset (r : PageRequest) : Count := r.page.times r.limit

end PageRequest

/-- A range of positions in a result. -/
structure PageRange where
  /-- How many items are left out in front. -/
  offset : Count
  /-- How many items follow, at most. -/
  limit : Count
deriving DecidableEq

/-- What a query returns of the matching records: all of them or a range, in an order. -/
structure Window where
  order : SortOrder
  range : Option PageRange
deriving DecidableEq

namespace Window

/-- The window of an optional page request; without one there is no range. -/
def of (page : Option PageRequest) (order : SortOrder) : Window :=
  ⟨order, page.map fun r ↦ ⟨r.offset, r.limit⟩⟩

/-- Whether the window is a range. -/
def isPaged (w : Window) : Bool := w.range.isSome

/-- The part of a sorted result that lies in the window. -/
def slice {α : Type} (w : Window) (items : List α) : List α :=
  match w.range with
  | none => items
  | some r => (items.drop r.offset.toNat).take r.limit.toNat

end Window

/-- What a client is told about a page. -/
structure Summary where
  page : Count
  size : Count
  totalElements : Count
  totalPages : Count
  hasNext : Bool
deriving DecidableEq

namespace Summary

/-- The summary of a page of a result with the given number of items. -/
def ofPage (r : PageRequest) (total : Count) : Summary :=
  let pages := total.ceilDiv r.limit
  ⟨r.page, r.limit, total, pages, r.page.plus 1 < pages⟩

/-- The summary of a whole result: one page that holds everything. -/
def unpaged (total : Count) : Summary := ⟨0, total, total, 1, false⟩

/-- The summary for an optional page request. -/
def of (page : Option PageRequest) (total : Count) : Summary :=
  match page with
  | some r => ofPage r total
  | none => unpaged total

/-! ### The range as a header -/

/-- The characters that a header may hold. -/
def isHeaderChar (c : Char) : Bool := 0x20 ≤ c.toNat && c.toNat ≤ 0x7E

/-- The positions of the page in the result as the value of a `Content-Range` header, such as
`courses 0-9/20`. A page without items has no positions: `courses */20`. Characters of the name that
a header may not hold are left out. -/
def contentRange (s : Summary) (resource : String) : String :=
  let name := String.ofList (resource.toList.filter isHeaderChar)
  let total := toString s.totalElements.toNat
  let start := s.page.times s.size
  if s.size = 0 ∨ s.totalElements ≤ start then
    name ++ " */" ++ total
  else
    let last := min (start.plus s.size) s.totalElements - 1
    name ++ " " ++ toString start.toNat ++ "-" ++ toString last.toNat ++ "/" ++ total

end Summary

/-- A page of items with its summary. -/
structure Page (α : Type) where
  content : List α
  pagination : Summary

/-- The page with each item transformed. -/
def Page.map {α β : Type} (f : α → β) (p : Page α) : Page β := ⟨p.content.map f, p.pagination⟩

end Listing
