import Listing.Filter.Json
import Listing.Page.Json
import Listing.Request.Error
import Listing.Sort.Json

/-!
# List requests

A list request asks for the records of a shape that meet a filter, sorted and paged. It comes as
JSON (`ListQuery.decoder`) or as the parameters of a query string (`ListQuery.ofParams`). The
parameters are checked in a fixed order - filter, fields, directions, page - and the first fault is
reported.
-/

set_option autoImplicit false
set_option relaxedAutoImplicit false

namespace Listing

open Json (Decoder)

/-- A list request over the records of a shape. -/
structure ListQuery (shape : Shape) where
  filter : Option (Filter shape) := none
  sort : SortSpec := {}
  page : Option PageRequest := none

/-- A list request as the parameters of a query string. -/
structure ListParams where
  filter : Option String := none
  sort : Option String := none
  order : Option String := none
  page : Option Count := none
  size : Option Count := none
deriving DecidableEq

/-- The page sizes that apply where a request names none, and at most. -/
structure PageDefaults where
  size : Count := 10
  maxSize : Count := 1000
deriving DecidableEq

/-! ### JSON -/

namespace ListQuery

variable {shape : Shape}

/-- The fields of a list request. -/
def fields : List (Json.Field (ListQuery shape)) :=
  [ .of "filter" .defaulted (.optional Filter.decoder) fun v q ↦ { q with filter := v },
    .of "sort" .defaulted SortSpec.decoder fun v q ↦ { q with sort := v },
    .of "page" .defaulted (.optional PageRequest.decoder) fun v q ↦ { q with page := v } ]

/-- Reads a list request. The fields to sort by are not checked. -/
def decoder : Decoder (ListQuery shape) := .record fields {}

/-- Writes a list request. -/
def encode (q : ListQuery shape) : Json.Value :=
  .object
    [ ("filter", .ofOption Filter.encode q.filter),
      ("sort", q.sort.encode),
      ("page", .ofOption PageRequest.encode q.page) ]

end ListQuery

namespace ListParams

/-- The fields of the parameters. -/
def fields : List (Json.Field ListParams) :=
  [ .of "filter" .optional (.optional .string) fun v p ↦ { p with filter := v },
    .of "sort" .optional (.optional .string) fun v p ↦ { p with sort := v },
    .of "order" .optional (.optional .string) fun v p ↦ { p with order := v },
    .of "page" .optional (.optional .count) fun v p ↦ { p with page := v },
    .of "size" .optional (.optional .count) fun v p ↦ { p with size := v } ]

/-- Reads the parameters. -/
def decoder : Decoder ListParams := .record fields {}

end ListParams

/-! ### Parameters -/

/-- The filter of a parameter; a blank or absent one is no filter. -/
def readFilter (shape : Shape) (raw : Option String) :
    Except RequestError (Option (Filter shape)) :=
  match raw.map Text.trim with
  | none => .ok none
  | some "" => .ok none
  | some text => match Json.decodeText Filter.decoder text with
    | .ok filter => .ok (some filter)
    | .error fault => .error (.invalidFilter fault)

/-- The list of a parameter: a JSON array of strings if it begins with a bracket, else the trimmed
pieces between its commas. -/
def readList (parameter : ListParameter) (raw : Option String) :
    Except RequestError (List String) :=
  match raw.map fun s ↦ Text.trimChars s.toList with
  | none => .ok []
  | some [] => .ok []
  | some text@('[' :: _) => match Json.decodeText (.list .string) (String.ofList text) with
    | .ok items => .ok items
    | .error fault => .error (.invalidSort parameter fault)
  | some text => .ok ((Text.splitOn ',' text).map fun piece ↦
      String.ofList (Text.trimChars piece))

/-- The direction of an item, which may be in any case and have blanks around it. -/
def readDirection (item : String) : Except RequestError Direction :=
  match Direction.parse? item with
  | some direction => .ok direction
  | none => .error (.invalidDirection (Text.trim item))

/-- The page of the parameters: none if neither a number nor a size is given. -/
def readPage (params : ListParams) (defaults : PageDefaults) :
    Except RequestError (Option PageRequest) :=
  match params.page, params.size with
  | none, none => .ok none
  | page, size =>
    if size = some 0 then .error .zeroPageSize
    else .ok (some ⟨page.getD 0, min (size.getD defaults.size) defaults.maxSize⟩)

/-- The list request that the parameters name. -/
def ListQuery.ofParams (shape : Shape) (params : ListParams) (defaults : PageDefaults) :
    Except RequestError (ListQuery shape) := do
  let filter ← readFilter shape params.filter
  let fields ← readList .sort params.sort
  match (SortSpec.mk fields []).unknownField? shape.names with
  | some field => .error (.unknownSortField field)
  | none => do
    let directions ← (← readList .order params.order).mapM readDirection
    let page ← readPage params defaults
    return ⟨filter, ⟨fields, directions⟩, page⟩

end Listing
