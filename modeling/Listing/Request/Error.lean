import Listing.Json.Fault

/-!
# Refused requests

Why the parameters of a list request are refused. `RequestError.message` is for the log and
`RequestError.userMessage` for the client, who is told nothing about the inside of the reader. The
fault of a JSON text is kept beside both.
-/

set_option autoImplicit false
set_option relaxedAutoImplicit false

namespace Listing

/-- The parameters that hold lists. -/
inductive ListParameter where
  | sort
  | order
deriving DecidableEq

/-- The name of the parameter. -/
def ListParameter.name : ListParameter → String
  | sort => "sort"
  | order => "order"

/-- Why a request is refused. -/
inductive RequestError where
  /-- The filter is no filter of the shape. -/
  | invalidFilter (fault : Json.Fault)
  /-- A list is begun as JSON and is no JSON list of strings. -/
  | invalidSort (parameter : ListParameter) (fault : Json.Fault)
  /-- A field to sort by is empty or not declared. -/
  | unknownSortField (field : String)
  /-- A direction is neither ascending nor descending. -/
  | invalidDirection (value : String)
  /-- The page size is zero. -/
  | zeroPageSize
deriving DecidableEq

namespace RequestError

/-- The fault of the JSON text, if one is to blame. -/
def fault? : RequestError → Option Json.Fault
  | invalidFilter fault => some fault
  | invalidSort _ fault => some fault
  | _ => none

/-- What the client is told. -/
def userMessage : RequestError → String
  | invalidFilter _ => "Filter must be a valid JSON filter expression"
  | invalidSort parameter _ => "'" ++ parameter.name ++ "' must be a JSON array of strings"
  | unknownSortField field => "Cannot sort by '" ++ field ++ "'"
  | invalidDirection value => "Unknown sort direction '" ++ value ++ "', expected ASC or DESC"
  | zeroPageSize => "size must be at least 1"

/-- What the log is told. -/
def message : RequestError → String
  | invalidFilter _ => "Invalid filter: "
  | invalidSort parameter _ => "Invalid sort parameter '" ++ parameter.name ++ "': "
  | unknownSortField field => "Unknown sort field '" ++ field ++ "'"
  | invalidDirection value => "Invalid sort direction '" ++ value ++ "', expected ASC or DESC"
  | zeroPageSize => "Invalid page request: " ++ userMessage zeroPageSize

end RequestError

end Listing
