import Listing.Request.Query

/-!
# Events

What reading and compiling a list request reports to a log: page sizes that were cut down, filters
that were compiled, windows that were built, and requests that were refused.
-/

set_option autoImplicit false
set_option relaxedAutoImplicit false

namespace Listing

/-- How much an event matters. -/
inductive Level where
  | trace
  | debug
  | warn
deriving DecidableEq

/-- Something to report. -/
inductive Event where
  /-- A page size above the largest one was asked for. -/
  | clampedPageSize (requested size : Count)
  /-- A filter is compiled. -/
  | compilingFilter (nodes depth : Nat)
  /-- A window was built. -/
  | builtWindow
  /-- A request was refused. -/
  | rejected (error : RequestError)
deriving DecidableEq

namespace Event

/-- How much the event matters. -/
def level : Event → Level
  | clampedPageSize _ _ => .debug
  | compilingFilter _ _ => .debug
  | builtWindow => .trace
  | rejected _ => .warn

/-- The texts of the event. -/
def messages : Event → List String
  | clampedPageSize _ _ => ["Clamped page size"]
  | compilingFilter _ _ => ["Compiling filter expression"]
  | builtWindow => ["Built query window"]
  | rejected error => ["Rejected list request", error.userMessage]

/-- What is reported when parameters are read. -/
def ofReading {shape : Shape} (params : ListParams) (defaults : PageDefaults) :
    Except RequestError (ListQuery shape) → List Event
  | .error error => [rejected error]
  | .ok query => match query.page with
    | none => []
    | some page =>
      let requested := params.size.getD defaults.size
      if page.size < requested then [clampedPageSize requested page.size] else []

/-- What is reported when a query is compiled. -/
def ofCompiling {shape : Shape} (query : ListQuery shape) : List Event :=
  match query.filter with
  | none => [builtWindow]
  | some filter => [compilingFilter filter.nodeCount filter.depth, builtWindow]

end Event

end Listing
