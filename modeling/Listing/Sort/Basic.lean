import Listing.Sort.Stable
import Listing.Text.Blank
import Listing.Value

/-!
# Sorting records

A sort request names fields and directions in two lists that are paired by position; a field without
a direction is ascending, and directions without a field are ignored. The order that results
compares records key by key (`SortOrder.compare`): a record without the field comes before one that
has it, and values that cannot be compared count as equal. Where one field has values of several
kinds this is no total preorder; insertion (`SortOrder.sort`) has a result there all the same.
-/

set_option autoImplicit false
set_option relaxedAutoImplicit false

namespace Listing

/-- A sort direction. -/
inductive Direction where
  | asc
  | desc
deriving DecidableEq

namespace Direction

instance : Inhabited Direction := ⟨asc⟩

/-- The name of a direction. -/
def text : Direction → String
  | asc => "ASC"
  | desc => "DESC"

/-- The direction with exactly that name. -/
def ofText? (s : String) : Option Direction :=
  if s = "ASC" then some asc else if s = "DESC" then some desc else none

/-- The direction with that name in any mix of upper and lower case, with blanks around it. Only
ASCII letters have a counterpart here. -/
def parse? (s : String) : Option Direction :=
  ofText? (String.ofList ((Text.trimChars s.toList).map Char.toUpper))

end Direction

/-- A sort request. -/
structure SortSpec where
  fields : List String := []
  directions : List Direction := []
deriving DecidableEq

/-- A field to sort by, and which way. -/
structure SortKey where
  field : String
  direction : Direction
deriving DecidableEq

/-- The keys to sort by, the most important one first; without keys nothing is sorted. -/
structure SortOrder where
  keys : List SortKey := []
deriving DecidableEq

/-! ### From request to order -/

namespace SortSpec

/-- Pairs fields with directions by position. -/
def pair : List String → List Direction → List SortKey
  | [], _ => []
  | f :: fs, [] => ⟨f, .asc⟩ :: pair fs []
  | f :: fs, d :: ds => ⟨f, d⟩ :: pair fs ds

/-- The order that is asked for. -/
def compile (s : SortSpec) : SortOrder := ⟨pair s.fields s.directions⟩

/-- The first field that may not be sorted by: an empty name, or one that is not allowed. -/
def unknownField? (s : SortSpec) (allowed : List String) : Option String :=
  s.fields.find? fun field ↦ field.isEmpty || !allowed.contains field

end SortSpec

/-! ### Comparing and sorting records -/

variable {R : Type} [Record R]

/-- Compares the values of a field: no value comes before a value. -/
def compareOptional : Option Value → Option Value → Ordering
  | none, none => .eq
  | none, some _ => .lt
  | some _, none => .gt
  | some a, some b => (a.compare? b).getD .eq

/-- Turns an outcome around if the direction is descending. -/
def Direction.apply : Direction → Ordering → Ordering
  | asc, o => o
  | desc, o => o.swap

/-- Compares two records by one key. -/
def SortKey.compare (k : SortKey) (a b : R) : Ordering :=
  k.direction.apply (compareOptional (Record.field a k.field) (Record.field b k.field))

namespace SortOrder

/-- The order without keys. -/
def unsorted : SortOrder := {}

/-- Whether there is no key. -/
def isUnsorted (o : SortOrder) : Bool := o.keys.isEmpty

/-- Compares two records: the first key that tells them apart decides. -/
def compare (o : SortOrder) (a b : R) : Ordering :=
  o.keys.foldr (fun k rest ↦ (k.compare a b).then rest) .eq

/-- Sorts records by inserting one after the other; those that compare equal keep their order. -/
def sort (o : SortOrder) (rs : List R) : List R :=
  stableSort (fun a b ↦ (o.compare a b).isLT) rs

/-- Without keys the records stay as they are. -/
theorem sort_unsorted (rs : List R) : unsorted.sort rs = rs :=
  stableSort_eq_self _ _ (List.pairwise_of_forall fun _ _ ↦ rfl)

end SortOrder

end Listing
