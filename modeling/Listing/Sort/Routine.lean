import Listing.Sort.Basic

/-!
# Sorting routines

Values that cannot be compared count as equal, so the order of a sort request need not be transitive.
A library's sorting routine sorts by any total preorder, and stably; by any other comparison it may
leave the items in whatever order, or stop without a result. `SortRoutine` is what such routines
have in common, and `SortOrder.sortBy` sorts records by one of them.
-/

set_option autoImplicit false
set_option relaxedAutoImplicit false

namespace Listing

/-- A routine that sorts items by comparing them.

How any two items compare is all that it knows of them. So it arranges their positions, and what it
finds is a function of the outcomes; for some of them it may stop without an arrangement. -/
structure SortRoutine where
  /-- The positions of the items, the first one to come first. -/
  arrange {n : Nat} (cmp : Fin n → Fin n → Ordering) : Option (List (Fin n))
  /-- No item is lost, and none is there twice. -/
  arrange_perm {n : Nat} {cmp : Fin n → Fin n → Ordering} {positions : List (Fin n)}
    (h : arrange cmp = some positions) : positions.Perm (List.finRange n)
  /-- By a total preorder it does sort: no item comes before an earlier one, and items that compare
  equal keep their order. -/
  arrange_stable {n : Nat} (cmp : Fin n → Fin n → Ordering) [Std.TransCmp cmp] :
    ∃ positions, arrange cmp = some positions ∧
      positions.Pairwise fun i j ↦ cmp j i ≠ .lt ∧ (cmp i j = .eq → i < j)

/-- The items of a list in the order in which a routine arranges their positions. -/
def SortRoutine.sort {α : Type} (routine : SortRoutine) (cmp : α → α → Ordering) (xs : List α) :
    Option (List α) :=
  (routine.arrange fun i j ↦ cmp (xs.get i) (xs.get j)).map fun positions ↦ positions.map xs.get

/-- Sorts records by a routine. Without keys there is nothing to sort by, and no routine is asked. -/
def SortOrder.sortBy {R : Type} [Record R] (routine : SortRoutine) (o : SortOrder) (rs : List R) :
    Option (List R) :=
  if o.isUnsorted then some rs else routine.sort o.compare rs

end Listing
