import Listing.Filter.Shape

/-!
# Filters

A filter over a shape is a tree. A node restricts fields by leaf filters and holds further filters
of the same shape: those that must all hold, those of which one may hold instead, and one that must
not hold.

Every function on filters is a `Filter.fold`: it combines the slots of a node with the results for
its children, and `Filter.fold_eq` is the only equation that its users need.
-/

set_option autoImplicit false
set_option relaxedAutoImplicit false

namespace Listing

/-- A filter over the records of a shape. -/
structure Filter (shape : Shape) where
  /-- The leaf filters of the node itself. -/
  own : Slots shape.fields
  /-- The filters that must all hold as well. -/
  and : List (Filter shape)
  /-- The filters that may hold instead. -/
  or : List (Filter shape)
  /-- The filter that must not hold. -/
  not : Option (Filter shape)

namespace Filter

variable {shape : Shape} {α : Type}

/-- The filter that asks for nothing. -/
def empty : Filter shape := ⟨Slots.empty shape.fields, [], [], none⟩

instance : Inhabited (Filter shape) := ⟨empty⟩

mutual

/-- Combines the slots of each node with the results for its children. -/
def fold (node : Slots shape.fields → List α → List α → Option α → α) : Filter shape → α
  | ⟨own, and, or, not⟩ => node own (foldList node and) (foldList node or) (foldOption node not)

/-- The results for a list of children. -/
def foldList (node : Slots shape.fields → List α → List α → Option α → α) :
    List (Filter shape) → List α
  | [] => []
  | f :: fs => fold node f :: foldList node fs

/-- The result for an optional child. -/
def foldOption (node : Slots shape.fields → List α → List α → Option α → α) :
    Option (Filter shape) → Option α
  | none => none
  | some f => some (fold node f)

end

/-- The number of nodes of the tree. -/
def nodeCount : Filter shape → Nat :=
  fold fun _ and or not ↦ 1 + (and ++ or ++ not.toList).foldr (· + ·) 0

/-- The number of nodes on the longest way down; a node without children has depth 1. -/
def depth : Filter shape → Nat :=
  fold fun _ and or not ↦ 1 + (and ++ or ++ not.toList).foldr max 0

/-! ### Nesting -/

/-- The places where a filter can be the only child of a node. -/
inductive Clause where
  | and
  | or
  | not
deriving DecidableEq

/-- The filter as the only child of an otherwise empty node. -/
def wrap (f : Filter shape) : Clause → Filter shape
  | .and => { (empty : Filter shape) with and := [f] }
  | .or => { (empty : Filter shape) with or := [f] }
  | .not => { (empty : Filter shape) with not := some f }

/-! ### The equation of a fold -/

theorem foldList_eq (node : Slots shape.fields → List α → List α → Option α → α)
    (fs : List (Filter shape)) : foldList node fs = fs.map (fold node) := by
  induction fs with
  | nil => rfl
  | cons f fs ih => rw [foldList, ih, List.map_cons]

theorem foldOption_eq (node : Slots shape.fields → List α → List α → Option α → α)
    (f : Option (Filter shape)) : foldOption node f = f.map (fold node) := by
  cases f <;> rfl

/-- A fold combines the slots of a node with the folds of its children. -/
theorem fold_eq (node : Slots shape.fields → List α → List α → Option α → α) (f : Filter shape) :
    fold node f =
      node f.own (f.and.map (fold node)) (f.or.map (fold node)) (f.not.map (fold node)) := by
  obtain ⟨own, and, or, not⟩ := f
  rw [fold, foldList_eq, foldList_eq, foldOption_eq]

end Filter

end Listing
