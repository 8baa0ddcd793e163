import Listing.Plan
import Listing.Proofs.Sort.Preorder
import Listing.Proofs.Sort.Stability

/-!
# Sorting by several keys is stable

What it means to be sorted stably is said by positions: a sorted list takes each position of the
given list once, and of two items that compare equal the one with the smaller position comes first
(`IsStablySorted`). The order of a sort request sorts records that are uniform in this sense. Which
records are picked does not matter to it: an answer from memory picks the matching records first and
sorts them, and these are the matching records of the sorted list, in its order
(`SortOrder.isStablySorted_sort_and_select`).
-/

set_option autoImplicit false
set_option relaxedAutoImplicit false

namespace Listing

/-! ### Positions of sorted items -/

section Positions

variable {α : Type} {cmp cmp' : α → α → Ordering} {xs sorted : List α}

/-- A list holds the items of another one, each from its own position, so that no item comes before
an earlier one and items that compare equal stand in the order of their positions. -/
def IsStablySorted (cmp : α → α → Ordering) (xs sorted : List α) : Prop :=
  ∃ positions : List (Fin xs.length),
    positions.Perm (List.finRange xs.length) ∧ positions.map xs.get = sorted ∧
      positions.Pairwise fun i j ↦ cmp (xs.get j) (xs.get i) ≠ .lt ∧
        (cmp (xs.get i) (xs.get j) = .eq → i < j)

/-- Assumes: two comparisons that agree on the items of a list. A list that is sorted stably by the
one is so by the other. -/
theorem IsStablySorted.congr (h : IsStablySorted cmp xs sorted)
    (hagree : ∀ a ∈ xs, ∀ b ∈ xs, cmp a b = cmp' a b) : IsStablySorted cmp' xs sorted := by
  obtain ⟨positions, hperm, hitems, horder⟩ := h
  refine ⟨positions, hperm, hitems, horder.imp fun {i j} hij ↦ ?_⟩
  rw [← hagree _ (xs.get_mem j) _ (xs.get_mem i), ← hagree _ (xs.get_mem i) _ (xs.get_mem j)]
  exact hij

/-- Positions that are sorted by a comparison stand in the order of the items at them, and in their
own order where these compare equal. -/
theorem pairwise_stableSort_finRange {n : Nat} (cmp : Fin n → Fin n → Ordering)
    [Std.TransCmp cmp] :
    (stableSort (fun i j ↦ (cmp i j).isLT) (List.finRange n)).Pairwise fun i j ↦
      cmp j i ≠ .lt ∧ (cmp i j = .eq → i < j) := by
  have hsorted := @pairwise_stableSort _ cmp _ (List.finRange n)
  refine List.pairwise_iff_forall_sublist.mpr fun {i j} hpair ↦ ⟨?_, fun heq ↦ ?_⟩
  · have hle := List.pairwise_iff_forall_sublist.mp hsorted hpair
    have hswap : cmp j i = (cmp i j).swap := Std.OrientedCmp.eq_swap
    rw [hswap, Ne, Ordering.swap_eq_lt]
    exact Ordering.isLE_iff_ne_gt.mp hle
  · exact List.pairwise_iff_forall_sublist.mp (List.pairwise_lt_finRange n)
      (pair_sublist_of_stableSort heq hpair)

/-- Inserting one item after the other sorts stably. -/
theorem isStablySorted_stableSort [Std.TransCmp cmp] (xs : List α) :
    IsStablySorted cmp xs (stableSort (fun a b ↦ (cmp a b).isLT) xs) := by
  -- The positions are sorted by the items at them.
  have htrans := transCmp_comap cmp xs.get
  refine ⟨stableSort (fun i j ↦ (cmp (xs.get i) (xs.get j)).isLT) (List.finRange xs.length),
    stableSort_perm _ _, ?_, @pairwise_stableSort_finRange _ _ htrans⟩
  rw [map_stableSort (fun a b ↦ (cmp a b).isLT) xs.get, List.map_get_finRange]

end Positions

/-! ### Uniform records -/

namespace SortOrder

variable {R : Type} [Record R] {o : SortOrder} {rs : List R}

/-- Assumes: uniform records. They, and any of them, are sorted by a total preorder. -/
theorem exists_sort_eq (h : o.Uniform rs) :
    ∃ cmp : R → R → Ordering, Std.TransCmp cmp ∧
      (∀ a ∈ rs, ∀ b ∈ rs, o.compare a b = cmp a b) ∧
      ∀ rs' ⊆ rs, o.sort rs' = stableSort (fun a b ↦ (cmp a b).isLT) rs' := by
  obtain ⟨cmp, htrans, hcmp⟩ := exists_transCmp h
  refine ⟨cmp, htrans, hcmp, fun rs' hsubset ↦ ?_⟩
  exact stableSort_congr fun a ha b hb ↦
    congrArg Ordering.isLT (hcmp a (hsubset ha) b (hsubset hb))

/-- Assumes: uniform records. The order of a sort request sorts them stably. -/
theorem isStablySorted_sort (h : o.Uniform rs) : IsStablySorted o.compare rs (o.sort rs) := by
  obtain ⟨cmp, htrans, hcmp, hsort⟩ := exists_sort_eq h
  rw [hsort rs (List.Subset.refl rs)]
  exact (isStablySorted_stableSort rs).congr fun a ha b hb ↦ (hcmp a ha b hb).symm

/-- Assumes: uniform records. They may be picked before or after sorting. -/
theorem sort_filter (h : o.Uniform rs) (p : R → Bool) :
    o.sort (rs.filter p) = (o.sort rs).filter p := by
  obtain ⟨cmp, htrans, -, hsort⟩ := exists_sort_eq h
  rw [hsort rs (List.Subset.refl rs), hsort _ (List.filter_subset_self rs), filter_stableSort_comm]

/-- Sorting by the keys of a request is stable and commutes with picking. Assumes: records whose
values in the field of each key are of one kind, if there are any. They are sorted stably, and left
as they are if there is no key. A plan in this order that asks for no page, whatever its filter is,
is executed to the records of the sorted list that match, in the order of that list. -/
theorem isStablySorted_sort_and_select (h : o.Uniform rs) :
    IsStablySorted o.compare rs (o.sort rs) ∧
      (o.isUnsorted = true → o.sort rs = rs) ∧
      ∀ plan : QueryPlan (Matcher R), plan.window = Window.of none o →
        (plan.execute rs).content = plan.predicate.select (o.sort rs) := by
  refine ⟨isStablySorted_sort h, fun hkeys ↦ ?_, fun plan hwindow ↦ ?_⟩
  · obtain ⟨keys⟩ := o
    obtain rfl := List.isEmpty_iff.mp hkeys
    exact sort_unsorted rs
  · -- A plan sorts what it has selected.
    rw [QueryPlan.execute, QueryPlan.pageOf, hwindow]
    exact sort_filter h plan.predicate.accepts

end SortOrder

/-! ### Courses with as many seats -/

namespace Courses

/-- Courses with many seats first. -/
def fullest : ListQuery shape := { filter := some popular, sort := ⟨["seats"], [.desc]⟩ }

/-- Five courses, two of which have seven seats and one an unknown number of seats. -/
def offers : List Row :=
  [row "b" none, row "ab" (some 7), row "abc" (some 9), row "b" (some 7), row "B" (some 1)]

end Courses

/-- The two courses with seven seats keep their order, and the one of unknown size comes last. -/
theorem SortOrder.isStablySorted_sort_and_select_fullest :
    Courses.fullest.sort.compile.Uniform Courses.offers ∧
      ((QueryPlan.compile (Matcher.backend Row) Courses.fullest).execute
          Courses.offers).content.map (Record.field · "title") =
        [some (.text "ab"), some (.text "b"), some (.text "B"), some (.text "b")] := by
  have huniform : Courses.fullest.sort.compile.Uniform Courses.offers :=
    List.forall_mem_cons.mpr ⟨⟨.integer, by decide⟩, nofun⟩
  refine ⟨huniform, ?_⟩
  rw [(isStablySorted_sort_and_select huniform).2.2
    (QueryPlan.compile (Matcher.backend Row) Courses.fullest) rfl]
  decide

end Listing
