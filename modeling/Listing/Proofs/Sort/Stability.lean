import Listing.Proofs.Sort.Related
import Mathlib.Data.List.Sort

/-!
# Stable sorting is unique

A sorted list is known from its items that compare equal, taken in their order: two lists that are
sorted by a comparison and have the same items equal to each item are the same
(`eq_of_sorted_of_filter_eq`). A stable sort keeps the order of items that compare equal, so all
stable sorts have the same result. That holds of the insertion of one item after the other as it
does of merging (`stableSort_eq_mergeSort`).
-/

set_option autoImplicit false
set_option relaxedAutoImplicit false

namespace Listing

variable {α : Type} {cmp : α → α → Ordering} [Std.TransCmp cmp] {a b c : α}

/-! ### Comparisons -/

/-- Items of which neither comes before the other one compare equal. -/
theorem isEq_of_isLE (hab : (cmp a b).isLE = true) (hba : (cmp b a).isLE = true) :
    (cmp a b).isEq = true := by
  have hswap : cmp b a = (cmp a b).swap := Std.OrientedCmp.eq_swap
  rw [hswap] at hba
  cases h : cmp a b <;> simp_all

/-- An item that does not come before another one may stand behind it. -/
theorem isLE_of_not_isLT (h : ¬(cmp a b).isLT = true) : (cmp b a).isLE = true := by
  have hswap : cmp b a = (cmp a b).swap := Std.OrientedCmp.eq_swap
  rw [hswap]
  cases hab : cmp a b <;> simp_all

/-- Two items may stand in one order or the other. -/
theorem isLE_or_isLE : ((cmp a b).isLE || (cmp b a).isLE) = true := by
  by_cases h : (cmp a b).isLT = true
  · rw [Ordering.isLE_iff_eq_lt_or_eq_eq.mpr (.inl (Ordering.isLT_iff_eq_lt.mp h)), Bool.true_or]
  · rw [isLE_of_not_isLT h, Bool.or_true]

/-- Items that compare equal with one item compare equal. -/
theorem eq_of_isEq (hab : (cmp a b).isEq = true) (hac : (cmp a c).isEq = true) :
    cmp b c = .eq :=
  Std.TransCmp.eq_trans (Std.OrientedCmp.eq_symm (Ordering.isEq_iff_eq_eq.mp hab))
    (Ordering.isEq_iff_eq_eq.mp hac)

/-! ### Sorted lists -/

/-- Assumes: two lists sorted by a comparison; for each item, those that compare equal with it are
the same in both, in the same order. Then the lists are the same. -/
theorem eq_of_sorted_of_filter_eq {xs ys : List α}
    (hxs : xs.Pairwise fun a b ↦ (cmp a b).isLE = true)
    (hys : ys.Pairwise fun a b ↦ (cmp a b).isLE = true)
    (hfilter : ∀ a, xs.filter (fun b ↦ (cmp a b).isEq) = ys.filter fun b ↦ (cmp a b).isEq) :
    xs = ys := by
  have hself : ∀ a, (cmp a a).isEq = true := fun a ↦
    Ordering.isEq_iff_eq_eq.mpr Std.ReflCmp.compare_self
  induction xs generalizing ys with
  | nil =>
    cases ys with
    | nil => rfl
    | cons y ys =>
      have hy : y ∈ (y :: ys).filter fun b ↦ (cmp y b).isEq :=
        List.mem_filter.mpr ⟨List.mem_cons_self, hself y⟩
      rw [← hfilter y] at hy
      exact nomatch hy
  | cons x xs ih =>
    have hxy : x ∈ ys := by
      have hx : x ∈ (x :: xs).filter fun b ↦ (cmp x b).isEq :=
        List.mem_filter.mpr ⟨List.mem_cons_self, hself x⟩
      rw [hfilter x] at hx
      exact List.mem_of_mem_filter hx
    cases ys with
    | nil => exact nomatch hxy
    | cons y ys =>
      have hyx : y ∈ x :: xs := by
        have hy : y ∈ (y :: ys).filter fun b ↦ (cmp y b).isEq :=
          List.mem_filter.mpr ⟨List.mem_cons_self, hself y⟩
        rw [← hfilter y] at hy
        exact List.mem_of_mem_filter hy
      -- Each head is in the other list, so neither comes before the other one.
      have heq : (cmp x y).isEq = true := by
        rcases List.mem_cons.mp hxy with rfl | hx
        · exact hself x
        rcases List.mem_cons.mp hyx with rfl | hy
        · exact hself y
        · exact isEq_of_isLE (List.rel_of_pairwise_cons hxs hy) (List.rel_of_pairwise_cons hys hx)
      have hcons := hfilter x
      rw [List.filter_cons, List.filter_cons, if_pos (hself x), if_pos heq] at hcons
      obtain rfl := (List.cons.inj hcons).1
      refine congrArg (x :: ·) (ih hxs.tail hys.tail fun a ↦ ?_)
      have ha := hfilter a
      rw [List.filter_cons, List.filter_cons] at ha
      by_cases hax : (cmp a x).isEq = true
      · rw [if_pos hax, if_pos hax] at ha
        exact (List.cons.inj ha).2
      · rwa [if_neg hax, if_neg hax] at ha

/-! ### Insertion -/

section Insertion

variable {before : α → α → Bool}

/-- Assumes: no item with the property comes before another one with it. Then an inserted item
stands behind all of them, and otherwise leaves them as they are. -/
theorem filter_insertBack {p : α → Bool} (hp : ∀ a b, p a = true → p b = true → before a b = false)
    (x : α) (ys : List α) :
    (insertBack before x ys).filter p = (x :: ys).filter p := by
  induction ys with
  | nil => rfl
  | cons y ys ih =>
    rw [insertBack]
    by_cases hcomes : before x y = true
    · rw [if_pos hcomes, List.filter_cons, ih]
      by_cases hx : p x = true
      · have hy : ¬p y = true := fun hy ↦ Bool.false_ne_true ((hp x y hx hy).symm.trans hcomes)
        simp [hx, hy]
      · simp [hx, List.filter_cons]
    · rw [if_neg hcomes]

/-- Assumes: no item with the property comes before another one with it. Sorting keeps the order of
the items with the property. -/
theorem filter_stableSort {p : α → Bool} (hp : ∀ a b, p a = true → p b = true → before a b = false)
    (xs : List α) : (stableSort before xs).filter p = xs.filter p := by
  have hfold : ∀ sorted : List α,
      (xs.foldl (fun sorted x ↦ insertBack before x sorted) sorted).filter p =
        (xs.filter p).reverse ++ sorted.filter p := by
    induction xs with
    | nil => exact fun _ ↦ rfl
    | cons x xs ih =>
      intro sorted
      rw [List.foldl_cons, ih, filter_insertBack hp]
      by_cases hx : p x = true
      · simp [hx]
      · simp [hx]
  rw [stableSort, List.filter_reverse, hfold, List.filter_nil, List.append_nil,
    List.reverse_reverse]

/-- Insertion keeps a list sorted. -/
theorem pairwise_insertBack (x : α) {ys : List α}
    (h : ys.Pairwise fun a b ↦ (cmp b a).isLE = true) :
    (insertBack (fun a b ↦ (cmp a b).isLT) x ys).Pairwise fun a b ↦ (cmp b a).isLE = true := by
  induction ys with
  | nil => exact List.pairwise_singleton _ _
  | cons y ys ih =>
    obtain ⟨hy, hys⟩ := List.pairwise_cons.mp h
    rw [insertBack]
    by_cases hcomes : (cmp x y).isLT = true
    · rw [if_pos hcomes]
      refine List.pairwise_cons.mpr ⟨fun z hz ↦ ?_, ih hys⟩
      rcases List.mem_cons.mp ((insertBack_perm _ x ys).mem_iff.mp hz) with rfl | hz
      · exact Ordering.isLE_iff_eq_lt_or_eq_eq.mpr (.inl (Ordering.isLT_iff_eq_lt.mp hcomes))
      · exact hy z hz
    · rw [if_neg hcomes]
      have hyx : (cmp y x).isLE = true := isLE_of_not_isLT hcomes
      refine List.pairwise_cons.mpr ⟨fun z hz ↦ ?_, h⟩
      rcases List.mem_cons.mp hz with rfl | hz
      · exact hyx
      · exact Std.TransCmp.isLE_trans (hy z hz) hyx

/-- What is sorted by insertion is sorted. -/
theorem pairwise_stableSort (xs : List α) :
    (stableSort (fun a b ↦ (cmp a b).isLT) xs).Pairwise fun a b ↦ (cmp a b).isLE = true := by
  have hfold : ∀ sorted : List α, sorted.Pairwise (fun a b ↦ (cmp b a).isLE = true) →
      (xs.foldl (fun sorted x ↦ insertBack (fun a b ↦ (cmp a b).isLT) x sorted) sorted).Pairwise
        fun a b ↦ (cmp b a).isLE = true := by
    induction xs with
    | nil => exact fun _ ↦ id
    | cons x xs ih => exact fun sorted hsorted ↦ ih _ (pairwise_insertBack x hsorted)
  exact List.pairwise_reverse.mpr (hfold [] .nil)

/-- Sorting keeps the order of items that compare equal. -/
theorem filter_isEq_stableSort (a : α) (xs : List α) :
    (stableSort (fun b c ↦ (cmp b c).isLT) xs).filter (fun b ↦ (cmp a b).isEq) =
      xs.filter fun b ↦ (cmp a b).isEq := by
  refine filter_stableSort (fun b c hb hc ↦ ?_) xs
  rw [eq_of_isEq hb hc]
  rfl

/-- Two items that compare equal stand in a sorted list as they were given. -/
theorem pair_sublist_of_stableSort {xs : List α} (heq : cmp a b = .eq)
    (h : [a, b].Sublist (stableSort (fun a b ↦ (cmp a b).isLT) xs)) : [a, b].Sublist xs := by
  have hself : cmp a a = .eq := Std.ReflCmp.compare_self
  have hpair : [a, b].filter (fun c ↦ (cmp a c).isEq) = [a, b] := by
    simp [hself, heq]
  have hfilter := h.filter fun c ↦ (cmp a c).isEq
  rw [hpair, filter_isEq_stableSort] at hfilter
  exact hfilter.trans List.filter_sublist

/-- Items may be picked before or after sorting. -/
theorem filter_stableSort_comm (p : α → Bool) (xs : List α) :
    (stableSort (fun a b ↦ (cmp a b).isLT) xs).filter p =
      stableSort (fun a b ↦ (cmp a b).isLT) (xs.filter p) := by
  refine eq_of_sorted_of_filter_eq ((pairwise_stableSort xs).filter p) (pairwise_stableSort _) ?_
  intro a
  rw [List.filter_comm, filter_isEq_stableSort, filter_isEq_stableSort, List.filter_comm]

end Insertion

/-! ### Merging -/

/-- Merging keeps the order of items that compare equal. -/
theorem filter_mergeSort (a : α) (xs : List α) :
    (xs.mergeSort fun b c ↦ (cmp b c).isLE).filter (fun b ↦ (cmp a b).isEq) =
      xs.filter fun b ↦ (cmp a b).isEq := by
  have hequal : (xs.filter fun b ↦ (cmp a b).isEq).Pairwise fun b c ↦ (cmp b c).isLE = true := by
    refine List.pairwise_of_forall_mem_list fun b hb c hc ↦ ?_
    rw [eq_of_isEq (List.mem_filter.mp hb).2 (List.mem_filter.mp hc).2]
    rfl
  have hsublist := List.sublist_mergeSort (fun _ _ _ ↦ Std.TransCmp.isLE_trans)
    (fun _ _ ↦ isLE_or_isLE) hequal List.filter_sublist
  have hlength := ((List.mergeSort_perm xs fun b c ↦ (cmp b c).isLE).filter
    fun b ↦ (cmp a b).isEq).length_eq
  refine (List.Sublist.eq_of_length ?_ hlength.symm).symm
  simpa using hsublist.filter fun b ↦ (cmp a b).isEq

/-- Insertion and merging sort alike. -/
theorem stableSort_eq_mergeSort (xs : List α) :
    stableSort (fun a b ↦ (cmp a b).isLT) xs = xs.mergeSort fun a b ↦ (cmp a b).isLE := by
  -- Two sorted lists are equal if equal items stand in the same order in both.
  refine eq_of_sorted_of_filter_eq (pairwise_stableSort xs) ?_ fun a ↦ ?_
  · exact List.pairwise_mergeSort (fun _ _ _ ↦ Std.TransCmp.isLE_trans)
      (fun _ _ ↦ isLE_or_isLE) xs
  · rw [filter_mergeSort, filter_isEq_stableSort]

end Listing
