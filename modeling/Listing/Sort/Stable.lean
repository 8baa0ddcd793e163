/-!
# Stable sorting

`stableSort` puts each item, in turn, behind the last of the earlier ones that it does not come
before. Items that come in neither order therefore keep the order in which they were given. The
result has the same items (`stableSort_perm`), and a list in which no item comes before an earlier
one stays as it is (`stableSort_eq_self`).
-/

set_option autoImplicit false
set_option relaxedAutoImplicit false

namespace Listing

variable {α : Type}

/-- Inserts an item into a list that is given last item first. -/
def insertBack (before : α → α → Bool) (x : α) : List α → List α
  | [] => [x]
  | y :: ys => if before x y then y :: insertBack before x ys else x :: y :: ys

/-- Sorts a list so that no item comes before an earlier one, as far as the relation allows it. -/
def stableSort (before : α → α → Bool) (xs : List α) : List α :=
  (xs.foldl (fun sorted x ↦ insertBack before x sorted) []).reverse

/-! ### Laws -/

theorem insertBack_perm (before : α → α → Bool) (x : α) (ys : List α) :
    (insertBack before x ys).Perm (x :: ys) := by
  induction ys with
  | nil => exact .refl _
  | cons y ys ih =>
    rw [insertBack]
    split
    · exact (ih.cons y).trans (.swap x y ys)
    · exact .refl _

theorem foldl_insertBack_perm (before : α → α → Bool) (xs sorted : List α) :
    (xs.foldl (fun sorted x ↦ insertBack before x sorted) sorted).Perm (xs ++ sorted) := by
  induction xs generalizing sorted with
  | nil => exact .refl _
  | cons x xs ih =>
    refine (ih _).trans ?_
    refine ((insertBack_perm before x sorted).append_left xs).trans ?_
    exact List.perm_middle

/-- Sorting keeps the items. -/
theorem stableSort_perm (before : α → α → Bool) (xs : List α) :
    (stableSort before xs).Perm xs := by
  refine (List.reverse_perm _).trans ?_
  simpa using foldl_insertBack_perm before xs []

theorem foldl_insertBack_eq (before : α → α → Bool) (xs sorted : List α)
    (h : (sorted.reverse ++ xs).Pairwise fun a b ↦ before b a = false) :
    xs.foldl (fun sorted x ↦ insertBack before x sorted) sorted = xs.reverse ++ sorted := by
  induction xs generalizing sorted with
  | nil => rfl
  | cons x xs ih =>
    have hinsert : insertBack before x sorted = x :: sorted := by
      cases sorted with
      | nil => rfl
      | cons y ys =>
        have hy : before x y = false := by
          rw [List.pairwise_append] at h
          exact h.2.2 y (by simp) x (by simp)
        simp [insertBack, hy]
    rw [List.foldl_cons, hinsert, ih (x :: sorted) (by simpa using h)]
    simp

/-- A list that is in order already stays as it is. -/
theorem stableSort_eq_self (before : α → α → Bool) (xs : List α)
    (h : xs.Pairwise fun a b ↦ before b a = false) : stableSort before xs = xs := by
  rw [stableSort, foldl_insertBack_eq before xs [] (by simpa using h)]
  simp

end Listing
