import Listing.Sort.Basic
import Mathlib.Data.List.Forall2

/-!
# Sorting two lists side by side

Sorting knows the items of a list only by the relation that it sorts by. If the relations of two
lists give the same answers on related items, then lists that are related item by item are still
related item by item when they are sorted (`stableSort_related`). So relations that agree on the
items of a list sort it alike (`stableSort_congr`), and items may be sorted in place of their images
(`map_stableSort`).

The order of a sort request gives the same answers on records that have the same values in the
fields of its keys (`SortOrder.compare_congr`).
-/

set_option autoImplicit false
set_option relaxedAutoImplicit false

namespace Listing

/-! ### Related lists -/

section StableSort

variable {α β : Type} {T : α → β → Prop} {before : α → α → Bool} {before' : β → β → Bool}

/-- Assumes: two relations that give the same answers on related items. Related items are inserted
at the same position of related lists. -/
theorem insertBack_related
    (hbefore : ∀ a b, T a b → ∀ c d, T c d → before a c = before' b d) {x : α} {y : β}
    (hitem : T x y) {xs : List α} {ys : List β} (h : List.Forall₂ T xs ys) :
    List.Forall₂ T (insertBack before x xs) (insertBack before' y ys) := by
  induction h with
  | nil => exact .cons hitem .nil
  | @cons a b xs ys hhead htail ih =>
    rw [insertBack, insertBack, hbefore x y hitem a b hhead]
    by_cases hcomes : before' y b = true
    · rw [if_pos hcomes, if_pos hcomes]
      exact .cons hhead ih
    · rw [if_neg hcomes, if_neg hcomes]
      exact .cons hitem (.cons hhead htail)

/-- Assumes: two relations that give the same answers on related items. Related lists are related
when they are sorted. -/
theorem stableSort_related
    (hbefore : ∀ a b, T a b → ∀ c d, T c d → before a c = before' b d) {xs : List α} {ys : List β}
    (h : List.Forall₂ T xs ys) :
    List.Forall₂ T (stableSort before xs) (stableSort before' ys) := by
  refine List.rel_reverse (List.rel_foldl ?_ .nil h)
  intro sorted sorted' hsorted x y hitem
  exact insertBack_related hbefore hitem hsorted

/-- Assumes: two relations that give the same answers on the items of a list. They sort it alike. -/
theorem stableSort_congr {before' : α → α → Bool} {xs : List α}
    (h : ∀ a ∈ xs, ∀ b ∈ xs, before a b = before' a b) :
    stableSort before xs = stableSort before' xs := by
  have hbefore : ∀ a a', (a = a' ∧ a ∈ xs) → ∀ b b', (b = b' ∧ b ∈ xs) →
      before a b = before' a' b' := by
    rintro a _ ⟨rfl, ha⟩ b _ ⟨rfl, hb⟩
    exact h a ha b hb
  have hself : List.Forall₂ (fun a b ↦ a = b ∧ a ∈ xs) xs xs :=
    List.forall₂_same.mpr fun a ha ↦ ⟨rfl, ha⟩
  exact List.forall₂_eq_eq_eq ▸ (stableSort_related hbefore hself).imp fun _ _ h ↦ h.1

/-- Items that are sorted by their images have the sorted images. -/
theorem map_stableSort (before' : β → β → Bool) (f : α → β) (xs : List α) :
    (stableSort (fun a b ↦ before' (f a) (f b)) xs).map f = stableSort before' (xs.map f) := by
  have hbefore : ∀ a a', f a = a' → ∀ b b', f b = b' → before' (f a) (f b) = before' a' b' := by
    rintro a _ rfl b _ rfl
    rfl
  have himages : List.Forall₂ (fun a b ↦ f a = b) xs (xs.map f) :=
    List.forall₂_map_right_iff.mpr (List.forall₂_same.mpr fun _ _ ↦ rfl)
  have hsorted := stableSort_related hbefore himages
  rwa [← List.forall₂_map_left_iff (f := f) (R := Eq), List.forall₂_eq_eq_eq] at hsorted

end StableSort

/-! ### Records with the same values -/

section Records

variable {R S : Type} [Record R] [Record S] {r r' : R} {s s' : S}

/-- Assumes: on each side, records with the same value in the field of the key. -/
theorem SortKey.compare_congr {k : SortKey}
    (hleft : Record.field r k.field = Record.field s k.field)
    (hright : Record.field r' k.field = Record.field s' k.field) :
    k.compare r r' = k.compare s s' := by
  rw [SortKey.compare, SortKey.compare, hleft, hright]

/-- Assumes: on each side, records with the same values in the fields of the keys. They compare the
same. -/
theorem SortOrder.compare_congr {o : SortOrder}
    (hleft : ∀ k ∈ o.keys, Record.field r k.field = Record.field s k.field)
    (hright : ∀ k ∈ o.keys, Record.field r' k.field = Record.field s' k.field) :
    o.compare r r' = o.compare s s' := by
  obtain ⟨keys⟩ := o
  refine List.foldr_ext _ _ _ fun k hk rest ↦ ?_
  rw [SortKey.compare_congr (hleft k hk) (hright k hk)]

/-- A key of a sort request is on a field that the request names. -/
theorem SortSpec.field_mem_of_mem_pair {k : SortKey} (fields : List String)
    (directions : List Direction) (h : k ∈ pair fields directions) : k.field ∈ fields := by
  induction fields generalizing directions with
  | nil => exact nomatch h
  | cons field fields ih =>
    cases directions with
    | nil =>
      rcases List.mem_cons.mp h with rfl | hrest
      · exact List.mem_cons_self
      · exact List.mem_cons_of_mem field (ih [] hrest)
    | cons direction directions =>
      rcases List.mem_cons.mp h with rfl | hrest
      · exact List.mem_cons_self
      · exact List.mem_cons_of_mem field (ih directions hrest)

end Records

end Listing
