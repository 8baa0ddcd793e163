import Listing.Plan
import Listing.Proofs.Sort.Selection
import Mathlib.Data.Option.Defs

/-!
# What all sorting routines do

A routine knows its items only by how they compare, so it arranges lists alike whose items compare
alike (`SortRoutine.sort_related`), and it never loses an item (`SortRoutine.perm_of_sort`). By a
total preorder all routines sort alike, since there is only one stable arrangement
(`SortRoutine.sort_eq_stableSort`); and only there is a result promised
(`SortRoutine.forall_isSome_sort_iff`). Insertion is such a routine (`SortRoutine.insertion`).

So a plan that is executed by whatever routine gives the page that insertion gives, if the values in
the field of each key are of one kind (`QueryPlan.executeBy_eq_some_execute`).
-/

set_option autoImplicit false
set_option relaxedAutoImplicit false

namespace Listing

namespace SortRoutine

variable {α β : Type} {routine : SortRoutine} {cmp : α → α → Ordering}

/-! ### Arrangements -/

/-- A routine arranges as many positions alike, whatever they are counted as. -/
theorem arrange_cast {n m : Nat} (h : n = m) (cmp : Fin m → Fin m → Ordering) :
    (routine.arrange fun i j ↦ cmp (i.cast h) (j.cast h)) =
      (routine.arrange cmp).map (List.map (Fin.cast h.symm)) := by
  subst h
  have hid : List.map (Fin.cast (rfl : n = n)) = id := funext fun _ ↦ List.map_id _
  rw [hid, Option.map_id]
  rfl

/-- There is only one stable arrangement by a total preorder. -/
theorem eq_of_stable {n : Nat} {cmp : Fin n → Fin n → Ordering} [Std.OrientedCmp cmp]
    {positions positions' : List (Fin n)} (hperm : positions.Perm positions')
    (h : positions.Pairwise fun i j ↦ cmp j i ≠ .lt ∧ (cmp i j = .eq → i < j))
    (h' : positions'.Pairwise fun i j ↦ cmp j i ≠ .lt ∧ (cmp i j = .eq → i < j)) :
    positions = positions' := by
  -- Of two positions that may stand in either order each one would be the smaller one.
  refine hperm.eq_of_pairwise (fun i j _ _ hij hji ↦ ?_) h h'
  have hswap : cmp j i = (cmp i j).swap := Std.OrientedCmp.eq_swap
  have heq : cmp i j = .eq := by
    have hlt := hij.1
    have hgt := hji.1
    rw [hswap] at hlt
    cases hcmp : cmp i j <;> simp_all
  have heq' : cmp j i = .eq := by
    rw [hswap, heq]
    rfl
  exact absurd (hij.2 heq) (Fin.lt_asymm (hji.2 heq'))

/-! ### Sorted lists -/

/-- A sorted list has the items of the given one. -/
theorem perm_of_sort {xs sorted : List α} (h : routine.sort cmp xs = some sorted) :
    sorted.Perm xs := by
  obtain ⟨positions, hpositions, rfl⟩ := Option.map_eq_some_iff.mp h
  have hperm := (routine.arrange_perm hpositions).map xs.get
  rwa [List.map_get_finRange] at hperm

/-- Assumes: comparisons with the same outcomes on related items. Of two lists that are related item
by item a routine sorts both or neither, and the sorted lists are related item by item. -/
theorem sort_related {T : α → β → Prop} {cmp' : β → β → Ordering}
    (hcmp : ∀ a b, T a b → ∀ c d, T c d → cmp a c = cmp' b d) {xs : List α} {ys : List β}
    (h : List.Forall₂ T xs ys) :
    Option.Rel (List.Forall₂ T) (routine.sort cmp xs) (routine.sort cmp' ys) := by
  obtain ⟨hlength, hitems⟩ := List.forall₂_iff_get.mp h
  have hitem (i : Fin xs.length) : T (xs.get i) (ys.get (i.cast hlength)) :=
    hitems i i.isLt (i.cast hlength).isLt
  have hxs : (fun i j ↦ cmp (xs.get i) (xs.get j)) =
      fun i j ↦ cmp' (ys.get (i.cast hlength)) (ys.get (j.cast hlength)) :=
    funext fun i ↦ funext fun j ↦ hcmp _ _ (hitem i) _ _ (hitem j)
  rw [sort, sort, hxs, arrange_cast hlength fun i j ↦ cmp' (ys.get i) (ys.get j)]
  cases routine.arrange fun i j ↦ cmp' (ys.get i) (ys.get j) with
  | none => exact .none
  | some positions =>
    refine .some ?_
    dsimp only
    rw [List.map_map, List.forall₂_map_left_iff, List.forall₂_map_right_iff]
    exact List.forall₂_same.mpr fun i _ ↦ hitem (i.cast hlength.symm)

/-- By a total preorder every routine sorts as insertion does. -/
theorem sort_eq_stableSort [Std.TransCmp cmp] (xs : List α) :
    routine.sort cmp xs = some (stableSort (fun a b ↦ (cmp a b).isLT) xs) := by
  have htrans := transCmp_comap cmp xs.get
  obtain ⟨positions, hpositions, hstable⟩ :=
    routine.arrange_stable fun i j ↦ cmp (xs.get i) (xs.get j)
  obtain ⟨positions', hperm', hitems, hstable'⟩ := @isStablySorted_stableSort _ cmp _ xs
  have hperm := (routine.arrange_perm hpositions).trans hperm'.symm
  rw [sort, hpositions, Option.map_some, eq_of_stable hperm hstable hstable', hitems]

/-! ### Insertion -/

/-- Inserts one item after the other, by whatever comparison. -/
def insertion : SortRoutine where
  arrange cmp := some (stableSort (fun i j ↦ (cmp i j).isLT) (List.finRange _))
  arrange_perm h := Option.some.inj h ▸ stableSort_perm _ _
  arrange_stable cmp := ⟨_, rfl, pairwise_stableSort_finRange cmp⟩

theorem sort_insertion (cmp : α → α → Ordering) (xs : List α) :
    insertion.sort cmp xs = some (stableSort (fun a b ↦ (cmp a b).isLT) xs) := by
  change some (List.map xs.get (stableSort _ (List.finRange xs.length))) = _
  rw [map_stableSort (fun a b ↦ (cmp a b).isLT) xs.get, List.map_get_finRange]

/-! ### What is promised -/

/-- Inserts one item after the other, but stops if the comparison is no total preorder. -/
def cautious : SortRoutine where
  arrange cmp :=
    if (∀ i j, cmp i j = (cmp j i).swap) ∧
        ∀ i j k, (cmp i j).isLE → (cmp j k).isLE → (cmp i k).isLE then
      insertion.arrange cmp
    else none
  arrange_perm h := by
    split at h
    · exact insertion.arrange_perm h
    · cases h
  arrange_stable cmp _ := by
    rw [if_pos ⟨fun _ _ ↦ Std.OrientedCmp.eq_swap, fun _ _ _ ↦ Std.TransCmp.isLE_trans⟩]
    exact insertion.arrange_stable cmp

/-- A routine that is not known may stop, unless the items are compared as by a total preorder. -/
theorem forall_isSome_sort_iff {xs : List α} :
    (∀ routine : SortRoutine, (routine.sort cmp xs).isSome) ↔
      Std.TransCmp fun i j ↦ cmp (xs.get i) (xs.get j) := by
  constructor
  · intro h
    have hsome := h cautious
    rw [sort, Option.isSome_map, cautious] at hsome
    dsimp only at hsome
    split at hsome
    · rename_i hlaws
      exact { eq_swap := hlaws.1 _ _, isLE_trans := hlaws.2 _ _ _ }
    · cases hsome
  · intro htrans routine
    obtain ⟨positions, hpositions, -⟩ :=
      @arrange_stable routine _ (fun i j ↦ cmp (xs.get i) (xs.get j)) htrans
    rw [sort, hpositions]
    rfl

end SortRoutine

/-! ### Records -/

section Records

variable {R S : Type} [Record R] [Record S] {routine : SortRoutine} {o : SortOrder} {rs : List R}

namespace SortOrder

theorem perm_of_sortBy {sorted : List R} (h : o.sortBy routine rs = some sorted) :
    sorted.Perm rs := by
  rw [sortBy] at h
  split at h
  · obtain rfl := Option.some.inj h
    exact .refl _
  · exact SortRoutine.perm_of_sort h

/-- Assumes: related records compare the same. Of two lists that are related record by record a
routine sorts both or neither, and the sorted lists are related record by record. -/
theorem sortBy_related {T : R → S → Prop}
    (hcompare : ∀ r s, T r s → ∀ r' s', T r' s' → o.compare r r' = o.compare s s') {ss : List S}
    (h : List.Forall₂ T rs ss) :
    Option.Rel (List.Forall₂ T) (o.sortBy routine rs) (o.sortBy routine ss) := by
  rw [sortBy, sortBy]
  by_cases hkeys : o.isUnsorted = true
  · rw [if_pos hkeys, if_pos hkeys]
    exact .some h
  · rw [if_neg hkeys, if_neg hkeys]
    exact SortRoutine.sort_related hcompare h

/-- Sorting records by insertion is what it says. -/
theorem sortBy_insertion (o : SortOrder) (rs : List R) :
    o.sortBy .insertion rs = some (o.sort rs) := by
  obtain ⟨keys⟩ := o
  cases keys with
  | nil => exact congrArg some (sort_unsorted rs).symm
  | cons k keys => exact SortRoutine.sort_insertion _ rs

/-- Assumes: uniform records. Every routine sorts them as insertion does. -/
theorem sortBy_eq_some_sort (h : o.Uniform rs) : o.sortBy routine rs = some (o.sort rs) := by
  rw [← sortBy_insertion, sortBy, sortBy]
  by_cases hkeys : o.isUnsorted = true
  · rw [if_pos hkeys, if_pos hkeys]
  · obtain ⟨cmp, htrans, hcmp⟩ := exists_transCmp h
    have hitems : (fun i j ↦ o.compare (rs.get i) (rs.get j)) =
        fun i j ↦ cmp (rs.get i) (rs.get j) :=
      funext fun i ↦ funext fun j ↦ hcmp _ (rs.get_mem i) _ (rs.get_mem j)
    rw [if_neg hkeys, if_neg hkeys, SortRoutine.sort, SortRoutine.sort, hitems]
    exact (SortRoutine.sort_eq_stableSort rs).trans (SortRoutine.sort_insertion cmp rs).symm

end SortOrder

namespace QueryPlan

variable {p : QueryPlan (Matcher R)}

/-- Executing a plan by insertion is executing it. -/
theorem executeBy_insertion (p : QueryPlan (Matcher R)) (rs : List R) :
    p.executeBy .insertion rs = some (p.execute rs) := by
  rw [executeBy, SortOrder.sortBy_insertion]
  rfl

/-- Assumes: matching records that are uniform. By whatever routine a plan is executed, it gives the
page that insertion gives. -/
theorem executeBy_eq_some_execute (h : p.window.order.Uniform (p.predicate.select rs)) :
    p.executeBy routine rs = some (p.execute rs) := by
  rw [executeBy, SortOrder.sortBy_eq_some_sort h]
  rfl

end QueryPlan

end Records

/-- A routine may stop at a text between two integers. -/
example :
    let record (v : Value) : Row := ⟨fun name ↦ if name = "x" then some v else none⟩
    (⟨[⟨"x", .asc⟩]⟩ : SortOrder).sortBy .cautious
      [record (.integer 1), record (.text "a"), record (.integer 0)] = none := by
  decide

end Listing
