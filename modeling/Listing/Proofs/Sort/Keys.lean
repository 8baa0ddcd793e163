import Listing.Proofs.Sort.Selection

/-!
# Sorting key by key

Sorting by one list of keys followed by another one is sorting by the second list and then, stably,
by the first (`SortOrder.sort_append`): so a list is sorted by its keys one after the other, the
least important one first (`SortOrder.sort_eq_foldr`). A key on a field that an earlier key is on
already decides nothing, whatever its direction is (`SortOrder.compare_insert`).
-/

set_option autoImplicit false
set_option relaxedAutoImplicit false

namespace Listing

/-! ### One stable sort after the other -/

section Lexicographic

variable {α : Type} {first second : α → α → Ordering} [Std.TransCmp first] [Std.TransCmp second]

/-- What is sorted by a second comparison and then stably by a first one is sorted by both. -/
theorem pairwise_stableSort_stableSort (xs : List α) :
    (stableSort (fun a b ↦ (first a b).isLT)
      (stableSort (fun a b ↦ (second a b).isLT) xs)).Pairwise
        fun a b ↦ (compareLex first second a b).isLE = true := by
  refine List.pairwise_iff_forall_sublist.mpr fun {a b} hpair ↦ ?_
  have hfirst : (first a b).isLE = true :=
    List.pairwise_iff_forall_sublist.mp (pairwise_stableSort _) hpair
  rw [compareLex]
  rcases Ordering.isLE_iff_eq_lt_or_eq_eq.mp hfirst with hlt | heq
  · rw [hlt]
    rfl
  · -- A tie of the first comparison stands as the second one has sorted it.
    rw [heq]
    exact List.pairwise_iff_forall_sublist.mp (pairwise_stableSort xs)
      (pair_sublist_of_stableSort heq hpair)

/-- Sorting by two comparisons, the first one being the more important, is sorting by the second one
and then by the first one. -/
theorem stableSort_compareLex (xs : List α) :
    stableSort (fun a b ↦ (compareLex first second a b).isLT) xs =
      stableSort (fun a b ↦ (first a b).isLT)
        (stableSort (fun a b ↦ (second a b).isLT) xs) := by
  refine eq_of_sorted_of_filter_eq (pairwise_stableSort xs) (pairwise_stableSort_stableSort xs) ?_
  intro a
  have hequal : ∀ b c, (compareLex first second a b).isEq = true →
      (compareLex first second a c).isEq = true → first b c = .eq ∧ second b c = .eq := by
    intro b c hb hc
    have hbc : compareLex first second b c = .eq := eq_of_isEq hb hc
    exact Ordering.then_eq_eq.mp hbc
  rw [filter_isEq_stableSort, filter_stableSort, filter_stableSort]
  · intro b c hb hc
    rw [(hequal b c hb hc).2]
    rfl
  · intro b c hb hc
    rw [(hequal b c hb hc).1]
    rfl

end Lexicographic

/-! ### Lists of keys -/

variable {R : Type} [Record R]

/-- Only equal values are compared as equal, in either direction. -/
theorem Direction.apply_eq_eq_iff (d : Direction) (o : Ordering) : d.apply o = .eq ↔ o = .eq := by
  cases d with
  | asc => rfl
  | desc => exact Ordering.swap_eq_eq

/-- Records that one key does not tell apart are not told apart by another key on its field. -/
theorem SortKey.compare_eq_eq_of_field_eq {k k' : SortKey} (hfield : k.field = k'.field) {a b : R}
    (h : k.compare a b = .eq) : k'.compare a b = .eq := by
  rw [compare, Direction.apply_eq_eq_iff] at h ⊢
  rwa [← hfield]

namespace SortOrder

/-- The keys of a first list decide, then those of a second one. -/
theorem compare_append (keys keys' : List SortKey) (a b : R) :
    compare ⟨keys ++ keys'⟩ a b = (compare ⟨keys⟩ a b).then (compare ⟨keys'⟩ a b) := by
  induction keys with
  | nil => rfl
  | cons k keys ih =>
    change (k.compare a b).then (compare ⟨keys ++ keys'⟩ a b) =
      ((k.compare a b).then (compare ⟨keys⟩ a b)).then (compare ⟨keys'⟩ a b)
    rw [ih, Ordering.then_assoc]

/-- Records that a list of keys does not tell apart are told apart by none of them. -/
theorem compare_eq_eq_of_mem {keys : List SortKey} {a b : R} (h : compare ⟨keys⟩ a b = .eq)
    {k : SortKey} (hk : k ∈ keys) : k.compare a b = .eq := by
  obtain ⟨before, behind, rfl⟩ := List.append_of_mem hk
  rw [compare_append] at h
  exact (Ordering.then_eq_eq.mp (Ordering.then_eq_eq.mp h).2).1

/-- Assumes: uniform records. Sorting by one list of keys followed by another one is sorting by the
second list and then by the first one. -/
theorem sort_append {keys keys' : List SortKey} {rs : List R}
    (h : (⟨keys ++ keys'⟩ : SortOrder).Uniform rs) :
    (⟨keys ++ keys'⟩ : SortOrder).sort rs =
      (⟨keys⟩ : SortOrder).sort ((⟨keys'⟩ : SortOrder).sort rs) := by
  have hkeys : (⟨keys⟩ : SortOrder).Uniform rs := fun k hk ↦ h k (List.mem_append_left _ hk)
  have hkeys' : (⟨keys'⟩ : SortOrder).Uniform rs := fun k hk ↦ h k (List.mem_append_right _ hk)
  obtain ⟨first, hfirst, hcompare, hsort⟩ := exists_sort_eq hkeys
  obtain ⟨second, hsecond, hcompare', hsort'⟩ := exists_sort_eq hkeys'
  have hboth : (⟨keys ++ keys'⟩ : SortOrder).sort rs =
      stableSort (fun a b ↦ (compareLex first second a b).isLT) rs := by
    refine stableSort_congr fun a ha b hb ↦ congrArg Ordering.isLT ?_
    rw [compare_append, hcompare a ha b hb, hcompare' a ha b hb]
    rfl
  have hsubset : (⟨keys'⟩ : SortOrder).sort rs ⊆ rs := (stableSort_perm _ rs).subset
  rw [hboth, hsort _ hsubset, hsort' rs (List.Subset.refl rs), stableSort_compareLex]

/-- Assumes: uniform records. They are sorted by one key after the other, the last one first. -/
theorem sort_eq_foldr {keys : List SortKey} {rs : List R}
    (h : (⟨keys⟩ : SortOrder).Uniform rs) :
    (⟨keys⟩ : SortOrder).sort rs = keys.foldr (fun k rs ↦ (⟨[k]⟩ : SortOrder).sort rs) rs := by
  induction keys with
  | nil => exact sort_unsorted rs
  | cons k keys ih =>
    have htail : (⟨keys⟩ : SortOrder).Uniform rs := fun k hk ↦ h k (List.mem_cons_of_mem _ hk)
    have hhead : (⟨[k] ++ keys⟩ : SortOrder).Uniform rs := h
    rw [List.foldr_cons, ← ih htail, ← sort_append hhead]
    rfl

/-- Assumes: a key on a field that a key before it is on. It changes no comparison. -/
theorem compare_insert {keys keys' : List SortKey} {k : SortKey}
    (h : ∃ k' ∈ keys, k'.field = k.field) (a b : R) :
    compare ⟨keys ++ k :: keys'⟩ a b = compare ⟨keys ++ keys'⟩ a b := by
  obtain ⟨k', hk', hfield⟩ := h
  rw [compare_append, compare_append]
  cases hkeys : compare ⟨keys⟩ a b with
  | lt => rfl
  | gt => rfl
  | eq =>
    -- The records agree in the field, so the key passes the comparison on.
    have hkey := SortKey.compare_eq_eq_of_field_eq hfield (compare_eq_eq_of_mem hkeys hk')
    change (k.compare a b).then (compare ⟨keys'⟩ a b) = compare ⟨keys'⟩ a b
    rw [hkey]
    rfl

/-- A list of keys sorts key by key. If the values of the records in the field of each key are of
one kind, then sorting by two lists of keys, one behind the other, is sorting by the second list and
then by the first. A key behind another one on its field, in either direction, changes no comparison
of records, and so no sorted list. -/
theorem sort_append_and_insert (keys keys' : List SortKey) (rs : List R) :
    ((⟨keys ++ keys'⟩ : SortOrder).Uniform rs →
      (⟨keys ++ keys'⟩ : SortOrder).sort rs =
        (⟨keys⟩ : SortOrder).sort ((⟨keys'⟩ : SortOrder).sort rs)) ∧
      ∀ k : SortKey, (∃ k' ∈ keys, k'.field = k.field) →
        (∀ a b : R, compare ⟨keys ++ k :: keys'⟩ a b = compare ⟨keys ++ keys'⟩ a b) ∧
          (⟨keys ++ k :: keys'⟩ : SortOrder).sort rs =
            (⟨keys ++ keys'⟩ : SortOrder).sort rs := by
  refine ⟨sort_append, fun k hk ↦ ⟨compare_insert hk, ?_⟩⟩
  exact stableSort_congr fun a _ b _ ↦ congrArg Ordering.isLT (compare_insert hk a b)

/-- By title, then by seats, many first: of the two courses called `b`, the one of unknown size comes
last. Asking for few seats first behind these keys changes nothing. -/
theorem sort_append_and_insert_offers :
    let byTitle : List SortKey := [⟨"title", .asc⟩]
    let bySeats : List SortKey := [⟨"seats", .desc⟩]
    (⟨byTitle ++ bySeats⟩ : SortOrder).Uniform Courses.offers ∧
      (∃ k ∈ byTitle ++ bySeats, k.field = "seats") ∧
      ((⟨(byTitle ++ bySeats) ++ ⟨"seats", .asc⟩ :: []⟩ : SortOrder).sort Courses.offers).map
          (Record.field · "seats") =
        [some (.integer 1), some (.integer 7), some (.integer 9), some (.integer 7), none] := by
  intro byTitle bySeats
  have huniform : (⟨byTitle ++ bySeats⟩ : SortOrder).Uniform Courses.offers :=
    List.forall_mem_cons.mpr ⟨⟨.text, by decide⟩,
      List.forall_mem_cons.mpr ⟨⟨.integer, by decide⟩, nofun⟩⟩
  have hfield : ∃ k ∈ byTitle ++ bySeats, k.field = "seats" := by decide
  refine ⟨huniform, hfield, ?_⟩
  rw [((sort_append_and_insert (byTitle ++ bySeats) [] Courses.offers).2 ⟨"seats", .asc⟩ hfield).2,
    List.append_nil, (sort_append_and_insert byTitle bySeats Courses.offers).1 huniform]
  decide

end SortOrder

end Listing
