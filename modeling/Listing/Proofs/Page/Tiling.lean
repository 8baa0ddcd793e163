import Listing.Plan
import Listing.Proofs.Filter.Meaning
import Listing.Proofs.Sort.Routines
import Mathlib.Order.Interval.Set.Nat

/-!
# Pages tile the result

The pages of a result are computed with counts that stop at the largest one. What they hold is said
in exact numbers: page `k` of a list is `tile s k`, the items from position `k * s` up to position
`(k + 1) * s`, if pages have `s` items. A list that is shorter than the largest count has no item
where the counts stop, so the range of a page request cuts out a tile (`Window.slice_of_some`), and
the summary of the page knows which tiles have items (`Summary.lt_totalPages_iff`,
`Summary.hasNext_iff`).

`ListQuery.answerBy` is what a list request answers from memory if its records are sorted by some
routine. The routine sees the same records whatever page is asked for. So if it stops it stops for
each page, and otherwise the pages are the tiles of what is answered without a page request: one
after the other they are the whole answer (`ListQuery.pages_tile_answer`).
-/

set_option autoImplicit false
set_option relaxedAutoImplicit false

namespace Listing

/-! ### Tiles of a list -/

section Tile

variable {α : Type}

/-- The items of a list on the page with the given number, if pages have `s` items. -/
def tile (s k : Nat) (xs : List α) : List α := xs.extract (k * s) (min ((k + 1) * s) xs.length)

/-- A tile is what is left of at most `s` items behind the earlier tiles. -/
theorem tile_eq_take_drop (s k : Nat) (xs : List α) : tile s k xs = (xs.drop (k * s)).take s := by
  have hend : (k + 1) * s - k * s = s := by
    rw [Nat.succ_mul, Nat.add_sub_cancel_left]
  rw [tile, List.extract_eq_take_drop, ← Nat.sub_min_sub_right, hend, ← List.length_drop,
    ← List.take_eq_take_min]

/-- A tile has items if it begins before the end of the list. -/
theorem tile_ne_nil_iff {s : Nat} (hs : 0 < s) (k : Nat) (xs : List α) :
    tile s k xs ≠ [] ↔ k * s < xs.length := by
  rw [tile_eq_take_drop, ne_eq, List.take_eq_nil_iff, List.drop_eq_nil_iff]
  omega

/-- The first tiles of a list, one after the other, are its first items. -/
theorem flatMap_tile (s m : Nat) (xs : List α) :
    ((List.range m).flatMap fun k ↦ tile s k xs) = xs.take (m * s) := by
  induction m with
  | zero => simp
  | succ m ih =>
    rw [List.range_succ, List.flatMap_append, ih, List.flatMap_singleton, tile_eq_take_drop,
      Nat.succ_mul, List.take_add]

/-- The tiles with items are counted by a number if they are the ones numbered below it. -/
theorem ncard_tile_ne_nil {s m : Nat} {xs : List α} (h : ∀ k, k < m ↔ tile s k xs ≠ []) :
    {k : Nat | tile s k xs ≠ []}.ncard = m := by
  have hbelow : {k : Nat | tile s k xs ≠ []} = Set.Iio m := Set.ext fun k ↦ (h k).symm
  rw [hbelow, Set.ncard_Iio_nat]

end Tile

/-! ### Ranges of page requests -/

/-- A page has at least one item. -/
theorem PageRequest.toNat_limit (r : PageRequest) : r.limit.toNat = max 1 r.size.toNat := by
  by_cases hsize : r.size = 0
  · rw [limit, if_pos hsize, hsize]
    rfl
  · rw [limit, if_neg hsize]
    rw [Count.eq_zero_iff] at hsize
    omega

theorem PageRequest.toNat_limit_pos (r : PageRequest) : 0 < r.limit.toNat := by
  rw [toNat_limit]
  omega

/-- A count that stopped at the largest one leaves out as much of a list that is not longer. -/
theorem drop_min_largest {α : Type} {xs : List α} (hlength : xs.length ≤ Count.largest) (n : Nat) :
    xs.drop (min n Count.largest) = xs.drop n := by
  rcases Nat.le_total n Count.largest with hle | hge
  · rw [Nat.min_eq_left hle]
  · rw [Nat.min_eq_right hge, List.drop_eq_nil_of_le hlength,
      List.drop_eq_nil_of_le (hlength.trans hge)]

/-- The window of a page request is a tile. Assumes: a list not longer than the largest count. -/
theorem Window.slice_of_some {α : Type} {xs : List α} (hlength : xs.length ≤ Count.largest)
    (r : PageRequest) (order : SortOrder) :
    (Window.of (some r) order).slice xs = tile r.limit.toNat r.page.toNat xs := by
  change (xs.drop r.offset.toNat).take r.limit.toNat = _
  rw [PageRequest.offset, Count.toNat_times, drop_min_largest hlength, tile_eq_take_drop]

namespace Summary

/-- The pages below the number of pages are those that begin before the end of the result. -/
theorem lt_totalPages_iff (r : PageRequest) (total : Count) (k : Nat) :
    k < (ofPage r total).totalPages.toNat ↔ k * r.limit.toNat < total.toNat := by
  have hlimit := r.toNat_limit_pos
  have hshift : total.toNat + r.limit.toNat - 1 - (r.limit.toNat - 1) = total.toNat := by
    omega
  rw [ofPage, Count.toNat_ceilDiv _ _ hlimit, Nat.lt_div_iff_mul_lt hlimit, hshift]

/-- There is a next page if it is below the number of pages, also where page numbers stop. -/
theorem hasNext_iff (r : PageRequest) (total : Count) :
    (ofPage r total).hasNext = true ↔ r.page.toNat + 1 < (ofPage r total).totalPages.toNat := by
  have hpages := Count.toNat_le_largest (ofPage r total).totalPages
  have hnext : (r.page.plus 1).toNat = min (r.page.toNat + 1) Count.largest :=
    Count.toNat_plus r.page 1
  change decide (r.page.plus 1 < (ofPage r total).totalPages) = true ↔ _
  -- Where the next page number stops at the largest count, there are no more pages either.
  rw [decide_eq_true_iff, UInt64.lt_iff_toNat_lt, hnext]
  omega

end Summary

/-! ### Pages of an answer -/

/-- The page is the tile with the given number of a whole result, and is told so. -/
structure Page.IsTile {α : Type} (page : Page α) (s k : Nat) (full : List α) : Prop where
  content : page.content = tile s k full
  totalElements : page.pagination.totalElements.toNat = full.length
  totalPages : page.pagination.totalPages.toNat = {k : Nat | tile s k full ≠ []}.ncard
  hasNext : page.pagination.hasNext = true ↔ tile s (k + 1) full ≠ []

namespace ListQuery

section PageOf

variable {α : Type} {shape : Shape}

/-- The page that a list request asks for of its sorted records. -/
def pageOf (q : ListQuery shape) (sorted : List α) : Page α :=
  ⟨(Window.of q.page q.sort.compile).slice sorted, Summary.of q.page (Count.clamp sorted.length)⟩

/-- A page holds sorted records, in their order. -/
theorem pageOf_sublist (q : ListQuery shape) (sorted : List α) :
    (q.pageOf sorted).content.Sublist sorted := by
  obtain ⟨filter, sort, page⟩ := q
  cases page with
  | none => exact .refl _
  | some r => exact (List.take_sublist _ _).trans (List.drop_sublist _ _)

variable {q : ListQuery shape} {sorted : List α} (hlength : sorted.length ≤ Count.largest)
  (r : PageRequest)

include hlength

/-- A page is told the number of all items. -/
theorem toNat_totalElements_pageOf :
    ({ q with page := some r }.pageOf sorted).pagination.totalElements.toNat = sorted.length :=
  (Count.toNat_clamp _).trans (Nat.min_eq_left hlength)

/-- The pages below the number of pages are the tiles with items. -/
theorem lt_totalPages_pageOf_iff (k : Nat) :
    k < ({ q with page := some r }.pageOf sorted).pagination.totalPages.toNat ↔
      tile r.limit.toNat k sorted ≠ [] := by
  rw [tile_ne_nil_iff r.toNat_limit_pos, ← toNat_totalElements_pageOf (q := q) hlength r]
  exact Summary.lt_totalPages_iff r _ k

/-- Each page of the sorted records is a tile of them. -/
theorem isTile_pageOf : ({ q with page := some r }.pageOf sorted).IsTile r.limit.toNat
    r.page.toNat sorted where
  content := Window.slice_of_some hlength r q.sort.compile
  totalElements := toNat_totalElements_pageOf hlength r
  totalPages := (ncard_tile_ne_nil (lt_totalPages_pageOf_iff hlength r)).symm
  hasNext := (Summary.hasNext_iff r _).trans (lt_totalPages_pageOf_iff (q := q) hlength r _)

/-- As many items as the pages can hold are all. -/
theorem length_le_pages :
    sorted.length ≤
      ({ q with page := some r }.pageOf sorted).pagination.totalPages.toNat * r.limit.toNat := by
  have hlast := (lt_totalPages_pageOf_iff (q := q) hlength r _).not.mp (Nat.lt_irrefl _)
  rw [tile_ne_nil_iff r.toNat_limit_pos] at hlast
  exact Nat.le_of_not_lt hlast

/-- The pages below the number of pages, one after the other, are all of the sorted records. -/
theorem flatMap_pageOf :
    ((List.range ({ q with page := some r }.pageOf sorted).pagination.totalPages.toNat).flatMap
      fun k ↦ ({ q with page := some ⟨UInt64.ofNat k, r.size⟩ }.pageOf sorted).content) =
        sorted := by
  have hcontent : ∀ k ∈ List.range
      ({ q with page := some r }.pageOf sorted).pagination.totalPages.toNat,
      ({ q with page := some ⟨UInt64.ofNat k, r.size⟩ }.pageOf sorted).content =
        tile r.limit.toNat k sorted := by
    intro k hk
    have hcount : k < UInt64.size := (List.mem_range.mp hk).trans (UInt64.toNat_lt_size _)
    rw [(isTile_pageOf hlength ⟨UInt64.ofNat k, r.size⟩).content, UInt64.toNat_ofNat_of_lt' hcount]
    rfl
  rw [List.flatMap_congr hcontent, flatMap_tile,
    List.take_of_length_le (length_le_pages (q := q) hlength r)]

end PageOf

end ListQuery

/-! ### Answers by a routine -/

section Answer

variable {R : Type} [Record R] {shape : Shape}

namespace ListQuery

/-- What a list request answers from memory if the records are sorted by a routine; nothing if the
routine stops. -/
def answerBy (routine : SortRoutine) (q : ListQuery shape) (rs : List R) : Option (Page R) :=
  (QueryPlan.compile (Matcher.backend R) q).executeBy routine rs

/-- The records that a list request matches. -/
def matching (q : ListQuery shape) (rs : List R) : List R :=
  (Filter.compileOption (Matcher.backend R) q.filter).select rs

/-- The records that a list request matches, sorted by a routine. -/
def sortedBy (routine : SortRoutine) (q : ListQuery shape) (rs : List R) : Option (List R) :=
  q.sort.compile.sortBy routine (q.matching rs)

variable {routine : SortRoutine} {q : ListQuery shape} {rs sorted : List R}

/-- An answer is a page of the sorted records, and these do not depend on the page. -/
theorem answerBy_eq_map (page : Option PageRequest) :
    { q with page }.answerBy routine rs = (q.sortedBy routine rs).map { q with page }.pageOf := rfl

/-- The sorted records are the matching ones, in some order. -/
theorem perm_of_sortedBy (h : q.sortedBy routine rs = some sorted) :
    sorted.Perm (q.matching rs) :=
  SortOrder.perm_of_sortBy h

/-- Assumes: matching records that are uniform. Whatever the routine is, there is an answer. -/
theorem isSome_answerBy (h : q.sort.compile.Uniform (q.matching rs)) :
    (q.answerBy routine rs).isSome := by
  rw [answerBy, QueryPlan.executeBy_eq_some_execute h]
  rfl

/-- Assumes: a list shorter than there are counts. The number of sorted records is a count. -/
theorem length_sortedBy_le_largest (hlength : rs.length < UInt64.size)
    (h : q.sortedBy routine rs = some sorted) : sorted.length ≤ Count.largest := by
  have hmatching : (q.matching rs).length ≤ rs.length := List.length_filter_le _ _
  exact (perm_of_sortedBy h).length_eq.trans_le (hmatching.trans (Nat.le_sub_one_of_lt hlength))

/-- The pages of an answer tile it. Assumes: a list shorter than there are counts.

The records are sorted by any routine, which may stop. Whether it does, is the same for each page and
without a page request; and it does not if the matching records are uniform. If there is an answer
without a page request, it holds the matching records; for each page size, where zero counts as one,
and for each page number there is a page, and it is the tile with that number of the whole answer;
and the pages below the number of pages, one after the other, are all of it. -/
theorem pages_tile_answer (routine : SortRoutine) (q : ListQuery shape) (size : Count)
    (rs : List R) (hlength : rs.length < UInt64.size) :
    let whole := { q with page := none }.answerBy routine rs
    let pageAt (p : Count) := { q with page := some ⟨p, size⟩ }.answerBy routine rs
    (∀ p, (pageAt p).isSome = whole.isSome) ∧
      (q.sort.compile.Uniform (q.matching rs) → whole.isSome) ∧
      ∀ full, whole = some full → full.content.Perm (q.matching rs) ∧
        ∃ page : Count → Page R, ∀ p,
          pageAt p = some (page p) ∧
            (page p).IsTile (max 1 size.toNat) p.toNat full.content ∧
            ((List.range (page p).pagination.totalPages.toNat).flatMap fun k ↦
              (page (UInt64.ofNat k)).content) = full.content := by
  intro whole pageAt
  have hwhole : whole = (q.sortedBy routine rs).map { q with page := none }.pageOf :=
    answerBy_eq_map none
  have hpage (p : Count) :
      pageAt p = (q.sortedBy routine rs).map { q with page := some ⟨p, size⟩ }.pageOf :=
    answerBy_eq_map (some ⟨p, size⟩)
  refine ⟨fun p ↦ ?_, fun huniform ↦ isSome_answerBy huniform, fun full hfull ↦ ?_⟩
  · rw [hwhole, hpage, Option.isSome_map, Option.isSome_map]
  · obtain ⟨sorted, hsorted, rfl⟩ := Option.map_eq_some_iff.mp (hwhole.symm.trans hfull)
    have hcount : sorted.length ≤ Count.largest := length_sortedBy_le_largest hlength hsorted
    refine ⟨perm_of_sortedBy hsorted, fun p ↦ { q with page := some ⟨p, size⟩ }.pageOf sorted,
      fun p ↦ ⟨?_, ?_, ?_⟩⟩
    · rw [hpage, hsorted]
      rfl
    · rw [← PageRequest.toNat_limit ⟨p, size⟩]
      exact isTile_pageOf hcount ⟨p, size⟩
    · exact flatMap_pageOf hcount ⟨p, size⟩

end ListQuery

end Answer

/-! ### A small result -/

namespace Courses

/-- All courses, sorted by title. -/
def byTitle : ListQuery shape := { sort := ⟨["title"], [.asc]⟩ }

/-- Three courses, two of which have the same title. -/
def rows : List Row := [row "b" (some 1), row "a" none, row "b" (some 2)]

end Courses

/-- Two courses fill the first page, and the last of the two that tie is alone on the second one. -/
theorem ListQuery.pages_tile_answer_byTitle :
    Courses.rows.length < UInt64.size ∧
      Courses.byTitle.sort.compile.Uniform (Courses.byTitle.matching Courses.rows) ∧
      ∃ page, { Courses.byTitle with page := some ⟨1, 2⟩ }.answerBy .insertion Courses.rows =
        some page ∧ page.IsTile 2 1
          [Courses.row "a" none, Courses.row "b" (some 1), Courses.row "b" (some 2)] := by
  have hlength : Courses.rows.length < UInt64.size := by decide
  have huniform : Courses.byTitle.sort.compile.Uniform (Courses.byTitle.matching Courses.rows) :=
    List.forall_mem_singleton.mpr ⟨.text, by decide⟩
  obtain ⟨-, hsome, htiles⟩ := pages_tile_answer .insertion Courses.byTitle 2 Courses.rows hlength
  obtain ⟨full, hfull⟩ := Option.isSome_iff_exists.mp (hsome huniform)
  obtain ⟨-, page, hpage⟩ := htiles full hfull
  have hcontent : full.content =
      [Courses.row "a" none, Courses.row "b" (some 1), Courses.row "b" (some 2)] := by
    rw [← Option.some.inj hfull]
    rfl
  refine ⟨hlength, huniform, page 1, (hpage 1).1, ?_⟩
  rw [← hcontent]
  exact (hpage 1).2.1

end Listing
