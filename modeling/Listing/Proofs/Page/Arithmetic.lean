import Listing.Proofs.Page.ContentRange
import Listing.Proofs.Page.Tiling
import Mathlib.Data.Rat.Floor

/-!
# Page arithmetic is exact

Page numbers, sizes and totals are counts, which stop at the largest one. What is computed of them
is what exact numbers give, for all counts: the number of pages, whether there is a next page, which
items lie behind the offset, and which positions the header value names
(`PageRequest.arithmetic_exact`). `Summary.ofPage?` computes a summary with operations that are
refused where a count would wrap or where the divisor is zero; none of them is
(`Summary.ofPage?_eq`).
-/

set_option autoImplicit false
set_option relaxedAutoImplicit false

namespace Listing

/-! ### Operations that may be refused -/

namespace Count

/-- The sum of two counts, unless it is too large. -/
def add? (a b : Count) : Option Count := if a.toNat + b.toNat ≤ largest then some (a + b) else none

/-- The quotient of two counts, unless the divisor is zero. -/
def div? (a b : Count) : Option Count := if b = 0 then none else some (a / b)

/-- The remainder of two counts, unless the divisor is zero. -/
def mod? (a b : Count) : Option Count := if b = 0 then none else some (a % b)

/-- The quotient of two counts, rounded up. -/
def ceilDiv? (a b : Count) : Option Count := do
  let rest ← mod? a b
  let quotient ← div? a b
  if rest = 0 then return quotient else add? quotient 1

/-- A count is divided by another one than zero without being refused. -/
theorem ceilDiv?_eq (a : Count) {b : Count} (hb : b ≠ 0) : ceilDiv? a b = some (ceilDiv a b) := by
  have hsteps : ceilDiv? a b = if a % b = 0 then some (a / b) else add? (a / b) 1 := by
    rw [ceilDiv?, mod?, div?, if_neg hb, if_neg hb]
    rfl
  rw [hsteps, ceilDiv]
  by_cases hrest : a % b = 0
  · rw [if_pos hrest, if_pos hrest]
  · have hfits : (a / b).toNat + (1 : Count).toNat ≤ largest := by
      rw [eq_zero_iff, UInt64.toNat_mod] at hrest
      rw [UInt64.toNat_div]
      exact div_lt_largest hrest
    rw [if_neg hrest, if_neg hrest, add?, if_pos hfits]

end Count

namespace Summary

/-- The summary of a page, unless a count would wrap or be divided by zero. -/
def ofPage? (r : PageRequest) (total : Count) : Option Summary := do
  let pages ← total.ceilDiv? r.limit
  return ⟨r.page, r.limit, total, pages, r.page.plus 1 < pages⟩

/-- No step of a summary is refused. -/
theorem ofPage?_eq (r : PageRequest) (total : Count) : ofPage? r total = some (ofPage r total) := by
  have hlimit : r.limit ≠ 0 := by
    rw [Ne, Count.eq_zero_iff]
    exact Nat.ne_of_gt r.toNat_limit_pos
  rw [ofPage?, Count.ceilDiv?_eq total hlimit]
  rfl

/-! ### Exact numbers -/

/-- The number of pages is the exact quotient, rounded up. -/
theorem toNat_totalPages (r : PageRequest) (total : Count) :
    (ofPage r total).totalPages.toNat = ⌈(total.toNat : ℚ) / r.limit.toNat⌉₊ := by
  have hlimit : (0 : ℚ) < r.limit.toNat := Nat.cast_pos.mpr r.toNat_limit_pos
  refine eq_of_forall_ge_iff fun k ↦ ?_
  rw [Nat.ceil_le, div_le_iff₀ hlimit, ← Nat.cast_mul, Nat.cast_le, ← Nat.not_lt, ← Nat.not_lt]
  exact (lt_totalPages_iff r total k).not

/-- The header value of a summary names the given positions, and no others, and says that there is
none if there is none. No subtraction is refused. -/
def Names (s : Summary) (positions : Set Nat) : Prop :=
  ∀ resource : String, ∃ span : Span, s.span? = some span ∧
    (∀ written : Span, s.contentRange resource =
      headerName resource ++ " " ++ written.text s.totalElements.toNat ↔ written = span) ∧
    span.positions = positions ∧ (span = .empty ↔ positions = ∅)

/-- The header value names the positions of the page in exact numbers. -/
theorem names_Ico (s : Summary) :
    s.Names (Set.Ico (s.page.toNat * s.size.toNat)
      (min (s.page.toNat * s.size.toNat + s.size.toNat) s.totalElements.toNat)) := by
  intro resource
  refine ⟨_, s.span?_eq, contentRange_eq_iff s.span?_eq resource, Span.positions_upTo _ _, ?_⟩
  rw [Span.upTo_eq_empty_iff, Set.Ico_eq_empty_iff, Nat.not_lt]

end Summary

namespace PageRequest

/-- Page arithmetic is exact for all counts. A page size of zero counts as one, and all numbers on
the right-hand sides are exact. No step of a summary wraps or divides by zero. The number of pages
is the quotient rounded up; there is a next page if it begins before the end; the offset stops at
the largest count, where it leaves out of a list that is not longer what the exact one does, which
is everything. The header value names the positions of the page, or all of them if no page was asked
for. -/
theorem arithmetic_exact (r : PageRequest) (total : Count) :
    let s := max 1 r.size.toNat
    let summary := Summary.ofPage r total
    Summary.ofPage? r total = some summary ∧
      summary.totalPages.toNat = ⌈(total.toNat : ℚ) / s⌉₊ ∧
      (summary.hasNext = true ↔ (r.page.toNat + 1) * s < total.toNat) ∧
      r.offset.toNat = min (r.page.toNat * s) Count.largest ∧
      (∀ (α : Type) (items : List α), items.length ≤ Count.largest →
        items.drop r.offset.toNat = items.drop (r.page.toNat * s) ∧
          (Count.largest ≤ r.page.toNat * s → items.drop r.offset.toNat = []) ∧
          ∀ order : SortOrder, (Window.of (some r) order).slice items =
            (items.drop (r.page.toNat * s)).take s) ∧
      summary.Names (Set.Ico (r.page.toNat * s) (min ((r.page.toNat + 1) * s) total.toNat)) ∧
      (Summary.unpaged total).Names (Set.Ico 0 total.toNat) := by
  intro s summary
  have hlimit : r.limit.toNat = s := r.toNat_limit
  have hoffset : r.offset.toNat = min (r.page.toNat * s) Count.largest := by
    rw [offset, Count.toNat_times, hlimit]
  have hnext : summary.hasNext = true ↔ (r.page.toNat + 1) * s < total.toNat := by
    rw [← hlimit]
    exact (Summary.hasNext_iff r total).trans (Summary.lt_totalPages_iff r total _)
  refine ⟨Summary.ofPage?_eq r total, ?_, hnext, hoffset, fun α items hlength ↦ ⟨?_, ?_, ?_⟩, ?_, ?_⟩
  · rw [Summary.toNat_totalPages, hlimit]
  · rw [hoffset, drop_min_largest hlength]
  · intro hsaturated
    rw [hoffset, Nat.min_eq_right hsaturated, List.drop_eq_nil_of_le hlength]
  · intro order
    rw [Window.slice_of_some hlength, tile_eq_take_drop, hlimit]
  · rw [Nat.succ_mul, ← hlimit]
    exact summary.names_Ico
  · have hall := (Summary.unpaged total).names_Ico
    simpa [Summary.unpaged] using hall

/-- The offset of the last page there can be stops at the largest count, behind any list. -/
theorem arithmetic_exact_lastPage :
    let r : PageRequest := ⟨18446744073709551615, 10⟩
    let items := [7, 8, 9]
    items.length ≤ Count.largest ∧ Count.largest ≤ r.page.toNat * max 1 r.size.toNat ∧
      items.drop r.offset.toNat = [] ∧ (Summary.ofPage r 3).totalPages.toNat = ⌈(3 : ℚ) / 10⌉₊ := by
  intro r items
  have hlength : items.length ≤ Count.largest := by decide
  have hsaturated : Count.largest ≤ r.page.toNat * max 1 r.size.toNat := by decide
  obtain ⟨-, hpages, -, -, hitems, -, -⟩ := r.arithmetic_exact 3
  exact ⟨hlength, hsaturated, (hitems ℕ items hlength).2.1 hsaturated, hpages⟩

end PageRequest

end Listing
