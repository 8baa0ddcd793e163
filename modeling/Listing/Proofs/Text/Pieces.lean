import Listing.Text.Blank
import Mathlib.Data.List.Basic

/-!
# Cutting a text at a separator

A cut of a text is known from its pieces: there is at least one, none of them holds the separator,
and joined by the separator they are the text (`Text.splitOn_eq_iff`).
-/

set_option autoImplicit false
set_option relaxedAutoImplicit false

namespace Listing.Text

/-- A text is cut into pieces as any list is. -/
theorem splitOn_eq_listSplitOn (separator : Char) (cs : List Char) :
    splitOn separator cs = cs.splitOn separator := by
  induction cs with
  | nil => rfl
  | cons c cs ih =>
    rw [splitOn, ih, List.splitOn_cons_eq_if_modifyHead]
    by_cases hc : c = separator
    · rw [if_pos hc, if_pos (beq_iff_eq.mpr hc)]
    · rw [if_neg hc, if_neg (mt beq_iff_eq.mp hc)]
      cases hpieces : cs.splitOn separator with
      | nil => exact absurd hpieces (List.splitOn_ne_nil separator cs)
      | cons piece pieces => rfl

/-- No piece of a cut holds the separator. -/
theorem not_mem_of_mem_splitOn {separator : Char} {cs piece : List Char}
    (h : piece ∈ splitOn separator cs) : separator ∉ piece := by
  induction cs generalizing piece with
  | nil =>
    obtain rfl := List.mem_singleton.mp h
    exact List.not_mem_nil
  | cons c cs ih =>
    rw [splitOn] at h
    by_cases hc : c = separator
    · rw [if_pos hc] at h
      rcases List.mem_cons.mp h with rfl | h
      · exact List.not_mem_nil
      · exact ih h
    · rw [if_neg hc] at h
      cases hpieces : splitOn separator cs with
      | nil => exact absurd hpieces (splitOn_ne_nil separator cs)
      | cons first pieces =>
        rw [hpieces] at h ih
        rcases List.mem_cons.mp h with rfl | h
        · rw [List.mem_cons, not_or]
          exact ⟨Ne.symm hc, ih List.mem_cons_self⟩
        · exact ih (List.mem_cons_of_mem first h)

/-- The pieces of a cut are those that hold no separator and are the text when joined by it. -/
theorem splitOn_eq_iff {separator : Char} {cs : List Char} {pieces : List (List Char)} :
    splitOn separator cs = pieces ↔
      pieces ≠ [] ∧ (∀ piece ∈ pieces, separator ∉ piece) ∧
        [separator].intercalate pieces = cs := by
  constructor
  · rintro rfl
    exact ⟨splitOn_ne_nil separator cs, fun _ ↦ not_mem_of_mem_splitOn,
      intercalate_splitOn separator cs⟩
  · rintro ⟨hne, hpieces, rfl⟩
    rw [splitOn_eq_listSplitOn]
    exact List.splitOn_intercalate separator hpieces hne

end Listing.Text
