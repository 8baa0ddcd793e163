import Listing.Page.Basic
import Listing.Proofs.Text.Digits
import Mathlib.Order.Interval.Set.Basic

/-!
# Content ranges

A `Content-Range` value says behind a name which positions of a result are on a page, and how many
items the result has. `Span` is what it says of the positions and `Span.text` how it is written; a
text is written for one span only (`Span.text_injective`).

The last position of a page is found by a subtraction of counts. `Summary.span?` is the span of a
summary where a subtraction is refused that would wrap. None is, whatever the summary holds, and the
span is that of the exact numbers, also where the product of page number and page size is not a
count (`Summary.span?_eq`). The header value is written for that span
(`Summary.contentRange_eq_iff`) and holds no character but printable ones of ASCII
(`Summary.contentRange_wellFormed`).
-/

set_option autoImplicit false
set_option relaxedAutoImplicit false

namespace Listing

/-- The difference of two counts, unless the second one is larger. -/
def Count.sub? (a b : Count) : Option Count := if b ≤ a then some (a - b) else none

theorem Count.sub?_eq_some_iff {a b c : Count} : sub? a b = some c ↔ b ≤ a ∧ a - b = c := by
  by_cases h : b ≤ a
  · simp [sub?, h]
  · simp [sub?, h]

/-! ### Positions of a page -/

/-- What a `Content-Range` value says of the positions of a page. -/
inductive Span where
  /-- There is no item on the page. -/
  | empty
  /-- The items on the page are those from the first position to the last one. -/
  | between (first last : Nat)
deriving DecidableEq

namespace Span

/-- The way a span is written in a result with the given number of items. -/
def text (total : Nat) : Span → String
  | empty => "*/" ++ toString total
  | between first last => toString first ++ "-" ++ toString last ++ "/" ++ toString total

/-- The positions that are meant. -/
def positions : Span → Set Nat
  | empty => ∅
  | between first last => Set.Icc first last

/-- The span of the positions from the first one up to the next one behind the page. -/
def upTo (first next : Nat) : Span := if first < next then between first (next - 1) else empty

theorem positions_upTo (first next : Nat) : (upTo first next).positions = Set.Ico first next := by
  by_cases h : first < next
  · rw [upTo, if_pos h]
    ext position
    rw [positions, Set.mem_Icc, Set.mem_Ico]
    omega
  · rw [upTo, if_neg h]
    exact (Set.Ico_eq_empty h).symm

theorem upTo_eq_empty_iff (first next : Nat) : upTo first next = empty ↔ next ≤ first := by
  by_cases h : first < next
  · simp [upTo, h]
  · simpa [upTo, h] using Nat.le_of_not_lt h

theorem upTo_eq_between_iff (first next first' last : Nat) :
    upTo first next = between first' last ↔
      first < next ∧ first' = first ∧ last + 1 = next := by
  by_cases h : first < next
  · rw [upTo, if_pos h, between.injEq]
    omega
  · simp [upTo, h]

/-! ### Written spans -/

theorem toList_text_empty (total : Nat) :
    (empty.text total).toList = '*' :: '/' :: Nat.toDigits 10 total := by
  simp [text]

theorem toList_text_between (total first last : Nat) :
    ((between first last).text total).toList =
      Nat.toDigits 10 first ++ '-' :: (Nat.toDigits 10 last ++ '/' :: Nat.toDigits 10 total) := by
  simp [text]

/-- The two forms of a span are not written alike. -/
theorem text_empty_ne_text_between (total first last : Nat) :
    empty.text total ≠ (between first last).text total := by
  intro h
  have hchars := congrArg String.toList h
  rw [toList_text_empty, toList_text_between] at hchars
  cases hfirst : Nat.toDigits 10 first with
  | nil => exact Nat.toDigits_ne_nil hfirst
  | cons c cs =>
    rw [hfirst] at hchars
    obtain rfl := (List.cons.inj hchars).1
    have hstar : '*' ∉ Nat.toDigits 10 first := Text.not_mem_toDigits (by decide) first
    rw [hfirst] at hstar
    exact hstar List.mem_cons_self

/-- A text is written for one span only. -/
theorem text_injective (total : Nat) : Function.Injective (text total) := by
  intro span span' h
  cases span with
  | empty =>
    cases span' with
    | empty => rfl
    | between first' last' => exact absurd h (text_empty_ne_text_between total first' last')
  | between first last =>
    cases span' with
    | empty => exact absurd h.symm (text_empty_ne_text_between total first last)
    | between first' last' =>
      have hchars := congrArg String.toList h
      have hdash (n : Nat) : '-' ∉ Nat.toDigits 10 n := Text.not_mem_toDigits (by decide) n
      have hslash (n : Nat) : '/' ∉ Nat.toDigits 10 n := Text.not_mem_toDigits (by decide) n
      rw [toList_text_between, toList_text_between,
        List.append_cons_inj_of_notMem (hdash first) (by simp [hdash]),
        List.append_cons_inj_of_notMem (hslash last) (hslash total)] at hchars
      rw [Text.toDigits_injective hchars.1, Text.toDigits_injective hchars.2.2.1]

end Span

/-! ### The header value of a summary -/

namespace Summary

/-- The characters of a name that a header may hold. -/
def headerName (resource : String) : String :=
  String.ofList (resource.toList.filter isHeaderChar)

/-- The span of a page, unless a subtraction of counts would wrap. -/
def span? (s : Summary) : Option Span :=
  let start := s.page.times s.size
  if s.size = 0 ∨ s.totalElements ≤ start then
    some .empty
  else do
    let last ← Count.sub? (min (start.plus s.size) s.totalElements) 1
    return .between start.toNat last.toNat

/-- No subtraction wraps, and the span is that of the exact numbers. -/
theorem span?_eq (s : Summary) :
    s.span? = some (Span.upTo (s.page.toNat * s.size.toNat)
      (min (s.page.toNat * s.size.toNat + s.size.toNat) s.totalElements.toNat)) := by
  have htotal := Count.toNat_le_largest s.totalElements
  have hstart := Count.toNat_times s.page s.size
  have hend := Count.toNat_plus (s.page.times s.size) s.size
  rw [span?]
  generalize s.page.toNat * s.size.toNat = first at *
  by_cases hnone : s.size = 0 ∨ s.totalElements ≤ s.page.times s.size
  · rw [if_pos hnone]
    rw [Count.eq_zero_iff, UInt64.le_iff_toNat_le, hstart] at hnone
    refine congrArg some ((Span.upTo_eq_empty_iff _ _).mpr ?_).symm
    omega
  · rw [if_neg hnone]
    rw [Count.eq_zero_iff, UInt64.le_iff_toNat_le, hstart] at hnone
    -- The product is a count, since the result is longer.
    have hexact : (s.page.times s.size).toNat = first := by omega
    have hlast : (min ((s.page.times s.size).plus s.size) s.totalElements).toNat =
        min (first + s.size.toNat) s.totalElements.toNat := by
      rw [UInt64.toNat_min, hend, hexact]
      omega
    have hone : 1 ≤ min ((s.page.times s.size).plus s.size) s.totalElements := by
      rw [UInt64.le_iff_toNat_le, hlast, UInt64.toNat_one]
      omega
    rw [Count.sub?_eq_some_iff.mpr ⟨hone, rfl⟩, Span.upTo, if_pos (by omega), ← hlast,
      ← UInt64.toNat_one, ← UInt64.toNat_sub_of_le _ _ hone, ← hexact]
    rfl

/-- The header value of a summary is written for its span. -/
theorem contentRange_eq {s : Summary} {span : Span} (h : s.span? = some span) (resource : String) :
    s.contentRange resource =
      headerName resource ++ " " ++ span.text s.totalElements.toNat := by
  rw [span?] at h
  rw [contentRange]
  by_cases hnone : s.size = 0 ∨ s.totalElements ≤ s.page.times s.size
  · rw [if_pos hnone] at h
    obtain rfl := Option.some.inj h
    rw [if_pos hnone, Span.text, String.append_assoc, String.append_assoc]
    rfl
  · rw [if_neg hnone] at h
    obtain ⟨last, hlast, hspan⟩ := Option.bind_eq_some_iff.mp h
    obtain ⟨-, rfl⟩ := Count.sub?_eq_some_iff.mp hlast
    obtain rfl := Option.some.inj hspan
    rw [if_neg hnone, Span.text]
    simp only [headerName, String.append_assoc]

/-- A header value is written for the span of the summary and for no other one. -/
theorem contentRange_eq_iff {s : Summary} {span : Span} (h : s.span? = some span)
    (resource : String) (written : Span) :
    s.contentRange resource =
        headerName resource ++ " " ++ written.text s.totalElements.toNat ↔ written = span := by
  rw [contentRange_eq h resource, String.append_right_inj]
  exact (Span.text_injective _).eq_iff.trans eq_comm

/-- Printable characters of ASCII are those that a header may hold. -/
theorem isHeaderChar_iff (c : Char) : isHeaderChar c = true ↔ 0x20 ≤ c.toNat ∧ c.toNat ≤ 0x7E := by
  rw [isHeaderChar, Bool.and_eq_true, decide_eq_true_iff, decide_eq_true_iff]

/-- The digits of a number are characters of a header. -/
theorem isHeaderChar_of_mem_toDigits {n : Nat} {c : Char} (h : c ∈ Nat.toDigits 10 n) :
    isHeaderChar c = true := by
  have hrange := Text.toNat_of_isDigit (Text.isDigit_of_mem_toDigits h)
  rw [isHeaderChar_iff]
  omega

/-- A span is written in characters of a header. -/
theorem isHeaderChar_of_mem_text {span : Span} {total : Nat} {c : Char}
    (h : c ∈ (span.text total).toList) : isHeaderChar c = true := by
  cases span with
  | empty =>
    rw [Span.toList_text_empty, List.mem_cons, List.mem_cons] at h
    rcases h with rfl | rfl | h
    · decide
    · decide
    · exact isHeaderChar_of_mem_toDigits h
  | between first last =>
    rw [Span.toList_text_between, List.mem_append, List.mem_cons, List.mem_append,
      List.mem_cons] at h
    rcases h with h | rfl | h | rfl | h
    · exact isHeaderChar_of_mem_toDigits h
    · decide
    · exact isHeaderChar_of_mem_toDigits h
    · decide
    · exact isHeaderChar_of_mem_toDigits h

/-- All characters of a header value may stand in a header. -/
theorem isHeaderChar_of_mem_contentRange {s : Summary} {resource : String} {c : Char}
    (h : c ∈ (s.contentRange resource).toList) : isHeaderChar c = true := by
  rw [contentRange_eq s.span?_eq resource, String.toList_append, String.toList_append,
    List.mem_append, List.mem_append] at h
  rcases h with (h | h) | h
  · rw [headerName, String.toList_ofList] at h
    exact (List.mem_filter.mp h).2
  · obtain rfl := List.mem_singleton.mp h
    decide
  · exact isHeaderChar_of_mem_text h

/-- A header value is well-formed, whatever the summary and the name of the resource are. Its
characters are printable ones of ASCII. No subtraction of counts wraps, and behind the name and a
blank stands one span of the result. It is the empty one if the page has no size, or if the exact
number of items before the page is not below the total; otherwise it begins with that number, ends
before the total, and holds as many items as there are left for a page of that size. -/
theorem contentRange_wellFormed (s : Summary) (resource : String) :
    (∀ c ∈ (s.contentRange resource).toList, 0x20 ≤ c.toNat ∧ c.toNat ≤ 0x7E) ∧
      ∃ span : Span, s.span? = some span ∧
        (∀ written : Span, s.contentRange resource =
          headerName resource ++ " " ++ written.text s.totalElements.toNat ↔ written = span) ∧
        (span = .empty ↔ s.size.toNat = 0 ∨
          s.totalElements.toNat ≤ s.page.toNat * s.size.toNat) ∧
        ∀ first last, span = .between first last →
          first = s.page.toNat * s.size.toNat ∧ first ≤ last ∧ last < s.totalElements.toNat ∧
            last - first + 1 = min s.size.toNat (s.totalElements.toNat - first) := by
  refine ⟨fun c hc ↦ (isHeaderChar_iff c).mp (isHeaderChar_of_mem_contentRange hc), _, s.span?_eq,
    contentRange_eq_iff s.span?_eq resource, ?_, ?_⟩
  · rw [Span.upTo_eq_empty_iff]
    omega
  · intro first last hspan
    obtain ⟨hlt, rfl, hlast⟩ := (Span.upTo_eq_between_iff _ _ _ _).mp hspan
    omega

/-- The second half of the largest result there can be: the end of the page is not a count. -/
theorem contentRange_wellFormed_secondHalf :
    let s : Summary := ⟨1, 9223372036854775808, 18446744073709551615, 0, true⟩
    let span := Span.between 9223372036854775808 18446744073709551614
    s.span? = some span ∧ s.contentRange "zoë\n" =
      "zo 9223372036854775808-18446744073709551614/18446744073709551615" := by
  intro s span
  have hspan : s.span? = some span := by decide
  obtain ⟨-, span', hspan', hwritten, -, -⟩ := s.contentRange_wellFormed "zoë\n"
  refine ⟨hspan, ((hwritten span).mpr ?_).trans ?_⟩
  · exact Option.some.inj (hspan.symm.trans hspan')
  · decide

end Summary

end Listing
