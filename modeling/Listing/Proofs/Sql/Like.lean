import Listing.Sql.Condition
import Mathlib.Data.List.Infix

/-!
# Patterns

How a database answers `LIKE` with a backslash as the escape character. A pattern is read into items
(`LikeItem.read`): `%` stands for any text, `_` for any character, a character behind a backslash
for itself, and so does every other character. Matching tries each way to cut the text for a `%`
(`LikeItem.fits`); when two characters count as the same is a parameter, because some databases do
not distinguish the cases of ASCII letters there.

Reading undoes `Condition.escapeLike` (`LikeItem.read_escapeLike_append`). A text therefore matches
`Condition.likePattern` of another one exactly if the other one occurs in it
(`LikeItem.fits_likePattern_iff`), provided the characters of the two texts count as the same only
if they are.
-/

set_option autoImplicit false
set_option relaxedAutoImplicit false

namespace Listing.Sql

/-- What a part of a pattern stands for. -/
inductive LikeItem where
  | anyText
  | anyChar
  | exactly (c : Char)

namespace LikeItem

/-- Reads a pattern. -/
def read : List Char → List LikeItem
  | [] => []
  | '\\' :: c :: cs => exactly c :: read cs
  | '%' :: cs => anyText :: read cs
  | '_' :: cs => anyChar :: read cs
  | c :: cs => exactly c :: read cs

/-- Whether a text matches a pattern. -/
def fits (same : Char → Char → Bool) : List LikeItem → List Char → Bool
  | [], s => s.isEmpty
  | anyText :: items, s => s.tails.any fun rest ↦ fits same items rest
  | anyChar :: _, [] => false
  | anyChar :: items, _ :: s => fits same items s
  | exactly _ :: _, [] => false
  | exactly c :: items, d :: s => same c d && fits same items s

/-! ### Reading escaped texts -/

/-- A character without a meaning in patterns stands for itself. -/
theorem read_cons {c : Char} (h : ¬(c = '\\' ∨ c = '%' ∨ c = '_')) (cs : List Char) :
    read (c :: cs) = exactly c :: read cs := by
  rw [not_or, not_or] at h
  obtain ⟨hescape, htext, hchar⟩ := h
  rw [read.eq_def]
  split <;> simp_all

/-- Each character of an escaped text stands for itself. -/
theorem read_escapeLike_append (v rest : List Char) :
    read (Condition.escapeLike v ++ rest) = v.map exactly ++ read rest := by
  induction v with
  | nil => rfl
  | cons c v ih =>
    rw [Condition.escapeLike] at ih ⊢
    rw [List.flatMap_cons, List.append_assoc, List.map_cons, List.cons_append]
    by_cases hmeaning : c = '\\' ∨ c = '%' ∨ c = '_'
    · rw [if_pos hmeaning]
      exact congrArg (exactly c :: ·) ih
    · rw [if_neg hmeaning, List.singleton_append, read_cons hmeaning, ih]

/-- The pattern for the texts in which a text occurs. -/
theorem read_likePattern (v : String) :
    read (Condition.likePattern v).toList = anyText :: (v.toList.map exactly ++ [anyText]) := by
  rw [Condition.likePattern, String.toList_ofList, List.cons_append]
  exact congrArg (anyText :: ·) (read_escapeLike_append v.toList ['%'])

/-! ### Matching -/

variable {same : Char → Char → Bool}

/-- A `%` stands for some text in front. -/
theorem fits_anyText_iff (items : List LikeItem) (s : List Char) :
    fits same (anyText :: items) s = true ↔ ∃ rest, rest <:+ s ∧ fits same items rest = true := by
  simp only [fits, List.any_eq_true, List.mem_tails]

/-- Assumes: characters of the two texts count as the same only if they are. A text matches the
characters of the other one with a `%` behind them if it starts with them. -/
theorem fits_exactly_iff (v s : List Char)
    (hsame : ∀ c ∈ v, ∀ d ∈ s, same c d = true ↔ c = d) :
    fits same (v.map exactly ++ [anyText]) s = true ↔ v <+: s := by
  induction v generalizing s with
  | nil =>
    have hempty : fits same [anyText] s = true :=
      (fits_anyText_iff [] s).mpr ⟨[], List.nil_suffix, rfl⟩
    exact iff_of_true hempty List.nil_prefix
  | cons c v ih =>
    cases s with
    | nil => exact iff_of_false Bool.false_ne_true (by simp)
    | cons d s =>
      have htail : ∀ c' ∈ v, ∀ d' ∈ s, same c' d' = true ↔ c' = d' := fun c' hc d' hd ↦
        hsame c' (List.mem_cons_of_mem c hc) d' (List.mem_cons_of_mem d hd)
      rw [List.map_cons, List.cons_append, fits, Bool.and_eq_true, ih s htail,
        hsame c List.mem_cons_self d List.mem_cons_self, List.cons_prefix_cons]

/-- Assumes: characters of the two texts count as the same only if they are. A text matches the
pattern made for another one if the other one occurs in it. -/
theorem fits_likePattern_iff (v : String) (s : List Char)
    (hsame : ∀ c ∈ v.toList, ∀ d ∈ s, same c d = true ↔ c = d) :
    fits same (read (Condition.likePattern v).toList) s = true ↔ v.toList <:+: s := by
  rw [read_likePattern, fits_anyText_iff, List.infix_iff_prefix_suffix]
  refine exists_congr fun rest ↦ ?_
  rw [and_comm]
  refine and_congr_left fun hrest ↦ fits_exactly_iff v.toList rest ?_
  exact fun c hc d hd ↦ hsame c hc d (hrest.subset hd)

end LikeItem

/-! ### Positions -/

/-- Where a text first occurs in a text, counted from one; zero if it does not occur. -/
def position (needle text : List Char) : Nat :=
  match text.tails.findIdx? needle.isPrefixOf with
  | some i => i + 1
  | none => 0

/-- A text occurs where its position is not zero. -/
theorem position_pos_iff (needle text : List Char) :
    0 < position needle text ↔ needle <:+: text := by
  have hsome : 0 < position needle text ↔
      (text.tails.findIdx? needle.isPrefixOf).isSome = true := by
    unfold position
    cases text.tails.findIdx? needle.isPrefixOf <;> simp
  rw [hsome, List.findIdx?_isSome, List.any_eq_true, List.infix_iff_prefix_suffix]
  refine exists_congr fun rest ↦ ?_
  rw [List.mem_tails, List.isPrefixOf_iff_prefix, and_comm]

end Listing.Sql
