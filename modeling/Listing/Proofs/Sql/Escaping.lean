import Listing.Proofs.Sql.Like
import Mathlib.Data.List.Infix

/-!
# Escaped texts in patterns

`Sql.MatchesLike` says rule by rule which texts match a pattern of `LIKE`. The search of
`LikeItem.fits` decides it for every pattern (`LikeItem.fits_read_iff`), so the pattern that is made
for a value matches exactly the texts in which the value occurs, whatever wildcards and backslashes
it holds. Taking the escapes out of an escaped value gives the value back, so different values have
different patterns (`escapeLike_exact`).
-/

set_option autoImplicit false
set_option relaxedAutoImplicit false

namespace Listing.Sql

open Condition (escapeLike likePattern)

/-- The second text matches the first one as a pattern, characters being the same only if they are
equal. A backslash takes the meaning from the character behind it; at the end of the pattern there
is none, and it stands for itself. -/
inductive MatchesLike : List Char → List Char → Prop
  | nil : MatchesLike [] []
  | anyText {p s : List Char} (skipped : List Char) (hrest : MatchesLike p s) :
      MatchesLike ('%' :: p) (skipped ++ s)
  | anyChar {p s : List Char} (c : Char) (hrest : MatchesLike p s) :
      MatchesLike ('_' :: p) (c :: s)
  | escaped {p s : List Char} (c : Char) (hrest : MatchesLike p s) :
      MatchesLike ('\\' :: c :: p) (c :: s)
  | lone : MatchesLike ['\\'] ['\\']
  | plain {p s : List Char} {c : Char} (hc : ¬(c = '\\' ∨ c = '%' ∨ c = '_'))
      (hrest : MatchesLike p s) : MatchesLike (c :: p) (c :: s)

/-! ### Searching for a match -/

namespace LikeItem

/-- A character that stands for itself is the first one of a text that matches. -/
theorem fits_exactly_cons_iff {c : Char} {items : List LikeItem} {s : List Char} :
    fits (· == ·) (exactly c :: items) s = true ↔
      ∃ rest, s = c :: rest ∧ fits (· == ·) items rest = true := by
  cases s with
  | nil => exact iff_of_false Bool.false_ne_true fun ⟨_, h, _⟩ ↦ nomatch h
  | cons d s =>
    rw [fits, Bool.and_eq_true, beq_iff_eq]
    constructor
    · rintro ⟨rfl, hrest⟩
      exact ⟨s, rfl, hrest⟩
    · rintro ⟨rest, h, hrest⟩
      obtain ⟨rfl, rfl⟩ := List.cons.inj h
      exact ⟨rfl, hrest⟩

/-- What the search finds is a match. -/
theorem matchesLike_of_fits {p s : List Char} (h : fits (· == ·) (read p) s = true) :
    MatchesLike p s := by
  -- The cases are those of reading the pattern: an escape takes two of its characters.
  fun_induction read p generalizing s with
  | case1 =>
    obtain rfl : s = [] := List.isEmpty_iff.mp h
    exact .nil
  | case2 c cs ih =>
    obtain ⟨rest, rfl, hrest⟩ := fits_exactly_cons_iff.mp h
    exact .escaped c (ih hrest)
  | case3 cs ih =>
    obtain ⟨rest, ⟨skipped, rfl⟩, hrest⟩ := (fits_anyText_iff _ s).mp h
    exact .anyText skipped (ih hrest)
  | case4 cs ih =>
    cases s with
    | nil => exact absurd h Bool.false_ne_true
    | cons d s => exact .anyChar d (ih h)
  | case5 c cs hescape htext hchar ih =>
    obtain ⟨rest, rfl, hrest⟩ := fits_exactly_cons_iff.mp h
    by_cases hc : c = '\\'
    · subst hc
      cases cs with
      | nil =>
        obtain rfl : rest = [] := List.isEmpty_iff.mp hrest
        exact .lone
      | cons d cs => exact absurd rfl (hescape d cs rfl)
    · refine .plain ?_ (ih hrest)
      rintro (rfl | rfl | rfl)
      · exact hc rfl
      · exact htext rfl
      · exact hchar rfl

/-- The search finds every match. -/
theorem fits_of_matchesLike {p s : List Char} (h : MatchesLike p s) :
    fits (· == ·) (read p) s = true := by
  induction h with
  | nil => rfl
  | @anyText p s skipped _ ih =>
    exact (fits_anyText_iff (read p) (skipped ++ s)).mpr ⟨s, List.suffix_append skipped s, ih⟩
  | anyChar c _ ih => exact ih
  | escaped c _ ih => exact fits_exactly_cons_iff.mpr ⟨_, rfl, ih⟩
  | lone => rfl
  | plain hc _ ih =>
    rw [read_cons hc]
    exact fits_exactly_cons_iff.mpr ⟨_, rfl, ih⟩

/-- The search decides whether a text matches a pattern. -/
theorem fits_read_iff {p s : List Char} : fits (· == ·) (read p) s = true ↔ MatchesLike p s :=
  ⟨matchesLike_of_fits, fits_of_matchesLike⟩

end LikeItem

/-! ### Taking the escapes out -/

/-- The text without its escapes: of a backslash and the character behind it the character stays. -/
def unescapeLike : List Char → List Char
  | '\\' :: c :: cs => c :: unescapeLike cs
  | c :: cs => c :: unescapeLike cs
  | [] => []

/-- A character that is no backslash stays as it is. -/
theorem unescapeLike_cons {c : Char} (hc : c ≠ '\\') (cs : List Char) :
    unescapeLike (c :: cs) = c :: unescapeLike cs := by
  rw [unescapeLike]
  rintro _ _ rfl
  exact absurd rfl hc

/-- Taking the escapes out undoes escaping. -/
theorem unescapeLike_escapeLike (cs : List Char) : unescapeLike (escapeLike cs) = cs := by
  induction cs with
  | nil => rfl
  | cons c cs ih =>
    rw [escapeLike] at ih ⊢
    rw [List.flatMap_cons]
    by_cases hmeaning : c = '\\' ∨ c = '%' ∨ c = '_'
    · rw [if_pos hmeaning]
      exact congrArg (c :: ·) ih
    · rw [if_neg hmeaning, List.singleton_append, unescapeLike_cons (fun h ↦ hmeaning (.inl h)), ih]

/-- Different values have different patterns. -/
theorem likePattern_injective : Function.Injective likePattern := by
  intro v w h
  rw [likePattern, likePattern, String.ofList_inj, List.cons_append, List.cons_append] at h
  have hescaped : escapeLike v.toList = escapeLike w.toList :=
    List.append_cancel_right (List.cons.inj h).2
  have hvalue := congrArg unescapeLike hescaped
  rwa [unescapeLike_escapeLike, unescapeLike_escapeLike, String.toList_inj] at hvalue

/-- Escaping is exact, for values and texts of any characters, the empty ones included.

A text matches the pattern that is made for a value if and only if the value occurs in it. Taking
the escapes out of the escaped value gives the value back, and so no two values have the same
pattern. -/
theorem escapeLike_exact :
    (∀ value text : String,
      MatchesLike (likePattern value).toList text.toList ↔ value.toList <:+: text.toList) ∧
    (∀ value : String, unescapeLike (escapeLike value.toList) = value.toList) ∧
    Function.Injective likePattern := by
  refine ⟨fun value text ↦ ?_, fun value ↦ unescapeLike_escapeLike value.toList,
    likePattern_injective⟩
  rw [← LikeItem.fits_read_iff]
  exact LikeItem.fits_likePattern_iff value text.toList fun _ _ _ _ ↦ beq_iff_eq

/-- A value that ends in a backslash does not take the meaning from the last wildcard. -/
example : likePattern "5%\\" = "%5\\%\\\\%" := by decide

end Listing.Sql
