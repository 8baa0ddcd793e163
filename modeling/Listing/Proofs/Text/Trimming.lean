import Listing.Proofs.Text.Pieces
import Mathlib.Data.List.TakeWhile

/-!
# Blanks around a text and around its pieces

Blanks that are put around a text do not change its trimmed form (`Text.Padded.trimChars_eq`). If a text
is cut at a separator that is no blank and each piece is trimmed, it does not matter whether the
text was trimmed before (`Text.map_trimChars_splitOn_trimChars`).
-/

set_option autoImplicit false
set_option relaxedAutoImplicit false

namespace Listing.Text

/-- Nothing but blanks. -/
def Blanks (cs : List Char) : Prop := ∀ c ∈ cs, isBlank c = true

instance (cs : List Char) : Decidable (Blanks cs) := List.decidableBAll _ cs

variable {before after cs : List Char} {c : Char}

theorem not_blank_of_any (h : cs.any isBlank = false) : ∀ c ∈ cs, isBlank c = false :=
  fun c hc ↦ Bool.eq_false_iff.mpr (List.any_eq_false.mp h c hc)

/-! ### One end -/

theorem trimStart_cons_of_blank (hc : isBlank c = true) (cs : List Char) :
    trimStart (c :: cs) = trimStart cs :=
  List.dropWhile_cons_of_pos hc

theorem trimStart_cons_of_not_blank (hc : isBlank c = false) (cs : List Char) :
    trimStart (c :: cs) = c :: cs :=
  List.dropWhile_cons_of_neg (Bool.eq_false_iff.mp hc)

theorem trimStart_append_of_blanks (h : Blanks before) (cs : List Char) :
    trimStart (before ++ cs) = trimStart cs :=
  List.dropWhile_append_of_pos h

theorem trimStart_eq_nil_iff : trimStart cs = [] ↔ Blanks cs := List.dropWhile_eq_nil_iff

theorem trimEnd_append_of_blanks (h : Blanks after) (cs : List Char) :
    trimEnd (cs ++ after) = trimEnd cs := by
  have hreverse : Blanks after.reverse := fun c hc ↦ h c (List.mem_reverse.mp hc)
  rw [trimEnd, List.reverse_append, trimStart_append_of_blanks hreverse, trimEnd]

theorem trimEnd_eq_nil_iff : trimEnd cs = [] ↔ Blanks cs := by
  rw [trimEnd, List.reverse_eq_nil_iff, trimStart_eq_nil_iff]
  exact ⟨fun h c hc ↦ h c (List.mem_reverse.mpr hc), fun h c hc ↦ h c (List.mem_reverse.mp hc)⟩

/-- The end of a text is the end of what comes last, if that is not all blank. -/
theorem trimEnd_append_of_not_blanks (h : ¬Blanks after) (cs : List Char) :
    trimEnd (cs ++ after) = cs ++ trimEnd after := by
  have hne : ¬(trimStart after.reverse).isEmpty = true := by
    rw [List.isEmpty_iff, ← List.reverse_eq_nil_iff]
    exact mt trimEnd_eq_nil_iff.mp h
  have hdrop : trimStart (after.reverse ++ cs.reverse) = trimStart after.reverse ++ cs.reverse := by
    rw [trimStart, List.dropWhile_append]
    exact if_neg hne
  rw [trimEnd, List.reverse_append, hdrop, List.reverse_append, List.reverse_reverse, trimEnd]

/-- A text that ends with no blank is kept in front of another one. -/
theorem trimEnd_append (h : ∀ c ∈ cs.getLast?, isBlank c = false) (after : List Char) :
    trimEnd (cs ++ after) = cs ++ trimEnd after := by
  by_cases hafter : Blanks after
  · rw [trimEnd_append_of_blanks hafter, trimEnd_eq_self h, trimEnd_eq_nil_iff.mpr hafter,
      List.append_nil]
  · exact trimEnd_append_of_not_blanks hafter cs

/-- A character is kept in front of what is not all blank, and if it is no blank. -/
theorem trimEnd_cons (h : ¬Blanks (c :: cs)) : trimEnd (c :: cs) = c :: trimEnd cs := by
  by_cases hcs : Blanks cs
  · have hc : isBlank c = false := Bool.eq_false_iff.mpr fun hc ↦
      h (List.forall_mem_cons.mpr ⟨hc, hcs⟩)
    have hlast : ∀ d ∈ [c].getLast?, isBlank d = false := by
      rintro _ ⟨⟩
      exact hc
    exact trimEnd_append hlast cs
  · exact trimEnd_append_of_not_blanks hcs [c]

/-- A character at the front depends on the rest only through its trimmed form. -/
theorem trimEnd_cons_congr {cs' : List Char} (c : Char) (h : trimEnd cs = trimEnd cs') :
    trimEnd (c :: cs) = trimEnd (c :: cs') := by
  by_cases hcs : Blanks cs
  · have hcs' : Blanks cs' := trimEnd_eq_nil_iff.mp (h.symm.trans (trimEnd_eq_nil_iff.mpr hcs))
    exact (trimEnd_append_of_blanks hcs [c]).trans (trimEnd_append_of_blanks hcs' [c]).symm
  · have hcs' : ¬Blanks cs' := fun hcs' ↦
      hcs (trimEnd_eq_nil_iff.mp (h.trans (trimEnd_eq_nil_iff.mpr hcs')))
    rw [trimEnd_cons fun hall ↦ hcs (List.forall_mem_cons.mp hall).2,
      trimEnd_cons fun hall ↦ hcs' (List.forall_mem_cons.mp hall).2, h]

/-! ### Both ends -/

/-- It does not matter which end is trimmed first. -/
theorem trimStart_trimEnd (cs : List Char) : trimStart (trimEnd cs) = trimChars cs := by
  rw [trimChars]
  induction cs with
  | nil => rfl
  | cons c cs ih =>
    cases hc : isBlank c with
    | false =>
      have hcs : ¬Blanks (c :: cs) := fun hall ↦
        Bool.false_ne_true (hc.symm.trans (hall c List.mem_cons_self))
      rw [trimStart_cons_of_not_blank hc, trimEnd_cons hcs, trimStart_cons_of_not_blank hc]
    | true =>
      rw [trimStart_cons_of_blank hc, ← ih]
      by_cases hcs : Blanks cs
      · have hall : Blanks (c :: cs) := List.forall_mem_cons.mpr ⟨hc, hcs⟩
        rw [trimEnd_eq_nil_iff.mpr hall, trimEnd_eq_nil_iff.mpr hcs]
      · rw [trimEnd_cons fun hall ↦ hcs (List.forall_mem_cons.mp hall).2,
          trimStart_cons_of_blank hc]

theorem trimChars_of_blanks (h : Blanks cs) : trimChars cs = [] := by
  rw [trimChars, trimStart_eq_nil_iff.mpr h]
  rfl

/-- The second text is the first one with blanks around it. -/
def Padded (cs padded : List Char) : Prop :=
  ∃ before after, Blanks before ∧ Blanks after ∧ padded = before ++ (cs ++ after)

variable {padded : List Char}

/-- There need not be any blanks. -/
theorem Padded.self (cs : List Char) : Padded cs cs :=
  ⟨[], [], nofun, nofun, (List.append_nil cs).symm⟩

/-- Blanks around a text do not change its trimmed form. -/
theorem Padded.trimChars_eq (h : Padded cs padded) : trimChars padded = trimChars cs := by
  obtain ⟨before, after, hbefore, hafter, rfl⟩ := h
  rw [trimChars, trimStart_append_of_blanks hbefore, ← trimChars, ← trimStart_trimEnd,
    trimEnd_append_of_blanks hafter, trimStart_trimEnd]

/-- The characters of a text with blanks around it. -/
theorem Padded.mem (h : Padded cs padded) (hc : c ∈ padded) : isBlank c = true ∨ c ∈ cs := by
  obtain ⟨before, after, hbefore, hafter, rfl⟩ := h
  rw [List.mem_append, List.mem_append] at hc
  rcases hc with hc | hc | hc
  · exact .inl (hbefore c hc)
  · exact .inr hc
  · exact .inl (hafter c hc)

/-- Trimming adds nothing. -/
theorem mem_of_mem_trimChars (h : c ∈ trimChars cs) : c ∈ cs := by
  rw [trimChars, trimEnd, List.mem_reverse] at h
  exact List.dropWhile_subset isBlank
    (List.mem_reverse.mp (List.dropWhile_subset isBlank h))

/-- A text without blanks is its own trimmed form. -/
theorem trimChars_of_not_blank (h : ∀ c ∈ cs, isBlank c = false) : trimChars cs = cs :=
  trimChars_eq_self (fun c hc ↦ h c (List.mem_of_mem_head? hc))
    fun c hc ↦ h c (List.mem_of_mem_getLast? hc)

/-! ### Pieces -/

/-- A property of the separator and of all characters of the pieces is one of the whole text. -/
theorem forall_mem_intercalate {separator : Char} {pieces : List (List Char)} {P : Char → Prop}
    (hseparator : P separator) (h : ∀ piece ∈ pieces, ∀ c ∈ piece, P c) :
    ∀ c ∈ [separator].intercalate pieces, P c := by
  induction pieces with
  | nil => exact nofun
  | cons piece pieces ih =>
    obtain ⟨hpiece, hpieces⟩ := List.forall_mem_cons.mp h
    cases pieces with
    | nil => rwa [List.intercalate_singleton]
    | cons next pieces =>
      rw [List.intercalate_cons_cons, List.forall_mem_append, List.forall_mem_append,
        List.forall_mem_singleton]
      exact ⟨⟨hpiece, hseparator⟩, ih hpieces⟩

/-- A blank in front of a text stands in front of its first piece. -/
theorem map_trimStart_splitOn_trimStart {separator : Char} (hseparator : isBlank separator = false)
    (cs : List Char) : (splitOn separator (trimStart cs)).map trimStart =
      (splitOn separator cs).map trimStart := by
  induction cs with
  | nil => rfl
  | cons c cs ih =>
    cases hc : isBlank c with
    | false => rw [trimStart_cons_of_not_blank hc]
    | true =>
      have hne : c ≠ separator := by
        rintro rfl
        exact Bool.false_ne_true (hseparator.symm.trans hc)
      rw [trimStart_cons_of_blank hc, ih, splitOn, if_neg hne]
      cases hpieces : splitOn separator cs with
      | nil => exact absurd hpieces (splitOn_ne_nil separator cs)
      | cons piece pieces => rw [List.map_cons, List.map_cons, trimStart_cons_of_blank hc]

/-- A blank behind a text stands behind its last piece. -/
theorem map_trimEnd_splitOn_trimEnd {separator : Char} (hseparator : isBlank separator = false)
    (cs : List Char) : (splitOn separator (trimEnd cs)).map trimEnd =
      (splitOn separator cs).map trimEnd := by
  induction cs with
  | nil => rfl
  | cons c cs ih =>
    by_cases hall : Blanks (c :: cs)
    · have hone : splitOn separator (c :: cs) = [c :: cs] := by
        refine splitOn_eq_iff.mpr
          ⟨nofun, List.forall_mem_singleton.mpr fun hmem ↦ ?_, List.intercalate_singleton⟩
        exact Bool.false_ne_true (hseparator.symm.trans (hall separator hmem))
      rw [hone, trimEnd_eq_nil_iff.mpr hall, List.map_singleton, trimEnd_eq_nil_iff.mpr hall]
      rfl
    · rw [trimEnd_cons hall, splitOn, splitOn]
      by_cases hc : c = separator
      · rw [if_pos hc, if_pos hc, List.map_cons, List.map_cons, ih]
      · rw [if_neg hc, if_neg hc]
        cases htrimmed : splitOn separator (trimEnd cs) with
        | nil => exact absurd htrimmed (splitOn_ne_nil separator (trimEnd cs))
        | cons piece pieces =>
          cases hpieces : splitOn separator cs with
          | nil => exact absurd hpieces (splitOn_ne_nil separator cs)
          | cons piece' pieces' =>
            rw [htrimmed, hpieces] at ih
            obtain ⟨hfirst, hrest⟩ := List.cons.inj ih
            change trimEnd (c :: piece) :: pieces.map trimEnd = _ :: pieces'.map trimEnd
            rw [trimEnd_cons_congr c hfirst, hrest]

/-- If the pieces of a text are trimmed, the text need not be trimmed before it is cut. -/
theorem map_trimChars_splitOn_trimChars {separator : Char}
    (hseparator : isBlank separator = false) (cs : List Char) :
    (splitOn separator (trimChars cs)).map trimChars = (splitOn separator cs).map trimChars := by
  have hstart (pieces : List (List Char)) :
      pieces.map trimChars = (pieces.map trimStart).map trimEnd := by
    rw [List.map_map]
    rfl
  have hend (pieces : List (List Char)) :
      pieces.map trimChars = (pieces.map trimEnd).map trimStart := by
    rw [List.map_map]
    exact List.map_congr_left fun piece _ ↦ (trimStart_trimEnd piece).symm
  calc (splitOn separator (trimChars cs)).map trimChars
      = (splitOn separator (trimEnd cs)).map trimChars := by
        rw [← trimStart_trimEnd, hstart, map_trimStart_splitOn_trimStart hseparator, ← hstart]
    _ = (splitOn separator cs).map trimChars := by
        rw [hend, map_trimEnd_splitOn_trimEnd hseparator, ← hend]

end Listing.Text
