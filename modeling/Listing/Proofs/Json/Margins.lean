import Listing.Proofs.Json.Tree
import Listing.Proofs.Text.Digits
import Listing.Proofs.Text.Trimming

/-!
# Blanks around a JSON text

Any blank may stand around a text that is trimmed before it is read, not only one of those that may
stand between symbols: symbols neither begin nor end with a blank (`Symbol.tight_of_spells`), so a text
of a value remains one when it is trimmed (`Tree.Spells.trim`).
-/

set_option autoImplicit false
set_option relaxedAutoImplicit false

namespace Listing.Json

open Text (isBlank trimStart trimEnd trimChars Blanks isBlank_of_isDigit)

variable {cs ds : List Char} {s : Symbol} {ss : List Symbol}

/-- What may stand between two symbols is a blank. -/
theorem isBlank_of_isSpace {c : Char} (h : isSpace c = true) : isBlank c = true := by
  simp only [isSpace, Bool.or_eq_true, beq_iff_eq, or_assoc] at h
  rcases h with rfl | rfl | rfl | rfl <;> decide

theorem IsGap.blanks (h : IsGap cs) : Blanks cs := fun c hc ↦ isBlank_of_isSpace (h c hc)

/-! ### Symbols -/

theorem isBlank_of_mark? {c : Char} {m : Mark} (h : mark? c = some m) : isBlank c = false := by
  unfold mark? at h
  split at h
  iterate 6 decide
  exact nomatch h

namespace Numeral

theorem IsDigits.isBlank (h : IsDigits ds) : ∀ c ∈ ds, isBlank c = false :=
  fun c hc ↦ isBlank_of_isDigit (h.2 c hc)

/-- There is no blank in a numeral. -/
theorem Spells.isBlank {n : Numeral} (h : n.Spells cs) : ∀ c ∈ cs, isBlank c = false := by
  have hletter {e : Char} (he : e = 'e' ∨ e = 'E') : Text.isBlank e = false := by
    rcases he with rfl | rfl <;> decide
  obtain ⟨hwhole, -, hfraction, hexponent⟩ := h
  rename_i negative whole ds fraction es exponent
  have hminus : ∀ c ∈ if negative then ['-'] else [], Text.isBlank c = false := by
    cases negative with
    | true => exact List.forall_mem_singleton.mpr (by decide)
    | false => exact nofun
  have hpoint : ∀ c ∈ fraction, Text.isBlank c = false := by
    cases hfraction with
    | absent => exact nofun
    | present hds => exact List.forall_mem_cons.mpr ⟨by decide, hds.isBlank⟩
  have hpower : ∀ c ∈ exponent, Text.isBlank c = false := by
    cases hexponent with
    | absent => exact nofun
    | unsigned he hds => exact List.forall_mem_cons.mpr ⟨hletter he, hds.isBlank⟩
    | positive he hds =>
      exact List.forall_mem_cons.mpr ⟨hletter he, List.forall_mem_cons.mpr ⟨by decide, hds.isBlank⟩⟩
    | negative he hds =>
      exact List.forall_mem_cons.mpr ⟨hletter he, List.forall_mem_cons.mpr ⟨by decide, hds.isBlank⟩⟩
  simp only [List.forall_mem_append]
  exact ⟨⟨⟨hminus, hwhole.isBlank⟩, hpoint⟩, hpower⟩

end Numeral

/-- A text that is not empty and has no blank at either end. -/
structure Tight (cs : List Char) : Prop where
  ne_nil : cs ≠ []
  first : ∀ c ∈ cs.head?, isBlank c = false
  last : ∀ c ∈ cs.getLast?, isBlank c = false

theorem Tight.of_forall (hne : cs ≠ []) (h : ∀ c ∈ cs, isBlank c = false) : Tight cs :=
  ⟨hne, fun c hc ↦ h c (List.mem_of_mem_head? hc), fun c hc ↦ h c (List.mem_of_mem_getLast? hc)⟩

/-- A symbol neither begins nor ends with a blank. -/
theorem Symbol.tight_of_spells (h : s.Spells cs) : Tight cs := by
  cases h with
  | mark hc => exact .of_forall nofun (List.forall_mem_singleton.mpr (isBlank_of_mark? hc))
  | null => exact .of_forall nofun (Text.not_blank_of_any rfl)
  | true => exact .of_forall nofun (Text.not_blank_of_any rfl)
  | false => exact .of_forall nofun (Text.not_blank_of_any rfl)
  | numeral hn =>
    obtain ⟨c, tail, rfl, -⟩ := hn.exists_cons
    exact .of_forall nofun hn.isBlank
  | @string units body hbody =>
    have hquote : isBlank '"' = false := by decide
    refine ⟨nofun, fun c hc ↦ ?_, fun c hc ↦ ?_⟩
    · obtain rfl := Option.some.inj hc
      exact hquote
    · rw [← List.cons_append, List.getLast?_concat] at hc
      obtain rfl := Option.some.inj hc
      exact hquote

/-! ### Texts -/

/-- A row of symbols without the blanks in front of it. -/
theorem Spaced.trimStart (h : Spaced ss cs) : Spaced ss (trimStart cs) := by
  cases h with
  | nil hgap =>
    rw [Text.trimStart_eq_nil_iff.mpr hgap.blanks]
    exact .empty
  | @cons gap cs rest s ss hgap hs hrest =>
    have hfirst : ∀ c ∈ (cs ++ rest).head?, isBlank c = false := by
      rw [List.head?_append_of_ne_nil _ (Symbol.tight_of_spells hs).ne_nil]
      exact (Symbol.tight_of_spells hs).first
    rw [Text.trimStart_append_of_blanks hgap.blanks, Text.trimStart_eq_self hfirst]
    exact .symbol hs hrest

/-- A row of symbols without the blanks behind it. -/
theorem Spaced.trimEnd (h : Spaced ss cs) : Spaced ss (trimEnd cs) := by
  induction h with
  | nil hgap =>
    rw [Text.trimEnd_eq_nil_iff.mpr hgap.blanks]
    exact .empty
  | @cons gap cs rest s ss hgap hs hrest ih =>
    have hlast : ∀ c ∈ (gap ++ cs).getLast?, isBlank c = false := by
      rw [List.getLast?_append_of_ne_nil _ (Symbol.tight_of_spells hs).ne_nil]
      exact (Symbol.tight_of_spells hs).last
    rw [← List.append_assoc, Text.trimEnd_append hlast, List.append_assoc]
    exact .cons hgap hs ih

/-- A trimmed row begins with its first symbol, if that is a mark. -/
theorem Spaced.exists_mark {m : Mark} (h : Spaced (.mark m :: ss) cs) :
    ∃ c, mark? c = some m ∧ (trimChars cs).head? = some c := by
  cases h with
  | @cons gap body rest _ _ hgap hs hrest =>
    cases hs with
    | @mark c _ hc =>
      have hblank : isBlank c = false := isBlank_of_mark? hc
      have hrest : ¬Blanks (c :: rest) := fun h ↦ nomatch hblank.symm.trans (h c List.mem_cons_self)
      refine ⟨c, hc, ?_⟩
      rw [trimChars, Text.trimStart_append_of_blanks hgap.blanks, List.singleton_append,
        Text.trimStart_cons_of_not_blank hblank, Text.trimEnd_cons hrest, List.head?_cons]

/-- A text of an array begins with a bracket when it is trimmed. -/
theorem Tree.Spells.head?_trim_array {items : List Tree} {text : String}
    (h : (Tree.array items).Spells text) : (Text.trim text).toList.head? = some '[' := by
  have hmark : ∃ ss, (Tree.array items).symbols = .mark .openArray :: ss := by
    cases items <;> exact ⟨_, rfl⟩
  obtain ⟨ss, hss⟩ := hmark
  rw [Tree.Spells, hss] at h
  obtain ⟨c, hc, hhead⟩ := h.exists_mark
  obtain rfl : c = '[' := by
    unfold mark? at hc
    split at hc <;> first | rfl | exact nomatch hc
  rw [Text.trim, String.toList_ofList, hhead]

/-- A text of a value remains one when it is trimmed. -/
theorem Tree.Spells.trim {v : Tree} {text : String} (h : v.Spells text) :
    v.Spells (Text.trim text) := by
  rw [Tree.Spells, Text.trim, String.toList_ofList]
  exact Spaced.trimEnd (Spaced.trimStart h)

end Listing.Json
