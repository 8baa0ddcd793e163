import Listing.Json.Numeral
import Mathlib.Data.List.Basic
import Mathlib.Data.List.TakeWhile

/-!
# Spellings of numerals

`Numeral.Spells` says which characters are a numeral: an optional minus sign, digits without a zero
in front of others, an optional fraction and an optional exponent. What is spelled is scanned as the
numeral if no character follows that a numeral could go on with (`Numeral.Spells.scan`), and what is
scanned is spelled (`Numeral.exists_spells_of_scan`).
-/

set_option autoImplicit false
set_option relaxedAutoImplicit false

namespace Listing.Json.Numeral

/-- One or more digits. -/
def IsDigits (ds : List Char) : Prop := ds ≠ [] ∧ ∀ c ∈ ds, c.isDigit = true

/-- The fraction with its point, or nothing if there is none. -/
inductive SpellsFraction : List Char → List Char → Prop
  | absent : SpellsFraction [] []
  | present {ds : List Char} (hds : IsDigits ds) : SpellsFraction ds ('.' :: ds)

/-- The exponent with its letter and its sign, or nothing if there is none. -/
inductive SpellsExponent : Option (Bool × List Char) → List Char → Prop
  | absent : SpellsExponent none []
  | unsigned {e : Char} {ds : List Char} (he : e = 'e' ∨ e = 'E') (hds : IsDigits ds) :
      SpellsExponent (some (false, ds)) (e :: ds)
  | positive {e : Char} {ds : List Char} (he : e = 'e' ∨ e = 'E') (hds : IsDigits ds) :
      SpellsExponent (some (false, ds)) (e :: '+' :: ds)
  | negative {e : Char} {ds : List Char} (he : e = 'e' ∨ e = 'E') (hds : IsDigits ds) :
      SpellsExponent (some (true, ds)) (e :: '-' :: ds)

/-- The characters are the numeral. -/
inductive Spells : Numeral → List Char → Prop
  | intro {negative : Bool} {whole ds fraction : List Char} {es : Option (Bool × List Char)}
      {exponent : List Char} (hwhole : IsDigits whole)
      (hzero : ¬(whole.head? = some '0' ∧ 1 < whole.length)) (hfraction : SpellsFraction ds fraction)
      (hexponent : SpellsExponent es exponent) :
      Spells ⟨negative, whole, ds, es⟩
        ((if negative then ['-'] else []) ++ whole ++ fraction ++ exponent)

/-- No digit, point or letter of an exponent comes first. -/
def Stops (cs : List Char) : Prop :=
  ∀ c ∈ cs.head?, ¬c.isDigit = true ∧ c ≠ '.' ∧ ¬(c = 'e' ∨ c = 'E')

variable {n : Numeral} {cs ds rest : List Char}

/-! ### From spellings to scans -/

/-- Digits are scanned up to a character that is none. -/
theorem IsDigits.scan (hds : IsDigits ds) (hrest : ∀ c ∈ rest.head?, ¬c.isDigit = true) :
    scanDigits (ds ++ rest) = .ok (ds, rest) := by
  have hstop : rest.takeWhile Char.isDigit = [] ∧ rest.dropWhile Char.isDigit = rest := by
    cases rest with
    | nil => exact ⟨rfl, rfl⟩
    | cons c rest =>
      have hc := hrest c rfl
      exact ⟨List.takeWhile_cons_of_neg hc, List.dropWhile_cons_of_neg hc⟩
  have htake : (ds ++ rest).takeWhile Char.isDigit = ds := by
    rw [List.takeWhile_append_of_pos hds.2, hstop.1, List.append_nil]
  have hdrop : (ds ++ rest).dropWhile Char.isDigit = rest := by
    rw [List.dropWhile_append_of_pos hds.2, hstop.2]
  rw [scanDigits, htake, hdrop, if_neg (by simpa using hds.1)]

/-- A digit is no sign. -/
theorem ne_of_isDigit {c : Char} (h : c.isDigit = true) : c ≠ '-' ∧ c ≠ '+' := by
  constructor <;> rintro rfl <;> exact absurd h (by decide)

/-- Digits begin with a digit. -/
theorem IsDigits.exists_cons (hds : IsDigits ds) : ∃ c tail, ds = c :: tail ∧ c.isDigit = true := by
  cases ds with
  | nil => exact absurd rfl hds.1
  | cons c tail => exact ⟨c, tail, rfl, hds.2 c List.mem_cons_self⟩

theorem SpellsExponent.scan {es : Option (Bool × List Char)} (h : SpellsExponent es cs)
    (hrest : Stops rest) : scanExponent (cs ++ rest) = .ok (es, rest) := by
  have hdigits {ds : List Char} (hds : IsDigits ds) : scanDigits (ds ++ rest) = .ok (ds, rest) :=
    hds.scan fun c hc ↦ (hrest c hc).1
  cases h with
  | absent =>
    cases rest with
    | nil => rfl
    | cons c rest => rw [List.nil_append, scanExponent, if_neg (hrest c rfl).2.2]
  | @unsigned e ds he hds =>
    obtain ⟨c, tail, rfl, hc⟩ := hds.exists_cons
    have hsign : scanSign (c :: tail ++ rest) = (false, c :: tail ++ rest) := by
      rw [List.cons_append, scanSign]
      · rintro _ h
        exact (ne_of_isDigit hc).2 (List.cons.inj h).1
      · rintro _ h
        exact (ne_of_isDigit hc).1 (List.cons.inj h).1
    rw [List.cons_append, scanExponent, if_pos he, hsign]
    dsimp only
    rw [hdigits hds]
    rfl
  | @positive e ds he hds =>
    rw [List.cons_append, List.cons_append, scanExponent, if_pos he, scanSign]
    dsimp only
    rw [hdigits hds]
    rfl
  | @negative e ds he hds =>
    rw [List.cons_append, List.cons_append, scanExponent, if_pos he, scanSign]
    dsimp only
    rw [hdigits hds]
    rfl

/-- An exponent, or what follows it, begins with no digit and no point. -/
theorem SpellsExponent.head_append {es : Option (Bool × List Char)} (h : SpellsExponent es cs)
    (hrest : Stops rest) : ∀ c ∈ (cs ++ rest).head?, ¬c.isDigit = true ∧ c ≠ '.' := by
  have hletter {e : Char} (he : e = 'e' ∨ e = 'E') : ¬e.isDigit = true ∧ e ≠ '.' := by
    rcases he with rfl | rfl <;> decide
  cases h with
  | absent => exact fun c hc ↦ ⟨(hrest c hc).1, (hrest c hc).2.1⟩
  | unsigned he _ => exact fun c hc ↦ Option.some.inj hc ▸ hletter he
  | positive he _ => exact fun c hc ↦ Option.some.inj hc ▸ hletter he
  | negative he _ => exact fun c hc ↦ Option.some.inj hc ▸ hletter he

theorem SpellsFraction.scan (h : SpellsFraction ds cs)
    (hrest : ∀ c ∈ rest.head?, ¬c.isDigit = true ∧ c ≠ '.') :
    scanFraction (cs ++ rest) = .ok (ds, rest) := by
  cases h with
  | absent =>
    rw [List.nil_append, scanFraction]
    rintro tail rfl
    exact (hrest '.' rfl).2 rfl
  | present hds =>
    rw [List.cons_append, scanFraction]
    exact hds.scan fun c hc ↦ (hrest c hc).1

/-- A fraction, or what follows it, begins with no digit. -/
theorem SpellsFraction.head_append (h : SpellsFraction ds cs)
    (hrest : ∀ c ∈ rest.head?, ¬c.isDigit = true) :
    ∀ c ∈ (cs ++ rest).head?, ¬c.isDigit = true := by
  cases h with
  | absent => exact hrest
  | present _ =>
    intro c hc
    obtain rfl := Option.some.inj hc
    decide

/-- A spelled numeral is scanned if nothing follows that it could go on with. -/
theorem Spells.scan (h : Spells n cs) (hrest : Stops rest) :
    Numeral.scan (cs ++ rest) = .ok (n, rest) := by
  obtain ⟨hwhole, hzero, hfraction, hexponent⟩ := h
  rename_i negative whole ds fraction es exponent
  have hbehind := hexponent.head_append hrest
  have hminus : scanMinus ((if negative then ['-'] else []) ++ whole ++ fraction ++ exponent ++ rest) =
      (negative, whole ++ (fraction ++ (exponent ++ rest))) := by
    simp only [List.append_assoc]
    cases negative with
    | true => rfl
    | false =>
      obtain ⟨c, tail, rfl, hc⟩ := hwhole.exists_cons
      change scanMinus (c :: _) = _
      rw [scanMinus]
      · rfl
      · rintro _ h
        exact (ne_of_isDigit hc).1 (List.cons.inj h).1
  have hscan : scanWhole (whole ++ (fraction ++ (exponent ++ rest))) =
      .ok (whole, fraction ++ (exponent ++ rest)) := by
    rw [scanWhole, hwhole.scan (hfraction.head_append fun c hc ↦ (hbehind c hc).1)]
    exact if_neg hzero
  simp only [Numeral.scan, hminus, hscan, hfraction.scan hbehind, hexponent.scan hrest, bind,
    Except.bind, pure, Except.pure]

/-! ### From scans to spellings -/

theorem isDigits_of_scanDigits (h : scanDigits cs = .ok (ds, rest)) :
    IsDigits ds ∧ cs = ds ++ rest := by
  rw [scanDigits] at h
  split at h
  · exact nomatch h
  · rename_i hne
    obtain ⟨rfl, rfl⟩ := Prod.mk.inj (Except.ok.inj h)
    refine ⟨⟨by simpa using hne, fun c hc ↦ List.mem_takeWhile_imp hc⟩, ?_⟩
    exact List.takeWhile_append_dropWhile.symm

theorem isDigits_of_scanWhole (h : scanWhole cs = .ok (ds, rest)) :
    IsDigits ds ∧ ¬(ds.head? = some '0' ∧ 1 < ds.length) ∧ cs = ds ++ rest := by
  rw [scanWhole] at h
  cases hscan : scanDigits cs with
  | error fault => rw [hscan] at h; exact nomatch h
  | ok scanned =>
    rw [hscan] at h
    simp only [bind, Except.bind] at h
    split at h
    · exact nomatch h
    · rename_i hzero
      obtain ⟨rfl, rfl⟩ := Prod.mk.inj (Except.ok.inj h)
      obtain ⟨hds, hcs⟩ := isDigits_of_scanDigits hscan
      exact ⟨hds, hzero, hcs⟩

theorem spellsFraction_of_scan (h : scanFraction cs = .ok (ds, rest)) :
    ∃ fraction, SpellsFraction ds fraction ∧ cs = fraction ++ rest := by
  rw [scanFraction.eq_def] at h
  split at h
  · obtain ⟨hds, rfl⟩ := isDigits_of_scanDigits h
    exact ⟨_, .present hds, rfl⟩
  · obtain ⟨rfl, rfl⟩ := Prod.mk.inj (Except.ok.inj h)
    exact ⟨[], .absent, rfl⟩

theorem spellsExponent_of_scan {es : Option (Bool × List Char)}
    (h : scanExponent cs = .ok (es, rest)) :
    ∃ exponent, SpellsExponent es exponent ∧ cs = exponent ++ rest := by
  rw [scanExponent.eq_def] at h
  split at h
  · obtain ⟨rfl, rfl⟩ := Prod.mk.inj (Except.ok.inj h)
    exact ⟨[], .absent, rfl⟩
  · rename_i e tail
    split at h
    · rename_i he
      dsimp only at h
      cases hscan : scanDigits (scanSign tail).2 with
      | error fault =>
        rw [hscan] at h
        cases h
      | ok scanned =>
        rw [hscan] at h
        obtain ⟨rfl, rfl⟩ := Prod.mk.inj (Except.ok.inj h)
        obtain ⟨hds, hcs⟩ := isDigits_of_scanDigits hscan
        -- The sign decides which of the three spellings it is.
        revert hcs
        rw [scanSign.eq_def]
        split
        · rintro rfl
          exact ⟨_, .positive he hds, rfl⟩
        · rintro rfl
          exact ⟨_, .negative he hds, rfl⟩
        · rintro rfl
          exact ⟨_, .unsigned he hds, rfl⟩
    · obtain ⟨rfl, rfl⟩ := Prod.mk.inj (Except.ok.inj h)
      exact ⟨[], .absent, rfl⟩

theorem eq_scanMinus (cs : List Char) :
    cs = (if (scanMinus cs).1 then ['-'] else []) ++ (scanMinus cs).2 := by
  rw [scanMinus.eq_def]
  split <;> rfl

/-- What is scanned as a numeral spells it. -/
theorem exists_spells_of_scan (h : Numeral.scan cs = .ok (n, rest)) :
    ∃ used, cs = used ++ rest ∧ Spells n used := by
  have hminus := eq_scanMinus cs
  rw [Numeral.scan] at h
  cases hwhole : scanWhole (scanMinus cs).2 with
  | error fault => simp [hwhole, bind, Except.bind] at h
  | ok scanned =>
    obtain ⟨whole, cs₁⟩ := scanned
    cases hfraction : scanFraction cs₁ with
    | error fault => simp [hwhole, hfraction, bind, Except.bind] at h
    | ok scanned =>
      obtain ⟨ds, cs₂⟩ := scanned
      cases hexponent : scanExponent cs₂ with
      | error fault => simp [hwhole, hfraction, hexponent, bind, Except.bind] at h
      | ok scanned =>
        obtain ⟨es, cs₃⟩ := scanned
        simp only [hwhole, hfraction, hexponent, bind, Except.bind, pure, Except.pure,
          Except.ok.injEq, Prod.mk.injEq] at h
        obtain ⟨rfl, rfl⟩ := h
        obtain ⟨hdigits, hzero, hrest₁⟩ := isDigits_of_scanWhole hwhole
        obtain ⟨fraction, hspells, rfl⟩ := spellsFraction_of_scan hfraction
        obtain ⟨exponent, hspells', rfl⟩ := spellsExponent_of_scan hexponent
        refine ⟨_, ?_, .intro hdigits hzero hspells hspells'⟩
        rw [hrest₁] at hminus
        simpa only [List.append_assoc] using hminus

end Listing.Json.Numeral
