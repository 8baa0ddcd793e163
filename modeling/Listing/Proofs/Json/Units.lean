import Listing.Json.Quoted
import Listing.Proofs.Text.Digits
import Mathlib.Data.List.Basic
import Mathlib.Tactic.SplitIfs

/-!
# Strings as units of UTF-16

A string in a text is a row of units of UTF-16, and there are many ways to write the same row
(`Quoted.Spells`): a character may stand for itself, be escaped by a letter, or be named by the
digits of its units. What is spelled is what a scan finds, whichever spelling is chosen
(`Quoted.Spells.scan`, `Quoted.exists_spells_of_scan`), and the value depends on the units alone
(`Quoted.Spells.lexeme_scan`): a row of units says a string exactly if it is the UTF-16 form of the
string (`Quoted.ofUnits_eq_ok_iff`). A row with a surrogate that lacks its partner says nothing, but
can be passed over.
-/

set_option autoImplicit false
set_option relaxedAutoImplicit false

namespace Listing.Json.Quoted

/-! ### Units of a character -/

/-- The units of UTF-16 that a character takes: one, or two beyond the first plane. -/
def charUnits (c : Char) : List UInt16 :=
  if c.toNat < 0x10000 then [.ofNat c.toNat]
  else [.ofNat (0xD800 + (c.toNat - 0x10000) / 0x400),
    .ofNat (0xDC00 + (c.toNat - 0x10000) % 0x400)]

/-- The units of UTF-16 that a string takes. -/
def utf16 (s : String) : List UInt16 := s.toList.flatMap charUnits

theorem isLow_iff {n : Nat} : isLow n = true ↔ 0xDC00 ≤ n ∧ n ≤ 0xDFFF := by
  rw [isLow, Bool.and_eq_true, decide_eq_true_eq, decide_eq_true_eq]

theorem isHigh_iff {n : Nat} : isHigh n = true ↔ 0xD800 ≤ n ∧ n ≤ 0xDBFF := by
  rw [isHigh, Bool.and_eq_true, decide_eq_true_eq, decide_eq_true_eq]

/-- A high surrogate is not a low one. -/
theorem not_isLow_of_isHigh {n : Nat} (h : isHigh n = true) : ¬isLow n = true := by
  rw [isHigh_iff] at h
  rw [isLow_iff]
  omega

/-- No character is a surrogate. -/
theorem not_surrogate (c : Char) : ¬isLow c.toNat = true ∧ ¬isHigh c.toNat = true := by
  have hvalid : c.toNat < 0xD800 ∨ (0xDFFF < c.toNat ∧ c.toNat < 0x110000) := c.valid
  rw [isLow_iff, isHigh_iff]
  omega

/-- The character of a valid number has the number. -/
theorem toNat_ofNat {n : Nat} (h : n.isValidChar) : (Char.ofNat n).toNat = n := by
  rw [Char.ofNat, dif_pos h]
  rfl

variable {c : Char} {u high low : UInt16}

/-- A character of the first plane is its unit. -/
theorem charUnits_of_lt (h : c.toNat < 0x10000) :
    ∃ u : UInt16, charUnits c = [u] ∧ u.toNat = c.toNat :=
  ⟨.ofNat c.toNat, if_pos h, UInt16.toNat_ofNat_of_lt' h⟩

/-- A character beyond the first plane takes a high surrogate and a low one. -/
theorem charUnits_of_le (h : 0x10000 ≤ c.toNat) :
    ∃ high low : UInt16, charUnits c = [high, low] ∧ isHigh high.toNat = true ∧
      isLow low.toNat = true ∧ paired high.toNat low.toNat = c := by
  have hvalid : c.toNat < 0xD800 ∨ (0xDFFF < c.toNat ∧ c.toNat < 0x110000) := c.valid
  have hhigh : (UInt16.ofNat (0xD800 + (c.toNat - 0x10000) / 0x400)).toNat =
      0xD800 + (c.toNat - 0x10000) / 0x400 :=
    UInt16.toNat_ofNat_of_lt' (show _ < 2 ^ 16 by omega)
  have hlow : (UInt16.ofNat (0xDC00 + (c.toNat - 0x10000) % 0x400)).toNat =
      0xDC00 + (c.toNat - 0x10000) % 0x400 :=
    UInt16.toNat_ofNat_of_lt' (show _ < 2 ^ 16 by omega)
  refine ⟨_, _, if_neg (Nat.not_lt.mpr h), ?_, ?_, ?_⟩
  · rw [hhigh, isHigh_iff]
    omega
  · rw [hlow, isLow_iff]
    omega
  · have hvalue : 0x10000 + (0xD800 + (c.toNat - 0x10000) / 0x400 - 0xD800) * 0x400 +
        (0xDC00 + (c.toNat - 0x10000) % 0x400 - 0xDC00) = c.toNat := by omega
    rw [hhigh, hlow, paired, hvalue, Char.ofNat_toNat]

/-- The units of a character do not begin with a low surrogate. -/
theorem charUnits_eq_cons (c : Char) :
    ∃ u units, charUnits c = u :: units ∧ ¬isLow u.toNat = true := by
  by_cases hsmall : c.toNat < 0x10000
  · obtain ⟨u, hunits, hu⟩ := charUnits_of_lt hsmall
    exact ⟨u, [], hunits, hu ▸ (not_surrogate c).1⟩
  · obtain ⟨high, low, hunits, hhigh, -⟩ := charUnits_of_le (Nat.le_of_not_lt hsmall)
    exact ⟨high, [low], hunits, not_isLow_of_isHigh hhigh⟩

/-- Two surrogates that belong together are the units of a character. -/
theorem charUnits_paired (hhigh : isHigh high.toNat = true) (hlow : isLow low.toNat = true) :
    charUnits (paired high.toNat low.toNat) = [high, low] := by
  rw [isHigh_iff] at hhigh
  rw [isLow_iff] at hlow
  have hvalue : (paired high.toNat low.toNat).toNat =
      0x10000 + (high.toNat - 0xD800) * 0x400 + (low.toNat - 0xDC00) :=
    toNat_ofNat (.inr (by omega))
  have hnotSmall : ¬(paired high.toNat low.toNat).toNat < 0x10000 := by omega
  have hfirst : 0xD800 + (0x10000 + (high.toNat - 0xD800) * 0x400 + (low.toNat - 0xDC00) -
      0x10000) / 0x400 = high.toNat := by omega
  have hsecond : 0xDC00 + (0x10000 + (high.toNat - 0xD800) * 0x400 + (low.toNat - 0xDC00) -
      0x10000) % 0x400 = low.toNat := by omega
  rw [charUnits, if_neg hnotSmall, hvalue, hfirst, hsecond, UInt16.ofNat_toNat, UInt16.ofNat_toNat]

/-- A unit that is no surrogate is a character. -/
theorem charUnits_ofNat (hlow : ¬isLow u.toNat = true) (hhigh : ¬isHigh u.toNat = true) :
    charUnits (Char.ofNat u.toNat) = [u] := by
  have hsize : u.toNat < 0x10000 := u.toNat_lt
  have hvalid : u.toNat.isValidChar := by
    rw [isLow_iff] at hlow
    rw [isHigh_iff] at hhigh
    change u.toNat < 0xD800 ∨ (0xDFFF < u.toNat ∧ u.toNat < 0x110000)
    omega
  rw [charUnits, toNat_ofNat hvalid, if_pos hsize, UInt16.ofNat_toNat]

/-! ### What units say -/

/-- The text that a row of units says; a surrogate without its partner says nothing. -/
def ofUnits (units : List UInt16) : Except Fault (List Char) :=
  decode none (units.map fun u ↦ .unit u.toNat)

/-- A string as a token: its value is what its units say, and it can be passed over. -/
def lexeme (units : List UInt16) : Lexeme String := ⟨(ofUnits units).map String.ofList, .ok ()⟩

variable {n m : Nat} {parts : List Part} {units : List UInt16}

/-- A unit that is no surrogate stands alone. -/
theorem decode_unit (hlow : ¬isLow n = true) (hhigh : ¬isHigh n = true) :
    decode none (.unit n :: parts) = (decode none parts).map (Char.ofNat n :: ·) := by
  rw [decode.eq_def]
  dsimp only
  rw [if_neg hlow, if_neg hhigh]

/-- A high surrogate is decoded with the low one behind it. -/
theorem decode_pair (hhigh : isHigh n = true) (hlow : isLow m = true) :
    decode none (.unit n :: .unit m :: parts) = (decode none parts).map (paired n m :: ·) := by
  rw [decode.eq_def]
  dsimp only
  rw [if_neg (not_isLow_of_isHigh hhigh), if_pos hhigh, if_pos hlow]

/-- A low surrogate does not come first. -/
theorem decode_low (hlow : isLow n = true) :
    decode none (.unit n :: parts) = .error .malformed := by
  rw [decode.eq_def]
  dsimp only
  rw [if_pos hlow]

/-- A high surrogate does not stand alone. -/
theorem decode_high (hhigh : isHigh n = true)
    (hparts : ∀ m rest, parts = .unit m :: rest → ¬isLow m = true) :
    decode none (.unit n :: parts) = .error .malformed := by
  rw [decode.eq_def]
  dsimp only
  rw [if_neg (not_isLow_of_isHigh hhigh), if_pos hhigh]
  cases parts with
  | nil => rfl
  | cons part rest =>
    cases part with
    | char c => rfl
    | unit m => exact if_neg (hparts m rest rfl)

/-- The units of a character say the character. -/
theorem ofUnits_charUnits_append (c : Char) (units : List UInt16) :
    ofUnits (charUnits c ++ units) = (ofUnits units).map (c :: ·) := by
  by_cases hsmall : c.toNat < 0x10000
  · obtain ⟨u, hunits, hu⟩ := charUnits_of_lt hsmall
    obtain ⟨hlow, hhigh⟩ := not_surrogate c
    rw [hunits, ofUnits, List.singleton_append, List.map_cons, hu, decode_unit hlow hhigh,
      Char.ofNat_toNat]
    rfl
  · obtain ⟨high, low, hunits, hhigh, hlow, hpair⟩ := charUnits_of_le (Nat.le_of_not_lt hsmall)
    rw [hunits, ofUnits, List.cons_append, List.singleton_append, List.map_cons, List.map_cons,
      decode_pair hhigh hlow, hpair]
    rfl

/-- The units of a text say the text. -/
theorem ofUnits_flatMap (cs : List Char) : ofUnits (cs.flatMap charUnits) = .ok cs := by
  induction cs with
  | nil => rfl
  | cons c cs ih =>
    rw [List.flatMap_cons, ofUnits_charUnits_append, ih]
    rfl

/-- A text is said by its own units only. -/
theorem eq_flatMap_of_ofUnits {units : List UInt16} {cs : List Char} (h : ofUnits units = .ok cs) :
    units = cs.flatMap charUnits := by
  have hfirst {c : Char} {rest : List UInt16} {cs : List Char}
      (hrest : ∀ {cs}, ofUnits rest = .ok cs → rest = cs.flatMap charUnits)
      (h : (ofUnits rest).map (c :: ·) = .ok cs) : charUnits c ++ rest = cs.flatMap charUnits := by
    cases hsaid : ofUnits rest with
    | error fault => rw [hsaid] at h; exact nomatch h
    | ok tail =>
      rw [hsaid] at h
      obtain rfl : c :: tail = cs := Except.ok.inj h
      rw [List.flatMap_cons, ← hrest hsaid]
  -- The recursion takes one unit, or a high surrogate together with the low one behind it.
  match units with
  | [] =>
    obtain rfl : [] = cs := Except.ok.inj h
    rfl
  | u :: rest =>
    by_cases hlow : isLow u.toNat = true
    · exact absurd (h.symm.trans (decode_low hlow)) nofun
    · by_cases hhigh : isHigh u.toNat = true
      · match rest with
        | [] => exact absurd (h.symm.trans (decode_high hhigh nofun)) nofun
        | low :: rest =>
          by_cases hpair : isLow low.toNat = true
          · change [u, low] ++ rest = _
            rw [← charUnits_paired hhigh hpair]
            exact hfirst eq_flatMap_of_ofUnits ((decode_pair hhigh hpair).symm.trans h)
          · refine absurd (h.symm.trans (decode_high hhigh ?_)) nofun
            rintro m tail hm
            exact Part.unit.inj (List.cons.inj hm).1 ▸ hpair
      · change [u] ++ rest = _
        rw [← charUnits_ofNat hlow hhigh]
        exact hfirst eq_flatMap_of_ofUnits ((decode_unit hlow hhigh).symm.trans h)

/-- A string is said by its own units and by no others. -/
theorem ofUnits_eq_ok_iff {s : String} :
    (ofUnits units).map String.ofList = .ok s ↔ units = utf16 s := by
  constructor
  · intro h
    cases hsaid : ofUnits units with
    | error fault => rw [hsaid] at h; exact nomatch h
    | ok cs =>
      rw [hsaid] at h
      obtain rfl : String.ofList cs = s := Except.ok.inj h
      rw [utf16, String.toList_ofList]
      exact eq_flatMap_of_ofUnits hsaid
  · rintro rfl
    rw [utf16, ofUnits_flatMap]
    exact congrArg Except.ok String.ofList_toList

theorem lexeme_value_eq_ok_iff {s : String} : (lexeme units).value = .ok s ↔ units = utf16 s :=
  ofUnits_eq_ok_iff

theorem lexeme_utf16 (s : String) : (lexeme (utf16 s)).value = .ok s := lexeme_value_eq_ok_iff.mpr rfl

/-! ### Parts of a scan -/

/-- The parts that a scan finds name the units. -/
inductive Names : List Part → List UInt16 → Prop
  | nil : Names [] []
  | char {parts : List Part} {units : List UInt16} (c : Char) (hrest : Names parts units) :
      Names (.char c :: parts) (charUnits c ++ units)
  | unit {parts : List Part} {units : List UInt16} (u : UInt16) (hrest : Names parts units) :
      Names (.unit u.toNat :: parts) (u :: units)

/-- Parts say what their units say. -/
theorem Names.decode_eq (h : Names parts units) : decode none parts = ofUnits units := by
  -- The cases are those of decoding, where a high surrogate looks at the part behind it.
  fun_induction decode none parts generalizing units with
  | case1 =>
    cases h
    rfl
  | case2 => contradiction
  | case3 c parts ih =>
    cases h with
    | char _ hrest => rw [ofUnits_charUnits_append, ih hrest]
  | case4 n parts hlow =>
    cases h with
    | unit u hrest => exact (decode_low hlow).symm
  | case5 n hlow hhigh =>
    cases h with
    | unit u hrest =>
      cases hrest
      refine (decode_high hhigh ?_).symm
      rintro m rest ⟨⟩
  | case6 n hlow hhigh m parts hpair ih =>
    cases h with
    | unit u hrest =>
      cases hrest with
      | unit v hrest =>
        rw [ih hrest]
        exact (decode_pair hhigh hpair).symm
  | case7 n hlow hhigh m parts hpair =>
    cases h with
    | unit u hrest =>
      cases hrest with
      | unit v hrest =>
        refine (decode_high hhigh ?_).symm
        rintro m rest hm
        exact Part.unit.inj (List.cons.inj hm).1 ▸ hpair
  | case8 n hlow hhigh c parts =>
    cases h with
    | unit u hrest =>
      cases hrest with
      | char _ hrest =>
        obtain ⟨v, units, hunits, hv⟩ := charUnits_eq_cons c
        rw [hunits]
        refine (decode_high hhigh ?_).symm
        rintro m rest hm
        exact Part.unit.inj (List.cons.inj hm).1 ▸ hv
  | case9 n parts hlow hhigh ih =>
    cases h with
    | unit u hrest =>
      rw [ih hrest]
      exact (decode_unit hlow hhigh).symm

/-! ### Spellings -/

/-- The characters between two quotation marks spell the units: a character may stand for itself
unless it controls the output, is a quotation mark or a backslash, some characters have an escape of
one letter, and any unit may be written with four digits. -/
inductive Spells : List UInt16 → List Char → Prop
  | nil : Spells [] []
  | plain {units : List UInt16} {cs : List Char} {c : Char} (hcontrol : ¬isControl c = true)
      (hquote : c ≠ '"') (hescape : c ≠ '\\') (hrest : Spells units cs) :
      Spells (charUnits c ++ units) (c :: cs)
  | short {units : List UInt16} {cs : List Char} {e c : Char} (he : shortEscape? e = some c)
      (hrest : Spells units cs) : Spells (charUnits c ++ units) ('\\' :: e :: cs)
  | digits {units : List UInt16} {cs : List Char} {a b c d : Char} {u : UInt16}
      (hu : unitValue? a b c d = some u.toNat) (hrest : Spells units cs) :
      Spells (u :: units) ('\\' :: 'u' :: a :: b :: c :: d :: cs)

variable {cs : List Char}

/-- Characters that may stand for themselves. -/
theorem spells_plain (h : (cs.all fun c ↦ !isControl c && c != '"' && c != '\\') = true) :
    Spells (cs.flatMap charUnits) cs := by
  induction cs with
  | nil => exact .nil
  | cons c cs ih =>
    simp only [List.all_cons, Bool.and_eq_true, Bool.not_eq_true', bne_iff_ne] at h
    obtain ⟨⟨⟨hcontrol, hquote⟩, hescape⟩, hcs⟩ := h
    exact .plain (Bool.eq_false_iff.mp hcontrol) hquote hescape (ih hcs)

/-- A character that stands for itself is scanned as such. -/
theorem scan_plain (hcontrol : ¬isControl c = true) (hquote : c ≠ '"') (hescape : c ≠ '\\')
    (cs : List Char) : scan (c :: cs) = (scan cs).cons (.char c) := by
  rw [scan]
  · rw [if_neg hcontrol]
  · exact hquote
  all_goals
    intros
    exact hescape ‹_›

/-- An escape of one letter is scanned as its character. -/
theorem scan_short {e : Char} (he : shortEscape? e = some c) (cs : List Char) :
    scan ('\\' :: e :: cs) = (scan cs).cons (.char c) := by
  unfold shortEscape? at he
  split at he
  iterate 8
    obtain rfl := Option.some.inj he
    rfl
  cases he

/-- What is spelled is scanned up to the closing quotation mark. -/
theorem Spells.scan (h : Spells units cs) (rest : List Char) :
    ∃ parts, Quoted.scan (cs ++ '"' :: rest) = ⟨parts, .ok rest⟩ ∧ Names parts units := by
  induction h with
  | nil => exact ⟨[], rfl, .nil⟩
  | @plain units cs c hcontrol hquote hescape _ ih =>
    obtain ⟨parts, hscan, hnames⟩ := ih
    refine ⟨.char c :: parts, ?_, .char c hnames⟩
    rw [List.cons_append, scan_plain hcontrol hquote hescape, hscan, Scan.cons]
  | @short units cs e c he _ ih =>
    obtain ⟨parts, hscan, hnames⟩ := ih
    refine ⟨.char c :: parts, ?_, .char c hnames⟩
    rw [List.cons_append, List.cons_append, scan_short he, hscan, Scan.cons]
  | @digits units cs a b c d u hu _ ih =>
    obtain ⟨parts, hscan, hnames⟩ := ih
    refine ⟨.unit u.toNat :: parts, ?_, .unit u hnames⟩
    simp only [List.cons_append]
    rw [Quoted.scan, hu]
    dsimp only
    rw [hscan, Scan.cons]

/-- The token of a string depends on its units alone. -/
theorem Spells.lexeme_scan (h : Spells units cs) (rest : List Char) :
    (Quoted.scan (cs ++ '"' :: rest)).lexeme = lexeme units := by
  obtain ⟨parts, hscan, hnames⟩ := h.scan rest
  rw [hscan, Scan.lexeme, lexeme, ← hnames.decode_eq]
  rfl

/-- A hexadecimal digit is less than sixteen. -/
theorem hexValue?_lt (h : hexValue? c = some n) : n < 16 := by
  rw [hexValue?] at h
  split_ifs at h with hdigit hsmall hcapital
  · have hrange := Text.toNat_of_isDigit hdigit
    have hvalue : c.toNat - 48 = n := Option.some.inj h
    omega
  · have hrange : 97 ≤ c.toNat ∧ c.toNat ≤ 102 := hsmall
    have hvalue : c.toNat - 97 + 10 = n := Option.some.inj h
    omega
  · have hrange : 65 ≤ c.toNat ∧ c.toNat ≤ 70 := hcapital
    have hvalue : c.toNat - 65 + 10 = n := Option.some.inj h
    omega

/-- Four digits name a unit. -/
theorem exists_of_unitValue? {a b c d : Char} (h : unitValue? a b c d = some n) :
    ∃ u : UInt16, u.toNat = n := by
  simp only [unitValue?, bind, Option.bind_eq_some_iff, pure, Option.some.injEq] at h
  obtain ⟨x, hx, y, hy, z, hz, w, hw, rfl⟩ := h
  have hx := hexValue?_lt hx
  have hy := hexValue?_lt hy
  have hz := hexValue?_lt hz
  have hw := hexValue?_lt hw
  exact ⟨.ofNat _, UInt16.toNat_ofNat_of_lt' (show _ < 2 ^ 16 by omega)⟩

/-- What is scanned up to a closing quotation mark is spelled in front of it. -/
theorem exists_spells_of_scan {rest : List Char} (h : (scan cs).rest = .ok rest) :
    ∃ units body, cs = body ++ '"' :: rest ∧ Spells units body := by
  fun_induction scan cs with
  | case1 => cases h
  | case2 r =>
    obtain rfl := Except.ok.inj h
    exact ⟨[], [], rfl, .nil⟩
  | case3 => cases h
  | case4 a b c d r n hn ih =>
    obtain ⟨units, body, rfl, hbody⟩ := ih h
    obtain ⟨u, rfl⟩ := exists_of_unitValue? hn
    exact ⟨_, _, rfl, .digits hn hbody⟩
  | case5 => cases h
  | case6 => cases h
  | case7 e r _ _ c hc ih =>
    obtain ⟨units, body, rfl, hbody⟩ := ih h
    exact ⟨_, _, rfl, .short hc hbody⟩
  | case8 => cases h
  | case9 => cases h
  | case10 c r hquote hescape _ _ hescape' hcontrol ih =>
    obtain ⟨units, body, rfl, hbody⟩ := ih h
    refine ⟨_, _, rfl, .plain hcontrol hquote ?_ hbody⟩
    -- A backslash would be an escape, because at least the quotation mark follows.
    cases body with
    | nil => exact fun hc ↦ hescape' _ _ hc rfl
    | cons b body => exact fun hc ↦ hescape' _ _ hc rfl

end Listing.Json.Quoted
