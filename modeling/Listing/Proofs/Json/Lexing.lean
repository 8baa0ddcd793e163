import Listing.Json.Token
import Listing.Json.Value
import Listing.Proofs.Text.Digits

/-!
# The tokens of a written value

What a value is written as is cut into its tokens again, whatever text follows, as long as it cannot
go on with the last numeral (`Value.tokens_write`). A string is scanned escape by escape and decoded
to the characters it was written for (`Quoted.scan_flatMap_writeChar`), and a numeral of an integer
ends where its digits do (`Numeral.scan_writeInteger`). An integer of at most 64 bits is in the
range of numerals, so its token has its value (`Numeral.value_ofInteger`).
-/

set_option autoImplicit false
set_option relaxedAutoImplicit false

namespace Listing.Json

/-! ### Numerals -/

/-- The text ends, or goes on with a mark that may stand behind a value. -/
def Delimited (cs : List Char) : Prop := ∀ c ∈ cs.head?, c = ',' ∨ c = ']' ∨ c = '\x7d'

namespace Numeral

/-- The numeral of an integer. -/
def ofInteger (n : Int) : Numeral := ⟨n < 0, Nat.toDigits 10 n.natAbs, [], none⟩

variable {rest : List Char}

/-- Digits are scanned to their end. -/
theorem scanDigits_append {digits : List Char} (hne : digits ≠ [])
    (hdigits : ∀ c ∈ digits, c.isDigit = true) (hrest : Delimited rest) :
    scanDigits (digits ++ rest) = .ok (digits, rest) := by
  have hstop : rest.takeWhile Char.isDigit = [] ∧ rest.dropWhile Char.isDigit = rest := by
    cases rest with
    | nil => exact ⟨rfl, rfl⟩
    | cons c rest =>
      have hc : c.isDigit = false := by rcases hrest c rfl with rfl | rfl | rfl <;> decide
      exact ⟨List.takeWhile_cons_of_neg (by simp [hc]), List.dropWhile_cons_of_neg (by simp [hc])⟩
  have htake : (digits ++ rest).takeWhile Char.isDigit = digits := by
    rw [List.takeWhile_append_of_pos hdigits, hstop.1, List.append_nil]
  have hdrop : (digits ++ rest).dropWhile Char.isDigit = rest := by
    rw [List.dropWhile_append_of_pos hdigits, hstop.2]
  rw [scanDigits, htake, hdrop, if_neg (by simpa using hne)]

/-- The digits of a number are scanned to their end. -/
theorem scanWhole_toDigits (n : Nat) (hrest : Delimited rest) :
    scanWhole (Nat.toDigits 10 n ++ rest) = .ok (Nat.toDigits 10 n, rest) := by
  have hzero : ¬((Nat.toDigits 10 n).head? = some '0' ∧ 1 < (Nat.toDigits 10 n).length) := by
    rintro ⟨hhead, hlength⟩
    by_cases hn : n = 0
    · subst hn
      exact absurd hlength (by decide)
    · exact Text.head?_toDigits hn hhead
  rw [scanWhole, scanDigits_append Nat.toDigits_ne_nil
    (fun _ hc ↦ Text.isDigit_of_mem_toDigits hc) hrest]
  exact if_neg hzero

/-- No minus sign stands in front of digits. -/
theorem scanMinus_toDigits (n : Nat) (rest : List Char) :
    scanMinus (Nat.toDigits 10 n ++ rest) = (false, Nat.toDigits 10 n ++ rest) := by
  cases hdigits : Nat.toDigits 10 n with
  | nil => exact absurd hdigits Nat.toDigits_ne_nil
  | cons c cs =>
    have hc : c.isDigit = true := Text.isDigit_of_mem_toDigits (hdigits ▸ List.mem_cons_self)
    have hne : c ≠ '-' := by
      rintro rfl
      exact absurd hc (by decide)
    rw [List.cons_append, scanMinus]
    exact fun rest h ↦ hne (List.cons.inj h).1

/-- The numeral of an integer is scanned to its end. -/
theorem scan_writeInteger (n : Int) (hrest : Delimited rest) :
    scan (Value.writeInteger n ++ rest) = .ok (ofInteger n, rest) := by
  have hminus : scanMinus (Value.writeInteger n ++ rest) =
      (decide (n < 0), Nat.toDigits 10 n.natAbs ++ rest) := by
    rw [Value.writeInteger]
    by_cases hn : n < 0
    · rw [if_pos hn, decide_eq_true hn]
      rfl
    · rw [if_neg hn, decide_eq_false hn]
      exact scanMinus_toDigits n.natAbs rest
  have hfraction : scanFraction rest = .ok ([], rest) := by
    cases rest with
    | nil => rfl
    | cons c rest => rcases hrest c rfl with rfl | rfl | rfl <;> rfl
  have hexponent : scanExponent rest = .ok (none, rest) := by
    cases rest with
    | nil => rfl
    | cons c rest => rcases hrest c rfl with rfl | rfl | rfl <;> rfl
  simp only [scan, hminus, scanWhole_toDigits _ hrest, hfraction, hexponent, bind, Except.bind,
    pure, Except.pure, ofInteger]

/-- Digits that give a number of 64 bits are all gathered. -/
theorem gather_of_lt {n : Nat} {cs : List Char} (h : Nat.ofDigitChars 10 cs n < UInt64.size) :
    gather n cs = (Nat.ofDigitChars 10 cs n, []) := by
  induction cs generalizing n with
  | nil => rfl
  | cons c cs ih =>
    have hfirst : Nat.ofDigitChars 10 [c] n < UInt64.size :=
      Nat.lt_of_le_of_lt (Text.le_ofDigitChars _ cs) h
    rw [gather, if_pos hfirst]
    exact ih h

/-- Rounding at most doubles a number. -/
theorem roundToDouble_le (n : Nat) : roundToDouble n ≤ 2 * n := by
  rw [roundToDouble]
  by_cases hsmall : n < 1 <<< 53
  · rw [if_pos hsmall]
    omega
  · -- Rounding up adds one unit of the last place, which is at most the number itself.
    have hunit : 1 <<< (n.log2 - 52) ≤ n := by
      have hne : n ≠ 0 := by
        rintro rfl
        exact hsmall (by decide)
      rw [Nat.one_shiftLeft]
      exact Nat.le_trans (Nat.pow_le_pow_right (by decide) (Nat.sub_le _ 52))
        (Nat.log2_self_le hne)
    have hquotient : n / (1 <<< (n.log2 - 52)) * (1 <<< (n.log2 - 52)) ≤ n :=
      Nat.div_mul_le_self _ _
    rw [if_neg hsmall]
    dsimp only
    split
    · rw [Nat.succ_mul]
      omega
    · omega

/-- An integer of at most 64 bits is in the range of numerals. -/
theorem beyondRange_ofInteger {n : Int} (hn : n.natAbs < UInt64.size) :
    (ofInteger n).beyondRange = false := by
  have hgather : gather 0 (Nat.toDigits 10 n.natAbs) = (n.natAbs, []) := by
    rw [gather_of_lt (by rwa [Nat.ofDigitChars_ten_toDigits]), Nat.ofDigitChars_ten_toDigits]
  have hscientific : (ofInteger n).scientific = (n.natAbs, 0) := by
    simp [scientific, ofInteger, hgather, gather]
  have hsmall : roundToDouble n.natAbs * roundToDouble (Nat.pow 10 0) < overflow := by
    have hbound := roundToDouble_le n.natAbs
    have hone : roundToDouble (Nat.pow 10 0) = 1 := by decide
    have hoverflow : 2 * UInt64.size < overflow := by decide
    rw [hone]
    omega
  have hrange : decide (overflow ≤ roundToDouble n.natAbs * roundToDouble (Nat.pow 10 0)) = false :=
    decide_eq_false (Nat.not_le.mpr hsmall)
  rw [beyondRange, hscientific]
  change (n.natAbs != 0 && true && (false ||
    decide (overflow ≤ roundToDouble n.natAbs * roundToDouble (Nat.pow 10 0)))) = false
  rw [hrange, Bool.or_false, Bool.and_false]

/-- The numeral of an integer of at most 64 bits has its value. -/
theorem value_ofInteger {n : Int} (hn : n.natAbs < UInt64.size) :
    (ofInteger n).value = .ok (.integer n) := by
  rw [value, beyondRange_ofInteger hn]
  simp only [ofInteger, Nat.ofDigitChars_ten_toDigits]
  by_cases hnegative : n < 0
  · obtain ⟨m, hm⟩ : ∃ m, n.natAbs = m + 1 := ⟨n.natAbs - 1, by omega⟩
    have hvalue : -((m + 1 : Nat) : Int) = n := by omega
    rw [decide_eq_true hnegative, hm]
    exact congrArg (fun n ↦ Except.ok (Number.integer n)) hvalue
  · have hvalue : (n.natAbs : Int) = n := by omega
    rw [decide_eq_false hnegative]
    exact congrArg (fun n ↦ Except.ok (Number.integer n)) hvalue

end Numeral

/-! ### Strings -/

namespace Quoted

/-- What a scan finds of a character: a control character without a letter of its own is named by
its unit. -/
def part (c : Char) : Part :=
  if isControl c ∧ c ≠ '\x08' ∧ c ≠ '\x0c' ∧ c ≠ '\n' ∧ c ≠ '\r' ∧ c ≠ '\t' then .unit c.toNat
  else .char c

/-- Two digits name a control character. -/
theorem unitValue?_of_isControl {c : Char} (h : isControl c = true) :
    unitValue? '0' '0' (hexDigit (c.toNat / 16)) (hexDigit (c.toNat % 16)) = some c.toNat := by
  have hall : ∀ n < 32, unitValue? '0' '0' (hexDigit (n / 16)) (hexDigit (n % 16)) = some n := by
    decide
  exact hall c.toNat (of_decide_eq_true h)

/-- A character is scanned as it is written. -/
theorem scan_writeChar (c : Char) (cs : List Char) :
    scan (writeChar c ++ cs) = (scan cs).cons (part c) := by
  unfold writeChar
  split
  -- Seven characters have an escape of their own.
  iterate 7 rfl
  next hquote hbackslash hb hf hn hr ht =>
    by_cases hc : isControl c = true
    · rw [if_pos hc, part, if_pos ⟨hc, hb, hf, hn, hr, ht⟩]
      change scan ('\\' :: 'u' :: '0' :: '0' :: hexDigit (c.toNat / 16) ::
        hexDigit (c.toNat % 16) :: cs) = _
      rw [scan, unitValue?_of_isControl hc]
    · have hplain : scan (c :: cs) = if isControl c then ⟨[], .error .malformed⟩ else
          (scan cs).cons (.char c) := by
        rw [scan]
        · exact hquote
        all_goals
          intros
          exact hbackslash ‹_›
      rw [if_neg hc, part, if_neg fun h ↦ hc h.1, List.singleton_append, hplain, if_neg hc]

/-- A part that was found is decoded to its character. -/
theorem decode_part (c : Char) (parts : List Part) :
    decode none (part c :: parts) = (decode none parts).map (c :: ·) := by
  rw [part]
  by_cases hc : isControl c ∧ c ≠ '\x08' ∧ c ≠ '\x0c' ∧ c ≠ '\n' ∧ c ≠ '\r' ∧ c ≠ '\t'
  · -- A control character is no surrogate, so its unit stands alone.
    have hsmall : c.toNat < 0x20 := of_decide_eq_true hc.1
    have hlow : isLow c.toNat = false := by
      rw [isLow, decide_eq_false (by omega), Bool.false_and]
    have hhigh : isHigh c.toNat = false := by
      rw [isHigh, decide_eq_false (by omega), Bool.false_and]
    rw [if_pos hc, decode.eq_def]
    dsimp only
    rw [if_neg (by simp [hlow]), if_neg (by simp [hhigh]), Char.ofNat_toNat]
  · rw [if_neg hc, decode]

/-- What is written between the quotation marks is scanned part by part. -/
theorem scan_flatMap_writeChar (cs rest : List Char) :
    scan (cs.flatMap writeChar ++ '"' :: rest) = ⟨cs.map part, .ok rest⟩ := by
  induction cs with
  | nil => rfl
  | cons c cs ih =>
    rw [List.flatMap_cons, List.append_assoc, scan_writeChar, ih]
    rfl

theorem decode_map_part (cs : List Char) : decode none (cs.map part) = .ok cs := by
  induction cs with
  | nil => rfl
  | cons c cs ih =>
    rw [List.map_cons, decode_part, ih]
    rfl

/-- A string is a lexeme with the value that was written. -/
theorem lexeme_scan_write (s : String) (rest : List Char) :
    (scan (s.toList.flatMap writeChar ++ '"' :: rest)).lexeme = .ofValue s := by
  rw [scan_flatMap_writeChar, Scan.lexeme]
  dsimp only
  rw [decode_map_part]
  exact congrArg Lexeme.ofValue String.ofList_toList

end Quoted

/-! ### Tokens -/

namespace Value

mutual

/-- The tokens of a value. -/
def tokens : Value → List Token
  | .null => [.plain (.ofValue .null)]
  | .bool b => [.plain (.ofValue (.bool b))]
  | .integer n => [.plain ⟨(Numeral.ofInteger n).value.map .number, .ok ()⟩]
  | .string s => [.string (.ofValue s)]
  | .array [] => [.mark .openArray, .mark .closeArray]
  | .array (v :: vs) => .mark .openArray :: v.tokens ++ itemTokens vs
  | .object [] => [.mark .openObject, .mark .closeObject]
  | .object ((key, v) :: ms) =>
    .mark .openObject :: .string (.ofValue key) :: .mark .colon :: v.tokens ++ memberTokens ms

/-- The tokens of the further items of an array, and of its end. -/
def itemTokens : List Value → List Token
  | [] => [.mark .closeArray]
  | v :: vs => .mark .comma :: v.tokens ++ itemTokens vs

/-- The tokens of the further members of an object, and of its end. -/
def memberTokens : List (String × Value) → List Token
  | [] => [.mark .closeObject]
  | (key, v) :: ms =>
    .mark .comma :: .string (.ofValue key) :: .mark .colon :: v.tokens ++ memberTokens ms

end

end Value

/-- Behind a string the tokens go on where the scan of the string ends. -/
theorem tokens_string {cs rest : List Char} (h : (Quoted.scan cs).rest = .ok rest) :
    tokens ('"' :: cs) = .string (Quoted.scan cs).lexeme :: tokens rest := by
  rw [tokens, if_neg (by decide), if_pos rfl]
  refine congrArg _ ?_
  split
  · next rest' hrest => rw [Except.ok.inj (h.symm.trans hrest)]
  · next fault hfault => cases h.symm.trans hfault

/-- Behind a numeral the tokens go on where the scan of the numeral ends. -/
theorem tokens_numeral {c : Char} {cs rest : List Char} {n : Numeral}
    (hc : c = '-' ∨ c.isDigit = true) (h : Numeral.scan (c :: cs) = .ok (n, rest)) :
    tokens (c :: cs) = .plain ⟨n.value.map .number, .ok ()⟩ :: tokens rest := by
  have hspace : ¬isSpace c = true := by
    intro hspace
    simp only [isSpace, Bool.or_eq_true, beq_iff_eq, or_assoc] at hspace
    rcases hspace with rfl | rfl | rfl | rfl <;> exact absurd hc (by decide)
  have hquote : c ≠ '"' := by
    rintro rfl
    exact absurd hc (by decide)
  rw [tokens, if_neg hspace, if_neg hquote, if_pos hc]
  split
  · next n' rest' hscan =>
    obtain ⟨rfl, rfl⟩ := Prod.mk.inj (Except.ok.inj (h.symm.trans hscan))
    rfl
  · next fault hfault => cases h.symm.trans hfault

/-- A written string is one token. -/
theorem tokens_quoted (s : String) (rest : List Char) :
    tokens (Quoted.write s.toList ++ rest) = .string (.ofValue s) :: tokens rest := by
  have hscan :
      (Quoted.scan (s.toList.flatMap Quoted.writeChar ++ '"' :: rest)).rest = .ok rest := by
    rw [Quoted.scan_flatMap_writeChar]
  have hwrite : Quoted.write s.toList ++ rest =
      '"' :: (s.toList.flatMap Quoted.writeChar ++ '"' :: rest) := by
    rw [Quoted.write, List.append_assoc]
    rfl
  rw [hwrite, tokens_string hscan, Quoted.lexeme_scan_write]

/-- A written integer is one token. -/
theorem tokens_writeInteger (n : Int) {rest : List Char} (hrest : Delimited rest) :
    tokens (Value.writeInteger n ++ rest) =
      .plain ⟨(Numeral.ofInteger n).value.map .number, .ok ()⟩ :: tokens rest := by
  have hscan := Numeral.scan_writeInteger n hrest
  have hhead : ∃ c cs, Value.writeInteger n = c :: cs ∧ (c = '-' ∨ c.isDigit = true) := by
    rw [Value.writeInteger]
    by_cases hn : n < 0
    · exact ⟨'-', _, if_pos hn, .inl rfl⟩
    · rw [if_neg hn]
      cases hdigits : Nat.toDigits 10 n.natAbs with
      | nil => exact absurd hdigits Nat.toDigits_ne_nil
      | cons c cs =>
        exact ⟨c, cs, rfl, .inr (Text.isDigit_of_mem_toDigits (hdigits ▸ List.mem_cons_self))⟩
  obtain ⟨c, cs, hwrite, hc⟩ := hhead
  rw [hwrite, List.cons_append] at hscan ⊢
  exact tokens_numeral hc hscan

/-- A mark is a token. -/
theorem tokens_mark {c : Char} {m : Mark} (h : mark? c = some m) (cs : List Char) :
    tokens (c :: cs) = .mark m :: tokens cs := by
  unfold mark? at h
  split at h
  iterate 6
    obtain rfl := Option.some.inj h
    rw [tokens]
    rfl
  cases h

/-- A word is a token. -/
theorem tokens_word {c : Char} {value : Plain} {letters : List Char}
    (h : word? c = some (value, letters)) (cs : List Char) :
    tokens (c :: letters ++ cs) = .plain (.ofValue value) :: tokens cs := by
  unfold word? at h
  split at h
  iterate 3
    obtain ⟨rfl, rfl⟩ := Prod.mk.inj (Option.some.inj h)
    rw [List.cons_append, tokens]
    rfl
  cases h

namespace Value

/-- What ends an array or goes on with it delimits an item. -/
theorem delimited_writeItems (vs : List Value) (rest : List Char) :
    Delimited (writeItems vs ++ rest) := by
  cases vs with
  | nil => exact fun c hc ↦ .inr (.inl (Option.some.inj hc).symm)
  | cons v vs => exact fun c hc ↦ .inl (Option.some.inj hc).symm

/-- What ends an object or goes on with it delimits a member. -/
theorem delimited_writeMembers (ms : List (String × Value)) (rest : List Char) :
    Delimited (writeMembers ms ++ rest) := by
  cases ms with
  | nil => exact fun c hc ↦ .inr (.inr (Option.some.inj hc).symm)
  | cons m ms => exact fun c hc ↦ .inl (Option.some.inj hc).symm

mutual

/-- A written value is cut into its tokens. -/
theorem tokens_write : ∀ (v : Value) {rest : List Char}, Delimited rest →
    Json.tokens (v.write ++ rest) = v.tokens ++ Json.tokens rest
  | .null, rest, _ => tokens_word rfl rest
  | .bool true, rest, _ => tokens_word rfl rest
  | .bool false, rest, _ => tokens_word rfl rest
  | .integer n, _, hrest => tokens_writeInteger n hrest
  | .string s, rest, _ => tokens_quoted s rest
  | .array [], rest, _ => by
    rw [write, tokens, List.cons_append, tokens_mark rfl]
    exact congrArg _ (tokens_mark rfl rest)
  | .array (v :: vs), rest, _ => by
    simp only [write, tokens, List.cons_append, List.append_assoc]
    rw [tokens_mark rfl, tokens_write v (delimited_writeItems vs rest), tokens_writeItems vs rest]
  | .object [], rest, _ => by
    rw [write, tokens, List.cons_append, tokens_mark rfl]
    exact congrArg _ (tokens_mark rfl rest)
  | .object ((key, v) :: ms), rest, _ => by
    simp only [write, tokens, List.cons_append, List.append_assoc]
    rw [tokens_mark rfl, tokens_quoted, tokens_mark rfl,
      tokens_write v (delimited_writeMembers ms rest), tokens_writeMembers ms rest]

/-- So are the further items of an array. -/
theorem tokens_writeItems : ∀ (vs : List Value) (rest : List Char),
    Json.tokens (writeItems vs ++ rest) = itemTokens vs ++ Json.tokens rest
  | [], rest => tokens_mark rfl rest
  | v :: vs, rest => by
    simp only [writeItems, itemTokens, List.cons_append, List.append_assoc]
    rw [tokens_mark rfl, tokens_write v (delimited_writeItems vs rest), tokens_writeItems vs rest]

/-- So are the further members of an object. -/
theorem tokens_writeMembers : ∀ (ms : List (String × Value)) (rest : List Char),
    Json.tokens (writeMembers ms ++ rest) = memberTokens ms ++ Json.tokens rest
  | [], rest => tokens_mark rfl rest
  | (key, v) :: ms, rest => by
    simp only [writeMembers, memberTokens, List.cons_append, List.append_assoc]
    rw [tokens_mark rfl, tokens_quoted, tokens_mark rfl,
      tokens_write v (delimited_writeMembers ms rest), tokens_writeMembers ms rest]

end

end Value

end Listing.Json
