import Listing.Json.Fault

/-!
# JSON numerals

A numeral is an optional minus sign, digits, an optional fraction and an optional exponent.
`Numeral.scan` cuts one off the front of a text. A numeral without fraction and exponent, other than
`-0`, has an exact integer value. Any other value is not looked at, except that a numeral beyond the
range of binary double precision has none.
-/

set_option autoImplicit false
set_option relaxedAutoImplicit false

namespace Listing.Json

/-- What a numeral stands for. -/
inductive Number where
  /-- An integer. -/
  | integer (n : Int)
  /-- A value that is written with a fraction or an exponent, or negative zero. -/
  | other
deriving DecidableEq

/-- The parts of a numeral. -/
structure Numeral where
  negative : Bool
  /-- The digits before the point. -/
  whole : List Char
  /-- The digits after the point; none if there is no point. -/
  fraction : List Char
  /-- Whether the exponent is negative, and its digits. -/
  exponent : Option (Bool × List Char)

namespace Numeral

/-! ### Scanning -/

/-- One or more digits, and what follows them. -/
def scanDigits (cs : List Char) : Except Fault (List Char × List Char) :=
  let digits := cs.takeWhile Char.isDigit
  if digits.isEmpty then .error (if cs.isEmpty then .cutShort else .malformed)
  else .ok (digits, cs.dropWhile Char.isDigit)

/-- The digits before the point: a zero is not followed by another digit. -/
def scanWhole (cs : List Char) : Except Fault (List Char × List Char) := do
  let (digits, rest) ← scanDigits cs
  if digits.head? = some '0' ∧ 1 < digits.length then .error .malformed
  else .ok (digits, rest)

/-- The digits of an optional fraction. -/
def scanFraction : List Char → Except Fault (List Char × List Char)
  | '.' :: rest => scanDigits rest
  | cs => .ok ([], cs)

/-- Whether a sign stands in front and is a minus, and what follows it. -/
def scanSign : List Char → Bool × List Char
  | '+' :: rest => (false, rest)
  | '-' :: rest => (true, rest)
  | cs => (false, cs)

/-- An optional exponent. -/
def scanExponent : List Char → Except Fault (Option (Bool × List Char) × List Char)
  | [] => .ok (none, [])
  | c :: rest =>
    if c = 'e' ∨ c = 'E' then do
      let (negative, rest) := scanSign rest
      let (digits, rest) ← scanDigits rest
      return (some (negative, digits), rest)
    else .ok (none, c :: rest)

/-- Whether a minus sign stands in front, and what follows it. -/
def scanMinus : List Char → Bool × List Char
  | '-' :: rest => (true, rest)
  | cs => (false, cs)

/-- The numeral at the front of a text, and what follows it. -/
def scan (cs : List Char) : Except Fault (Numeral × List Char) := do
  let (negative, cs) := scanMinus cs
  let (whole, cs) ← scanWhole cs
  let (fraction, cs) ← scanFraction cs
  let (exponent, cs) ← scanExponent cs
  return (⟨negative, whole, fraction, exponent⟩, cs)

/-! ### Range -/

/-- Appends digits to a number as long as it fits in 64 bits; the digits left over come with
the result. -/
def gather (n : Nat) : List Char → Nat × List Char
  | [] => (n, [])
  | d :: ds =>
    let longer := Nat.ofDigitChars 10 [d] n
    if longer < UInt64.size then gather longer ds else (n, d :: ds)

/-- The leading digits of a numeral as a number of 64 bits, and the power of ten to multiply it
with; digits that do not fit count as zeros. -/
def scientific (n : Numeral) : Nat × Int :=
  let (significand, dropped) := gather 0 n.whole
  let (significand', dropped') := gather significand n.fraction
  let shift : Int := match n.exponent with
    | none => 0
    | some (negative, digits) =>
      let size : Int := Nat.ofDigitChars 10 digits 0
      if negative then -size else size
  (significand', dropped.length - (n.fraction.length - dropped'.length : Nat) + shift)

/-- The nearest number with at most 53 significant bits; of two, the one with an even last bit. -/
def roundToDouble (n : Nat) : Nat :=
  if n < 1 <<< 53 then n
  else
    let unit := 1 <<< (n.log2 - 52)
    let quotient := n / unit
    let remainder := n % unit
    if unit < 2 * remainder ∨ (unit = 2 * remainder ∧ quotient % 2 = 1) then (quotient + 1) * unit
    else quotient * unit

/-- The least number that is rounded up to infinity: it lies halfway between the largest double and
the power of two that follows. -/
def overflow : Nat := (1 <<< 1024) - (1 <<< 970)

/-- Whether the significand times the power of ten, each rounded to double precision, is rounded up
to infinity. -/
def beyondRange (n : Numeral) : Bool :=
  let (significand, exponent) := n.scientific
  significand != 0 && 0 ≤ exponent && (308 < exponent ||
    overflow ≤ roundToDouble significand * roundToDouble (Nat.pow 10 exponent.toNat))

/-- The value of a numeral. -/
def value (n : Numeral) : Except Fault Number :=
  if n.beyondRange then .error .malformed
  else if n.fraction.isEmpty && n.exponent.isNone then
    match n.negative, Nat.ofDigitChars 10 n.whole 0 with
    | true, 0 => .ok .other
    | true, m => .ok (.integer (-m))
    | false, m => .ok (.integer m)
  else .ok .other

/-! ### Laws

Every scan shortens the text, or leaves it as it is if its part may be absent. -/

theorem length_of_scanDigits {cs digits rest : List Char} (h : scanDigits cs = .ok (digits, rest)) :
    rest.length < cs.length := by
  have hsplit := congrArg List.length
    (List.takeWhile_append_dropWhile (p := Char.isDigit) (l := cs))
  rw [List.length_append] at hsplit
  unfold scanDigits at h
  dsimp only at h
  split at h
  · contradiction
  · rename_i hne
    simp only [Except.ok.injEq, Prod.mk.injEq] at h
    obtain ⟨rfl, rfl⟩ := h
    have hpos : 0 < (cs.takeWhile Char.isDigit).length := by
      rw [List.length_pos_iff]
      simpa [List.isEmpty_iff] using hne
    omega

theorem length_of_scanWhole {cs digits rest : List Char} (h : scanWhole cs = .ok (digits, rest)) :
    rest.length < cs.length := by
  unfold scanWhole at h
  cases hdigits : scanDigits cs with
  | error f => simp [hdigits, bind, Except.bind] at h
  | ok scanned =>
    obtain ⟨ds, left⟩ := scanned
    simp only [hdigits, bind, Except.bind] at h
    split at h
    · contradiction
    · simp only [Except.ok.injEq, Prod.mk.injEq] at h
      obtain ⟨rfl, rfl⟩ := h
      exact length_of_scanDigits hdigits

theorem length_of_scanFraction {cs digits rest : List Char}
    (h : scanFraction cs = .ok (digits, rest)) : rest.length ≤ cs.length := by
  unfold scanFraction at h
  split at h
  · have := length_of_scanDigits h
    rw [List.length_cons]
    omega
  · simp only [Except.ok.injEq, Prod.mk.injEq] at h
    exact Nat.le_of_eq (congrArg List.length h.2.symm)

theorem length_scanSign (cs : List Char) : (scanSign cs).2.length ≤ cs.length := by
  unfold scanSign
  split <;> simp

theorem length_of_scanExponent {cs rest : List Char} {exponent : Option (Bool × List Char)}
    (h : scanExponent cs = .ok (exponent, rest)) : rest.length ≤ cs.length := by
  unfold scanExponent at h
  split at h
  · simp only [Except.ok.injEq, Prod.mk.injEq] at h
    exact Nat.le_of_eq (congrArg List.length h.2.symm)
  · rename_i c after
    split at h
    · have hsign := length_scanSign after
      cases hdigits : scanDigits (scanSign after).2 with
      | error f => simp [hdigits, bind, Except.bind] at h
      | ok scanned =>
        obtain ⟨ds, left⟩ := scanned
        simp only [hdigits, bind, Except.bind, pure, Except.pure, Except.ok.injEq,
          Prod.mk.injEq] at h
        obtain ⟨-, rfl⟩ := h
        have := length_of_scanDigits hdigits
        rw [List.length_cons]
        omega
    · simp only [Except.ok.injEq, Prod.mk.injEq] at h
      exact Nat.le_of_eq (congrArg List.length h.2.symm)

theorem length_scanMinus (cs : List Char) : (scanMinus cs).2.length ≤ cs.length := by
  unfold scanMinus
  split <;> simp

/-- A numeral takes at least one character. -/
theorem length_of_scan {cs rest : List Char} {n : Numeral} (h : scan cs = .ok (n, rest)) :
    rest.length < cs.length := by
  have hminus := length_scanMinus cs
  unfold scan at h
  cases hwhole : scanWhole (scanMinus cs).2 with
  | error f => simp [hwhole, bind, Except.bind] at h
  | ok scanned =>
    obtain ⟨whole, cs₁⟩ := scanned
    simp only [hwhole, bind, Except.bind] at h
    cases hfraction : scanFraction cs₁ with
    | error f => simp [hfraction] at h
    | ok scanned =>
      obtain ⟨fraction, cs₂⟩ := scanned
      simp only [hfraction] at h
      cases hexponent : scanExponent cs₂ with
      | error f => simp [hexponent] at h
      | ok scanned =>
        obtain ⟨exponent, cs₃⟩ := scanned
        simp only [hexponent, pure, Except.pure, Except.ok.injEq, Prod.mk.injEq] at h
        obtain ⟨-, rfl⟩ := h
        have h₁ := length_of_scanWhole hwhole
        have h₂ := length_of_scanFraction hfraction
        have h₃ := length_of_scanExponent hexponent
        omega

end Numeral

end Listing.Json
