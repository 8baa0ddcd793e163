/-!
# Counts

Page numbers, page sizes and totals are 64-bit words. Sums and products of counts do not wrap: one
that is too large becomes the largest count. `toNat_clamp`, `toNat_plus` and `toNat_times` say so
in exact numbers, and `toNat_ceilDiv` that the rounded-up quotient never leaves the range.
-/

set_option autoImplicit false
set_option relaxedAutoImplicit false

namespace Listing

/-- A 64-bit count. -/
abbrev Count := UInt64

namespace Count

/-- The largest count, as a number. -/
def largest : Nat := UInt64.size - 1

/-- The count nearest to a number from below: the number itself if it is in range. -/
def clamp (n : Nat) : Count := UInt64.ofNat (min n largest)

/-- The sum of two counts, or the largest count. -/
def plus (a b : Count) : Count := clamp (a.toNat + b.toNat)

/-- The product of two counts, or the largest count. -/
def times (a b : Count) : Count := clamp (a.toNat * b.toNat)

/-- The quotient of two counts, rounded up. -/
def ceilDiv (a b : Count) : Count := if a % b = 0 then a / b else a / b + 1

/-! ### Laws -/

@[simp]
theorem toNat_clamp (n : Nat) : (clamp n).toNat = min n largest := by
  have h : min n largest < 2 ^ 64 := by unfold largest UInt64.size; omega
  rw [clamp, UInt64.toNat_ofNat', Nat.mod_eq_of_lt h]

@[simp]
theorem toNat_plus (a b : Count) : (plus a b).toNat = min (a.toNat + b.toNat) largest :=
  toNat_clamp _

@[simp]
theorem toNat_times (a b : Count) : (times a b).toNat = min (a.toNat * b.toNat) largest :=
  toNat_clamp _

/-- A count is at most the largest count. -/
theorem toNat_le_largest (a : Count) : a.toNat ≤ largest := by
  have h := a.toNat_lt
  unfold largest UInt64.size
  omega

/-- Zero is the count of the number zero. -/
theorem eq_zero_iff (a : Count) : a = 0 ↔ a.toNat = 0 := by
  rw [← UInt64.toNat_inj, UInt64.toNat_zero]

/-- A quotient that leaves a remainder is less than the largest count. -/
theorem div_lt_largest {a b : Count} (h : a.toNat % b.toNat ≠ 0) : a.toNat / b.toNat < largest := by
  have hle := toNat_le_largest a
  have hpos : 0 < largest := by decide
  rcases Nat.lt_or_ge 1 b.toNat with hone | hone
  · rcases Nat.eq_zero_or_pos a.toNat with hzero | ha
    · rwa [hzero, Nat.zero_div]
    · exact Nat.lt_of_lt_of_le (Nat.div_lt_self ha hone) hle
  · rcases Nat.le_one_iff_eq_zero_or_eq_one.mp hone with hb | hb
    · rwa [hb, Nat.div_zero]
    · rw [hb, Nat.mod_one] at h
      exact absurd rfl h

/-- Rounding up adds one exactly when there is a remainder, and stays in range. -/
theorem toNat_ceilDiv (a b : Count) (hb : 0 < b.toNat) :
    (ceilDiv a b).toNat = (a.toNat + b.toNat - 1) / b.toNat := by
  have hmod : a % b = 0 ↔ a.toNat % b.toNat = 0 := by
    rw [eq_zero_iff, UInt64.toNat_mod]
  have hexact := Nat.div_add_mod a.toNat b.toNat
  have hrem := Nat.mod_lt a.toNat hb
  unfold ceilDiv
  split
  · rename_i h
    rw [hmod] at h
    rw [UInt64.toNat_div]
    refine (Nat.div_eq_of_lt_le ?_ ?_).symm
    · rw [Nat.mul_comm]; omega
    · rw [Nat.add_mul, Nat.mul_comm]; omega
  · rename_i h
    rw [hmod] at h
    have hquot : a.toNat / b.toNat + 1 < 2 ^ 64 := by
      have hquotient := div_lt_largest h
      unfold largest UInt64.size at hquotient
      omega
    have hsum : (a / b + 1).toNat = a.toNat / b.toNat + 1 := by
      rw [UInt64.toNat_add, UInt64.toNat_div]
      exact Nat.mod_eq_of_lt hquot
    rw [hsum]
    refine (Nat.div_eq_of_lt_le ?_ ?_).symm
    · rw [Nat.add_mul, Nat.mul_comm]; omega
    · rw [Nat.add_mul, Nat.add_mul, Nat.mul_comm]; omega

end Count

end Listing
