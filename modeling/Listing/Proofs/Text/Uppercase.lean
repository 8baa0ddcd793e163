import Listing.Text.Uppercase
import Mathlib.Data.List.Basic

/-!
# Upper-cased texts have no small letters

A comparison that does not distinguish `a` from `A` treats two characters alike if `Char.toUpper`
does, and that function changes the small letters of ASCII only (`Text.toUpper_eq_self`). An
upper-cased text holds none of them (`Text.toUpper_of_mem_uppercase`): not the capital letters, and
not the forms of the tables either, which is checked entry by entry. On upper-cased texts such a
comparison therefore sees every difference.
-/

set_option autoImplicit false
set_option relaxedAutoImplicit false

namespace Listing.Text

/-- The code point is not one of a small letter of ASCII. -/
def AwayFromSmall (n : Nat) : Prop := n < 0x61 ∨ 0x7A < n

instance (n : Nat) : Decidable (AwayFromSmall n) := inferInstanceAs (Decidable (_ ∨ _))

/-- Characters other than the small letters of ASCII are their own capital letters. -/
theorem toUpper_eq_self {c : Char} (h : AwayFromSmall c.toNat) : c.toUpper = c := by
  have hrange : ¬('a'.val ≤ c.val ∧ c.val ≤ 'z'.val) := by
    rintro ⟨hfirst, hlast⟩
    have hfirst : 0x61 ≤ c.toNat := hfirst
    have hlast : c.toNat ≤ 0x7A := hlast
    unfold AwayFromSmall at h
    omega
  exact dif_neg hrange

/-- The capital of a small letter of ASCII is 32 places before it. -/
theorem toNat_toUpper (c : Char) :
    c.toUpper.toNat = if 0x61 ≤ c.toNat ∧ c.toNat ≤ 0x7A then c.toNat - 32 else c.toNat := by
  unfold Char.toUpper
  split
  · rename_i hsmall
    have hfirst : 0x61 ≤ c.val.toNat := hsmall.1
    have hlast : c.val.toNat ≤ 0x7A := hsmall.2
    have hshift : ('A'.val - 'a'.val).toNat = 4294967264 := by decide
    refine Eq.trans ?_ (if_pos hsmall).symm
    change (c.val + ('A'.val - 'a'.val)).toNat = c.val.toNat - 32
    rw [UInt32.toNat_add, hshift]
    omega
  · rename_i hother
    exact (if_neg hother).symm

/-- The small letter of a capital of ASCII is 32 places after it. -/
theorem toNat_toLower (c : Char) :
    c.toLower.toNat = if 0x41 ≤ c.toNat ∧ c.toNat ≤ 0x5A then c.toNat + 32 else c.toNat := by
  unfold Char.toLower
  split
  · rename_i hcapital
    have hlast : c.val.toNat ≤ 0x5A := hcapital.2
    have hshift : ('a'.val - 'A'.val).toNat = 32 := by decide
    refine Eq.trans ?_ (if_pos hcapital).symm
    change (c.val + ('a'.val - 'A'.val)).toNat = c.val.toNat + 32
    rw [UInt32.toNat_add, hshift]
    omega
  · rename_i hother
    exact (if_neg hother).symm

/-- Assumes: a capital letter of ASCII. It is the capital of itself and of its small letter. -/
theorem toUpper_eq_iff {c letter : Char} (hletter : 0x41 ≤ letter.toNat ∧ letter.toNat ≤ 0x5A) :
    c.toUpper = letter ↔ c = letter ∨ c = letter.toLower := by
  rw [← Char.toNat_inj, ← Char.toNat_inj, ← Char.toNat_inj, toNat_toUpper, toNat_toLower,
    if_pos hletter]
  split <;> omega

/-- A capital letter is not a small one. -/
theorem awayFromSmall_toUpper (c : Char) : AwayFromSmall c.toUpper.toNat := by
  rw [toNat_toUpper]
  unfold AwayFromSmall
  split <;> omega

/-- A number that is no code point stands for the character with number zero. -/
theorem awayFromSmall_ofNat {n : Nat} (h : AwayFromSmall n) :
    AwayFromSmall (Char.ofNat n).toNat := by
  by_cases hvalid : n.isValidChar
  · rw [Char.ofNat, dif_pos hvalid]
    exact h
  · rw [Char.ofNat, dif_neg hvalid]
    exact .inl (by decide)

/-- No run of the table sends a character to a small letter of ASCII. -/
theorem awayFromSmall_of_mem_runs :
    ∀ run ∈ Uppercase.runs, run.image + (run.last - run.first) < 0x61 ∨ 0x7A < run.image := by
  decide +kernel

/-- No form of the table holds a small letter of ASCII. -/
theorem awayFromSmall_of_mem_expansions :
    ∀ expansion ∈ Uppercase.expansions, ∀ n ∈ expansion.2, AwayFromSmall n := by
  decide +kernel

/-- The upper-case form of a character holds no small letter of ASCII. -/
theorem awayFromSmall_of_mem_uppercaseChar {c d : Char} (h : d ∈ uppercaseChar c) :
    AwayFromSmall d.toNat := by
  unfold uppercaseChar at h
  dsimp only at h
  split at h
  · rw [List.mem_singleton.mp h]
    exact awayFromSmall_toUpper c
  · rename_i hbeyond
    split at h
    · rename_i run hrun
      have hcovers := List.find?_some hrun
      have himage := awayFromSmall_of_mem_runs run (List.mem_of_find?_eq_some hrun)
      rw [List.mem_singleton.mp h]
      refine awayFromSmall_ofNat ?_
      simp only [Uppercase.Run.covers, Bool.and_eq_true, decide_eq_true_eq] at hcovers
      unfold Uppercase.Run.apply AwayFromSmall
      omega
    · split at h
      · rename_i first rest hexpansion
        have hforms := awayFromSmall_of_mem_expansions _ (List.mem_of_find?_eq_some hexpansion)
        rcases List.mem_cons.mp h with rfl | hrest
        · exact awayFromSmall_ofNat (hforms first List.mem_cons_self)
        · obtain ⟨n, hn, rfl⟩ := List.mem_map.mp hrest
          exact awayFromSmall_ofNat (hforms n (List.mem_cons_of_mem first hn))
      · rw [List.mem_singleton.mp h]
        unfold AwayFromSmall
        omega

/-- The characters of an upper-cased text are their own capital letters. -/
theorem toUpper_of_mem_uppercase {s : String} {d : Char} (h : d ∈ (uppercase s).toList) :
    d.toUpper = d := by
  rw [uppercase, String.toList_ofList] at h
  obtain ⟨c, -, hd⟩ := List.mem_flatMap.mp h
  exact toUpper_eq_self (awayFromSmall_of_mem_uppercaseChar hd)

end Listing.Text
