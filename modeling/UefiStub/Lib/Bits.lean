import UefiStub.Lib.RegFile
import Mathlib.Order.Bounds.Defs

/-!
# Aligned windows and flag bits

A register that describes a window holds its base address, aligned to the
window's size, and flags in the low bits the alignment frees. `alignMask w k`
is the mask of the address bits of a window of size `2 ^ k`. Writing all ones
to such a register reads back as that mask with the flags (`merge_flags`), and
the complement of the mask is the size less one (`not_alignMask`).
-/

namespace Interact

theorem toNat_ofNat_lt {w n : Nat} (h : n < 2 ^ w) : (BitVec.ofNat w n).toNat = n := by
  rw [BitVec.toNat_ofNat, Nat.mod_eq_of_lt h]

theorem toNat_sub_ofNat {w n : Nat} {x : BitVec w} (h : n ≤ x.toNat) :
    (x - BitVec.ofNat w n).toNat = x.toNat - n := by
  have hn : (BitVec.ofNat w n).toNat = n := toNat_ofNat_lt (Nat.lt_of_le_of_lt h x.isLt)
  rw [BitVec.toNat_sub_of_le (by rw [BitVec.le_def, hn]; exact h), hn]

/-- The bits from `k` on. -/
def alignMask (w k : Nat) : BitVec w := BitVec.ofNat w (2 ^ w - 2 ^ k)

section Flags

variable {w : Nat} {x m c d low : BitVec w}

theorem and_not_of_and_eq_zero (h : x &&& d = 0#w) : x &&& ~~~d = x := by
  have hself := merge_self d x
  rwa [merge, h, BitVec.or_zero] at hself

theorem and_eq_zero_of_low (hx : x &&& low = 0#w) (hd : d &&& low = d) : x &&& d = 0#w := by
  rw [← hd, BitVec.and_comm d, ← BitVec.and_assoc, hx, BitVec.zero_and]

/-- A flag of an address with flags. -/
theorem or_and_flag (hx : x &&& low = 0#w) (hd : d &&& low = d) : (x ||| c) &&& d = c &&& d := by
  rw [BitVec.and_or_distrib_right, and_eq_zero_of_low hx hd, BitVec.zero_or]

/-- The address of an address with flags. -/
theorem or_and_not_low (hx : x &&& low = 0#w) (hc : c &&& low = c) : (x ||| c) &&& ~~~low = x := by
  have hc0 : c &&& ~~~low = 0#w := by
    rw [← hc, BitVec.and_assoc, BitVec.and_not_self]
    exact BitVec.and_zero
  rw [BitVec.and_or_distrib_right, and_not_of_and_eq_zero hx, hc0, BitVec.or_zero]

/-- The flags read back, and all address bits as ones. -/
theorem merge_flags (hx : x &&& ~~~m = 0#w) (hc : c &&& m = 0#w) :
    merge m (x ||| c) (~~~0#w) = m ||| c := by
  rw [merge, BitVec.and_or_distrib_right, hx, and_not_of_and_eq_zero hc, BitVec.zero_or,
    BitVec.not_zero, BitVec.allOnes_and, BitVec.or_comm]

end Flags

section Align

variable {w k n : Nat} {x : BitVec w}

theorem toNat_alignMask (hk : k ≤ w) : (alignMask w k).toNat = 2 ^ w - 2 ^ k := by
  have := Nat.pow_le_pow_right (show 0 < 2 by decide) hk
  have := Nat.two_pow_pos k
  rw [alignMask, toNat_ofNat_lt (by omega)]

theorem dvd_alignMask (hk : k ≤ w) : 2 ^ k ∣ (alignMask w k).toNat := by
  rw [toNat_alignMask hk]
  exact Nat.dvd_sub (Nat.pow_dvd_pow 2 hk) (Nat.dvd_refl _)

theorem not_alignMask (hk : k ≤ w) : ~~~alignMask w k = BitVec.ofNat w (2 ^ k - 1) := by
  have hle := Nat.pow_le_pow_right (show 0 < 2 by decide) hk
  have hpos := Nat.two_pow_pos k
  apply BitVec.eq_of_toNat_eq
  rw [BitVec.toNat_not, toNat_alignMask hk, toNat_ofNat_lt (by omega)]
  omega

/-- A multiple of `2 ^ k` has none of the bits below `n ≤ k`. -/
theorem and_low_of_dvd (h : 2 ^ k ∣ x.toNat) (hn : n ≤ k) :
    x &&& BitVec.ofNat w (2 ^ n - 1) = 0#w := by
  have hd := Nat.dvd_trans (Nat.pow_dvd_pow 2 hn) h
  apply BitVec.eq_of_toNat_eq
  rw [BitVec.toNat_and, BitVec.toNat_ofNat, BitVec.toNat_ofNat, Nat.zero_mod]
  by_cases hw : n ≤ w
  · have hle := Nat.pow_le_pow_right (show 0 < 2 by decide) hw
    have hpos := Nat.two_pow_pos n
    rw [Nat.mod_eq_of_lt (by omega), Nat.and_two_pow_sub_one_eq_mod]
    exact Nat.mod_eq_zero_of_dvd hd
  · have hlt := Nat.lt_of_lt_of_le x.isLt (Nat.pow_le_pow_right (show 0 < 2 by decide)
      (Nat.le_of_not_le hw))
    rw [Nat.eq_zero_of_dvd_of_lt hd hlt, Nat.zero_and]

theorem and_not_alignMask (hk : k ≤ w) (h : 2 ^ k ∣ x.toNat) : x &&& ~~~alignMask w k = 0#w := by
  rw [not_alignMask hk, and_low_of_dvd h (Nat.le_refl k)]

/-- Cutting a value down to a multiple of `2 ^ k`. -/
theorem toNat_and_alignMask (hk : k ≤ w) :
    (x &&& alignMask w k).toNat = x.toNat / 2 ^ k * 2 ^ k := by
  have hshift : x &&& alignMask w k = (x >>> k) <<< k := by
    refine BitVec.eq_of_getLsbD_eq fun i hi => ?_
    rw [← BitVec.not_not (b := alignMask w k), not_alignMask hk]
    simp only [BitVec.getLsbD_and, BitVec.getLsbD_not, BitVec.getLsbD_ofNat,
      BitVec.getLsbD_shiftLeft, BitVec.getLsbD_ushiftRight, Nat.testBit_two_pow_sub_one, hi,
      decide_true, Bool.true_and]
    by_cases h : i < k
    · simp [h]
    · simp [h, Nat.add_sub_cancel' (Nat.le_of_not_lt h)]
  have hlt := Nat.lt_of_le_of_lt (Nat.div_mul_le_self x.toNat (2 ^ k)) x.isLt
  rw [hshift, BitVec.toNat_shiftLeft, BitVec.toNat_ushiftRight, Nat.shiftRight_eq_div_pow,
    Nat.shiftLeft_eq, Nat.mod_eq_of_lt hlt]

theorem not_alignMask_add_one (hk : k < w) :
    ~~~alignMask w k + 1 = BitVec.ofNat w (2 ^ k) := by
  have hpos := Nat.two_pow_pos k
  rw [not_alignMask (Nat.le_of_lt hk), show (1 : BitVec w) = BitVec.ofNat w 1 from rfl,
    ← BitVec.ofNat_add, Nat.sub_add_cancel hpos]

end Align

/-! ## Multiples -/

section Multiples

variable {a : Nat} (ha : 0 < a) (x : Nat)

include ha

theorem isGreatest_multiple : IsGreatest {m | a ∣ m ∧ m ≤ x} (x / a * a) := by
  refine ⟨⟨Nat.dvd_mul_left a _, Nat.div_mul_le_self x a⟩, ?_⟩
  rintro m ⟨⟨c, rfl⟩, hle⟩
  rw [Nat.mul_comm]
  exact Nat.mul_le_mul_right a ((Nat.le_div_iff_mul_le ha).mpr (by rwa [Nat.mul_comm]))

theorem isLeast_multiple : IsLeast {m | a ∣ m ∧ x ≤ m} ((x + (a - 1)) / a * a) := by
  refine ⟨⟨Nat.dvd_mul_left a _, ?_⟩, ?_⟩
  · have hdiv := Nat.div_add_mod' (x + (a - 1)) a
    have hmod := Nat.mod_lt (x + (a - 1)) ha
    omega
  · rintro m ⟨⟨c, rfl⟩, hle⟩
    rw [Nat.mul_comm a c]
    refine Nat.mul_le_mul_right a (Nat.le_of_lt_succ ((Nat.div_lt_iff_lt_mul ha).mpr ?_))
    rw [Nat.succ_mul, Nat.mul_comm c a]
    omega

end Multiples

/-! ## Halves -/

/-- The upper half of a 64-bit value. -/
def upperHalf (x : BitVec 64) : BitVec 32 := (x >>> 32).setWidth 32

theorem join_halves (x : BitVec 64) :
    (x.setWidth 32).setWidth 64 ||| (upperHalf x).setWidth 64 <<< 32 = x := by
  refine BitVec.eq_of_getLsbD_eq fun i hi => ?_
  simp only [upperHalf, BitVec.getLsbD_or, BitVec.getLsbD_setWidth, BitVec.getLsbD_shiftLeft,
    BitVec.getLsbD_ushiftRight, hi, decide_true, Bool.true_and]
  by_cases h : i < 32
  · simp [h]
  · simp [h, show i - 32 < 64 by omega, show i - 32 < 32 by omega,
      Nat.add_sub_cancel' (Nat.le_of_not_lt h)]

theorem upperHalf_and (x y : BitVec 64) : upperHalf (x &&& y) = upperHalf x &&& upperHalf y := by
  rw [upperHalf, BitVec.ushiftRight_and_distrib, BitVec.setWidth_and]; rfl

theorem upperHalf_not (x : BitVec 64) : upperHalf (~~~x) = ~~~upperHalf x := by
  refine BitVec.eq_of_getLsbD_eq fun i hi => ?_
  simp [upperHalf, hi, show 32 + i < 64 by omega]

end Interact
