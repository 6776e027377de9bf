import UefiStub.Efi
import UefiStub.Lib.Bits

/-!
# `include/align.h`

The alignment macros on 64-bit operands, with an `unsigned long` alignment,
which has 32 bits here. `ALIGN_DOWN` is `ALIGN` of a smaller operand; the two
wraps near zero cancel (`alignDown_eq`).
-/

namespace UefiStub.Align

open Interact

def alignMask (x mask : U64) : U64 := (x + mask) &&& ~~~mask

def align (x : U64) (alignment : U32) : U64 := alignMask x (alignment.setWidth 64 - 1)

def alignDown (x : U64) (alignment : U32) : U64 := align (x - (alignment - 1).setWidth 64) alignment

def aligned (x : U64) (alignment : U32) : Bool := (x &&& (alignment.setWidth 64 - 1)) == 0

def alignDiv (x : U64) (alignment : U32) : U64 :=
  (x + alignment.setWidth 64 - 1) / alignment.setWidth 64

variable {k : Nat}

theorem toNat_pow (hk : k < 32) : ((BitVec.ofNat 32 (2 ^ k)).setWidth 64).toNat = 2 ^ k := by
  have hlt : 2 ^ k < 2 ^ 32 := Nat.pow_lt_pow_right (by decide) hk
  rw [BitVec.toNat_setWidth_of_le (by decide), toNat_ofNat_lt hlt]

/-- The mask of an alignment, computed at either width. -/
theorem low_eq (hk : k < 32) :
    (BitVec.ofNat 32 (2 ^ k) - 1).setWidth 64 = (BitVec.ofNat 64 (2 ^ k - 1) : U64) ∧
      (BitVec.ofNat 32 (2 ^ k)).setWidth 64 - 1 = (BitVec.ofNat 64 (2 ^ k - 1) : U64) := by
  have hlt : 2 ^ k < 2 ^ 32 := Nat.pow_lt_pow_right (by decide) hk
  have hpos := Nat.two_pow_pos k
  constructor
  · apply BitVec.eq_of_toNat_eq
    rw [BitVec.toNat_setWidth_of_le (by decide), BitVec.toNat_sub, BitVec.toNat_ofNat,
      BitVec.toNat_ofNat]
    change (2 ^ 32 - 1 + 2 ^ k % 2 ^ 32) % 2 ^ 32 = _
    omega
  · apply BitVec.eq_of_toNat_eq
    rw [BitVec.toNat_sub, toNat_pow hk, BitVec.toNat_ofNat]
    change (2 ^ 64 - 1 + 2 ^ k) % 2 ^ 64 = _
    omega

theorem alignDown_eq (hk : k < 32) (x : U64) :
    alignDown x (BitVec.ofNat 32 (2 ^ k)) = x &&& Interact.alignMask 64 k := by
  obtain ⟨h1, h2⟩ := low_eq hk
  have hmask : ~~~(BitVec.ofNat 64 (2 ^ k - 1) : U64) = Interact.alignMask 64 k := by
    rw [← not_alignMask (by omega), BitVec.not_not]
  unfold alignDown align alignMask
  rw [h1, h2, BitVec.sub_add_cancel, hmask]

theorem toNat_alignDown (hk : k < 32) (x : U64) :
    (alignDown x (BitVec.ofNat 32 (2 ^ k))).toNat = x.toNat / 2 ^ k * 2 ^ k := by
  rw [alignDown_eq hk, toNat_and_alignMask (by omega)]

theorem toNat_alignDiv (hk : k < 32) (x : U64) :
    (alignDiv x (BitVec.ofNat 32 (2 ^ k))).toNat = (x.toNat + (2 ^ k - 1)) % 2 ^ 64 / 2 ^ k := by
  have hpos := Nat.two_pow_pos k
  obtain ⟨-, h⟩ := low_eq hk
  unfold alignDiv
  rw [BitVec.toNat_udiv, toNat_pow hk, BitVec.sub_eq_add_neg, BitVec.add_assoc,
    ← BitVec.sub_eq_add_neg, h, BitVec.toNat_add, BitVec.toNat_ofNat]
  have hlt : 2 ^ k < 2 ^ 32 := Nat.pow_lt_pow_right (by decide) hk
  rw [Nat.mod_eq_of_lt (show 2 ^ k - 1 < 2 ^ 64 by omega)]

/-- Rounding up, modulo the width of the operand. -/
theorem toNat_align (hk : k < 32) (x : U64) : (align x (BitVec.ofNat 32 (2 ^ k))).toNat =
    (x.toNat + (2 ^ k - 1)) % 2 ^ 64 / 2 ^ k * 2 ^ k := by
  have hlt : 2 ^ k < 2 ^ 32 := Nat.pow_lt_pow_right (by decide) hk
  obtain ⟨-, h⟩ := low_eq hk
  unfold align alignMask
  rw [h, ← not_alignMask (by omega), BitVec.not_not, toNat_and_alignMask (by omega),
    not_alignMask (by omega), BitVec.toNat_add, BitVec.toNat_ofNat,
    Nat.mod_eq_of_lt (show 2 ^ k - 1 < 2 ^ 64 by omega)]

/-- The number of units is the aligned size over the unit, where rounding up wraps too. -/
theorem alignDiv_eq (hk : k < 32) (x : U64) : alignDiv x (BitVec.ofNat 32 (2 ^ k)) =
    align x (BitVec.ofNat 32 (2 ^ k)) / (BitVec.ofNat 32 (2 ^ k)).setWidth 64 := by
  apply BitVec.eq_of_toNat_eq
  rw [toNat_alignDiv hk, BitVec.toNat_udiv, toNat_align hk, toNat_pow hk,
    Nat.mul_div_cancel _ (Nat.two_pow_pos k)]

theorem aligned_iff (hk : k < 32) (x : U64) :
    aligned x (BitVec.ofNat 32 (2 ^ k)) = true ↔ 2 ^ k ∣ x.toNat := by
  have hlt : 2 ^ k < 2 ^ 32 := Nat.pow_lt_pow_right (by decide) hk
  obtain ⟨-, h⟩ := low_eq hk
  unfold aligned
  rw [h, beq_iff_eq, ← BitVec.toNat_inj, BitVec.toNat_and, BitVec.toNat_ofNat,
    Nat.mod_eq_of_lt (show 2 ^ k - 1 < 2 ^ 64 by omega), Nat.and_two_pow_sub_one_eq_mod,
    Nat.dvd_iff_mod_eq_zero]
  exact Iff.rfl

/-- An alignment is one of these. -/
theorem exists_pow {alignment : U32} (h : alignment.toNat.isPowerOfTwo) :
    ∃ k < 32, alignment = BitVec.ofNat 32 (2 ^ k) ∧ alignment.toNat = 2 ^ k := by
  obtain ⟨k, hk⟩ := h
  have hlt : 2 ^ k < 2 ^ 32 := hk ▸ alignment.isLt
  refine ⟨k, (Nat.pow_lt_pow_iff_right (by decide)).mp hlt, BitVec.eq_of_toNat_eq ?_, hk⟩
  rw [hk, toNat_ofNat_lt hlt]

/-- **The alignment macros**, for every operand and every power of two as the alignment. -/
theorem align_spec (x : U64) {alignment : U32} (h : alignment.toNat.isPowerOfTwo) :
    IsGreatest {m | alignment.toNat ∣ m ∧ m ≤ x.toNat} (alignDown x alignment).toNat ∧
      (aligned x alignment = true ↔ alignment.toNat ∣ x.toNat) ∧
      (x.toNat ≤ 2 ^ 64 - alignment.toNat →
        IsLeast {m | alignment.toNat ∣ m ∧ x.toNat ≤ m} (align x alignment).toNat ∧
          alignDiv x alignment = align x alignment / alignment.setWidth 64) := by
  obtain ⟨k, hk, rfl, hpow⟩ := exists_pow h
  have hpos := Nat.two_pow_pos k
  rw [hpow]
  refine ⟨?_, aligned_iff hk x, fun hle => ⟨?_, alignDiv_eq hk x⟩⟩
  · rw [toNat_alignDown hk]
    exact isGreatest_multiple hpos _
  · rw [toNat_align hk, Nat.mod_eq_of_lt (by omega)]
    exact isLeast_multiple hpos _

/-- Byte 8191 and pages of 4096 bytes. -/
theorem align_spec_page :
    IsGreatest {m | (4096 : U32).toNat ∣ m ∧ m ≤ (8191 : U64).toNat} (alignDown 8191 4096).toNat ∧
      (aligned 8191 4096 = true ↔ (4096 : U32).toNat ∣ (8191 : U64).toNat) ∧
      IsLeast {m | (4096 : U32).toNat ∣ m ∧ (8191 : U64).toNat ≤ m} (align 8191 4096).toNat ∧
      alignDiv 8191 4096 = align 8191 4096 / (4096 : U32).setWidth 64 :=
  have h := @align_spec 8191 4096 ⟨12, rfl⟩
  ⟨h.1, h.2.1, h.2.2 (by decide)⟩

end UefiStub.Align
