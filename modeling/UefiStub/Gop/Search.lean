import UefiStub.Gop.Screen
import UefiStub.Gop.Masks

/-!
# The bit searches of a build

`pixel_bpp` and `find_bits` on either branch of the bit searches. The branch
for constants of `__fls` counts from bit 63 of a word of 32 bits, so the two
agree in no build that takes it: every width and depth comes out 32 too large.
-/

namespace UefiStub

open Interact

/-- `pixel_bpp`, where `const` is `__builtin_constant_p (mask)`. -/
def pixelBppBranch (const : Bool) (pixelFormat : PixelFormat) (pixelInfo : PixelBitmask) : U8 :=
  if pixelFormat = pixelBitMask then
    let mask := pixelInfo.redMask ||| pixelInfo.greenMask ||| pixelInfo.blueMask |||
      pixelInfo.reservedMask
    if mask = 0 then 0 else (flsBranch const mask - ffsBranch const mask + 1).setWidth 8
  else 32

/-- `find_bits`, where `const` is `__builtin_constant_p (mask)`. -/
def findBitsBranch (const : Bool) (mask : U32) : U8 × U8 :=
  if mask = 0 then (0, 0)
  else
    let position : U8 := (ffsBranch const mask).setWidth 8
    (position, (flsBranch const mask - position.setWidth 32 + 1).setWidth 8)

theorem pixelBppBranch_false : pixelBppBranch false = pixelBpp := rfl

theorem findBitsBranch_false : findBitsBranch false = findBits := rfl

/-- `__ffs` and `__fls` give the lowest and the highest set bit, and neither they nor their callers
depend on the branch taken. -/
structure SearchesAgree (word : U32) : Prop where
  lowest : IsLeast {i | i ∈ bits word} (ffsWord word).toNat
  highest : IsGreatest {i | i ∈ bits word} (flsWord word).toNat
  ffs_const : ffsBranch true word = ffsWord word
  fls_const : flsBranch true word = flsWord word
  findBits_const : findBitsBranch true word = findBits word
  pixelBpp_const : ∀ pixelInfo : PixelBitmask, pixelInfo.union = word →
    pixelBppBranch true pixelBitMask pixelInfo = pixelBpp pixelBitMask pixelInfo

variable {word : U32}

theorem setWidth_span_add (last first : U32) : (last + 32 - first + 1).setWidth 8 =
    (last - first + 1).setWidth 8 + (32 : U8) := by
  apply BitVec.eq_of_toNat_eq
  simp only [BitVec.toNat_setWidth, BitVec.toNat_add, BitVec.toNat_sub,
    show (32 : U32).toNat = 32 from rfl, show (32 : U8).toNat = 32 from rfl,
    show (1 : U32).toNat = 1 from rfl]
  omega

/-- The width that is written down is 32 too large, modulo the width of a byte. -/
theorem findBitsBranch_true (h : word ≠ 0) :
    findBitsBranch true word = ((findBits word).1, (findBits word).2 + 32) := by
  rw [← findBitsBranch_false]
  unfold findBitsBranch
  rw [if_neg h, if_neg h, flsBranch_true]
  exact Prod.ext rfl (setWidth_span_add _ _)

theorem pixelBppBranch_true {pixelInfo : PixelBitmask} (h : pixelInfo.union ≠ 0) :
    pixelBppBranch true pixelBitMask pixelInfo = pixelBpp pixelBitMask pixelInfo + 32 := by
  have hbranch (const : Bool) : pixelBppBranch const pixelBitMask pixelInfo =
      (flsBranch const pixelInfo.union - ffsBranch const pixelInfo.union + 1).setWidth 8 := if_neg h
  rw [← pixelBppBranch_false, hbranch, hbranch, flsBranch_true]
  exact setWidth_span_add _ _

/-- **The bit searches.** At run time they give the lowest and the highest set bit, and the branches
of `__ffs` agree. Those of `__fls` never do: the constant one is 32 more, and with it the width
`find_bits` gives and the depth `pixel_bpp` gives. -/
theorem searches_disagree (h : word ≠ 0) : ¬SearchesAgree word ∧
    IsLeast {i | i ∈ bits word} (ffsWord word).toNat ∧
      IsGreatest {i | i ∈ bits word} (flsWord word).toNat ∧
      ffsBranch true word = ffsWord word ∧ flsBranch true word = flsWord word + 32 ∧
      findBitsBranch true word = ((findBits word).1, (findBits word).2 + 32) ∧
      ∀ pixelInfo : PixelBitmask, pixelInfo.union = word →
        pixelBppBranch true pixelBitMask pixelInfo = pixelBpp pixelBitMask pixelInfo + 32 := by
  refine ⟨fun hs => flsBranch_ne word hs.fls_const, isLeast_ffsWord h, isGreatest_flsWord h, rfl,
    flsBranch_true word, findBitsBranch_true h, fun pixelInfo hunion => ?_⟩
  subst hunion
  exact pixelBppBranch_true h

theorem searches_disagree_byte : ¬SearchesAgree 0xff ∧
    IsLeast {i | i ∈ bits (0xff : U32)} (ffsWord 0xff).toNat ∧
      IsGreatest {i | i ∈ bits (0xff : U32)} (flsWord 0xff).toNat ∧
      ffsBranch true 0xff = ffsWord 0xff ∧ flsBranch true 0xff = flsWord 0xff + 32 ∧
      findBitsBranch true 0xff = ((findBits 0xff).1, (findBits 0xff).2 + 32) ∧
      ∀ pixelInfo : PixelBitmask, pixelInfo.union = 0xff →
        pixelBppBranch true pixelBitMask pixelInfo = pixelBpp pixelBitMask pixelInfo + 32 :=
  searches_disagree (by decide)

/-- The lowest bit alone: its index is 0, and 32 in the constant branch. -/
theorem not_searchesAgree : ¬∀ word : U32, word ≠ 0 → SearchesAgree word := by
  intro h
  exact flsBranch_ne 1 (h 1 (by decide)).fls_const

end UefiStub
