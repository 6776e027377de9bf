import UefiStub.Gop.Basic

/-!
# The description of the frame buffer

`find_bits` recovers position and width of a contiguous mask. The scan line
that `efi_setup_gop` stores is the pixels of a line times the number of mask
bits, in bytes, at 32 bits and then cut to 16.
-/

namespace UefiStub

open Interact

/-- Every mask is a run of ones, if it is not zero. -/
def PixelBitmask.Contiguous (masks : PixelBitmask) : Prop :=
  Interact.Contiguous masks.redMask ∧ Interact.Contiguous masks.greenMask ∧
    Interact.Contiguous masks.blueMask ∧ Interact.Contiguous masks.reservedMask

/-- No two masks share a bit. -/
def PixelBitmask.Disjoint (masks : PixelBitmask) : Prop :=
  masks.redMask &&& masks.greenMask = 0 ∧ masks.redMask &&& masks.blueMask = 0 ∧
    masks.redMask &&& masks.reservedMask = 0 ∧ masks.greenMask &&& masks.blueMask = 0 ∧
    masks.greenMask &&& masks.reservedMask = 0 ∧ masks.blueMask &&& masks.reservedMask = 0

/-- The bits of a pixel: the mask bits, or 32. -/
def ModeInfo.pixelBits (info : ModeInfo) : Nat :=
  if info.pixelFormat = pixelBitMask then
    info.pixelInformation.redMask.cpop.toNat + info.pixelInformation.greenMask.cpop.toNat +
      info.pixelInformation.blueMask.cpop.toNat + info.pixelInformation.reservedMask.cpop.toNat
  else 32

/-- The bytes of a scan line, at 32 bits and then cut to 16. -/
def ModeInfo.scanLine (info : ModeInfo) : Nat :=
  info.pixelsPerScanLine.toNat * info.pixelBits % 2 ^ 32 / 8 % 2 ^ 16

/-- The bits of a pixel as `find_bits` measures them: the windows of the masks, or 32. -/
def ModeInfo.depth (info : ModeInfo) : Nat :=
  if info.pixelFormat = pixelBitMask then
    span info.pixelInformation.redMask + span info.pixelInformation.greenMask +
      span info.pixelInformation.blueMask + span info.pixelInformation.reservedMask
  else 32

theorem findBits_zero : findBits 0 = (0, 0) := rfl

/-- The lowest one and the width of the window. -/
theorem findBits_window {mask : U32} (h : mask ≠ 0) :
    (findBits mask).1.toNat = (ffsWord mask).toNat ∧ (findBits mask).2.toNat = span mask := by
  obtain ⟨hspan, hlt⟩ := ffsWord_add_span h
  have hpos : ((ffsWord mask).setWidth 8).toNat = (ffsWord mask).toNat := by
    rw [BitVec.toNat_setWidth]
    omega
  unfold findBits
  rw [if_neg h]
  refine ⟨hpos, ?_⟩
  simp only [BitVec.toNat_setWidth, BitVec.toNat_add, BitVec.toNat_sub,
    show (1 : U32).toNat = 1 from rfl]
  omega

theorem findBits_size (mask : U32) : (findBits mask).2.toNat = span mask ∧ span mask ≤ 32 := by
  refine ⟨?_, Nat.le_trans (Nat.sub_le ..) (Nat.sub_le ..)⟩
  by_cases h : mask = 0
  · rw [h, findBits_zero]
    exact span_zero.symm
  · exact (findBits_window h).2

/-- The depth that is stored for four masks. -/
theorem toNat_depth (a b c d : U32) :
    ((findBits a).2.setWidth 16 + (findBits b).2.setWidth 16 + (findBits c).2.setWidth 16 +
      (findBits d).2.setWidth 16 : U16).toNat = span a + span b + span c + span d := by
  obtain ⟨ha, ha32⟩ := findBits_size a
  obtain ⟨hb, hb32⟩ := findBits_size b
  obtain ⟨hc, hc32⟩ := findBits_size c
  obtain ⟨hd, hd32⟩ := findBits_size d
  simp only [BitVec.toNat_add, BitVec.toNat_setWidth, ha, hb, hc, hd]
  omega

theorem toNat_lfbDepth (info : ModeInfo) (si : ScreenInfo) :
    (storeLayout info si).lfbDepth.toNat = info.depth := by
  unfold storeLayout ModeInfo.depth
  split
  · exact toNat_depth ..
  · rfl

theorem toNat_lfbLinelength (info : ModeInfo) (si : ScreenInfo) :
    (storeLayout info si).lfbLinelength.toNat =
      info.pixelsPerScanLine.toNat * info.depth % 2 ^ 32 / 8 % 2 ^ 16 := by
  have hdepth := toNat_lfbDepth info si
  unfold storeLayout at hdepth ⊢
  split
  · rename_i hpf
    rw [if_pos hpf] at hdepth
    dsimp only at hdepth ⊢
    rw [BitVec.toNat_setWidth, BitVec.toNat_udiv, BitVec.toNat_mul, BitVec.toNat_setWidth, hdepth,
      Nat.mod_eq_of_lt (a := info.depth) (by rw [← hdepth]; omega)]
    rfl
  · rename_i hpf
    unfold ModeInfo.depth
    rw [if_neg hpf]
    simp only [BitVec.toNat_setWidth, BitVec.toNat_mul, show (4 : U32).toNat = 4 from rfl]
    omega

/-- The windows of contiguous masks have no other bits. -/
theorem depth_eq_pixelBits {info : ModeInfo}
    (hmasks : info.pixelFormat = pixelBitMask → info.pixelInformation.Contiguous) :
    info.depth = info.pixelBits := by
  unfold ModeInfo.depth ModeInfo.pixelBits
  split
  · rename_i hpf
    obtain ⟨hr, hg, hb, hv⟩ := hmasks hpf
    rw [(cpop_eq_span_iff _).mpr hr, (cpop_eq_span_iff _).mpr hg, (cpop_eq_span_iff _).mpr hb,
      (cpop_eq_span_iff _).mpr hv]
  · rfl

theorem storeLayout_frame (info : ModeInfo) (si : ScreenInfo) :
    (storeLayout info si).lfbBase = si.lfbBase ∧ (storeLayout info si).lfbWidth = si.lfbWidth ∧
      (storeLayout info si).lfbHeight = si.lfbHeight := by
  unfold storeLayout
  split <;> exact ⟨rfl, rfl, rfl⟩

/-- What `efi_setup_gop` stores where the loop looks. -/
theorem storeScreenInfo_spec {mode : GopMode} {si si' : ScreenInfo}
    (h : storeScreenInfo mode si = some si') :
    si'.lfbBase = mode.frameBufferBase ∧
      si'.lfbWidth = mode.info.horizontalResolution.setWidth 16 ∧
      si'.lfbHeight = mode.info.verticalResolution.setWidth 16 ∧
      si'.lfbLinelength.toNat =
        mode.info.pixelsPerScanLine.toNat * mode.info.depth % 2 ^ 32 / 8 % 2 ^ 16 ∧
      mulInt si'.lfbLinelength si'.lfbHeight = some si'.lfbSize := by
  simp only [storeScreenInfo, Option.bind_eq_bind, Option.bind_eq_some_iff] at h
  obtain ⟨lfbSize, hsize, h⟩ := h
  cases h
  obtain ⟨hbase, hwidth, hheight⟩ := storeLayout_frame mode.info { si with
    lfbBase := mode.frameBufferBase
    lfbWidth := mode.info.horizontalResolution.setWidth 16
    lfbHeight := mode.info.verticalResolution.setWidth 16 }
  exact ⟨hbase, hwidth, hheight, toNat_lfbLinelength _ _, hsize⟩

end UefiStub
