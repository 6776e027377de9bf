import UefiStub.Gop.Fill

/-!
# The masks and their description

Position and width of a run of ones give it back, so that the description of a
mode with contiguous masks says what its masks are. Modes are ranked by the
span of all masks together (`pixel_bpp`), and the scan line is computed from
the sum of the widths (`lfb_depth`). For disjoint masks the sum is the number
of ones of the union, which is at most its span.
-/

namespace UefiStub

open Interact

def PixelBitmask.union (masks : PixelBitmask) : U32 :=
  masks.redMask ||| masks.greenMask ||| masks.blueMask ||| masks.reservedMask

/-- The mask with ones at `size` positions from `pos` on. -/
def channelMask (pos size : U8) : Nat := (2 ^ size.toNat - 1) <<< pos.toNat

/-- What the description says of the masks. -/
structure RecordsMasks (masks : PixelBitmask) (si : ScreenInfo) : Prop where
  red : channelMask si.redPos si.redSize = masks.redMask.toNat
  green : channelMask si.greenPos si.greenSize = masks.greenMask.toNat
  blue : channelMask si.bluePos si.blueSize = masks.blueMask.toNat
  reserved : channelMask si.reservedPos si.reservedSize = masks.reservedMask.toNat
  depth_le : si.lfbDepth.toNat ≤ (pixelBpp pixelBitMask masks).toNat
  depth_eq_iff : si.lfbDepth.toNat = (pixelBpp pixelBitMask masks).toNat ↔ Contiguous masks.union

theorem channelMask_findBits {mask : U32} (h : Contiguous mask) :
    channelMask (findBits mask).1 (findBits mask).2 = mask.toNat := by
  obtain ⟨p, n, hpn, rfl⟩ := h
  rw [toNat_ones hpn]
  rcases Nat.eq_zero_or_pos n with rfl | hn
  · rw [ones_zero]
    simp [channelMask, show findBits 0#32 = (0, 0) from findBits_zero]
  · obtain ⟨hpos, hsize⟩ := findBits_window (ones_ne_zero hpn hn)
    unfold channelMask
    rw [hpos, hsize, toNat_ffsWord_ones hpn hn, span_ones hpn]

/-- `pixel_bpp` measures the window of all masks. -/
theorem toNat_pixelBpp (masks : PixelBitmask) :
    (pixelBpp pixelBitMask masks).toNat = span masks.union := by
  unfold pixelBpp
  rw [if_pos rfl]
  change (if masks.union = 0 then 0 else _ : U8).toNat = _
  split
  · rename_i h
    rw [h]
    exact span_zero.symm
  · rename_i h
    obtain ⟨hspan, hlt⟩ := ffsWord_add_span h
    change ((flsWord masks.union - ffsWord masks.union + 1).setWidth 8).toNat = _
    simp only [BitVec.toNat_setWidth, BitVec.toNat_add, BitVec.toNat_sub,
      show (1 : U32).toNat = 1 from rfl]
    omega

/-- The masks have as many bits as their union. -/
theorem cpop_union {masks : PixelBitmask} (h : masks.Disjoint) :
    masks.union.cpop.toNat = masks.redMask.cpop.toNat + masks.greenMask.cpop.toNat +
      masks.blueMask.cpop.toNat + masks.reservedMask.cpop.toNat := by
  obtain ⟨hrg, hrb, hrv, hgb, hgv, hbv⟩ := h
  have hb : (masks.redMask ||| masks.greenMask) &&& masks.blueMask = 0#32 := by
    rw [BitVec.and_or_distrib_right, hrb, hgb]
    rfl
  have hv : (masks.redMask ||| masks.greenMask ||| masks.blueMask) &&& masks.reservedMask =
      0#32 := by
    rw [BitVec.and_or_distrib_right, BitVec.and_or_distrib_right, hrv, hgv, hbv]
    rfl
  rw [PixelBitmask.union, cpop_or hv, cpop_or hb, cpop_or hrg]

theorem recordsMasks_storeLayout {info : ModeInfo} (hpf : info.pixelFormat = pixelBitMask)
    (hcont : info.pixelInformation.Contiguous) (hdisj : info.pixelInformation.Disjoint)
    (si : ScreenInfo) : RecordsMasks info.pixelInformation (storeLayout info si) := by
  have hdepth : (storeLayout info si).lfbDepth.toNat = info.pixelInformation.union.cpop.toNat := by
    rw [toNat_lfbDepth, depth_eq_pixelBits fun _ => hcont, ModeInfo.pixelBits, if_pos hpf,
      cpop_union hdisj]
  have hle : (storeLayout info si).lfbDepth.toNat ≤
      (pixelBpp pixelBitMask info.pixelInformation).toNat := by
    rw [hdepth, toNat_pixelBpp]
    exact cpop_le_span _
  have heq : (storeLayout info si).lfbDepth.toNat =
      (pixelBpp pixelBitMask info.pixelInformation).toNat ↔
        Contiguous info.pixelInformation.union := by
    rw [hdepth, toNat_pixelBpp]
    exact cpop_eq_span_iff _
  obtain ⟨hr, hg, hb, hv⟩ := hcont
  rw [storeLayout, if_pos hpf] at hle heq ⊢
  exact ⟨channelMask_findBits hr, channelMask_findBits hg, channelMask_findBits hb,
    channelMask_findBits hv, hle, heq⟩

theorem recordsMasks_storeScreenInfo {mode : GopMode} {si si' : ScreenInfo}
    (hpf : mode.info.pixelFormat = pixelBitMask) (hcont : mode.info.pixelInformation.Contiguous)
    (hdisj : mode.info.pixelInformation.Disjoint) (hstore : storeScreenInfo mode si = some si') :
    RecordsMasks mode.info.pixelInformation si' := by
  simp only [storeScreenInfo, Option.bind_eq_bind, Option.bind_eq_some_iff] at hstore
  obtain ⟨lfbSize, -, h⟩ := hstore
  cases h
  obtain ⟨hr, hg, hb, hv, hle, heq⟩ := recordsMasks_storeLayout hpf hcont hdisj _
  exact ⟨hr, hg, hb, hv, hle, heq⟩

/-- **The masks** of every mode, stored over any description and after every successful run. -/
theorem efiSetupGop_recordsMasks {info : ModeInfo} (hpf : info.pixelFormat = pixelBitMask)
    (hcont : info.pixelInformation.Contiguous) (hdisj : info.pixelInformation.Disjoint) :
    (∀ si, RecordsMasks info.pixelInformation (storeLayout info si)) ∧
    ∀ (fw : GopFirmware) (debug : Bool) (si si' : ScreenInfo) (req : GraphicsMode) (gop : Ptr)
      (s s' : GopState), run fw.handler (findGop fw.numHandles fw.handles) s = some (gop, s) →
      run fw.handler (efiSetupGop debug si req) s = some ((efiSuccess, si'), s') →
      (s'.gopMode gop).info = info → RecordsMasks info.pixelInformation si' := by
  refine ⟨recordsMasks_storeLayout hpf hcont hdisj, ?_⟩
  rintro fw debug si si' req gop s s' hfind hrun rfl
  obtain ⟨-, -, -, -, -, hstore⟩ := GopFirmware.run_efiSetupGop hfind hrun
  exact recordsMasks_storeScreenInfo hpf hcont hdisj hstore

set_option maxRecDepth 4096 in
theorem efiSetupGop_recordsMasks_highColor :
    RecordsMasks highColor.pixelInformation highColorScreen :=
  (@efiSetupGop_recordsMasks highColor rfl (wellFormed_highColor.masks rfl).1
    (wellFormed_highColor.masks rfl).2.1).2 (oneMode highColor) false ScreenInfo.zero
    highColorScreen graphicsModeHighestResolution 0x3000 ((oneMode highColor).start 1 0)
    (oneModeEnd highColor) rfl rfl rfl

end UefiStub
