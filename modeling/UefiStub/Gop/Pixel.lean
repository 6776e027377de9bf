import UefiStub.Gop.Fill

/-!
# The colour of the fill loop

The pixel is put together from three components of eight, six and eight bits,
each shifted to the position of its channel. The widths of the channels are not
used: a component that is wider than its channel runs into the bits above it,
unless these are shifted out of the pixel.
-/

namespace UefiStub

open Interact

section Parts

variable (si : ScreenInfo)

/-- The components of the pixel in their places. -/
def redPart : U32 := (0x91 : U32) <<< si.redPos.toNat

def greenPart : U32 := (0x3f : U32) <<< si.greenPos.toNat

def bluePart : U32 := (0x92 : U32) <<< si.bluePos.toNat

theorem natCast_shiftLeft (component n : Nat) :
    ((component <<< n : Nat) : U32) = BitVec.ofNat 32 component <<< n := by
  apply BitVec.eq_of_toNat_eq
  rw [BitVec.natCast_eq_ofNat, BitVec.toNat_ofNat, BitVec.toNat_shiftLeft, BitVec.toNat_ofNat,
    Nat.shiftLeft_eq, Nat.shiftLeft_eq, Nat.mod_mul_mod]

theorem fillPixel_eq : fillPixel si = redPart si ||| greenPart si ||| bluePart si := by
  unfold fillPixel
  rw [natCast_shiftLeft, natCast_shiftLeft, natCast_shiftLeft]
  rfl

end Parts

/-- The masks of the channels: those of the mode, or those its format stands for. -/
def ModeInfo.channels (info : ModeInfo) : PixelBitmask :=
  if info.pixelFormat = pixelBitMask then info.pixelInformation
  else if info.pixelFormat = pixelRgbReserved8BitPerColor then
    ⟨0x000000ff, 0x0000ff00, 0x00ff0000, 0xff000000⟩
  else ⟨0x00ff0000, 0x0000ff00, 0x000000ff, 0xff000000⟩

/-- A run of ones, and not empty. -/
def IsChannel (mask : U32) : Prop := mask ≠ 0 ∧ Contiguous mask

/-- A mode with a red, a green and a blue channel. -/
structure ModeInfo.Coloured (info : ModeInfo) : Prop where
  format : info.pixelFormat = pixelBitMask ∨ info.pixelFormat = pixelRgbReserved8BitPerColor ∨
    info.pixelFormat = pixelBgrReserved8BitPerColor
  channels : info.pixelFormat = pixelBitMask →
    IsChannel info.pixelInformation.redMask ∧ IsChannel info.pixelInformation.greenMask ∧
      IsChannel info.pixelInformation.blueMask
  apart : info.pixelFormat = pixelBitMask →
    info.pixelInformation.redMask &&& info.pixelInformation.greenMask = 0 ∧
      info.pixelInformation.redMask &&& info.pixelInformation.blueMask = 0 ∧
      info.pixelInformation.greenMask &&& info.pixelInformation.blueMask = 0

/-- The pixel sets bits of the channels only, and no component sets one of another channel. -/
structure PixelConfined (masks : PixelBitmask) (si : ScreenInfo) : Prop where
  inside : bits (fillPixel si) ⊆ bits (masks.redMask ||| masks.greenMask ||| masks.blueMask)
  red : Disjoint (bits (redPart si)) (bits (masks.greenMask ||| masks.blueMask))
  green : Disjoint (bits (greenPart si)) (bits (masks.redMask ||| masks.blueMask))
  blue : Disjoint (bits (bluePart si)) (bits (masks.redMask ||| masks.greenMask))

/-- Every one of the component is below the width of the channel, or past bit 31 in its place. -/
def Fits (component mask : U32) : Prop :=
  ∀ i, component.getLsbD i = true → i < mask.cpop.toNat ∨ 32 ≤ mask.ctz.toNat + i

/-- The three components fit. -/
def PixelBitmask.ComponentsFit (masks : PixelBitmask) : Prop :=
  Fits 0x91 masks.redMask ∧ Fits 0x3f masks.greenMask ∧ Fits 0x92 masks.blueMask

/-- The position that is stored for a channel is that of its lowest one. -/
def Positioned (mask : U32) (pos : U8) : Prop :=
  ∃ n, 0 < n ∧ pos.toNat + n ≤ 32 ∧ mask = ones 32 pos.toNat n

theorem positioned_findBits {mask : U32} (h : IsChannel mask) :
    Positioned mask (findBits mask).1 := by
  obtain ⟨h0, p, n, hpn, rfl⟩ := h
  have hn : 0 < n := Nat.pos_of_ne_zero fun hn => h0 (by rw [hn]; exact ones_zero)
  have hpos : (findBits (ones 32 p n)).1.toNat = p :=
    (findBits_window h0).1.trans (toNat_ffsWord_ones hpn hn)
  refine ⟨n, hn, ?_, ?_⟩
  · rwa [hpos]
  · rw [hpos]

/-- A component stays in its channel where it fits. -/
theorem part_subset_iff {mask : U32} {pos : U8} (h : Positioned mask pos) (component : U32) :
    bits (component <<< pos.toNat) ⊆ bits mask ↔ Fits component mask := by
  obtain ⟨n, hn, hpn, heq⟩ := h
  unfold Fits
  rw [heq, bits_shiftLeft_subset_iff hpn, cpop_ones hpn, ctz_ones hpn hn]

/-- For masks that share no bit: every component stays in its channel. -/
theorem confined_iff {masks : PixelBitmask} {si : ScreenInfo}
    (hrg : masks.redMask &&& masks.greenMask = 0) (hrb : masks.redMask &&& masks.blueMask = 0)
    (hgb : masks.greenMask &&& masks.blueMask = 0) : PixelConfined masks si ↔
      bits (redPart si) ⊆ bits masks.redMask ∧ bits (greenPart si) ⊆ bits masks.greenMask ∧
        bits (bluePart si) ⊆ bits masks.blueMask := by
  have hrg := disjoint_bits hrg
  have hrb := disjoint_bits hrb
  have hgb := disjoint_bits hgb
  constructor
  · rintro ⟨hin, hr, hg, hb⟩
    simp only [fillPixel_eq, bits_or, Finset.union_subset_iff] at hin hr hg hb
    obtain ⟨⟨hinr, hing⟩, hinb⟩ := hin
    -- a component in the union that misses two channels is in the third
    rw [Finset.union_assoc] at hinr
    rw [Finset.union_right_comm] at hing
    exact ⟨hr.left_le_of_le_sup_right hinr, hg.left_le_of_le_sup_left hing,
      hb.left_le_of_le_sup_left hinb⟩
  · rintro ⟨hr, hg, hb⟩
    refine ⟨?_, ?_, ?_, ?_⟩
    · rw [fillPixel_eq, bits_or, bits_or, bits_or, bits_or]
      exact Finset.union_subset_union (Finset.union_subset_union hr hg) hb
    · exact disjoint_bits_or.mpr ⟨hrg.mono_left hr, hrb.mono_left hr⟩
    · exact disjoint_bits_or.mpr ⟨hrg.symm.mono_left hg, hgb.mono_left hg⟩
    · exact disjoint_bits_or.mpr ⟨hrb.symm.mono_left hb, hgb.symm.mono_left hb⟩

/-! ## After `efi_setup_gop` -/

/-- The channels and the positions that are stored for them. -/
theorem positioned_storeLayout {info : ModeInfo} (h : info.Coloured) (si : ScreenInfo) :
    Positioned info.channels.redMask (storeLayout info si).redPos ∧
      Positioned info.channels.greenMask (storeLayout info si).greenPos ∧
      Positioned info.channels.blueMask (storeLayout info si).bluePos := by
  unfold ModeInfo.channels storeLayout
  by_cases hbm : info.pixelFormat = pixelBitMask
  · obtain ⟨hr, hg, hb⟩ := h.channels hbm
    rw [if_pos hbm, if_pos hbm]
    exact ⟨positioned_findBits hr, positioned_findBits hg, positioned_findBits hb⟩
  · rw [if_neg hbm, if_neg hbm]
    by_cases hrgb : info.pixelFormat = pixelRgbReserved8BitPerColor
    · simp only [if_pos hrgb]
      exact ⟨⟨8, by decide, by decide, by decide⟩, ⟨8, by decide, by decide, by decide⟩,
        ⟨8, by decide, by decide, by decide⟩⟩
    · simp only [if_neg hrgb]
      exact ⟨⟨8, by decide, by decide, by decide⟩, ⟨8, by decide, by decide, by decide⟩,
        ⟨8, by decide, by decide, by decide⟩⟩

theorem channels_apart {info : ModeInfo} (h : info.Coloured) :
    info.channels.redMask &&& info.channels.greenMask = 0 ∧
      info.channels.redMask &&& info.channels.blueMask = 0 ∧
      info.channels.greenMask &&& info.channels.blueMask = 0 := by
  unfold ModeInfo.channels
  by_cases hbm : info.pixelFormat = pixelBitMask
  · rw [if_pos hbm]
    exact h.apart hbm
  · rw [if_neg hbm]
    split <;> decide

/-- Channels of eight bits hold every component. -/
theorem fits_of_eight {component mask : U32} (h : component.toNat < 2 ^ 8)
    (hmask : mask.cpop.toNat = 8) : Fits component mask := by
  intro i hi
  rw [hmask]
  refine .inl (Nat.lt_of_not_le fun hle => ?_)
  rw [BitVec.getLsbD, Nat.testBit_lt_two_pow
    (Nat.lt_of_lt_of_le h (Nat.pow_le_pow_right (by decide) hle))] at hi
  cases hi

theorem componentsFit_channels {info : ModeInfo} : info.channels.ComponentsFit ↔
    (info.pixelFormat = pixelBitMask → info.pixelInformation.ComponentsFit) := by
  unfold ModeInfo.channels
  by_cases hbm : info.pixelFormat = pixelBitMask
  · rw [if_pos hbm]
    exact ⟨fun h _ => h, fun h => h hbm⟩
  · rw [if_neg hbm]
    refine ⟨fun _ h => absurd h hbm, fun _ => ?_⟩
    split <;> exact ⟨fits_of_eight (by decide) (by decide), fits_of_eight (by decide) (by decide),
      fits_of_eight (by decide) (by decide)⟩

theorem confined_storeLayout_iff {info : ModeInfo} (h : info.Coloured) (si : ScreenInfo) :
    PixelConfined info.channels (storeLayout info si) ↔
      (info.pixelFormat = pixelBitMask → info.pixelInformation.ComponentsFit) := by
  obtain ⟨hrg, hrb, hgb⟩ := channels_apart h
  obtain ⟨hr, hg, hb⟩ := positioned_storeLayout h si
  rw [confined_iff hrg hrb hgb, ← componentsFit_channels]
  unfold redPart greenPart bluePart PixelBitmask.ComponentsFit
  rw [part_subset_iff hr, part_subset_iff hg, part_subset_iff hb]

theorem confined_storeScreenInfo_iff {mode : GopMode} {si si' : ScreenInfo}
    (h : mode.info.Coloured) (hstore : storeScreenInfo mode si = some si') :
    PixelConfined mode.info.channels si' ↔
      (mode.info.pixelFormat = pixelBitMask → mode.info.pixelInformation.ComponentsFit) := by
  simp only [storeScreenInfo, Option.bind_eq_bind, Option.bind_eq_some_iff] at hstore
  obtain ⟨lfbSize, -, hsi⟩ := hstore
  cases hsi
  rw [← confined_storeLayout_iff h]
  exact ⟨fun hc => ⟨hc.inside, hc.red, hc.green, hc.blue⟩,
    fun hc => ⟨hc.inside, hc.red, hc.green, hc.blue⟩⟩

/-- **The pixel** of every mode, stored over any description and after every successful run, stays
in the channels exactly where the format has bytes or the components fit into the masks. -/
theorem fillPixel_confined_iff {info : ModeInfo} (h : info.Coloured) :
    (∀ si, PixelConfined info.channels (storeLayout info si) ↔
      (info.pixelFormat = pixelBitMask → info.pixelInformation.ComponentsFit)) ∧
    ∀ (fw : GopFirmware) (debug : Bool) (si si' : ScreenInfo) (req : GraphicsMode) (gop : Ptr)
      (s s' : GopState), run fw.handler (findGop fw.numHandles fw.handles) s = some (gop, s) →
      run fw.handler (efiSetupGop debug si req) s = some ((efiSuccess, si'), s') →
      (s'.gopMode gop).info = info → (PixelConfined info.channels si' ↔
        (info.pixelFormat = pixelBitMask → info.pixelInformation.ComponentsFit)) := by
  refine ⟨confined_storeLayout_iff h, ?_⟩
  rintro fw debug si si' req gop s s' hfind hrun rfl
  obtain ⟨-, -, -, -, -, hstore⟩ := GopFirmware.run_efiSetupGop hfind hrun
  exact confined_storeScreenInfo_iff h hstore

theorem coloured_trueColor : trueColor.Coloured where
  format := .inr (.inl rfl)
  channels h := absurd h (by decide)
  apart h := absurd h (by decide)

theorem fillPixel_confined_trueColor : PixelConfined trueColor.channels trueColorScreen :=
  ((fillPixel_confined_iff coloured_trueColor).2 (oneMode trueColor) false ScreenInfo.zero
    trueColorScreen graphicsModeHighestResolution 0x3000 ((oneMode trueColor).start 1 0)
    (oneModeEnd trueColor) rfl rfl rfl).mpr fun h => absurd h (by decide)

theorem coloured_highColor : highColor.Coloured where
  format := .inl rfl
  channels _ := ⟨⟨by decide, 11, 5, by decide, by decide⟩, ⟨by decide, 5, 6, by decide, by decide⟩,
    ⟨by decide, 0, 5, by decide, by decide⟩⟩
  apart _ := by decide

/-- The red component needs eight bits and has five. -/
theorem not_fillPixel_confined : ¬∀ (info : ModeInfo) (si : ScreenInfo), info.Coloured →
    PixelConfined info.channels (storeLayout info si) := by
  intro h
  have hfit := (confined_storeLayout_iff coloured_highColor ScreenInfo.zero).mp
    (h highColor ScreenInfo.zero coloured_highColor) rfl
  have hblue := hfit.2.2 7 (by decide)
  rw [show highColor.pixelInformation.blueMask = ones 32 0 5 by decide, cpop_ones (by decide),
    ctz_ones (by decide) (by decide)] at hblue
  exact absurd hblue (by decide)

end UefiStub
