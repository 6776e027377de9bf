import UefiStub.Gop.Choice
import UefiStub.Gop.Fill

/-!
# Is the description exact?

`struct screen_info` has 16 bits for the width, the height and the scan line,
and the size is a product of two `int`. Nothing checks that the mode fits, so
that the description is exact for the modes below these limits and for no
others. A mode below them has less than `2 ^ 32` pixels, so that its rank does
not wrap either.
-/

namespace UefiStub

open Interact

/-- The bytes of a scan line. -/
def ModeInfo.lineBytes (info : ModeInfo) : Nat := info.pixelsPerScanLine.toNat * info.depth / 8

/-- The description says of the mode what is true over the integers, and so does its rank. -/
structure Exact (info : ModeInfo) (si : ScreenInfo) : Prop where
  width : si.lfbWidth.toNat = info.horizontalResolution.toNat
  height : si.lfbHeight.toNat = info.verticalResolution.toNat
  linelength : si.lfbLinelength.toNat = info.lineBytes
  size : si.lfbSize.toNat = info.lineBytes * info.verticalResolution.toNat
  area (mode : U32) : (modeMatch info mode).area.toNat = pixelCount info

/-- The mode is within the limits of the description. -/
structure ModeInfo.Fits (info : ModeInfo) : Prop where
  width : info.horizontalResolution.toNat < 2 ^ 16
  height : info.verticalResolution.toNat < 2 ^ 16
  linelength : info.lineBytes < 2 ^ 16
  size : info.lineBytes * info.verticalResolution.toNat < 2 ^ 31

/-- A scan line that fits into 16 bits does not wrap at 32 bits either. -/
theorem scanLine_exact_iff (p d : Nat) :
    p * d % 2 ^ 32 / 8 % 2 ^ 16 = p * d / 8 ↔ p * d / 8 < 2 ^ 16 := by
  generalize p * d = bits
  omega

theorem ModeInfo.Fits.pixelCount_lt {info : ModeInfo} (h : info.Fits) :
    pixelCount info < 2 ^ 32 := by
  have hprod : pixelCount info < 2 ^ 16 * 2 ^ 16 := Nat.mul_lt_mul'' h.width h.height
  omega

/-- Only the size can fail to be computed. -/
theorem storeScreenInfo_defined {mode : GopMode} (si : ScreenInfo)
    (h : mode.info.pixelsPerScanLine.toNat * mode.info.depth % 2 ^ 32 / 8 % 2 ^ 16 *
      (mode.info.verticalResolution.toNat % 2 ^ 16) < 2 ^ 31) :
    ∃ si', storeScreenInfo mode si = some si' := by
  unfold storeScreenInfo mulInt
  dsimp only
  rw [toNat_lfbLinelength, (storeLayout_frame ..).2.2, BitVec.toNat_setWidth, if_pos h]
  exact ⟨_, rfl⟩

/-- The description of a mode exists and is exact within the limits, and only there. -/
theorem storeScreenInfo_exact_iff (mode : GopMode) (si : ScreenInfo) :
    (∃ si', storeScreenInfo mode si = some si' ∧ Exact mode.info si') ↔ mode.info.Fits := by
  constructor
  · rintro ⟨si', hstore, hexact⟩
    obtain ⟨-, -, -, -, hmul⟩ := storeScreenInfo_spec hstore
    obtain ⟨hlt, -⟩ := mulInt_eq_some hmul
    rw [hexact.linelength, hexact.height] at hlt
    refine ⟨?_, ?_, ?_, hlt⟩
    · rw [← hexact.width]
      exact si'.lfbWidth.isLt
    · rw [← hexact.height]
      exact si'.lfbHeight.isLt
    · rw [← hexact.linelength]
      exact si'.lfbLinelength.isLt
  · intro hfits
    have hline := (scanLine_exact_iff _ _).mpr hfits.linelength
    have hheight := Nat.mod_eq_of_lt hfits.height
    have hsize := hfits.size
    rw [ModeInfo.lineBytes, ← hline, ← hheight] at hsize
    obtain ⟨si', hstore⟩ := storeScreenInfo_defined si hsize
    obtain ⟨-, hw, hh, hl, hmul⟩ := storeScreenInfo_spec hstore
    obtain ⟨-, hsize⟩ := mulInt_eq_some hmul
    have hl' : si'.lfbLinelength.toNat = mode.info.lineBytes := hl.trans hline
    have hh' : si'.lfbHeight.toNat = mode.info.verticalResolution.toNat := by
      rw [hh, BitVec.toNat_setWidth, hheight]
    refine ⟨si', hstore, ?_, hh', hl', ?_, toNat_area hfits.pixelCount_lt⟩
    · rw [hw, BitVec.toNat_setWidth, Nat.mod_eq_of_lt hfits.width]
    · rw [hsize, hl', hh']

/-! ## The run -/

namespace GopFirmware

variable {fw : GopFirmware} {debug : Bool} {si si' : ScreenInfo} {req : GraphicsMode} {gop : Ptr}
  {s s1 : GopState}

/-- A run that finds a graphics protocol ends where the description is defined. -/
theorem efiSetupGop_returns (hloc : fw.locateStatus = efiSuccess) (hfree : fw.Frees)
    (hfind : run fw.handler (findGop fw.numHandles fw.handles) s = some (gop, s)) (hgop : gop ≠ 0)
    (hset : run fw.handler (setGopMode debug gop req) s = some ((), s1))
    (hstore : storeScreenInfo (s1.gopMode gop) si = some si') :
    ∃ s', run fw.handler (efiSetupGop debug si req) s = some ((efiSuccess, si'), s') := by
  obtain ⟨s', hlast⟩ := run_freeBuffer hfree fw.handles s1
  refine ⟨s', ?_⟩
  simp only [efiSetupGop, Prog.op_bind, run_call, handler, Option.bind_some]
  rw [if_neg (not_not.mpr hloc), run_bind_of _ hfind, if_neg hgop, run_bind_of _ hset]
  simp only [run_call, handler, Option.bind_some, hstore, lift_some, Prog.ret_bind]
  rw [run_bind_of _ hlast]
  rfl

/-- **The description** of the mode a run ends in exists and is exact where that mode is within
the limits, and only there. -/
theorem efiSetupGop_exact_iff (hloc : fw.locateStatus = efiSuccess) (hfree : fw.Frees)
    (hfind : run fw.handler (findGop fw.numHandles fw.handles) s = some (gop, s)) (hgop : gop ≠ 0)
    (hset : run fw.handler (setGopMode debug gop req) s = some ((), s1)) :
    (∃ si' s', run fw.handler (efiSetupGop debug si req) s = some ((efiSuccess, si'), s') ∧
      Exact (s1.gopMode gop).info si') ↔ (s1.gopMode gop).info.Fits := by
  rw [← storeScreenInfo_exact_iff _ si]
  constructor
  · rintro ⟨si', s', hrun, hexact⟩
    obtain ⟨-, s2, hset', hmode, -, hstore⟩ := run_efiSetupGop hfind hrun
    obtain rfl : s1 = s2 := (Prod.mk.inj (Option.some.inj (hset.symm.trans hset'))).2
    rw [hmode] at hstore
    exact ⟨si', hstore, hexact⟩
  · rintro ⟨si', hstore, hexact⟩
    obtain ⟨s', hrun⟩ := efiSetupGop_returns hloc hfree hfind hgop hset hstore
    exact ⟨si', s', hrun, hexact⟩

theorem fits_trueColor : trueColor.Fits where
  width := by decide
  height := by decide
  linelength := by decide
  size := by decide

theorem frees_oneMode (info : ModeInfo) : (oneMode info).Frees := fun _ h => nomatch h

theorem efiSetupGop_exact_trueColor : ∃ si' s',
    run (oneMode trueColor).handler (efiSetupGop false ScreenInfo.zero graphicsModeAuto)
      ((oneMode trueColor).start 1 0) = some ((efiSuccess, si'), s') ∧ Exact trueColor si' :=
  (@efiSetupGop_exact_iff (oneMode trueColor) false ScreenInfo.zero graphicsModeAuto 0x3000
    ((oneMode trueColor).start 1 0) (oneModeEnd trueColor) rfl (frees_oneMode trueColor) rfl
    (by decide) rfl).mpr fits_trueColor

/-- A scan line of 65536 bytes. -/
def wideMode : ModeInfo := ⟨16384, 8640, pixelRgbReserved8BitPerColor, ⟨0, 0, 0, 0⟩, 16384⟩

/-- The scan line of a mode with 16384 pixels a line is stored as zero. -/
theorem not_efiSetupGop_exact : ¬∀ (fw : GopFirmware) (debug : Bool) (si : ScreenInfo)
    (req : GraphicsMode) (gop : Ptr) (s s1 : GopState), fw.locateStatus = efiSuccess → fw.Frees →
    run fw.handler (findGop fw.numHandles fw.handles) s = some (gop, s) → gop ≠ 0 →
    run fw.handler (setGopMode debug gop req) s = some ((), s1) →
    ∃ si' s', run fw.handler (efiSetupGop debug si req) s = some ((efiSuccess, si'), s') ∧
      Exact (s1.gopMode gop).info si' := by
  intro h
  obtain ⟨si', s', hrun, hexact⟩ := h (oneMode wideMode) false ScreenInfo.zero graphicsModeAuto
    0x3000 ((oneMode wideMode).start 1 0) (oneModeEnd wideMode) rfl (frees_oneMode wideMode) rfl
    (by decide) rfl
  have hzero : 0 = si'.lfbLinelength :=
    congrArg (fun r => r.1.2.lfbLinelength) (Option.some.inj hrun)
  have hline : si'.lfbLinelength.toNat = 65536 := hexact.linelength
  rw [← hzero] at hline
  exact absurd hline (by decide)

end GopFirmware

end UefiStub
