import UefiStub.Gop.Screen
import UefiStub.Gop.Setup
import UefiStub.Lib.Raster

/-!
# The fill loop

`uefistub_pe_entry` stores a 32-bit pixel for every position of the frame
buffer that `efi_setup_gop` described. Pixel `(x, y)` is a cell of four bytes in
a row of `lfb_linelength`, whatever the depth of the mode is, so that the loop
stays inside the frame buffer only if four bytes a pixel fit into a scan line.
-/

namespace UefiStub

open Interact

/-! ## The loop -/

def fillPixel (si : ScreenInfo) : U32 :=
  0x91 <<< si.redPos.toNat ||| 0x3f <<< si.greenPos.toNat ||| 0x92 <<< si.bluePos.toNat

/-- The loop body: the store through the computed pointer. -/
def fillBody (si : ScreenInfo) (y x : U16) : Uefi Unit := do
  let line ← lift (mulInt si.lfbLinelength y)
  store32 (si.lfbBase + line.setWidth 64 + 4 * x.setWidth 64) (fillPixel si)

/-- The loop over `x`, with `n` turns left. -/
def fillRow (si : ScreenInfo) (y : U16) : Nat → U16 → Uefi Unit
  | 0, _ => return ()
  | n + 1, x => do
    fillBody si y x
    fillRow si y n (x + 1)

/-- The loop over `y`, with `n` turns left. -/
def fillRows (si : ScreenInfo) : Nat → U16 → Uefi Unit
  | 0, _ => return ()
  | n + 1, y => do
    fillRow si y si.lfbWidth.toNat 0
    fillRows si n (y + 1)

/-- The fill loop of `uefistub_pe_entry`. -/
def fillScreen (si : ScreenInfo) : Uefi Unit := fillRows si si.lfbHeight.toNat 0

/-- The loop only stores. Its products may be undefined. -/
theorem only_fillScreen {P : Op → Prop} (hub : P .ub) (hstore : ∀ addr v, P (.store32 addr v))
    (si : ScreenInfo) : Only P (fillScreen si) := by
  have hbody (y x : U16) : Only P (fillBody si y x) := by
    unfold fillBody
    cases mulInt si.lfbLinelength y with
    | none => exact .call hub fun x => x.elim
    | some line => exact .call (hstore _ _) fun x => .ret x
  have hrow (y : U16) (n : Nat) (x : U16) : Only P (fillRow si y n x) := by
    induction n generalizing x with
    | zero => exact .ret _
    | succ n ih => exact (hbody y x).bind fun _ => ih _
  have hrows (n : Nat) (y : U16) : Only P (fillRows si n y) := by
    induction n generalizing y with
    | zero => exact .ret _
    | succ n ih => exact (hrow _ _ _).bind fun _ => ih _
  exact hrows _ _

/-! ## Its stores -/

section Stores

/-- The address of a pixel. -/
def pixelAddr (si : ScreenInfo) (p : Nat × Nat) : U64 :=
  si.lfbBase + BitVec.ofNat 64 (cellOffset si.lfbLinelength.toNat 4 p)

/-- The stores of the pixels `(x, y)`, row by row. -/
def pixelStores (si : ScreenInfo) : List Op :=
  (cells si.lfbWidth.toNat si.lfbHeight.toNat).map fun p => .store32 (pixelAddr si p) (fillPixel si)

variable {si : ScreenInfo}

theorem mulInt_eq_some {a b : U16} {c : U32} (h : mulInt a b = some c) :
    a.toNat * b.toNat < 2 ^ 31 ∧ c.toNat = a.toNat * b.toNat := by
  rw [mulInt] at h
  split at h
  · rename_i hlt
    cases h
    refine ⟨hlt, ?_⟩
    rw [BitVec.toNat_mul, BitVec.toNat_setWidth, BitVec.toNat_setWidth,
      Nat.mod_eq_of_lt (Nat.lt_trans a.isLt (by decide)),
      Nat.mod_eq_of_lt (Nat.lt_trans b.isLt (by decide)),
      Nat.mod_eq_of_lt (Nat.lt_trans hlt (by decide))]
  · cases h

/-- A position of the frame buffer: the store goes to the pixel's address. -/
theorem fillBody_eq {x y : Nat} (hx : x < 2 ^ 16) (hy : y < 2 ^ 16)
    (hprod : si.lfbLinelength.toNat * y < 2 ^ 31) :
    fillBody si (BitVec.ofNat 16 y) (BitVec.ofNat 16 x) =
      calls [.store32 (pixelAddr si (x, y)) (fillPixel si)] := by
  have hyn : (BitVec.ofNat 16 y).toNat = y := toNat_ofNat_lt hy
  have hxn : (BitVec.ofNat 16 x).toNat = x := toNat_ofNat_lt hx
  have hmul : mulInt si.lfbLinelength (BitVec.ofNat 16 y) =
      some (BitVec.ofNat 32 (si.lfbLinelength.toNat * y)) := by
    rw [mulInt, hyn, if_pos hprod]
    refine congrArg some (BitVec.eq_of_toNat_eq ?_)
    rw [BitVec.toNat_mul, BitVec.toNat_setWidth, BitVec.toNat_setWidth, hyn, BitVec.toNat_ofNat,
      ← Nat.mul_mod]
  have haddr : si.lfbBase + (BitVec.ofNat 32 (si.lfbLinelength.toNat * y)).setWidth 64 +
      4 * (BitVec.ofNat 16 x).setWidth 64 = pixelAddr si (x, y) := by
    apply BitVec.eq_of_toNat_eq
    simp only [pixelAddr, cellOffset, BitVec.toNat_add, BitVec.toNat_mul, BitVec.toNat_setWidth,
      BitVec.toNat_ofNat, hxn, show (4 : U64).toNat = 4 from rfl]
    omega
  simp only [fillBody, hmul, lift_some, Prog.ret_bind, haddr]
  rfl

theorem fillRow_eq {y : Nat} (hy : y < 2 ^ 16) (hprod : si.lfbLinelength.toNat * y < 2 ^ 31)
    {n x : Nat} (hx : x + n ≤ 2 ^ 16) :
    fillRow si (BitVec.ofNat 16 y) n (BitVec.ofNat 16 x) =
      calls ((List.range' x n).map fun x => .store32 (pixelAddr si (x, y)) (fillPixel si)) := by
  induction n generalizing x with
  | zero => rfl
  | succ n ih =>
    have hnext : BitVec.ofNat 16 x + 1 = BitVec.ofNat 16 (x + 1) := (BitVec.ofNat_add ..).symm
    rw [fillRow, fillBody_eq (by omega) hy hprod, hnext, ih (by omega), List.range'_succ,
      List.map_cons]
    rfl

theorem fillRows_eq {n y : Nat} (hy : y + n ≤ 2 ^ 16)
    (hprod : ∀ i < y + n, si.lfbLinelength.toNat * i < 2 ^ 31) :
    fillRows si n (BitVec.ofNat 16 y) =
      calls ((List.range' y n).flatMap fun y => (List.range si.lfbWidth.toNat).map fun x =>
        .store32 (pixelAddr si (x, y)) (fillPixel si)) := by
  induction n generalizing y with
  | zero => rfl
  | succ n ih =>
    have hnext : BitVec.ofNat 16 y + 1 = BitVec.ofNat 16 (y + 1) := (BitVec.ofNat_add ..).symm
    have hrow := fillRow_eq (y := y) (by omega) (hprod y (by omega))
      (n := si.lfbWidth.toNat) (x := 0) (by have := si.lfbWidth.isLt; omega)
    rw [fillRows, hnext, ih (by omega) fun i hi => hprod i (by omega), List.range'_succ,
      List.flatMap_cons, calls_append, List.range_eq_range', ← hrow]
    rfl

/-- The loop is one store for every pixel. -/
theorem fillScreen_eq (hprod : si.lfbLinelength.toNat * si.lfbHeight.toNat < 2 ^ 31) :
    fillScreen si = calls (pixelStores si) := by
  have hrows := fillRows_eq (y := 0) (n := si.lfbHeight.toNat)
    (by have := si.lfbHeight.isLt; omega) fun i hi =>
      Nat.lt_of_le_of_lt (Nat.mul_le_mul_left _ (by omega)) hprod
  rw [← List.range_eq_range'] at hrows
  rw [fillScreen, pixelStores, cells, List.map_flatMap]
  simp only [List.map_map]
  exact hrows

/-! ## Inside the frame buffer -/

/-- A store of four bytes lies in the frame buffer. -/
def Inside (si : ScreenInfo) (addr : U64) : Prop :=
  si.lfbBase.toNat ≤ addr.toNat ∧ addr.toNat + 4 ≤ si.lfbBase.toNat + si.lfbSize.toNat

/-- Two stores of four bytes have no byte in common. -/
def Apart (a b : U64) : Prop := a.toNat + 4 ≤ b.toNat ∨ b.toNat + 4 ≤ a.toNat

/-- The loop stores every pixel inside the frame buffer, and no two pixels overlap. -/
structure SafeFill (si : ScreenInfo) : Prop where
  stores : fillScreen si = calls (pixelStores si)
  inside : ∀ p ∈ cells si.lfbWidth.toNat si.lfbHeight.toNat, Inside si (pixelAddr si p)
  apart : ∀ p ∈ cells si.lfbWidth.toNat si.lfbHeight.toNat,
    ∀ q ∈ cells si.lfbWidth.toNat si.lfbHeight.toNat, p ≠ q →
      Apart (pixelAddr si p) (pixelAddr si q)

/-- Without pixels, or with room for a row of them and no wrap before the last one. -/
def FillFits (width height stride base : Nat) : Prop :=
  width = 0 ∨ height = 0 ∨
    4 * width ≤ stride ∧ base + stride * (height - 1) + 4 * (width - 1) < 2 ^ 64

instance (width height stride base : Nat) : Decidable (FillFits width height stride base) :=
  inferInstanceAs (Decidable (_ ∨ _ ∨ _))

theorem toNat_pixelAddr {p : Nat × Nat}
    (h : si.lfbBase.toNat + cellOffset si.lfbLinelength.toNat 4 p < 2 ^ 64) :
    (pixelAddr si p).toNat = si.lfbBase.toNat + cellOffset si.lfbLinelength.toNat 4 p := by
  rw [pixelAddr, BitVec.toNat_add, BitVec.toNat_ofNat, Nat.mod_eq_of_lt (a := cellOffset ..)
    (by omega), Nat.mod_eq_of_lt h]

/-- A pixel past the end of the address space is stored below the frame buffer. -/
theorem pixelAddr_lt_base {p : Nat × Nat} (ho : cellOffset si.lfbLinelength.toNat 4 p < 2 ^ 64)
    (h : 2 ^ 64 ≤ si.lfbBase.toNat + cellOffset si.lfbLinelength.toNat 4 p) :
    (pixelAddr si p).toNat < si.lfbBase.toNat := by
  have hb := si.lfbBase.isLt
  rw [pixelAddr, BitVec.toNat_add, BitVec.toNat_ofNat, Nat.mod_eq_of_lt (a := cellOffset ..) ho]
  omega

/-- The last pixel decides. -/
theorem safeFill_iff (hsize : mulInt si.lfbLinelength si.lfbHeight = some si.lfbSize) :
    SafeFill si ↔
      FillFits si.lfbWidth.toNat si.lfbHeight.toNat si.lfbLinelength.toNat si.lfbBase.toNat := by
  obtain ⟨hprod, hsize⟩ := mulInt_eq_some hsize
  have hlast : cellOffset si.lfbLinelength.toNat 4
      (si.lfbWidth.toNat - 1, si.lfbHeight.toNat - 1) =
    si.lfbLinelength.toNat * (si.lfbHeight.toNat - 1) + 4 * (si.lfbWidth.toNat - 1) := rfl
  constructor
  · intro h
    by_cases hw : si.lfbWidth.toNat = 0
    · exact .inl hw
    by_cases hh : si.lfbHeight.toNat = 0
    · exact .inr (.inl hh)
    have hin := h.inside (si.lfbWidth.toNat - 1, si.lfbHeight.toNat - 1)
      (mem_cells.mpr ⟨by omega, by omega⟩)
    have hoff : cellOffset si.lfbLinelength.toNat 4
        (si.lfbWidth.toNat - 1, si.lfbHeight.toNat - 1) < 2 ^ 64 := by
      have hrows := Nat.mul_le_mul_left si.lfbLinelength.toNat (Nat.sub_le si.lfbHeight.toNat 1)
      have hwlt := si.lfbWidth.isLt
      omega
    have hwrap : si.lfbBase.toNat + cellOffset si.lfbLinelength.toNat 4
        (si.lfbWidth.toNat - 1, si.lfbHeight.toNat - 1) < 2 ^ 64 := by
      by_contra hge
      have hlt := pixelAddr_lt_base hoff (Nat.le_of_not_lt hge)
      exact absurd hin.1 (Nat.not_le_of_lt hlt)
    have hend := hin.2
    rw [toNat_pixelAddr hwrap, hsize] at hend
    have hrow := stride_of_last (Nat.pos_of_ne_zero hw) (Nat.pos_of_ne_zero hh)
      (Nat.le_of_add_le_add_left (by rwa [← Nat.add_assoc]))
    exact .inr (.inr ⟨hrow, by omega⟩)
  · intro h
    have hfit (p : Nat × Nat) (hp : p ∈ cells si.lfbWidth.toNat si.lfbHeight.toNat) :
        4 * si.lfbWidth.toNat ≤ si.lfbLinelength.toNat ∧ (pixelAddr si p).toNat =
          si.lfbBase.toNat + cellOffset si.lfbLinelength.toNat 4 p := by
      obtain ⟨hpx, hpy⟩ := mem_cells.mp hp
      obtain ⟨hrow, hwrap⟩ := (h.resolve_left (by omega)).resolve_left (by omega)
      have hle := cellOffset_le_last si.lfbLinelength.toNat 4 hp
      exact ⟨hrow, toNat_pixelAddr (by omega)⟩
    refine ⟨fillScreen_eq hprod, fun p hp => ?_, fun p hp q hq hne => ?_⟩
    · obtain ⟨hrow, haddr⟩ := hfit p hp
      have hend := cell_end_le hrow hp
      rw [Inside, haddr, hsize]
      omega
    · obtain ⟨hrow, haddr⟩ := hfit p hp
      rw [Apart, haddr, (hfit q hq).2]
      exact (cells_apart hrow hp hq hne).imp (by omega) (by omega)

end Stores

/-! ## After `efi_setup_gop` -/

/-- A mode with a frame buffer, whose scan lines have room for its pixels and whose masks, if the
format has them, are contiguous, disjoint and not all zero. -/
structure ModeInfo.WellFormed (info : ModeInfo) : Prop where
  usable : ¬Unusable info.pixelFormat
  lines : info.horizontalResolution ≤ info.pixelsPerScanLine
  masks : info.pixelFormat = pixelBitMask →
    info.pixelInformation.Contiguous ∧ info.pixelInformation.Disjoint ∧
      info.pixelInformation ≠ ⟨0, 0, 0, 0⟩

/-- A frame buffer that was described. -/
theorem safeFill_store_iff {mode : GopMode} {si si' : ScreenInfo} (hinfo : mode.info.WellFormed)
    (hstore : storeScreenInfo mode si = some si') :
    SafeFill si' ↔ FillFits (mode.info.horizontalResolution.toNat % 2 ^ 16)
      (mode.info.verticalResolution.toNat % 2 ^ 16) mode.info.scanLine
      mode.frameBufferBase.toNat := by
  obtain ⟨hbase, hwidth, hheight, hline, hsize⟩ :=
    storeScreenInfo_spec hstore
  have hdepth := depth_eq_pixelBits fun hpf => (hinfo.masks hpf).1
  rw [safeFill_iff hsize, hbase, hwidth, hheight, hline, hdepth, ModeInfo.scanLine,
    BitVec.toNat_setWidth, BitVec.toNat_setWidth]

/-- **The fill loop** after a successful run is safe exactly where four bytes a pixel fit into the
scan line of the mode in effect. -/
theorem fillScreen_safe_iff {fw : GopFirmware} {debug : Bool} {si si' : ScreenInfo}
    {req : GraphicsMode} {gop : Ptr} {s s' : GopState}
    (hfind : run fw.handler (findGop fw.numHandles fw.handles) s = some (gop, s))
    (hrun : run fw.handler (efiSetupGop debug si req) s = some ((efiSuccess, si'), s'))
    (hinfo : (s'.gopMode gop).info.WellFormed) :
    SafeFill si' ↔ FillFits ((s'.gopMode gop).info.horizontalResolution.toNat % 2 ^ 16)
      ((s'.gopMode gop).info.verticalResolution.toNat % 2 ^ 16) (s'.gopMode gop).info.scanLine
      (s'.gopMode gop).frameBufferBase.toNat := by
  obtain ⟨-, -, -, -, -, hstore⟩ := GopFirmware.run_efiSetupGop hfind hrun
  exact safeFill_store_iff hinfo hstore

/-- A firmware with one mode, before it is asked for the mode and after. -/
def oneMode (info : ModeInfo) : GopFirmware := .single efiSuccess fun _ => info

def oneModeEnd (info : ModeInfo) : GopState :=
  { (oneMode info).start 1 0 with
    infos := Function.update ((oneMode info).start 1 0).infos 0x4000 info }

/-- A 640x480 mode with 32 bits a pixel, and its description. -/
def trueColor : ModeInfo := ⟨640, 480, pixelRgbReserved8BitPerColor, ⟨0, 0, 0, 0⟩, 640⟩

def trueColorScreen : ScreenInfo :=
  ⟨640, 480, 0x80000000, 32, 2560, 1228800, 8, 0, 8, 8, 8, 16, 8, 24⟩

theorem wellFormed_trueColor : trueColor.WellFormed where
  usable := by decide
  lines := by decide
  masks h := absurd h (by decide)

theorem fillScreen_safe_trueColor : SafeFill trueColorScreen :=
  (@fillScreen_safe_iff (oneMode trueColor) false ScreenInfo.zero trueColorScreen
    graphicsModeHighestResolution 0x3000 ((oneMode trueColor).start 1 0) (oneModeEnd trueColor)
    rfl rfl wellFormed_trueColor).mpr
    (show FillFits 640 480 2560 0x80000000 by decide)

/-- A 640x480 mode with five, six and five bits for the colours, and its description. -/
def highColor : ModeInfo := ⟨640, 480, pixelBitMask, ⟨0xf800, 0x07e0, 0x001f, 0⟩, 640⟩

def highColorScreen : ScreenInfo :=
  ⟨640, 480, 0x80000000, 16, 1280, 614400, 5, 11, 6, 5, 5, 0, 0, 0⟩

theorem wellFormed_highColor : highColor.WellFormed where
  usable := by decide
  lines := by decide
  masks _ := ⟨⟨⟨11, 5, by decide, by decide⟩, ⟨5, 6, by decide, by decide⟩,
    ⟨0, 5, by decide, by decide⟩, ⟨0, 0, by decide, by decide⟩⟩,
    by simp only [PixelBitmask.Disjoint]; decide, by decide⟩

set_option maxRecDepth 4096 in
/-- The loop takes twice the scan line, and its last store is past the frame buffer. -/
theorem not_fillScreen_safe : ¬∀ (fw : GopFirmware) (debug : Bool) (si si' : ScreenInfo)
    (req : GraphicsMode) (gop : Ptr) (s s' : GopState),
    run fw.handler (findGop fw.numHandles fw.handles) s = some (gop, s) →
    run fw.handler (efiSetupGop debug si req) s = some ((efiSuccess, si'), s') →
    (s'.gopMode gop).info.WellFormed → SafeFill si' := by
  intro h
  have hsafe := h (oneMode highColor) false ScreenInfo.zero highColorScreen
    graphicsModeHighestResolution 0x3000 ((oneMode highColor).start 1 0) (oneModeEnd highColor)
    rfl rfl wellFormed_highColor
  have hfits : FillFits 640 480 1280 0x80000000 := (safeFill_iff rfl).mp hsafe
  exact absurd hfits (by decide)

end UefiStub
