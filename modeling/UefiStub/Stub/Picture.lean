import UefiStub.Gop.Exact
import UefiStub.Gop.Pixel
import UefiStub.Lib.Words
import UefiStub.Stub.Draw

/-!
# The picture

What the stores of a run amount to: in a mode with four bytes a pixel and
channels that are wide enough, every pixel that has been drawn has the three
components of the colour in its channels, and no other byte of the memory has
changed. Nothing is assumed of the address of the frame buffer.
-/

namespace UefiStub

open Interact

/-! ## The colour -/

/-- The value of a channel. -/
def component (mask pixel : U32) : U32 := (pixel &&& mask) >>> mask.ctz.toNat

/-- The components that the fill loop shows. -/
structure FillColour (masks : PixelBitmask) (pixel : U32) : Prop where
  red : component masks.redMask pixel = 0x91
  green : component masks.greenMask pixel = 0x3f
  blue : component masks.blueMask pixel = 0x92

/-- A mode within the limits of the description, with four bytes a pixel and room for the
components. -/
structure ModeInfo.ShowsColour (info : ModeInfo) : Prop where
  coloured : info.Coloured
  red : 8 ≤ info.channels.redMask.cpop.toNat
  green : 6 ≤ info.channels.greenMask.cpop.toNat
  blue : 8 ≤ info.channels.blueMask.cpop.toNat
  depth : info.depth = 32
  fits : info.Fits

section Colour

theorem component_or {mask c r : U32} {pos : U8} {n : Nat} (hpos : Positioned mask pos)
    (hn : n ≤ mask.cpop.toNat) (hc : c.toNat < 2 ^ n) (hr : Disjoint (bits r) (bits mask)) :
    component mask (c <<< pos.toNat ||| r) = c := by
  obtain ⟨m, hm, hpm, rfl⟩ := hpos
  rw [cpop_ones hpm] at hn
  refine BitVec.eq_of_getLsbD_eq fun i hi => ?_
  have hout : m ≤ i → c.getLsbD i = false := fun hmi =>
    Nat.testBit_lt_two_pow (Nat.lt_of_lt_of_le hc (Nat.pow_le_pow_right (by decide) (by omega)))
  unfold component
  rw [ctz_ones hpm hm, BitVec.getLsbD_ushiftRight, BitVec.getLsbD_and, BitVec.getLsbD_or,
    getLsbD_ones hpm, BitVec.getLsbD_shiftLeft]
  by_cases him : i < m
  · have hmem : pos.toNat + i ∈ bits (ones 32 pos.toNat m) := by
      rw [bits_ones hpm, Finset.mem_Ico]
      omega
    have hrbit : r.getLsbD (pos.toNat + i) = false := by
      cases hb : r.getLsbD (pos.toNat + i) with
      | false => rfl
      | true => exact absurd hmem (Finset.disjoint_left.mp hr (mem_bits.mpr hb))
    rw [hrbit, Bool.or_false, Nat.add_sub_cancel_left]
    simp only [show pos.toNat + i < 32 by omega, decide_true, Bool.true_and]
    simp
    omega
  · rw [hout (by omega)]
    simp
    omega

theorem fits_of_le {component mask : U32} {n : Nat} (hc : component.toNat < 2 ^ n)
    (hn : n ≤ mask.cpop.toNat) : Fits component mask := by
  intro i hi
  refine .inl (Nat.lt_of_not_le fun hle => ?_)
  rw [BitVec.getLsbD, Nat.testBit_lt_two_pow
    (Nat.lt_of_lt_of_le hc (Nat.pow_le_pow_right (by decide) (by omega)))] at hi
  cases hi

/-- **The colour** of the pixel that is stored for a mode. -/
theorem fillColour {mode : GopMode} {si si' : ScreenInfo} (h : mode.info.ShowsColour)
    (hstore : storeScreenInfo mode si = some si') :
    FillColour mode.info.channels (fillPixel si') := by
  have hfit : mode.info.channels.ComponentsFit :=
    ⟨fits_of_le (by decide) h.red, fits_of_le (by decide) h.green, fits_of_le (by decide) h.blue⟩
  obtain ⟨-, hred, hgreen, hblue⟩ := (confined_storeScreenInfo_iff h.coloured hstore).mpr
    (componentsFit_channels.mp hfit)
  simp only [bits_or, Finset.disjoint_union_right] at hred hgreen hblue
  obtain ⟨hpr, hpg, hpb⟩ : Positioned mode.info.channels.redMask si'.redPos ∧
      Positioned mode.info.channels.greenMask si'.greenPos ∧
      Positioned mode.info.channels.blueMask si'.bluePos := by
    simp only [storeScreenInfo, Option.bind_eq_bind, Option.bind_eq_some_iff] at hstore
    obtain ⟨lfbSize, -, hsi⟩ := hstore
    cases hsi
    exact positioned_storeLayout h.coloured _
  rw [fillPixel_eq]
  refine ⟨?_, ?_, ?_⟩
  · rw [BitVec.or_assoc]
    refine component_or hpr h.red (by decide) ?_
    rw [bits_or]
    exact Finset.disjoint_union_left.mpr ⟨hgreen.1, hblue.1⟩
  · rw [BitVec.or_comm (redPart si'), BitVec.or_assoc]
    refine component_or hpg h.green (by decide) ?_
    rw [bits_or]
    exact Finset.disjoint_union_left.mpr ⟨hred.1, hblue.2⟩
  · rw [BitVec.or_comm]
    refine component_or hpb h.blue (by decide) ?_
    rw [bits_or]
    exact Finset.disjoint_union_left.mpr ⟨hred.2, hgreen.2⟩

end Colour

/-! ## The pixels -/

/-- Where the mode has a pixel of four bytes. -/
def GopMode.pixelAddr (mode : GopMode) (p : Nat × Nat) : U64 :=
  mode.frameBufferBase + BitVec.ofNat 64 (cellOffset (4 * mode.info.pixelsPerScanLine.toNat) 4 p)

/-- The pixels of the mode, row by row. -/
def ModeInfo.raster (info : ModeInfo) : List (Nat × Nat) :=
  cells info.horizontalResolution.toNat info.verticalResolution.toNat

/-- These pixels have the colour, and no other byte has changed. -/
structure Painted (mode : GopMode) (before after : Bytes) (done : List (Nat × Nat)) : Prop where
  colour : ∀ p ∈ done, FillColour mode.info.channels (load32 after (mode.pixelAddr p))
  others : ∀ a, (∀ p ∈ done, 4 ≤ (a - mode.pixelAddr p).toNat) → after a = before a

section Pixels

variable {mode : GopMode} {si si' : ScreenInfo}

/-- The loop draws the raster of the mode. -/
theorem pixelStores_mode (h : mode.info.ShowsColour) (hstore : storeScreenInfo mode si = some si') :
    pixelStores si' =
      mode.info.raster.map fun p => .store32 (mode.pixelAddr p) (fillPixel si') := by
  obtain ⟨si1, hsi1, hexact⟩ := (storeScreenInfo_exact_iff mode si).mpr h.fits
  obtain rfl : si' = si1 := Option.some.inj (hstore.symm.trans hsi1)
  have hline : si'.lfbLinelength.toNat = 4 * mode.info.pixelsPerScanLine.toNat := by
    rw [hexact.linelength, ModeInfo.lineBytes, h.depth]
    omega
  unfold pixelStores pixelAddr ModeInfo.raster GopMode.pixelAddr
  rw [hexact.width, hexact.height, hline, (storeScreenInfo_spec hstore).1]

/-- Two pixels are the same or have no byte in common. -/
theorem far_pixelAddr (hdepth : mode.info.depth = 32) (hfits : mode.info.Fits) {p q : Nat × Nat}
    (hp : p ∈ mode.info.raster) (hq : q ∈ mode.info.raster) :
    mode.pixelAddr p = mode.pixelAddr q ∨ Far (mode.pixelAddr p) (mode.pixelAddr q) := by
  have hsize := hfits.size
  rw [ModeInfo.lineBytes, hdepth] at hsize
  have hwidth := hfits.width
  have hoff {p : Nat × Nat} (hp : p ∈ mode.info.raster) :
      4 ∣ cellOffset (4 * mode.info.pixelsPerScanLine.toNat) 4 p ∧
        cellOffset (4 * mode.info.pixelsPerScanLine.toNat) 4 p + 4 ≤ 2 ^ 32 := by
    obtain ⟨hx, hy⟩ := mem_cells.mp hp
    unfold cellOffset
    have hrow := Nat.mul_le_mul_left (4 * mode.info.pixelsPerScanLine.toNat) (Nat.le_of_lt hy)
    rw [show mode.info.pixelsPerScanLine.toNat * 32 / 8 = 4 * mode.info.pixelsPerScanLine.toNat by
      omega] at hsize
    rw [Nat.mul_assoc]
    rw [Nat.mul_assoc] at hrow
    exact ⟨Dvd.dvd.add (Dvd.intro _ rfl) (Dvd.intro _ rfl), by omega⟩
  obtain ⟨⟨m, hm⟩, hple⟩ := hoff hp
  obtain ⟨⟨n, hn⟩, hqle⟩ := hoff hq
  unfold GopMode.pixelAddr
  rcases Nat.lt_trichotomy m n with hlt | rfl | hlt
  · exact .inr (far_add (by omega) (by omega) (by omega) _)
  · exact .inl (by rw [hm, hn])
  · exact .inr (far_add (by omega) (by omega) (by omega) _)

/-- The first pixels of the raster, painted. -/
theorem painted_fill (h : mode.info.ShowsColour) (hstore : storeScreenInfo mode si = some si')
    {done : List (Nat × Nat)} (hdone : ∀ p ∈ done, p ∈ mode.info.raster) (before : Bytes) :
    Painted mode before (fill before (done.map mode.pixelAddr) (fillPixel si')) done where
  colour p hp := by
    rw [load32_fill ?_ (List.mem_map_of_mem hp)]
    · exact fillColour h hstore
    · intro addr haddr
      obtain ⟨q, hq, rfl⟩ := List.mem_map.mp haddr
      exact far_pixelAddr h.depth h.fits (hdone p hp) (hdone q hq)
  others a ha := by
    refine fill_out fun addr haddr => ?_
    obtain ⟨p, hp, rfl⟩ := List.mem_map.mp haddr
    exact ha p hp

end Pixels

/-! ## The run -/

def storeWord (mem : Bytes) : Op → Bytes
  | .store32 addr value => Interact.store32 mem addr value
  | _ => mem

/-- The memory after a history. -/
def video (mem : Bytes) (tr : Trace) : Bytes := tr.foldl (fun mem e => storeWord mem e.1) mem

/-- Only the stores of a history count. -/
theorem video_stores (mem : Bytes) (tr : Trace) :
    video mem tr = (Drawing.after tr).stores.foldl storeWord mem := by
  have hgen (d : Drawing) : video (d.stores.foldl storeWord mem) tr =
      (tr.foldl Drawing.next d).stores.foldl storeWord mem := by
    unfold video
    induction tr generalizing d with
    | nil => rfl
    | cons e tr ih =>
      obtain ⟨o, x⟩ := e
      rw [List.foldl_cons, List.foldl_cons, ← ih (d.next ⟨o, x⟩)]
      congr 1
      cases o <;> first | rfl | exact (List.foldl_concat ..).symm
  exact hgen Drawing.start

theorem foldl_storeWord (mem : Bytes) (l : List (Nat × Nat)) (addr : Nat × Nat → U64) (v : U32) :
    (l.map fun p => .store32 (addr p) v).foldl storeWord mem = fill mem (l.map addr) v := by
  unfold fill
  rw [List.foldl_map, List.foldl_map]
  rfl

/-- **The picture.** At every step of every run whose mode shows the colour, the first pixels of its
raster have the colour and no other byte of the memory has changed since the start; before a PCI
device is accessed all pixels have it. -/
theorem uefistubPeEntry_paints {debug : Bool} {turns : Nat} {imghandle : Ptr} {o : Op}
    {k : o.Ans → Stub Unit} {tr : StubTrace} {mode : GopMode}
    (h : Reach History (uefistubPeEntry debug turns imghandle, []) (.call (.inl o) k, tr))
    (hmode : (Drawing.after (lefts tr)).mode = some mode) (hcolour : mode.info.ShowsColour)
    (before : Bytes) : ∃ done todo, mode.info.raster = done ++ todo ∧
      Painted mode before (video before (lefts tr)) done ∧ (Drawing.PciAccess o → todo = []) := by
  obtain ⟨hpart, hcomplete⟩ : (Drawing.after (lefts tr)).Allowed (.inl o) :=
    (Drawing.runs_entry.history_left.reached h).1 _ _ rfl
  rw [video_stores]
  generalize Drawing.after (lefts tr) = d at *
  -- what is described is the mode
  have hdescribed {si : ScreenInfo} (hsi : d.Describes si) :
      storeScreenInfo mode ScreenInfo.zero = some si := by
    obtain ⟨mode', hmode', hstore⟩ := hsi
    obtain rfl : mode = mode' := Option.some.inj (hmode.symm.trans hmode')
    exact hstore
  have hpainted {si : ScreenInfo} (hsi : d.Describes si) {done todo : List (Nat × Nat)}
      (hraster : mode.info.raster = done ++ todo)
      (hstores : d.stores = done.map fun p => .store32 (mode.pixelAddr p) (fillPixel si)) :
      Painted mode before (d.stores.foldl storeWord before) done := by
    rw [hstores, foldl_storeWord]
    refine painted_fill hcolour (hdescribed hsi) (fun p hp => ?_) before
    rw [hraster]
    exact List.mem_append_left _ hp
  by_cases hpci : Drawing.PciAccess o
  · obtain ⟨si, hsi, hstores, -⟩ := hcomplete hpci
    rw [pixelStores_mode hcolour (hdescribed hsi)] at hstores
    have hraster := (List.append_nil mode.info.raster).symm
    exact ⟨_, [], hraster, hpainted hsi hraster hstores, fun _ => rfl⟩
  rcases hpart with hnil | ⟨si, hsi, rest, hrest⟩
  · refine ⟨[], _, rfl, ?_, fun h => absurd h hpci⟩
    rw [hnil]
    exact ⟨fun p hp => absurd hp List.not_mem_nil, fun _ _ => rfl⟩
  · rw [pixelStores_mode hcolour (hdescribed hsi)] at hrest
    obtain ⟨done, todo, hraster, hdone, -⟩ := List.append_eq_map_iff.mp hrest
    exact ⟨done, todo, hraster, hpainted hsi hraster hdone.symm, fun h => absurd h hpci⟩

theorem showsColour_twoRows : ModeInfo.ShowsColour ⟨1, 2, 0, ⟨0, 0, 0, 0⟩, 1⟩ where
  coloured := ⟨.inr (.inl rfl), fun h => absurd h (by decide), fun h => absurd h (by decide)⟩
  red := by decide
  green := by decide
  blue := by decide
  depth := by decide
  fits := ⟨by decide, by decide, by decide, by decide⟩

set_option maxRecDepth 8192 in
theorem uefistubPeEntry_paints_twoRows : ∃ done todo,
    [(0, 0), (0, 1)] = done ++ todo ∧
      Painted ⟨0, 0, ⟨1, 2, 0, ⟨0, 0, 0, 0⟩, 1⟩, 0x80000000⟩ (fun _ => 0)
        (video (fun _ => 0) (lefts twoRows)) done ∧
      (Drawing.PciAccess (.store32 0x80000004 (fillPixel trueColorScreen)) → todo = []) := by
  have hrun : ∃ k, follow twoRows (uefistubPeEntry false 3 1) =
      some (.call (.inl (.store32 0x80000004 (fillPixel trueColorScreen))) k) := ⟨_, rfl⟩
  obtain ⟨k, hrun⟩ := hrun
  exact uefistubPeEntry_paints (reach_follow hrun []) rfl showsColour_twoRows _

end UefiStub
