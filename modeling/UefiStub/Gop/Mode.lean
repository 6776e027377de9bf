import UefiStub.Gop.Setup

/-!
# The mode in effect

After a successful `efi_setup_gop` the mode in effect should have a frame
buffer. The mode that was current at entry has one and so has every candidate,
but `choose_highest_res` returns mode zero where no candidate exceeds its
all-zero record, whatever mode zero is.
-/

namespace UefiStub

open Interact

namespace GopFirmware

variable (fw : GopFirmware)

/-- What a run from `s` to `s'` owes its caller: a mode with a frame buffer, and without any
candidate the mode there was, with no `set_mode` to a mode that was not examined. -/
structure KeepsFrameBuffer (gop : Ptr) (s s' : GopState) : Prop where
  usable : ¬Unusable (s'.gopMode gop).info.pixelFormat
  kept : (∀ m, ¬fw.Candidate gop (s.gopMode gop).maxMode m) →
    s'.gopMode gop = s.gopMode gop ∧
      ∀ m, (gop, m) ∈ s'.setModes → fw.Examined gop (s.gopMode gop).maxMode m

/-- Mode zero is not chosen, or choosing it does no harm: it is current, a candidate has an area
or a depth, there is a candidate and mode zero has a frame buffer or cannot be set, or it is
examined and cannot be set. -/
def ZeroHarmless (gop : Ptr) (mode : GopMode) : Prop :=
  mode.mode = 0 ∨
  (∃ m, fw.Candidate gop mode.maxMode m ∧
    ((fw.modeInfo gop m).horizontalResolution * (fw.modeInfo gop m).verticalResolution ≠ 0 ∨
      pixelBpp (fw.modeInfo gop m).pixelFormat (fw.modeInfo gop m).pixelInformation ≠ 0)) ∨
  (∃ m, fw.Candidate gop mode.maxMode m) ∧
    (fw.setStatus gop 0 ≠ efiSuccess ∨ ¬Unusable (fw.modeInfo gop 0).pixelFormat) ∨
  fw.Examined gop mode.maxMode 0 ∧ fw.setStatus gop 0 ≠ efiSuccess

variable {fw}

/-- Whether or not it can be set, a mode with a frame buffer is harmless. -/
theorem usable_setTo {gop : Ptr} {m : U32} {modes : Ptr → GopMode}
    (h : ¬Unusable (modes gop).info.pixelFormat)
    (hm : fw.setStatus gop m ≠ efiSuccess ∨ ¬Unusable (fw.modeInfo gop m).pixelFormat) :
    ¬Unusable (fw.setTo gop m modes gop).info.pixelFormat := by
  unfold setTo
  split
  · rename_i hok
    rw [Function.update_self]
    exact hm.resolve_left (not_not.mpr hok)
  · exact h

/-- A run that sets mode zero, which is not the current one. -/
theorem keeps_zero_iff {gop : Ptr} {s s' : GopState}
    (hu : ¬Unusable (s.gopMode gop).info.pixelFormat) (hcur : (s.gopMode gop).mode ≠ 0)
    (hmode : s'.gopMode = fw.setTo gop 0 s.gopMode) (hset : s'.setModes = [(gop, 0)]) :
    fw.KeepsFrameBuffer gop s s' ↔
      (∃ m, fw.Candidate gop (s.gopMode gop).maxMode m) ∧
        (fw.setStatus gop 0 ≠ efiSuccess ∨ ¬Unusable (fw.modeInfo gop 0).pixelFormat) ∨
      fw.Examined gop (s.gopMode gop).maxMode 0 ∧ fw.setStatus gop 0 ≠ efiSuccess := by
  constructor
  · intro h
    by_cases hcand : ∃ m, fw.Candidate gop (s.gopMode gop).maxMode m
    · refine .inl ⟨hcand, ?_⟩
      by_cases hok : fw.setStatus gop 0 = efiSuccess
      · refine .inr ?_
        have husable := h.usable
        rwa [hmode, setTo, if_pos hok, Function.update_self] at husable
      · exact .inl hok
    · obtain ⟨hkept, hexam⟩ := h.kept fun m hm => hcand ⟨m, hm⟩
      refine .inr ⟨hexam 0 (by rw [hset]; exact List.mem_cons_self), fun hok => hcur ?_⟩
      -- a mode that was set is the current one
      rw [hmode, setTo, if_pos hok, Function.update_self] at hkept
      rw [← hkept]
      rfl
  · rintro (⟨⟨m, hm⟩, hzero⟩ | ⟨hexam, hfail⟩)
    · refine ⟨?_, fun hnone => absurd hm (hnone m)⟩
      rw [hmode]
      exact usable_setTo hu hzero
    · have hsame : s'.gopMode = s.gopMode := by rw [hmode, setTo, if_neg hfail]
      refine ⟨by rw [hsame]; exact hu, fun _ => ⟨by rw [hsame], fun m hm => ?_⟩⟩
      rw [hset, List.mem_singleton] at hm
      cases hm
      exact hexam

/-- **The mode in effect** after a successful run has a frame buffer exactly where mode zero is
harmless. -/
theorem efiSetupGop_keeps_iff {debug : Bool} {si si' : ScreenInfo} {req : GraphicsMode} {gop : Ptr}
    {s s' : GopState}
    (hreq : req = graphicsModeAuto ∨ req = graphicsModeHighestResolution)
    (hstart : s.setModes = [])
    (hfind : run fw.handler (findGop fw.numHandles fw.handles) s = some (gop, s))
    (hrun : run fw.handler (efiSetupGop debug si req) s = some ((efiSuccess, si'), s')) :
    fw.KeepsFrameBuffer gop s s' ↔ fw.ZeroHarmless gop (s.gopMode gop) := by
  obtain ⟨hu, s1, hset, hmode1, hsets1, -⟩ := run_efiSetupGop hfind hrun
  have hrun := run_setGopMode hreq hset
  rw [← hmode1, ← hsets1, hstart] at hrun
  rcases best_spec gop (s.gopMode gop).maxMode with ⟨m, hm, hbest, hkey⟩ | ⟨hbest, hall⟩
  · -- a candidate is chosen
    refine iff_of_true ⟨?_, fun hnone => absurd hm (hnone m)⟩
      (.inr (.inl ⟨m, hm, (Match.key_pos_iff _).mp hkey⟩))
    rw [hbest] at hrun
    rcases hrun with ⟨-, hmode, -⟩ | ⟨-, hmode, -⟩
    · rw [hmode]; exact hu
    · rw [hmode]; exact usable_setTo hu (.inr hm.2)
  · rw [hbest] at hrun
    rcases hrun with ⟨hcur, hmode, hsets⟩ | ⟨hcur, hmode, hsets⟩
    · -- mode zero is current
      refine iff_of_true ⟨by rw [hmode]; exact hu, fun _ => ⟨by rw [hmode], fun m hm => ?_⟩⟩
        (.inl hcur.symm)
      rw [hsets] at hm
      cases hm
    · rw [keeps_zero_iff hu (Ne.symm hcur) hmode hsets]
      refine ⟨fun h => .inr (.inr h), fun h => ?_⟩
      rcases h with h | ⟨m, hm, h⟩ | h
      · exact absurd h (Ne.symm hcur)
      · have hpos := (Match.key_pos_iff (modeMatch (fw.modeInfo gop m) m)).mpr h
        rw [hall m hm] at hpos
        exact absurd hpos (Nat.lt_irrefl 0)
      · exact h

/-- Mode one has a frame buffer, mode zero has none. -/
def twoModes (queryStatus : Status) : GopFirmware := single queryStatus fun m => {
  horizontalResolution := 640
  verticalResolution := 480
  pixelFormat := if m = 0 then pixelBltOnly else pixelRgbReserved8BitPerColor
  pixelInformation := ⟨0, 0, 0, 0⟩
  pixelsPerScanLine := 640 }

theorem efiSetupGop_keeps_twoModes : ∃ si' s',
    (twoModes efiSuccess).KeepsFrameBuffer 0x3000 ((twoModes efiSuccess).start 2 1) s' ∧
      run (twoModes efiSuccess).handler (efiSetupGop false ScreenInfo.zero graphicsModeAuto)
        ((twoModes efiSuccess).start 2 1) = some ((efiSuccess, si'), s') :=
  ⟨_, _, (@efiSetupGop_keeps_iff (twoModes efiSuccess) false ScreenInfo.zero _ graphicsModeAuto
    0x3000 ((twoModes efiSuccess).start 2 1) _ (.inl rfl) rfl rfl rfl).mpr
    (.inr (.inl ⟨1, ⟨⟨by decide, rfl⟩, by decide⟩, .inl (by decide)⟩)), rfl⟩

/-- Mode one is current, no mode can be queried, and the run ends in mode zero. -/
theorem not_efiSetupGop_keeps : ¬∀ (fw : GopFirmware) (debug : Bool) (si si' : ScreenInfo)
    (req : GraphicsMode) (gop : Ptr) (s s' : GopState),
    req = graphicsModeAuto ∨ req = graphicsModeHighestResolution → s.setModes = [] →
    run fw.handler (findGop fw.numHandles fw.handles) s = some (gop, s) →
    run fw.handler (efiSetupGop debug si req) s = some ((efiSuccess, si'), s') →
    fw.KeepsFrameBuffer gop s s' := by
  intro h
  have husable := (h (twoModes efiDeviceError) false ScreenInfo.zero _ graphicsModeAuto 0x3000
    ((twoModes efiDeviceError).start 2 1) _ (.inl rfl) rfl rfl rfl).usable
  exact husable (.inl rfl)

end GopFirmware

end UefiStub
