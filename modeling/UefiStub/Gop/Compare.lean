import UefiStub.Gop.Exact
import UefiStub.Gop.Mode

/-!
# Comparing runs of `efi_setup_gop`

The DEBUG build lists the modes after it has set one. The list sets no mode, so
that both builds return the same and leave the same mode records
(`efiSetupGop_builds`). A second run of the code finds the graphics protocol
the first one found and the mode it chose; where that mode is in effect it sets
none, and it describes the same screen whatever the description was before
(`efiSetupGop_again`).

Both compare runs from states that may differ in the pool buffers with mode
information: the rest of the code reads the mode records only.
-/

namespace UefiStub

open Interact

namespace GopFirmware

variable {fw : GopFirmware} {debug : Bool} {gop : Ptr} {req : GraphicsMode} {si si' : ScreenInfo}
  {s s' t : GopState}

/-! ## The builds -/

theorem switchMode_true (gop : Ptr) (cur new : U32) : switchMode true gop cur new =
    switchMode false gop cur new >>= fun _ => printModesList gop >>= fun _ => .ret () := by
  by_cases hc : new ≠ cur
  · simp only [switchMode, if_pos hc, Prog.op_bind, Prog.call_bind]
    refine congrArg _ (funext fun status => ?_)
    by_cases hok : status ≠ efiSuccess
    · simp only [if_pos hok, Prog.bind_bind]
      rfl
    · simp only [if_neg hok]
      rfl
  · simp only [switchMode, if_neg hc]
    rfl

/-- The DEBUG build does what the release build does, then lists the modes. -/
theorem setGopMode_true (hreq : req = graphicsModeAuto ∨ req = graphicsModeHighestResolution)
    (gop : Ptr) : setGopMode true gop req =
      setGopMode false gop req >>= fun _ => printModesList gop >>= fun _ => .ret () := by
  simp only [setGopMode, if_pos hreq, switchMode_true, Prog.op_bind, Prog.call_bind,
    Prog.bind_bind]

/-- The release build sets the mode the DEBUG build sets. -/
theorem run_setGopMode_release (h : run fw.handler (setGopMode true gop req) s = some ((), s')) :
    ∃ t, run fw.handler (setGopMode false gop req) s = some ((), t) ∧
      t.gopMode = s'.gopMode ∧ t.setModes = s'.setModes := by
  by_cases hreq : req = graphicsModeAuto ∨ req = graphicsModeHighestResolution
  · rw [setGopMode_true hreq] at h
    obtain ⟨_, t, hset, hlist⟩ := run_bind_inv h
    obtain ⟨hmode, hmodes⟩ := run_quiet ((quiet_printModesList gop).bind fun _ => .ret _) hlist
    exact ⟨t, hset, hmode.symm, hmodes.symm⟩
  · unfold setGopMode at h ⊢
    simp only [Prog.op_bind, run_call, handler, Option.bind_some, if_neg hreq] at h ⊢
    exact ⟨s', h, rfl, rfl⟩

/-- A buffer that is freed in one state is freed in any. -/
theorem run_freeBuffer_any {ptr : Ptr} (h : run fw.handler (efiFreeBuffer ptr) s = some ((), s'))
    (t : GopState) : s' = s ∧ run fw.handler (efiFreeBuffer ptr) t = some ((), t) := by
  unfold efiFreeBuffer at h ⊢
  by_cases h0 : ptr = 0
  · rw [if_pos h0] at h ⊢
    cases h
    exact ⟨rfl, rfl⟩
  · rw [if_neg h0] at h ⊢
    simp only [Prog.op_bind, run_call, handler] at h ⊢
    obtain ⟨r, hr, hret⟩ := Option.bind_eq_some_iff.mp h
    obtain ⟨x, hx, rfl⟩ := Option.map_eq_some_iff.mp hr
    cases hret
    rw [hx]
    exact ⟨rfl, rfl⟩

/-- **The builds agree.** Where the DEBUG build returns, the release build returns the same status
and the same description, after the same `set_mode` calls. -/
theorem efiSetupGop_builds {status : Status}
    (h : run fw.handler (efiSetupGop true si req) s = some ((status, si'), s')) :
    ∃ t, run fw.handler (efiSetupGop false si req) s = some ((status, si'), t) ∧
      t.gopMode = s'.gopMode ∧ t.setModes = s'.setModes := by
  obtain ⟨gop, hfind, -⟩ : ∃ gop, run fw.handler (findGop fw.numHandles fw.handles) s =
      some (gop, s) ∧ _ := run_findGop s fw.numHandles fw.handles
  simp only [efiSetupGop, Prog.op_bind, run_call, handler, Option.bind_some] at h ⊢
  by_cases hloc : fw.locateStatus ≠ efiSuccess
  · rw [if_pos hloc] at h ⊢
    exact ⟨s', h, rfl, rfl⟩
  rw [if_neg hloc, run_bind_of _ hfind] at h ⊢
  by_cases h0 : gop = 0
  · rw [if_pos h0] at h ⊢
    exact ⟨s', h, rfl, rfl⟩
  rw [if_neg h0] at h ⊢
  obtain ⟨_, s1, hset, hrest⟩ := run_bind_inv h
  obtain ⟨t1, ht1, hmode, hmodes⟩ := run_setGopMode_release hset
  rw [run_bind_of _ ht1]
  simp only [run_call, handler, Option.bind_some] at hrest ⊢
  rw [hmode]
  cases hstore : storeScreenInfo (s1.gopMode gop) si with
  | none =>
    rw [hstore, run_bind, run_lift_none] at hrest
    cases hrest
  | some si1 =>
    rw [hstore, lift_some, Prog.ret_bind] at hrest
    obtain ⟨_, s2, hfree, hret⟩ := run_bind_inv hrest
    obtain ⟨rfl, ht⟩ := run_freeBuffer_any hfree t1
    cases hret
    exact ⟨t1, run_bind_of _ ht, hmode, hmodes⟩

/-- One mode, and a console without keys. -/
def talking (info : ModeInfo) : GopFirmware where
  locateStatus := efiSuccess
  numHandles := 1
  handles := 0x1000
  handle _ := 0x2000
  protocol _ _ := (efiSuccess, 0x3000)
  modeInfo _ _ := info
  frameBufferBase _ _ := 0x80000000
  queryStatus _ _ := efiSuccess
  infoBuffer _ _ := 0x4000
  setStatus _ _ := efiSuccess
  other
    | .freePool _ => some efiSuccess
    | .outputString _ => some efiSuccess
    | .loadConsoleIn => some (0 : Ptr)
    | .stall _ => some efiSuccess
    | _ => none

set_option maxRecDepth 8192 in
theorem efiSetupGop_builds_trueColor : ∃ s' t,
    run (talking trueColor).handler (efiSetupGop true ScreenInfo.zero graphicsModeAuto)
      ((talking trueColor).start 1 0) = some ((efiSuccess, trueColorScreen), s') ∧
    run (talking trueColor).handler (efiSetupGop false ScreenInfo.zero graphicsModeAuto)
      ((talking trueColor).start 1 0) = some ((efiSuccess, trueColorScreen), t) ∧
    t.gopMode = s'.gopMode ∧ t.setModes = s'.setModes := by
  obtain ⟨s', h⟩ : ∃ s', run (talking trueColor).handler
      (efiSetupGop true ScreenInfo.zero graphicsModeAuto) ((talking trueColor).start 1 0) =
        some ((efiSuccess, trueColorScreen), s') := ⟨_, rfl⟩
  obtain ⟨t, ht, hmode, hset⟩ := efiSetupGop_builds h
  exact ⟨s', t, h, ht, hmode, hset⟩

/-! ## A second run -/

/-- `find_gop` looks at the records for their pixel formats only. -/
theorem run_findGopLoop_congr {handles : Ptr} (huse : ∀ g, Unusable (t.gopMode g).info.pixelFormat ↔
      Unusable (s.gopMode g).info.pixelFormat) (n : Nat) (i : U64) (firstGop : Ptr)
    (h : run fw.handler (findGopLoop handles n i firstGop) s = some (gop, s)) :
    run fw.handler (findGopLoop handles n i firstGop) t = some (gop, t) := by
  induction n generalizing i firstGop with
  | zero =>
    cases h
    rfl
  | succ n ih =>
    simp only [findGopLoop, Prog.op_bind, run_call, handler, Option.bind_some] at h ⊢
    by_cases hproto : (fw.protocol (fw.handle i) .graphicsOutputProtocol).1 ≠ efiSuccess
    · rw [if_pos hproto] at h ⊢
      exact ih _ _ h
    rw [if_neg hproto] at h ⊢
    simp only [run_call, handler, Option.bind_some] at h ⊢
    by_cases hu : Unusable
        (s.gopMode (fw.protocol (fw.handle i) .graphicsOutputProtocol).2).info.pixelFormat
    · rw [if_pos hu] at h
      rw [if_pos ((huse _).mpr hu)]
      exact ih _ _ h
    rw [if_neg hu] at h
    rw [if_neg fun ht => hu ((huse _).mp ht)]
    simp only [run_call, handler, Option.bind_some] at h ⊢
    by_cases hout : (fw.protocol (fw.handle i) .consoleOutDevice).1 = efiSuccess
    · rw [if_pos hout] at h ⊢
      cases h
      rfl
    · rw [if_neg hout] at h ⊢
      exact ih _ _ h

/-- Every field of the description is stored. -/
theorem storeScreenInfo_overwrites (mode : GopMode) (si t : ScreenInfo) :
    storeScreenInfo mode si = storeScreenInfo mode t := by
  unfold storeScreenInfo storeLayout
  split <;> rfl

theorem setTo_other {g : Ptr} (h : g ≠ gop) (m : U32) (modes : Ptr → GopMode) :
    fw.setTo gop m modes g = modes g := by
  unfold setTo
  split
  · exact Function.update_of_ne h ..
  · rfl

/-- A run that succeeds located the handles and found a graphics protocol. -/
theorem located_of_success
    (hfind : run fw.handler (findGop fw.numHandles fw.handles) s = some (gop, s))
    (h : run fw.handler (efiSetupGop debug si req) s = some ((efiSuccess, si'), s')) :
    fw.locateStatus = efiSuccess ∧ gop ≠ 0 := by
  simp only [efiSetupGop, Prog.op_bind, run_call, handler, Option.bind_some] at h
  by_cases hloc : fw.locateStatus ≠ efiSuccess
  · rw [if_pos hloc] at h
    exact absurd (Prod.mk.inj (Prod.mk.inj (Option.some.inj h)).1).1 hloc
  rw [if_neg hloc, run_bind_of _ hfind] at h
  refine ⟨not_not.mp hloc, fun h0 => ?_⟩
  rw [if_pos h0] at h
  obtain ⟨_, s1, -, hret⟩ := run_bind_inv h
  have hstatus := (Prod.mk.inj (Prod.mk.inj (Option.some.inj hret)).1).1
  exact absurd hstatus (by decide)

/-- The mode that is chosen is in effect if it can be set; the other records are kept. -/
theorem run_setGopMode_chosen
    (hreq : req = graphicsModeAuto ∨ req = graphicsModeHighestResolution)
    (hset : fw.setStatus gop (fw.best gop (s.gopMode gop).maxMode).mode = efiSuccess)
    (h : run fw.handler (setGopMode debug gop req) s = some ((), s')) :
    (s'.gopMode gop).mode = (fw.best gop (s'.gopMode gop).maxMode).mode ∧
      ∀ g ≠ gop, s'.gopMode g = s.gopMode g := by
  rcases run_setGopMode hreq h with ⟨hcur, hmode, -⟩ | ⟨-, hmode, -⟩
  · rw [hmode]
    exact ⟨hcur.symm, fun _ _ => rfl⟩
  · refine ⟨?_, fun g hg => by rw [hmode, setTo_other hg]⟩
    have hrec : s'.gopMode gop = fw.describe gop (fw.best gop (s.gopMode gop).maxMode).mode
        (s.gopMode gop) := by
      rw [hmode, setTo, if_pos hset, Function.update_self]
    rw [hrec]
    rfl

/-- With the chosen mode in effect nothing is set. -/
theorem run_setGopMode_idle (hfree : fw.Frees)
    (hreq : req = graphicsModeAuto ∨ req = graphicsModeHighestResolution)
    (hdone : (s.gopMode gop).mode = (fw.best gop (s.gopMode gop).maxMode).mode) :
    ∃ t, run fw.handler (setGopMode false gop req) s = some ((), t) ∧
      t.gopMode = s.gopMode ∧ t.setModes = s.setModes := by
  obtain ⟨t, ht⟩ := chooseHighestRes_returns hfree gop s
  obtain ⟨-, hmode, hset⟩ := run_chooseHighestRes ht
  refine ⟨t, ?_, hmode, hset⟩
  simp only [setGopMode, Prog.op_bind, run_call, handler, Option.bind_some]
  rw [if_pos hreq, run_bind_of _ ht, switchMode, if_neg (not_not.mpr hdone.symm)]
  rfl

/-- **A second run** of `efi_setup_gop`, after one that could set the mode it chose and ended in a
mode with a frame buffer, sets no mode and describes the same screen, whatever `*si` is then. -/
theorem efiSetupGop_again (hfree : fw.Frees)
    (hreq : req = graphicsModeAuto ∨ req = graphicsModeHighestResolution)
    (hfind : run fw.handler (findGop fw.numHandles fw.handles) s = some (gop, s))
    (hset : fw.setStatus gop (fw.best gop (s.gopMode gop).maxMode).mode = efiSuccess)
    (h : run fw.handler (efiSetupGop debug si req) s = some ((efiSuccess, si'), s'))
    (hu : ¬Unusable (s'.gopMode gop).info.pixelFormat) (si0 : ScreenInfo) :
    ∃ t, run fw.handler (efiSetupGop false si0 req) s' = some ((efiSuccess, si'), t) ∧
      t.gopMode = s'.gopMode ∧ t.setModes = s'.setModes := by
  obtain ⟨hloc, hgop⟩ := located_of_success hfind h
  obtain ⟨hu0, s1, hrun, hmode, hmodes, hstore⟩ := run_efiSetupGop hfind h
  obtain ⟨hdone, hother⟩ := run_setGopMode_chosen hreq hset hrun
  rw [← hmode] at hdone hother
  have hfind' : run fw.handler (findGop fw.numHandles fw.handles) s' = some (gop, s') := by
    refine run_findGopLoop_congr (fun g => ?_) _ _ _ hfind
    by_cases hg : g = gop
    · subst hg
      exact iff_of_false hu hu0
    · rw [hother g hg]
  obtain ⟨s2, hidle, hmode2, hmodes2⟩ := run_setGopMode_idle hfree hreq hdone
  rw [storeScreenInfo_overwrites _ si si0, ← hmode2] at hstore
  obtain ⟨t, ht⟩ := efiSetupGop_returns hloc hfree hfind' hgop hidle hstore
  refine ⟨t, ht, ?_⟩
  obtain ⟨-, s3, hidle', hmode3, hmodes3, -⟩ := run_efiSetupGop hfind' ht
  obtain rfl : s2 = s3 := (Prod.mk.inj (Option.some.inj (hidle.symm.trans hidle'))).2
  exact ⟨hmode3.trans hmode2, hmodes3.trans hmodes2⟩

/-- Mode one has more bits a pixel than mode zero. -/
def deeper : GopFirmware := single efiSuccess fun m => if m = 0 then highColor else trueColor

set_option maxRecDepth 4096 in
/-- The first run sets mode one, the second one nothing. -/
theorem efiSetupGop_again_deeper : ∃ s' t,
    run deeper.handler (efiSetupGop false ScreenInfo.zero graphicsModeAuto) (deeper.start 2 0) =
      some ((efiSuccess, trueColorScreen), s') ∧ s'.setModes = [(0x3000, 1)] ∧
    run deeper.handler (efiSetupGop false highColorScreen graphicsModeAuto) s' =
      some ((efiSuccess, trueColorScreen), t) ∧ t.setModes = s'.setModes := by
  obtain ⟨s', h, hmodes, hu⟩ : ∃ s', run deeper.handler
      (efiSetupGop false ScreenInfo.zero graphicsModeAuto) (deeper.start 2 0) =
        some ((efiSuccess, trueColorScreen), s') ∧ s'.setModes = [(0x3000, 1)] ∧
      ¬Unusable (s'.gopMode 0x3000).info.pixelFormat := ⟨_, rfl, rfl, by decide⟩
  have hfree : deeper.Frees := fun buf h => Option.some_ne_none efiSuccess h
  obtain ⟨t, ht, -, hsame⟩ := efiSetupGop_again hfree (.inl rfl) rfl rfl h hu highColorScreen
  exact ⟨s', t, h, hmodes, ht, hsame⟩

end GopFirmware

end UefiStub
