import UefiStub.Gop.Firmware
import UefiStub.Lib.Select

/-!
# Runs of `efi_setup_gop`

`find_gop` returns a graphics protocol whose current mode has a frame buffer.
`choose_highest_res` scans the candidates, the modes below `max_mode` that can
be queried and have a frame buffer, and starts from an all-zero record, so that
it returns zero where no candidate exceeds that record. The run then sets the
chosen mode, if it is not the current one, and describes the mode in effect.
-/

namespace UefiStub

open Interact

/-! ## Ranking -/

/-- What `highest_res` records of a mode. -/
def modeMatch (info : ModeInfo) (m : U32) : Match where
  mode := m
  area := info.horizontalResolution * info.verticalResolution
  depth := pixelBpp info.pixelFormat info.pixelInformation

/-- The area first, then the depth. -/
def Match.key (m : Match) : Nat := m.area.toNat * 2 ^ 8 + m.depth.toNat

theorem Match.key_lt_iff (a b : Match) :
    a.key < b.key ↔ b.area > a.area ∨ b.area = a.area ∧ b.depth > a.depth := by
  have ha := a.depth.isLt
  have hb := b.depth.isLt
  rw [key, key, gt_iff_lt, gt_iff_lt, BitVec.lt_def, BitVec.lt_def, ← BitVec.toNat_inj]
  omega

theorem Match.key_pos_iff (a : Match) : 0 < a.key ↔ a.area ≠ 0 ∨ a.depth ≠ 0 := by
  have h := Match.key_lt_iff Match.zero a
  rw [show Match.zero.key = 0 from rfl] at h
  rw [h, ← BitVec.toNat_inj.ne, ← BitVec.toNat_inj.ne, gt_iff_lt, gt_iff_lt, BitVec.lt_def,
    BitVec.lt_def, ← BitVec.toNat_inj]
  change 0 < a.area.toNat ∨ a.area.toNat = 0 ∧ 0 < a.depth.toNat ↔
    a.area.toNat ≠ 0 ∨ a.depth.toNat ≠ 0
  omega

theorem rankMode_eq {info : ModeInfo} (h : ¬Unusable info.pixelFormat) (m : U32) (b : Match) :
    rankMode info m b = keepMax Match.key b (modeMatch info m) := by
  unfold rankMode
  rw [if_neg h, keepMax]
  simp only [Match.key_lt_iff]
  rfl

theorem rankMode_unusable {info : ModeInfo} (h : Unusable info.pixelFormat) (m : U32) (b : Match) :
    rankMode info m b = b := if_pos h

namespace GopFirmware

variable (fw : GopFirmware)

/-- The mode is looked at: its number is below `max_mode` and it can be queried. -/
def Examined (gop : Ptr) (maxMode m : U32) : Prop :=
  m < maxMode ∧ fw.queryStatus gop m = efiSuccess

/-- An examined mode with a frame buffer. -/
def Candidate (gop : Ptr) (maxMode m : U32) : Prop :=
  fw.Examined gop maxMode m ∧ ¬Unusable (fw.modeInfo gop m).pixelFormat

/-- The records of the candidates among the `n` modes from `m` on. -/
def candidates (gop : Ptr) : Nat → U32 → List Match
  | 0, _ => []
  | n + 1, m =>
    if fw.queryStatus gop m = efiSuccess ∧ ¬Unusable (fw.modeInfo gop m).pixelFormat then
      modeMatch (fw.modeInfo gop m) m :: candidates gop n (m + 1)
    else candidates gop n (m + 1)

/-- The record `choose_highest_res` ends with. -/
def best (gop : Ptr) (maxMode : U32) : Match :=
  (fw.candidates gop maxMode.toNat 0).foldl (keepMax Match.key) Match.zero

variable {fw}

theorem mem_candidates {gop : Ptr} {b : Match} {n : Nat} {m : U32} :
    b ∈ fw.candidates gop n m ↔ ∃ i < n, fw.queryStatus gop (m + BitVec.ofNat 32 i) = efiSuccess ∧
      ¬Unusable (fw.modeInfo gop (m + BitVec.ofNat 32 i)).pixelFormat ∧
      b = modeMatch (fw.modeInfo gop (m + BitVec.ofNat 32 i)) (m + BitVec.ofNat 32 i) := by
  induction n generalizing m with
  | zero => simp [candidates]
  | succ n ih =>
    have hshift (i : Nat) : m + 1 + BitVec.ofNat 32 i = m + BitVec.ofNat 32 (i + 1) := by
      rw [BitVec.add_assoc, Nat.add_comm i 1, BitVec.ofNat_add]; rfl
    have hzero : m + BitVec.ofNat 32 0 = m := BitVec.add_zero m
    simp only [candidates, Nat.exists_lt_succ_left, hzero]
    split
    · rename_i h
      simp only [List.mem_cons, ih, hshift]
      exact or_congr ⟨fun hb => ⟨h.1, h.2, hb⟩, fun hb => hb.2.2⟩ Iff.rfl
    · rename_i h
      simp only [ih, hshift]
      exact ⟨.inr, fun h' => h'.resolve_left fun h0 => h ⟨h0.1, h0.2.1⟩⟩

theorem mem_candidates_zero {gop : Ptr} {b : Match} {maxMode : U32} :
    b ∈ fw.candidates gop maxMode.toNat 0 ↔
      ∃ m, fw.Candidate gop maxMode m ∧ b = modeMatch (fw.modeInfo gop m) m := by
  have hzero (m : U32) : 0 + m = m := BitVec.zero_add m
  simp only [mem_candidates, hzero]
  constructor
  · rintro ⟨i, hi, hq, hu, hb⟩
    have hlt : BitVec.ofNat 32 i < maxMode := by
      rw [BitVec.lt_def, BitVec.toNat_ofNat]
      exact Nat.lt_of_le_of_lt (Nat.mod_le ..) hi
    exact ⟨BitVec.ofNat 32 i, ⟨⟨hlt, hq⟩, hu⟩, hb⟩
  · rintro ⟨m, ⟨⟨hlt, hq⟩, hu⟩, hb⟩
    refine ⟨m.toNat, BitVec.lt_def.mp hlt, ?_⟩
    rw [BitVec.ofNat_toNat, BitVec.setWidth_eq]
    exact ⟨hq, hu, hb⟩

/-- The scan ends with a candidate that exceeds the all-zero record, or with that record because
there is none. -/
theorem best_spec (gop : Ptr) (maxMode : U32) :
    (∃ m, fw.Candidate gop maxMode m ∧ fw.best gop maxMode = modeMatch (fw.modeInfo gop m) m ∧
      0 < (modeMatch (fw.modeInfo gop m) m).key) ∨
    fw.best gop maxMode = Match.zero ∧
      ∀ m, fw.Candidate gop maxMode m → (modeMatch (fw.modeInfo gop m) m).key = 0 := by
  rcases scan_eq_or_mem Match.key (fw.candidates gop maxMode.toNat 0) Match.zero with
    h | ⟨hmem, hlt⟩
  · refine .inr ⟨h, fun m hm => ?_⟩
    have hle := key_scan_mem Match.key (mem_candidates_zero.mpr ⟨m, hm, rfl⟩) Match.zero
    rw [h] at hle
    exact Nat.le_zero.mp hle
  · obtain ⟨m, hm, hb⟩ := mem_candidates_zero.mp hmem
    refine .inl ⟨m, hm, hb, ?_⟩
    rw [← hb]
    exact hlt

/-! ## Runs -/

theorem run_findGopLoop {s : GopState} {handles : Ptr} {n : Nat} {i : U64} {firstGop : Ptr}
    (h0 : firstGop = 0 ∨ ¬Unusable (s.gopMode firstGop).info.pixelFormat) :
    ∃ gop, run fw.handler (findGopLoop handles n i firstGop) s = some (gop, s) ∧
      (gop = 0 ∨ ¬Unusable (s.gopMode gop).info.pixelFormat) := by
  induction n generalizing i firstGop with
  | zero => exact ⟨firstGop, rfl, h0⟩
  | succ n ih =>
    simp only [findGopLoop, Prog.op_bind, run_call, handler, Option.bind_some]
    split
    · exact ih h0
    · simp only [run_call, handler, Option.bind_some]
      split
      · exact ih h0
      · rename_i hu
        simp only [run_call, handler, Option.bind_some]
        split
        · exact ⟨_, rfl, .inr hu⟩
        · refine ih ?_
          split
          · exact .inr hu
          · exact h0

theorem run_findGop (s : GopState) (num : U64) (handles : Ptr) :
    ∃ gop, run fw.handler (findGop num handles) s = some (gop, s) ∧
      (gop = 0 ∨ ¬Unusable (s.gopMode gop).info.pixelFormat) := run_findGopLoop (.inl rfl)

theorem run_highestRes (info : Ptr) (m : U32) (b : Match) (s : GopState) :
    run fw.handler (highestRes info m b) s = some ((false, rankMode (s.infos info) m b), s) := rfl

theorem run_chooseModeLoop {gop : Ptr} {n : Nat} {m : U32} {ctx : Match} {r : Option U32 × Match}
    {s s' : GopState}
    (h : run fw.handler (chooseModeLoop gop highestRes n m ctx) s = some (r, s')) :
    r = (none, (fw.candidates gop n m).foldl (keepMax Match.key) ctx) := by
  induction n generalizing m ctx s with
  | zero => cases h; rfl
  | succ n ih =>
    simp only [chooseModeLoop, Prog.op_bind, run_call, handler, Option.bind_some] at h
    unfold candidates
    by_cases hq : fw.queryStatus gop m = efiSuccess
    · rw [if_neg (not_not.mpr hq), if_pos hq] at h
      rw [run_bind_of _ (run_highestRes _ _ _ _)] at h
      obtain ⟨_, s1, -, h⟩ := run_bind_inv h
      have hr := ih h
      dsimp only at hr
      rw [Function.update_self] at hr
      by_cases hu : Unusable (fw.modeInfo gop m).pixelFormat
      · rw [rankMode_unusable hu] at hr
        rw [if_neg fun hc => hc.2 hu, hr]
      · rw [rankMode_eq hu] at hr
        rw [if_pos ⟨hq, hu⟩, List.foldl_cons, hr]
    · rw [if_pos hq] at h
      rw [if_neg fun hc => hq hc.1, ih h]

theorem run_chooseHighestRes {gop : Ptr} {m : U32} {s s' : GopState}
    (h : run fw.handler (chooseHighestRes gop) s = some (m, s')) :
    m = (fw.best gop (s.gopMode gop).maxMode).mode ∧
      s'.gopMode = s.gopMode ∧ s'.setModes = s.setModes := by
  refine ⟨?_, run_quiet ((quiet_chooseMode quiet_highestRes _).bind fun _ => .ret _) h⟩
  obtain ⟨r, s1, h1, h2⟩ := run_bind_inv h
  simp only [chooseMode, Prog.op_bind, run_call, handler, Option.bind_some] at h1
  obtain ⟨r', s2, h3, h4⟩ := run_bind_inv h1
  have hr := run_chooseModeLoop h3
  rw [hr] at h4
  cases h4
  cases h2
  rfl

theorem run_switchMode {debug : Bool} {gop : Ptr} {cur new : U32} {s s' : GopState}
    (h : run fw.handler (switchMode debug gop cur new) s = some ((), s')) :
    new = cur ∧ s'.gopMode = s.gopMode ∧ s'.setModes = s.setModes ∨
    new ≠ cur ∧ s'.gopMode = fw.setTo gop new s.gopMode ∧
      s'.setModes = (gop, new) :: s.setModes := by
  have hprint {s : GopState} (h : run fw.handler (if debug = true then do
      let _ ← printModesList gop
      .ret () else .ret ()) s = some ((), s')) :
      s'.gopMode = s.gopMode ∧ s'.setModes = s.setModes := by
    refine run_quiet ?_ h
    split
    · exact (quiet_printModesList gop).bind fun _ => .ret _
    · exact .ret _
  rw [switchMode] at h
  by_cases hc : new = cur
  · rw [if_neg (not_not.mpr hc)] at h
    exact .inl ⟨hc, hprint h⟩
  · rw [if_pos hc] at h
    simp only [Prog.op_bind, run_call, handler, Option.bind_some] at h
    refine .inr ⟨hc, ?_⟩
    split at h
    · obtain ⟨_, s1, h1, h2⟩ := run_bind_inv h
      obtain ⟨hq1, hq2⟩ := run_quiet (quiet_console (console_puts _)) h1
      obtain ⟨hp1, hp2⟩ := hprint h2
      exact ⟨hp1.trans hq1, hp2.trans hq2⟩
    · exact hprint h

theorem run_setGopMode {debug : Bool} {gop : Ptr} {req : GraphicsMode} {s s' : GopState}
    (hreq : req = graphicsModeAuto ∨ req = graphicsModeHighestResolution)
    (h : run fw.handler (setGopMode debug gop req) s = some ((), s')) :
    (fw.best gop (s.gopMode gop).maxMode).mode = (s.gopMode gop).mode ∧
      s'.gopMode = s.gopMode ∧ s'.setModes = s.setModes ∨
    (fw.best gop (s.gopMode gop).maxMode).mode ≠ (s.gopMode gop).mode ∧
      s'.gopMode = fw.setTo gop (fw.best gop (s.gopMode gop).maxMode).mode s.gopMode ∧
      s'.setModes = (gop, (fw.best gop (s.gopMode gop).maxMode).mode) :: s.setModes := by
  simp only [setGopMode, Prog.op_bind, run_call, handler, Option.bind_some, if_pos hreq] at h
  obtain ⟨m, s1, h1, h2⟩ := run_bind_inv h
  obtain ⟨rfl, hmode, hset⟩ := run_chooseHighestRes h1
  have hsw := run_switchMode h2
  rwa [hmode, hset] at hsw

/-- A successful run sets a mode of the graphics protocol `find_gop` returns and describes it. -/
theorem run_efiSetupGop {debug : Bool} {si si' : ScreenInfo} {req : GraphicsMode} {gop : Ptr}
    {s s' : GopState} (hfind : run fw.handler (findGop fw.numHandles fw.handles) s = some (gop, s))
    (h : run fw.handler (efiSetupGop debug si req) s = some ((efiSuccess, si'), s')) :
    ¬Unusable (s.gopMode gop).info.pixelFormat ∧
      ∃ s1, run fw.handler (setGopMode debug gop req) s = some ((), s1) ∧
        s'.gopMode = s1.gopMode ∧ s'.setModes = s1.setModes ∧
        storeScreenInfo (s'.gopMode gop) si = some si' := by
  obtain ⟨gop', hfind', hgop⟩ := run_findGop s fw.numHandles fw.handles
  obtain rfl : gop = gop' := (Prod.mk.inj (Option.some.inj (hfind.symm.trans hfind'))).1
  simp only [efiSetupGop, Prog.op_bind, run_call, handler, Option.bind_some] at h
  split at h
  · rename_i hloc
    exact absurd (Prod.mk.inj (Prod.mk.inj (Option.some.inj h)).1).1 hloc
  rw [run_bind_of _ hfind] at h
  split at h
  · obtain ⟨_, s1, -, h2⟩ := run_bind_inv h
    have hst := (Prod.mk.inj (Prod.mk.inj (Option.some.inj h2)).1).1
    exact absurd hst (by decide)
  rename_i h0
  refine ⟨hgop.resolve_left h0, ?_⟩
  obtain ⟨_, s1, h1, h2⟩ := run_bind_inv h
  refine ⟨s1, h1, ?_⟩
  simp only [run_call, handler, Option.bind_some] at h2
  cases hsi : storeScreenInfo (s1.gopMode gop) si with
  | none =>
    rw [hsi, run_bind, run_lift_none] at h2
    cases h2
  | some si1 =>
    rw [hsi, lift_some, Prog.ret_bind] at h2
    have hq := run_quiet ((only_freeBuffer trivial).bind fun _ => .ret _) h2
    obtain ⟨_, s2, -, h3⟩ := run_bind_inv h2
    cases h3
    exact ⟨hq.1, hq.2, by rw [hq.1, hsi]⟩

end GopFirmware

end UefiStub
