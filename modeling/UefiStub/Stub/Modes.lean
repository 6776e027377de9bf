import UefiStub.Gop.Table
import UefiStub.Stub.Machine

/-!
# The mode list on a machine

`print_modes_list` on a `Machine` with at most 1000 modes prints the table of
those that are described, and waits for a key. Whatever the keyboard does, the
wait ends and nothing is set.
-/

namespace UefiStub

open Interact

namespace Machine

variable {m : Machine} {s : MachineRun} {gop : Ptr} {currentMode : U32}

/-- The entries of the `n` modes from `i` on. -/
def modeLines (m : Machine) (gop : Ptr) (currentMode : U32) (i n : Nat) : List ModeLine :=
  ((List.range' i n).filter fun k => m.gop.queryStatus gop (BitVec.ofNat 32 k) = efiSuccess).map
    fun k => (m.gop.modeInfo gop (BitVec.ofNat 32 k)).line (BitVec.ofNat 32 k) currentMode

/-- The entry of a mode that has been queried. -/
theorem run_printListEntry {mode : U32} (h : mode.toNat < 1000) (info : Ptr) (currentMode : U32)
    (s : MachineRun) : ∃ chunks,
      run m.uefi (printListEntry info mode currentMode) s =
        some ((false, currentMode), s.print chunks) ∧
      chunks.flatten = asciiUnits (modeText ((s.gop.infos info).line mode currentMode)) := by
  obtain ⟨p, hp, heq⟩ := printListEntry_eq h info currentMode
  obtain ⟨chunks, hflat, hrun⟩ := @Writes.text m _ _ (hp (s.gop.infos info))
  have hload : m.uefi (.loadModeInfo info) s = some (s.gop.infos info, s) := rfl
  refine ⟨chunks, ?_, hflat⟩
  rw [heq, Prog.op_bind, run_call, hload, Option.bind_some, run_bind_of _ (hrun s)]
  rfl

/-- A mode that is described is described in its buffer. -/
theorem queryMode_described {mode : U32} (h : m.gop.queryStatus gop mode = efiSuccess)
    (s : MachineRun) : ∃ r, m.uefi (.gopQueryMode gop mode) s =
      some ((efiSuccess, m.gop.infoBuffer gop mode), { s with gop := r }) ∧
    r.infos (m.gop.infoBuffer gop mode) = m.gop.modeInfo gop mode ∧ r.gopMode = s.gop.gopMode := by
  have hquery : m.uefi (.gopQueryMode gop mode) s =
      (m.gop.handler (.gopQueryMode gop mode) s.gop).map fun x => (x.1, { s with gop := x.2 }) :=
    rfl
  rw [hquery, GopFirmware.handler, h, if_pos rfl]
  exact ⟨_, rfl, Function.update_self .., rfl⟩

theorem queryMode_refused {mode : U32} (h : m.gop.queryStatus gop mode ≠ efiSuccess)
    (s : MachineRun) : m.uefi (.gopQueryMode gop mode) s =
      some ((m.gop.queryStatus gop mode, m.gop.infoBuffer gop mode), s) := by
  have hquery : m.uefi (.gopQueryMode gop mode) s =
      (m.gop.handler (.gopQueryMode gop mode) s.gop).map fun x => (x.1, { s with gop := x.2 }) :=
    rfl
  rw [hquery, GopFirmware.handler, if_neg h]
  rfl

theorem run_modeLoop {n i : Nat} (h : i + n ≤ 1000) (s : MachineRun) : ∃ r chunks,
    run m.uefi (chooseModeLoop gop printListEntry n (BitVec.ofNat 32 i) currentMode) s =
      some ((none, currentMode), ({ s with gop := r }).print chunks) ∧
    chunks.flatten = asciiUnits ((m.modeLines gop currentMode i n).flatMap modeText) ∧
    r.gopMode = s.gop.gopMode := by
  induction n generalizing i s with
  | zero => exact ⟨s.gop, [], by rw [MachineRun.print, List.append_nil]; rfl, rfl, rfl⟩
  | succ n ih =>
    have hnext : BitVec.ofNat 32 i + 1 = BitVec.ofNat 32 (i + 1) := (BitVec.ofNat_add ..).symm
    have hmode : (BitVec.ofNat 32 i).toNat < 1000 := by
      rw [toNat_ofNat_lt (by omega)]
      omega
    rw [chooseModeLoop, Prog.op_bind, run_call, hnext, modeLines, List.range'_succ]
    by_cases hq : m.gop.queryStatus gop (BitVec.ofNat 32 i) = efiSuccess
    · obtain ⟨r1, hquery, hinfo, hmode1⟩ := queryMode_described hq s
      obtain ⟨chunks, hentry, hline⟩ := run_printListEntry hmode
        (m.gop.infoBuffer gop (BitVec.ofNat 32 i)) currentMode { s with gop := r1 }
      obtain ⟨r2, chunks', hrun, hout, hmode2⟩ :=
        @ih (i + 1) (by omega) (MachineRun.print { s with gop := r1 } chunks)
      refine ⟨r2, chunks ++ chunks', ?_, ?_, hmode2.trans hmode1⟩
      · rw [hquery, Option.bind_some]
        dsimp only
        rw [if_neg (not_not.mpr rfl), run_bind_of _ hentry, run_bind_of _ (run_freeBuffer _ _)]
        refine hrun.trans ?_
        simp only [MachineRun.print, List.append_assoc]
      · rw [hinfo] at hline
        rw [List.flatten_append, hline, hout, modeLines,
          List.filter_cons_of_pos (by simpa using hq), List.map_cons, List.flatMap_cons,
          asciiUnits_append]
    · obtain ⟨r, chunks, hrun, hout, hmode⟩ := @ih (i + 1) (by omega) s
      refine ⟨r, chunks, ?_, ?_, hmode⟩
      · rw [queryMode_refused hq, Option.bind_some]
        dsimp only
        rw [if_pos hq]
        exact hrun
      · rw [hout, modeLines, List.filter_cons_of_neg (by simpa using hq)]

/-! ## The keyboard -/

/-- Whatever is answered, the wait ends and has done nothing else. -/
theorem run_waitForKey (usecs : U32) (s : MachineRun) :
    ∃ r, run m.uefi (efiWaitForKey usecs) s = some (r, s) :=
  (listens_waitForKey usecs).run_still fun o ho => by
    cases o <;> first | exact absurd ho id | exact ⟨_, rfl⟩

/-! ## The list -/

theorem run_printModesList (h : (s.gop.gopMode gop).maxMode.toNat ≤ 1000) : ∃ r chunks unable,
    run m.uefi (printModesList gop) s = some ((s.gop.gopMode gop).mode,
      ({ s with gop := r, stalls := s.stalls + unable.toNat }).print chunks) ∧
    chunks.flatten = asciiUnits (modesText ((s.gop.gopMode gop).maxMode - 1).toNat
      (m.modeLines gop (s.gop.gopMode gop).mode 0 (s.gop.gopMode gop).maxMode.toNat) unable) ∧
    r.gopMode = s.gop.gopMode := by
  have hload (s : MachineRun) : m.uefi (.loadGopMode gop) s = some (s.gop.gopMode gop, s) := rfl
  obtain ⟨p, hp, heq⟩ := printModesList_eq gop
  obtain ⟨head, hhead, hrunhead⟩ := @Writes.text m _ _ (hp (s.gop.gopMode gop).maxMode)
  obtain ⟨r, table, hrun, htable, hmode⟩ := @run_modeLoop m gop (s.gop.gopMode gop).mode
    (s.gop.gopMode gop).maxMode.toNat 0 (by omega) (s.print head)
  obtain ⟨press, hpress, hrunpress⟩ := @Writes.text m _ _
    (@Says.lit "\nPress any key to continue or wait 10 seconds\n" (by decide))
  obtain ⟨⟨status, key⟩, hwait⟩ := @run_waitForKey m (10 * 1000000)
    ((({ s.print head with gop := r }).print table).print press)
  have hchoose : run m.uefi (chooseMode gop printListEntry (s.gop.gopMode gop).mode)
      (s.print head) = some (((s.gop.gopMode gop).mode, (s.gop.gopMode gop).mode),
        ({ s.print head with gop := r }).print table) := by
    have hload : m.uefi (.loadGopMode gop) (s.print head) =
        some (s.gop.gopMode gop, s.print head) := rfl
    rw [chooseMode, Prog.op_bind, run_call, hload, Option.bind_some]
    exact run_bind_of _ hrun
  rw [heq, Prog.op_bind, run_call, hload, Option.bind_some, run_bind_of _ (hrunhead s),
    run_bind_of _ hchoose, run_bind_of _ (hrunpress _), run_bind_of _ hwait]
  dsimp only
  split
  · obtain ⟨unread, hunread, hrununread⟩ := @Writes.text m _ _
      (@Says.lit "Unable to read key, continuing in 10 seconds\n" (by decide))
    refine ⟨r, head ++ table ++ press ++ unread, true, ?_, ?_, hmode⟩
    · rw [run_bind_of _ (hrununread _)]
      simp only [MachineRun.print, List.append_assoc]
      rfl
    · rw [List.flatten_append, List.flatten_append, List.flatten_append, hhead, htable, hpress,
        hunread]
      simp [modesText, asciiUnits_append, List.flatMap_map, itemText, noteText]
  · refine ⟨r, head ++ table ++ press, false, ?_, ?_, hmode⟩
    · simp only [MachineRun.print, List.append_assoc]
      rfl
    · rw [List.flatten_append, List.flatten_append, hhead, htable, hpress]
      simp [modesText, asciiUnits_append, List.flatMap_map, itemText, noteText]

/-- **The mode list** on a machine reads back as the modes that are described, whatever the
keyboard does. It sets no mode. -/
theorem printModesList_readback (h : (s.gop.gopMode gop).maxMode.toNat ≤ 1000) :
    ∃ t list, run m.uefi (printModesList gop) s = some ((s.gop.gopMode gop).mode, t) ∧
      t.bus.out.flatten = s.bus.out.flatten ++ asciiUnits list ∧
      readModes list = some (((s.gop.gopMode gop).maxMode - 1).toNat,
        m.modeLines gop (s.gop.gopMode gop).mode 0 (s.gop.gopMode gop).maxMode.toNat) ∧
      t.gop.gopMode = s.gop.gopMode ∧ t.memory = s.memory ∧ t.bus.config = s.bus.config := by
  obtain ⟨r, chunks, unable, hrun, hout, hmode⟩ := @run_printModesList m s gop h
  refine ⟨_, _, hrun, ?_, readModes_modesText _ _ unable, hmode, rfl, rfl⟩
  rw [MachineRun.print, List.flatten_append, hout]

theorem printModesList_readback_desk :
    ∃ t list, run desk.uefi (printModesList 0x3000) desk.start = some (0, t) ∧
      t.bus.out.flatten = [] ++ asciiUnits list ∧
      readModes list = some (1, desk.modeLines 0x3000 0 0 2) ∧
      t.gop.gopMode = desk.start.gop.gopMode ∧ t.memory = desk.start.memory ∧
      t.bus.config = desk.start.bus.config :=
  printModesList_readback (by decide)

set_option maxRecDepth 4096 in
example : desk.modeLines 0x3000 0 0 2 =
    [⟨0, true, true, 640, 480, .mask 16⟩, ⟨1, false, true, 640, 480, .rgb⟩] :=
  rfl

end Machine

end UefiStub
