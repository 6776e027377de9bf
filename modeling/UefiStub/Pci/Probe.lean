import UefiStub.Pci.Device

/-!
# Sizing one device

`PciDevice` is a device as a deterministic environment of `print_device_info`:
the location it reports, the writable bits of its configuration space, and
which 32-bit reads of its registers fail. The run lemmas here give each piece
of the sizing loop on the registers' values (`RegFile.word`), and
`run_barBody` one turn of the loop.
-/

namespace UefiStub

open Interact

structure PciDevice where
  segment : U64
  bus : U64
  device : U64
  function : U64
  /-- The writable bits. -/
  mask : Config
  /-- Whether the `n`-th 32-bit read at an offset fails. -/
  fails : Nat → Nat → Bool

/-- The configuration space, how often each offset was read and what was printed. -/
structure PciRun where
  config : Config
  reads : Nat → Nat
  out : List (List U16)

namespace PciRun

/-- The state before anything was read or printed. -/
def start (config : Config) : PciRun := ⟨config, fun _ => 0, []⟩

/-- After a 32-bit read at `off`. -/
def bump (s : PciRun) (off : Nat) : PciRun :=
  { s with reads := Function.update s.reads off (s.reads off + 1) }

/-- After a write to the COMMAND register. -/
def setCommand (s : PciRun) (mask : Config) (v : U64) : PciRun :=
  { s with config := s.config.write mask .uint16 pciCommand v }

/-- After a 32-bit write at `off`. -/
def set (s : PciRun) (mask : Config) (off : Nat) (v : U32) : PciRun :=
  { s with config := RegFile.deposit mask s.config off 4 (v.setWidth 64) }

end PciRun

/-- The offset of base address register `r`. -/
def barOffset (r : Nat) : Nat := pciBaseAddress0 + 4 * r

/-- Base address register `r`. -/
def reg (config : Config) (r : Nat) : U32 := RegFile.word config (barOffset r)

namespace PciDevice

/-- A failed read leaves its buffer and the device as they are. The header reads succeed. -/
def handler (dev : PciDevice) : Handler Op Op.Ans PciRun
  | .outputString u, s => some (efiSuccess, { s with out := s.out ++ [u] })
  | .pciGetLocation _, s => some ((efiSuccess, dev.segment, dev.bus, dev.device, dev.function), s)
  | .pciRead _ .uint32 offset buffer, s =>
    if pciBaseAddress0 ≤ offset.toNat ∧ dev.fails offset.toNat (s.reads offset.toNat) then
      some ((efiTimeout, buffer), s.bump offset.toNat)
    else some ((efiSuccess, s.config.read .uint32 offset buffer), s.bump offset.toNat)
  | .pciRead _ width offset buffer, s => some ((efiSuccess, s.config.read width offset buffer), s)
  | .pciWrite _ width offset buffer, s =>
    some (efiSuccess, { s with config := s.config.write dev.mask width offset buffer })
  | _, _ => none

variable {dev : PciDevice} {α : Type} {pci : Ptr} {s : PciRun}

/-! ## Single accesses -/

/-- Printing adds to the output. -/
theorem run_sends {p : Uefi Unit} {chunks : List (List U16)} (hp : Sends p chunks) (s : PciRun) :
    run dev.handler p s = some ((), { s with out := s.out ++ chunks }) := by
  rw [show p = calls (chunks.map Op.outputString) from hp]
  clear hp
  induction chunks generalizing s with
  | nil => simp [calls]
  | cons u chunks ih =>
    simp only [List.map_cons, calls, run_call, handler, Option.bind_some, ih, List.append_assoc,
      List.singleton_append]

/-- What is printed does not depend on the state. -/
theorem run_prints {p : Uefi Unit} (hp : Prints p) : ∃ us, ∀ s,
    run dev.handler p s = some ((), { s with out := s.out ++ us }) := by
  obtain ⟨chunks, hp⟩ := hp
  exact ⟨chunks, run_sends hp⟩

theorem run_writeCommand {v : U64} (k : Status → Uefi α) :
    run dev.handler (.call (.pciWrite pci .uint16 pciCommand v) k) s =
      run dev.handler (k efiSuccess) (s.setCommand dev.mask v) := by
  simp only [run_call, handler, Option.bind_some]
  rfl

theorem run_write32 {offset : U16} {v : U32} (k : Unit → Uefi α) :
    run dev.handler (efiPciCfgWrite32 pci offset v >>= k) s =
      run dev.handler (k ()) (s.set dev.mask offset.toNat v) := by
  have hw : (offset.setWidth 64).toNat = offset.toNat :=
    BitVec.toNat_setWidth_of_le (show 16 ≤ 64 by decide)
  simp only [efiPciCfgWrite32, Prog.op_bind, Prog.call_bind, run_call, handler, Option.bind_some,
    Prog.pure_eq, Prog.ret_bind, Config.write, hw]
  rfl

/-- What reading register `r` of value `value` gives, after it was read `n` times. -/
def readBar (dev : PciDevice) (r n : Nat) (value : U32) : U32 :=
  if dev.fails (barOffset r) n then ~~~0 else value

theorem run_read32 {offset : U16} {r : Nat} (ho : offset.toNat = barOffset r) (k : U32 → Uefi α) :
    run dev.handler (efiPciCfgRead32 pci offset >>= k) s =
      run dev.handler (k (readBar dev r (s.reads (barOffset r)) (reg s.config r)))
        (s.bump (barOffset r)) := by
  have hw : (offset.setWidth 64).toNat = barOffset r :=
    (BitVec.toNat_setWidth_of_le (show 16 ≤ 64 by decide)).trans ho
  have hbar : pciBaseAddress0 ≤ barOffset r := Nat.le_add_right ..
  have hones : (~~~0 : U64).setWidth 32 = (~~~0 : U32) := by decide
  simp only [efiPciCfgRead32, Prog.op_bind, Prog.call_bind, run_call, handler, hw, hbar, true_and,
    readBar]
  split
  · simp only [Option.bind_some, Prog.pure_eq, Prog.ret_bind, hones]
  · simp only [Option.bind_some, Prog.pure_eq, Prog.ret_bind, Config.read, hw]
    rw [show PciWidth.bytes .uint32 = 4 from rfl, RegFile.word_fetch, reg]

/-! ## One register -/

/-- The register with its writable bits set. -/
def ones (dev : PciDevice) (s : PciRun) (r : Nat) : U32 :=
  merge (reg dev.mask r) (reg s.config r) (~~~0)

/-- The value that is saved for register `r`. -/
def saved (dev : PciDevice) (s : PciRun) (r : Nat) : U32 :=
  readBar dev r (s.reads (barOffset r)) (reg s.config r)

/-- What is read back from it after all ones are written. -/
def sized (dev : PciDevice) (s : PciRun) (r : Nat) : U32 :=
  readBar dev r (s.reads (barOffset r) + 1) (ones dev s r)

/-- What it holds in the end: all ones if the read that saves it failed. -/
def left (dev : PciDevice) (s : PciRun) (r : Nat) : U32 :=
  if dev.fails (barOffset r) (s.reads (barOffset r)) then ones dev s r else reg s.config r

/-- The state after register `r` was saved, probed and written back. -/
def probed (dev : PciDevice) (s : PciRun) (r : Nat) : PciRun :=
  ((s.bump (barOffset r)).set dev.mask (barOffset r) (saved dev s r)).bump (barOffset r)

/-- The register reads back with its writable bits set; then it is restored. -/
theorem run_probe32 {offset : U16} {r : Nat} (ho : offset.toNat = barOffset r) (k : U32 → Uefi α) :
    run dev.handler (probe32 pci offset (saved dev s r) >>= k) (s.bump (barOffset r)) =
      run dev.handler (k (sized dev s r)) (probed dev s r) := by
  rw [probe32, Prog.bind_bind, run_write32]
  simp only [Prog.bind_bind]
  rw [run_read32 ho, run_write32, ho]
  simp only [PciRun.set, PciRun.bump, reg, RegFile.word_deposit, RegFile.deposit_deposit, sized,
    probed, ones, Function.update_self, Prog.pure_eq, Prog.ret_bind]

/-- The registers `idx` to `last` have been probed, the others have not been touched. -/
structure Probed (dev : PciDevice) (s s' : PciRun) (idx last : Nat) : Prop where
  out : s'.out = s.out
  inside : ∀ r, idx ≤ r → r ≤ last → reg s'.config r = left dev s r
  outside : ∀ r, r < idx ∨ last < r →
    reg s'.config r = reg s.config r ∧ s'.reads (barOffset r) = s.reads (barOffset r)

theorem toNat_offset {idx : Nat} (h : idx < 6) :
    (BitVec.ofNat 16 (pciBaseAddress0 + 4 * idx)).toNat = barOffset idx := by
  rw [BitVec.toNat_ofNat, barOffset, pciBaseAddress0]
  omega

theorem toNat_offset_next {idx : Nat} (h : idx < 6) :
    (BitVec.ofNat 16 (pciBaseAddress0 + 4 * idx) + 4).toNat = barOffset (idx + 1) := by
  rw [BitVec.toNat_add, toNat_offset h, barOffset, barOffset, pciBaseAddress0]
  change (0x10 + 4 * idx + 4) % 2 ^ 16 = _
  omega

theorem barOffset_inj {r r' : Nat} (h : barOffset r = barOffset r') : r = r' := by
  simp only [barOffset] at h; omega

theorem reg_setCommand (v : U64) (r : Nat) :
    reg (s.setCommand dev.mask v).config r = reg s.config r :=
  RegFile.word_deposit_out v (.inr (by
    change 4 + 2 ≤ pciBaseAddress0 + 4 * r
    rw [pciBaseAddress0]; omega))

theorem left_congr {s s' : PciRun} {r : Nat} (h : reg s'.config r = reg s.config r)
    (hr : s'.reads (barOffset r) = s.reads (barOffset r)) : left dev s' r = left dev s r := by
  simp only [left, ones, h, hr]

theorem saved_congr {s s' : PciRun} {r : Nat} (h : reg s'.config r = reg s.config r)
    (hr : s'.reads (barOffset r) = s.reads (barOffset r)) : saved dev s' r = saved dev s r := by
  simp only [saved, h, hr]

theorem sized_congr {s s' : PciRun} {r : Nat} (h : reg s'.config r = reg s.config r)
    (hr : s'.reads (barOffset r) = s.reads (barOffset r)) : sized dev s' r = sized dev s r := by
  simp only [sized, ones, h, hr]

theorem probed_single (s : PciRun) (r : Nat) : Probed dev s (probed dev s r) r r where
  out := rfl
  inside r' h1 h2 := by
    obtain rfl : r' = r := by omega
    simp only [probed, PciRun.set, PciRun.bump, reg, RegFile.word_deposit, left, saved, readBar,
      ones]
    split
    · rfl
    · exact merge_self ..
  outside r' h := by
    have hne : barOffset r' ≠ barOffset r := fun he => by have := barOffset_inj he; omega
    refine ⟨RegFile.word_deposit_out _ ?_, ?_⟩
    · simp only [barOffset]; omega
    · simp only [probed, PciRun.set, PciRun.bump, Function.update_of_ne hne]

theorem Probed.trans {s1 s2 s3 : PciRun} {idx mid last : Nat} (h12 : Probed dev s1 s2 idx mid)
    (h23 : Probed dev s2 s3 (mid + 1) last) (hle : idx ≤ mid + 1) (hle' : mid ≤ last) :
    Probed dev s1 s3 idx last where
  out := h23.out.trans h12.out
  inside r h1 h2 := by
    by_cases hr : r ≤ mid
    · rw [(h23.outside r (.inl (by omega))).1, h12.inside r h1 hr]
    · obtain ⟨he, hr'⟩ := h12.outside r (.inr (by omega))
      rw [h23.inside r (by omega) h2, left_congr he hr']
  outside r h := by
    obtain ⟨h1, h2⟩ := h12.outside r (by omega)
    obtain ⟨h3, h4⟩ := h23.outside r (by omega)
    exact ⟨h3.trans h1, h4.trans h2⟩

/-- COMMAND writes around the probing do not matter. -/
theorem Probed.setCommand {s' : PciRun} {idx last : Nat} {v v' : U64}
    (h : Probed dev (s.setCommand dev.mask v) s' idx last) :
    Probed dev s (s'.setCommand dev.mask v') idx last where
  out := h.out
  inside r h1 h2 := by
    rw [reg_setCommand, h.inside r h1 h2, left_congr (reg_setCommand v r) rfl]
  outside r hr := by
    obtain ⟨h1, h2⟩ := h.outside r hr
    exact ⟨by rw [reg_setCommand, h1, reg_setCommand], h2⟩

/-! ## One turn of the loop -/

/-- A turn at `idx` on the registers: what it finds and the index it leaves. -/
def turn (dev : PciDevice) (s : PciRun) (idx : Nat) : Option Bar × Nat :=
  if saved dev s idx = 0 then (none, idx)
  else if saved dev s idx &&& pciBaseAddressSpace = pciBaseAddressSpaceIo then
    (some (ioBar idx (saved dev s idx) (sized dev s idx)), idx)
  else if sized dev s idx &&& pciBaseAddressMemTypeMask = pciBaseAddressMemType64 then
    (some (memBar idx (saved dev s idx) (sized dev s idx)
      (some (saved dev s (idx + 1), sized dev s (idx + 1)))), idx + 1)
  else (some (memBar idx (saved dev s idx) (sized dev s idx) none), idx)

/-- What a turn prints. -/
def report : Option Bar → Uefi Unit
  | some b => if b.fullSize > 0 then printBar b else .ret ()
  | none => .ret ()

/-- The part of the body after the probing. -/
theorem run_report {command : U64} {b : Bar} (k : Nat → Uefi α) (idx : Nat) :
    run dev.handler ((do
      let _ ← pciWrite pci .uint16 pciCommand command
      if b.fullSize > 0 then printBar b
      return if b.is64bit then idx + 1 else idx) >>= k) s =
    run dev.handler (report (some b) >>= fun _ => k (if b.is64bit then idx + 1 else idx))
      (s.setCommand dev.mask command) := by
  simp only [Prog.op_bind, Prog.call_bind, run_writeCommand, report]
  split
  · simp only [Prog.bind_bind]; rfl
  · rfl

theorem turn_setCommand (v : U64) (idx : Nat) :
    turn dev (s.setCommand dev.mask v) idx = turn dev s idx := by
  have h (r : Nat) : reg (s.setCommand dev.mask v).config r = _ := reg_setCommand v r
  simp only [turn, saved_congr (h _) rfl, sized_congr (h _) rfl]

/-- A register that reads as zero is only read. -/
theorem probed_zero {idx : Nat} (h : saved dev s idx = 0) :
    Probed dev s (s.bump (barOffset idx)) idx idx where
  out := rfl
  inside r h1 h2 := by
    obtain rfl : r = idx := by omega
    have hok : ¬dev.fails (barOffset r) (s.reads (barOffset r)) = true := fun hf => by
      rw [saved, readBar, if_pos hf] at h
      exact absurd h (by decide)
    rw [left, if_neg hok]
    rfl
  outside r hr := by
    have hne : barOffset r ≠ barOffset idx := fun he => by have := barOffset_inj he; omega
    exact ⟨rfl, Function.update_of_ne hne ..⟩

theorem run_probeBar {offset : U16} {idx : Nat} (ho : offset.toNat = barOffset idx)
    (ho' : (offset + 4).toNat = barOffset (idx + 1)) (h0 : saved dev s idx ≠ 0) :
    ∃ b s', turn dev s idx = (some b, if b.is64bit then idx + 1 else idx) ∧
      Probed dev s s' idx (if b.is64bit then idx + 1 else idx) ∧ ∀ k : Bar → Uefi α,
        run dev.handler (probeBar pci idx offset (saved dev s idx) >>= k)
          (s.bump (barOffset idx)) = run dev.handler (k b) s' := by
  have hsingle : Probed dev s _ _ _ := probed_single s idx
  simp only [turn, if_neg h0]
  by_cases hio : saved dev s idx &&& pciBaseAddressSpace = pciBaseAddressSpaceIo
  · refine ⟨ioBar idx (saved dev s idx) (sized dev s idx), probed dev s idx, ?_, hsingle,
      fun k => ?_⟩
    · rw [if_pos hio]; rfl
    · rw [probeBar, Prog.bind_bind, run_probe32 ho, if_pos hio]; rfl
  by_cases h64 : sized dev s idx &&& pciBaseAddressMemTypeMask = pciBaseAddressMemType64
  · obtain ⟨hreg, hreads⟩ := hsingle.outside (idx + 1) (.inr (Nat.lt_succ_self _))
    refine ⟨memBar idx (saved dev s idx) (sized dev s idx)
      (some (saved dev s (idx + 1), sized dev s (idx + 1))),
      probed dev (probed dev s idx) (idx + 1),
      ?_, hsingle.trans (probed_single _ _) (Nat.le_succ _) (Nat.le_succ _), fun k => ?_⟩
    · rw [if_neg hio, if_pos h64]; rfl
    · rw [probeBar, Prog.bind_bind, run_probe32 ho, if_neg hio, if_pos h64]
      simp only [Prog.bind_bind]
      rw [run_read32 ho']
      change run dev.handler (probe32 pci (offset + 4) (saved dev (probed dev s idx) (idx + 1)) >>=
        _) _ = _
      rw [run_probe32 ho', ← saved_congr hreg hreads, ← sized_congr hreg hreads]
      rfl
  · refine ⟨memBar idx (saved dev s idx) (sized dev s idx) none, probed dev s idx, ?_, hsingle,
      fun k => ?_⟩
    · rw [if_neg hio, if_neg h64]; rfl
    · rw [probeBar, Prog.bind_bind, run_probe32 ho, if_neg hio, if_neg h64]; rfl

/-- **One turn**: it probes one register, or two for a 64-bit one, and then prints what it
found. -/
theorem run_barBody {command : U64} {idx : Nat} (hidx : idx < 6) :
    ∃ s', Probed dev s s' idx (turn dev s idx).2 ∧ ∀ k : Nat → Uefi α,
      run dev.handler (barBody pci command idx >>= k) s =
        run dev.handler (report (turn dev s idx).1 >>= fun _ => k (turn dev s idx).2) s' := by
  have hoff := toNat_offset hidx
  have hoff' := toNat_offset_next hidx
  have hok : ¬efiSuccess ≠ efiSuccess := fun h => h rfl
  -- decoding is disabled and the register saved
  have hread (k : Nat → Uefi α) : run dev.handler (barBody pci command idx >>= k) s =
      run dev.handler ((do
        if saved dev (s.setCommand dev.mask (command &&& ~~~0x7)) idx = 0 then
          let _ ← pciWrite pci .uint16 pciCommand command
          return idx
        let b ← probeBar pci idx (BitVec.ofNat 16 (pciBaseAddress0 + 4 * idx))
          (saved dev (s.setCommand dev.mask (command &&& ~~~0x7)) idx)
        let _ ← pciWrite pci .uint16 pciCommand command
        if b.fullSize > 0 then printBar b
        return if b.is64bit then idx + 1 else idx) >>= k)
      ((s.setCommand dev.mask (command &&& ~~~0x7)).bump (barOffset idx)) := by
    simp only [barBody, Prog.op_bind, Prog.call_bind]
    rw [run_writeCommand, if_neg hok, Prog.bind_bind, run_read32 hoff]
    rfl
  rw [← turn_setCommand (s := s) (command &&& ~~~0x7)]
  generalize hs1 : s.setCommand dev.mask (command &&& ~~~0x7) = s1 at hread
  by_cases h0 : saved dev s1 idx = 0
  · have hturn : turn dev s1 idx = (none, idx) := if_pos h0
    rw [hturn]
    refine ⟨(s1.bump (barOffset idx)).setCommand dev.mask command, ?_, fun k => ?_⟩
    · refine Probed.setCommand (v := command &&& ~~~0x7) ?_
      rw [hs1]
      exact probed_zero h0
    · rw [hread, if_pos h0]
      simp only [Prog.op_bind, Prog.call_bind]
      rw [run_writeCommand]
      rfl
  · obtain ⟨b, s', hturn, hprobed, hrun⟩ := run_probeBar
      hoff hoff' h0
    rw [hturn]
    refine ⟨s'.setCommand dev.mask command, ?_, fun k => ?_⟩
    · refine Probed.setCommand (v := command &&& ~~~0x7) ?_
      rw [hs1]
      exact hprobed
    · rw [hread, if_neg h0, Prog.bind_bind, hrun, run_report]

theorem prints_report (b : Option Bar) : Prints (report b) := by
  cases b with
  | none => exact prints_ret
  | some b =>
    rw [report]
    split
    · exact prints_bar b
    · exact prints_ret

end PciDevice

/-! ## The device line -/

/-- A device with a normal header, whatever its multi-function bit. -/
def NormalHeader (config : Config) : Prop := config 0x0e &&& 0x7f = 0

instance : DecidablePred NormalHeader := fun config =>
  inferInstanceAs (Decidable (config 0x0e &&& 0x7f = 0))

theorem NormalHeader.read {config : Config} (h : NormalHeader config) :
    config.read .uint8 pciHeaderType 0 &&& pciHeaderTypeMask = pciHeaderTypeNormal := by
  change RegFile.fetch config 14 1 0 &&& (0x7f : U8).setWidth 64 = 0
  rw [RegFile.fetch_byte, ← BitVec.setWidth_and, show config 14 &&& 0x7f = 0 from h]
  rfl

/-- The class code in bits 16 and up of the class register. -/
def Config.pciClass (config : Config) : U16 :=
  (config.read .uint32 pciClassRevision 0 >>> 16).setWidth 16

theorem PciDevice.run_printDeviceInfo {dev : PciDevice} {pci : Ptr} {s : PciRun}
    (h : NormalHeader s.config) : run dev.handler (printDeviceInfo pci) s =
      run dev.handler (do
        printDevice dev.segment dev.bus dev.device dev.function s.config.pciClass
        barLoop pci (s.config.read .uint16 pciCommand 0) 7 0
        return efiSuccess) (s.bump pciClassRevision.toNat) := by
  have hok : ¬efiSuccess ≠ efiSuccess := fun h => h rfl
  have hclass : ¬pciBaseAddress0 ≤ pciClassRevision.toNat := by decide
  have hnormal : ¬s.config.read .uint8 pciHeaderType 0 &&& pciHeaderTypeMask ≠
    pciHeaderTypeNormal := fun hn => hn h.read
  simp only [printDeviceInfo, Prog.op_bind, run_call, PciDevice.handler, Option.bind_some,
    if_neg hok, hclass, false_and, if_false, if_neg hnormal]
  rfl

end UefiStub
