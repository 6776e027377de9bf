import UefiStub.Lib.Bits
import UefiStub.Pci.Device

/-!
# Configuration space is restored

The environment `PciEnv` holds the configuration space of every device.
Lookups, the three header reads and the COMMAND write that disables decoding
may fail; any other access succeeds. A device is left alone while anything is
printed, and with decoding disabled in between: the only configurations a
device goes through are its entry configuration, that one with decoding
disabled, and the latter with one register overwritten.
-/

namespace UefiStub

open Interact

/-- The configuration space behind every protocol pointer. -/
abbrev PciState := Ptr → Config

/-- The header type, COMMAND and class accesses of `print_device_info`. -/
def HeaderRead (width : PciWidth) (offset : U64) : Prop :=
  width = .uint8 ∧ offset = pciHeaderType ∨ width = .uint16 ∧ offset = pciCommand ∨
    width = .uint32 ∧ offset = pciClassRevision

/-- A COMMAND write with the three decoding bits clear. -/
def DisablesDecoding (width : PciWidth) (offset buffer : U64) : Prop :=
  width = .uint16 ∧ offset = pciCommand ∧ buffer &&& 0x7 = 0

def PciEnv (mask : PciState) : Env Op Op.Ans PciState := fun s o =>
  match o with
  | .outputString _ | .locateHandleBuffer _ | .loadHandle _ _ | .handleProtocol _ _ | .freePool _
  | .pciGetLocation _ => fun _ s' => s' = s
  | .pciRead pci width offset buffer => fun x s' => s' = s ∧
    (x = (efiSuccess, (s pci).read width offset buffer) ∨
      HeaderRead width offset ∧ x.1 ≠ efiSuccess)
  | .pciWrite pci width offset buffer => fun x s' =>
    x = efiSuccess ∧
      s' = Function.update s pci ((s pci).write (mask pci) width offset buffer) ∨
    x ≠ efiSuccess ∧ s' = s ∧ DisablesDecoding width offset buffer
  | _ => fun _ _ => False

/-- Where a register other than COMMAND differs from `s0`, decoding is disabled. -/
def Shielded (s0 s : PciState) : Prop :=
  ∀ pci a, a ≠ 4 → a ≠ 5 → s pci a ≠ s0 pci a → s pci 4 &&& 0x7 = 0

/-- The states in which a call may be issued. -/
def Guard (s0 s : PciState) (o : Op) : Prop :=
  Shielded s0 s ∧ ∀ u, o = .outputString u → s = s0

section Calls

variable {mask s0 s : PciState} {α : Type} {Q : α → PciState → Prop}

theorem Shielded.refl (s0 : PciState) : Shielded s0 s0 := fun _ _ _ _ h => absurd rfl h

/-- Everything that is printed, before anything else is changed. -/
theorem spec_prints {p : Uefi Unit} {k : Unit → Uefi α} (hp : Prints p)
    (hk : Spec (PciEnv mask) (Guard s0) Q (k ()) s0) :
    Spec (PciEnv mask) (Guard s0) Q (p >>= k) s0 := by
  obtain ⟨chunks, rfl⟩ := hp
  refine Spec.bind (Spec.calls ?_ ?_ ?_ hk)
  · intro o _
    exact ⟨.refl s0, fun _ _ => rfl⟩
  · intro o ho
    obtain ⟨u, -, rfl⟩ := List.mem_map.mp ho
    exact ⟨efiSuccess, s0, rfl⟩
  · intro o ho x s' h
    obtain ⟨u, -, rfl⟩ := List.mem_map.mp ho
    exact h

/-- A call that does not touch configuration space. -/
theorem spec_lookup {o : Op} {k : o.Ans → Uefi α} [Inhabited o.Ans]
    (ho : ∀ s x s', PciEnv mask s o x s' ↔ s' = s)
    (hk : ∀ x, Spec (PciEnv mask) (Guard s0) Q (k x) s0) :
    Spec (PciEnv mask) (Guard s0) Q (.call o k) s0 :=
  .call ⟨.refl s0, fun _ _ => rfl⟩ ⟨default, s0, (ho _ _ _).mpr rfl⟩ fun x s' h => by
    rw [ho] at h; rw [h]; exact hk x

/-- A header read: its value, or a failure. -/
theorem spec_header {pci : Ptr} {width : PciWidth} {offset buffer : U64}
    {k : Status × U64 → Uefi α}
    (hok : Spec (PciEnv mask) (Guard s0) Q (k (efiSuccess, (s0 pci).read width offset buffer)) s0)
    (hfail : ∀ x : Status × U64, x.1 ≠ efiSuccess → Spec (PciEnv mask) (Guard s0) Q (k x) s0) :
    Spec (PciEnv mask) (Guard s0) Q (.call (.pciRead pci width offset buffer) k) s0 := by
  refine .call ⟨.refl s0, fun _ _ => rfl⟩ ⟨_, s0, rfl, .inl rfl⟩ fun x s' h => ?_
  obtain ⟨rfl, rfl | ⟨-, hx⟩⟩ := h
  · exact hok
  · exact hfail x hx

theorem spec_read {pci : Ptr} {width : PciWidth} {offset buffer : U64} {k : Status × U64 → Uefi α}
    (hs : Shielded s0 s) (hh : ¬HeaderRead width offset)
    (hk : Spec (PciEnv mask) (Guard s0) Q (k (efiSuccess, (s pci).read width offset buffer)) s) :
    Spec (PciEnv mask) (Guard s0) Q (.call (.pciRead pci width offset buffer) k) s := by
  refine .call ⟨hs, fun _ h => by cases h⟩ ⟨_, s, rfl, .inl rfl⟩ fun x s' h => ?_
  obtain ⟨rfl, rfl | ⟨hx, -⟩⟩ := h
  · exact hk
  · exact absurd hx hh

theorem spec_write {pci : Ptr} {width : PciWidth} {offset buffer : U64} {k : Status → Uefi α}
    (hs : Shielded s0 s)
    (hok : Spec (PciEnv mask) (Guard s0) Q (k efiSuccess)
      (Function.update s pci ((s pci).write (mask pci) width offset buffer)))
    (hfail : DisablesDecoding width offset buffer → ∀ x, x ≠ efiSuccess →
      Spec (PciEnv mask) (Guard s0) Q (k x) s) :
    Spec (PciEnv mask) (Guard s0) Q (.call (.pciWrite pci width offset buffer) k) s := by
  refine .call ⟨hs, fun _ h => by cases h⟩ ⟨efiSuccess, _, .inl ⟨rfl, rfl⟩⟩ fun x s' h => ?_
  obtain ⟨rfl, rfl⟩ | ⟨hx, rfl, hd⟩ := h
  · exact hok
  · exact hfail hd x hx

end Calls

/-! ## One device -/

section Device

variable {mask s0 : PciState} {pci : Ptr} {g : Config} {α : Type} {Q : α → PciState → Prop}

/-- The entry state with another configuration for one device. -/
def withConfig (s0 : PciState) (pci : Ptr) (g : Config) : PciState := Function.update s0 pci g

@[simp] theorem withConfig_self (s0 : PciState) (pci : Ptr) : withConfig s0 pci (s0 pci) = s0 :=
  Function.update_eq_self ..

@[simp] theorem withConfig_apply (s0 : PciState) (pci : Ptr) (g : Config) :
    withConfig s0 pci g pci = g := Function.update_self ..

@[simp] theorem update_withConfig (s0 : PciState) (pci : Ptr) (g h : Config) :
    Function.update (withConfig s0 pci g) pci h = withConfig s0 pci h := Function.update_idem ..

theorem shielded_withConfig (hg : g 4 &&& 0x7 = 0) : Shielded s0 (withConfig s0 pci g) := by
  intro pci' a _ _ ha
  by_cases h : pci' = pci
  · rw [h, withConfig_apply]; exact hg
  · exact absurd (congrFun (Function.update_of_ne h ..) a) ha

theorem not_headerRead {offset : U16} (ho : 0x10 ≤ offset.toNat) :
    ¬HeaderRead .uint32 (offset.setWidth 64) := by
  rintro (⟨h, -⟩ | ⟨h, -⟩ | ⟨-, h⟩)
  · cases h
  · cases h
  · have := congrArg BitVec.toNat h
    rw [BitVec.toNat_setWidth_of_le (by decide)] at this
    change offset.toNat = 8 at this
    omega

/-- A register write leaves COMMAND alone. -/
theorem write_bar_command {m : Config} {offset : U16} (ho : 0x10 ≤ offset.toNat) (v : U64) :
    g.write m .uint32 (offset.setWidth 64) v 4 = g 4 :=
  Config.write_out v (.inl (by
    rw [BitVec.toNat_setWidth_of_le (show 16 ≤ 64 by decide)]; omega))

theorem spec_read32 {offset : U16} {k : U32 → Uefi α} (hg : g 4 &&& 0x7 = 0)
    (ho : 0x10 ≤ offset.toNat)
    (hk : Spec (PciEnv mask) (Guard s0) Q
      (k ((g.read .uint32 (offset.setWidth 64) (~~~0)).setWidth 32)) (withConfig s0 pci g)) :
    Spec (PciEnv mask) (Guard s0) Q (efiPciCfgRead32 pci offset >>= k) (withConfig s0 pci g) :=
  spec_read (shielded_withConfig hg) (not_headerRead ho) (by rwa [withConfig_apply])

theorem spec_write32 {offset : U16} {value : U32} {k : Unit → Uefi α} (hg : g 4 &&& 0x7 = 0)
    (hk : Spec (PciEnv mask) (Guard s0) Q (k ())
      (withConfig s0 pci (g.write (mask pci) .uint32 (offset.setWidth 64) (value.setWidth 64)))) :
    Spec (PciEnv mask) (Guard s0) Q (efiPciCfgWrite32 pci offset value >>= k)
      (withConfig s0 pci g) :=
  spec_write (shielded_withConfig hg) (by rwa [withConfig_apply, update_withConfig])
    (fun hd => absurd hd.1 (by decide))

/-- Probing a register with its saved value leaves the device as it was. -/
theorem spec_probe32 {offset : U16} {k : U32 → Uefi α} (hg : g 4 &&& 0x7 = 0)
    (ho : 0x10 ≤ offset.toNat)
    (hk : ∀ size, Spec (PciEnv mask) (Guard s0) Q (k size) (withConfig s0 pci g)) :
    Spec (PciEnv mask) (Guard s0) Q
      (probe32 pci offset ((g.read .uint32 (offset.setWidth 64) (~~~0)).setWidth 32) >>= k)
      (withConfig s0 pci g) := by
  rw [probe32, Prog.bind_bind]
  refine spec_write32 hg ?_
  have hg' := (write_bar_command (m := mask pci) (g := g) ho (BitVec.setWidth 64 (~~~0 : U32))).symm
    ▸ hg
  simp only [Prog.bind_bind]
  refine spec_read32 hg' ho (spec_write32 hg' ?_)
  rw [Config.write_restore]
  exact hk _

theorem spec_probeBar {bar : Nat} {offset : U16} {k : Bar → Uefi α} (hg : g 4 &&& 0x7 = 0)
    (ho : 0x10 ≤ offset.toNat) (ho' : offset.toNat ≤ 0x24)
    (hk : ∀ b, Spec (PciEnv mask) (Guard s0) Q (k b) (withConfig s0 pci g)) :
    Spec (PciEnv mask) (Guard s0) Q
      (probeBar pci bar offset ((g.read .uint32 (offset.setWidth 64) (~~~0)).setWidth 32) >>= k)
      (withConfig s0 pci g) := by
  have hnext : 0x10 ≤ (offset + 4).toNat := by
    rw [BitVec.toNat_add]; change 0x10 ≤ (offset.toNat + 4) % 2 ^ 16; omega
  rw [probeBar, Prog.bind_bind]
  refine spec_probe32 hg ho fun size => ?_
  split
  · exact hk _
  split
  · simp only [Prog.bind_bind]
    exact spec_read32 hg hnext (spec_probe32 hg hnext fun _ => hk _)
  · exact hk _

/-- The first COMMAND write of the body disables decoding. -/
theorem disabled_command {f m : Config} (hm : m 4 &&& 0x7 = 0x7) (command : U64) :
    f.write m .uint16 pciCommand (command &&& ~~~0x7) 4 &&& 0x7 = 0 := by
  have h : RegFile.deposit m f 4 _ _ (4 + 0) = _ := RegFile.deposit_in (command &&& ~~~0x7)
    (show 0 < PciWidth.bytes .uint16 by decide)
  change RegFile.deposit m f 4 (PciWidth.bytes .uint16) (command &&& ~~~0x7) (4 + 0) &&& 0x7 = 0
  rw [h, merge_and _ _ _ _ hm, byteOf, BitVec.extractLsb'_and, BitVec.and_assoc,
    show (~~~0x7 : U64).extractLsb' (8 * 0) 8 &&& 0x7 = 0 by decide]
  exact BitVec.and_zero

/-- The COMMAND write at the end of the body, which may fail only where decoding was disabled at
entry and the disabling write wrote what was there. -/
theorem spec_enable {buf : U64} {k : Status → Uefi α} (hm : mask pci 4 &&& 0x7 = 0x7)
    (hk : ∀ x, Spec (PciEnv mask) (Guard s0) Q (k x) s0) :
    Spec (PciEnv mask) (Guard s0) Q
      (.call (.pciWrite pci .uint16 pciCommand ((s0 pci).read .uint16 pciCommand buf)) k)
      (withConfig s0 pci ((s0 pci).write (mask pci) .uint16 pciCommand
        ((s0 pci).read .uint16 pciCommand buf &&& ~~~0x7))) := by
  refine spec_write (shielded_withConfig (disabled_command hm _)) ?_ fun hd x _ => ?_
  · rw [withConfig_apply, update_withConfig, Config.write_command, withConfig_self]
    exact hk _
  · rw [and_not_of_and_eq_zero hd.2.2, Config.write_command_self, withConfig_self]
    exact hk _

/-- **One turn of the loop** leaves every device as it was. -/
theorem spec_barBody {buf : U64} {idx : Nat} (hm : mask pci 4 &&& 0x7 = 0x7) (hidx : idx < 6) :
    Spec (PciEnv mask) (Guard s0) (fun idx' s => idx ≤ idx' ∧ s = s0)
      (barBody pci ((s0 pci).read .uint16 pciCommand buf) idx) s0 := by
  have hoff : (BitVec.ofNat 16 (pciBaseAddress0 + 4 * idx)).toNat = 0x10 + 4 * idx := by
    rw [BitVec.toNat_ofNat, pciBaseAddress0]; omega
  have hg := disabled_command (f := s0 pci) hm ((s0 pci).read .uint16 pciCommand buf)
  simp only [barBody, Prog.op_bind]
  refine spec_write (.refl s0) ?_ fun _ x hx => ?_
  · rw [if_neg (fun h => h rfl)]
    refine spec_read32 hg (by omega) ?_
    split
    · exact spec_enable hm fun _ => .ret ⟨Nat.le_refl _, rfl⟩
    refine spec_probeBar hg (by omega) (by omega) fun b => spec_enable hm fun _ => ?_
    have hend : Spec (PciEnv mask) (Guard s0) (fun idx' s => idx ≤ idx' ∧ s = s0)
        (pure (if b.is64bit = true then idx + 1 else idx)) s0 := .ret ⟨le_index b idx, rfl⟩
    split
    · exact spec_prints (prints_bar b) hend
    · exact hend
  · rw [if_pos hx]
    exact spec_prints (prints_lit _) (.ret ⟨Nat.le_refl _, rfl⟩)

theorem spec_barLoop {buf : U64} (hm : mask pci 4 &&& 0x7 = 0x7) : ∀ {fuel idx : Nat},
    6 < fuel + idx → 0 < fuel → Spec (PciEnv mask) (Guard s0) (fun _ s => s = s0)
      (barLoop pci ((s0 pci).read .uint16 pciCommand buf) fuel idx) s0
  | fuel + 1, idx, h, _ => by
    unfold barLoop
    split
    · refine Spec.bind ((spec_barBody hm ‹_›).post fun idx' s hs => ?_)
      obtain ⟨hle, hs⟩ := hs
      rw [hs]
      exact spec_barLoop hm (by omega) (by omega)
    · exact .ret rfl

theorem spec_printDeviceInfo (hm : mask pci 4 &&& 0x7 = 0x7) :
    Spec (PciEnv mask) (Guard s0) (fun _ s => s = s0) (printDeviceInfo pci) s0 := by
  simp only [printDeviceInfo, Prog.op_bind]
  refine spec_lookup (fun _ _ _ => Iff.rfl) fun ⟨status, segment, bus, device, function⟩ => ?_
  simp only
  split
  · exact spec_prints (prints_lit _) (.ret rfl)
  have hret (x : Status × U64) (hx : x.1 ≠ efiSuccess) {p q : Uefi Status}
      (hp : Spec (PciEnv mask) (Guard s0) (fun _ s => s = s0) p s0) :
      Spec (PciEnv mask) (Guard s0) (fun _ s => s = s0) (if x.1 ≠ efiSuccess then p else q) s0 := by
    rw [if_pos hx]; exact hp
  refine spec_header ?_ fun x hx => hret x hx (.ret rfl)
  rw [if_neg (fun h => h rfl)]
  refine spec_header ?_ fun x hx => hret x hx (.ret rfl)
  rw [if_neg (fun h => h rfl)]
  refine spec_header ?_ fun x hx => hret x hx (spec_prints (prints_lit _) (.ret rfl))
  rw [if_neg (fun h => h rfl)]
  refine spec_prints (prints_device ..) ?_
  split
  · exact .ret rfl
  · exact Spec.bind ((spec_barLoop hm (by omega) (by omega)).post fun _ s hs => by
      subst hs; exact .ret rfl)

end Device

/-! ## All devices -/

section Setup

variable {mask s0 : PciState}

theorem spec_pciHandleLoop (hm : ∀ pci, mask pci 4 &&& 0x7 = 0x7) (handles : Ptr) :
    ∀ (n : Nat) (i : U64), Spec (PciEnv mask) (Guard s0) (fun _ s => s = s0)
      (pciHandleLoop handles n i) s0
  | 0, _ => .ret rfl
  | n + 1, i => by
    simp only [pciHandleLoop, Prog.op_bind]
    refine spec_lookup (fun _ _ _ => Iff.rfl) fun handle => ?_
    refine spec_lookup (fun _ _ _ => Iff.rfl) fun ⟨status, pci⟩ => ?_
    simp only
    split
    · exact spec_pciHandleLoop hm handles n (i + 1)
    · refine Spec.bind ((spec_printDeviceInfo (hm pci)).post fun _ s hs => ?_)
      rw [hs]
      exact spec_pciHandleLoop hm handles n (i + 1)

theorem spec_efiSetupPci (hm : ∀ pci, mask pci 4 &&& 0x7 = 0x7) :
    Spec (PciEnv mask) (Guard s0) (fun _ s => s = s0) efiSetupPci s0 := by
  simp only [efiSetupPci, Prog.op_bind]
  refine spec_lookup (fun _ _ _ => Iff.rfl) fun ⟨status, numHandles, handles⟩ => ?_
  simp only
  split
  · exact .ret rfl
  refine Spec.bind ((spec_pciHandleLoop hm handles _ _).post fun _ s hs => ?_)
  subst hs
  simp only [efiFreeBuffer]
  split
  · exact .ret rfl
  · simp only [Prog.op_bind, Prog.call_bind]
    exact spec_lookup (fun _ _ _ => Iff.rfl) fun _ => .ret rfl

/-- **Sizing leaves no trace.** At every step of every run: a register other than COMMAND differs
from its entry value only while decoding is disabled, anything is printed only in the entry state,
and the run returns in the entry state. -/
theorem efiSetupPci_restores (hm : ∀ pci, mask pci 4 &&& 0x7 = 0x7) (s0 : PciState)
    (p : Uefi Status) (s : PciState) (h : Reach (PciEnv mask) (efiSetupPci, s0) (p, s)) :
    Shielded s0 s ∧ (∀ u k, p = .call (.outputString u) k → s = s0) ∧
      ∀ status, p = .ret status → s = s0 := by
  have hs : Spec (PciEnv mask) (Guard s0) (fun _ s => s = s0) p s :=
    (spec_efiSetupPci hm).of_reach h
  cases p with
  | ret status =>
    obtain ⟨heq⟩ := hs
    refine ⟨?_, fun _ _ h => (by cases h), fun _ _ => heq⟩
    rw [heq]
    exact .refl s0
  | call o k =>
    obtain ⟨hshield, hprint⟩ := (Spec.call_iff.mp hs).1
    refine ⟨hshield, fun u _ h => ?_, fun _ h => by cases h⟩
    cases h
    exact hprint u rfl

/-- One handle, whose device answers every access. -/
def oneDevice (mask : PciState) : Handler Op Op.Ans PciState
  | .locateHandleBuffer _, s => some ((efiSuccess, 1, 0x1000), s)
  | .loadHandle _ _, s => some (0x2000, s)
  | .handleProtocol _ _, s => some ((efiSuccess, 0x3000), s)
  | .freePool _, s => some (efiSuccess, s)
  | .outputString _, s => some (efiSuccess, s)
  | .pciGetLocation _, s => some ((efiSuccess, 0, 0, 3, 0), s)
  | .pciRead pci width offset buffer, s =>
    some ((efiSuccess, (s pci).read width offset buffer), s)
  | .pciWrite pci width offset buffer, s =>
    some (efiSuccess, Function.update s pci ((s pci).write (mask pci) width offset buffer))
  | _, _ => none

theorem oneDevice_env {o : Op} {s s' : PciState} {x : o.Ans}
    (h : oneDevice mask o s = some (x, s')) : PciEnv mask s o x s' := by
  cases o with
  | pciRead pci width offset buffer =>
    cases h
    exact ⟨rfl, .inl rfl⟩
  | pciWrite pci width offset buffer =>
    cases h
    exact .inl ⟨rfl, rfl⟩
  | _ => cases h <;> rfl

/-- A device with one window, of 4 KiB, which decodes at entry. -/
def window : PciState := fun _ a =>
  if a = 0x04 then 0x07 else if a < 0x10 then 0 else [0x00, 0x10, 0xbf, 0xfe].getD (a - 0x10) 0

def windowMask : PciState := fun _ a =>
  if a = 0x04 then 0x07 else if a < 0x10 then 0 else [0x00, 0xf0, 0xff, 0xff].getD (a - 0x10) 0

set_option maxRecDepth 4096 in
/-- Where the ones that were written are read back, where the address is printed, and at the end. -/
theorem efiSetupPci_restores_window :
    (∃ p s, advance (oneDevice windowMask) 22 (efiSetupPci, window) = some (p, s) ∧
      RegFile.word (s 0x3000) 0x10 = 0xfffff000 ∧ Shielded window s ∧
      (∀ u k, p = .call (.outputString u) k → s = window) ∧
      ∀ status, p = .ret status → s = window) ∧
    (∃ k s, advance (oneDevice windowMask) 30 (efiSetupPci, window) =
      some (.call (.outputString (asciiUnits (octets "00000000febf1000"))) k, s) ∧ s = window) ∧
    ∃ s, advance (oneDevice windowMask) 56 (efiSetupPci, window) = some (.ret efiSuccess, s) ∧
      s = window := by
  have henv (o : Op) (s : PciState) (x : o.Ans) (s' : PciState)
      (h : oneDevice windowMask o s = some (x, s')) : PciEnv windowMask s o x s' := oneDevice_env h
  have hreach {n : Nat} {c : Uefi Status × PciState}
      (h : advance (oneDevice windowMask) n (efiSetupPci, window) = some c) :
      Reach (PciEnv windowMask) (efiSetupPci, window) c := reach_advance henv h
  have hbits : (0x07 : U8) &&& 0x7 = 0x7 := by decide
  have hmask (pci : Ptr) : windowMask pci 4 &&& 0x7 = 0x7 := hbits
  have hsized : ∃ p s, advance (oneDevice windowMask) 22 (efiSetupPci, window) = some (p, s) ∧
      RegFile.word (s 0x3000) 0x10 = 0xfffff000 := ⟨_, _, rfl, by decide⟩
  have hprint : ∃ k s, advance (oneDevice windowMask) 30 (efiSetupPci, window) =
      some (.call (.outputString (asciiUnits (octets "00000000febf1000"))) k, s) := ⟨_, _, rfl⟩
  have hend : ∃ s, advance (oneDevice windowMask) 56 (efiSetupPci, window) =
      some (.ret efiSuccess, s) := ⟨_, rfl⟩
  obtain ⟨p, s, hp, hword⟩ := hsized
  obtain ⟨k, s', hk⟩ := hprint
  obtain ⟨s'', hs⟩ := hend
  refine ⟨⟨p, s, hp, hword, efiSetupPci_restores hmask window p s (hreach hp)⟩,
    ⟨k, s', hk, ?_⟩, s'', hs, ?_⟩
  · exact (efiSetupPci_restores hmask window _ s' (hreach hk)).2.1 _ _ rfl
  · exact (efiSetupPci_restores hmask window _ s'' (hreach hs)).2.2 _ rfl

/-- No run gets stuck: the stub stays in its own memory and only makes calls that are answered. -/
theorem efiSetupPci_progress (hm : ∀ pci, mask pci 4 &&& 0x7 = 0x7) {o : Op}
    {k : o.Ans → Uefi Status} {s : PciState}
    (h : Reach (PciEnv mask) (efiSetupPci, s0) (.call o k, s)) : ∃ x s', PciEnv mask s o x s' :=
  (Spec.call_iff.mp ((spec_efiSetupPci hm).of_reach h)).2.1

end Setup

end UefiStub
