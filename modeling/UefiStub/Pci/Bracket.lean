import UefiStub.Lib.Embed
import UefiStub.Memory.Pool
import UefiStub.Pci.Probe

/-!
# Sizing happens in brackets

A turn of the sizing loop writes COMMAND with the decoding bits clear, probes a
register and writes COMMAND back. `Bracket` is what a history leaves open: the
device whose COMMAND was read last, the value, and whether its decoding bits
have been cleared and the write of the full value is still to come. `Allowed` is
what may be called then: in a bracket only accesses to the registers of its
device, so that nothing is printed and no other device is touched; outside none
of them, only the reads of a header. Firmware may answer every call in any way:
a bracket opens with a write that succeeds, but the stub does not look at the
status of the write that closes it.
-/

namespace UefiStub

open Interact

structure Bracket where
  /-- The device and the value of the COMMAND read last. -/
  saved : Option (Ptr × U64)
  /-- Its decoding bits have been cleared and the write of the full value is still to come. -/
  opened : Bool

namespace Bracket

def start : Bracket := ⟨none, false⟩

/-- A COMMAND write opens the bracket if it succeeds. The next one closes it, whether or not it
succeeds. -/
def next (b : Bracket) : Event Op Op.Ans → Bracket
  | ⟨.pciRead pci .uint16 _ _, (status, value)⟩ =>
    if status = efiSuccess then { b with saved := some (pci, value) } else b
  | ⟨.pciWrite _ .uint16 _ _, status⟩ =>
    { b with opened := !b.opened && decide (status = efiSuccess) }
  | _ => b

/-- The bracket after a history. -/
def after (tr : Trace) : Bracket := tr.foldl next start

/-- COMMAND is written with the value that was read, or with that value less its decoding bits. -/
def command (b : Bracket) (value : U64) : U64 := if b.opened then value else value &&& ~~~0x7

/-- The calls that may be made. -/
def Allowed (b : Bracket) : Op → Prop
  | .pciWrite pci .uint16 offset buffer =>
    offset = pciCommand ∧ ∃ value, b.saved = some (pci, value) ∧ buffer = b.command value
  | .pciWrite pci .uint32 offset _ =>
    b.opened = true ∧ (∃ value, b.saved = some (pci, value)) ∧ 0x10 ≤ offset.toNat
  | .pciRead pci .uint32 offset _ => match b.opened with
    | true => (∃ value, b.saved = some (pci, value)) ∧ 0x10 ≤ offset.toNat
    | false => offset = pciClassRevision
  | .pciRead _ .uint16 offset _ => b.opened = false ∧ offset = pciCommand
  | .pciRead _ .uint8 offset _ => b.opened = false ∧ offset = pciHeaderType
  | .pciWrite _ .uint8 _ _ | .ub => False
  | _ => b.opened = false

variable {pci : Ptr} {value : U64} {b : Bracket} {α : Type} {Q : α → Bracket → Prop}

/-- Printing is done outside of brackets. -/
theorem safe_prints {p : Uefi Unit} (hp : Prints p) (hb : b.opened = false) :
    Safe (Summary next) Allowed (fun _ b' => b' = b) p b := by
  obtain ⟨chunks, rfl⟩ := hp
  have hout : ∀ o ∈ chunks.map Op.outputString, ∃ u, o = .outputString u := by
    intro o ho
    obtain ⟨u, -, rfl⟩ := List.mem_map.mp ho
    exact ⟨u, rfl⟩
  refine .unobserved (.calls hout) ?_ ?_
  · rintro o ⟨u, rfl⟩
    exact hb
  · rintro o x ⟨u, rfl⟩
    rfl

/-! ## In a bracket -/

theorem le_offset {offset : U16} (ho : 0x10 ≤ offset.toNat) :
    0x10 ≤ (offset.setWidth 64 : U64).toNat := by
  rwa [BitVec.toNat_setWidth_of_le (by decide)]

theorem safe_read32 {offset : U16} {k : U32 → Uefi α} (ho : 0x10 ≤ offset.toNat)
    (hk : ∀ v, Safe (Summary next) Allowed Q (k v) ⟨some (pci, value), true⟩) :
    Safe (Summary next) Allowed Q (efiPciCfgRead32 pci offset >>= k) ⟨some (pci, value), true⟩ :=
  .observe ⟨⟨value, rfl⟩, le_offset ho⟩ fun _ => hk _

theorem safe_write32 {offset : U16} {v : U32} {k : Unit → Uefi α} (ho : 0x10 ≤ offset.toNat)
    (hk : Safe (Summary next) Allowed Q (k ()) ⟨some (pci, value), true⟩) :
    Safe (Summary next) Allowed Q (efiPciCfgWrite32 pci offset v >>= k)
      ⟨some (pci, value), true⟩ :=
  .observe ⟨rfl, ⟨value, rfl⟩, le_offset ho⟩ fun _ => hk

theorem safe_probe32 {offset : U16} {v : U32} {k : U32 → Uefi α} (ho : 0x10 ≤ offset.toNat)
    (hk : ∀ size, Safe (Summary next) Allowed Q (k size) ⟨some (pci, value), true⟩) :
    Safe (Summary next) Allowed Q (probe32 pci offset v >>= k) ⟨some (pci, value), true⟩ := by
  unfold probe32
  simp only [Prog.bind_bind]
  exact safe_write32 ho (safe_read32 ho fun size => safe_write32 ho (hk size))

theorem safe_probeBar {bar : Nat} {offset : U16} {v : U32} {k : Bar → Uefi α}
    (ho : 0x10 ≤ offset.toNat) (ho' : 0x10 ≤ (offset + 4).toNat)
    (hk : ∀ b, Safe (Summary next) Allowed Q (k b) ⟨some (pci, value), true⟩) :
    Safe (Summary next) Allowed Q (probeBar pci bar offset v >>= k) ⟨some (pci, value), true⟩ := by
  unfold probeBar
  rw [Prog.bind_bind]
  refine safe_probe32 ho fun size => ?_
  split
  · exact hk _
  split
  · simp only [Prog.bind_bind]
    exact safe_read32 ho' fun v => safe_probe32 ho' fun size => hk _
  · exact hk _

/-- The write that ends a bracket. -/
theorem safe_close {k : Status → Uefi α}
    (hk : ∀ x, Safe (Summary next) Allowed Q (k x) ⟨some (pci, value), false⟩) :
    Safe (Summary next) Allowed Q (Prog.op (.pciWrite pci .uint16 pciCommand value) >>= k)
      ⟨some (pci, value), true⟩ :=
  .observe ⟨rfl, value, rfl, rfl⟩ hk

/-! ## The loop -/

/-- **One turn** opens a bracket and closes it, or opens none. -/
theorem safe_barBody {idx : Nat} (hidx : idx < 6) :
    Safe (Summary next) Allowed (fun idx' b => idx ≤ idx' ∧ b = ⟨some (pci, value), false⟩)
      (barBody pci value idx) ⟨some (pci, value), false⟩ := by
  have ho : 0x10 ≤ (BitVec.ofNat 16 (pciBaseAddress0 + 4 * idx)).toNat := by
    rw [PciDevice.toNat_offset hidx]
    exact Nat.le_add_right ..
  have ho' : 0x10 ≤ (BitVec.ofNat 16 (pciBaseAddress0 + 4 * idx) + 4).toNat := by
    rw [PciDevice.toNat_offset_next hidx]
    exact Nat.le_add_right ..
  unfold barBody
  refine .observe ⟨rfl, value, rfl, rfl⟩ fun status => ?_
  by_cases hs : status = efiSuccess
  swap
  · -- the write failed: no bracket is open
    rw [if_pos hs, show next _ _ = ⟨some (pci, value), false⟩ by simp [next, hs]]
    exact (safe_prints (prints_lit _) rfl).seq fun _ b hb => .ret ⟨Nat.le_refl _, hb⟩
  subst hs
  rw [if_neg fun h => h rfl]
  refine safe_read32 ho fun v => ?_
  split
  · exact safe_close fun _ => .ret ⟨Nat.le_refl _, rfl⟩
  refine safe_probeBar ho ho' fun bar => safe_close fun _ => ?_
  have hend (b : Bracket) (hb : b = ⟨some (pci, value), false⟩) : Safe (Summary next) Allowed
      (fun idx' b => idx ≤ idx' ∧ b = ⟨some (pci, value), false⟩)
      (pure (if bar.is64bit = true then idx + 1 else idx)) b := .ret ⟨le_index bar idx, hb⟩
  dsimp only
  split
  · exact (safe_prints (prints_bar bar) rfl).seq fun _ b hb => hend b hb
  · exact hend _ rfl

theorem safe_barLoop : ∀ {fuel idx : Nat}, 6 < fuel + idx → 0 < fuel →
    Safe (Summary next) Allowed (fun _ b => b = ⟨some (pci, value), false⟩)
      (barLoop pci value fuel idx) ⟨some (pci, value), false⟩
  | fuel + 1, idx, h, _ => by
    unfold barLoop
    split
    · refine (safe_barBody ‹_›).seq fun idx' b hb => ?_
      obtain ⟨hle, rfl⟩ := hb
      exact safe_barLoop (by omega) (by omega)
    · exact .ret rfl

theorem safe_printDeviceInfo (hb : b.opened = false) :
    Safe (Summary next) Allowed (fun _ b' => b'.opened = false) (printDeviceInfo pci) b := by
  have hfail {p : Uefi Unit} {status : Status} (hp : Prints p) {b : Bracket}
      (hb : b.opened = false) : Safe (Summary next) Allowed
        (fun _ b' => b'.opened = false) (p >>= fun _ => pure status) b :=
    (safe_prints hp hb).seq fun _ b' h => .ret (by rw [h]; exact hb)
  unfold printDeviceInfo
  refine .observe hb fun ⟨status, segment, bus, device, function⟩ => ?_
  dsimp only [next]
  split
  · exact hfail (prints_lit _) hb
  refine .observe ⟨hb, rfl⟩ fun ⟨status, htype⟩ => ?_
  dsimp only [next]
  split
  · exact .ret hb
  refine .observe ⟨hb, rfl⟩ fun ⟨status, command⟩ => ?_
  dsimp only [next]
  by_cases hs : status = efiSuccess
  swap
  · rw [if_pos hs, if_neg hs]
    exact .ret hb
  rw [if_neg (not_not.mpr hs), if_pos hs, hb]
  refine .observe rfl fun ⟨status, classRevision⟩ => ?_
  dsimp only [next]
  split
  · exact hfail (prints_lit _) rfl
  refine (safe_prints (prints_device ..) rfl).seq fun _ b' hb' => ?_
  rw [hb']
  split
  · exact .ret rfl
  · exact (safe_barLoop (by omega) (by omega)).seq fun _ b' hb' => .ret (by rw [hb'])

theorem safe_pciHandleLoop {handles : Ptr} (n : Nat) (i : U64) (hb : b.opened = false) :
    Safe (Summary next) Allowed (fun _ b' => b'.opened = false) (pciHandleLoop handles n i)
      b := by
  induction n generalizing b i with
  | zero => exact .ret hb
  | succ n ih =>
    unfold pciHandleLoop
    refine .observe hb fun handle => .observe hb fun ⟨status, pci⟩ => ?_
    dsimp only [next]
    split
    · exact ih _ hb
    · exact (safe_printDeviceInfo hb).seq fun _ b' hb' => ih _ hb'

theorem safe_efiSetupPci : Safe (Summary next) Allowed (fun _ b' => b'.opened = false)
    efiSetupPci start := by
  unfold efiSetupPci
  refine .observe rfl fun ⟨status, numHandles, handles⟩ => ?_
  dsimp only [next]
  split
  · exact .ret rfl
  refine (safe_pciHandleLoop _ _ rfl).seq fun _ b hb => ?_
  unfold efiFreeBuffer
  split
  · exact .ret hb
  · exact .observe hb fun _ => .ret hb

end Bracket

/-- **The sizing discipline.** In every run, whatever firmware answers: COMMAND is written with
the value last read from it, first less its decoding bits and then in full; between the two only
registers of this device from `0x10` on are accessed, and elsewhere only header type, COMMAND and
class are read; a run that returns has issued the write that closes each bracket. -/
theorem efiSetupPci_brackets {p : Uefi Status} {tr : Trace}
    (h : Reach History (efiSetupPci, []) (p, tr)) :
    (∀ o k, p = .call o k → (Bracket.after tr).Allowed o) ∧
      ∀ status, p = .ret status → (Bracket.after tr).opened = false :=
  Bracket.safe_efiSetupPci.summary.reached (s := []) h

/-- One device, whose first register has been written with all ones. -/
def inBracket : Trace :=
  [⟨.locateHandleBuffer .pciIoProtocol, (efiSuccess, 1, 0x1000)⟩, ⟨.loadHandle 0x1000 0, 0x2000⟩,
    ⟨.handleProtocol 0x2000 .pciIoProtocol, (efiSuccess, 0x3000)⟩,
    ⟨.pciGetLocation 0x3000, (efiSuccess, 0, 0, 3, 0)⟩,
    ⟨.pciRead 0x3000 .uint8 pciHeaderType 0, (efiSuccess, 0)⟩,
    ⟨.pciRead 0x3000 .uint16 pciCommand 0, (efiSuccess, 7)⟩,
    ⟨.pciRead 0x3000 .uint32 pciClassRevision 0, (efiSuccess, 0x01060000)⟩] ++
  ["Device ", "0000", ":", "00", ":", "03", ".", "0", " is ", "SATA controller", "\n"].map
    (fun s => ⟨.outputString (asciiUnits (octets s)), efiSuccess⟩) ++
  [⟨.pciWrite 0x3000 .uint16 pciCommand 0, efiSuccess⟩,
    ⟨.pciRead 0x3000 .uint32 0x10 (~~~0), (efiSuccess, 0xfebf0000)⟩,
    ⟨.pciWrite 0x3000 .uint32 0x10 0xffffffff, efiSuccess⟩]

set_option maxRecDepth 4096 in
theorem efiSetupPci_brackets_open : ∃ k,
    follow inBracket efiSetupPci = some (.call (.pciRead 0x3000 .uint32 0x10 (~~~0)) k) ∧
    (Bracket.after inBracket).opened = true ∧
    (Bracket.after inBracket).Allowed (.pciRead 0x3000 .uint32 0x10 (~~~0)) := by
  have hrun : ∃ k, follow inBracket efiSetupPci =
      some (.call (.pciRead 0x3000 .uint32 0x10 (~~~0)) k) := ⟨_, rfl⟩
  obtain ⟨k, hk⟩ := hrun
  exact ⟨k, hk, rfl, (efiSetupPci_brackets (reach_follow hk [])).1 _ k rfl⟩

end UefiStub
