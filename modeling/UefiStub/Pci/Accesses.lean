import Mathlib.Order.Bounds.Defs
import UefiStub.Lib.Credit
import UefiStub.Memory.Pool
import UefiStub.Pci.Calls

/-!
# How many accesses a device costs

`print_device_info` reads three registers and then sizes: six accesses for a
register on its own, ten for a pair. From the register `idx` on the loop can do
with `turnCredit idx`, since a pair takes two turns. So no run of
`efi_setup_pci` makes more than 43 accesses for each interface it opens, and
there is a device that takes as many.
-/

namespace UefiStub

open Interact

/-- Accesses to a configuration space. -/
def configCost : Op → Nat
  | .pciRead _ _ _ _ | .pciWrite _ _ _ _ => 1
  | _ => 0

/-- Interfaces of devices that are opened. -/
def opened : (o : Op) → o.Ans → Nat
  | .handleProtocol _ .pciIoProtocol, (status, _) => if status = efiSuccess then 1 else 0
  | _, _ => 0

def configAccesses (tr : Trace) : Nat := spent configCost tr

def interfaces (tr : Trace) : Nat := gained opened tr

/-- What the turns from a register on can do with: the last of them may size a pair. -/
def turnCredit (idx : Nat) : Nat := if idx < 6 then 40 - 6 * idx else 0

/-- Every interface pays for its device. -/
abbrev Affords {α : Type} (R : α → Nat) (p : Uefi α) (n : Nat) : Prop :=
  Pays configCost (fun o x => 43 * opened o x) R p n

section Affords

variable {α : Type} {R : α → Nat} {pci : Ptr} {n : Nat}

theorem affords_prints {p : Uefi Unit} (hp : Prints p) (n : Nat) : Affords (fun _ => n) p n := by
  obtain ⟨chunks, rfl⟩ := hp
  refine .free (.calls fun o ho => ?_)
  obtain ⟨u, -, rfl⟩ := List.mem_map.mp ho
  rfl

/-- A call that is none of the two. -/
theorem affords_call {o : Op} {k : o.Ans → Uefi α} (ho : configCost o = 0)
    (hk : ∀ x, Affords R (k x) n) : Affords R (Prog.op o >>= k) n := by
  refine .observe (ho ▸ Nat.zero_le n) fun x => (hk x).mono ?_
  rw [balance, ho]
  exact Nat.le_add_right ..

theorem affords_read {width : PciWidth} {offset buffer : U64} {k : Status × U64 → Uefi α}
    (hk : ∀ x, Affords R (k x) n) :
    Affords R (Prog.op (.pciRead pci width offset buffer) >>= k) (n + 1) :=
  .observe (Nat.le_add_left 1 n) hk

theorem affords_write {width : PciWidth} {offset buffer : U64} {k : Status → Uefi α}
    (hk : ∀ x, Affords R (k x) n) :
    Affords R (Prog.op (.pciWrite pci width offset buffer) >>= k) (n + 1) :=
  .observe (Nat.le_add_left 1 n) hk

/-! ## A turn -/

theorem affords_probe32 (pci : Ptr) (offset : U16) (baseAddr : U32) (n : Nat) :
    Affords (fun _ => n) (probe32 pci offset baseAddr) (n + 3) :=
  affords_write fun _ => affords_read fun _ => affords_write fun _ => .ret (Nat.le_refl n)

/-- A pair costs four accesses more. -/
theorem affords_probeBar (pci : Ptr) (bar : Nat) (offset : U16) (baseAddr : U32) (n : Nat) :
    Affords (fun b => if b.is64bit then n else n + 4) (probeBar pci bar offset baseAddr)
      (n + 7) := by
  unfold probeBar
  refine (affords_probe32 _ _ _ (n + 4)).seq fun size => ?_
  split
  · exact .ret (Nat.le_refl _)
  split
  · refine affords_read fun x => (affords_probe32 _ _ _ n).seq fun _ => ?_
    exact .ret (Nat.le_refl n)
  · exact .ret (Nat.le_refl _)

theorem affords_barBody {idx : Nat} (h : idx < 6) (command : U64) :
    Affords (fun idx' => turnCredit (idx' + 1)) (barBody pci command idx) (turnCredit idx) := by
  obtain ⟨n, hn⟩ : ∃ n, turnCredit idx = n + 10 := ⟨30 - 6 * idx, by
    rw [turnCredit, if_pos h]
    omega⟩
  have hsingle : turnCredit (idx + 1) ≤ n + 4 := by
    unfold turnCredit at hn ⊢
    split <;> split at hn <;> omega
  have hpair : turnCredit (idx + 2) ≤ n := by
    unfold turnCredit at hn ⊢
    split <;> split at hn <;> omega
  have hstop {m : Nat} (hm : n + 4 ≤ m) : Affords (fun idx' => turnCredit (idx' + 1))
      (pure idx) m := .ret (Nat.le_trans hsingle hm)
  rw [hn]
  unfold barBody
  refine affords_write fun status => ?_
  split
  · exact (affords_prints (prints_lit _) (n + 9)).seq fun _ => hstop (by omega)
  refine affords_read fun x => ?_
  dsimp only
  split
  · exact affords_write fun _ => hstop (by omega)
  refine (affords_probeBar _ _ _ _ (n + 1)).seq fun b => ?_
  have hend {m : Nat} (hm : (if b.is64bit then n else n + 4) ≤ m) :
      Affords (fun idx' => turnCredit (idx' + 1))
        (pure (if b.is64bit then idx + 1 else idx)) m := by
    refine .ret (Nat.le_trans ?_ hm)
    split
    · exact hpair
    · exact hsingle
  have hclose : (if b.is64bit then n + 1 else n + 1 + 4) =
      (if b.is64bit then n else n + 4) + 1 := by split <;> rfl
  rw [hclose]
  refine affords_write fun _ => ?_
  split
  · exact (affords_prints (prints_bar b) _).seq fun _ => hend (Nat.le_refl _)
  · exact hend (Nat.le_refl _)

/-! ## The devices -/

theorem affords_barLoop (command : U64) (fuel idx : Nat) :
    Affords (fun _ => 0) (barLoop pci command fuel idx) (turnCredit idx) := by
  induction fuel generalizing idx with
  | zero => exact .call (Nat.zero_le _) fun x => x.elim
  | succ fuel ih =>
    unfold barLoop
    split
    · exact (affords_barBody ‹_› command).seq fun idx' => ih _
    · exact .ret (Nat.zero_le _)

theorem affords_printDeviceInfo (pci : Ptr) :
    Affords (fun _ => 0) (printDeviceInfo pci) 43 := by
  have hfail {p : Uefi Unit} {status : Status} (hp : Prints p) {n : Nat} :
      Affords (fun _ => 0) (p >>= fun _ => pure status) n :=
    (affords_prints hp n).seq fun _ => .ret (Nat.zero_le _)
  unfold printDeviceInfo
  refine affords_call rfl fun ⟨status, segment, bus, device, function⟩ => ?_
  dsimp only
  split
  · exact hfail (prints_lit _)
  refine affords_read fun ⟨status, htype⟩ => ?_
  dsimp only
  split
  · exact .ret (Nat.zero_le _)
  refine affords_read fun ⟨status, command⟩ => ?_
  dsimp only
  split
  · exact .ret (Nat.zero_le _)
  refine affords_read fun ⟨status, classRevision⟩ => ?_
  dsimp only
  split
  · exact hfail (prints_lit _)
  refine (affords_prints (prints_device ..) 40).seq fun _ => ?_
  split
  · exact .ret (Nat.zero_le _)
  · exact (affords_barLoop command 7 0).seq fun _ => .ret (Nat.zero_le _)

theorem affords_pciHandleLoop (handles : Ptr) (n : Nat) (i : U64) :
    Affords (fun _ => 0) (pciHandleLoop handles n i) 0 := by
  induction n generalizing i with
  | zero => exact .ret (Nat.le_refl 0)
  | succ n ih =>
    unfold pciHandleLoop
    refine affords_call rfl fun handle => .observe (Nat.le_refl 0) fun x => ?_
    obtain ⟨status, pci⟩ := x
    dsimp only
    split
    · exact (ih _).mono (Nat.zero_le _)
    · rename_i hs
      have hpaid : balance configCost (fun o x => 43 * opened o x) 0
          ⟨.handleProtocol handle .pciIoProtocol, (status, pci)⟩ = 43 := by
        rw [not_not.mp hs]
        rfl
      rw [hpaid]
      exact (affords_printDeviceInfo pci).seq fun _ => ih _

theorem affords_efiSetupPci : Affords (fun _ => 0) efiSetupPci 0 := by
  unfold efiSetupPci
  refine affords_call rfl fun ⟨status, numHandles, handles⟩ => ?_
  dsimp only
  split
  · exact .ret (Nat.le_refl 0)
  refine (affords_pciHandleLoop _ _ _).seq fun _ => ?_
  unfold efiFreeBuffer
  split
  · exact .ret (Nat.le_refl 0)
  · exact affords_call rfl fun _ => .ret (Nat.le_refl 0)

end Affords

/-! ## A device that takes as many -/

/-- Five registers on their own and then one that claims to be the lower half of a pair. -/
def slowValue : PciWidth → U64 → U64
  | .uint8, _ => 0
  | _, offset => if offset = 0x24 then 4 else 0x10

/-- One device with these registers. -/
def Slow : (o : Op) → o.Ans → Prop
  | .locateHandleBuffer _, (status, numHandles, handles) =>
    status = efiSuccess ∧ numHandles = 1 ∧ handles = 0
  | .pciRead _ width offset _, (status, value) =>
    status = efiSuccess ∧ value = slowValue width offset
  | .handleProtocol _ _, (status, _) => status = efiSuccess
  | .pciGetLocation _, (status, _) => status = efiSuccess
  | .pciWrite _ _ _ _, status => status = efiSuccess
  | _, _ => True

abbrev Takes {α : Type} (p : Uefi α) (a : α) (n m : Nat) : Prop :=
  Spends configCost opened Slow p a n m

section Takes

variable {α : Type} {a : α} {n m : Nat} {pci : Ptr}

theorem takes_prints {p : Uefi Unit} (hp : Prints p) : Takes p () 0 0 := by
  obtain ⟨chunks, rfl⟩ := hp
  refine .calls fun o ho => ?_
  obtain ⟨u, -, rfl⟩ := List.mem_map.mp ho
  exact ⟨rfl, efiSuccess, trivial, rfl⟩

theorem takes_read {width : PciWidth} {offset buffer : U64} {k : Status × U64 → Uefi α}
    (h : Takes (k (efiSuccess, slowValue width offset)) a n m) :
    Takes (Prog.op (.pciRead pci width offset buffer) >>= k) a (n + 1) m := by
  have hans : Slow (.pciRead pci width offset buffer) (efiSuccess, slowValue width offset) :=
    ⟨rfl, rfl⟩
  exact .op _ hans h

theorem takes_write {width : PciWidth} {offset buffer : U64} {k : Status → Uefi α}
    (h : Takes (k efiSuccess) a n m) :
    Takes (Prog.op (.pciWrite pci width offset buffer) >>= k) a (n + 1) m := by
  have hans : Slow (.pciWrite pci width offset buffer) efiSuccess := rfl
  exact .op _ hans h

theorem takes_open {handle : Ptr} {k : Status × Ptr → Uefi α}
    (h : Takes (k (efiSuccess, pci)) a n m) :
    Takes (Prog.op (.handleProtocol handle .pciIoProtocol) >>= k) a n (m + 1) := by
  have hans : Slow (.handleProtocol handle .pciIoProtocol) (efiSuccess, pci) := rfl
  exact @Spends.op _ _ _ configCost opened Slow a n m _ k _ hans h

theorem takes_probe32 (pci : Ptr) (offset : U16) (baseAddr : U32) : Takes
    (probe32 pci offset baseAddr) ((slowValue .uint32 (offset.setWidth 64)).setWidth 32) 3 0 :=
  takes_write (takes_read (takes_write .ret))

theorem takes_single {idx : Nat} (h : idx < 5) (command : U64) :
    Takes (barBody pci command idx) idx 6 0 := by
  have hv : slowValue .uint32
      ((BitVec.ofNat 16 (pciBaseAddress0 + 4 * idx)).setWidth 64) = 0x10 := by
    interval_cases idx <;> rfl
  have hprobe : Takes (probeBar pci idx (BitVec.ofNat 16 (pciBaseAddress0 + 4 * idx)) 0x10)
      (memBar idx 0x10 0x10 none) 3 0 := by
    refine (takes_probe32 _ _ _).bind ?_
    rw [hv]
    exact .ret
  have hsize : (memBar idx 0x10 0x10 none).fullSize = 0xfffffff0 := rfl
  unfold barBody
  refine takes_write ?_
  rw [if_neg (not_not.mpr rfl)]
  refine takes_read ?_
  rw [hv]
  refine hprobe.bind (takes_write ?_)
  rw [if_pos (by rw [hsize]; decide)]
  exact (takes_prints (prints_bar _)).bind .ret

theorem takes_last (command : U64) : Takes (barBody pci command 5) 6 10 0 := by
  have hprobe : Takes (probeBar pci 5 0x24 4) (memBar 5 4 4 (some (0x10, 0x10))) 7 0 := by
    refine (takes_probe32 _ _ _).bind (takes_read ?_)
    exact (takes_probe32 _ _ _).bind .ret
  unfold barBody
  refine takes_write ?_
  rw [if_neg (not_not.mpr rfl)]
  refine takes_read ?_
  refine hprobe.bind (takes_write ?_)
  rw [if_pos (by decide)]
  exact (takes_prints (prints_bar _)).bind .ret

theorem takes_barLoop_succ {idx fuel : Nat} (h : idx < 5) {command : U64}
    (hrest : Takes (barLoop pci command fuel (idx + 1)) () n 0) :
    Takes (barLoop pci command (fuel + 1) idx) () (n + 6) 0 := by
  unfold barLoop
  rw [if_pos (Nat.lt_succ_of_lt h)]
  exact (takes_single h command).bind hrest

theorem takes_barLoop (command : U64) : Takes (barLoop pci command 7 0) () 40 0 := by
  have hlast : Takes (barLoop pci command 2 5) () 10 0 := by
    unfold barLoop
    rw [if_pos (by decide)]
    exact (takes_last command).bind .ret
  iterate 5 refine takes_barLoop_succ (by decide) ?_
  exact hlast

theorem takes_printDeviceInfo (pci : Ptr) : Takes (printDeviceInfo pci) efiSuccess 43 0 := by
  have hlocation : Slow (.pciGetLocation pci) (efiSuccess, 0, 0, 0, 0) := rfl
  unfold printDeviceInfo
  refine Spends.op _ hlocation ?_
  dsimp only
  rw [if_neg (not_not.mpr rfl)]
  refine takes_read ?_
  dsimp only
  rw [if_neg (not_not.mpr rfl)]
  refine takes_read ?_
  dsimp only
  rw [if_neg (not_not.mpr rfl)]
  refine takes_read ?_
  dsimp only
  rw [if_neg (not_not.mpr rfl)]
  refine (takes_prints (prints_device ..)).bind ?_
  rw [if_neg (by decide)]
  exact (takes_barLoop _).bind .ret

theorem takes_efiSetupPci : Takes efiSetupPci efiSuccess 43 1 := by
  have hlocate : Slow (.locateHandleBuffer .pciIoProtocol) (efiSuccess, 1, 0) := ⟨rfl, rfl, rfl⟩
  have hhandle : Slow (.loadHandle 0 0) (0 : Ptr) := trivial
  have hloop : Takes (pciHandleLoop 0 1 0) () 43 1 := by
    unfold pciHandleLoop
    refine Spends.op _ hhandle (@takes_open _ _ _ _ 0 _ _ ?_)
    dsimp only
    rw [if_neg (not_not.mpr rfl)]
    exact (takes_printDeviceInfo 0).bind .ret
  unfold efiSetupPci
  refine Spends.op _ hlocate ?_
  dsimp only
  rw [if_neg (not_not.mpr rfl)]
  exact hloop.bind .ret

end Takes

/-- **The least number of accesses** per interface that every run can do with. -/
theorem efiSetupPci_accesses : IsLeast {b | ∀ (p : Uefi Status) (tr : Trace),
    Reach History (efiSetupPci, []) (p, tr) → configAccesses tr ≤ b * interfaces tr} 43 := by
  constructor
  · intro p tr hr
    have hle := affords_efiSetupPci.spent_le hr
    rwa [Nat.zero_add, gained_mul] at hle
  · intro b hb
    obtain ⟨tr, hr, hcost, hopened⟩ := takes_efiSetupPci []
    have hle := hb _ tr hr.history
    rwa [configAccesses, interfaces, hcost, hopened, show spent configCost [] = 0 from rfl,
      show gained opened [] = 0 from rfl, Nat.mul_one] at hle

end UefiStub
