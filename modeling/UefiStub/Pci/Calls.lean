import UefiStub.Pci.Device

/-!
# The calls of `efi_setup_pci`

`print_device_info` accesses the configuration space of its own device and
prints; `efi_setup_pci` looks up the handles besides and releases their buffer.
-/

namespace UefiStub

open Interact

def DeviceCall (pci : Ptr) : Op → Prop
  | .ub | .outputString _ => True
  | .pciGetLocation pci' | .pciRead pci' _ _ _ | .pciWrite pci' _ _ _ => pci' = pci
  | _ => False

def PciCall : Op → Prop
  | .locateHandleBuffer _ | .loadHandle _ _ | .handleProtocol _ _ | .freePool _ => True
  | .ub | .outputString _ | .pciGetLocation _ | .pciRead _ _ _ _ | .pciWrite _ _ _ _ => True
  | _ => False

variable {pci : Ptr}

theorem device_prints {p : Uefi Unit} (hp : Prints p) : Only (DeviceCall pci) p := by
  obtain ⟨chunks, rfl⟩ := hp
  refine .calls fun o ho => ?_
  obtain ⟨u, -, rfl⟩ := List.mem_map.mp ho
  trivial

theorem device_probe32 (pci : Ptr) (offset : U16) (baseAddr : U32) :
    Only (DeviceCall pci) (probe32 pci offset baseAddr) :=
  .op_bind rfl fun _ => .op_bind rfl fun _ => .op_bind rfl fun _ => .ret _

theorem device_probeBar (pci : Ptr) (bar : Nat) (offset : U16) (baseAddr : U32) :
    Only (DeviceCall pci) (probeBar pci bar offset baseAddr) := by
  unfold probeBar
  refine (device_probe32 _ _ _).bind fun size => ?_
  split
  · exact .ret _
  split
  · exact .op_bind rfl fun _ => (device_probe32 _ _ _).bind fun _ => .ret _
  · exact .ret _

theorem device_barBody (pci : Ptr) (command : U64) (idx : Nat) :
    Only (DeviceCall pci) (barBody pci command idx) := by
  unfold barBody
  refine .op_bind rfl fun status => ?_
  split
  · exact (device_prints (prints_lit _)).bind fun _ => .ret _
  refine .op_bind rfl fun ⟨status, value⟩ => ?_
  dsimp only
  split
  · exact .op_bind rfl fun _ => .ret _
  refine (device_probeBar _ _ _ _).bind fun b => .op_bind rfl fun _ => ?_
  split
  · exact (device_prints (prints_bar b)).bind fun _ => .ret _
  · exact .ret _

theorem device_barLoop (pci : Ptr) (command : U64) (fuel idx : Nat) :
    Only (DeviceCall pci) (barLoop pci command fuel idx) := by
  induction fuel generalizing idx with
  | zero => exact .call trivial fun x => x.elim
  | succ fuel ih =>
    unfold barLoop
    split
    · exact (device_barBody _ _ _).bind fun idx => ih _
    · exact .ret _

theorem device_printDeviceInfo (pci : Ptr) : Only (DeviceCall pci) (printDeviceInfo pci) := by
  unfold printDeviceInfo
  refine .op_bind rfl fun ⟨status, segment, bus, device, function⟩ => ?_
  dsimp only
  split
  · exact (device_prints (prints_lit _)).bind fun _ => .ret _
  refine .op_bind rfl fun ⟨status, htype⟩ => ?_
  dsimp only
  split
  · exact .ret _
  refine .op_bind rfl fun ⟨status, command⟩ => ?_
  dsimp only
  split
  · exact .ret _
  refine .op_bind rfl fun ⟨status, classRevision⟩ => ?_
  dsimp only
  split
  · exact (device_prints (prints_lit _)).bind fun _ => .ret _
  refine (device_prints (prints_device ..)).bind fun _ => ?_
  split
  · exact .ret _
  · exact (device_barLoop _ _ _ _).bind fun _ => .ret _

theorem pci_device {α : Type} {p : Uefi α} (hp : Only (DeviceCall pci) p) : Only PciCall p :=
  hp.mono fun o ho => by cases o <;> first | exact absurd ho id | trivial

theorem pci_pciHandleLoop (handles : Ptr) (n : Nat) (i : U64) :
    Only PciCall (pciHandleLoop handles n i) := by
  induction n generalizing i with
  | zero => exact .ret _
  | succ n ih =>
    unfold pciHandleLoop
    refine .op_bind trivial fun handle => .op_bind trivial fun ⟨status, pci⟩ => ?_
    dsimp only
    split
    · exact ih _
    · exact (pci_device (device_printDeviceInfo _)).bind fun _ => ih _

theorem pci_efiSetupPci : Only PciCall efiSetupPci := by
  unfold efiSetupPci
  refine .op_bind trivial fun ⟨status, numHandles, handles⟩ => ?_
  dsimp only
  split
  · exact .ret _
  refine (pci_pciHandleLoop _ _ _).bind fun _ => ?_
  unfold efiFreeBuffer
  split
  · exact .ret _
  · exact .op_bind trivial fun _ => .ret _

end UefiStub
