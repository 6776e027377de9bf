import UefiStub.Console.Basic
import UefiStub.Memory.Basic

/-!
# PCI devices in `uefistub/stub.c`

`efi_setup_pci` prints every PCI device; for a device with a normal header
`print_device_info` sizes the six base address registers by writing all ones
to them. The access count of a configuration access is always 1 and left out.
-/

namespace UefiStub

open Interact

def pciCommand : U64 := 0x04
def pciClassRevision : U64 := 0x08
def pciHeaderType : U64 := 0x0e
def pciHeaderTypeMask : U64 := 0x7f
def pciHeaderTypeNormal : U64 := 0
def pciBaseAddress0 : Nat := 0x10
def pciBaseAddressSpace : U32 := 0x01
def pciBaseAddressSpaceIo : U32 := 0x01
def pciBaseAddressMemTypeMask : U32 := 0x06
def pciBaseAddressMemType64 : U32 := 0x04
def pciBaseAddressMemPrefetch : U32 := 0x08
def pciBaseAddressMemMask : U32 := ~~~0x0f
def pciBaseAddressIoMask : U32 := ~~~0x03

def efiPciCfgWrite32 (pci : Ptr) (offset : U16) (value : U32) : Uefi Unit := do
  let _ ← pciWrite pci .uint32 (offset.setWidth 64) (value.setWidth 64)
  return ()

/-- The status is dropped: a failed read leaves all ones. -/
def efiPciCfgRead32 (pci : Ptr) (offset : U16) : Uefi U32 := do
  let (_, readValue) ← pciRead pci .uint32 (offset.setWidth 64) (~~~0)
  return readValue.setWidth 32

/-- `while (size > 1024)` with the break at `i == 4`, which the first argument counts to. -/
def sizeLoop : Nat → U64 → Nat → U64 × Nat
  | 0, size, i => (size, i)
  | n + 1, size, i => if size > 1024 then sizeLoop n (size >>> 10) (i + 1) else (size, i)

def sizeSuffixes : List String := ["B", "kB", "MB", "GB", "TB"]

def printSize (size : U64) : Uefi Unit := do
  if size &&& (1024 - 1) ≠ 0 then
    efiPutd size
    efiPuts (lit "B")
  else
    let (size, i) := sizeLoop 4 size 0
    efiPutd size
    let suffix ← lift sizeSuffixes[i]?
    efiPuts (lit suffix)

/-- What the sizing of a base address register finds: the locals of the loop body. -/
structure Bar where
  bar : Nat
  memory : Bool
  is64bit : Bool
  prefetchable : Bool
  fullAddr : U64
  fullSize : U64
  deriving DecidableEq, Repr

/-- `switch (pci_class)` without its default. -/
def className : U16 → Option String
  | 0x0600 => some "host bridge"
  | 0x0601 => some "ISA bridge"
  | 0x0680 => some "bridge"
  | 0x0100 => some "SCSI storage"
  | 0x0101 => some "IDE interface"
  | 0x0105 => some "ATA controller"
  | 0x0300 => some "VGA controller"
  | 0x0106 => some "SATA controller"
  | 0x0108 => some "NVMe controller"
  | 0x0109 => some "universal flash storage"
  | 0x0c03 => some "USB controller"
  | _ => none

/-- The line that names the device. -/
def printDevice (segment bus device function : U64) (pciClass : U16) : Uefi Unit := do
  efiPuts (lit "Device ")
  efiPut0h segment 4
  efiPuts (lit ":")
  efiPut0h bus 2
  efiPuts (lit ":")
  efiPut0h device 2
  efiPuts (lit ".")
  efiPutd function
  efiPuts (lit " is ")
  match className pciClass with
  | some name => efiPuts (lit name)
  | none =>
    efiPuts (lit "class 0x")
    efiPut0h (pciClass.setWidth 64) 4
  efiPuts (lit "\n")

/-- The line that reports a base address register. -/
def printBar (b : Bar) : Uefi Unit := do
  efiPuts (lit "    BAR")
  efiPutd (BitVec.ofNat 64 b.bar)
  efiPuts (lit ": ")
  efiPuts (lit (if b.memory then "Memory" else "I/O ports"))
  efiPuts (lit " at ")
  efiPut0h b.fullAddr 16
  efiPuts (lit " ")
  if b.memory then
    efiPuts (lit "(")
    efiPuts (lit (if b.is64bit then "64-bit" else "32-bit"))
    if b.prefetchable then efiPuts (lit ", prefetchable")
    efiPuts (lit ")")
  efiPuts (lit " [size ")
  printSize b.fullSize
  efiPuts (lit "]")
  efiPuts (lit "\n")

/-- Write all ones to a register, read it back and restore what was read from it before. -/
def probe32 (pci : Ptr) (offset : U16) (baseAddr : U32) : Uefi U32 := do
  efiPciCfgWrite32 pci offset (~~~0)
  let size ← efiPciCfgRead32 pci offset
  efiPciCfgWrite32 pci offset baseAddr
  return size

/-- The I/O branch, from the register's value and what was read back after writing all ones. -/
def ioBar (bar : Nat) (baseAddr size : U32) : Bar where
  bar := bar
  memory := false
  is64bit := false
  prefetchable := false
  fullAddr := (baseAddr &&& pciBaseAddressIoMask).setWidth 64
  fullSize := (~~~(size &&& pciBaseAddressIoMask) + 1).setWidth 64

/-- The memory branch; `upper` is the same pair for the upper half of a 64-bit register. -/
def memBar (bar : Nat) (baseAddr size : U32) (upper : Option (U32 × U32)) : Bar :=
  let fullAddr := (baseAddr &&& pciBaseAddressMemMask).setWidth 64
  let fullSize := (~~~(size &&& pciBaseAddressMemMask)).setWidth 64
  let (fullAddr, fullSize) := match upper with
    | some (baseAddr, size) =>
      (fullAddr ||| baseAddr.setWidth 64 <<< 32, fullSize ||| (~~~size).setWidth 64 <<< 32)
    | none => (fullAddr, fullSize)
  { bar := bar
    memory := true
    is64bit := upper.isSome
    prefetchable := size &&& pciBaseAddressMemPrefetch ≠ 0
    fullAddr := fullAddr
    fullSize := if fullSize ≠ 0 then fullSize + 1 else fullSize }

/-- The branches on the kind of register, from the register's value on. -/
def probeBar (pci : Ptr) (bar : Nat) (offset : U16) (baseAddr : U32) : Uefi Bar := do
  let size ← probe32 pci offset baseAddr
  if baseAddr &&& pciBaseAddressSpace = pciBaseAddressSpaceIo then return ioBar bar baseAddr size
  if size &&& pciBaseAddressMemTypeMask = pciBaseAddressMemType64 then
    let upperAddr ← efiPciCfgRead32 pci (offset + 4)
    let upperSize ← probe32 pci (offset + 4) upperAddr
    return memBar bar baseAddr size (some (upperAddr, upperSize))
  return memBar bar baseAddr size none

/-- The loop body of `print_device_info`; returns `idx` as the body leaves it. -/
def barBody (pci : Ptr) (command : U64) (idx : Nat) : Uefi Nat := do
  let newcommand := command &&& ~~~0x7
  let offset : U16 := BitVec.ofNat 16 (pciBaseAddress0 + 4 * idx)
  let status ← pciWrite pci .uint16 pciCommand newcommand
  if status ≠ efiSuccess then
    efiPuts (lit "ERROR: Failed to disable\n")
    return idx
  let baseAddr ← efiPciCfgRead32 pci offset
  if baseAddr = 0 then
    let _ ← pciWrite pci .uint16 pciCommand command
    return idx
  let b ← probeBar pci idx offset baseAddr
  -- responses are enabled again before anything is printed
  let _ ← pciWrite pci .uint16 pciCommand command
  if b.fullSize > 0 then printBar b
  return if b.is64bit then idx + 1 else idx

/-- `for (idx = 0; idx < 6; ++idx)`, at most `fuel - 1` turns. -/
def barLoop (pci : Ptr) (command : U64) : Nat → Nat → Uefi Unit
  | 0, _ => ub
  | fuel + 1, idx => do
    if idx < 6 then
      let idx ← barBody pci command idx
      barLoop pci command fuel (idx + 1)
    else return ()

def printDeviceInfo (pci : Ptr) : Uefi Status := do
  let (status, segment, bus, device, function) ← pciGetLocation pci
  if status ≠ efiSuccess then
    efiPuts (lit "ERROR: Unable to retrieve PCI bus information\n")
    return status
  let (status, htype) ← pciRead pci .uint8 pciHeaderType 0
  if status ≠ efiSuccess then return status
  let (status, command) ← pciRead pci .uint16 pciCommand 0
  if status ≠ efiSuccess then return status
  let (status, classRevision) ← pciRead pci .uint32 pciClassRevision 0
  if status ≠ efiSuccess then
    efiPuts (lit "ERROR: Unable to read PCI class from device configuration space\n")
    return efiInvalidParameter
  printDevice segment bus device function ((classRevision >>> 16).setWidth 16)
  if htype &&& pciHeaderTypeMask ≠ pciHeaderTypeNormal then return efiSuccess
  barLoop pci command 7 0
  return efiSuccess

/-- The loop over the handles, with `n` of them left. -/
def pciHandleLoop (handles : Ptr) : Nat → U64 → Uefi Unit
  | 0, _ => return ()
  | n + 1, i => do
    let handle ← loadHandle handles i
    let (status, pci) ← handleProtocol handle .pciIoProtocol
    if status ≠ efiSuccess then pciHandleLoop handles n (i + 1)
    else
      let _ ← printDeviceInfo pci
      pciHandleLoop handles n (i + 1)

def efiSetupPci : Uefi Status := do
  let (status, numHandles, handles) ← locateHandleBuffer .pciIoProtocol
  if status ≠ efiSuccess then return status
  pciHandleLoop handles numHandles.toNat 0
  efiFreeBuffer handles
  return efiSuccess

end UefiStub
