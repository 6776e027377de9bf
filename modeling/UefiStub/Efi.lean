import UefiStub.Lib.Prog
import UefiStub.Lib.Bits
import UefiStub.Lib.Buf

/-!
# The firmware interface

The types of `include/efi.h`, `uefistub/console.h` and `uefistub/pci.h` that
the stub uses, and its calls into the firmware as an interface `Op`. A C
function that calls the firmware is a program `Uefi` over this interface.

Memory owned by the firmware (handle buffers, mode information, the mode
record of a graphics protocol) is read through calls as well, so that a run
shows when it is read. `Op.ub` is undefined behaviour: it has no answer. A call
through a `NULL` pointer is undefined as well (`Op.Undefined`); it has answers,
so that what follows a pointer the source does not check is part of the model.
-/

namespace UefiStub

open Interact

abbrev U8 := BitVec 8
abbrev U16 := BitVec 16
abbrev U32 := BitVec 32
abbrev U64 := BitVec 64

/-- A pointer or handle; `NULL` is zero. -/
abbrev Ptr := U64

abbrev Status := U64

def efiSuccess : Status := 0
def efiLoadError : Status := 1 ||| 1 <<< 63
def efiInvalidParameter : Status := 2 ||| 1 <<< 63
def efiUnsupported : Status := 3 ||| 1 <<< 63
def efiBufferTooSmall : Status := 5 ||| 1 <<< 63
def efiDeviceError : Status := 7 ||| 1 <<< 63
def efiOutOfResources : Status := 9 ||| 1 <<< 63
def efiNotFound : Status := 14 ||| 1 <<< 63
def efiTimeout : Status := 18 ||| 1 <<< 63

/-- The protocol GUIDs the stub looks up. -/
inductive Guid where
  | graphicsOutputProtocol
  | consoleOutDevice
  | pciIoProtocol
  deriving DecidableEq, Repr

/-- `enum efi_memory_type`. -/
abbrev MemoryType := U32

def efiLoaderData : MemoryType := 2
def efiPersistentMemory : MemoryType := 14
def efiMaxMemoryType : MemoryType := 16

/-- `enum efi_allocate_type`. -/
abbrev AllocateType := U32

def efiAllocateMaxAddress : AllocateType := 1

def efiPageShift : Nat := 12
def efiPageSize : U32 := 1 <<< 12

/-- `enum efi_pci_io_protocol_width`, as far as the stub uses it. -/
inductive PciWidth where
  | uint8
  | uint16
  | uint32
  deriving DecidableEq, Repr

def PciWidth.bytes : PciWidth → Nat
  | .uint8 => 1
  | .uint16 => 2
  | .uint32 => 4

/-! ## Graphics output protocol -/

/-- `enum efi_graphics_pixel_format`; firmware may store any value. -/
abbrev PixelFormat := U32

def pixelRgbReserved8BitPerColor : PixelFormat := 0
def pixelBgrReserved8BitPerColor : PixelFormat := 1
def pixelBitMask : PixelFormat := 2
def pixelBltOnly : PixelFormat := 3
def pixelFormatMax : PixelFormat := 4

structure PixelBitmask where
  redMask : U32
  greenMask : U32
  blueMask : U32
  reservedMask : U32
  deriving DecidableEq, Repr

/-- `struct efi_graphics_output_mode_info`. -/
structure ModeInfo where
  horizontalResolution : U32
  verticalResolution : U32
  pixelFormat : PixelFormat
  pixelInformation : PixelBitmask
  pixelsPerScanLine : U32
  deriving DecidableEq, Repr

/-- `struct efi_graphics_output_protocol_mode` with the mode information it points to. -/
structure GopMode where
  maxMode : U32
  mode : U32
  info : ModeInfo
  frameBufferBase : U64
  deriving DecidableEq, Repr

/-! ## Memory map and console input -/

/-- What `get_memory_map` stores through its pointers; `none` is left as it was. -/
structure MapStores where
  mapSize : Option U64
  mapKey : Option U64
  descSize : Option U64
  descVersion : Option U32
  deriving DecidableEq, Repr

/-- `struct efi_input_key`. -/
structure InputKey where
  scanCode : U16
  unicodeChar : U16
  deriving DecidableEq, Repr

def efiEvtTimer : U32 := 0x80000000
def efiTimerRelative : U32 := 2

/-! ## Calls -/

inductive Op where
  | ub
  -- console
  | outputString (string : List U16)
  | loadConsoleIn
  | loadWaitForKey (conin : Ptr)
  | readKeystroke (conin : Ptr)
  | resetInput (conin : Ptr)
  | resetOutput (extendedVerification : U8)
  | queryTextMode (mode : U64)
  | setTextMode (mode : U64)
  | setAttribute (attr : U64)
  -- system table
  | loadRevision
  | loadFwRevision
  | loadFwVendor
  -- boot services
  | allocatePool (type : MemoryType) (size : U64)
  | freePool (buffer : Ptr)
  | allocatePages (allocType : AllocateType) (type : MemoryType) (pages : U64) (physAddr : U64)
  | freePages (memory : U64) (pages : U64)
  | getMemoryMap (mapSize : U64) (map : Ptr)
  | createEvent (type : U32)
  | setTimer (event : Ptr) (delay : U32) (time : U64)
  | waitForEvent (events : List Ptr)
  | closeEvent (event : Ptr)
  | stall (usecs : U64)
  | handleProtocol (handle : Ptr) (protocol : Guid)
  | locateHandleBuffer (protocol : Guid)
  | loadHandle (handles : Ptr) (i : U64)
  -- PCI I/O protocol
  | pciGetLocation (pci : Ptr)
  | pciRead (pci : Ptr) (width : PciWidth) (offset : U64) (buffer : U64)
  | pciWrite (pci : Ptr) (width : PciWidth) (offset : U64) (buffer : U64)
  -- graphics output protocol
  | loadGopMode (gop : Ptr)
  | gopQueryMode (gop : Ptr) (mode : U32)
  | loadModeInfo (info : Ptr)
  | gopSetMode (gop : Ptr) (mode : U32)
  | store32 (addr : U64) (value : U32)
  deriving DecidableEq

/-- What a call returns, together with what it stores through its pointer arguments. -/
@[reducible] def Op.Ans : Op → Type
  | .ub => Empty
  | .outputString _ => Status
  | .loadConsoleIn => Ptr
  | .loadWaitForKey _ => Ptr
  | .readKeystroke _ => Status × Option InputKey
  | .resetInput _ => Status
  | .resetOutput _ => Status
  | .queryTextMode _ => Status × Option U64 × Option U64
  | .setTextMode _ => Status
  | .setAttribute _ => Status
  | .loadRevision => U32
  | .loadFwRevision => U32
  | .loadFwVendor => List U16
  | .allocatePool _ _ => Status × Ptr
  | .freePool _ => Status
  | .allocatePages _ _ _ _ => Status × U64
  | .freePages _ _ => Status
  | .getMemoryMap _ _ => Status × MapStores
  | .createEvent _ => Status × Ptr
  | .setTimer _ _ _ => Status
  | .waitForEvent _ => Status × Option U64
  | .closeEvent _ => Status
  | .stall _ => Status
  | .handleProtocol _ _ => Status × Ptr
  | .locateHandleBuffer _ => Status × U64 × Ptr
  | .loadHandle _ _ => Ptr
  | .pciGetLocation _ => Status × U64 × U64 × U64 × U64
  | .pciRead _ _ _ _ => Status × U64
  | .pciWrite _ _ _ _ => Status
  | .loadGopMode _ => GopMode
  | .gopQueryMode _ _ => Status × Ptr
  | .loadModeInfo _ => ModeInfo
  | .gopSetMode _ _ => Status
  | .store32 _ _ => Unit

abbrev Uefi := Prog Op Op.Ans

/-- Undefined behaviour. -/
def ub {α : Type} : Uefi α := .call .ub Empty.elim

/-- A computation on the stub's own memory; what goes out of bounds is undefined. -/
def lift {α : Type} : Option α → Uefi α
  | some a => .ret a
  | none => ub

@[simp] theorem lift_some {α : Type} (a : α) : lift (some a) = .ret a := rfl

abbrev outputString (string : List U16) : Uefi Status := Prog.op (Op.outputString string)
abbrev loadConsoleIn : Uefi Ptr := Prog.op Op.loadConsoleIn
abbrev loadWaitForKey (conin : Ptr) : Uefi Ptr := Prog.op (Op.loadWaitForKey conin)
abbrev readKeystroke (conin : Ptr) : Uefi (Status × Option InputKey) :=
  Prog.op (Op.readKeystroke conin)
abbrev resetInput (conin : Ptr) : Uefi Status := Prog.op (Op.resetInput conin)
abbrev resetOutput (extendedVerification : U8) : Uefi Status :=
  Prog.op (Op.resetOutput extendedVerification)
/-- Stores the columns and the rows. -/
abbrev queryTextMode (mode : U64) : Uefi (Status × Option U64 × Option U64) :=
  Prog.op (Op.queryTextMode mode)
abbrev setTextMode (mode : U64) : Uefi Status := Prog.op (Op.setTextMode mode)
abbrev setAttribute (attr : U64) : Uefi Status := Prog.op (Op.setAttribute attr)
abbrev loadRevision : Uefi U32 := Prog.op Op.loadRevision
abbrev loadFwRevision : Uefi U32 := Prog.op Op.loadFwRevision
/-- The string at `fw_vendor`, up to its terminator. -/
abbrev loadFwVendor : Uefi (List U16) := Prog.op Op.loadFwVendor
abbrev allocatePool (type : MemoryType) (size : U64) : Uefi (Status × Ptr) :=
  Prog.op (Op.allocatePool type size)
abbrev freePool (buffer : Ptr) : Uefi Status := Prog.op (Op.freePool buffer)
abbrev allocatePages (allocType : AllocateType) (type : MemoryType) (pages physAddr : U64) :
    Uefi (Status × U64) := Prog.op (Op.allocatePages allocType type pages physAddr)
abbrev freePages (memory pages : U64) : Uefi Status := Prog.op (Op.freePages memory pages)
abbrev getMemoryMap (mapSize : U64) (map : Ptr) : Uefi (Status × MapStores) :=
  Prog.op (Op.getMemoryMap mapSize map)
abbrev createEvent (type : U32) : Uefi (Status × Ptr) := Prog.op (Op.createEvent type)
abbrev setTimer (event : Ptr) (delay : U32) (time : U64) : Uefi Status :=
  Prog.op (Op.setTimer event delay time)
abbrev waitForEvent (events : List Ptr) : Uefi (Status × Option U64) :=
  Prog.op (Op.waitForEvent events)
abbrev closeEvent (event : Ptr) : Uefi Status := Prog.op (Op.closeEvent event)
abbrev stall (usecs : U64) : Uefi Status := Prog.op (Op.stall usecs)
abbrev handleProtocol (handle : Ptr) (protocol : Guid) : Uefi (Status × Ptr) :=
  Prog.op (Op.handleProtocol handle protocol)
abbrev locateHandleBuffer (protocol : Guid) : Uefi (Status × U64 × Ptr) :=
  Prog.op (Op.locateHandleBuffer protocol)
abbrev loadHandle (handles : Ptr) (i : U64) : Uefi Ptr := Prog.op (Op.loadHandle handles i)
abbrev pciGetLocation (pci : Ptr) : Uefi (Status × U64 × U64 × U64 × U64) :=
  Prog.op (Op.pciGetLocation pci)
abbrev pciRead (pci : Ptr) (width : PciWidth) (offset buffer : U64) : Uefi (Status × U64) :=
  Prog.op (Op.pciRead pci width offset buffer)
abbrev pciWrite (pci : Ptr) (width : PciWidth) (offset buffer : U64) : Uefi Status :=
  Prog.op (Op.pciWrite pci width offset buffer)
abbrev loadGopMode (gop : Ptr) : Uefi GopMode := Prog.op (Op.loadGopMode gop)
abbrev gopQueryMode (gop : Ptr) (mode : U32) : Uefi (Status × Ptr) :=
  Prog.op (Op.gopQueryMode gop mode)
abbrev loadModeInfo (info : Ptr) : Uefi ModeInfo := Prog.op (Op.loadModeInfo info)
abbrev gopSetMode (gop : Ptr) (mode : U32) : Uefi Status := Prog.op (Op.gopSetMode gop mode)
abbrev store32 (addr : U64) (value : U32) : Uefi Unit := Prog.op (Op.store32 addr value)

end UefiStub
