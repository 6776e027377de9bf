import UefiStub.Gop.Fill
import UefiStub.Info
import UefiStub.Lib.Embed
import UefiStub.Pci.Basic

/-!
# The entry point

`uefistub_pe_entry` resets the console, sets up graphics, fills the screen,
prints what it found and sizes the PCI devices. It never returns: it ends in a
loop around `stall`, and `efi_exit` in one around `hlt`. A loop without an end
is modelled by its first `turns` turns, for every `turns`.

The calls that only the entry point makes are an interface `BootOp` of their
own, and a program of the entry point is one over the sum of it and `Op`.
-/

namespace UefiStub

open Interact

def efiSystemTableSignature : U64 := 0x5453595320494249

inductive BootOp where
  | loadSignature
  | setWatchdogTimer (timeout watchdogCode dataSize : U64) (data : Ptr)
  | clearScreen
  | setCursor (column row : U64)
  | exit (handle : Ptr) (status : Status) (exitDataSize : U64) (exitData : Ptr)
  | hlt
  deriving DecidableEq

@[reducible] def BootOp.Ans : BootOp → Type
  | .loadSignature => U64
  | .setWatchdogTimer _ _ _ _ => Status
  | .clearScreen => Status
  | .setCursor _ _ => Status
  | .exit _ _ _ _ => Status
  | .hlt => Unit

abbrev Stub := Prog (Op ⊕ BootOp) (Sum.elim Op.Ans BootOp.Ans)

abbrev StubTrace := List (Event (Op ⊕ BootOp) (Sum.elim Op.Ans BootOp.Ans))

instance : MonadLift Uefi Stub := ⟨Prog.inl⟩

/-- A call of the entry point. -/
abbrev boot (o : BootOp) : Stub o.Ans := Prog.op (Sum.inr o : Op ⊕ BootOp)

/-- `disable_watchdog_timer` of `uefistub/stub.c`. -/
def disableWatchdogTimer : Stub Unit := do
  let _ ← boot (.setWatchdogTimer 0 0 0 0)
  return ()

/-- `efi_console_clear_screen` of `uefistub/console.c`. -/
def efiConsoleClearScreen : Stub Unit := do
  let _ ← setAttribute ((consoleAttribute efiConsoleGray efiConsoleBlack).setWidth 64)
  let _ ← boot .clearScreen
  let _ ← boot (.setCursor 0 0)
  return ()

/-- `for (;;) asm("hlt");` -/
def haltLoop : Nat → Stub Unit
  | 0 => return ()
  | n + 1 => do
    let _ ← boot .hlt
    haltLoop n

/-- `efi_exit` of `uefistub/stub.c`. -/
def efiExit (debug : Bool) (turns : Nat) (handle : Ptr) (status : Status) : Stub Unit := do
  if debug then
    efiPuts (lit "Exiting with status code ")
    efiPut0h status 16
    efiPuts (lit "\n")
    let _ ← stall (10 * 1000000)
  let _ ← boot (.exit handle status 0 0)
  haltLoop turns

/-- `for (;;) BS->stall(2 * 1000000);` -/
def stallLoop : Nat → Stub Unit
  | 0 => return ()
  | n + 1 => do
    let _ ← stall (2 * 1000000)
    stallLoop n

/-- The lines of `uefistub_pe_entry` about the screen. -/
def printScreen (si : ScreenInfo) : Uefi Unit := do
  efiPuts (lit "Resolution: ")
  efiPutd (si.lfbWidth.setWidth 64)
  efiPuts (lit "x")
  efiPutd (si.lfbHeight.setWidth 64)
  efiPuts (lit ":")
  efiPutd (si.lfbDepth.setWidth 64)
  efiPuts (lit "\n")
  efiPuts (lit "R:")
  efiPutd (si.redSize.setWidth 64)
  efiPuts (lit "-")
  efiPutd (si.redPos.setWidth 64)
  efiPuts (lit " ")
  efiPuts (lit "G:")
  efiPutd (si.greenSize.setWidth 64)
  efiPuts (lit "-")
  efiPutd (si.greenPos.setWidth 64)
  efiPuts (lit " ")
  efiPuts (lit "B:")
  efiPutd (si.blueSize.setWidth 64)
  efiPuts (lit "-")
  efiPutd (si.bluePos.setWidth 64)
  efiPuts (lit "\n")
  efiPuts (lit "Frame buffer address: 0x")
  efiPut0h si.lfbBase 8
  efiPuts (lit "\n")
  efiPuts (lit "Frame buffer size: ")
  printSize (si.lfbSize.setWidth 64)
  efiPuts (lit "\n")

/-- What follows a successful `efi_setup_gop`. -/
def drawAndReport (debug : Bool) (turns : Nat) (si : ScreenInfo) : Stub Unit := do
  if debug then efiConsoleClearScreen
  fillScreen si
  printUefiInfo
  printScreen si
  let _ ← efiSetupPci
  efiPuts (lit "Goodbye!\n")
  stallLoop turns

/-- What follows the reset of the console. -/
def setUpAndDraw (debug : Bool) (turns : Nat) (imghandle : Ptr) : Stub Unit := do
  let (status, si) ← efiSetupGop debug ScreenInfo.zero graphicsModeHighestResolution
  if status ≠ efiSuccess then
    efiPuts (lit "ERROR: Unable to set up graphics\n")
    efiExit debug turns imghandle status
  else drawAndReport debug turns si

def uefistubPeEntry (debug : Bool) (turns : Nat) (imghandle : Ptr) : Stub Unit := do
  let signature ← boot .loadSignature
  if signature ≠ efiSystemTableSignature then
    efiExit debug turns imghandle efiInvalidParameter
  else
    -- the console is reset on real hardware as well
    efiConsoleReset
    if debug then
      disableWatchdogTimer
      efiConsoleClearScreen
    setUpAndDraw debug turns imghandle

end UefiStub
