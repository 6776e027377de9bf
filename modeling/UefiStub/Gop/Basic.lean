import UefiStub.Bitops
import UefiStub.Console.Basic
import UefiStub.Memory.Basic

/-!
# `uefistub/gop.c`

The choice of a graphics protocol and a graphics mode, and the description of
the frame buffer it has. The record behind `gop->mode` and the mode information
it points to are read in one call. `debug` is the `DEBUG` build. Loops have the
number of turns left as first argument, or after what does not change.
-/

namespace UefiStub

open Interact

/-- `enum graphics_mode`. -/
abbrev GraphicsMode := U32

def graphicsModeAuto : GraphicsMode := 0
def graphicsModeHighestResolution : GraphicsMode := 1

/-- `pf == PIXEL_BLT_ONLY || pf >= PIXEL_FORMAT_MAX` -/
abbrev Unusable (pf : PixelFormat) : Prop := pf = pixelBltOnly ∨ pf ≥ pixelFormatMax

/-- The loop of `find_gop`. -/
def findGopLoop (handles : Ptr) : Nat → U64 → Ptr → Uefi Ptr
  | 0, _, firstGop => return firstGop
  | n + 1, i, firstGop => do
    let handle ← loadHandle handles i
    let (status, gop) ← handleProtocol handle .graphicsOutputProtocol
    if status ≠ efiSuccess then findGopLoop handles n (i + 1) firstGop
    else
      let mode ← loadGopMode gop
      if Unusable mode.info.pixelFormat then findGopLoop handles n (i + 1) firstGop
      else
        let (status, _) ← handleProtocol handle .consoleOutDevice
        if status = efiSuccess then return gop
        else findGopLoop handles n (i + 1) (if firstGop = 0 then gop else firstGop)

def findGop (numHandles : U64) (handles : Ptr) : Uefi Ptr :=
  findGopLoop handles numHandles.toNat 0 0

def pixelBpp (pixelFormat : PixelFormat) (pixelInfo : PixelBitmask) : U8 :=
  if pixelFormat = pixelBitMask then
    let mask := pixelInfo.redMask ||| pixelInfo.greenMask ||| pixelInfo.blueMask |||
      pixelInfo.reservedMask
    if mask = 0 then 0 else (flsWord mask - ffsWord mask + 1).setWidth 8
  else 32

/-- Returns `*position` and `*size`. -/
def findBits (mask : U32) : U8 × U8 :=
  if mask = 0 then (0, 0)
  else
    let position : U8 := (ffsWord mask).setWidth 8
    (position, (flsWord mask - position.setWidth 32 + 1).setWidth 8)

/-! ## Choosing a mode -/

section Choose

variable {σ : Type} (gop : Ptr) (accept : Ptr → U32 → σ → Uefi (Bool × σ))

/-- The loop of `choose_mode`: the mode it returns, if any, and the context. -/
def chooseModeLoop : Nat → U32 → σ → Uefi (Option U32 × σ)
  | 0, _, ctx => return (none, ctx)
  | n + 1, m, ctx => do
    let (status, info) ← gopQueryMode gop m
    if status ≠ efiSuccess then chooseModeLoop n (m + 1) ctx
    else
      let (matched, ctx) ← accept info m ctx
      efiFreeBuffer info
      if matched then return (some m, ctx) else chooseModeLoop n (m + 1) ctx

/-- `accept` is the callback `match`. -/
def chooseMode (ctx : σ) : Uefi (U32 × σ) := do
  let mode ← loadGopMode gop
  let (found, ctx) ← chooseModeLoop gop accept mode.maxMode.toNat 0 ctx
  return (found.getD mode.mode, ctx)

end Choose

/-- The zero-padded number of `print_list_entry`. -/
def modeDigits (mode : U32) : Option Mem := do
  let (digits, buf) ← u64tostr false (mode.setWidth 64) (Buf.blank 4) 0 10
  let buf ← strrev buf 0
  let buf ← memset buf digits.toNat 48 (4 - digits)
  let buf ← buf.store 3 0
  strrev buf 0

def printListEntry (info : Ptr) (mode : U32) (currentMode : U32) : Uefi (Bool × U32) := do
  let mi ← loadModeInfo info
  let pf := mi.pixelFormat
  let (str, depth) : String × U8 :=
    if pf = pixelRgbReserved8BitPerColor then ("rgb", 0)
    else if pf = pixelBgrReserved8BitPerColor then ("bgr", 0)
    else if pf = pixelBitMask then ("", pixelBpp pf mi.pixelInformation)
    else ("xxx", 0)
  efiPuts (lit "Mode ")
  let buf ← lift (modeDigits mode)
  efiPuts buf.inits
  efiPuts (lit " ")
  efiChar16Putc (if mode = currentMode then 42 else 32)
  efiChar16Putc (if Unusable pf then 45 else 32)
  efiPuts (lit ": Resolution ")
  efiPutd (mi.horizontalResolution.setWidth 64)
  efiPuts (lit "x")
  efiPutd (mi.verticalResolution.setWidth 64)
  efiPuts (lit "-")
  efiPuts (lit str)
  efiPutd (depth.setWidth 64)
  efiPuts (lit "\n")
  return (false, currentMode)

def printModesList (gop : Ptr) : Uefi U32 := do
  let mode ← loadGopMode gop
  efiPuts (lit "Available graphics modes are 0-")
  efiPutd ((mode.maxMode - 1).setWidth 64)
  efiPuts (lit "\n")
  efiPuts (lit "  * = current mode\n")
  efiPuts (lit "  - = unusable mode\n")
  efiPuts (lit "Will try to select mode with highest resolution and greatest depth\n")
  let _ ← chooseMode gop printListEntry mode.mode
  efiPuts (lit "\nPress any key to continue or wait 10 seconds\n")
  let (status, _) ← efiWaitForKey (10 * 1000000)
  if status ≠ efiSuccess ∧ status ≠ efiTimeout then
    efiPuts (lit "Unable to read key, continuing in 10 seconds\n")
    let _ ← stall (10 * 1000000)
  return mode.mode

/-- `struct match`. -/
structure Match where
  mode : U32
  area : U32
  depth : U8
  deriving DecidableEq, Repr

def Match.zero : Match := ⟨0, 0, 0⟩

/-- The assignments of `highest_res`; `area` wraps. -/
def rankMode (info : ModeInfo) (mode : U32) (m : Match) : Match :=
  let area := info.horizontalResolution * info.verticalResolution
  let depth := pixelBpp info.pixelFormat info.pixelInformation
  if Unusable info.pixelFormat then m
  else if area > m.area ∨ (area = m.area ∧ depth > m.depth) then ⟨mode, area, depth⟩
  else m

def highestRes (info : Ptr) (mode : U32) (m : Match) : Uefi (Bool × Match) := do
  let mi ← loadModeInfo info
  return (false, rankMode mi mode m)

def chooseHighestRes (gop : Ptr) : Uefi U32 := do
  let (_, m) ← chooseMode gop highestRes Match.zero
  return m.mode

/-- From `if (new_mode == current_mode)` on. -/
def switchMode (debug : Bool) (gop : Ptr) (currentMode newMode : U32) : Uefi Unit := do
  if newMode ≠ currentMode then
    let status ← gopSetMode gop newMode
    if status ≠ efiSuccess then efiPuts (lit "ERROR: Failed to set requested graphics mode\n")
  if debug then
    let _ ← printModesList gop

def setGopMode (debug : Bool) (gop : Ptr) (requestedMode : GraphicsMode) : Uefi Unit := do
  let mode ← loadGopMode gop
  if requestedMode = graphicsModeAuto ∨ requestedMode = graphicsModeHighestResolution then
    let newMode ← chooseHighestRes gop
    switchMode debug gop mode.mode newMode
  else efiPuts (lit "ERROR: Unknown requested graphics mode\n")

/-! ## The frame buffer -/

/-- `struct screen_info`. -/
structure ScreenInfo where
  lfbWidth : U16
  lfbHeight : U16
  lfbBase : U64
  lfbDepth : U16
  lfbLinelength : U16
  lfbSize : U32
  redSize : U8
  redPos : U8
  greenSize : U8
  greenPos : U8
  blueSize : U8
  bluePos : U8
  reservedSize : U8
  reservedPos : U8
  deriving DecidableEq, Repr

def ScreenInfo.zero : ScreenInfo := ⟨0, 0, 0, 0, 0, 0, 0, 0, 0, 0, 0, 0, 0, 0⟩

/-- A product of two `uint16_t`, which are promoted to `int`. -/
def mulInt (a b : U16) : Option U32 :=
  if a.toNat * b.toNat < 2 ^ 31 then some (a.setWidth 32 * b.setWidth 32) else none

/-- The pixel layout and the scan line of the mode. -/
def storeLayout (info : ModeInfo) (si : ScreenInfo) : ScreenInfo :=
  if info.pixelFormat = pixelBitMask then
    let (redPos, redSize) := findBits info.pixelInformation.redMask
    let (greenPos, greenSize) := findBits info.pixelInformation.greenMask
    let (bluePos, blueSize) := findBits info.pixelInformation.blueMask
    let (reservedPos, reservedSize) := findBits info.pixelInformation.reservedMask
    let lfbDepth := redSize.setWidth 16 + greenSize.setWidth 16 + blueSize.setWidth 16 +
      reservedSize.setWidth 16
    { si with
      redPos, redSize, greenPos, greenSize, bluePos, blueSize, reservedPos, reservedSize, lfbDepth
      lfbLinelength := ((info.pixelsPerScanLine * lfbDepth.setWidth 32) / 8).setWidth 16 }
  else
    { si with
      redPos := if info.pixelFormat = pixelRgbReserved8BitPerColor then 0 else 16
      bluePos := if info.pixelFormat = pixelRgbReserved8BitPerColor then 16 else 0
      greenPos := 8
      reservedPos := 24
      redSize := 8
      greenSize := 8
      blueSize := 8
      reservedSize := 8
      lfbDepth := 32
      lfbLinelength := (info.pixelsPerScanLine * 4).setWidth 16 }

/-- What `efi_setup_gop` stores in `*si`, once the mode is set. -/
def storeScreenInfo (mode : GopMode) (si : ScreenInfo) : Option ScreenInfo := do
  let si := storeLayout mode.info { si with
    lfbBase := mode.frameBufferBase
    lfbWidth := mode.info.horizontalResolution.setWidth 16
    lfbHeight := mode.info.verticalResolution.setWidth 16 }
  let lfbSize ← mulInt si.lfbLinelength si.lfbHeight
  some { si with lfbSize }

/-- Returns the status and `*si`. -/
def efiSetupGop (debug : Bool) (si : ScreenInfo) (requestedMode : GraphicsMode) :
    Uefi (Status × ScreenInfo) := do
  let (status, num, handles) ← locateHandleBuffer .graphicsOutputProtocol
  if status ≠ efiSuccess then return (status, si)
  let gop ← findGop num handles
  if gop = 0 then
    efiFreeBuffer handles
    return (efiNotFound, si)
  setGopMode debug gop requestedMode
  let mode ← loadGopMode gop
  let si ← lift (storeScreenInfo mode si)
  efiFreeBuffer handles
  return (efiSuccess, si)

end UefiStub
