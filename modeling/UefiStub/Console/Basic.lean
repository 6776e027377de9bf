import UefiStub.Str.Basic

/-!
# `uefistub/console.c`

The UTF-8 decoder and the console output functions, the choice of a text mode
and the timed wait for a key. A string argument is the bytes from the pointer
on, so that a read past the end of its object is undefined. Loops that consume
the string or shift a byte out have a bound on their turns as first argument; a
run that needs more is undefined as well.
-/

namespace UefiStub

open Interact

/-- `for (; cx & 0x80; ++clen) cx <<= 1;` -/
def leadLoop : Nat → U8 → Nat → U8 × Nat
  | 0, cx, clen => (cx, clen)
  | fuel + 1, cx, clen =>
    if cx &&& 0x80 ≠ 0 then leadLoop fuel (cx <<< 1) (clen + 1) else (cx, clen)

/-- The loop over the trailing octets; the inner `none` is the return on an octet that is
not one. -/
def trailLoop : Nat → CStr → U32 → Option (Option U32)
  | 0, _, c32 => some (some c32)
  | n + 1, s8, c32 => do
    let b ← s8.head?
    let cx := b ^^^ 0x80
    if cx &&& 0xc0 ≠ 0 then some none
    else trailLoop n s8.tail (c32 <<< 6 ||| cx.setWidth 32)

/-- The number of trailing octets a code point needs. -/
def trailCount (c32 : U32) : Nat :=
  (if c32 ≥ 0x80 then 1 else 0) + (if c32 ≥ 0x800 then 1 else 0) + (if c32 ≥ 0x10000 then 1 else 0)

/-- Returns the code point and the advanced pointer. -/
def utf8ToUtf32 (s8 : CStr) : Option (U32 × CStr) := do
  let c0 ← s8.head?
  let s8 := s8.tail
  let (cx, clen) := leadLoop 8 c0 0
  if clen < 2 ∨ clen > 4 then return (c0.setWidth 32, s8)
  -- get the bits from the first octet
  let c32 := (cx >>> clen).setWidth 32
  let clen := clen - 1
  match ← trailLoop clen s8 c32 with
  | none => return (c0.setWidth 32, s8)
  | some c32 =>
    if c32 > 0x10ffff ∨ c32 &&& 0xf800 = 0xd800 ∨ clen ≠ trailCount c32 then
      return (c0.setWidth 32, s8)
    else return (c32, s8.drop clen)

/-- `buf[pos++] = unit` -/
def putUnit (buf : Buf U16) (pos : Nat) (unit : U16) : Option (Buf U16 × Nat) := do
  let buf ← buf.store pos unit
  some (buf, pos + 1)

/-- The units of one code point: itself in plane 0, a surrogate pair elsewhere. -/
def putChar (buf : Buf U16) (pos : Nat) (c32 : U32) : Option (Buf U16 × Nat) :=
  if c32 < 0x10000 then putUnit buf pos (c32.setWidth 16)
  else do
    let (buf, pos) ← putUnit buf pos (((0xd800 - (0x10000 >>> 10)) + (c32 >>> 10)).setWidth 16)
    putUnit buf pos ((0xdc00 + (c32 &&& 0x3ff)).setWidth 16)

/-- The loop body of `efi_puts` up to the flush test. -/
def putsStep (buf : Buf U16) (pos : Nat) (s8 : CStr) : Option (Buf U16 × Nat × CStr) := do
  let c ← s8.head?
  let (buf, pos) ← if c = 10 then putUnit buf pos 13 else some (buf, pos)
  let (c32, s8) ← utf8ToUtf32 s8
  let (buf, pos) ← putChar buf pos c32
  some (buf, pos, s8)

def efiChar16Puts (str : Buf U16) : Uefi Unit := do
  let string ← lift (Buf.cstring 0 str)
  let _ ← outputString string
  return ()

def efiPutsLoop : Nat → Buf U16 → Nat → CStr → Uefi Unit
  | 0, _, _, _ => ub
  | fuel + 1, buf, pos, s8 => do
    let c ← lift s8.head?
    if c = 0 then return ()
    let (buf, pos, s8) ← lift (putsStep buf pos s8)
    let c ← lift s8.head?
    if c = 0 ∨ pos ≥ 128 - 2 then
      let buf ← lift (buf.store pos 0)
      let _ ← efiChar16Puts buf
      efiPutsLoop fuel buf 0 s8
    else efiPutsLoop fuel buf pos s8

/-- Every turn takes a byte of the string. -/
def efiPuts (str : CStr) : Uefi Unit := efiPutsLoop str.length (Buf.blank 128) 0 str

def efiChar16Putc (c : U16) : Uefi Unit := efiChar16Puts [some c, some 0]

def efiPutd (value : U64) : Uefi Unit := do
  let (_, buf) ← lift (u64tostr false value (Buf.blank 21) 0 10)
  efiPuts buf.inits

def efiPut0h (value : U64) (digits : U32) : Uefi Unit := do
  let (n, buf) ← lift (u64tostr false value (Buf.blank 17) 0 16)
  let buf ← lift (strrev buf 0)
  let buf ← lift (memset buf n.toNat 48 (16 - n))
  let buf ← lift (buf.store 16 0)
  let buf ← lift (strrev buf 0)
  let digits := if n > digits then n else digits
  efiPuts (Buf.inits (buf.drop (16 - digits).toNat))

/-! ## Modes and colours -/

/-- The variables of the loop of `efi_console_reset`. -/
structure TextMode where
  mode : U64
  columns : U64
  rows : U64
  deriving DecidableEq, Repr

/-- Mode 0, which is 80x25. -/
def TextMode.default : TextMode := ⟨0, 80, 25⟩

/-- The test of the loop on a mode of `x` columns and `y` rows. -/
def TextMode.keep (held : TextMode) (i x y : U64) : TextMode :=
  if y * x > held.rows * held.columns ∧ x ≥ held.columns then ⟨i, x, y⟩ else held

/-- The loop of `efi_console_reset`, with `n` turns left. -/
def textModeLoop : Nat → U64 → TextMode → Uefi TextMode
  | 0, _, held => return held
  | n + 1, i, held => do
    let (status, x, y) ← queryTextMode i
    if status ≠ efiSuccess then textModeLoop n (i + 1) held
    else textModeLoop n (i + 1) (held.keep i (x.getD 0) (y.getD 0))

def efiConsoleReset : Uefi Unit := do
  let conin ← loadConsoleIn
  let _ ← resetInput conin
  let _ ← resetOutput 0
  -- identify console with largest rows * columns
  let held ← textModeLoop 63 1 TextMode.default
  let _ ← setTextMode held.mode
  return ()

/-- The colours of `console.h` that the stub uses. -/
def efiConsoleBlack : U32 := 0x00
def efiConsoleGray : U32 := 0x07
def efiConsoleBrightcyan : U32 := 0x0b
def efiConsoleBrightmagenta : U32 := 0x0d
def efiConsoleYellow : U32 := 0x0e

/-- `EFI_CONSOLE_COLOR` -/
def consoleAttribute (foreground background : U32) : U32 :=
  foreground &&& 0xf ||| (background &&& 0x7) <<< 4

def efiConsoleColor (color : U32) : Uefi Unit := do
  let _ ← setAttribute ((consoleAttribute color efiConsoleBlack).setWidth 64)
  return ()

def efiConsoleRestore : Uefi Unit := efiConsoleColor efiConsoleGray

/-! ## Input -/

/-- Returns the status and the key, if `read_keystroke` stored one. -/
def efiWaitForKey (usecs : U32) : Uefi (Status × Option InputKey) := do
  let conin ← loadConsoleIn
  if conin = 0 then return (efiUnsupported, none)
  let keyEvent ← loadWaitForKey conin
  let (status, timer) ← createEvent efiEvtTimer
  if status ≠ efiSuccess then return (status, none)
  let status ← setTimer timer efiTimerRelative (10 * usecs.setWidth 64)
  if status ≠ efiSuccess then return (status, none)
  let (status, eventIdx) ← waitForEvent [keyEvent, timer]
  if status ≠ efiSuccess then
    let _ ← closeEvent timer
    return (status, none)
  else if eventIdx.getD 3 = 0 then
    let (status, key) ← readKeystroke conin
    let _ ← closeEvent timer
    return (status, key)
  else
    let _ ← closeEvent timer
    return (efiTimeout, none)

end UefiStub
