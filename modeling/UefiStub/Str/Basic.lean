import UefiStub.Lib.Unicode
import UefiStub.Efi

/-!
# `utils/string.c`

Bytes live in a `Mem`, and a `char *` is an index into it; an access outside
the object or a read of an uninitialised byte has no result. `size_t` is
`unsigned long`, 32 bits on the build's target. The counting loops recurse on
their counter; a counter that wraps as its loop ends is dead from then on.

The converters take a flag `ck`. The code is `ck = false`, where unsigned
arithmetic wraps and a store to `char` narrows; with `ck = true` either is an
error, so that a checked run that returns has done neither.
-/

namespace UefiStub

open Interact

abbrev Mem := Buf U8

/-- A `const char *` that is only read: the bytes from the pointer to the end of the object. -/
abbrev CStr := List U8

/-- A string literal with its terminator. -/
def lit (s : String) : CStr := s.toList.flatMap utf8 ++ [0]

def memsetLoop (v : U8) : Nat → Nat → Mem → Option Mem
  | _, 0, m => some m
  | p, n + 1, m => do
    let m ← m.store p v
    memsetLoop v (p + 1) n m

def memset (m : Mem) (s : Nat) (c : U8) (n : U32) : Option Mem := memsetLoop c s n.toNat m

def mempcpyLoop : Nat → Nat → Nat → Mem → Option Mem
  | _, _, 0, m => some m
  | dst, src, n + 1, m => do
    let c ← m.load src
    let m ← m.store dst c
    mempcpyLoop (dst + 1) (src + 1) n m

/-- Returns `dst + n` and the memory. -/
def mempcpy (m : Mem) (dst src : Nat) (n : U32) : Option (Nat × Mem) := do
  let m ← mempcpyLoop dst src n.toNat m
  some (dst + n.toNat, m)

def memcpy (m : Mem) (dst src : Nat) (n : U32) : Option (Nat × Mem) := do
  let (_, m) ← mempcpy m dst src n
  some (dst, m)

/-- The loop of `memcmp`, with `n` turns left. -/
def memcmpLoop : Nat → CStr → CStr → Option Int
  | 0, _, _ => some 0
  | n + 1, s1, s2 => do
    let c1 ← s1.head?
    let c2 ← s2.head?
    let c : Int := c1.toNat - c2.toNat
    if c ≠ 0 then some c else memcmpLoop n s1.tail s2.tail

def memcmp (s1 s2 : CStr) (n : U32) : Option Int := memcmpLoop n.toNat s1 s2

def strnlenLoop (m : Mem) : Nat → Nat → U32 → Option U32
  | _, 0, len => some len
  | str, n + 1, len => do
    let c ← m.load str
    if c = 0 then some len else strnlenLoop m (str + 1) n (len + 1)

def strnlen (m : Mem) (str : Nat) (n : U32) : Option U32 := strnlenLoop m str n.toNat 0

def strlen (m : Mem) (str : Nat) : Option U32 := strnlen m str 2147483647

/-- Returns the end of the copied characters and the memory. -/
def stpncpy (m : Mem) (dst src : Nat) (size : U32) : Option (Nat × Mem) := do
  let len ← strnlen m src size
  let (p, m) ← mempcpy m dst src len
  let m ← memset m p 0 (size - len)
  some (p, m)

def strncpy (m : Mem) (dst src : Nat) (size : U32) : Option (Nat × Mem) := do
  let (_, m) ← stpncpy m dst src size
  some (dst, m)

/-- Returns the address of the terminator and the memory. -/
def stpcpy (m : Mem) (dst src : Nat) : Option (Nat × Mem) := do
  let len ← strlen m src
  let (p, m) ← mempcpy m dst src len
  let m ← m.store p 0
  some (p, m)

def strcpy (m : Mem) (dst src : Nat) : Option (Nat × Mem) := do
  let (_, m) ← stpcpy m dst src
  some (dst, m)

/-- `while (i < size)` of `strncmp`, with `n` turns left: `c1` and `c2` as the loop ends. -/
def strncmpLoop (str1 str2 : CStr) : Nat → Nat → U8 × U8 → Option (U8 × U8)
  | 0, _, c => some c
  | n + 1, i, _ => do
    let c1 ← str1[i]?
    let c2 ← str2[i]?
    if c1 ≠ c2 ∨ c1 = 0 ∨ c2 = 0 then some (c1, c2)
    else strncmpLoop str1 str2 n (i + 1) (c1, c2)

/-- A `char` is signed. -/
def strncmp (str1 str2 : CStr) (size : U32) : Option Int := do
  let (c1, c2) ← strncmpLoop str1 str2 size.toNat 0 (0, 0)
  some (c1.toInt - c2.toInt)

def strcmp (str1 str2 : CStr) : Option Int := strncmp str1 str2 2147483647

/-- `while (i < n)` of `strnrev`, which counts `n` down as it counts `i` up. -/
def strnrevLoop (str : Nat) : Nat → Nat → Mem → Option Mem
  | _, 0, m => some m
  | i, n + 1, m =>
    if i < n + 1 then do
      let tmp ← m.load (str + i)
      let last ← m.load (str + n)
      let m ← m.store (str + i) last
      let m ← m.store (str + n) tmp
      strnrevLoop str (i + 1) n m
    else some m

def strnrev (m : Mem) (str : Nat) (n : U32) : Option Mem := strnrevLoop str 0 n.toNat m

def strrev (m : Mem) (str : Nat) : Option Mem := do
  let n ← strlen m str
  strnrev m str n

def strcat (m : Mem) (dst src : Nat) : Option (Nat × Mem) := do
  let len ← strlen m dst
  let (_, m) ← stpcpy m (dst + len.toNat) src
  some (dst, m)

/-! ## Number conversion -/

def mul64 (ck : Bool) (a b : U64) : Option U64 :=
  if ck ∧ 2 ^ 64 ≤ a.toNat * b.toNat then none else some (a * b)

def sub64 (ck : Bool) (a b : U64) : Option U64 :=
  if ck ∧ a.toNat < b.toNat then none else some (a - b)

def shl64 (ck : Bool) (a : U64) (n : Nat) : Option U64 :=
  if ck ∧ 2 ^ 64 ≤ a.toNat * 2 ^ n then none else some (a <<< n)

/-- An `int` stored to a `char`, which is signed. -/
def toChar (ck : Bool) (n : Nat) : Option U8 :=
  if ck ∧ 128 ≤ n then none else some (BitVec.ofNat 8 n)

/-- `if (digit > 9) digit += 'a' - '0' - 10;` and `'0' + digit`. -/
def alnumDigit (ck : Bool) (digit : Nat) : Option U8 :=
  toChar ck (48 + if digit > 9 then digit + (97 - 48 - 10) else digit)

/-- The `do … while (value > 0)` of `naive_convert`. The 65th digit would be stored outside
`reverse`, so the recursion bound `fuel` is reached by no run that returns. -/
def naiveLoop (ck : Bool) (base : U64) : Nat → U64 → Nat → Buf U8 → Option (Nat × Buf U8)
  | 0, _, _, _ => none
  | fuel + 1, value, digits, reverse => do
    let digit := (value % base).toNat
    let value := value / base
    let c ← alnumDigit ck digit
    let reverse ← reverse.store digits c
    if 0 < value then naiveLoop ck base fuel value (digits + 1) reverse
    else some (digits + 1, reverse)

/-- `buffer[digit] = reverse[digits - 1 - digit]` for `digit` from `digits - left` on. -/
def copyReversed (reverse : Buf U8) : Nat → Nat → Mem → Option Mem
  | _, 0, m => some m
  | p, left + 1, m => do
    let c ← reverse.load left
    let m ← m.store p c
    copyReversed reverse (p + 1) left m

def naiveConvert (ck : Bool) (value : U64) (m : Mem) (buffer : Nat) (base : U64) :
    Option (Nat × Mem) := do
  if base = 0 then none
  let (digits, reverse) ← naiveLoop ck base 65 value 0 (Buf.blank 64)
  let m ← copyReversed reverse buffer digits m
  let m ← m.store (buffer + digits) 0
  some (digits, m)

/-- The variables of the two loops that run down the digit positions. -/
structure Conv where
  value : U64
  digits : Nat
  mem : Mem

/-- A `do … while` over the positions from `j` down to 0. -/
def downLoop (step : Nat → Conv → Option Conv) : Nat → Conv → Option Conv
  | 0, st => step 0 st
  | j + 1, st => do
    let st ← step (j + 1) st
    downLoop step j st

/-- The loop body of `bitwise_convert` at `pos = j * bits`; `pos < 0` after the decrement
is `j = 0`. -/
def bitwiseStep (ck : Bool) (buffer bits j : Nat) (st : Conv) : Option Conv := do
  let mask := ((1 : U64) <<< bits) - 1
  let pos := j * bits
  let digit := (st.value >>> pos) &&& mask
  let sub ← shl64 ck digit pos
  let value ← sub64 ck st.value sub
  if st.digits ≠ 0 ∨ digit ≠ 0 ∨ j = 0 then
    let c ← alnumDigit ck digit.toNat
    let m ← st.mem.store (buffer + st.digits) c
    some ⟨value, st.digits + 1, m⟩
  else some ⟨value, st.digits, st.mem⟩

def bitwiseConvert (ck : Bool) (value : U64) (m : Mem) (buffer bits : Nat) :
    Option (Nat × Mem) := do
  let st ← downLoop (bitwiseStep ck buffer bits) (63 / bits) ⟨value, 0, m⟩
  let m ← st.mem.store (buffer + st.digits) 0
  some (st.digits, m)

/-- `for (i = 0, lim = 1; i < pos; ++i) lim *= 10;` -/
def limLoop (ck : Bool) : Nat → U64 → Option U64
  | 0, lim => some lim
  | i + 1, lim => do
    let lim ← mul64 ck lim 10
    limLoop ck i lim

/-- `for (digit = 0; value >= lim; ++digit) value -= lim;` with at most `fuel` turns. -/
def digitLoop (ck : Bool) (lim : U64) : Nat → Nat → U64 → Option (Nat × U64)
  | 0, digit, value => if lim ≤ value then none else some (digit, value)
  | fuel + 1, digit, value =>
    if lim ≤ value then do
      let value ← sub64 ck value lim
      digitLoop ck lim fuel (digit + 1) value
    else some (digit, value)

def decimalStep (ck : Bool) (buffer pos : Nat) (st : Conv) : Option Conv := do
  let lim ← limLoop ck pos 1
  if st.digits ≠ 0 ∨ lim ≤ st.value ∨ pos = 0 then
    let (digit, value) ← digitLoop ck lim st.value.toNat 0 st.value
    let c ← toChar ck (48 + digit)
    let m ← st.mem.store (buffer + st.digits) c
    some ⟨value, st.digits + 1, m⟩
  else some st

def toDecimal (ck : Bool) (value : U64) (m : Mem) (buffer : Nat) : Option (Nat × Mem) := do
  let st ← downLoop (decimalStep ck buffer) 19 ⟨value, 0, m⟩
  let m ← st.mem.store (buffer + st.digits) 0
  some (st.digits, m)

/-- `u64tostr`; the count is returned as a `size_t`. -/
def u64tostr (ck : Bool) (value : U64) (m : Mem) (str : Nat) (base : Int) : Option (U32 × Mem) := do
  let (digits, m) ← match base with
    | 0 => toDecimal ck value m str
    | 2 => bitwiseConvert ck value m str 1
    | 8 => bitwiseConvert ck value m str 3
    | 10 => toDecimal ck value m str
    | 16 => bitwiseConvert ck value m str 4
    | 36 => naiveConvert ck value m str 36
    | _ => (m.store str 0).map fun m => (0, m)
  some (BitVec.ofNat 32 digits, m)

end UefiStub
