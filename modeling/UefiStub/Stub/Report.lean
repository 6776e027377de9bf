import UefiStub.Pci.Listing
import UefiStub.Stub.Calls

/-!
# Reading the lines about the screen

`uefistub_pe_entry` prints what `efi_setup_gop` recorded. `readScreen` reads
these lines back, whatever was recorded. The frame buffer size is the only number
that can come back smaller, by less than the unit it is printed in.
-/

namespace UefiStub

open Interact

/-- What the lines say. -/
structure ScreenReport where
  width : Nat
  height : Nat
  depth : Nat
  red : Nat × Nat
  green : Nat × Nat
  blue : Nat × Nat
  base : Nat
  size : Nat
  deriving DecidableEq

/-- What `print_size` shows of a size. -/
def shownSize (size : U64) : Nat := (scaled size).1 * 1024 ^ (scaled size).2

def ScreenInfo.report (si : ScreenInfo) : ScreenReport where
  width := si.lfbWidth.toNat
  height := si.lfbHeight.toNat
  depth := si.lfbDepth.toNat
  red := (si.redSize.toNat, si.redPos.toNat)
  green := (si.greenSize.toNat, si.greenPos.toNat)
  blue := (si.blueSize.toNat, si.bluePos.toNat)
  base := si.lfbBase.toNat
  size := shownSize (si.lfbSize.setWidth 64)

def channelReader (name stop : String) : Reader U8 (Nat × Nat) := do
  literal (octets name)
  let size ← number 10
  literal (octets "-")
  let pos ← number 10
  literal (octets stop)
  return (size, pos)

def screenReader : Reader U8 ScreenReport := do
  literal (octets "Resolution: ")
  let width ← number 10
  literal (octets "x")
  let height ← number 10
  literal (octets ":")
  let depth ← number 10
  literal (octets "\n")
  let red ← channelReader "R:" " "
  let green ← channelReader "G:" " "
  let blue ← channelReader "B:" "\n"
  literal (octets "Frame buffer address: 0x")
  let base ← number 16
  literal (octets "\n")
  literal (octets "Frame buffer size: ")
  let d ← number 10
  let i ← suffixReader
  literal (octets "\n")
  return { width, height, depth, red, green, blue, base, size := d * 1024 ^ i }

def readScreen (text : List U8) : Option ScreenReport :=
  (screenReader text).bind fun x => if x.2 = [] then some x.1 else none

theorem reads_channel {name stop : String} (hstop : ∃ a t, octets stop = a :: t ∧ ¬IsDigit 10 a)
    (size pos : U8) : Reads (channelReader name stop) (channelText name size pos stop)
      (size.toNat, pos.toNat) := by
  refine (Reads.literal _).bind (Reads.decimal ⟨_, _, rfl, by decide⟩ ?_)
  exact (Reads.literal _).bind (Reads.decimal hstop ((Reads.literal _).map _))

theorem reads_screen (si : ScreenInfo) : Reads screenReader (screenText si) si.report := by
  have hspace : ∃ a t, octets " " = a :: t ∧ ¬IsDigit 10 a := ⟨_, _, rfl, by decide⟩
  have hlf : ∃ a t, octets "\n" = a :: t ∧ ¬IsDigit 10 a := ⟨_, _, rfl, by decide⟩
  refine (Reads.literal _).bind (Reads.decimal ⟨_, _, rfl, by decide⟩ ?_)
  refine (Reads.literal _).bind (Reads.decimal ⟨_, _, rfl, by decide⟩ ?_)
  refine (Reads.literal _).bind (Reads.decimal ⟨_, _, rfl, by decide⟩ ?_)
  refine (Reads.literal _).bind ((reads_channel hspace si.redSize si.redPos).bind
    ((reads_channel hspace si.greenSize si.greenPos).bind
      ((reads_channel hlf si.blueSize si.bluePos).bind ?_)))
  refine (Reads.literal _).bind (Reads.hex ⟨_, _, rfl, by decide⟩ ?_)
  refine (Reads.literal _).bind ((Reads.literal _).bind ?_)
  unfold sizeText
  rw [List.append_assoc]
  refine Reads.decimal (suffix_stops (scaled_lt _) _) ?_
  exact (reads_suffix (scaled_lt _)).bind ((Reads.literal _).map _)

/-- What is shown is less than a unit below the size. -/
theorem shownSize_spec (size : U64) :
    shownSize size ≤ size.toNat ∧ size.toNat < shownSize size + 1024 ^ (scaled size).2 := by
  unfold shownSize scaled
  split
  · exact ⟨Nat.le_of_eq (Nat.mul_one _), by simp⟩
  · obtain ⟨j, -, hi, hsize, -⟩ := sizeLoop_spec 4 size 0
    dsimp only
    rw [Nat.zero_add] at hi
    rw [hi, hsize]
    exact ⟨Nat.div_mul_le_self _ _, Nat.lt_div_mul_add (Nat.pow_pos (by decide))⟩

/-- **The lines about the screen** read back as what was recorded. The frame buffer size is rounded
down to the unit it is shown in, and comes back exactly where nothing is dropped. -/
theorem printScreen_readback (si : ScreenInfo) :
    ∃ us, Streams (printScreen si) us ∧ readScreen (unitOctets us) = some si.report ∧
      si.report.size ≤ si.lfbSize.toNat ∧
      si.lfbSize.toNat < si.report.size + 1024 ^ (scaled (si.lfbSize.setWidth 64)).2 ∧
      (si.report.size = si.lfbSize.toNat ↔ Scalable si.lfbSize.toNat) := by
  have hwide : (si.lfbSize.setWidth 64).toNat = si.lfbSize.toNat :=
    BitVec.toNat_setWidth_of_le (by decide)
  have hshown := shownSize_spec (si.lfbSize.setWidth 64)
  have hexact := scaled_exact_iff (si.lfbSize.setWidth 64)
  rw [hwide] at hshown hexact
  refine ⟨_, (says_screen si).streams, ?_, hshown.1, hshown.2, hexact⟩
  have hread := reads_screen si []
  rw [List.append_nil] at hread
  rw [unitOctets_asciiUnits (says_screen si).ascii, readScreen, hread, Option.bind_some, if_pos rfl]

end UefiStub
