import UefiStub.Lib.Reader
import UefiStub.Pci.Report

/-!
# Reading the listing

`efi_setup_pci` prints a line for every device and one for every base address
register it sizes. `readListing` reads such a listing back: the lines tell where
they end and which of the two kinds they are, the class of a device is known
from its name or its number, and a size from its number and unit.
-/

namespace UefiStub

open Interact

/-- What the line of a device says. -/
structure DeviceLine where
  segment : U64
  bus : U64
  device : U64
  function : U64
  pciClass : U16
  deriving DecidableEq

/-- A hexadecimal number in at least `digits` places. -/
def hexPad (digits value : Nat) : List U8 :=
  List.replicate (digits - (numeral 16 value).length) 48 ++ numeral 16 value

def classText (pciClass : U16) : List U8 :=
  match className pciClass with
  | some name => octets name ++ octets "\n"
  | none => octets "class 0x" ++ (hexPad 4 pciClass.toNat ++ octets "\n")

def deviceText (d : DeviceLine) : List U8 :=
  octets "Device " ++ (hexPad 4 d.segment.toNat ++ (octets ":" ++ (hexPad 2 d.bus.toNat ++
    (octets ":" ++ (hexPad 2 d.device.toNat ++ (octets "." ++ (numeral 10 d.function.toNat ++
      (octets " is " ++ classText d.pciClass))))))))

/-- The names of the classes are ASCII. -/
theorem ascii_className {pciClass : U16} {name : String} (h : className pciClass = some name) :
    AsciiString name := by
  unfold className at h
  split at h <;> cases h <;> decide

theorem says_device (d : DeviceLine) :
    Says (printDevice d.segment d.bus d.device d.function d.pciClass) (deviceText d) := by
  have hhex (digits : U32) (value : U64) (h : digits.toNat ≤ 16) :
      Says (efiPut0h value digits) (hexPad digits.toNat value.toNat) := Says.put0h value h
  have hlf := @Says.lit "\n" (by decide)
  have hhead {p : Uefi Unit} {l : List U8} (hp : Says p l) :=
    (@Says.lit "Device " (by decide)).bind ((hhex 4 d.segment (by decide)).bind
      ((@Says.lit ":" (by decide)).bind ((hhex 2 d.bus (by decide)).bind
        ((@Says.lit ":" (by decide)).bind ((hhex 2 d.device (by decide)).bind
          ((@Says.lit "." (by decide)).bind ((Says.putd d.function).bind
            ((@Says.lit " is " (by decide)).bind hp))))))))
  unfold printDevice deviceText classText
  cases hname : className d.pciClass with
  | some name => exact hhead ((Says.lit (ascii_className hname)).bind hlf)
  | none =>
    have hclass := hhex 4 (d.pciClass.setWidth 64) (by decide)
    rw [BitVec.toNat_setWidth_of_le (by decide)] at hclass
    exact hhead ((@Says.lit "class 0x" (by decide)).bind (hclass.bind hlf))

/-! ## The lines -/

/-- The classes that have a name. -/
def classNames : List (U16 × String) :=
  [(0x0600, "host bridge"), (0x0601, "ISA bridge"), (0x0680, "bridge"), (0x0100, "SCSI storage"),
    (0x0101, "IDE interface"), (0x0105, "ATA controller"), (0x0300, "VGA controller"),
    (0x0106, "SATA controller"), (0x0108, "NVMe controller"), (0x0109, "universal flash storage"),
    (0x0c03, "USB controller")]

def nameReader (x : U16 × String) : Reader U8 U16 := do
  literal (octets x.2)
  literal (octets "\n")
  return x.1

def codeReader : Reader U8 U16 := do
  literal (octets "class 0x")
  let code ← number 16
  literal (octets "\n")
  return BitVec.ofNat 16 code

def classReader : Reader U8 U16 := choice (classNames.map nameReader ++ [codeReader])

def deviceReader : Reader U8 DeviceLine := do
  literal (octets "Device ")
  let segment ← number 16
  literal (octets ":")
  let bus ← number 16
  literal (octets ":")
  let device ← number 16
  literal (octets ".")
  let function ← number 10
  literal (octets " is ")
  let pciClass ← classReader
  return { segment := BitVec.ofNat 64 segment, bus := BitVec.ofNat 64 bus
           device := BitVec.ofNat 64 device, function := BitVec.ofNat 64 function, pciClass }

/-- The kind of a memory register. -/
def attrReader : Bool → Reader U8 (Bool × Bool)
  | true => do
    literal (octets "(")
    let is64bit ← choice [keyword (octets "64-bit") true, keyword (octets "32-bit") false]
    let prefetchable ← choice [keyword (octets ", prefetchable)") true, keyword (octets ")") false]
    return (is64bit, prefetchable)
  | false => return (false, false)

def suffixReader : Reader U8 Nat :=
  choice ((List.range 5).map fun i => keyword (octets (sizeSuffixes.getD i "")) i)

def barReader : Reader U8 Bar := do
  literal (octets "    BAR")
  let bar ← number 10
  literal (octets ": ")
  let memory ← choice [keyword (octets "Memory") true, keyword (octets "I/O ports") false]
  literal (octets " at ")
  let addr ← number 16
  literal (octets " ")
  let (is64bit, prefetchable) ← attrReader memory
  literal (octets " [size ")
  let d ← number 10
  let i ← suffixReader
  literal (octets "]")
  literal (octets "\n")
  return { bar, memory, is64bit, prefetchable, fullAddr := BitVec.ofNat 64 addr
           fullSize := BitVec.ofNat 64 (d * 1024 ^ i) }

section Lines

theorem ofNat_toNat_self {w : Nat} (x : BitVec w) : BitVec.ofNat w x.toNat = x := by
  rw [BitVec.ofNat_toNat, BitVec.setWidth_eq]

theorem reads_class (pciClass : U16) : Reads classReader (classText pciClass) pciClass := by
  unfold classText
  cases hname : className pciClass with
  | some name =>
    unfold className at hname
    split at hname <;> cases hname <;> (intro rest; rfl)
  | none =>
    have hcode : Reads codeReader (octets "class 0x" ++ (hexPad 4 pciClass.toNat ++ octets "\n"))
        (BitVec.ofNat 16 pciClass.toNat) :=
      (Reads.literal _).bind (Reads.hex ⟨_, _, rfl, by decide⟩
        ((Reads.literal (octets "\n")).bind (.pure _)))
    rw [ofNat_toNat_self] at hcode
    refine hcode.choice fun q hq rest => ?_
    obtain ⟨x, hx, rfl⟩ := List.mem_map.mp hq
    -- no name starts with a `c`
    have hfirst : ∀ x ∈ classNames, octets x.2 ≠ [] ∧ (octets x.2).head? ≠ some 99 := by decide
    have hnone := Reads.literal_head (hfirst x hx).1 (hfirst x hx).2
    change (literal (octets x.2) (99 :: _)).bind _ = none
    rw [hnone]
    rfl

theorem reads_device (d : DeviceLine) : Reads deviceReader (deviceText d) d := by
  have hread : Reads deviceReader (deviceText d) ⟨BitVec.ofNat 64 d.segment.toNat,
      BitVec.ofNat 64 d.bus.toNat, BitVec.ofNat 64 d.device.toNat,
      BitVec.ofNat 64 d.function.toNat, d.pciClass⟩ := by
    refine (Reads.literal _).bind (Reads.hex ⟨_, _, rfl, by decide⟩ ?_)
    refine (Reads.literal _).bind (Reads.hex ⟨_, _, rfl, by decide⟩ ?_)
    refine (Reads.literal _).bind (Reads.hex ⟨_, _, rfl, by decide⟩ ?_)
    refine (Reads.literal _).bind (Reads.decimal ⟨_, _, rfl, by decide⟩ ?_)
    exact (Reads.literal _).bind ((reads_class d.pciClass).map _)
  simp only [ofNat_toNat_self] at hread
  exact hread

end Lines

/-- Nothing about the entry is lost in its line: the attributes are those of a memory register, and
the size is printed exactly. -/
structure Bar.Legible (b : Bar) : Prop where
  bar : b.bar < 2 ^ 64
  ports : b.memory = false → b.is64bit = false ∧ b.prefetchable = false
  size : Scalable b.fullSize.toNat

section Bars

theorem reads_attr {b : Bar} (h : b.memory = false → b.is64bit = false ∧ b.prefetchable = false) :
    Reads (attrReader b.memory) (kindText b) (b.is64bit, b.prefetchable) := by
  unfold kindText
  cases hm : b.memory with
  | false =>
    obtain ⟨h64, hpre⟩ := h hm
    rw [h64, hpre]
    exact fun rest => rfl
  | true => cases b.is64bit <;> cases b.prefetchable <;> exact fun rest => rfl

theorem reads_suffix {i : Nat} (h : i < 5) :
    Reads suffixReader (octets (sizeSuffixes.getD i "")) i := by
  obtain rfl | rfl | rfl | rfl | rfl : i = 0 ∨ i = 1 ∨ i = 2 ∨ i = 3 ∨ i = 4 := by omega
  all_goals exact fun rest => rfl

theorem suffix_stops {i : Nat} (h : i < 5) (l : List U8) :
    ∃ a t, octets (sizeSuffixes.getD i "") ++ l = a :: t ∧ ¬IsDigit 10 a := by
  obtain rfl | rfl | rfl | rfl | rfl : i = 0 ∨ i = 1 ∨ i = 2 ∨ i = 3 ∨ i = 4 := by omega
  all_goals exact ⟨_, _, rfl, by decide⟩

theorem reads_bar {b : Bar} (h : b.Legible) : Reads barReader (barText b) b := by
  have hbar : (BitVec.ofNat 64 b.bar).toNat = b.bar := toNat_ofNat_lt h.bar
  have hsize := (scaled_exact_iff b.fullSize).mpr h.size
  have hmemory : Reads (choice [keyword (octets "Memory") true, keyword (octets "I/O ports") false])
      (octets (if b.memory then "Memory" else "I/O ports")) b.memory := by
    cases b.memory <;> exact fun rest => rfl
  have hread : Reads barReader (barText b) ⟨(BitVec.ofNat 64 b.bar).toNat, b.memory, b.is64bit,
      b.prefetchable, BitVec.ofNat 64 b.fullAddr.toNat,
      BitVec.ofNat 64 ((scaled b.fullSize).1 * 1024 ^ (scaled b.fullSize).2)⟩ := by
    unfold barText barHead sizeText
    simp only [List.append_assoc]
    refine (Reads.literal _).bind (Reads.decimal ⟨_, _, rfl, by decide⟩ ?_)
    refine (Reads.literal _).bind (hmemory.bind ((Reads.literal _).bind ?_))
    refine Reads.hex ⟨_, _, rfl, by decide⟩ ?_
    refine (Reads.literal _).bind ((reads_attr h.ports).bind ((Reads.literal _).bind ?_))
    refine Reads.decimal (suffix_stops (scaled_lt _) _) ?_
    exact (reads_suffix (scaled_lt _)).bind ((Reads.literal _).bind ((Reads.literal _).map _))
  rw [hbar, hsize, ofNat_toNat_self, ofNat_toNat_self] at hread
  exact hread

end Bars

/-! ## The listing -/

/-- A device with its entries. -/
abbrev Inventory := List (DeviceLine × List Bar)

def lineReader : Reader U8 (DeviceLine ⊕ Bar) :=
  choice [do return .inl (← deviceReader), do return .inr (← barReader)]

def lineText : DeviceLine ⊕ Bar → List U8 := Sum.elim deviceText barText

/-- Entries belong to the last device line before them; those before the first one are left over. -/
def group : List (DeviceLine ⊕ Bar) → List Bar × Inventory
  | [] => ([], [])
  | .inl d :: lines => ([], (d, (group lines).1) :: (group lines).2)
  | .inr b :: lines => (b :: (group lines).1, (group lines).2)

def readListing (text : List U8) : Option Inventory :=
  (readAll lineReader text).bind fun lines =>
    if (group lines).1 = [] then some (group lines).2 else none

/-- The lines of an inventory. -/
def inventoryLines (inv : Inventory) : List (DeviceLine ⊕ Bar) :=
  inv.flatMap fun x => .inl x.1 :: x.2.map .inr

def listingText (inv : Inventory) : List U8 := (inventoryLines inv).flatMap lineText

/-- The lines of one device. -/
def summaryText (x : DeviceLine × List Bar) : List U8 :=
  deviceText x.1 ++ (x.2.map barText).flatten

section Listing

theorem listingText_cons (x : DeviceLine × List Bar) (inv : Inventory) :
    listingText (x :: inv) = summaryText x ++ listingText inv := by
  have hlines : inventoryLines (x :: inv) = (.inl x.1 :: x.2.map .inr) ++ inventoryLines inv := rfl
  have hbars : (x.2.map Sum.inr).flatMap lineText = (x.2.map barText).flatten := by
    rw [List.flatMap_map]
    rfl
  unfold listingText
  rw [hlines, List.flatMap_append, List.flatMap_cons, hbars]
  rfl

theorem ascii_listingText (inv : Inventory) : Ascii (listingText inv) := by
  intro c hc
  obtain ⟨x, -, hc⟩ := List.mem_flatMap.mp hc
  cases x with
  | inl d => exact (says_device d).ascii c hc
  | inr b => exact (says_bar b).ascii c hc

theorem reads_line {x : DeviceLine ⊕ Bar} (h : ∀ b, x = .inr b → b.Legible) :
    Reads lineReader (lineText x) x ∧ lineText x ≠ [] := by
  cases x with
  | inl d =>
    have hdevice := (reads_device d).map Sum.inl (γ := DeviceLine ⊕ Bar)
    exact ⟨Reads.choice_head hdevice, nofun⟩
  | inr b =>
    have hbar := (reads_bar (h b rfl)).map Sum.inr (γ := DeviceLine ⊕ Bar)
    exact ⟨Reads.choice_tail (fun rest => rfl) (Reads.choice_head hbar), nofun⟩

theorem group_entries (bs : List Bar) (lines : List (DeviceLine ⊕ Bar)) :
    group (bs.map .inr ++ lines) = (bs ++ (group lines).1, (group lines).2) := by
  induction bs with
  | nil => rfl
  | cons b bs ih =>
    rw [List.map_cons, List.cons_append, group, ih]
    rfl

theorem group_inventoryLines (inv : Inventory) : group (inventoryLines inv) = ([], inv) := by
  induction inv with
  | nil => rfl
  | cons x inv ih =>
    rw [inventoryLines, List.flatMap_cons, List.cons_append, group, group_entries,
      show group (inv.flatMap _) = ([], inv) from ih, List.append_nil]

/-- **Reading the listing** gives back the devices and their entries. -/
theorem readListing_listingText {inv : Inventory} (h : ∀ x ∈ inv, ∀ b ∈ x.2, b.Legible) :
    readListing (listingText inv) = some inv := by
  have hlines : ∀ x ∈ inventoryLines inv, Reads lineReader (lineText x) x ∧ lineText x ≠ [] := by
    intro x hx
    refine reads_line fun b hb => ?_
    obtain ⟨y, hy, hx⟩ := List.mem_flatMap.mp hx
    rcases List.mem_cons.mp hx with rfl | hx
    · cases hb
    · obtain ⟨b', hb', rfl⟩ := List.mem_map.mp hx
      cases hb
      exact h y hy b hb'
  unfold readListing listingText
  rw [readAll_flatMap hlines, Option.bind_some, group_inventoryLines, if_pos rfl]

end Listing

end UefiStub
