import UefiStub.Lib.RegFile
import UefiStub.Pci.Size

/-!
# Configuration space

A device is the contents of its configuration space and the mask of its
writable bits. The printing parts of the PCI code are lists of `output_string`
calls and do not touch it.
-/

namespace UefiStub

open Interact

/-- The bytes of a configuration space, or the masks of their writable bits. -/
abbrev Config := Nat → U8

namespace Config

def read (f : Config) (width : PciWidth) (offset buffer : U64) : U64 :=
  RegFile.fetch f offset.toNat width.bytes buffer

/-- A write through the mask `m`. -/
def write (f m : Config) (width : PciWidth) (offset buffer : U64) : Config :=
  RegFile.deposit m f offset.toNat width.bytes buffer

variable {m f : Config}

/-- Restoring the COMMAND register with what was read from it. -/
theorem write_command (buf v : U64) :
    (f.write m .uint16 pciCommand v).write m .uint16 pciCommand (f.read .uint16 pciCommand buf) =
      f :=
  RegFile.deposit_restore fun _ hi => RegFile.byteOf_fetch buf (by decide) hi

theorem write_command_self (buf : U64) :
    f.write m .uint16 pciCommand (f.read .uint16 pciCommand buf) = f :=
  RegFile.deposit_eq_self fun _ hi => RegFile.byteOf_fetch buf (by decide) hi

/-- Restoring a 32-bit register with what `efi_pci_cfg_read32` returned. -/
theorem write_restore (offset buf v : U64) :
    (f.write m .uint32 offset v).write m .uint32 offset
      (((f.read .uint32 offset buf).setWidth 32).setWidth 64) = f :=
  RegFile.deposit_restore fun _ hi =>
    (byteOf_narrow _ hi).trans (RegFile.byteOf_fetch buf (by decide) hi)

/-- A write elsewhere is not seen. -/
theorem write_out {w : PciWidth} {offset : U64} (v : U64) {a : Nat}
    (h : a < offset.toNat ∨ offset.toNat + w.bytes ≤ a) : f.write m w offset v a = f a :=
  RegFile.deposit_out v h

end Config

/-- The loop body leaves its index as it is or at the next register. -/
theorem le_index (b : Bar) (idx : Nat) : idx ≤ if b.is64bit then idx + 1 else idx := by
  split
  · exact Nat.le_succ _
  · exact Nat.le_refl _

/-! ## Printing -/

theorem prints_size (size : U64) : Prints (printSize size) := by
  obtain ⟨chunks, hsend, -⟩ := (says_size size).streams
  exact ⟨chunks, hsend⟩

theorem prints_device (segment bus device function : U64) (pciClass : U16) :
    Prints (printDevice segment bus device function pciClass) := by
  have h4 (v : U64) : Prints (efiPut0h v 4) := prints_put0h v (by decide)
  have h2 (v : U64) : Prints (efiPut0h v 2) := prints_put0h v (by decide)
  simp only [printDevice]
  refine (prints_lit _).bind ((h4 _).bind ((prints_lit _).bind ((h2 _).bind ((prints_lit _).bind
    ((h2 _).bind ((prints_lit _).bind ((prints_putd _).bind ((prints_lit _).bind ?_))))))))
  cases className pciClass with
  | some name => exact (prints_lit _).bind (prints_lit _)
  | none => exact (prints_lit _).bind ((h4 _).bind (prints_lit _))

theorem prints_bar (b : Bar) : Prints (printBar b) := by
  have hsize : Prints (do
      efiPuts (lit " [size ")
      printSize b.fullSize
      efiPuts (lit "]")
      efiPuts (lit "\n")) :=
    (prints_lit _).bind ((prints_size _).bind ((prints_lit _).bind (prints_lit _)))
  have haddr : Prints (efiPut0h b.fullAddr 16) := prints_put0h _ (by decide)
  simp only [printBar]
  refine (prints_lit _).bind ((prints_putd _).bind ((prints_lit _).bind ((prints_lit _).bind
    ((prints_lit _).bind (haddr.bind ((prints_lit _).bind ?_))))))
  split
  · refine (prints_lit _).bind ((prints_lit _).bind ?_)
    split
    · exact (prints_lit _).bind ((prints_lit _).bind hsize)
    · exact (prints_lit _).bind hsize
  · exact hsize

end UefiStub
