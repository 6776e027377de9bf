import UefiStub.Pci.Report
import UefiStub.Pci.Sizing

/-!
# I/O base address registers

An I/O register implements all 32 address bits, or the low 16 only, and then
its upper half reads as zero, before and after all ones are written. The sizing
formula complements all 32 bits: it gives the size of a register of the first
kind, and `0xffff0000` more for one of the second.

A register is sized as an I/O register if a BAR starts there (`Starts`): it is
not the upper half of a 64-bit one.
-/

namespace UefiStub

open Interact

/-- The register reads back as a 64-bit memory register. -/
def Is64 (mask config : Config) (r : Nat) : Prop :=
  reg config r ≠ 0 ∧ reg config r &&& pciBaseAddressSpace ≠ pciBaseAddressSpaceIo ∧
    merge (reg mask r) (reg config r) (~~~0) &&& pciBaseAddressMemTypeMask = pciBaseAddressMemType64

instance (mask config : Config) (r : Nat) : Decidable (Is64 mask config r) :=
  inferInstanceAs (Decidable (_ ∧ _ ∧ _))

/-- The registers that are the first or only one of a BAR. -/
inductive Starts (mask config : Config) : Nat → Prop where
  | zero : Starts mask config 0
  | next {r : Nat} (h : Starts mask config r) (hr : ¬Is64 mask config r) :
    Starts mask config (r + 1)
  | next64 {r : Nat} (h : Starts mask config r) (hr : Is64 mask config r) :
    Starts mask config (r + 2)

/-- The address bits an I/O register implements. -/
inductive PortBits where
  | all
  | low16
  deriving DecidableEq

namespace PortBits

/-- The writable bits of a register for `2 ^ k` ports. -/
def mask : PortBits → Nat → U32
  | all, k => alignMask 32 k
  | low16, k => alignMask 32 k &&& 0xffff

/-- What the sizing formula gives for it. -/
def size : PortBits → Nat → Nat
  | all, k => 2 ^ k
  | low16, k => 0xffff0000 + 2 ^ k

theorem size_pos (bits : PortBits) (k : Nat) : 0 < bits.size k := by
  have hpow := Nat.two_pow_pos k
  cases bits with
  | all => exact hpow
  | low16 => exact Nat.add_pos_right _ hpow

end PortBits

/-- Register `r` is an I/O BAR of `2 ^ k` ports at `base`. -/
structure IoBarAt (mask config : Config) (r : Nat) (bits : PortBits) (k : Nat) (base : U32) :
    Prop where
  starts : Starts mask config r
  lt : r < 6
  two_le : 2 ≤ k
  le_sixteen : k ≤ 16
  base_ne_zero : base ≠ 0
  aligned : 2 ^ k ∣ base.toNat
  port : bits = .low16 → base.toNat < 2 ^ 16
  value : reg config r = base ||| 1
  mask_eq : reg mask r = bits.mask k

/-- The entry of `size` ports at `base`. -/
def ioEntry (r : Nat) (base : U32) (size : Nat) : Bar :=
  ⟨r, false, false, false, base.setWidth 64, BitVec.ofNat 64 size⟩

namespace IoBarAt

variable {mask config : Config} {r k : Nat} {bits : PortBits} {base : U32}

theorem base_low (h : IoBarAt mask config r bits k base) : base &&& 3 = 0 :=
  and_low_of_dvd h.aligned h.two_le

theorem mask_low (h : IoBarAt mask config r bits k base) : bits.mask k &&& 3 = 0 := by
  have hle := h.le_sixteen
  have hlow : alignMask 32 k &&& 3 = 0 := and_low_of_dvd (dvd_alignMask (by omega)) h.two_le
  cases bits with
  | all => exact hlow
  | low16 =>
    unfold PortBits.mask
    rw [BitVec.and_assoc, BitVec.and_comm 0xffff, ← BitVec.and_assoc, hlow]
    exact BitVec.zero_and

/-- All bits of the base are writable. -/
theorem base_not_mask (h : IoBarAt mask config r bits k base) : base &&& ~~~bits.mask k = 0 := by
  have hle := h.le_sixteen
  have hall : base &&& ~~~alignMask 32 k = 0 := and_not_alignMask (by omega) h.aligned
  cases bits with
  | all => exact hall
  | low16 =>
    have hport : base &&& ~~~0xffff = 0 := by
      have hmask : ~~~(0xffff : U32) = alignMask 32 16 := by decide
      apply BitVec.eq_of_toNat_eq
      rw [hmask, toNat_and_alignMask (by decide), Nat.div_eq_of_lt (h.port rfl)]
      rfl
    unfold PortBits.mask
    rw [BitVec.not_and, BitVec.and_or_distrib_left, hall, hport]
    rfl

/-- There is no room for `2 ^ 16` ports at a base that is not zero. -/
theorem lt_sixteen (h : IoBarAt mask config r .low16 k base) : k < 16 := by
  rcases Nat.lt_or_ge k 16 with hk | hk
  · exact hk
  obtain rfl : k = 16 := Nat.le_antisymm h.le_sixteen hk
  have hzero := Nat.eq_zero_of_dvd_of_lt h.aligned (h.port rfl)
  exact absurd (BitVec.eq_of_toNat_eq hzero) h.base_ne_zero

theorem size_lt (h : IoBarAt mask config r bits k base) : bits.size k < 2 ^ 32 := by
  cases bits with
  | all => exact Nat.pow_lt_pow_right (by decide) (Nat.lt_of_le_of_lt h.le_sixteen (by decide))
  | low16 =>
    have hpow : 2 ^ k < 2 ^ 16 := Nat.pow_lt_pow_right (by decide) h.lt_sixteen
    rw [PortBits.size]
    omega

/-- The size from the complement of the mask. -/
theorem size_eq (h : IoBarAt mask config r bits k base) :
    ~~~bits.mask k + 1 = BitVec.ofNat 32 (bits.size k) := by
  cases bits with
  | all => exact not_alignMask_add_one (Nat.lt_of_le_of_lt h.le_sixteen (by decide))
  | low16 =>
    have hsize : ∀ k < 16, ~~~PortBits.low16.mask k + 1 =
        BitVec.ofNat 32 (PortBits.low16.size k) := by decide
    exact hsize k h.lt_sixteen

end IoBarAt

namespace PciDevice

variable {dev : PciDevice} {pci : Ptr} {config : Config} {r k : Nat} {bits : PortBits} {base : U32}

/-! ## The loop -/

section Sound

variable (hf : ∀ off n, dev.fails off n = false)
include hf

/-- Only a 64-bit register makes the loop skip one. -/
theorem turn_next (r : Nat) : (turn dev (.start config) r).2 =
    if Is64 dev.mask config r then r + 1 else r := by
  unfold turn Is64
  rw [saved_ok hf, sized_ok hf]
  split
  · rename_i h0
    exact (if_neg fun h => h.1 h0).symm
  rename_i h0
  split
  · rename_i hio
    exact (if_neg fun h => h.2.1 hio).symm
  rename_i hio
  split
  · rename_i h64
    exact (if_pos ⟨h0, hio, h64⟩).symm
  · rename_i h64
    exact (if_neg fun h => h64 h.2.2).symm

/-- The loop comes to every register where a BAR starts. -/
theorem found_of_starts (h : Starts dev.mask config r) (hr : r < 6) : ∃ pre fuel, 6 < fuel + r ∧
    found dev (.start config) 7 0 = pre ++ found dev (.start config) fuel r := by
  have hnext {r n : Nat} (hr : r < 6) (hn : (turn dev (.start config) r).2 = n)
      (ih : ∃ pre fuel, 6 < fuel + r ∧
        found dev (.start config) 7 0 = pre ++ found dev (.start config) fuel r) :
      ∃ pre fuel, 6 < fuel + (n + 1) ∧
        found dev (.start config) 7 0 = pre ++ found dev (.start config) fuel (n + 1) := by
    obtain ⟨pre, fuel, hfuel, heq⟩ := ih
    obtain ⟨fuel, rfl⟩ : ∃ m, fuel = m + 1 := ⟨fuel - 1, by omega⟩
    have hle := (turn_snd dev (.start config) r).1
    rw [found_succ hr, hn, ← List.append_assoc] at heq
    exact ⟨_, fuel, by omega, heq⟩
  induction h with
  | zero => exact ⟨[], 7, by omega, (List.nil_append _).symm⟩
  | @next r hs hn ih => exact hnext (by omega) ((turn_next hf r).trans (if_neg hn)) (ih (by omega))
  | @next64 r hs hn ih =>
    exact hnext (by omega) ((turn_next hf r).trans (if_pos hn)) (ih (by omega))

/-- **A turn at an I/O register.** -/
theorem turn_io (h : IoBarAt dev.mask config r bits k base) :
    (turn dev (.start config) r).1 = some (ioEntry r base (bits.size k)) := by
  have hone : (1 : U32) &&& bits.mask k = 0 := by
    have hflag : (1 : U32) = 1 &&& 3 := by decide
    rw [hflag, BitVec.and_assoc, BitVec.and_comm 3, h.mask_low]
    exact BitVec.and_zero
  have hsized : merge (bits.mask k) (base ||| 1) (~~~0) = bits.mask k ||| 1 :=
    merge_flags h.base_not_mask hone
  obtain ⟨h0, hio⟩ := io_selected h.base_low
  have hvalue : reg (PciRun.start config).config r = base ||| 1 := h.value
  unfold turn
  rw [saved_ok hf, sized_ok hf, ones, h.mask_eq, hvalue, if_neg h0, if_pos hio, hsized,
    ioBar_flag r h.base_low h.mask_low, h.size_eq, ofNat_setWidth h.size_lt, ioEntry]

theorem mem_found_io (h : IoBarAt dev.mask config r bits k base) :
    ioEntry r base (bits.size k) ∈ found dev (.start config) 7 0 := by
  have hpos : (ioEntry r base (bits.size k)).fullSize > 0 :=
    ofNat_pos (bits.size_pos k) (Nat.lt_trans h.size_lt (by decide))
  obtain ⟨pre, fuel, hfuel, heq⟩ := found_of_starts hf h.starts h.lt
  have hr := h.lt
  obtain ⟨fuel, rfl⟩ : ∃ m, fuel = m + 1 := ⟨fuel - 1, by omega⟩
  rw [heq, found_succ h.lt, turn_io hf h, Option.filter_some, if_pos (decide_eq_true hpos)]
  exact List.mem_append_right _ (List.mem_append_left _ (List.mem_singleton_self _))

/-- Nothing else is found at the register. -/
theorem found_io_eq (h : IoBarAt dev.mask config r bits k base) {b : Bar}
    (hb : b ∈ found dev (.start config) 7 0) (hr : b.bar = r) :
    b = ioEntry r base (bits.size k) := by
  obtain ⟨j, hj, hturn⟩ := mem_found hb
  obtain rfl : j = r := (bar_of_turn hturn).symm.trans hr
  exact Option.some.inj (hturn.symm.trans (turn_io hf h))

/-- The size that is printed for a register with 16 address bits is another one. -/
theorem not_reports_low16 (hnormal : NormalHeader config)
    (h : IoBarAt dev.mask config r .low16 k base) :
    ¬dev.Reports pci config (ioEntry r base (2 ^ k)) := by
  rw [reports_iff_found hf hnormal]
  rintro ⟨b, hb, htext⟩
  have hlt := h.lt
  have hr : b.bar = r := by
    obtain ⟨j, hj, hturn⟩ := mem_found hb
    have hbar := bar_of_turn hturn
    exact bar_of_barText (by omega) (Nat.lt_trans hlt (by decide)) htext
  rw [found_io_eq hf h hb hr] at htext
  have hscaled : ∀ k < 16, scaled (BitVec.ofNat 64 (PortBits.low16.size k)) ≠
      scaled (BitVec.ofNat 64 (2 ^ k)) := by decide
  have hhead : barHead (ioEntry r base (PortBits.low16.size k)) =
      barHead (ioEntry r base (2 ^ k)) := rfl
  exact hscaled k h.lt_sixteen (scaled_of_barText hhead htext)

/-- **An I/O register is reported with its size exactly if it implements all 32 address bits.** -/
theorem printDeviceInfo_io_iff (pci : Ptr) (hnormal : NormalHeader config)
    (h : IoBarAt dev.mask config r bits k base) :
    dev.Reports pci config (ioEntry r base (2 ^ k)) ↔ bits = .all := by
  cases bits with
  | all => exact iff_of_true ((reports_iff_found hf hnormal _).mpr ⟨_, mem_found_io hf h, rfl⟩) rfl
  | low16 => exact iff_of_false (not_reports_low16 hf hnormal h) nofun

end Sound

/-- A device with one I/O register. -/
def portsMask (bits : PortBits) : Config := fun a =>
  if a = 0x11 then 0xff else if bits = .all ∧ (a = 0x12 ∨ a = 0x13) then 0xff else 0

/-- Its 256 ports are at `0xc000`. -/
def portsConfig : Config := fun a => if a = 0x10 then 1 else if a = 0x11 then 0xc0 else 0

theorem ioBarAt_ports (bits : PortBits) : IoBarAt (portsMask bits) portsConfig 0 bits 8 0xc000 where
  starts := .zero
  lt := by decide
  two_le := by decide
  le_sixteen := by decide
  base_ne_zero := by decide
  aligned := by decide
  port := fun _ => by decide
  value := by decide
  mask_eq := by cases bits <;> decide

theorem printDeviceInfo_io_ports :
    (PciDevice.mk 0 0 3 0 (portsMask .all) fun _ _ => false).Reports 1 portsConfig
      (ioEntry 0 0xc000 (2 ^ 8)) :=
  (printDeviceInfo_io_iff (fun _ _ => rfl) 1 (by decide) (ioBarAt_ports .all)).mpr rfl

/-- With 16 address bits it is not 256 ports that are reported. -/
theorem not_printDeviceInfo_io : ¬∀ (dev : PciDevice) (pci : Ptr) (config : Config) (r : Nat)
    (bits : PortBits) (k : Nat) (base : U32), (∀ off n, dev.fails off n = false) →
    NormalHeader config → IoBarAt dev.mask config r bits k base →
    dev.Reports pci config (ioEntry r base (2 ^ k)) := by
  intro hall
  have hports := hall ⟨0, 0, 3, 0, portsMask .low16, fun _ _ => false⟩ 1 portsConfig 0 .low16 8
    0xc000 (fun _ _ => rfl) (by decide) (ioBarAt_ports .low16)
  exact not_reports_low16 (fun _ _ => rfl) (by decide) (ioBarAt_ports .low16) hports

end PciDevice

end UefiStub
