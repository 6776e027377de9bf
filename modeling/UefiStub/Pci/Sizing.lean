import UefiStub.Lib.Bits
import UefiStub.Pci.Listing

/-!
# What sizing reports

A layout is a list of units that fill the six base address registers:
unimplemented registers, I/O windows, 32-bit memory windows and 64-bit memory
windows, which take two registers. `BarUnit.regs` is the writable bits and the
value of each register of a unit, as the PCI sizing rule has them.

On a device with such a layout and no failing access, a run prints the device
line and then one line for each unit whose low register is not zero, with the
unit's own base and size: the text is theirs and reads back as they are.
-/

namespace UefiStub

open Interact

/-- A naturally aligned window of `2 ^ log` bytes. -/
structure Window (w lo hi : Nat) where
  log : Nat
  base : BitVec w
  lo_le : lo ≤ log
  le_hi : log ≤ hi
  aligned : 2 ^ log ∣ base.toNat

/-- The address bits the device decodes. -/
def Window.mask {w lo hi : Nat} (win : Window w lo hi) : BitVec w := alignMask w win.log

inductive BarUnit where
  | unimplemented
  | io (win : Window 32 2 31)
  | mem32 (win : Window 32 4 31) (prefetchable : Bool)
  | mem64 (win : Window 64 4 63) (prefetchable : Bool)

namespace BarUnit

/-- The prefetch flag in a register. -/
def prefetchFlag (prefetchable : Bool) : U32 := if prefetchable then 8 else 0

/-- The writable bits and the value of each register of a unit. -/
def regs : BarUnit → List (U32 × U32)
  | unimplemented => [(0, 0)]
  | io win => [(win.mask, win.base ||| 1)]
  | mem32 win p => [(win.mask, win.base ||| prefetchFlag p)]
  | mem64 win p => [(win.mask.setWidth 32, win.base.setWidth 32 ||| (4 ||| prefetchFlag p)),
      (upperHalf win.mask, upperHalf win.base)]

/-- The number of its registers. -/
def width (u : BarUnit) : Nat := u.regs.length

/-- What there is to say about an implemented unit whose first register is `idx`. -/
def bar (idx : Nat) : BarUnit → Option Bar
  | unimplemented => none
  | io win => some ⟨idx, false, false, false, win.base.setWidth 64, BitVec.ofNat 64 (2 ^ win.log)⟩
  | mem32 win p => some ⟨idx, true, false, p, win.base.setWidth 64, BitVec.ofNat 64 (2 ^ win.log)⟩
  | mem64 win p => some ⟨idx, true, true, p, win.base, BitVec.ofNat 64 (2 ^ win.log)⟩

/-- The value of the first register. -/
def low : BarUnit → U32
  | unimplemented => 0
  | io win => win.base ||| 1
  | mem32 win p => win.base ||| prefetchFlag p
  | mem64 win p => win.base.setWidth 32 ||| (4 ||| prefetchFlag p)

/-- The entry for a unit at `idx`, if its low register is not zero. -/
def entry (idx : Nat) (u : BarUnit) : Option Bar := if u.low = 0 then none else u.bar idx

end BarUnit

/-- The entries for the units from register `idx` on, in register order. -/
def entries : Nat → List BarUnit → List Bar
  | _, [] => []
  | idx, u :: us => (u.entry idx).toList ++ entries (idx + u.width) us

/-- The `n` registers from `idx` on: writable bits and value. -/
def registers (mask config : Config) (idx n : Nat) : List (U32 × U32) :=
  (List.range' idx n).map fun r => (reg mask r, reg config r)

/-- The units describe the six registers. -/
def HasLayout (mask config : Config) (units : List BarUnit) : Prop :=
  units.flatMap BarUnit.regs = registers mask config 0 6

instance (mask config : Config) (units : List BarUnit) : Decidable (HasLayout mask config units) :=
  inferInstanceAs (Decidable (units.flatMap BarUnit.regs = registers mask config 0 6))

/-! ## Windows -/

section Window

variable {w lo hi : Nat} (win : Window w lo hi)

theorem Window.base_low : win.base &&& BitVec.ofNat w (2 ^ lo - 1) = 0#w :=
  and_low_of_dvd win.aligned win.lo_le

theorem Window.mask_low (h : hi < w) : win.mask &&& BitVec.ofNat w (2 ^ lo - 1) = 0#w := by
  have := win.le_hi
  exact and_low_of_dvd (dvd_alignMask (by omega)) win.lo_le

theorem Window.base_not_mask (h : hi < w) : win.base &&& ~~~win.mask = 0#w := by
  have := win.le_hi
  exact and_not_alignMask (by omega) win.aligned

theorem Window.size (h : hi < w) : ~~~win.mask + 1 = BitVec.ofNat w (2 ^ win.log) := by
  have := win.le_hi
  exact not_alignMask_add_one (by omega)

/-- The value read back after all ones are written to an address with flags. -/
theorem Window.sized (h : hi < w) {c : BitVec w} (hc : c &&& BitVec.ofNat w (2 ^ lo - 1) = c) :
    merge win.mask (win.base ||| c) (~~~0#w) = win.mask ||| c := by
  refine merge_flags (win.base_not_mask h) ?_
  rw [← hc, BitVec.and_assoc, BitVec.and_comm (BitVec.ofNat w (2 ^ lo - 1)), win.mask_low h]
  exact BitVec.and_zero

end Window

theorem ofNat_setWidth {n : Nat} (h : n < 2 ^ 32) :
    (BitVec.ofNat 32 n).setWidth 64 = BitVec.ofNat 64 n := by
  apply BitVec.eq_of_toNat_eq
  rw [BitVec.toNat_setWidth_of_le (by decide), BitVec.toNat_ofNat, BitVec.toNat_ofNat,
    Nat.mod_eq_of_lt h, Nat.mod_eq_of_lt (by omega)]

theorem ofNat_setWidth_pow {k : Nat} (h : k ≤ 31) :
    (BitVec.ofNat 32 (2 ^ k)).setWidth 64 = BitVec.ofNat 64 (2 ^ k) :=
  ofNat_setWidth (Nat.pow_lt_pow_right (by decide) (by omega))

/-- An address with the I/O flag takes the I/O branch. -/
theorem io_selected {base : U32} (h : base &&& 3 = 0) :
    base ||| 1 ≠ 0 ∧ (base ||| 1) &&& pciBaseAddressSpace = pciBaseAddressSpaceIo := by
  have hio : (base ||| 1) &&& pciBaseAddressSpace = pciBaseAddressSpaceIo :=
    (or_and_flag h (by decide)).trans (by decide)
  exact ⟨fun h0 => by rw [h0] at hio; exact absurd hio (by decide), hio⟩

/-- The I/O branch on an address with the I/O flag. -/
theorem ioBar_flag (idx : Nat) {base mask : U32} (hbase : base &&& 3 = 0) (hmask : mask &&& 3 = 0) :
    ioBar idx (base ||| 1) (mask ||| 1) =
      ⟨idx, false, false, false, base.setWidth 64, (~~~mask + 1).setWidth 64⟩ := by
  have h1 : (1 : U32) &&& 3 = 1 := by decide
  have haddr : (base ||| 1) &&& pciBaseAddressIoMask = base := or_and_not_low hbase h1
  have hsize : (mask ||| 1) &&& pciBaseAddressIoMask = mask := or_and_not_low hmask h1
  rw [ioBar, haddr, hsize]

theorem ioBar_eq (idx : Nat) (win : Window 32 2 31) :
    some (ioBar idx (win.base ||| 1) (win.mask ||| 1)) = (BarUnit.io win).bar idx := by
  rw [ioBar_flag idx win.base_low (win.mask_low (by decide)), win.size (by decide),
    ofNat_setWidth_pow win.le_hi, BarUnit.bar]

/-- The size of a memory window from the complement of its mask. -/
theorem add_one_of_not_mask {w lo hi : Nat} (win : Window w lo hi) (hw : w ≤ 64) (h : hi < w)
    (h0 : 0 < lo) :
    (~~~win.mask).setWidth 64 ≠ 0 ∧
      (~~~win.mask).setWidth 64 + 1 = BitVec.ofNat 64 (2 ^ win.log) := by
  have hlog : win.log < w := Nat.lt_of_le_of_lt win.le_hi h
  have hlt : 2 ^ win.log < 2 ^ w := Nat.pow_lt_pow_right (by decide) hlog
  have hw64 : 2 ^ w ≤ 2 ^ 64 := Nat.pow_le_pow_right (by decide) hw
  have hpos := Nat.two_pow_pos win.log
  have hnat : ((~~~win.mask).setWidth 64).toNat = 2 ^ win.log - 1 := by
    rw [BitVec.toNat_setWidth_of_le hw, Window.mask, not_alignMask (by omega), BitVec.toNat_ofNat,
      Nat.mod_eq_of_lt (by omega)]
  constructor
  · intro hz
    have h2 : 2 ^ 1 ≤ 2 ^ win.log :=
      Nat.pow_le_pow_right (by decide) (Nat.le_trans h0 win.lo_le)
    have := congrArg BitVec.toNat hz
    rw [hnat] at this
    change 2 ^ win.log - 1 = 0 at this
    omega
  · apply BitVec.eq_of_toNat_eq
    rw [BitVec.toNat_add, hnat, BitVec.toNat_ofNat]
    change (2 ^ win.log - 1 + 1) % 2 ^ 64 = _
    rw [Nat.sub_add_cancel hpos]

section Memory

variable (p : Bool)

theorem prefetchFlag_low : BarUnit.prefetchFlag p &&& 0xf = BarUnit.prefetchFlag p := by
  cases p <;> decide

theorem prefetchFlag_mem :
    decide (BarUnit.prefetchFlag p &&& pciBaseAddressMemPrefetch ≠ 0) = p := by
  cases p <;> decide

/-- A 32-bit window takes the memory branch, and no second register. -/
theorem mem32_selected (win : Window 32 4 31) :
    (win.base ||| BarUnit.prefetchFlag p) &&& pciBaseAddressSpace ≠ pciBaseAddressSpaceIo ∧
      (win.mask ||| BarUnit.prefetchFlag p) &&& pciBaseAddressMemTypeMask ≠
        pciBaseAddressMemType64 := by
  constructor
  · rw [or_and_flag win.base_low (by decide)]
    cases p <;> decide
  · rw [or_and_flag (win.mask_low (by decide)) (by decide)]
    cases p <;> decide

theorem mem32Bar_eq (idx : Nat) (win : Window 32 4 31) :
    some (memBar idx (win.base ||| BarUnit.prefetchFlag p) (win.mask ||| BarUnit.prefetchFlag p)
      none) = (BarUnit.mem32 win p).bar idx := by
  have hc := prefetchFlag_low p
  have hm := win.mask_low (by decide)
  have haddr : (win.base ||| BarUnit.prefetchFlag p) &&& pciBaseAddressMemMask = win.base :=
    or_and_not_low win.base_low hc
  have hmask : (win.mask ||| BarUnit.prefetchFlag p) &&& pciBaseAddressMemMask = win.mask :=
    or_and_not_low hm hc
  have hpre : (win.mask ||| BarUnit.prefetchFlag p) &&& pciBaseAddressMemPrefetch =
      BarUnit.prefetchFlag p &&& pciBaseAddressMemPrefetch := or_and_flag hm (by decide)
  obtain ⟨hne, hsize⟩ := add_one_of_not_mask win (by decide) (by decide) (by decide)
  simp only [memBar, haddr, hmask, hpre, prefetchFlag_mem, if_pos hne, hsize, BarUnit.bar,
    Option.isSome_none]

theorem flags64_low : (4 ||| BarUnit.prefetchFlag p) &&& 0xf = 4 ||| BarUnit.prefetchFlag p := by
  cases p <;> decide

theorem lower_low {x : U64} (h : x &&& BitVec.ofNat 64 (2 ^ 4 - 1) = 0#64) :
    x.setWidth 32 &&& BitVec.ofNat 32 (2 ^ 4 - 1) = 0#32 := by
  have := congrArg (BitVec.setWidth 32) h
  rwa [BitVec.setWidth_and] at this

/-- A 64-bit window takes the memory branch with a second register. -/
theorem mem64_selected (win : Window 64 4 63) :
    win.base.setWidth 32 ||| (4 ||| BarUnit.prefetchFlag p) ≠ 0 ∧
      (win.base.setWidth 32 ||| (4 ||| BarUnit.prefetchFlag p)) &&& pciBaseAddressSpace ≠
        pciBaseAddressSpaceIo ∧
      (win.mask.setWidth 32 ||| (4 ||| BarUnit.prefetchFlag p)) &&& pciBaseAddressMemTypeMask =
        pciBaseAddressMemType64 := by
  have hbase := lower_low win.base_low
  have h4 : (win.base.setWidth 32 ||| (4 ||| BarUnit.prefetchFlag p)) &&& 4 = 4 := by
    rw [or_and_flag hbase (by decide)]
    cases p <;> decide
  refine ⟨fun h => by rw [h] at h4; exact absurd h4 (by decide), ?_, ?_⟩
  · rw [or_and_flag hbase (by decide)]
    cases p <;> decide
  · rw [or_and_flag (lower_low (win.mask_low (by decide))) (by decide)]
    cases p <;> decide

/-- What is read back from the two registers of a 64-bit window. -/
theorem mem64_sized (win : Window 64 4 63) :
    merge (win.mask.setWidth 32) (win.base.setWidth 32 ||| (4 ||| BarUnit.prefetchFlag p))
        (~~~0) = win.mask.setWidth 32 ||| (4 ||| BarUnit.prefetchFlag p) ∧
      merge (upperHalf win.mask) (upperHalf win.base) (~~~0) = upperHalf win.mask := by
  constructor
  · refine merge_flags ?_ ?_
    · rw [← BitVec.setWidth_not (by decide), ← BitVec.setWidth_and, win.base_not_mask (by decide)]
      rfl
    · rw [← flags64_low p, BitVec.and_assoc, BitVec.and_comm (0xf : U32)]
      exact (congrArg _ (lower_low (win.mask_low (by decide)))).trans BitVec.and_zero
  · have hx : upperHalf win.base &&& ~~~upperHalf win.mask = 0#32 := by
      rw [← upperHalf_not, ← upperHalf_and, win.base_not_mask (by decide)]
      rfl
    have := merge_flags (c := 0#32) hx BitVec.zero_and
    rwa [BitVec.or_zero, BitVec.or_zero] at this

theorem mem64Bar_eq (idx : Nat) (win : Window 64 4 63) :
    some (memBar idx (win.base.setWidth 32 ||| (4 ||| BarUnit.prefetchFlag p))
      (win.mask.setWidth 32 ||| (4 ||| BarUnit.prefetchFlag p))
      (some (upperHalf win.base, upperHalf win.mask))) = (BarUnit.mem64 win p).bar idx := by
  have hc := flags64_low p
  have hm := lower_low (win.mask_low (by decide))
  have haddr : (win.base.setWidth 32 ||| (4 ||| BarUnit.prefetchFlag p)) &&& pciBaseAddressMemMask =
      win.base.setWidth 32 := or_and_not_low (lower_low win.base_low) hc
  have hmask : (win.mask.setWidth 32 ||| (4 ||| BarUnit.prefetchFlag p)) &&& pciBaseAddressMemMask =
      win.mask.setWidth 32 := or_and_not_low hm hc
  have hpre : decide ((win.mask.setWidth 32 ||| (4 ||| BarUnit.prefetchFlag p)) &&&
      pciBaseAddressMemPrefetch ≠ 0) = p := by
    rw [or_and_flag hm (by decide)]
    cases p <;> decide
  obtain ⟨hne, hsize⟩ := add_one_of_not_mask win (by decide) (by decide) (by decide)
  rw [BitVec.setWidth_eq] at hne hsize
  have hfull : (~~~(win.mask.setWidth 32)).setWidth 64 |||
      (~~~upperHalf win.mask).setWidth 64 <<< 32 = ~~~win.mask := by
    rw [← BitVec.setWidth_not (by decide), ← upperHalf_not, join_halves]
  simp only [memBar, haddr, hmask, hpre, hfull, join_halves, if_pos hne, hsize, BarUnit.bar,
    Option.isSome_some]

end Memory

/-! ## Turns of the loop -/

namespace PciDevice

variable {dev : PciDevice} {pci : Ptr} {s : PciRun} {idx : Nat}

/-- **A turn at a unit** finds the unit and goes to its last register. -/
theorem turn_unit (hf : ∀ off n, dev.fails off n = false) {u : BarUnit}
    (hu : u.regs = registers dev.mask s.config idx u.width) :
    turn dev s idx = (u.entry idx, idx + (u.width - 1)) := by
  simp only [turn, saved_ok hf, sized_ok hf, ones]
  cases u with
  | unimplemented =>
    change [((0 : U32), (0 : U32))] = [(reg dev.mask idx, reg s.config idx)] at hu
    simp only [List.cons.injEq, Prod.mk.injEq, and_true] at hu
    rw [← hu.2]
    rfl
  | io win =>
    change [(win.mask, win.base ||| 1)] = [(reg dev.mask idx, reg s.config idx)] at hu
    simp only [List.cons.injEq, Prod.mk.injEq, and_true] at hu
    obtain ⟨h0, hio⟩ := io_selected win.base_low
    have hsized : merge win.mask (win.base ||| 1) (~~~0) = win.mask ||| 1 :=
      win.sized (by decide) (by decide)
    rw [← hu.1, ← hu.2, if_neg h0, if_pos hio, hsized, ioBar_eq, BarUnit.entry, BarUnit.low,
      if_neg h0]
    rfl
  | mem32 win p =>
    change [(win.mask, win.base ||| BarUnit.prefetchFlag p)] =
      [(reg dev.mask idx, reg s.config idx)] at hu
    simp only [List.cons.injEq, Prod.mk.injEq, and_true] at hu
    obtain ⟨hio, htype⟩ := mem32_selected p win
    have hsized : merge win.mask (win.base ||| BarUnit.prefetchFlag p) (~~~0) =
        win.mask ||| BarUnit.prefetchFlag p := win.sized (by decide) (prefetchFlag_low p)
    rw [← hu.1, ← hu.2, if_neg hio, hsized, if_neg htype, mem32Bar_eq, BarUnit.entry, BarUnit.low]
    split <;> rfl
  | mem64 win p =>
    change [(win.mask.setWidth 32, win.base.setWidth 32 ||| (4 ||| BarUnit.prefetchFlag p)),
      (upperHalf win.mask, upperHalf win.base)] = [(reg dev.mask idx, reg s.config idx),
        (reg dev.mask (idx + 1), reg s.config (idx + 1))] at hu
    simp only [List.cons.injEq, Prod.mk.injEq, and_true] at hu
    obtain ⟨h0, hio, htype⟩ := mem64_selected p win
    obtain ⟨hlower, hupper⟩ := mem64_sized p win
    obtain ⟨⟨hm, hv⟩, hm', hv'⟩ := hu
    rw [← hm, ← hv, ← hm', ← hv', if_neg h0, if_neg hio, hlower, if_pos htype, hupper, mem64Bar_eq,
      BarUnit.entry, BarUnit.low, if_neg h0]
    rfl

/-! ## The loop -/

theorem ofNat_pos {n : Nat} (h0 : 0 < n) (h : n < 2 ^ 64) : BitVec.ofNat 64 n > 0 := by
  rw [gt_iff_lt, BitVec.lt_def, toNat_ofNat_lt h]
  exact h0

theorem fullSize_pos {u : BarUnit} {b : Bar} (h : u.entry idx = some b) : b.fullSize > 0 := by
  have hpos {k : Nat} (hk : k ≤ 63) : BitVec.ofNat 64 (2 ^ k) > 0 :=
    ofNat_pos (Nat.two_pow_pos k) (Nat.pow_lt_pow_right (by decide) (by omega))
  rw [BarUnit.entry] at h
  split at h
  · cases h
  · cases u with
    | unimplemented => cases h
    | io win => cases h; exact hpos (Nat.le_trans win.le_hi (by decide))
    | mem32 win p => cases h; exact hpos (Nat.le_trans win.le_hi (by decide))
    | mem64 win p => cases h; exact hpos win.le_hi

/-- Every entry is printed. -/
theorem filter_entry (u : BarUnit) : (u.entry idx).filter (·.fullSize > 0) = u.entry idx := by
  cases h : u.entry idx with
  | none => rfl
  | some b => rw [Option.filter_some, if_pos (decide_eq_true (fullSize_pos h))]

theorem registers_split {mask config : Config} {u : BarUnit} {us : List BarUnit} {n : Nat}
    (h : (u :: us).flatMap BarUnit.regs = registers mask config idx n) :
    u.width ≤ n ∧ u.regs = registers mask config idx u.width ∧
      us.flatMap BarUnit.regs = registers mask config (idx + u.width) (n - u.width) := by
  have hlen := congrArg List.length h
  simp only [List.flatMap_cons, List.length_append, registers, List.length_map,
    List.length_range'] at hlen
  have hw : u.width ≤ n := by rw [BarUnit.width]; omega
  have hsplit : registers mask config idx n = registers mask config idx u.width ++
      registers mask config (idx + u.width) (n - u.width) := by
    rw [registers, registers, registers, ← List.map_append, List.range'_append_1,
      Nat.add_sub_cancel' hw]
  rw [hsplit, List.flatMap_cons] at h
  obtain ⟨h1, h2⟩ := List.append_inj h (by simp [registers, BarUnit.width])
  exact ⟨hw, h1, h2⟩

theorem width_pos (u : BarUnit) : 0 < u.width := by cases u <;> exact Nat.succ_pos _

/-- **The loop finds the units** from register `idx` on. -/
theorem found_units (hf : ∀ off n, dev.fails off n = false) {units : List BarUnit} {fuel : Nat}
    (hidx : idx ≤ 6) (hfuel : 6 < fuel + idx)
    (hl : units.flatMap BarUnit.regs = registers dev.mask s.config idx (6 - idx)) :
    found dev s fuel idx = entries idx units := by
  induction units generalizing fuel idx with
  | nil =>
    have hlen := congrArg List.length hl
    simp only [List.flatMap_nil, List.length_nil, registers, List.length_map,
      List.length_range'] at hlen
    cases fuel with
    | zero => rfl
    | succ fuel => rw [found, if_neg (by omega), entries]
  | cons u us ih =>
    obtain ⟨hw, hu, hus⟩ := registers_split hl
    have hpos := width_pos u
    obtain ⟨fuel, rfl⟩ : ∃ n, fuel = n + 1 := ⟨fuel - 1, by omega⟩
    rw [found_succ (by omega), turn_unit hf hu, filter_entry, entries,
      show idx + (u.width - 1) + 1 = idx + u.width by omega]
    refine congrArg _ (ih (by omega) (by omega) ?_)
    rw [hus, show 6 - idx - u.width = 6 - (idx + u.width) by omega]

/-! ## The report -/

theorem scalable_pow {k : Nat} : Scalable (2 ^ k) := by
  have hdvd {j : Nat} (h : j ≤ k / 10) : 1024 ^ j ∣ 2 ^ k := by
    rw [show 1024 = 2 ^ 10 from rfl, ← Nat.pow_mul]
    exact Nat.pow_dvd_pow 2 (by omega)
  by_cases hk : 4 ≤ k / 10
  · exact .inr ⟨4, Nat.le_refl 4, hdvd hk, .inl rfl⟩
  · refine .inr ⟨k / 10, by omega, hdvd (Nat.le_refl _), .inr ?_⟩
    rw [show 1024 = 2 ^ 10 from rfl, ← Nat.pow_mul]
    exact Nat.pow_le_pow_right (by decide) (by omega)

theorem legible_entry {u : BarUnit} {b : Bar} (h : u.entry idx = some b) (hidx : idx < 2 ^ 64) :
    b.Legible := by
  have hpow {k : Nat} (hk : k ≤ 63) : Scalable (BitVec.ofNat 64 (2 ^ k)).toNat := by
    rw [toNat_ofNat_lt (Nat.pow_lt_pow_right (by decide) (by omega))]
    exact scalable_pow
  unfold BarUnit.entry at h
  split at h
  · cases h
  cases u with
  | unimplemented => cases h
  | io win =>
    cases h
    exact ⟨hidx, fun _ => ⟨rfl, rfl⟩, hpow (Nat.le_trans win.le_hi (by decide))⟩
  | mem32 win p =>
    cases h
    exact ⟨hidx, nofun, hpow (Nat.le_trans win.le_hi (by decide))⟩
  | mem64 win p =>
    cases h
    exact ⟨hidx, nofun, hpow win.le_hi⟩

theorem mem_entries {b : Bar} {units : List BarUnit} (h : b ∈ entries idx units) :
    ∃ u j, j < idx + (units.flatMap BarUnit.regs).length ∧ BarUnit.entry j u = some b := by
  induction units generalizing idx with
  | nil => cases h
  | cons u us ih =>
    have hpos := width_pos u
    rw [List.flatMap_cons, List.length_append, show u.regs.length = u.width from rfl]
    rcases List.mem_append.mp h with h | h
    · exact ⟨u, idx, by omega, Option.mem_toList.mp h⟩
    · obtain ⟨v, j, hj, hentry⟩ := ih h
      exact ⟨v, j, by omega, hentry⟩

/-- Nothing about a unit is lost in its line. -/
theorem legible_entries {mask config : Config} {units : List BarUnit}
    (hl : HasLayout mask config units) : ∀ b ∈ entries 0 units, b.Legible := by
  intro b hb
  obtain ⟨u, j, hj, hentry⟩ := mem_entries hb
  have hlen : (units.flatMap BarUnit.regs).length = 6 := congrArg List.length hl
  exact legible_entry hentry (by omega)

/-- What the line of a device says. -/
def line (dev : PciDevice) (config : Config) : DeviceLine :=
  ⟨dev.segment, dev.bus, dev.device, dev.function, config.pciClass⟩

/-- **Sizing is right.** On a device with this layout a run prints the device line and then the
lines of the entries of the layout, which read back as these entries. -/
theorem printDeviceInfo_entries (dev : PciDevice) (hf : ∀ off n, dev.fails off n = false)
    (pci : Ptr) {config : Config} (h : NormalHeader config) {units : List BarUnit}
    (hl : HasLayout dev.mask config units) :
    ∃ s, run dev.handler (printDeviceInfo pci) (.start config) = some (efiSuccess, s) ∧
      s.out.flatten = asciiUnits (summaryText (dev.line config, entries 0 units)) ∧
      readListing (unitOctets s.out.flatten) = some [(dev.line config, entries 0 units)] := by
  have hfound : found dev (.start config) 7 0 = entries 0 units :=
    found_units hf (by omega) (by omega) hl
  obtain ⟨s, t, hs, ht, hout⟩ := run_printDeviceInfo_found hf pci h
  rw [hfound] at ht
  have hsays := (says_device (dev.line config)).bind (says_bars (entries 0 units))
  obtain ⟨t', ht', hflat⟩ := run_says hsays (.start config)
  obtain rfl : t' = t := (Prod.mk.inj (Option.some.inj (ht'.symm.trans ht))).2
  have htext : listingText [(dev.line config, entries 0 units)] =
      summaryText (dev.line config, entries 0 units) :=
    (listingText_cons _ []).trans (List.append_nil _)
  have hlegible : ∀ x ∈ [(dev.line config, entries 0 units)], ∀ b ∈ x.2, b.Legible := by
    intro x hx
    rw [List.mem_singleton.mp hx]
    exact legible_entries hl
  have hread := readListing_listingText hlegible
  refine ⟨s, hs, hout ▸ hflat, ?_⟩
  rw [hout, hflat]
  change readListing (unitOctets ([] ++ asciiUnits _)) = _
  rw [List.nil_append, unitOctets_asciiUnits hsays.ascii]
  rwa [htext] at hread

/-- A network card: 4 KiB of memory, 32 I/O ports, and 16 KiB of memory over 4 GiB. -/
def cardUnits : List BarUnit :=
  [.mem32 ⟨12, 0xfebf1000, by decide, by decide, by decide⟩ false,
    .io ⟨5, 0xc020, by decide, by decide, by decide⟩,
    .mem64 ⟨14, 0x800004000, by decide, by decide, by decide⟩ true,
    .unimplemented, .unimplemented]

def cardMask : Config := fun a =>
  if a < 0x10 then 0
  else [0x00, 0xf0, 0xff, 0xff, 0xe0, 0xff, 0xff, 0xff, 0x00, 0xc0, 0xff, 0xff,
    0xff, 0xff, 0xff, 0xff].getD (a - 0x10) 0

def cardConfig : Config := fun a =>
  if a < 0x10 then 0
  else [0x00, 0x10, 0xbf, 0xfe, 0x21, 0xc0, 0x00, 0x00, 0x0c, 0x40, 0x00, 0x00,
    0x08, 0x00, 0x00, 0x00].getD (a - 0x10) 0

theorem printDeviceInfo_entries_card :
    ∃ s, run (PciDevice.mk 0 0 3 0 cardMask fun _ _ => false).handler (printDeviceInfo 1)
        (.start cardConfig) = some (efiSuccess, s) ∧
      s.out.flatten = asciiUnits (summaryText (⟨0, 0, 3, 0, 0⟩, entries 0 cardUnits)) ∧
      readListing (unitOctets s.out.flatten) = some [(⟨0, 0, 3, 0, 0⟩,
        [⟨0, true, false, false, 0xfebf1000, 0x1000⟩, ⟨1, false, false, false, 0xc020, 0x20⟩,
          ⟨2, true, true, true, 0x800004000, 0x4000⟩])] := by
  have hentries : entries 0 cardUnits =
      [⟨0, true, false, false, 0xfebf1000, 0x1000⟩, ⟨1, false, false, false, 0xc020, 0x20⟩,
        ⟨2, true, true, true, 0x800004000, 0x4000⟩] := by decide
  rw [← hentries]
  exact printDeviceInfo_entries (PciDevice.mk 0 0 3 0 cardMask fun _ _ => false) (fun _ _ => rfl) 1
    (by decide) (by decide)

end PciDevice

end UefiStub
