import UefiStub.Align
import UefiStub.Memory.Pool

/-!
# Page allocation

`efi_allocate_memory_pages` asks for a run of pages whose uppermost byte is at
or below the last byte of the highest page below `below_addr`. Both operands
wrap at the ends of the range: there is no page below an address in the first
page, and the limit becomes the highest address; and the page count of a size
in the last page is zero.
-/

namespace UefiStub

open Interact

/-- Returns the status and `*phys_addr`. -/
def efiAllocateMemoryPages (size physAddr belowAddr : U64) : Uefi (Status × U64) := do
  let type := efiLoaderData
  let allocAddr := Align.alignDown belowAddr efiPageSize - 1
  let (status, allocAddr) ←
    allocatePages efiAllocateMaxAddress type (Align.alignDiv size efiPageSize) allocAddr
  if status ≠ efiSuccess then return (status, physAddr)
  return (efiSuccess, allocAddr)

def efiFreeMemoryPages (size physAddr : U64) : Uefi Unit := do
  if size = 0 then return ()
  let numPages := Align.align size efiPageSize >>> efiPageShift
  let _ ← freePages physAddr numPages
  return ()

/-- `allocate_pages` gives a page-aligned run of the requested pages, whose uppermost byte is at
or below the address passed in. -/
def PagesContract (_ : Trace) : (o : Op) → o.Ans → Prop
  | .allocatePages _ _ pages physAddr, (status, addr) => status = efiSuccess →
    2 ^ 12 ∣ addr.toNat ∧ addr.toNat + pages.toNat * 2 ^ 12 ≤ physAddr.toNat + 1
  | _, _ => True

/-- What the caller gets: the run at `*phys_addr` holds `size` bytes and lies below `belowAddr`,
or `*phys_addr` is unchanged. -/
def PagesDelivered (size physAddr belowAddr : U64) (r : Status × U64) (tr : Trace) : Prop :=
  (r.1 = efiSuccess → ∃ type pages limit,
    tr = [⟨.allocatePages efiAllocateMaxAddress type pages limit, (efiSuccess, r.2)⟩] ∧
      size.toNat ≤ pages.toNat * 2 ^ 12 ∧ r.2.toNat + pages.toNat * 2 ^ 12 ≤ belowAddr.toNat) ∧
    (r.1 ≠ efiSuccess → r.2 = physAddr)

/-- The contract of `efi_allocate_memory_pages`, whatever the firmware answers. -/
def DeliversPages (size belowAddr : U64) : Prop :=
  ∀ (physAddr : U64) (r : Status × U64) (tr : Trace),
    Reach (Recorded PagesContract) (efiAllocateMemoryPages size physAddr belowAddr, [])
      (.ret r, tr) → PagesDelivered size physAddr belowAddr r tr

section Pages

variable {size belowAddr : U64}

theorem efiPageSize_eq : efiPageSize = BitVec.ofNat 32 (2 ^ 12) := by decide

theorem toNat_pages (size : U64) :
    (Align.alignDiv size efiPageSize).toNat = (size.toNat + 4095) % 2 ^ 64 / 2 ^ 12 := by
  rw [efiPageSize_eq, Align.toNat_alignDiv (by decide), show 2 ^ 12 - 1 = 4095 from rfl]

/-- The last byte of the highest page below an address, if there is one. -/
theorem toNat_limit (belowAddr : U64) : (Align.alignDown belowAddr efiPageSize - 1).toNat =
    if belowAddr.toNat < 2 ^ 12 then 2 ^ 64 - 1 else belowAddr.toNat / 2 ^ 12 * 2 ^ 12 - 1 := by
  have hlt := belowAddr.isLt
  have hone : (1 : U64).toNat = 1 := rfl
  rw [BitVec.toNat_sub, hone, efiPageSize_eq, Align.toNat_alignDown (by decide)]
  split <;> omega

/-- A run of one call that succeeds. -/
theorem reach_pages {addr : U64} (physAddr : U64)
    (h : PagesContract [] (.allocatePages efiAllocateMaxAddress efiLoaderData
      (Align.alignDiv size efiPageSize) (Align.alignDown belowAddr efiPageSize - 1))
      (efiSuccess, addr)) :
    Reach (Recorded PagesContract) (efiAllocateMemoryPages size physAddr belowAddr, [])
      (.ret (efiSuccess, addr), [⟨.allocatePages efiAllocateMaxAddress efiLoaderData
        (Align.alignDiv size efiPageSize) (Align.alignDown belowAddr efiPageSize - 1),
          (efiSuccess, addr)⟩]) :=
  reach_record h .refl

theorem safe_efiAllocateMemoryPages (physAddr : U64) (hbelow : 2 ^ 12 ≤ belowAddr.toNat)
    (hsize : size.toNat + 4095 < 2 ^ 64) :
    Safe (Recorded PagesContract) (fun _ _ => True) (PagesDelivered size physAddr belowAddr)
      (efiAllocateMemoryPages size physAddr belowAddr) [] := by
  have hpages := toNat_pages size
  have hlimit := toNat_limit belowAddr
  unfold efiAllocateMemoryPages
  refine .op_bind trivial fun ⟨status, addr⟩ hA => ?_
  dsimp only
  by_cases hs : status = efiSuccess
  · subst hs
    rw [if_neg fun h => h rfl]
    refine .ret ⟨fun _ => ⟨_, _, _, rfl, ?_, ?_⟩, fun h => absurd rfl h⟩
    · rw [hpages]
      omega
    · obtain ⟨-, htop⟩ := hA rfl
      rw [hlimit, if_neg (Nat.not_lt.mpr hbelow)] at htop
      change addr.toNat + _ ≤ _
      omega
  · rw [if_pos hs]
    exact .ret ⟨fun h => absurd h hs, fun _ => rfl⟩

/-- **Where pages are delivered.** The run is large enough and below the address for every
firmware exactly if there is a page below the address and rounding the size up does not wrap. -/
theorem deliversPages_iff (h0 : 0 < size) : DeliversPages size belowAddr ↔
    2 ^ 12 ≤ belowAddr.toNat ∧ size.toNat + 4095 < 2 ^ 64 := by
  have hpos : 0 < size.toNat := h0
  have hlt := size.isLt
  have hpages := toNat_pages size
  have hlimit := toNat_limit belowAddr
  have hzero (n : Nat) : (0 : U64).toNat + n = n := Nat.zero_add n
  constructor
  · intro h
    -- a run at address 0 that the contract allows is too long or too small
    have hrun (hfit : (Align.alignDiv size efiPageSize).toNat * 2 ^ 12 ≤
        (Align.alignDown belowAddr efiPageSize - 1).toNat + 1) :
        size.toNat ≤ (Align.alignDiv size efiPageSize).toNat * 2 ^ 12 ∧
          (Align.alignDiv size efiPageSize).toNat * 2 ^ 12 ≤ belowAddr.toNat := by
      obtain ⟨hok, -⟩ := h 0 _ _ (@reach_pages _ _ 0 0 fun _ =>
        ⟨Nat.dvd_zero _, by rwa [hzero]⟩)
      obtain ⟨type, pages, limit, htr, hle, htop⟩ := hok rfl
      cases htr
      dsimp only at htop
      rw [hzero] at htop
      exact ⟨hle, htop⟩
    constructor
    · by_contra hbelow
      rw [if_pos (by omega)] at hlimit
      obtain ⟨hle, htop⟩ := hrun (by omega)
      omega
    · by_contra hwrap
      obtain ⟨hle, -⟩ := hrun (by omega)
      omega
  · rintro ⟨hbelow, hsize⟩ physAddr r tr hr
    exact Safe.ret_iff.mp ((safe_efiAllocateMemoryPages physAddr hbelow hsize).of_reach hr)

theorem deliversPages_page : DeliversPages 1 0x100000 ↔
    2 ^ 12 ≤ (0x100000 : U64).toNat ∧ (1 : U64).toNat + 4095 < 2 ^ 64 :=
  deliversPages_iff (by decide)

/-- One byte below address 16. -/
theorem not_deliversPages : ¬∀ size belowAddr : U64, 0 < size → DeliversPages size belowAddr := by
  intro h
  obtain ⟨hbelow, -⟩ := (deliversPages_iff (by decide)).mp (h 1 16 (by decide))
  exact absurd hbelow (by decide)

end Pages

end UefiStub
