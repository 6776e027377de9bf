import UefiStub.Memory.Basic

/-!
# The memory map that grows under its own allocation

`MapFirmware` answers `get_memory_map` from a map of `count` descriptors as
UEFI specifies, and its `allocate_pool` adds `growth` of them. The buffer has
room for 32 more, but the second `get_memory_map` announces the size of the
first answer: a map that has grown at all does not fit.
-/

namespace UefiStub

open Interact

/-- A firmware with descriptors of `descSize` bytes. -/
structure MapFirmware where
  descSize : U64
  descVersion : U32
  /-- The key of a map of so many descriptors. -/
  mapKey : Nat → U64
  /-- The descriptors an allocation adds. -/
  growth : Nat
  /-- Where the pool buffer is. -/
  buffer : Ptr
  buffer_ne_null : buffer ≠ 0

/-- The firmware's map, the bytes it has allocated and the maps it has written into buffers. -/
structure MapState where
  count : Nat
  allocated : Nat
  written : List (Ptr × Nat)
  deriving DecidableEq

namespace MapFirmware

variable (fw : MapFirmware)

def mapBytes (count : Nat) : Nat := count * fw.descSize.toNat

def handler : Handler Op Op.Ans MapState
  | .getMemoryMap mapSize map, s =>
    if mapSize.toNat < fw.mapBytes s.count then
      some ((efiBufferTooSmall, ⟨some (BitVec.ofNat 64 (fw.mapBytes s.count)), none,
        some fw.descSize, some fw.descVersion⟩), s)
    else
      some ((efiSuccess, ⟨some (BitVec.ofNat 64 (fw.mapBytes s.count)), some (fw.mapKey s.count),
        some fw.descSize, some fw.descVersion⟩), { s with written := (map, s.count) :: s.written })
  | .allocatePool _ size, s =>
    some ((efiSuccess, fw.buffer), { s with
      count := s.count + fw.growth
      allocated := size.toNat })
  | .freePool _, s => some (efiSuccess, s)
  | _, _ => none

/-- What the code knows about a map of `count` descriptors it was given. -/
def mapData (count : Nat) : MemoryMapData where
  physMap := 0
  mapKey := fw.mapKey count
  mapSize := BitVec.ofNat 64 (fw.mapBytes count)
  descVersion := fw.descVersion
  descSize := fw.descSize

/-- The bytes of the pool buffer for a map of `count` descriptors: the room for 32 more,
as a `size_t`. -/
def bufferBytes (count : Nat) : Nat :=
  ((BitVec.ofNat 64 (fw.mapBytes count) + fw.descSize * 32).setWidth 32).toNat

/-- From a map of `n` descriptors the code returns `EFI_SUCCESS` and the grown map, in a buffer
that holds it. -/
def DeliversGrown (n : Nat) : Prop :=
  ∀ (ptr : Ptr) (data : MemoryMapData), ∃ s,
    run fw.handler (efiLoadMemoryMap (some ptr) data) ⟨n, 0, []⟩ =
      some ((efiSuccess, some fw.buffer, fw.mapData (n + fw.growth)), s) ∧
    s.written.head? = some (fw.buffer, n + fw.growth) ∧
    fw.mapBytes (n + fw.growth) ≤ s.allocated

variable {fw} {α : Type}

/-- An announced size below the map's. -/
theorem run_loadMap_small {tmp : MemoryMapData} {map : Ptr} {s : MapState}
    (h : tmp.mapSize.toNat < fw.mapBytes s.count) (k : Status × MemoryMapData → Uefi α) :
    run fw.handler (loadMap tmp map >>= k) s =
      run fw.handler (k (efiBufferTooSmall, { tmp with
        mapSize := BitVec.ofNat 64 (fw.mapBytes s.count)
        descSize := fw.descSize
        descVersion := fw.descVersion })) s := by
  simp only [loadMap, Prog.op_bind, Prog.call_bind, run_call, handler, if_pos h, Option.bind_some,
    Option.getD_some, Option.getD_none, Prog.pure_eq, Prog.ret_bind]

theorem run_loadMap_success {tmp : MemoryMapData} {map : Ptr} {s : MapState}
    (h : fw.mapBytes s.count ≤ tmp.mapSize.toNat) (k : Status × MemoryMapData → Uefi α) :
    run fw.handler (loadMap tmp map >>= k) s =
      run fw.handler (k (efiSuccess, { fw.mapData s.count with physMap := tmp.physMap }))
        { s with written := (map, s.count) :: s.written } := by
  simp only [loadMap, Prog.op_bind, Prog.call_bind, run_call, handler, if_neg (Nat.not_lt.mpr h),
    Option.bind_some, Option.getD_some, Prog.pure_eq, Prog.ret_bind, mapData]

theorem run_efiAllocateBuffer (size : U32) {s : MapState} (k : Ptr → Uefi α) :
    run fw.handler (efiAllocateBuffer size efiLoaderData >>= k) s =
      run fw.handler (k fw.buffer) { s with
        count := s.count + fw.growth
        allocated := size.toNat } := by
  have htype : ¬(efiLoaderData ≥ efiMaxMemoryType ∨ efiLoaderData = efiPersistentMemory) := by
    decide
  have hsize : (size.setWidth 64).toNat = size.toNat :=
    BitVec.toNat_setWidth_of_le (by decide)
  simp only [efiAllocateBuffer, if_neg htype, Prog.op_bind, Prog.call_bind, run_call, handler,
    Option.bind_some, ne_eq, not_true_eq_false, if_false, Prog.pure_eq, Prog.ret_bind, hsize]

/-- An empty map is announced correctly as 0 bytes: the size query succeeds, which the code takes
for an error. -/
theorem run_empty {n : Nat} (h : fw.mapBytes n = 0) (ptr : Ptr) (data : MemoryMapData) :
    run fw.handler (efiLoadMemoryMap (some ptr) data) ⟨n, 0, []⟩ =
      some ((efiLoadError, some 0, data), ⟨n, 0, [(0, n)]⟩) := by
  simp only [efiLoadMemoryMap]
  rw [run_loadMap_success (by rw [h]; exact Nat.zero_le _)]
  rfl

/-- The size query fails as it should, the buffer is allocated, and the map is read with the
size of the first answer. -/
theorem run_query {n : Nat} (h : fw.mapBytes n ≠ 0) (ptr : Ptr) (data : MemoryMapData) :
    run fw.handler (efiLoadMemoryMap (some ptr) data) ⟨n, 0, []⟩ =
      run fw.handler (do
        let (status, tmp) ← loadMap { MemoryMapData.zero with
          mapSize := BitVec.ofNat 64 (fw.mapBytes n)
          descSize := fw.descSize
          descVersion := fw.descVersion } fw.buffer
        if status ≠ efiSuccess then
          efiFreeBuffer fw.buffer
          return (status, some 0, data)
        return (status, some fw.buffer, tmp)) ⟨n + fw.growth, fw.bufferBytes n, []⟩ := by
  have htoo : ¬(efiBufferTooSmall : Status) ≠ efiBufferTooSmall := fun h => h rfl
  simp only [efiLoadMemoryMap]
  rw [run_loadMap_small (by exact Nat.pos_of_ne_zero h)]
  simp only [if_neg htoo, Option.map_some, Option.isSome_some, if_true]
  rw [run_efiAllocateBuffer]
  simp only [if_neg fw.buffer_ne_null, bufferBytes]

/-- **The slack is usable exactly if nothing was allocated in it.** -/
theorem deliversGrown_iff {n : Nat} (hfit : fw.mapBytes (n + fw.growth) ≤ fw.bufferBytes n) :
    fw.DeliversGrown n ↔ fw.mapBytes n ≠ 0 ∧ fw.growth = 0 := by
  have hlt : fw.mapBytes (n + fw.growth) < 2 ^ 32 := Nat.lt_of_le_of_lt hfit (BitVec.isLt _)
  have hmul : fw.mapBytes (n + fw.growth) = fw.mapBytes n + fw.growth * fw.descSize.toNat :=
    Nat.add_mul ..
  have hsize : (BitVec.ofNat 64 (fw.mapBytes n)).toNat = fw.mapBytes n := by
    rw [BitVec.toNat_ofNat]; omega
  by_cases h0 : fw.mapBytes n = 0
  · refine ⟨fun h => ?_, fun h => absurd h0 h.1⟩
    obtain ⟨s, hs, -⟩ := h 0 MemoryMapData.zero
    rw [run_empty h0] at hs
    cases hs
  have hd : 0 < fw.descSize.toNat := Nat.pos_of_ne_zero fun hd => h0 (by rw [mapBytes, hd]; rfl)
  by_cases hg : fw.growth = 0
  · refine ⟨fun _ => ⟨h0, hg⟩, fun _ ptr data =>
      ⟨⟨n, fw.bufferBytes n, [(fw.buffer, n)]⟩, ?_, by rw [hg]; rfl, hfit⟩⟩
    rw [run_query h0, hg, run_loadMap_success (Nat.le_of_eq hsize.symm)]
    rfl
  · refine ⟨fun h => ?_, fun h => absurd h.2 hg⟩
    have hpos : 0 < fw.growth * fw.descSize.toNat := Nat.mul_pos (Nat.pos_of_ne_zero hg) hd
    obtain ⟨s, hs, -⟩ := h 0 MemoryMapData.zero
    rw [run_query h0, run_loadMap_small (by simp only [hsize, hmul]; omega)] at hs
    have hfail : (efiBufferTooSmall : Status) ≠ efiSuccess := by decide
    simp only [if_pos hfail, efiFreeBuffer, if_neg fw.buffer_ne_null, Prog.op_bind, Prog.call_bind,
      run_call, handler, Option.bind_some, Prog.pure_eq, Prog.ret_bind, run_ret,
      Option.some.injEq, Prod.mk.injEq] at hs
    exact absurd hs.1.1 hfail

/-- A map of one descriptor of 48 bytes that an allocation enlarges by `growth`. -/
def small (growth : Nat) : MapFirmware where
  descSize := 48
  descVersion := 1
  mapKey := fun count => BitVec.ofNat 64 count
  growth := growth
  buffer := 0x1000
  buffer_ne_null := by decide

theorem deliversGrown_small : (small 0).DeliversGrown 1 ↔ (small 0).mapBytes 1 ≠ 0 ∧
    (small 0).growth = 0 := deliversGrown_iff (by decide)

/-- One more descriptor, and the map is not loaded although it fits. -/
theorem not_deliversGrown_small : ¬∀ (fw : MapFirmware) (n : Nat), fw.growth ≤ 32 →
    fw.mapBytes (n + fw.growth) ≤ fw.bufferBytes n → fw.DeliversGrown n := by
  intro h
  obtain ⟨s, hs, -⟩ := h (small 1) 1 (by decide) (by decide) 0 MemoryMapData.zero
  have hrun : (run (small 1).handler (efiLoadMemoryMap (some 0) MemoryMapData.zero) ⟨1, 0, []⟩).map
      (·.1.1) = some efiBufferTooSmall := by decide
  rw [hs, Option.map_some, Option.some.injEq] at hrun
  exact absurd hrun (show efiSuccess ≠ efiBufferTooSmall by decide)

end MapFirmware

end UefiStub
