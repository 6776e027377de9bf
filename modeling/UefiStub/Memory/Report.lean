import UefiStub.Memory.Load

/-!
# What is said about the memory map

`efi_load_memory_map` tells the firmware how long its buffer is, and its caller
whether there is a map. The length announced is the 64-bit size the firmware
asked for, the length requested is that size with room for 32 descriptors,
narrowed to a `size_t`. The status returned without a `map_ptr` is that of the
size query, which is expected to fail.
-/

namespace UefiStub

open Interact

/-- The size of the buffer for a map, as `allocate_pool` is told. -/
def bufferSize (mapSize descSize : U64) : U64 := ((mapSize + descSize * 32).setWidth 32).setWidth 64

/-- Where the next call passes a buffer to `get_memory_map`, it was requested with the announced
length at least. -/
def AnnouncesFitting {α : Type} (p : Uefi α) (tr : Trace) : Prop :=
  ∀ n map k, p = .call (.getMemoryMap n map) k → map ≠ 0 →
    ∃ type size, ⟨.allocatePool type size, (efiSuccess, map)⟩ ∈ tr ∧ n.toNat ≤ size.toNat

/-- What the firmware stored of the map, over a zeroed record. -/
def storedMap : Trace → MemoryMapData :=
  List.foldl (fun tmp e => match e with
    | ⟨.getMemoryMap _ _, (_, st)⟩ => st.into tmp
    | _ => tmp) MemoryMapData.zero

/-- `*map_data` is overwritten with what the firmware stored on success, and left as it was
otherwise. -/
def Truthful (mapData : MemoryMapData) (r : Status × Option Ptr × MemoryMapData) (tr : Trace) :
    Prop :=
  (r.1 = efiSuccess → r.2.2 = storedMap tr) ∧ (r.1 ≠ efiSuccess → r.2.2 = mapData)

/-- The buffer is passed after the size query and the allocation, with the size of the query. -/
def PassesBuffer (mapPtr : Option Ptr) (tr : Trace) (o : Op) : Prop :=
  ∀ n map, o = .getMemoryMap n map → map ≠ 0 → mapPtr ≠ none ∧ ∃ query : MapStores,
    tr = [⟨.getMemoryMap 0 0, (efiBufferTooSmall, query)⟩,
      ⟨.allocatePool efiLoaderData (bufferSize (query.mapSize.getD 0) (query.descSize.getD 0)),
        (efiSuccess, map)⟩] ∧
    n = query.mapSize.getD 0

/-- The runs without a `map_ptr` end after the size query. -/
def QueryOnly (mapData : MemoryMapData) (r : Status × Option Ptr × MemoryMapData) (tr : Trace) :
    Prop :=
  ∃ status query, tr = [⟨.getMemoryMap 0 0, (status, query)⟩] ∧
    (status ≠ efiBufferTooSmall → Truthful mapData r tr)

section Load

variable {mapPtr : Option Ptr} {mapData : MemoryMapData}

theorem truthful_failed {status : Status} (h : status ≠ efiSuccess) (ptr : Option Ptr)
    (tr : Trace) : Truthful mapData (status, ptr, mapData) tr :=
  ⟨fun hs => absurd hs h, fun _ => rfl⟩

theorem passesBuffer_query (mapPtr : Option Ptr) (tr : Trace) (n : U64) :
    PassesBuffer mapPtr tr (.getMemoryMap n 0) := fun n map ho hmap => by
  cases ho
  exact absurd rfl hmap

theorem safe_query_only : Safe History (PassesBuffer none) (QueryOnly mapData)
    (efiLoadMemoryMap none mapData) [] := by
  unfold efiLoadMemoryMap
  refine safe_loadMap (passesBuffer_query _ _ _) fun status query => ?_
  dsimp only
  by_cases hbts : status = efiBufferTooSmall
  · rw [if_neg fun h => h hbts]
    exact .ret ⟨_, _, rfl, fun h => absurd hbts h⟩
  · rw [if_pos hbts]
    exact .ret ⟨_, _, rfl, fun _ => truthful_failed (by decide) _ _⟩

theorem safe_load_truthful (ptr : Ptr) : Safe History (PassesBuffer (some ptr)) (Truthful mapData)
    (efiLoadMemoryMap (some ptr) mapData) [] := by
  unfold efiLoadMemoryMap
  refine safe_loadMap (passesBuffer_query _ _ _) fun status query => ?_
  dsimp only
  by_cases hbts : status = efiBufferTooSmall
  swap
  · rw [if_pos hbts]
    exact .ret (truthful_failed (by decide) _ _)
  subst hbts
  rw [if_neg fun h => h rfl]
  refine safe_efiAllocateBuffer (fun n map ho => by cases ho) (fun x hx => ?_) fun map hmap => ?_
  · exact .ret (truthful_failed (by decide) _ _)
  rw [if_neg hmap]
  refine safe_loadMap (fun n map' ho _ => ?_) fun status fill => ?_
  · cases ho
    exact ⟨fun h => (by cases h), query, rfl, rfl⟩
  dsimp only
  by_cases hok : status = efiSuccess
  · subst hok
    rw [if_neg fun h => h rfl]
    exact .ret ⟨fun _ => rfl, fun h => absurd rfl h⟩
  · rw [if_pos hok]
    unfold efiFreeBuffer
    rw [if_neg hmap]
    refine .record (fun n map' ho => by cases ho) fun x _ => .ret (truthful_failed hok _ _)

theorem passesBuffer {p : Uefi (Status × Option Ptr × MemoryMapData)} {tr : Trace}
    (h : Reach History (efiLoadMemoryMap mapPtr mapData, []) (p, tr)) {o : Op} {k : o.Ans → _}
    (hp : p = .call o k) : PassesBuffer mapPtr tr o := by
  subst hp
  cases mapPtr with
  | none => exact (Safe.call_iff.mp (safe_query_only.of_reach h)).1
  | some ptr => exact (Safe.call_iff.mp ((safe_load_truthful ptr).of_reach h)).1

/-- The firmware asks for any size, and there is a buffer. -/
theorem reach_buffer (ptr : Ptr) (mapData : MemoryMapData) (query : MapStores) :
    ∃ k, Reach History (efiLoadMemoryMap (some ptr) mapData, [])
      (.call (.getMemoryMap (query.mapSize.getD 0) 0x1000) k,
        [⟨.getMemoryMap 0 0, (efiBufferTooSmall, query)⟩,
          ⟨.allocatePool efiLoaderData
            (bufferSize (query.mapSize.getD 0) (query.descSize.getD 0)),
            (efiSuccess, 0x1000)⟩]) :=
  ⟨_, reach_record (x := (efiBufferTooSmall, query)) trivial
    (reach_record (x := (efiSuccess, 0x1000)) trivial .refl)⟩

/-- What runs with these answers to the size query say about the buffer. -/
theorem le_bufferSize_of_announces {ptr : Ptr} {query : MapStores}
    (h : ∀ p tr, Reach History (efiLoadMemoryMap (some ptr) mapData, []) (p, tr) →
      (∀ x, ⟨.getMemoryMap 0 0, x⟩ ∈ tr → x.2 = query) → AnnouncesFitting p tr) :
    (query.mapSize.getD 0).toNat ≤
      (bufferSize (query.mapSize.getD 0) (query.descSize.getD 0)).toNat := by
  obtain ⟨k, hr⟩ := reach_buffer ptr mapData query
  have hquery := h _ _ hr fun x hx => by
    rcases List.mem_pair.mp hx with hx | hx
    · cases hx
      rfl
    · cases hx
  obtain ⟨type, size, hmem, hle⟩ := hquery _ _ _ rfl (by decide)
  rcases List.mem_pair.mp hmem with hx | hx
  · cases hx
  · cases hx
    exact hle

/-- The size query fails as it should, and there is no `map_ptr`. -/
theorem reach_query_only : ∃ r tr, Reach History (efiLoadMemoryMap none mapData, []) (.ret r, tr) ∧
    (∀ x, ⟨.getMemoryMap 0 0, x⟩ ∈ tr → x.1 = efiBufferTooSmall) ∧
    r.1 = efiBufferTooSmall ∧ r.2.2 = ⟨0, 0, 48, 0, 0⟩ := by
  have hrun : follow [⟨.getMemoryMap 0 0, (efiBufferTooSmall, ⟨some 48, none, none, none⟩)⟩]
      (efiLoadMemoryMap none mapData) =
    some (.ret (efiBufferTooSmall, none, ⟨0, 0, 48, 0, 0⟩)) := rfl
  refine ⟨_, _, reach_follow hrun [], fun x hx => ?_, rfl, rfl⟩
  cases List.mem_singleton.mp hx
  rfl

end Load

/-- The narrowing and the wrap of the sum leave the size of the query exactly where the sum of
the size and the narrowed room fits in a `size_t`. -/
theorem le_bufferSize_iff (mapSize descSize : U64) :
    mapSize.toNat ≤ (bufferSize mapSize descSize).toNat ↔
      mapSize.toNat + 32 * descSize.toNat % 2 ^ 32 < 2 ^ 32 := by
  have hsize : (bufferSize mapSize descSize).toNat =
      (mapSize.toNat + 32 * descSize.toNat) % 2 ^ 32 := by
    simp only [bufferSize, BitVec.toNat_setWidth, BitVec.toNat_add, BitVec.toNat_mul,
      show (32 : U64).toNat = 32 from rfl]
    omega
  rw [hsize]
  omega

/-- **The announced length.** The firmware is told no more than was requested in every run with
these answers to the size query, exactly where no buffer is passed or the size and the room for
32 descriptors modulo 2^32 add up to less than 2^32. -/
theorem efiLoadMemoryMap_announces_iff (mapPtr : Option Ptr) (query : MapStores) :
    (∀ mapData p tr, Reach History (efiLoadMemoryMap mapPtr mapData, []) (p, tr) →
      (∀ x, ⟨.getMemoryMap 0 0, x⟩ ∈ tr → x.2 = query) → AnnouncesFitting p tr) ↔
    mapPtr = none ∨
      (query.mapSize.getD 0).toNat + 32 * (query.descSize.getD 0).toNat % 2 ^ 32 < 2 ^ 32 := by
  rw [← le_bufferSize_iff]
  constructor
  · intro h
    cases mapPtr with
    | none => exact .inl rfl
    | some ptr => exact .inr (le_bufferSize_of_announces (h MemoryMapData.zero))
  · rintro h mapData p tr hr hq n map k hp hmap
    obtain ⟨hptr, query', rfl, rfl⟩ := passesBuffer hr hp n map rfl hmap
    obtain rfl : query' = query := hq _ List.mem_cons_self
    exact ⟨_, _, List.mem_cons_of_mem _ List.mem_cons_self, h.resolve_left hptr⟩

/-- A map of 4 GiB: the buffer has 1536 bytes. -/
theorem not_efiLoadMemoryMap_announces : ¬∀ (mapPtr : Option Ptr) (mapData : MemoryMapData)
    (p : Uefi (Status × Option Ptr × MemoryMapData)) (tr : Trace),
    Reach History (efiLoadMemoryMap mapPtr mapData, []) (p, tr) → AnnouncesFitting p tr := by
  intro h
  have hle := @le_bufferSize_of_announces MemoryMapData.zero 0
    ⟨some 0x100000000, none, some 48, some 1⟩ fun p tr hr _ => h _ _ p tr hr
  exact absurd hle (by decide)

/-- **The status.** Every run with this status of the size query reports its effect truthfully
exactly where there is a `map_ptr` or the status is not the expected one. -/
theorem efiLoadMemoryMap_truthful_iff (mapPtr : Option Ptr) (status : Status) :
    (∀ mapData r tr, Reach History (efiLoadMemoryMap mapPtr mapData, []) (.ret r, tr) →
      (∀ x, ⟨.getMemoryMap 0 0, x⟩ ∈ tr → x.1 = status) → Truthful mapData r tr) ↔
    mapPtr ≠ none ∨ status ≠ efiBufferTooSmall := by
  constructor
  · intro h
    cases mapPtr with
    | some ptr => exact .inl fun h => (by cases h)
    | none =>
      right
      rintro rfl
      obtain ⟨r, tr, hr, hq, hstatus, hdata⟩ := @reach_query_only MemoryMapData.zero
      have hkept := (h _ r tr hr hq).2 (by rw [hstatus]; decide)
      exact absurd (hdata.symm.trans hkept) (by decide)
  · intro h mapData r tr hr hq
    cases mapPtr with
    | some ptr => exact Safe.ret_iff.mp ((safe_load_truthful ptr).of_reach hr)
    | none =>
      obtain ⟨status', query, rfl, htrue⟩ := Safe.ret_iff.mp (safe_query_only.of_reach hr)
      obtain rfl : status' = status := hq _ List.mem_cons_self
      exact htrue (h.resolve_left fun h => h rfl)

/-- A size query that fails as it should. -/
theorem not_efiLoadMemoryMap_truthful : ¬∀ (mapPtr : Option Ptr) (mapData : MemoryMapData)
    (r : Status × Option Ptr × MemoryMapData) (tr : Trace),
    Reach History (efiLoadMemoryMap mapPtr mapData, []) (.ret r, tr) → Truthful mapData r tr := by
  intro h
  obtain ⟨r, tr, hr, -, hstatus, hdata⟩ := @reach_query_only MemoryMapData.zero
  have hkept := (h _ _ r tr hr).2 (by rw [hstatus]; decide)
  exact absurd (hdata.symm.trans hkept) (by decide)

end UefiStub
