import UefiStub.Memory.Basic
import UefiStub.Memory.Pool

/-!
# Who owns the memory map

A run of `efi_load_memory_map` makes at most four calls: the size query, the
allocation, the call that fills the buffer and the release of the buffer where
that call fails. On success the buffer is left to the caller, with the data the
filling call stored; on any other status nothing is held.
-/

namespace UefiStub

open Interact

/-- What `get_memory_map` leaves in the record it stores to. -/
def MapStores.into (st : MapStores) (tmp : MemoryMapData) : MemoryMapData :=
  { tmp with
    mapSize := st.mapSize.getD tmp.mapSize
    mapKey := st.mapKey.getD tmp.mapKey
    descSize := st.descSize.getD tmp.descSize
    descVersion := st.descVersion.getD tmp.descVersion }

/-- The run allocated one buffer, which it still holds, and `fill` is what the call stored that
filled it, over what the size query stored. -/
def Loaded (tr : Trace) (map : Ptr) (mapData : MemoryMapData) : Prop :=
  Held tr [map] ∧ ∃ query size mapSize fill, tr =
    [⟨.getMemoryMap 0 0, (efiBufferTooSmall, query)⟩,
      ⟨.allocatePool efiLoaderData size, (efiSuccess, map)⟩,
      ⟨.getMemoryMap mapSize map, (efiSuccess, fill)⟩] ∧
    mapData = fill.into (query.into MemoryMapData.zero)

/-- What is owed to a caller with a `map_ptr`. -/
def LoadSettled (r : Status × Option Ptr × MemoryMapData) (tr : Trace) : Prop :=
  (r.1 = efiSuccess → ∃ map, map ≠ 0 ∧ r.2.1 = some map ∧ Loaded tr map r.2.2) ∧
    (r.1 ≠ efiSuccess → r.2.1 = some 0 ∧ Held tr [])

section Load

variable {G : Trace → Op → Prop} {α : Type} {Q : α → Trace → Prop} {tr : Trace}

theorem safe_loadMap {tmp : MemoryMapData} {map : Ptr} {k : Status × MemoryMapData → Uefi α}
    (hg : G tr (.getMemoryMap tmp.mapSize map))
    (hk : ∀ status st, Safe History G Q (k (status, st.into tmp))
      (tr ++ [⟨.getMemoryMap tmp.mapSize map, (status, st)⟩])) :
    Safe History G Q (loadMap tmp map >>= k) tr :=
  .record hg fun x _ => hk x.1 x.2

/-- `NULL` exactly where no buffer was given. -/
theorem safe_efiAllocateBuffer {size : U32} {k : Ptr → Uefi α}
    (hg : G tr (.allocatePool efiLoaderData (size.setWidth 64)))
    (hnone : ∀ x, given x = none →
      Safe History G Q (k 0) (tr ++ [⟨.allocatePool efiLoaderData (size.setWidth 64), x⟩]))
    (hsome : ∀ ptr, ptr ≠ 0 → Safe History G Q (k ptr)
      (tr ++ [⟨.allocatePool efiLoaderData (size.setWidth 64), (efiSuccess, ptr)⟩])) :
    Safe History G Q (efiAllocateBuffer size efiLoaderData >>= k) tr := by
  have htype : ¬(efiLoaderData ≥ efiMaxMemoryType ∨ efiLoaderData = efiPersistentMemory) := by
    decide
  unfold efiAllocateBuffer
  simp only [if_neg htype, Prog.op_bind, Prog.call_bind]
  refine .record hg fun ⟨status, ptr⟩ _ => ?_
  by_cases hs : status = efiSuccess
  · subst hs
    rw [if_neg fun h => h rfl]
    by_cases hp : ptr = 0
    · subst hp
      exact hnone _ rfl
    · exact hsome ptr hp
  · rw [if_pos hs]
    exact hnone _ (if_neg hs)

theorem safe_efiLoadMemoryMap (ptr : Ptr) (data : MemoryMapData) :
    Safe History (fun tr _ => ∃ bufs, Held tr bufs) LoadSettled (efiLoadMemoryMap (some ptr) data)
      [] := by
  have hfail {status : Status} {tr : Trace} (hs : status ≠ efiSuccess) (h : Held tr []) :
      LoadSettled (status, some 0, data) tr := ⟨fun h => absurd h hs, fun _ => ⟨rfl, h⟩⟩
  unfold efiLoadMemoryMap
  refine safe_loadMap ⟨[], .nil⟩ fun status query => ?_
  have hquery := Held.nil.other (e := ⟨.getMemoryMap 0 0, (status, query)⟩) rfl
  dsimp only
  by_cases hbts : status = efiBufferTooSmall
  swap
  · rw [if_pos hbts]
    exact .ret (hfail (by decide) hquery)
  subst hbts
  rw [if_neg fun h => h rfl]
  generalize BitVec.setWidth 32 _ = size
  refine safe_efiAllocateBuffer ⟨[], hquery⟩ (fun x hx => ?_) fun map hmap => ?_
  · exact .ret (hfail (by decide) (hquery.other hx))
  -- the buffer is held from here on
  have hheld := hquery.acquire (b := map)
    (e := ⟨.allocatePool efiLoaderData (size.setWidth 64), (efiSuccess, map)⟩) rfl hmap
  rw [if_neg hmap]
  refine safe_loadMap ⟨_, hheld⟩ fun status fill => ?_
  have hfill := hheld.use (b := map)
    (e := ⟨.getMemoryMap (query.into MemoryMapData.zero).mapSize map, (status, fill)⟩) rfl
    fun _ => List.mem_singleton.mpr rfl
  dsimp only
  by_cases hok : status = efiSuccess
  · subst hok
    rw [if_neg fun h => h rfl]
    exact .ret ⟨fun _ => ⟨map, hmap, rfl, hfill, _, _, _, _, rfl, rfl⟩, fun h => absurd rfl h⟩
  · rw [if_pos hok]
    unfold efiFreeBuffer
    rw [if_neg hmap]
    exact .record ⟨_, hfill⟩ fun x _ => .ret (hfail hok (hfill.release x))

end Load

/-- **Ownership of the map.** At every step of every run only buffers that are held have been
touched; a successful run leaves one buffer and the data stored with it, any other none. -/
theorem efiLoadMemoryMap_owns {ptr : Ptr} {data : MemoryMapData}
    {p : Uefi (Status × Option Ptr × MemoryMapData)} {tr : Trace}
    (h : Reach History (efiLoadMemoryMap (some ptr) data, []) (p, tr)) :
    (∃ bufs, Held tr bufs) ∧ ∀ r, p = .ret r → LoadSettled r tr := by
  have hs := (safe_efiLoadMemoryMap ptr data).of_reach h
  cases p with
  | call o k => exact ⟨(Safe.call_iff.mp hs).1, fun _ h => by cases h⟩
  | ret r =>
    have hr : LoadSettled r tr := Safe.ret_iff.mp hs
    refine ⟨?_, fun _ h => by cases h; exact hr⟩
    by_cases hok : r.1 = efiSuccess
    · obtain ⟨map, -, -, hheld, -⟩ := hr.1 hok
      exact ⟨_, hheld⟩
    · exact ⟨_, (hr.2 hok).2⟩

/-- A run that loads a map of one descriptor, which the allocation leaves alone. -/
def smallLoad : Trace :=
  [⟨.getMemoryMap 0 0, (efiBufferTooSmall, ⟨some 48, none, some 48, some 1⟩)⟩,
    ⟨.allocatePool efiLoaderData 1584, (efiSuccess, 0x1000)⟩,
    ⟨.getMemoryMap 48 0x1000, (efiSuccess, ⟨some 48, some 7, none, none⟩)⟩]

theorem efiLoadMemoryMap_owns_small : (∃ bufs, Held smallLoad bufs) ∧
    ∀ r, (.ret (efiSuccess, some 0x1000, ⟨0, 7, 48, 1, 48⟩) :
        Uefi (Status × Option Ptr × MemoryMapData)) = .ret r → LoadSettled r smallLoad := by
  have hrun : follow smallLoad (efiLoadMemoryMap (some 0) MemoryMapData.zero) =
      some (.ret (efiSuccess, some 0x1000, ⟨0, 7, 48, 1, 48⟩)) := rfl
  exact efiLoadMemoryMap_owns (reach_follow hrun [])

end UefiStub
