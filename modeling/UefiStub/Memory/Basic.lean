import UefiStub.Efi

/-!
# `uefistub/memory.c`

Pool buffers and the memory map. `*map_ptr` is an `Option Ptr`: `none` is a
`NULL` `map_ptr`, otherwise the contents.
-/

namespace UefiStub

open Interact

/-- `struct efi_memory_map_data`. -/
structure MemoryMapData where
  physMap : U64
  mapKey : U64
  mapSize : U64
  descVersion : U32
  descSize : U64
  deriving DecidableEq, Repr

def MemoryMapData.zero : MemoryMapData := ⟨0, 0, 0, 0, 0⟩

/-- `size_t` is 32 bits wide, the firmware's parameter 64. -/
def efiAllocateBuffer (size : U32) (type : MemoryType) : Uefi Ptr := do
  if type ≥ efiMaxMemoryType ∨ type = efiPersistentMemory then return 0
  let (status, ptr) ← allocatePool type (size.setWidth 64)
  if status ≠ efiSuccess then return 0
  return ptr

def efiFreeBuffer (ptr : Ptr) : Uefi Unit := do
  if ptr = 0 then return ()
  let _ ← freePool ptr
  return ()

/-- `get_memory_map` with pointers to the members of `tmp`. -/
def loadMap (tmp : MemoryMapData) (map : Ptr) : Uefi (Status × MemoryMapData) := do
  let (status, st) ← getMemoryMap tmp.mapSize map
  return (status, { tmp with
    mapSize := st.mapSize.getD tmp.mapSize
    mapKey := st.mapKey.getD tmp.mapKey
    descSize := st.descSize.getD tmp.descSize
    descVersion := st.descVersion.getD tmp.descVersion })

/-- Returns the status, `*map_ptr` and `*map_data`. -/
def efiLoadMemoryMap (mapPtr : Option Ptr) (mapData : MemoryMapData) :
    Uefi (Status × Option Ptr × MemoryMapData) := do
  let mapPtr := mapPtr.map fun _ => 0
  -- first get the map size
  let (status, tmp) ← loadMap MemoryMapData.zero 0
  if status ≠ efiBufferTooSmall then return (efiLoadError, mapPtr, mapData)
  if mapPtr.isSome then
    -- with room for some additional descriptors
    let size := tmp.mapSize + tmp.descSize * 32
    let ptr ← efiAllocateBuffer (size.setWidth 32) efiLoaderData
    if ptr = 0 then return (efiOutOfResources, mapPtr, mapData)
    let (status, tmp) ← loadMap tmp ptr
    if status ≠ efiSuccess then
      efiFreeBuffer ptr
      return (status, mapPtr, mapData)
    return (status, some ptr, tmp)
  return (status, mapPtr, tmp)

end UefiStub
