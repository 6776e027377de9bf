import UefiStub.Lib.RegFile

/-!
# Words in a byte memory

A memory of bytes at 64-bit addresses, which wrap, and the 32-bit word at an
address, little-endian. A word that is stored is there (`load32_store32`), and
is still there after stores that are `Far` from it (`load32_store32_far`).

`fill` stores one value at every address of a list. If the addresses are far
from each other, each of them has the value then and no other byte has changed.
-/

namespace Interact

abbrev Bytes := BitVec 64 → BitVec 8

/-- Byte `i` of the word at `addr` is at `addr + i`. -/
def store32 (mem : Bytes) (addr : BitVec 64) (v : BitVec 32) : Bytes := fun a =>
  if (a - addr).toNat < 4 then v.extractLsb' (8 * (a - addr).toNat) 8 else mem a

def load32 (mem : Bytes) (addr : BitVec 64) : BitVec 32 :=
  RegFile.word (fun i => mem (addr + BitVec.ofNat 64 i)) 0

/-- The words at the addresses have no byte in common. -/
def Far (a b : BitVec 64) : Prop := 4 ≤ (a - b).toNat ∧ 4 ≤ (b - a).toNat

section Words

variable {mem : Bytes} {a b addr : BitVec 64} {v : BitVec 32}

theorem extract_load32 {i : Nat} (h : i < 4) :
    (load32 mem addr).extractLsb' (8 * i) 8 = mem (addr + BitVec.ofNat 64 i) := by
  unfold load32
  rw [RegFile.extract_word h, Nat.zero_add]

theorem load32_congr {mem' : Bytes}
    (h : ∀ i < 4, mem (addr + BitVec.ofNat 64 i) = mem' (addr + BitVec.ofNat 64 i)) :
    load32 mem addr = load32 mem' addr :=
  RegFile.word_ext fun i hi => by rw [extract_load32 hi, extract_load32 hi, h i hi]

theorem store32_out (h : 4 ≤ (a - addr).toNat) : store32 mem addr v a = mem a :=
  if_neg (Nat.not_lt_of_le h)

theorem load32_store32 (mem : Bytes) (addr : BitVec 64) (v : BitVec 32) :
    load32 (store32 mem addr v) addr = v := by
  refine RegFile.word_ext fun i hi => ?_
  have hoff : (addr + BitVec.ofNat 64 i - addr).toNat = i := by
    rw [BitVec.add_comm, BitVec.add_sub_cancel, BitVec.toNat_ofNat]
    omega
  rw [extract_load32 hi, store32, hoff, if_pos hi]

/-- A byte of a word is outside of a word far from it. -/
theorem Far.byte_out (h : Far a b) {i : Nat} (hi : i < 4) :
    4 ≤ (a + BitVec.ofNat 64 i - b).toNat := by
  obtain ⟨hab, hba⟩ := h
  rw [BitVec.toNat_sub] at hab hba ⊢
  rw [BitVec.toNat_add, BitVec.toNat_ofNat]
  omega

theorem load32_store32_far (h : Far a b) : load32 (store32 mem b v) a = load32 mem a :=
  load32_congr fun _ hi => store32_out (h.byte_out hi)

/-- Distances below the address space count at whatever address they start. -/
theorem far_add {m n : Nat} (hm : m + 4 ≤ 2 ^ 64) (hn : n + 4 ≤ 2 ^ 64)
    (h : m + 4 ≤ n ∨ n + 4 ≤ m) (base : BitVec 64) :
    Far (base + BitVec.ofNat 64 m) (base + BitVec.ofNat 64 n) := by
  unfold Far
  simp only [BitVec.toNat_sub, BitVec.toNat_add, BitVec.toNat_ofNat]
  omega

end Words

section Fill

/-- Store `v` at the addresses. -/
def fill (mem : Bytes) (addrs : List (BitVec 64)) (v : BitVec 32) : Bytes :=
  addrs.foldl (fun mem addr => store32 mem addr v) mem

variable {mem : Bytes} {addrs : List (BitVec 64)} {a : BitVec 64} {v : BitVec 32}

theorem fill_cons (mem : Bytes) (addr : BitVec 64) (addrs : List (BitVec 64)) (v : BitVec 32) :
    fill mem (addr :: addrs) v = fill (store32 mem addr v) addrs v := rfl

theorem fill_append (mem : Bytes) (addrs addrs' : List (BitVec 64)) (v : BitVec 32) :
    fill mem (addrs ++ addrs') v = fill (fill mem addrs v) addrs' v := List.foldl_append

theorem fill_out (h : ∀ addr ∈ addrs, 4 ≤ (a - addr).toNat) : fill mem addrs v a = mem a := by
  induction addrs generalizing mem with
  | nil => rfl
  | cons addr addrs ih =>
    rw [fill_cons, ih fun b hb => h b (List.mem_cons_of_mem _ hb),
      store32_out (h addr List.mem_cons_self)]

/-- A value that is there already stays. -/
theorem load32_fill_of (hfar : ∀ addr ∈ addrs, a = addr ∨ Far a addr) (h : load32 mem a = v) :
    load32 (fill mem addrs v) a = v := by
  induction addrs generalizing mem with
  | nil => exact h
  | cons addr addrs ih =>
    rw [fill_cons]
    refine ih (fun b hb => hfar b (List.mem_cons_of_mem _ hb)) ?_
    rcases hfar addr List.mem_cons_self with rfl | hf
    · exact load32_store32 ..
    · rw [load32_store32_far hf, h]

theorem load32_fill (hfar : ∀ addr ∈ addrs, a = addr ∨ Far a addr) (ha : a ∈ addrs) :
    load32 (fill mem addrs v) a = v := by
  obtain ⟨before, after, rfl⟩ := List.append_of_mem ha
  rw [fill_append, fill_cons]
  have hafter : ∀ addr ∈ after, a = addr ∨ Far a addr := fun b hb =>
    hfar b (List.mem_append_right _ (List.mem_cons_of_mem _ hb))
  exact load32_fill_of hafter (load32_store32 ..)

end Fill

end Interact
