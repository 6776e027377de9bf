import UefiStub.Str.Copy

/-!
# Reversing in place

`strnrev` on bytes that are there, as `strnrev_eq` has it on bytes that were
written: a buffer that holds `l` is the result of writing `l` (`Holds.writeAt_eq`).
So the reversed bytes are reversed back by the same lemma.
-/

namespace UefiStub

open Interact Interact.Buf

variable {m : Mem} {str : Nat} {l : List U8} {n : U32}

/-- Bytes that are there are in the object. -/
theorem Holds.room (h : Holds m str l) (hl : l ≠ []) : str + l.length ≤ m.length := by
  have hpos := List.length_pos_iff.mpr hl
  have hlast := h (l.length - 1) (by omega)
  rw [List.getElem?_eq_getElem (by omega), load, Option.join_eq_some_iff] at hlast
  obtain ⟨hlt, -⟩ := List.getElem?_eq_some_iff.mp hlast
  omega

theorem Holds.writeAt_eq (h : Holds m str l) : writeAt m str l = m := by
  by_cases hl : l = []
  · rw [hl, writeAt_nil]
  · refine List.ext_getElem? fun i => ?_
    rw [getElem?_writeAt (h.room hl)]
    split
    · next hi =>
      have hload := h (i - str) (by omega)
      rw [List.getElem?_eq_getElem (by omega), load, Option.join_eq_some_iff,
        Nat.add_sub_cancel' hi.1] at hload
      rw [List.getElem?_eq_getElem (by omega), hload]
      rfl
    · rfl

/-- Written over by as many bytes. -/
theorem writeAt_writeAt {r : List U8} (hlen : l.length = r.length)
    (h : str + r.length ≤ m.length) : writeAt (writeAt m str l) str r = writeAt m str r := by
  have := writeAt_over (m := m) (p := str) (q := 0) (l := l) (r := r) (Nat.zero_le _) (by omega)
    (by omega)
  rwa [Nat.add_zero, List.take_zero, List.nil_append] at this

theorem Holds.reversed (h : Holds m str l) (hn : n.toNat = l.length) :
    strnrev m str n = some (writeAt m str l.reverse) := by
  by_cases hl : l = []
  · subst hl
    rw [List.reverse_nil, writeAt_nil, strnrev, hn]
    rfl
  · have hlt : l.length < 2 ^ 32 := hn ▸ n.isLt
    have hn' : n = BitVec.ofNat 32 l.length := by rw [← hn, BitVec.ofNat_toNat, BitVec.setWidth_eq]
    have hrev := strnrev_eq (h.room hl) hlt
    rwa [h.writeAt_eq, ← hn'] at hrev

/-- Only these bytes change, and a second call changes them back. -/
theorem strnrev_inverse (h : Holds m str l) (hn : n.toNat = l.length) :
    ∃ m', strnrev m str n = some m' ∧ Overwrites m m' str l.reverse ∧
      strnrev m' str n = some m := by
  refine ⟨_, h.reversed hn, ?_⟩
  by_cases hl : l = []
  · subst hl
    rw [List.reverse_nil, writeAt_nil]
    exact ⟨⟨rfl, h, fun _ _ => rfl⟩, by rw [h.reversed hn, List.reverse_nil, writeAt_nil]⟩
  · have hroom := h.room hl
    have hrev : Overwrites m (writeAt m str l.reverse) str l.reverse :=
      overwrites_writeAt (by rw [List.length_reverse]; exact hroom)
    refine ⟨hrev, ?_⟩
    rw [hrev.holds.reversed (by rw [List.length_reverse]; exact hn), List.reverse_reverse,
      writeAt_writeAt List.length_reverse hroom, h.writeAt_eq]

theorem strrev_holds (h0 : 0 ∉ l) (hl : l.length ≤ 2147483647) (h : Holds m str (l ++ [0])) :
    ∃ m', strrev m str = some m' ∧ Overwrites m m' str (l.reverse ++ [0]) ∧
      strlen m str = some (BitVec.ofNat 32 l.length) ∧
      strlen m' str = some (BitVec.ofNat 32 l.length) := by
  have hroom := h.room (List.append_ne_nil_of_right_ne_nil _ (List.cons_ne_nil _ _))
  rw [List.length_append, List.length_singleton, ← Nat.add_assoc] at hroom
  have hrev := strrev_eq h0 hl hroom
  rw [h.writeAt_eq] at hrev
  have hover : Overwrites m (writeAt m str (l.reverse ++ [0])) str (l.reverse ++ [0]) :=
    overwrites_writeAt (by
      rw [List.length_append, List.length_reverse, List.length_singleton]
      omega)
  have hlen := strlen_eq (fun h => h0 (List.mem_reverse.mp h))
    (by rw [List.length_reverse]; exact hl) hover.holds
  rw [List.length_reverse] at hlen
  exact ⟨_, hrev, hover, strlen_eq h0 hl h, hlen⟩

/-- **Reversal.** `strnrev` reverses the first `n` bytes of every buffer that has as many, touches
no other byte and is its own inverse; `strrev` reverses every string up to its terminator. -/
theorem reversal_exact (m : Mem) (str : Nat) (l : List U8) :
    (∀ n : U32, n.toNat = l.length → Holds m str l →
      ∃ m', strnrev m str n = some m' ∧ Overwrites m m' str l.reverse ∧
        strnrev m' str n = some m) ∧
    (0 ∉ l → l.length ≤ 2147483647 → Holds m str (l ++ [0]) →
      ∃ m', strrev m str = some m' ∧ Overwrites m m' str (l.reverse ++ [0]) ∧
        strlen m str = some (BitVec.ofNat 32 l.length) ∧
        strlen m' str = some (BitVec.ofNat 32 l.length)) :=
  ⟨fun _ hn h => strnrev_inverse h hn, fun h0 hl h => strrev_holds h0 hl h⟩

/-- `"abc"` between other bytes. -/
def abcBytes : Mem := [none, some 0x78, some 0x61, some 0x62, some 0x63, some 0, some 0x79]

theorem reversal_exact_abc :
    (∃ m', strnrev abcBytes 2 3 = some m' ∧ Overwrites abcBytes m' 2 [0x63, 0x62, 0x61] ∧
      strnrev m' 2 3 = some abcBytes) ∧
    ∃ m', strrev abcBytes 2 = some m' ∧ Overwrites abcBytes m' 2 [0x63, 0x62, 0x61, 0] ∧
      strlen abcBytes 2 = some 3 ∧ strlen m' 2 = some 3 := by
  have hbytes : Holds abcBytes 2 [0x61, 0x62, 0x63] := by unfold Holds; decide
  have hstring : Holds abcBytes 2 ([0x61, 0x62, 0x63] ++ [0]) := by unfold Holds; decide
  exact ⟨(reversal_exact abcBytes 2 [0x61, 0x62, 0x63]).1 3 (by decide) hbytes,
    (reversal_exact abcBytes 2 [0x61, 0x62, 0x63]).2 (by decide) (by decide) hstring⟩

end UefiStub
