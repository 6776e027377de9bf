import UefiStub.Str.Edit
import Mathlib.Data.List.Infix

/-!
# Copying strings

The copy functions as writes of known bytes. `Overwrites m m' p l` says that
`m'` is `m` with the bytes `l` at `p` and is `m` everywhere else. Only the
bytes of the source up to its terminator, and no more than the limit, have to
be readable: a load of any other byte could fail.
-/

namespace UefiStub

open Interact Interact.Buf

variable {m : Mem} {dst src : Nat}

/-- From `m` to `m'` the bytes at `p` have become `l`. -/
structure Overwrites (m m' : Mem) (p : Nat) (l : List U8) : Prop where
  length : m'.length = m.length
  holds : Holds m' p l
  frame : ∀ i, i < p ∨ p + l.length ≤ i → m'[i]? = m[i]?

/-- The `k` bytes at `p` and the `j` bytes at `q` do not overlap. -/
def NoOverlap (p k q j : Nat) : Prop := p + k ≤ q ∨ q + j ≤ p

theorem overwrites_writeAt {p : Nat} {l : List U8} (h : p + l.length ≤ m.length) :
    Overwrites m (writeAt m p l) p l :=
  ⟨length_writeAt h, holds_writeAt h, fun i hi => by rw [getElem?_writeAt h, if_neg (by omega)]⟩

/-- The bytes `l` still to be copied come after those copied so far. -/
theorem mempcpyLoop_eq : ∀ {l : List U8} {src : Nat} (out : List U8), Holds m src l →
    NoOverlap src l.length dst (out.length + l.length) → dst + (out.length + l.length) ≤ m.length →
    mempcpyLoop (dst + out.length) src l.length (writeAt m dst out) =
      some (writeAt m dst (out ++ l))
  | [], src, out, _, _, _ => by rw [List.append_nil, List.length_nil, mempcpyLoop]
  | a :: l, src, out, h, hd, hm => by
    simp only [NoOverlap, List.length_cons] at hd hm
    have hload : load (writeAt m dst out) src = some a := by
      rw [load, getElem?_writeAt (by omega), if_neg (by omega)]
      exact h.head
    have ih := mempcpyLoop_eq (out ++ [a]) h.tail
      (by simp only [NoOverlap, List.length_append, List.length_singleton]; omega)
      (by simp only [List.length_append, List.length_singleton]; omega)
    rw [List.length_append, List.length_singleton] at ih
    simp only [List.length_cons, mempcpyLoop, hload,
      writeAt_snoc (show dst + out.length < m.length by omega), Option.bind_eq_bind,
      Option.bind_some, Nat.add_assoc, ih, List.append_assoc, List.singleton_append]

theorem mempcpy_eq {l : List U8} {n : U32} (hn : n.toNat = l.length) (h : Holds m src l)
    (hd : NoOverlap src l.length dst l.length) (hm : dst + l.length ≤ m.length) :
    mempcpy m dst src n = some (dst + l.length, writeAt m dst l) := by
  have hloop := @mempcpyLoop_eq m dst _ _ [] h (by rwa [List.length_nil, Nat.zero_add])
    (by rwa [List.length_nil, Nat.zero_add])
  rw [List.length_nil, Nat.add_zero, writeAt_nil, List.nil_append] at hloop
  rw [mempcpy, hn, hloop]
  rfl

theorem memcpy_eq {l : List U8} {n : U32} (hn : n.toNat = l.length) (h : Holds m src l)
    (hd : NoOverlap src l.length dst l.length) (hm : dst + l.length ≤ m.length) :
    memcpy m dst src n = some (dst, writeAt m dst l) := by
  rw [memcpy, mempcpy_eq hn h hd hm]
  rfl

section Source

variable {l : List U8} (h0 : 0 ∉ l)

include h0

theorem stpncpy_eq {n : U32} (h : Holds m src ((l ++ [0]).take n.toNat))
    (hd : NoOverlap src (min n.toNat (l.length + 1)) dst n.toNat) (hm : dst + n.toNat ≤ m.length) :
    stpncpy m dst src n = some (dst + min n.toNat l.length,
      writeAt m dst (l.take n.toNat ++ List.replicate (n.toNat - l.length) 0)) := by
  have hk : (l.take n.toNat).length = min n.toNat l.length := List.length_take
  have hlen : (BitVec.ofNat 32 (min l.length n.toNat)).toNat = min n.toNat l.length := by
    rw [toNat_ofNat_lt (by omega), Nat.min_comm]
  have hsrc : Holds m src (l.take n.toNat) := h.of_prefix ((List.prefix_append l [0]).take _)
  have hrest : (n - BitVec.ofNat 32 (min l.length n.toNat)).toNat = n.toNat - l.length := by
    rw [toNat_sub_ofNat (Nat.min_le_right ..)]
    omega
  have hfree : NoOverlap src (l.take n.toNat).length dst (l.take n.toNat).length := by
    simp only [NoOverlap, hk] at hd ⊢
    omega
  have hcopy := mempcpy_eq (hlen.trans hk.symm) hsrc hfree (by omega)
  have hpad := memset_eq (m := writeAt m dst (l.take n.toNat))
    (p := dst + (l.take n.toNat).length) (n := n - BitVec.ofNat 32 (min l.length n.toNat)) 0
    (by rw [length_writeAt (by omega), hrest]; omega)
  rw [hrest, writeAt_append (by rw [List.length_replicate]; omega)] at hpad
  rw [hk] at hcopy hpad
  simp only [stpncpy, strnlen_eq h0 h, hcopy, hpad, Option.bind_eq_bind, Option.bind_some]

theorem stpcpy_eq (hl : l.length ≤ 2147483647) (h : Holds m src (l ++ [0]))
    (hd : NoOverlap src (l.length + 1) dst (l.length + 1)) (hm : dst + l.length + 1 ≤ m.length) :
    stpcpy m dst src = some (dst + l.length, writeAt m dst (l ++ [0])) := by
  have hlen : (BitVec.ofNat 32 l.length).toNat = l.length :=
    toNat_ofNat_lt (by omega)
  have hfree : NoOverlap src l.length dst l.length := by
    simp only [NoOverlap] at hd ⊢
    omega
  have hcopy := mempcpy_eq hlen (h.of_prefix (List.prefix_append l [0])) hfree (by omega)
  simp only [stpcpy, strlen_eq h0 hl h, hcopy,
    writeAt_snoc (show dst + l.length < m.length by omega), Option.bind_eq_bind, Option.bind_some]

/-- The copy starts at the terminator of the destination's string. -/
theorem strcat_eq {d : List U8} (h0d : 0 ∉ d) (hld : d.length ≤ 2147483647)
    (hl : l.length ≤ 2147483647) (hdst : Holds m dst (d ++ [0])) (hsrc : Holds m src (l ++ [0]))
    (hd : NoOverlap src (l.length + 1) (dst + d.length) (l.length + 1))
    (hm : dst + d.length + l.length + 1 ≤ m.length) :
    strcat m dst src = some (dst, writeAt m (dst + d.length) (l ++ [0])) := by
  have hlen : (BitVec.ofNat 32 d.length).toNat = d.length :=
    toNat_ofNat_lt (by omega)
  simp only [strcat, strlen_eq h0d hld hdst, hlen, stpcpy_eq h0 hl hsrc hd hm,
    Option.bind_eq_bind, Option.bind_some]

end Source

/-- Bytes that are there need no write. -/
theorem Overwrites.of_holds {m' : Mem} {p : Nat} {l r : List U8} (hl : Holds m p l)
    (h : Overwrites m m' (p + l.length) r) : Overwrites m m' p (l ++ r) where
  length := h.length
  holds := fun i hi => by
    rw [List.length_append] at hi
    by_cases hil : i < l.length
    · rw [List.getElem?_append_left hil, ← hl i hil, load, load, h.frame _ (by omega)]
    · rw [List.getElem?_append_right (by omega), ← h.holds _ (by omega)]
      congr 1
      omega
  frame := fun i hi => h.frame i (by rw [List.length_append] at hi; omega)

/-- **The copy family.** Each function overwrites the bytes of its copy and nothing else. Of the
source only the bytes up to the terminator, or the limit, have to be readable. -/
theorem copy_family_exact {m : Mem} {dst src : Nat} {l : List U8} (h0 : 0 ∉ l) :
    (∀ n : U32, Holds m src ((l ++ [0]).take n.toNat) →
      NoOverlap src (min n.toNat (l.length + 1)) dst n.toNat → dst + n.toNat ≤ m.length →
      ∃ m', stpncpy m dst src n = some (dst + min n.toNat l.length, m') ∧
        strncpy m dst src n = some (dst, m') ∧
        Overwrites m m' dst (l.take n.toNat ++ List.replicate (n.toNat - l.length) 0)) ∧
    (l.length ≤ 2147483647 → Holds m src (l ++ [0]) →
      (NoOverlap src (l.length + 1) dst (l.length + 1) → dst + l.length + 1 ≤ m.length →
        ∃ m', stpcpy m dst src = some (dst + l.length, m') ∧
          strcpy m dst src = some (dst, m') ∧ Overwrites m m' dst (l ++ [0])) ∧
      ∀ d : List U8, 0 ∉ d → d.length ≤ 2147483647 → Holds m dst (d ++ [0]) →
        NoOverlap src (l.length + 1) (dst + d.length) (l.length + 1) →
        dst + d.length + l.length + 1 ≤ m.length →
        ∃ m', strcat m dst src = some (dst, m') ∧ Overwrites m m' dst (d ++ (l ++ [0]))) := by
  refine ⟨fun n h hd hm => ?_, fun hl h => ⟨fun hd hm => ?_, fun d h0d hld hdst hd hm => ?_⟩⟩
  · have hw := stpncpy_eq h0 h hd hm
    refine ⟨_, hw, by rw [strncpy, hw]; rfl, overwrites_writeAt ?_⟩
    rw [List.length_append, List.length_take, List.length_replicate]
    omega
  · have hw := stpcpy_eq h0 hl h hd hm
    refine ⟨_, hw, by rw [strcpy, hw]; rfl, overwrites_writeAt ?_⟩
    rw [List.length_append, List.length_singleton]
    omega
  · refine ⟨_, strcat_eq h0 h0d hld hl hdst h hd hm, ?_⟩
    refine .of_holds (hdst.of_prefix (List.prefix_append d [0])) (overwrites_writeAt ?_)
    rw [List.length_append, List.length_singleton]
    omega

/-- `"ab"` at the end of the object: padded to four bytes, copied, and appended to `"c"`. -/
theorem copy_family_exact_ab :
    (∃ m', stpncpy (Buf.blank 4 ++ [some 0x61, some 0x62, some 0]) 0 4 4 = some (0 + min 4 2, m') ∧
      strncpy (Buf.blank 4 ++ [some 0x61, some 0x62, some 0]) 0 4 4 = some (0, m') ∧
      Overwrites (Buf.blank 4 ++ [some 0x61, some 0x62, some 0]) m' 0 [0x61, 0x62, 0, 0]) ∧
    (∃ m', stpcpy (Buf.blank 4 ++ [some 0x61, some 0x62, some 0]) 0 4 = some (0 + 2, m') ∧
      strcpy (Buf.blank 4 ++ [some 0x61, some 0x62, some 0]) 0 4 = some (0, m') ∧
      Overwrites (Buf.blank 4 ++ [some 0x61, some 0x62, some 0]) m' 0 [0x61, 0x62, 0]) ∧
    ∃ m', strcat [some 0x63, some 0, none, none, some 0x61, some 0x62, some 0] 0 4 = some (0, m') ∧
      Overwrites [some 0x63, some 0, none, none, some 0x61, some 0x62, some 0] m' 0
        [0x63, 0x61, 0x62, 0] :=
  have h0 : (0 : U8) ∉ [0x61, 0x62] := by decide
  have hsrc : Holds (Buf.blank 4 ++ [some 0x61, some 0x62, some 0]) 4 ([0x61, 0x62] ++ [0]) := by
    unfold Holds; decide
  have hcat : Holds [some 0x63, some 0, none, none, some 0x61, some 0x62, some 0] 4
      ([0x61, 0x62] ++ [0]) := by unfold Holds; decide
  have hdst : Holds [some 0x63, some 0, none, none, some 0x61, some 0x62, some 0] 0
      ([0x63] ++ [0]) := by unfold Holds; decide
  ⟨(copy_family_exact h0).1 4 hsrc (.inr (by decide)) (by decide),
    ((copy_family_exact h0).2 (by decide) hsrc).1 (.inr (by decide)) (by decide),
    ((copy_family_exact h0).2 (by decide) hcat).2 [0x63] (by decide) (by decide) hdst
      (.inr (by decide)) (by decide)⟩

end UefiStub
