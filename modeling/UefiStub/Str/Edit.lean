import UefiStub.Str.Basic
import Mathlib.Data.List.Induction

/-!
# Strings in memory

What `memset`, `strnlen` and `strnrev` do to a region that holds known bytes.
`Holds m p l` says that the bytes `l` are at `p`.
-/

namespace UefiStub

open Interact Interact.Buf

variable {m : Mem} {p : Nat}

def Holds (m : Mem) (p : Nat) (l : List U8) : Prop := ∀ i < l.length, m.load (p + i) = l[i]?

theorem holds_writeAt {l : List U8} (h : p + l.length ≤ m.length) : Holds (writeAt m p l) p l :=
  fun _ hi => load_writeAt_in h hi

theorem Holds.tail {a : U8} {l : List U8} (h : Holds m p (a :: l)) : Holds m (p + 1) l :=
  fun i hi => by
    have := h (i + 1) (Nat.succ_lt_succ hi)
    rwa [List.getElem?_cons_succ, Nat.add_comm i 1, ← Nat.add_assoc] at this

theorem Holds.head {a : U8} {l : List U8} (h : Holds m p (a :: l)) : m.load p = some a :=
  h 0 (Nat.succ_pos _)

theorem Holds.of_prefix {l l' : List U8} (h : Holds m p l') (hl : l <+: l') : Holds m p l := by
  obtain ⟨r, rfl⟩ := hl
  intro i hi
  rw [h i (by rw [List.length_append]; omega), List.getElem?_append_left hi]

theorem memsetLoop_eq (v : U8) : ∀ {n : Nat} (out : List U8), p + out.length + n ≤ m.length →
    memsetLoop v (p + out.length) n (writeAt m p out) =
      some (writeAt m p (out ++ List.replicate n v))
  | 0, out, _ => by simp [memsetLoop]
  | n + 1, out, h => by
    have ih := memsetLoop_eq v (n := n) (out ++ [v])
      (by rw [List.length_append, List.length_singleton]; omega)
    rw [List.length_append, List.length_singleton] at ih
    simp only [memsetLoop, writeAt_snoc (show p + out.length < m.length by omega),
      Option.bind_eq_bind, Option.bind_some, Nat.add_assoc, ih, List.append_assoc,
      List.replicate_succ, List.singleton_append]

theorem memset_eq (c : U8) {n : U32} (h : p + n.toNat ≤ m.length) :
    memset m p c n = some (writeAt m p (List.replicate n.toNat c)) := by
  have := memsetLoop_eq c (m := m) (p := p) (n := n.toNat) [] h
  rwa [List.length_nil, writeAt_nil, List.nil_append] at this

/-- At most `n` characters are read, and none past the terminator. -/
theorem strnlenLoop_eq : ∀ {l : List U8} {p n : Nat} (len : U32), 0 ∉ l →
    Holds m p ((l ++ [0]).take n) →
    strnlenLoop m p n len = some (len + BitVec.ofNat 32 (min l.length n))
  | l, p, 0, len, _, _ => by simp [strnlenLoop]
  | [], p, n + 1, len, _, h => by simp [strnlenLoop, h.head]
  | a :: l, p, n + 1, len, h0, h => by
    rw [List.mem_cons, not_or] at h0
    rw [List.cons_append, List.take_succ_cons] at h
    have ih := strnlenLoop_eq (n := n) (len + 1) h0.2 h.tail
    simp only [strnlenLoop, h.head, Option.bind_eq_bind,
      Option.bind_some, if_neg (Ne.symm h0.1), ih, List.length_cons, Nat.add_min_add_right]
    rw [BitVec.add_assoc, show (1 : U32) = BitVec.ofNat 32 1 from rfl, ← BitVec.ofNat_add,
      Nat.add_comm 1]

theorem strnlen_eq {l : List U8} {n : U32} (h0 : 0 ∉ l)
    (h : Holds m p ((l ++ [0]).take n.toNat)) :
    strnlen m p n = some (BitVec.ofNat 32 (min l.length n.toNat)) := by
  rw [strnlen, strnlenLoop_eq 0 h0 h, show (0 : U32) = 0#32 from rfl, BitVec.zero_add]

theorem strlen_eq {l : List U8} (h0 : 0 ∉ l) (hl : l.length ≤ 2147483647)
    (h : Holds m p (l ++ [0])) : strlen m p = some (BitVec.ofNat 32 l.length) := by
  have hn : (2147483647 : U32).toNat = 2147483647 := rfl
  rw [strlen, strnlen_eq h0 (h.of_prefix (List.take_prefix _ _)), hn, Nat.min_eq_left hl]

/-! ## Reversal -/

/-- A store inside a written region. -/
theorem store_writeAt_in {l : List U8} (h : p + l.length ≤ m.length) {i : Nat}
    (hi : i < l.length) (v : U8) :
    store (writeAt m p l) (p + i) v = some (writeAt m p (l.set i v)) := by
  rw [store, if_pos (by rw [length_writeAt h]; omega)]
  congr 1
  refine List.ext_getElem? fun j => ?_
  rw [List.getElem?_set, getElem?_writeAt h,
    getElem?_writeAt (by rw [List.length_set]; exact h), List.length_set,
    length_writeAt h, List.getElem?_set]
  by_cases hj : p + i = j
  · subst hj
    rw [if_pos rfl, if_pos (by omega), if_pos ⟨by omega, by omega⟩, if_pos (by omega),
      if_pos hi]
    rfl
  · rw [if_neg hj]
    split
    · rw [if_neg (by omega)]
    · rfl

/-- One turn: the outer bytes of the middle are swapped. -/
theorem strnrevLoop_turn {a mid b : List U8} {x y : U8}
    (hm : p + (a ++ (x :: (mid ++ [y])) ++ b).length ≤ m.length) :
    strnrevLoop p a.length (a.length + (mid.length + 2))
        (writeAt m p (a ++ (x :: (mid ++ [y])) ++ b)) =
      strnrevLoop p (a.length + 1) (a.length + 1 + mid.length)
        (writeAt m p ((a ++ [y]) ++ mid ++ (x :: b))) := by
  have hlen : (a ++ (x :: (mid ++ [y])) ++ b).length = a.length + mid.length + 2 + b.length := by
    simp; omega
  have hi : a.length < (a ++ (x :: (mid ++ [y])) ++ b).length := by omega
  have hj : a.length + mid.length + 1 < (a ++ (x :: (mid ++ [y])) ++ b).length := by omega
  have hx : (a ++ (x :: (mid ++ [y])) ++ b)[a.length]? = some x := by simp
  have hy : (a ++ (x :: (mid ++ [y])) ++ b)[a.length + mid.length + 1]? = some y := by
    rw [List.append_assoc, Nat.add_assoc, List.getElem?_append_right (by omega)]
    simp
  have hset1 : (a ++ (x :: (mid ++ [y])) ++ b).set a.length y =
      a ++ (y :: (mid ++ [y])) ++ b := by simp
  have hset2 : (a ++ (y :: (mid ++ [y])) ++ b).set (a.length + mid.length + 1) x =
      (a ++ [y]) ++ mid ++ (x :: b) := by
    rw [List.append_assoc, Nat.add_assoc, List.set_append_right _ _ (by omega)]
    simp
  have hm1 : p + (a ++ (y :: (mid ++ [y])) ++ b).length ≤ m.length := by
    simp only [List.length_append, List.length_cons, List.length_nil] at hm ⊢; exact hm
  have hj1 : a.length + mid.length + 1 < (a ++ (y :: (mid ++ [y])) ++ b).length := by
    simp; omega
  rw [show a.length + (mid.length + 2) = a.length + mid.length + 1 + 1 by omega, strnrevLoop,
    if_pos (by omega)]
  simp only [load_writeAt_in hm hi, hx, load_writeAt_in hm hj, hy, store_writeAt_in hm hi, hset1,
    store_writeAt_in hm1 hj1, hset2, Option.bind_eq_bind, Option.bind_some]
  rw [show a.length + mid.length + 1 = a.length + 1 + mid.length by omega]

/-- The loop ends where the indices meet. -/
theorem strnrevLoop_stop {i n : Nat} (h : n ≤ i) (m : Mem) : strnrevLoop p i n m = some m := by
  cases n with
  | zero => rfl
  | succ n =>
    unfold strnrevLoop
    rw [if_neg (by omega)]

/-- The two-index loop with `a.length` bytes swapped at either end: the middle is reversed. -/
theorem strnrevLoop_eq : ∀ {mid a b : List U8}, a.length = b.length →
    p + (a ++ mid ++ b).length ≤ m.length →
    strnrevLoop p a.length (a.length + mid.length) (writeAt m p (a ++ mid ++ b)) =
      some (writeAt m p (a ++ mid.reverse ++ b)) := by
  intro mid
  induction mid using List.bidirectionalRec with
  | nil =>
    intro a b hab hm
    exact strnrevLoop_stop (Nat.le_refl _) _
  | singleton x =>
    -- the middle byte is swapped with itself
    intro a b hab hm
    have hi : a.length < (a ++ [x] ++ b).length := by simp
    have hx : (a ++ [x] ++ b)[a.length]? = some x := by simp
    have hset : (a ++ [x] ++ b).set a.length x = a ++ [x] ++ b := by simp
    simp only [List.length_singleton, strnrevLoop, Nat.lt_succ_self, if_true,
      load_writeAt_in hm hi, hx, store_writeAt_in hm hi, hset, Option.bind_eq_bind,
      Option.bind_some, strnrevLoop_stop (Nat.le_succ _), List.reverse_singleton]
  | cons_append x mid y ih =>
    intro a b hab hm
    have ih' := ih (a := a ++ [y]) (b := x :: b) (by simp [hab])
      (by simp only [List.length_append, List.length_cons, List.length_nil] at hm ⊢; omega)
    rw [List.length_append, List.length_singleton] at ih'
    rw [List.length_cons, List.length_append, List.length_singleton, strnrevLoop_turn hm, ih']
    simp

theorem strnrev_eq {l : List U8} (hm : p + l.length ≤ m.length) (hl : l.length < 2 ^ 32) :
    strnrev (writeAt m p l) p (BitVec.ofNat 32 l.length) = some (writeAt m p l.reverse) := by
  have := strnrevLoop_eq (m := m) (p := p) (a := []) (b := []) rfl (by simpa using hm)
  rw [strnrev, toNat_ofNat_lt hl]
  simpa using this

/-- A string and its terminator, reversed in place. -/
theorem strrev_eq {l : List U8} (h0 : 0 ∉ l) (hl : l.length ≤ 2147483647)
    (hm : p + l.length + 1 ≤ m.length) :
    strrev (writeAt m p (l ++ [0])) p = some (writeAt m p (l.reverse ++ [0])) := by
  have h1 : p + (l ++ [0]).length ≤ m.length := by
    rw [List.length_append, List.length_singleton]; omega
  have hm' : (writeAt m (p + l.length) [0]).length = m.length :=
    length_writeAt (by rw [List.length_singleton]; omega)
  rw [strrev, strlen_eq h0 hl (holds_writeAt h1)]
  rw [← writeAt_append_swap (by rw [List.length_singleton]; omega), Option.bind_eq_bind,
    Option.bind_some, strnrev_eq (by omega) (by omega), ← List.length_reverse,
    writeAt_append_swap (by rw [List.length_reverse, List.length_singleton]; omega)]

/-- An object that holds the string and its terminator only. -/
theorem strrev_whole {l : List U8} (h0 : 0 ∉ l) (hl : l.length ≤ 2147483647) :
    strrev ((l ++ [0]).map some) 0 = some ((l.reverse ++ [0]).map some) := by
  have hblank (l' : List U8) (h : l'.length = l.length) :
      writeAt (blank (l.length + 1)) 0 (l' ++ [0]) = (l' ++ [0]).map some :=
    writeAt_whole (by rw [List.length_append, List.length_singleton, length_blank, h])
  have hrev := strrev_eq (m := blank (l.length + 1)) (p := 0) h0 hl
    (by rw [length_blank]; omega)
  rwa [hblank l rfl, hblank l.reverse List.length_reverse] at hrev

end UefiStub
