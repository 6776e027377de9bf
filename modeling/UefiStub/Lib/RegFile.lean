import Mathlib.Algebra.Group.Nat.Defs
import Mathlib.Data.List.Basic

/-!
# Register files with read-only bits

A register file is the contents `f` of its bytes. Every byte has a mask of the
bits a write can change; `merge` is one such write. `deposit` and `fetch`
access `n ≤ 8` consecutive bytes, little-endian, through a 64-bit buffer of
which only the low `n` bytes take part.

Writing back what was fetched undoes any write in between (`deposit_restore`);
accesses that do not overlap do not see each other. `word` is the view of four
bytes as a register, on which a write is one `merge` (`word_deposit`).
-/

namespace Interact

/-- What a byte `old` becomes by writing `new` through the mask `m` of writable bits. -/
def merge {w : Nat} (m old new : BitVec w) : BitVec w := (old &&& ~~~m) ||| (new &&& m)

section Merge

variable {w : Nat} (m a b c : BitVec w)

theorem getElem_merge (i : Nat) (h : i < w) : (merge m a b)[i] = if m[i] then b[i] else a[i] := by
  simp only [merge, BitVec.getElem_or, BitVec.getElem_and, BitVec.getElem_not]
  cases m[i] <;> simp

@[simp] theorem merge_self : merge m a a = a := by
  refine BitVec.eq_of_getElem_eq fun i h => ?_
  rw [getElem_merge]; split <;> rfl

@[simp] theorem merge_merge : merge m (merge m a b) c = merge m a c := by
  refine BitVec.eq_of_getElem_eq fun i h => ?_
  simp only [getElem_merge]; split <;> rfl

theorem merge_and (d : BitVec w) (h : m &&& d = d) : merge m a b &&& d = b &&& d := by
  refine BitVec.eq_of_getElem_eq fun i hi => ?_
  have hd := congrArg (·[i]) h
  simp only [BitVec.getElem_and] at hd
  simp only [BitVec.getElem_and, getElem_merge]
  cases hdi : d[i] with
  | false => simp
  | true =>
    rw [hdi, Bool.and_true] at hd
    rw [hd]; rfl

end Merge

/-- Byte `i` of a 64-bit buffer. -/
def byteOf (v : BitVec 64) (i : Nat) : BitVec 8 := v.extractLsb' (8 * i) 8

/-- The 64-bit buffer with these bytes. -/
def ofBytes (g : Nat → BitVec 8) : BitVec 64 :=
  g 7 ++ g 6 ++ g 5 ++ g 4 ++ g 3 ++ g 2 ++ g 1 ++ g 0

theorem byteOf_ofBytes (g : Nat → BitVec 8) {i : Nat} (h : i < 8) : byteOf (ofBytes g) i = g i := by
  refine BitVec.eq_of_getLsbD_eq fun j hj => ?_
  simp only [byteOf, ofBytes, BitVec.getLsbD_extractLsb', BitVec.getLsbD_append, hj, decide_true,
    Bool.true_and]
  obtain rfl | rfl | rfl | rfl | rfl | rfl | rfl | rfl : i = 0 ∨ i = 1 ∨ i = 2 ∨ i = 3 ∨ i = 4 ∨
    i = 5 ∨ i = 6 ∨ i = 7 := by omega
  all_goals
    repeat rw [if_neg (by omega)]
    try rw [if_pos (by omega)]
    congr 1; omega

/-- Narrowing to 32 bits and widening keeps the low four bytes. -/
theorem byteOf_narrow (v : BitVec 64) {i : Nat} (h : i < 4) :
    byteOf ((v.setWidth 32).setWidth 64) i = byteOf v i := by
  refine BitVec.eq_of_getLsbD_eq fun j hj => ?_
  simp only [byteOf, BitVec.getLsbD_extractLsb', BitVec.getLsbD_setWidth, hj, decide_true,
    Bool.true_and, show 8 * i + j < 64 by omega, show 8 * i + j < 32 by omega]

namespace RegFile

variable (m : Nat → BitVec 8)

/-- Write the low `n` bytes of `v` at `off`. -/
def deposit (f : Nat → BitVec 8) (off n : Nat) (v : BitVec 64) (a : Nat) : BitVec 8 :=
  if off ≤ a ∧ a < off + n then merge (m a) (f a) (byteOf v (a - off)) else f a

/-- Read `n` bytes at `off` into the low bytes of `buf`. -/
def fetch (f : Nat → BitVec 8) (off n : Nat) (buf : BitVec 64) : BitVec 64 :=
  ofBytes fun i => if i < n then f (off + i) else byteOf buf i

variable {m} {f g : Nat → BitVec 8} {off n : Nat}

theorem deposit_out (v : BitVec 64) {a : Nat} (h : a < off ∨ off + n ≤ a) :
    deposit m f off n v a = f a := if_neg (by omega)

theorem deposit_in (v : BitVec 64) {i : Nat} (h : i < n) :
    deposit m f off n v (off + i) = merge (m (off + i)) (f (off + i)) (byteOf v i) := by
  rw [deposit, if_pos (by omega), Nat.add_sub_cancel_left]

theorem byteOf_fetch (buf : BitVec 64) (hn : n ≤ 8) {i : Nat} (h : i < n) :
    byteOf (fetch f off n buf) i = f (off + i) := by
  rw [fetch, byteOf_ofBytes _ (by omega), if_pos h]

theorem fetch_congr (buf : BitVec 64) (h : ∀ i < n, g (off + i) = f (off + i)) :
    fetch g off n buf = fetch f off n buf := by
  refine congrArg ofBytes (funext fun i => ?_)
  split
  · rename_i hi
    exact h i hi
  · rfl

/-- Two writes at one place: the first has no effect. -/
theorem deposit_deposit (u v : BitVec 64) :
    deposit m (deposit m f off n u) off n v = deposit m f off n v := by
  funext a
  simp only [deposit]
  split
  · exact merge_merge ..
  · rfl

/-- Writing back what is there changes nothing. -/
theorem deposit_eq_self {v : BitVec 64} (h : ∀ i < n, byteOf v i = f (off + i)) :
    deposit m f off n v = f := by
  funext a
  simp only [deposit]
  split
  · rename_i ha
    rw [h (a - off) (by omega), Nat.add_sub_cancel' ha.1]
    exact merge_self ..
  · rfl

/-- **Restoring.** Writing back what was fetched undoes a write in between. -/
theorem deposit_restore {u v : BitVec 64} (h : ∀ i < n, byteOf v i = f (off + i)) :
    deposit m (deposit m f off n u) off n v = f := by
  rw [deposit_deposit, deposit_eq_self h]

theorem fetch_byte (f : Nat → BitVec 8) (off : Nat) : fetch f off 1 0 = (f off).setWidth 64 := by
  apply BitVec.eq_of_toNat_eq
  have hlow : (fetch f off 1 0).toNat = (0#56 ++ f off).toNat := by simp [fetch, ofBytes, byteOf]
  rw [hlow, BitVec.toNat_append, BitVec.toNat_setWidth_of_le (by decide)]
  simp

/-! ## 32-bit registers -/

/-- The register at `off`. -/
def word (f : Nat → BitVec 8) (off : Nat) : BitVec 32 := (fetch f off 4 0).setWidth 32

theorem extract_word {i : Nat} (h : i < 4) : (word f off).extractLsb' (8 * i) 8 = f (off + i) := by
  rw [← byteOf_fetch (f := f) 0 (by omega) h]
  refine BitVec.eq_of_getLsbD_eq fun j hj => ?_
  simp only [word, byteOf, BitVec.getLsbD_extractLsb', BitVec.getLsbD_setWidth, hj, decide_true,
    Bool.true_and, show 8 * i + j < 32 by omega]

theorem word_ext {u v : BitVec 32}
    (h : ∀ i < 4, u.extractLsb' (8 * i) 8 = v.extractLsb' (8 * i) 8) : u = v := by
  refine BitVec.eq_of_getLsbD_eq fun j hj => ?_
  have hb := congrArg (BitVec.getLsbD · (j % 8)) (h (j / 8) (by omega))
  simpa only [BitVec.getLsbD_extractLsb', Nat.mod_lt j (show 0 < 8 by decide), decide_true,
    Bool.true_and, Nat.div_add_mod] using hb

theorem word_fetch (buf : BitVec 64) : (fetch f off 4 buf).setWidth 32 = word f off := by
  refine word_ext fun i hi => ?_
  rw [extract_word hi, ← byteOf_fetch (f := f) buf (by omega) hi]
  refine BitVec.eq_of_getLsbD_eq fun j hj => ?_
  simp only [byteOf, BitVec.getLsbD_extractLsb', BitVec.getLsbD_setWidth, hj, decide_true,
    Bool.true_and, show 8 * i + j < 32 by omega]

theorem extract_merge (a b c : BitVec 32) {i : Nat} (h : i < 4) :
    (merge a b c).extractLsb' (8 * i) 8 =
      merge (a.extractLsb' (8 * i) 8) (b.extractLsb' (8 * i) 8) (c.extractLsb' (8 * i) 8) := by
  refine BitVec.eq_of_getLsbD_eq fun j hj => ?_
  simp only [merge, BitVec.getLsbD_extractLsb', BitVec.getLsbD_or, BitVec.getLsbD_and,
    BitVec.getLsbD_not, hj, decide_true, Bool.true_and, show 8 * i + j < 32 by omega]

/-- A 32-bit write merges into the register. -/
theorem word_deposit (v : BitVec 32) :
    word (deposit m f off 4 (v.setWidth 64)) off = merge (word m off) (word f off) v := by
  refine word_ext fun i hi => ?_
  rw [extract_word hi, deposit_in _ hi, extract_merge _ _ _ hi, extract_word hi, extract_word hi,
    byteOf, BitVec.extractLsb'_setWidth_of_le (by omega)]

/-- A write elsewhere leaves the register alone. -/
theorem word_deposit_out {off' : Nat} (v : BitVec 64) (h : off' + 4 ≤ off ∨ off + n ≤ off') :
    word (deposit m f off n v) off' = word f off' := by
  refine word_ext fun i hi => ?_
  rw [extract_word hi, extract_word hi, deposit_out v (by omega)]

end RegFile

end Interact
