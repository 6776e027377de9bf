import Mathlib.Order.Bounds.Defs
import Mathlib.Order.Interval.Finset.Nat

/-!
# Runs of ones

`ones w p n` is the bit vector whose ones are the `n` bits from `p` on. The
bit counts of the core library on such a vector: its lowest one is bit `p`, its
highest is bit `p + n - 1`, and it has `n` of them. `bits x` is the set of the
ones of any `x`, and `span x` is the width of the window from its lowest to its
highest one (`isLeast_ctz`, `isGreatest_clz`). A vector has at most as many ones
as its span, and as many exactly where it is a run of ones (`cpop_eq_span_iff`).
-/

namespace Interact

def ones (w p n : Nat) : BitVec w := (BitVec.allOnes n).setWidth w <<< p

/-- The ones of `x` are adjacent, if it has any. -/
def Contiguous {w : Nat} (x : BitVec w) : Prop := ∃ p n, p + n ≤ w ∧ x = ones w p n

section Ones

variable {w p n i : Nat}

theorem getLsbD_ones (h : p + n ≤ w) :
    (ones w p n).getLsbD i = (decide (p ≤ i) && decide (i < p + n)) := by
  unfold ones
  rw [BitVec.getLsbD_shiftLeft, BitVec.getLsbD_setWidth, BitVec.getLsbD_allOnes]
  by_cases hp : p ≤ i
  · by_cases hi : i < p + n
    · simp [hp, hi, show i < w by omega, show ¬i < p by omega, show i - p < w by omega,
        show i - p < n by omega]
    · simp [hi, show ¬i - p < n by omega]
  · simp [hp, show i < p by omega]

theorem toNat_ones (h : p + n ≤ w) : (ones w p n).toNat = (2 ^ n - 1) <<< p := by
  have hpos := Nat.two_pow_pos n
  have hn : 2 ^ n ≤ 2 ^ w := Nat.pow_le_pow_right (by decide) (by omega)
  have hlt : (2 ^ n - 1) * 2 ^ p < 2 ^ w := by
    calc (2 ^ n - 1) * 2 ^ p < 2 ^ n * 2 ^ p :=
          Nat.mul_lt_mul_of_pos_right (by omega) (Nat.two_pow_pos p)
      _ = 2 ^ (p + n) := by rw [← Nat.pow_add, Nat.add_comm]
      _ ≤ 2 ^ w := Nat.pow_le_pow_right (by decide) h
  unfold ones
  rw [BitVec.toNat_shiftLeft, BitVec.toNat_setWidth, BitVec.toNat_allOnes,
    Nat.mod_eq_of_lt (a := 2 ^ n - 1) (by omega), Nat.shiftLeft_eq, Nat.mod_eq_of_lt hlt]

theorem ones_zero : ones w p 0 = 0#w := by
  refine BitVec.eq_of_getLsbD_eq fun i hi => ?_
  simp [ones]

theorem ones_ne_zero (h : p + n ≤ w) (hn : 0 < n) : ones w p n ≠ 0#w := by
  intro h0
  have hbit := getLsbD_ones (i := p) h
  rw [h0, BitVec.getLsbD_zero] at hbit
  simp [hn] at hbit

theorem ctz_ones (h : p + n ≤ w) (hn : 0 < n) : (ones w p n).ctz.toNat = p := by
  have hlow := BitVec.getLsbD_true_ctz_of_ne_zero (ones_ne_zero h hn)
  rw [getLsbD_ones h, Bool.and_eq_true, decide_eq_true_eq, decide_eq_true_eq] at hlow
  refine Nat.le_antisymm (Nat.le_of_not_lt fun hlt => ?_) hlow.1
  have hbit := BitVec.getLsbD_false_of_lt_ctz hlt
  rw [getLsbD_ones h] at hbit
  simp [hn] at hbit

theorem clz_ones (h : p + n ≤ w) (hn : 0 < n) : (ones w p n).clz.toNat = w - (p + n) := by
  have h0 := ones_ne_zero h hn
  have hlt := BitVec.clz_lt_iff_ne_zero.mpr h0
  have hle : (ones w p n).clz.toNat < w := by
    have := BitVec.lt_def.mp hlt
    rwa [BitVec.natCast_eq_ofNat, BitVec.toNat_ofNat, Nat.mod_eq_of_lt Nat.lt_two_pow_self] at this
  -- the bit after the leading zeros is a one, and the highest one is not above it
  have hhigh := BitVec.getLsbD_true_clz_of_ne_zero (by omega : 0 < w) h0
  rw [getLsbD_ones h, Bool.and_eq_true, decide_eq_true_eq, decide_eq_true_eq] at hhigh
  have htop : (ones w p n).getLsbD (p + n - 1) = true := by
    rw [getLsbD_ones h]; simp; omega
  have hbound : ¬w - (ones w p n).clz.toNat ≤ p + n - 1 := by
    intro hle'
    rw [BitVec.getLsbD, Nat.testBit_lt_two_pow (Nat.lt_of_lt_of_le BitVec.toNat_lt_two_pow_sub_clz
      (Nat.pow_le_pow_right (by decide) hle'))] at htop
    cases htop
  omega

end Ones

/-! ## The set of ones -/

def bits {w : Nat} (x : BitVec w) : Finset Nat := {i ∈ Finset.range w | x.getLsbD i = true}

/-- The width of the window from the lowest to the highest one. -/
def span {w : Nat} (x : BitVec w) : Nat := w - x.clz.toNat - x.ctz.toNat

section Bits

variable {w p n i : Nat} {x y : BitVec w}

@[simp] theorem mem_bits : i ∈ bits x ↔ x.getLsbD i = true := by
  rw [bits, Finset.mem_filter, Finset.mem_range]
  exact ⟨And.right, fun h => ⟨BitVec.lt_of_getLsbD h, h⟩⟩

theorem eq_of_bits_eq (h : bits x = bits y) : x = y := by
  refine BitVec.eq_of_getLsbD_eq fun i _ => Bool.eq_iff_iff.mpr ?_
  rw [← mem_bits, ← mem_bits, h]

theorem bits_ones (h : p + n ≤ w) : bits (ones w p n) = Finset.Ico p (p + n) := by
  ext i
  rw [mem_bits, getLsbD_ones h, Finset.mem_Ico, Bool.and_eq_true, decide_eq_true_eq,
    decide_eq_true_eq]

/-- A shifted vector lies in a run of ones if what sticks out of the run is shifted out. -/
theorem bits_shiftLeft_subset_iff (h : p + n ≤ w) :
    bits (x <<< p) ⊆ bits (ones w p n) ↔ ∀ i, x.getLsbD i = true → i < n ∨ w ≤ p + i := by
  have hshift (j : Nat) : j ∈ bits (x <<< p) ↔ j < w ∧ p ≤ j ∧ x.getLsbD (j - p) = true := by
    rw [mem_bits, BitVec.getLsbD_shiftLeft]
    simp [and_assoc]
  rw [bits_ones h]
  constructor
  · intro hsub i hi
    rcases Nat.lt_or_ge (p + i) w with hlt | hge
    · have hmem := hsub ((hshift (p + i)).mpr ⟨hlt, by omega, by rwa [Nat.add_sub_cancel_left]⟩)
      exact .inl (Nat.lt_of_add_lt_add_left (Finset.mem_Ico.mp hmem).2)
    · exact .inr hge
  · intro hfit j hj
    obtain ⟨hjw, hpj, hbit⟩ := (hshift j).mp hj
    have hlt := hfit (j - p) hbit
    exact Finset.mem_Ico.mpr ⟨hpj, by omega⟩

theorem bits_or : bits (x ||| y) = bits x ∪ bits y := by
  ext i
  rw [mem_bits, Finset.mem_union, mem_bits, mem_bits, BitVec.getLsbD_or, Bool.or_eq_true]

theorem disjoint_bits_or {s : Finset Nat} :
    Disjoint s (bits (x ||| y)) ↔ Disjoint s (bits x) ∧ Disjoint s (bits y) := by
  rw [bits_or, Finset.disjoint_union_right]

theorem disjoint_bits (h : x &&& y = 0#w) : Disjoint (bits x) (bits y) := by
  refine Finset.disjoint_left.mpr fun i hx hy => ?_
  rw [mem_bits] at hx hy
  have hbit : (x &&& y).getLsbD i = true := by rw [BitVec.getLsbD_and, hx, hy]; rfl
  rw [h, BitVec.getLsbD_zero] at hbit
  cases hbit

/-- The ones among the lowest `k` bits are counted one by one. -/
theorem card_filter_range (x : BitVec w) (k : Nat) :
    (Finset.filter (fun i => x.getLsbD i = true) (Finset.range k)).card = x.cpopNatRec k 0 := by
  induction k with
  | zero => rfl
  | succ k ih =>
    rw [Finset.range_add_one, Finset.filter_insert, BitVec.cpopNatRec_succ, BitVec.cpopNatRec_eq,
      ← ih]
    by_cases hk : x.getLsbD k = true
    · rw [if_pos hk, Finset.card_insert_of_notMem (by simp), hk]
      rfl
    · rw [if_neg hk, Bool.eq_false_of_not_eq_true hk]
      rfl

theorem card_bits (x : BitVec w) : (bits x).card = x.cpop.toNat := by
  rw [bits, card_filter_range, BitVec.toNat_cpop]

theorem cpop_ones (h : p + n ≤ w) : (ones w p n).cpop.toNat = n := by
  rw [← card_bits, bits_ones h, Nat.card_Ico, Nat.add_sub_cancel_left]

theorem cpop_or (h : x &&& y = 0#w) : (x ||| y).cpop.toNat = x.cpop.toNat + y.cpop.toNat := by
  rw [← card_bits, bits_or, Finset.card_union_of_disjoint (disjoint_bits h), card_bits, card_bits]

/-- Every one lies in the window. -/
theorem bits_subset (x : BitVec w) : bits x ⊆ Finset.Ico x.ctz.toNat (w - x.clz.toNat) := by
  intro i hi
  rw [mem_bits] at hi
  refine Finset.mem_Ico.mpr ⟨Nat.le_of_not_lt fun hlt => ?_, Nat.lt_of_not_le fun hle => ?_⟩
  · rw [BitVec.getLsbD_false_of_lt_ctz hlt] at hi
    cases hi
  · rw [BitVec.getLsbD, Nat.testBit_lt_two_pow (Nat.lt_of_lt_of_le BitVec.toNat_lt_two_pow_sub_clz
      (Nat.pow_le_pow_right (by decide) hle))] at hi
    cases hi

theorem isLeast_ctz (h : x ≠ 0#w) : IsLeast {i | i ∈ bits x} x.ctz.toNat :=
  ⟨mem_bits.mpr (BitVec.getLsbD_true_ctz_of_ne_zero h),
    fun _ hi => (Finset.mem_Ico.mp (bits_subset x hi)).1⟩

theorem isGreatest_clz (h : x ≠ 0#w) : IsGreatest {i | i ∈ bits x} (w - 1 - x.clz.toNat) := by
  have hw : 0 < w := Nat.pos_of_ne_zero fun hw => h (by subst hw; exact BitVec.eq_nil x)
  refine ⟨mem_bits.mpr (BitVec.getLsbD_true_clz_of_ne_zero hw h), fun i hi => ?_⟩
  have hlt := (Finset.mem_Ico.mp (bits_subset x hi)).2
  omega

theorem cpop_le_span (x : BitVec w) : x.cpop.toNat ≤ span x := by
  rw [← card_bits, span, ← Nat.card_Ico]
  exact Finset.card_le_card (bits_subset x)

/-- The lowest and the highest one are in the window. -/
theorem span_pos (h : x ≠ 0#w) : 0 < span x := by
  have hlow := mem_bits.mpr (BitVec.getLsbD_true_ctz_of_ne_zero h)
  have hmem := Finset.mem_Ico.mp (bits_subset x hlow)
  unfold span
  omega

theorem span_zero : span (0#w) = 0 := by
  rw [span, BitVec.clz_eq_iff_eq_zero.mpr rfl]
  simp

theorem span_ones (h : p + n ≤ w) : span (ones w p n) = n := by
  rcases Nat.eq_zero_or_pos n with rfl | hn
  · rw [ones_zero, span_zero]
  · rw [span, clz_ones h hn, ctz_ones h hn]
    omega

/-- No bit of the window is missing exactly where the ones are a run. -/
theorem cpop_eq_span_iff (x : BitVec w) : x.cpop.toNat = span x ↔ Contiguous x := by
  constructor
  · intro h
    have hall : bits x = Finset.Ico x.ctz.toNat (w - x.clz.toNat) :=
      Finset.eq_of_subset_of_card_le (bits_subset x) (by rw [Nat.card_Ico, card_bits, h]; rfl)
    rcases Nat.eq_zero_or_pos (span x) with h0 | hpos
    · refine ⟨0, 0, Nat.zero_le w, eq_of_bits_eq ?_⟩
      rw [hall, bits_ones (Nat.zero_le w)]
      exact Finset.Ico_eq_empty_of_le (Nat.le_of_sub_eq_zero h0)
    · have hend : x.ctz.toNat + span x = w - x.clz.toNat := by
        unfold span at hpos ⊢
        omega
      have hle : x.ctz.toNat + span x ≤ w := by omega
      refine ⟨x.ctz.toNat, span x, hle, eq_of_bits_eq ?_⟩
      rw [hall, bits_ones hle, hend]
  · rintro ⟨p, n, h, rfl⟩
    rw [cpop_ones h, span_ones h]

end Bits

end Interact
