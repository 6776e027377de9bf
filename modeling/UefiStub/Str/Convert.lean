import UefiStub.Str.Basic
import UefiStub.Lib.Numeral
import Mathlib.Tactic.IntervalCases

/-!
# The number converters write canonical numerals

`naive_convert`, `bitwise_convert` and `to_decimal` each write
`numeral base value` and a terminator, and return its length. The two
converters that run down the digit positions share `downLoop`; `StepAt` is what
one turn does, and `downLoop_eq` what a whole run does.
-/

namespace UefiStub

open Interact Interact.Buf

variable {ck : Bool} {m : Mem} {p : Nat}

theorem alnumDigit_eq (ck : Bool) {d : Nat} (hd : d < 36) :
    alnumDigit ck d = some (digitChar d) := by
  have h : ∀ ck : Bool, ∀ d < 36, alnumDigit ck d = some (digitChar d) := by decide
  exact h ck d hd

theorem toChar_digit (ck : Bool) {d : Nat} (hd : d < 10) :
    toChar ck (48 + d) = some (digitChar d) := by
  have h : ∀ ck : Bool, ∀ d < 10, toChar ck (48 + d) = some (digitChar d) := by decide
  exact h ck d hd

theorem mul64_eq (ck : Bool) {a b : Nat} (h : a * b < 2 ^ 64) :
    mul64 ck (BitVec.ofNat 64 a) (BitVec.ofNat 64 b) = some (BitVec.ofNat 64 (a * b)) := by
  have hle : (BitVec.ofNat 64 a).toNat * (BitVec.ofNat 64 b).toNat ≤ a * b :=
    Nat.mul_le_mul (by simpa using Nat.mod_le _ _) (by simpa using Nat.mod_le _ _)
  rw [mul64, if_neg (by omega), BitVec.ofNat_mul]

theorem sub64_eq (ck : Bool) {a b : Nat} (ha : a < 2 ^ 64) (h : b ≤ a) :
    sub64 ck (BitVec.ofNat 64 a) (BitVec.ofNat 64 b) = some (BitVec.ofNat 64 (a - b)) := by
  rw [sub64, if_neg (by simp only [BitVec.toNat_ofNat]; omega)]
  congr 1
  apply BitVec.eq_of_toNat_eq
  simp only [BitVec.toNat_sub, BitVec.toNat_ofNat]
  omega

theorem shl64_eq (ck : Bool) {a n : Nat} (h : a * 2 ^ n < 2 ^ 64) :
    shl64 ck (BitVec.ofNat 64 a) n = some (BitVec.ofNat 64 (a * 2 ^ n)) := by
  have hle : (BitVec.ofNat 64 a).toNat * 2 ^ n ≤ a * 2 ^ n :=
    Nat.mul_le_mul_right _ (by simpa using Nat.mod_le _ _)
  rw [shl64, if_neg (by omega)]
  congr 1
  apply BitVec.eq_of_toNat_eq
  simp only [BitVec.toNat_shiftLeft, BitVec.toNat_ofNat, Nat.shiftLeft_eq, Nat.mod_mul_mod]

/-! ## Running down the positions -/

/-- One turn at position `j` in base `b` on the number `n`, with the characters `out` written so
far: the digit is written unless it is a leading zero, and the rest of the number is left. -/
def StepAt (b p : Nat) (m : Mem) (step : Nat → Conv → Option Conv) (j : Nat) : Prop :=
  ∀ (n : Nat) (out : List U8), n < b ^ (j + 1) → n < 2 ^ 64 → p + out.length < m.length →
    step j ⟨BitVec.ofNat 64 n, out.length, writeAt m p out⟩ =
      some (if out ≠ [] ∨ n / b ^ j ≠ 0 ∨ j = 0 then
        ⟨BitVec.ofNat 64 (n % b ^ j), out.length + 1, writeAt m p (out ++ [digitChar (n / b ^ j)])⟩
      else ⟨BitVec.ofNat 64 n, out.length, writeAt m p out⟩)

/-- A run from position `j` writes the digits of `n` from there, suppressing leading zeros
until something has been written. -/
theorem downLoop_eq {b : Nat} {step : Nat → Conv → Option Conv} (hb : 0 < b) :
    ∀ {j n : Nat} (out : List U8), (∀ i ≤ j, StepAt b p m step i) → n < b ^ (j + 1) → n < 2 ^ 64 →
      p + out.length + (downDigits b (out ≠ []) j n).length ≤ m.length →
      downLoop step j ⟨BitVec.ofNat 64 n, out.length, writeAt m p out⟩ =
        some ⟨0, out.length + (downDigits b (out ≠ []) j n).length,
          writeAt m p (out ++ (downDigits b (out ≠ []) j n).map digitChar)⟩
  | 0, n, out, hs, hn, h64, hm => by
    simp only [downDigits, List.length_singleton] at hm
    rw [downLoop, hs 0 (Nat.le_refl _) n out hn h64 (by omega), if_pos (.inr (.inr rfl))]
    simp [downDigits, Nat.mod_one]
  | j + 1, n, out, hs, hn, h64, hm => by
    have hpos : 0 < b ^ (j + 1) := Nat.pow_pos hb
    have hs' : ∀ i ≤ j, StepAt b p m step i := fun i hi => hs i (by omega)
    have hlen := length_downDigits_pos b (out ≠ []) (j + 1) n
    rw [downLoop, hs (j + 1) (Nat.le_refl _) n out hn h64 (by omega), Option.bind_eq_bind,
      Option.bind_some]
    by_cases hd : out ≠ [] ∨ n / b ^ (j + 1) ≠ 0
    · rw [if_pos (by tauto)]
      have hdd : downDigits b (out ≠ []) (j + 1) n =
          n / b ^ (j + 1) :: downDigits b true j (n % b ^ (j + 1)) := by
        rw [downDigits, if_pos (by simpa using hd)]
      have hst : decide (out ++ [digitChar (n / b ^ (j + 1))] ≠ []) = true := by simp
      rw [hdd, List.length_cons] at hm
      have ih := downLoop_eq hb (n := n % b ^ (j + 1)) (out ++ [digitChar (n / b ^ (j + 1))])
        hs' (Nat.mod_lt _ hpos) (Nat.lt_of_le_of_lt (Nat.mod_le _ _) h64)
        (by rw [hst, List.length_append, List.length_singleton]; omega)
      rw [hst, List.length_append, List.length_singleton] at ih
      rw [ih, hdd]
      simp only [List.map_cons, List.length_cons, List.append_assoc, List.singleton_append]
      congr 2; omega
    · rw [if_neg (by tauto)]
      simp only [ne_eq, not_or, not_not] at hd
      obtain ⟨rfl, h0⟩ := hd
      have hdd : downDigits b false (j + 1) n = downDigits b false j n := by
        rw [downDigits, if_neg (by simp [h0])]
      simp only [ne_eq, not_true_eq_false, decide_false, hdd] at hm ⊢
      simpa using downLoop_eq hb [] hs' ((Nat.div_eq_zero_iff_lt hpos).mp h0) h64
        (by simpa using hm)

/-- What a converter leaves: the numeral, terminated, and its length. -/
theorem finish_eq {b v : Nat} (h : p + (numeral b v).length < m.length) :
    (do let m ← Buf.store (writeAt m p (numeral b v)) (p + (numeral b v).length) 0
        some ((numeral b v).length, m)) =
      some ((numeral b v).length, writeAt m p (numeral b v ++ [0])) := by
  rw [writeAt_snoc h]; rfl

/-- Running down from a high enough position writes the canonical numeral. -/
theorem downLoop_numeral {b j : Nat} {step : Nat → Conv → Option Conv} (hb : 1 < b) (v : U64)
    (hs : ∀ i ≤ j, StepAt b p m step i) (hv : v.toNat < b ^ (j + 1))
    (h : p + (numeral b v.toNat).length < m.length) :
    downLoop step j ⟨v, 0, m⟩ =
      some ⟨0, (numeral b v.toNat).length, writeAt m p (numeral b v.toNat)⟩ := by
  have hd := downDigits_eq hb hv
  have := downLoop_eq (by omega) [] hs hv v.isLt
    (by simp only [ne_eq, not_true_eq_false, decide_false, hd]; rw [length_numeral] at h
        simp only [List.length_nil]; omega)
  simpa [hd, numeral] using this

/-! ## `bitwise_convert` -/

theorem bitwiseStep_spec {bits j : Nat} (hbits : 1 ≤ bits) (hbits5 : bits ≤ 5)
    (hj : j * bits < 64) : StepAt (2 ^ bits) p m (bitwiseStep ck p bits) j := by
  intro n out hn h64 hm
  have hpow : (2 ^ bits) ^ j = 2 ^ (j * bits) := by rw [← Nat.pow_mul, Nat.mul_comm]
  have h32 : 2 ^ bits ≤ 32 := Nat.pow_le_pow_right (by decide) hbits5
  rw [Nat.pow_succ, hpow] at hn
  rw [hpow]
  have hq : n / 2 ^ (j * bits) < 2 ^ bits := Nat.div_lt_of_lt_mul hn
  have hmask : (((1 : U64) <<< bits) - 1) = BitVec.ofNat 64 (2 ^ bits - 1) := by
    interval_cases bits <;> rfl
  have hdigit : (BitVec.ofNat 64 n >>> (j * bits)) &&& (((1 : U64) <<< bits) - 1) =
      BitVec.ofNat 64 (n / 2 ^ (j * bits)) := by
    apply BitVec.eq_of_toNat_eq
    rw [hmask]
    simp only [BitVec.toNat_and, BitVec.toNat_ushiftRight, BitVec.toNat_ofNat,
      Nat.mod_eq_of_lt h64, Nat.shiftRight_eq_div_pow]
    rw [Nat.mod_eq_of_lt (a := 2 ^ bits - 1) (by omega), Nat.and_two_pow_sub_one_eq_mod,
      Nat.mod_eq_of_lt hq, Nat.mod_eq_of_lt (by omega)]
  have hmul : n / 2 ^ (j * bits) * 2 ^ (j * bits) ≤ n := Nat.div_mul_le_self _ _
  have hrest : n - n / 2 ^ (j * bits) * 2 ^ (j * bits) = n % 2 ^ (j * bits) := by
    have := Nat.div_add_mod' n (2 ^ (j * bits)); omega
  have hzero : (BitVec.ofNat 64 (n / 2 ^ (j * bits)) ≠ 0) ↔ n / 2 ^ (j * bits) ≠ 0 := by
    rw [ne_eq, ← BitVec.toNat_inj]
    simp only [BitVec.toNat_ofNat, Nat.mod_eq_of_lt (show n / 2 ^ (j * bits) < 2 ^ 64 by omega)]
    rfl
  simp only [bitwiseStep, hdigit, shl64_eq ck (Nat.lt_of_le_of_lt hmul h64),
    sub64_eq ck h64 hmul, hrest, Option.bind_eq_bind, Option.bind_some, hzero,
    ne_eq, List.length_eq_zero_iff, BitVec.toNat_ofNat,
    Nat.mod_eq_of_lt (show n / 2 ^ (j * bits) < 2 ^ 64 by omega),
    alnumDigit_eq ck (show n / 2 ^ (j * bits) < 36 by omega), writeAt_snoc hm]
  split
  · rfl
  · next hs =>
    -- a suppressed digit is zero, so the number is its own remainder
    simp only [not_or, not_not] at hs
    rw [← Nat.div_add_mod' n (2 ^ (j * bits)), hs.2.1]
    simp

theorem bitwiseConvert_eq {bits : Nat} (hbits : 1 ≤ bits) (hbits5 : bits ≤ 5) (v : U64)
    (h : p + (numeral (2 ^ bits) v.toNat).length < m.length) :
    bitwiseConvert ck v m p bits =
      some ((numeral (2 ^ bits) v.toNat).length,
        writeAt m p (numeral (2 ^ bits) v.toNat ++ [0])) := by
  have hv : v.toNat < (2 ^ bits) ^ (63 / bits + 1) := by
    rw [← Nat.pow_mul]
    refine Nat.lt_of_lt_of_le v.isLt (Nat.pow_le_pow_right (by decide) ?_)
    have := Nat.div_add_mod 63 bits
    have := Nat.mod_lt 63 (show 0 < bits by omega)
    rw [Nat.mul_add]; omega
  have hs : ∀ i ≤ 63 / bits, StepAt (2 ^ bits) p m (bitwiseStep ck p bits) i := fun i hi =>
    bitwiseStep_spec hbits hbits5
      (Nat.lt_succ_of_le (Nat.le_trans (Nat.mul_le_mul_right _ hi) (Nat.div_mul_le_self _ _)))
  rw [bitwiseConvert, downLoop_numeral (Nat.one_lt_two_pow (by omega)) v hs hv h]
  exact finish_eq h

/-! ## `to_decimal` -/

theorem limLoop_eq : ∀ {i a : Nat}, a * 10 ^ i < 2 ^ 64 →
    limLoop ck i (BitVec.ofNat 64 a) = some (BitVec.ofNat 64 (a * 10 ^ i))
  | 0, a, _ => by simp [limLoop]
  | i + 1, a, h => by
    rw [Nat.pow_succ', ← Nat.mul_assoc] at h
    have h10 : a * 10 < 2 ^ 64 :=
      Nat.lt_of_le_of_lt (Nat.le_mul_of_pos_right _ (Nat.pow_pos (by decide))) h
    have hmul := mul64_eq ck h10
    rw [limLoop, show (10 : U64) = BitVec.ofNat 64 10 from rfl, hmul, Option.bind_eq_bind,
      Option.bind_some, limLoop_eq h, Nat.pow_succ', ← Nat.mul_assoc]

/-- Subtracting as long as it goes divides. -/
theorem digitLoop_eq {lim : Nat} (hl : 0 < lim) (hl64 : lim < 2 ^ 64) :
    ∀ {fuel d n : Nat}, n / lim ≤ fuel → n < 2 ^ 64 →
      digitLoop ck (BitVec.ofNat 64 lim) fuel d (BitVec.ofNat 64 n) =
        some (d + n / lim, BitVec.ofNat 64 (n % lim))
  | fuel, d, n, hf, hn => by
    have hle : (BitVec.ofNat 64 lim ≤ BitVec.ofNat 64 n) ↔ lim ≤ n := by
      rw [BitVec.le_def, BitVec.toNat_ofNat, BitVec.toNat_ofNat, Nat.mod_eq_of_lt hl64,
        Nat.mod_eq_of_lt hn]
    by_cases h : lim ≤ n
    · have hdiv : n / lim = (n - lim) / lim + 1 := by rw [Nat.div_eq, if_pos ⟨hl, h⟩]
      rw [hdiv] at hf
      match fuel with
      | 0 => exact absurd hf (Nat.not_succ_le_zero _)
      | fuel + 1 =>
        have ih := digitLoop_eq hl hl64 (d := d + 1) (n := n - lim)
          (Nat.le_of_succ_le_succ hf) (by omega)
        rw [digitLoop, if_pos (hle.mpr h), sub64_eq ck hn h, Option.bind_eq_bind, Option.bind_some,
          ih, hdiv, ← Nat.mod_eq_sub_mod h]
        congr 2; omega
    · have hlt : n < lim := by omega
      have hne : ¬ (BitVec.ofNat 64 lim ≤ BitVec.ofNat 64 n) := fun hc => h (hle.mp hc)
      rw [Nat.div_eq_of_lt hlt, Nat.mod_eq_of_lt hlt]
      cases fuel <;> simp only [digitLoop, if_neg hne, Nat.add_zero]

theorem decimalStep_spec {pos : Nat} (hpos : pos ≤ 19) :
    StepAt 10 p m (decimalStep ck p) pos := by
  intro n out hn h64 hm
  have hl : 0 < 10 ^ pos := Nat.pow_pos (by decide)
  have hl64 : 10 ^ pos < 2 ^ 64 :=
    Nat.lt_of_le_of_lt (Nat.pow_le_pow_right (by decide) hpos) (by decide)
  have hlim : limLoop ck pos 1 = some (BitVec.ofNat 64 (10 ^ pos)) := by
    have : limLoop ck pos (BitVec.ofNat 64 1) = _ := limLoop_eq (by omega)
    rwa [Nat.one_mul] at this
  have hle : (BitVec.ofNat 64 (10 ^ pos) ≤ BitVec.ofNat 64 n) ↔ n / 10 ^ pos ≠ 0 := by
    rw [BitVec.le_def, BitVec.toNat_ofNat, BitVec.toNat_ofNat, Nat.mod_eq_of_lt hl64,
      Nat.mod_eq_of_lt h64, ne_eq, Nat.div_eq_zero_iff_lt hl, Nat.not_lt]
  have hq : n / 10 ^ pos < 10 := Nat.div_lt_of_lt_mul (by rwa [← Nat.pow_succ])
  have hloop : digitLoop ck _ n 0 _ = _ := digitLoop_eq hl hl64 (Nat.div_le_self n _) h64
  simp only [decimalStep, hlim, Option.bind_eq_bind, Option.bind_some, hle, ne_eq,
    List.length_eq_zero_iff, BitVec.toNat_ofNat, Nat.mod_eq_of_lt h64, hloop, Nat.zero_add,
    toChar_digit ck hq, writeAt_snoc hm]
  split <;> rfl

theorem toDecimal_eq (v : U64) (h : p + (numeral 10 v.toNat).length < m.length) :
    toDecimal ck v m p =
      some ((numeral 10 v.toNat).length, writeAt m p (numeral 10 v.toNat ++ [0])) := by
  have hv : v.toNat < 10 ^ (19 + 1) := Nat.lt_of_lt_of_le v.isLt (by decide)
  rw [toDecimal, downLoop_numeral (by decide) v (fun i hi => decimalStep_spec hi) hv h]
  exact finish_eq h

/-! ## `naive_convert` -/

/-- The digits come out of the division loop least significant first. -/
theorem naiveLoop_eq {b : Nat} (hb : 1 < b) (hb36 : b ≤ 36) {r : Buf U8} :
    ∀ {fuel n : Nat} (out : List U8), n < b ^ fuel → 0 < fuel → n < 2 ^ 64 →
      out.length + (upDigits b fuel n).length ≤ r.length →
      naiveLoop ck (BitVec.ofNat 64 b) fuel (BitVec.ofNat 64 n) out.length (writeAt r 0 out) =
        some (out.length + (upDigits b fuel n).length,
          writeAt r 0 (out ++ (upDigits b fuel n).map digitChar))
  | fuel + 1, n, out, hn, _, h64, hr => by
    have hb64 : b < 2 ^ 64 := by omega
    have hmod : (BitVec.ofNat 64 n % BitVec.ofNat 64 b).toNat = n % b := by
      rw [BitVec.toNat_umod, BitVec.toNat_ofNat, BitVec.toNat_ofNat, Nat.mod_eq_of_lt h64,
        Nat.mod_eq_of_lt hb64]
    have hdiv : BitVec.ofNat 64 n / BitVec.ofNat 64 b = BitVec.ofNat 64 (n / b) := by
      apply BitVec.eq_of_toNat_eq
      rw [BitVec.toNat_udiv, BitVec.toNat_ofNat, BitVec.toNat_ofNat, BitVec.toNat_ofNat,
        Nat.mod_eq_of_lt h64, Nat.mod_eq_of_lt hb64,
        Nat.mod_eq_of_lt (Nat.lt_of_le_of_lt (Nat.div_le_self _ _) h64)]
    have hd : n % b < 36 := by have := Nat.mod_lt n (show 0 < b by omega); omega
    have hq64 : n / b < 2 ^ 64 := Nat.lt_of_le_of_lt (Nat.div_le_self _ _) h64
    have hgt : ((0 : U64) < BitVec.ofNat 64 (n / b)) ↔ 0 < n / b := by
      rw [BitVec.lt_def, toNat_ofNat_lt hq64]; rfl
    have hroom : out.length < r.length := by simp only [upDigits, List.length_cons] at hr; omega
    have hst := writeAt_snoc (m := r) (p := 0) (l := out) (by omega) (digitChar (n % b))
    rw [Nat.zero_add] at hst
    simp only [naiveLoop, hmod, hdiv, alnumDigit_eq ck hd, hst, Option.bind_eq_bind,
      Option.bind_some, hgt]
    by_cases hq : 0 < n / b
    · have hlt : n / b < b ^ fuel := Nat.div_lt_of_lt_mul (by rwa [← Nat.pow_succ'])
      have hfuel : 0 < fuel := by
        rcases Nat.eq_zero_or_pos fuel with rfl | h
        · simp only [Nat.pow_zero] at hlt; omega
        · exact h
      simp only [upDigits, if_pos hq, List.length_cons] at hr ⊢
      have ih := naiveLoop_eq hb hb36 (r := r) (out ++ [digitChar (n % b)]) hlt hfuel hq64
        (by rw [List.length_append, List.length_singleton]; omega)
      rw [List.length_append, List.length_singleton] at ih
      rw [ih]
      simp only [List.map_cons, List.append_assoc, List.singleton_append]
      congr 2; omega
    · simp only [upDigits, if_neg hq, List.length_singleton, List.map_cons, List.map_nil]

/-- Copying an initialised prefix out backwards. -/
theorem copyReversed_eq {r : Buf U8} : ∀ (out : List U8) {l : List U8},
    (∀ i < l.length, r.load i = l[i]?) →
    p + out.length + l.length ≤ m.length →
    copyReversed r (p + out.length) l.length (writeAt m p out) =
      some (writeAt m p (out ++ l.reverse)) := by
  intro out l hl hm
  induction l using List.reverseRecOn generalizing out with
  | nil => simp [copyReversed]
  | append_singleton l c ih =>
    rw [List.length_append, List.length_singleton] at hm hl ⊢
    have hc : r.load l.length = some c := by rw [hl _ (Nat.lt_succ_self _)]; simp
    have hl' : ∀ i < l.length, r.load i = l[i]? := fun i hi => by
      rw [hl i (by omega), List.getElem?_append_left hi]
    have ih' := ih (out ++ [c]) hl' (by rw [List.length_append, List.length_singleton]; omega)
    rw [List.length_append, List.length_singleton] at ih'
    simp only [copyReversed, hc, Option.bind_eq_bind, Option.bind_some,
      writeAt_snoc (show p + out.length < m.length by omega), Nat.add_assoc, ih']
    simp

theorem naiveConvert_eq {b : Nat} (hb : 1 < b) (hb36 : b ≤ 36) (v : U64)
    (h : p + (numeral b v.toNat).length < m.length) :
    naiveConvert ck v m p (BitVec.ofNat 64 b) =
      some ((numeral b v.toNat).length, writeAt m p (numeral b v.toNat ++ [0])) := by
  have hv : v.toNat < b ^ 64 := Nat.lt_of_lt_of_le v.isLt (Nat.pow_le_pow_left hb 64)
  have hv65 : v.toNat < b ^ 65 :=
    Nat.lt_of_lt_of_le hv (Nat.pow_le_pow_right (by omega) (by decide))
  have hup : (upDigits b 65 v.toNat).reverse = topDigits b v.toNat :=
    upDigits_eq hb hv65 (by decide)
  have hlen : (upDigits b 65 v.toNat).length = (numeral b v.toNat).length := by
    rw [length_numeral, ← hup, List.length_reverse]
  have hnum : ((upDigits b 65 v.toNat).map digitChar).reverse = numeral b v.toNat := by
    rw [← List.map_reverse, hup]; rfl
  have h64 : (upDigits b 65 v.toNat).length ≤ 64 := by
    rw [hlen, length_numeral]; exact length_topDigits_le hb (by decide) hv
  have hb0 : BitVec.ofNat 64 b ≠ 0 := by
    rw [ne_eq, ← BitVec.toNat_inj, toNat_ofNat_lt (by omega)]
    simp; omega
  have hloop : naiveLoop ck _ 65 _ _ _ = _ := naiveLoop_eq hb hb36 (r := blank 64) [] hv65
    (by decide) v.isLt (by simpa using h64)
  rw [BitVec.ofNat_toNat, BitVec.setWidth_eq, List.length_nil, Nat.zero_add, List.nil_append,
    writeAt_nil] at hloop
  have hload : ∀ i < ((upDigits b 65 v.toNat).map digitChar).length,
      (writeAt (blank 64) 0 ((upDigits b 65 v.toNat).map digitChar)).load i =
        ((upDigits b 65 v.toNat).map digitChar)[i]? := fun i hi => by
    have := load_writeAt_in (m := (blank 64 : Buf U8)) (p := 0)
      (by rw [length_blank, List.length_map]; omega) hi
    rwa [Nat.zero_add] at this
  have hcopy := copyReversed_eq (m := m) (p := p) [] hload
    (by rw [List.length_map, List.length_nil, hlen]; omega)
  rw [List.length_nil, Nat.add_zero, writeAt_nil, List.nil_append, hnum, List.length_map, hlen]
    at hcopy
  simp only [naiveConvert, if_neg hb0, hloop, Option.bind_eq_bind, Option.bind_some, hcopy, hlen]
  exact finish_eq h

/-! ## `u64tostr` -/

/-- The base meant by the argument `base`: 0 stands for 10. -/
def numeralBase (base : Int) : Nat := if base = 0 then 10 else base.toNat

/-- The documented buffer size for a base. -/
def numeralSize : Nat → Nat
  | 2 => 65
  | 8 => 23
  | 10 => 21
  | 16 => 17
  | _ => 14

def supportedBases : List Int := [0, 2, 8, 10, 16, 36]

theorem numeralBase_range {base : Int} (hb : base ∈ supportedBases) :
    1 < numeralBase base ∧ numeralBase base ≤ 36 := by
  have h : ∀ base ∈ supportedBases, 1 < numeralBase base ∧ numeralBase base ≤ 36 := by decide
  exact h base hb

theorem length_numeral_le {base : Int} (hb : base ∈ supportedBases) (v : U64) :
    (numeral (numeralBase base) v.toNat).length + 1 ≤ numeralSize (numeralBase base) := by
  have h : ∀ base ∈ supportedBases, 1 < numeralSize (numeralBase base) ∧
      2 ^ 64 ≤ numeralBase base ^ (numeralSize (numeralBase base) - 1) := by decide
  obtain ⟨h1, h2⟩ := h base hb
  have := length_topDigits_le (numeralBase_range hb).1 (by omega) (Nat.lt_of_lt_of_le v.isLt h2)
  rw [length_numeral]; omega

/-- **`u64tostr` writes the numeral and its terminator**, whether or not wrapping is checked. -/
theorem u64tostr_eq {base : Int} (hb : base ∈ supportedBases) (v : U64)
    (h : p + (numeral (numeralBase base) v.toNat).length < m.length) :
    u64tostr ck v m p base = some (BitVec.ofNat 32 (numeral (numeralBase base) v.toNat).length,
      writeAt m p (numeral (numeralBase base) v.toNat ++ [0])) := by
  simp only [supportedBases, List.mem_cons, List.not_mem_nil, or_false] at hb
  rcases hb with rfl | rfl | rfl | rfl | rfl | rfl
  · have : toDecimal ck v m p = _ := toDecimal_eq v h
    simp only [u64tostr, this]; rfl
  · have : bitwiseConvert ck v m p 1 = _ := bitwiseConvert_eq (by decide) (by decide) v h
    simp only [u64tostr, this]; rfl
  · have : bitwiseConvert ck v m p 3 = _ := bitwiseConvert_eq (by decide) (by decide) v h
    simp only [u64tostr, this]; rfl
  · have : toDecimal ck v m p = _ := toDecimal_eq v h
    simp only [u64tostr, this]; rfl
  · have : bitwiseConvert ck v m p 4 = _ := bitwiseConvert_eq (by decide) (by decide) v h
    simp only [u64tostr, this]; rfl
  · have : naiveConvert ck v m p 36 = _ := naiveConvert_eq (b := 36) (by decide) (by decide) v h
    simp only [u64tostr, this]; rfl

/-- For any other base the string is empty. -/
theorem u64tostr_unsupported {base : Int} (hb : base ∉ supportedBases) (v : U64)
    (h : p < m.length) : u64tostr ck v m p base = some (0, writeAt m p [0]) := by
  simp only [supportedBases, List.mem_cons, List.not_mem_nil, or_false, not_or] at hb
  unfold u64tostr
  split
  all_goals first
    | exact absurd hb (by decide)
    | rw [store_eq h]; rfl

/-- **Number conversion.** For every value and supported base there is one canonical numeral
that reads back as the value and fits the documented buffer; `u64tostr` writes it with its
terminator and nothing else, returns its length, and does so without wrapping. -/
theorem u64tostr_canonical (v : U64) {base : Int} (hb : base ∈ supportedBases) :
    ∃ s : List U8, Canonical (numeralBase base) s ∧ parse (numeralBase base) s = some v.toNat ∧
      s.length + 1 ≤ numeralSize (numeralBase base) ∧
      ∀ (ck : Bool) (m : Mem) (p : Nat), p + s.length + 1 ≤ m.length →
        u64tostr ck v m p base = some (BitVec.ofNat 32 s.length, writeAt m p (s ++ [0])) := by
  obtain ⟨h1, h36⟩ := numeralBase_range hb
  exact ⟨numeral (numeralBase base) v.toNat, numeral_canonical h1 h36 _, parse_numeral h1 h36 _,
    length_numeral_le hb v, fun _ _ _ h => u64tostr_eq hb v h⟩

theorem u64tostr_canonical_max :
    ∃ s : List U8, Canonical 10 s ∧ parse 10 s = some 18446744073709551615 ∧ s.length + 1 ≤ 21 ∧
      u64tostr true 18446744073709551615 (blank 21) 0 10 =
        some (BitVec.ofNat 32 s.length, writeAt (blank 21) 0 (s ++ [0])) := by
  obtain ⟨s, hc, hp, hl, hw⟩ := @u64tostr_canonical 18446744073709551615 10 (by decide)
  exact ⟨s, hc, hp, hl, hw true (blank 21) 0 (by rw [length_blank, Nat.zero_add]; exact hl)⟩

end UefiStub
