import Mathlib.Data.Nat.Digits.Lemmas
import UefiStub.Lib.Lines

/-!
# Positional numerals

`topDigits b v` is the canonical digit list of `v` in base `b`, most
significant first: `0` is one zero and no other number starts with one.
`numeral b v` spells it in ASCII (`0`–`9`, `a`–`z`), and `parse b` reads a
numeral back.

Two ways of producing the list. `upDigits` takes remainders from the bottom.
`downDigits` runs down the powers of the base, with the digits suppressed until
the first nonzero one. Both give `topDigits`.
-/

namespace Interact

/-- The digits of `v`, most significant first, without leading zeros. -/
def topDigits (b v : Nat) : List Nat := if v = 0 then [0] else (Nat.digits b v).reverse

def digitChar (d : Nat) : BitVec 8 := BitVec.ofNat 8 (if d ≤ 9 then 48 + d else 97 + (d - 10))

def numeral (b v : Nat) : List (BitVec 8) := (topDigits b v).map digitChar

/-- The value of an ASCII digit. -/
def digitVal (c : BitVec 8) : Option Nat :=
  if 48 ≤ c.toNat ∧ c.toNat ≤ 57 then some (c.toNat - 48)
  else if 97 ≤ c.toNat ∧ c.toNat ≤ 122 then some (c.toNat - 87)
  else none

/-- Read on a numeral in base `b` whose leading part has value `acc`. -/
def parseFrom (b : Nat) : Nat → List (BitVec 8) → Option Nat
  | acc, [] => some acc
  | acc, c :: s => (digitVal c).bind fun d => if d < b then parseFrom b (acc * b + d) s else none

def parse (b : Nat) (s : List (BitVec 8)) : Option Nat := if s = [] then none else parseFrom b 0 s

/-- Digits of base `b` only, at least one, and no leading zero but in the numeral of zero. -/
structure Canonical (b : Nat) (s : List (BitVec 8)) : Prop where
  ne_nil : s ≠ []
  digits : ∀ c ∈ s, ∃ d < b, digitVal c = some d
  noLeadingZero : s.head? = some 48#8 → s = [48#8]

variable {b v : Nat}

theorem topDigits_zero (b : Nat) : topDigits b 0 = [0] := rfl

theorem topDigits_pos (hv : v ≠ 0) : topDigits b v = (Nat.digits b v).reverse := if_neg hv

theorem topDigits_lt (hb : 1 < b) : ∀ d ∈ topDigits b v, d < b := by
  intro d hd
  by_cases hv : v = 0
  · subst hv; rw [topDigits_zero, List.mem_singleton] at hd; omega
  · rw [topDigits_pos hv, List.mem_reverse] at hd
    exact Nat.digits_lt_base hb hd

theorem topDigits_ne_nil (b v : Nat) : topDigits b v ≠ [] := by
  by_cases hv : v = 0
  · subst hv; simp [topDigits_zero]
  · rw [topDigits_pos hv, ne_eq, List.reverse_eq_nil_iff]
    exact Nat.digits_ne_nil_iff_ne_zero.mpr hv

/-- Only zero starts with the digit zero. -/
theorem topDigits_head (hv : v ≠ 0) : (topDigits b v).head? ≠ some 0 := by
  have hne : Nat.digits b v ≠ [] := Nat.digits_ne_nil_iff_ne_zero.mpr hv
  rw [topDigits_pos hv, List.head?_reverse, List.getLast?_eq_getLast_of_ne_nil hne]
  simpa using Nat.getLast_digit_ne_zero b hv

theorem length_topDigits_le_iff (hb : 1 < b) {n : Nat} (hn : 0 < n) :
    (topDigits b v).length ≤ n ↔ v < b ^ n := by
  by_cases h0 : v = 0
  · subst h0
    exact iff_of_true hn (Nat.pow_pos (by omega))
  · rw [topDigits_pos h0, List.length_reverse]
    exact Nat.digits_length_le_iff hb v

theorem length_topDigits_le (hb : 1 < b) {n : Nat} (hn : 0 < n) (hv : v < b ^ n) :
    (topDigits b v).length ≤ n := (length_topDigits_le_iff hb hn).mpr hv

theorem length_numeral (b v : Nat) : (numeral b v).length = (topDigits b v).length :=
  List.length_map ..

/-- A digit list with the right value, digits below the base and no leading zero is canonical. -/
theorem eq_topDigits {l : List Nat} (hb : 1 < b) (hlt : ∀ d ∈ l, d < b)
    (hhd : l.head? ≠ some 0) (hval : Nat.ofDigits b l.reverse = v) (hv : v ≠ 0) :
    l = topDigits b v := by
  rw [topDigits_pos hv, ← hval, Nat.digits_ofDigits b hb l.reverse
    (fun d hd => hlt d (List.mem_reverse.mp hd)) (fun h => ?_), List.reverse_reverse]
  intro h0
  rw [List.getLast_reverse] at h0
  have hne : l ≠ [] := fun hl => h (by rw [hl]; rfl)
  exact hhd (by rw [List.head?_eq_some_head hne, h0])

/-! ## Spelling and reading -/

theorem digitVal_digitChar {d : Nat} (hd : d < 36) : digitVal (digitChar d) = some d := by
  have h : ∀ d < 36, digitVal (digitChar d) = some d := by decide
  exact h d hd

theorem digitChar_ne_zero {d : Nat} (hd : d < 36) : digitChar d ≠ 0#8 := by
  have h : ∀ d < 36, digitChar d ≠ 0#8 := by decide
  exact h d hd

theorem zero_notMem_numeral (hb : 1 < b) (hb36 : b ≤ 36) (v : Nat) : (0#8) ∉ numeral b v := by
  intro h
  obtain ⟨d, hd, h0⟩ := List.mem_map.mp h
  exact digitChar_ne_zero (by have := topDigits_lt hb d hd; omega) h0

theorem parseFrom_map (hb36 : b ≤ 36) {l : List Nat} (hl : ∀ d ∈ l, d < b) (acc : Nat) :
    parseFrom b acc (l.map digitChar) = some (acc * b ^ l.length + Nat.ofDigits b l.reverse) := by
  induction l generalizing acc with
  | nil => simp [parseFrom]
  | cons d l ih =>
    have hd := hl d List.mem_cons_self
    rw [List.map_cons, parseFrom, digitVal_digitChar (by omega), Option.bind_some, if_pos hd,
      ih (fun d hd => hl d (List.mem_cons_of_mem _ hd)), Nat.ofDigits_reverse_cons,
      List.length_cons, Nat.pow_succ]
    congr 1; ring

/-- **Reading a numeral back gives the number.** -/
theorem parse_numeral (hb : 1 < b) (hb36 : b ≤ 36) (v : Nat) : parse b (numeral b v) = some v := by
  have hval : Nat.ofDigits b (topDigits b v).reverse = v := by
    by_cases hv : v = 0
    · subst hv; rfl
    · rw [topDigits_pos hv, List.reverse_reverse, Nat.ofDigits_digits]
  rw [parse, if_neg (by simp [numeral, topDigits_ne_nil]), numeral,
    parseFrom_map hb36 (topDigits_lt hb), Nat.zero_mul, Nat.zero_add, hval]

theorem numeral_canonical (hb : 1 < b) (hb36 : b ≤ 36) (v : Nat) : Canonical b (numeral b v) where
  ne_nil := by simp [numeral, topDigits_ne_nil]
  digits := by
    intro c hc
    obtain ⟨d, hd, rfl⟩ := List.mem_map.mp hc
    have hlt := topDigits_lt hb d hd
    exact ⟨d, hlt, digitVal_digitChar (by omega)⟩
  noLeadingZero := by
    intro h
    by_cases hv : v = 0
    · subst hv; rfl
    rw [numeral, List.head?_map, Option.map_eq_some_iff] at h
    obtain ⟨d, hd, h48⟩ := h
    have hlt := topDigits_lt hb d (List.mem_of_mem_head? hd)
    have h0 : ∀ d < 36, digitChar d = 48#8 → d = 0 := by decide
    rw [h0 d (by omega) h48] at hd
    exact absurd hd (topDigits_head hv)

/-- A numeral ends where no digit follows. -/
theorem numeral_append_inj (hb : 1 < b) (hb36 : b ≤ 36) {w : Nat} {s t : List (BitVec 8)}
    (hs : ∀ c ∈ s.head?, ¬∃ d < b, digitVal c = some d)
    (ht : ∀ c ∈ t.head?, ¬∃ d < b, digitVal c = some d)
    (h : numeral b v ++ s = numeral b w ++ t) : v = w ∧ s = t := by
  obtain ⟨heq, hst⟩ := append_inj_of_boundary (numeral_canonical hb hb36 v).digits
    (numeral_canonical hb hb36 w).digits hs ht h
  have hparse := parse_numeral hb hb36 v
  rw [heq, parse_numeral hb hb36 w] at hparse
  exact ⟨(Option.some.inj hparse).symm, hst⟩

/-! ## From the bottom -/

/-- Remainders of repeated division, least significant first; at least one. `fuel` bounds
the number of digits. -/
def upDigits (b : Nat) : Nat → Nat → List Nat
  | 0, _ => []
  | fuel + 1, v => v % b :: if 0 < v / b then upDigits b fuel (v / b) else []

theorem upDigits_eq (hb : 1 < b) : ∀ {fuel v : Nat}, v < b ^ fuel → 0 < fuel →
    (upDigits b fuel v).reverse = topDigits b v
  | fuel + 1, v, hv, _ => by
    unfold upDigits
    by_cases hq : 0 < v / b
    · have hv0 : v ≠ 0 := fun h => by subst h; simp at hq
      have hlt : v / b < b ^ fuel := Nat.div_lt_of_lt_mul (by rwa [← Nat.pow_succ'])
      have hfuel : 0 < fuel := by
        rcases Nat.eq_zero_or_pos fuel with rfl | h
        · simp only [Nat.pow_zero] at hlt; omega
        · exact h
      rw [if_pos hq, List.reverse_cons, upDigits_eq hb hlt hfuel, topDigits_pos (by omega),
        topDigits_pos hv0, Nat.digits_def' hb (Nat.pos_of_ne_zero hv0), List.reverse_cons]
    · have hvb : v < b := by
        rcases Nat.lt_or_ge v b with h | h
        · exact h
        · exact absurd (Nat.div_pos h (by omega)) hq
      rw [if_neg hq, Nat.mod_eq_of_lt hvb]
      by_cases h0 : v = 0
      · subst h0; rfl
      · rw [topDigits_pos h0, Nat.digits_of_lt b v h0 hvb]

/-! ## From the top -/

/-- Digits of `v` at the powers `b ^ j`, …, `b ^ 0`; until `started`, zeros above the last
position are left out. -/
def downDigits (b : Nat) : Bool → Nat → Nat → List Nat
  | _, 0, v => [v]
  | started, j + 1, v =>
    if started ∨ v / b ^ (j + 1) ≠ 0 then
      v / b ^ (j + 1) :: downDigits b true j (v % b ^ (j + 1))
    else downDigits b false j v

theorem length_downDigits (b : Nat) : ∀ j v, (downDigits b true j v).length = j + 1
  | 0, _ => rfl
  | j + 1, v => by simp [downDigits, length_downDigits b j]

theorem length_downDigits_pos (b : Nat) : ∀ st j v, 0 < (downDigits b st j v).length
  | _, 0, _ => Nat.one_pos
  | st, j + 1, v => by
    unfold downDigits
    split
    · exact Nat.succ_pos _
    · exact length_downDigits_pos b false j v

theorem downDigits_lt (hb : 1 < b) : ∀ {j v : Nat} {st : Bool}, v < b ^ (j + 1) →
    ∀ d ∈ downDigits b st j v, d < b
  | 0, v, _, hv, d, hd => by
    rw [downDigits, List.mem_singleton] at hd
    subst hd; simpa using hv
  | j + 1, v, st, hv, d, hd => by
    have hpos : 0 < b ^ (j + 1) := Nat.pow_pos (by omega)
    rw [downDigits] at hd
    split at hd
    · rcases List.mem_cons.mp hd with rfl | hd
      · exact Nat.div_lt_of_lt_mul (by rwa [← Nat.pow_succ])
      · exact downDigits_lt hb (Nat.mod_lt _ hpos) d hd
    · next h =>
      simp only [not_or, ne_eq, not_not] at h
      exact downDigits_lt hb ((Nat.div_eq_zero_iff_lt hpos).mp h.2) d hd

theorem ofDigits_downDigits : ∀ {j v : Nat} {st : Bool},
    Nat.ofDigits b (downDigits b st j v).reverse = v
  | 0, v, _ => by simp [downDigits]
  | j + 1, v, st => by
    unfold downDigits
    split
    · rw [Nat.ofDigits_reverse_cons, ofDigits_downDigits, length_downDigits, Nat.mod_add_div]
    · exact ofDigits_downDigits

theorem head_downDigits (hb : 1 < b) : ∀ {j v : Nat}, v ≠ 0 →
    (downDigits b false j v).head? ≠ some 0
  | 0, v, hv => by simpa [downDigits] using hv
  | j + 1, v, hv => by
    unfold downDigits
    split
    · next h => simpa using h
    · exact head_downDigits hb hv

/-- **The top-down digits are the canonical ones.** -/
theorem downDigits_eq (hb : 1 < b) : ∀ {j v : Nat}, v < b ^ (j + 1) →
    downDigits b false j v = topDigits b v := by
  intro j v hv
  by_cases h0 : v = 0
  · subst h0
    induction j with
    | zero => rfl
    | succ j ih => simpa [downDigits] using ih (Nat.pow_pos (by omega))
  · exact eq_topDigits hb (downDigits_lt hb hv) (head_downDigits hb h0) ofDigits_downDigits h0

end Interact
