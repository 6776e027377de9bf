import Mathlib.Algebra.Group.Nat.Defs
import Mathlib.Data.List.Basic

/-!
# UTF-8 and UTF-16

The standard encodings of a Unicode scalar value as bit vectors, and the shape
of the UTF-8 octets: a lead octet that gives the number of trailing octets,
each of which is `IsCont` and carries six bits (`conts`).
-/

namespace Interact

/-- The standard UTF-8 encoding. -/
def utf8 (c : Char) : List (BitVec 8) := (String.utf8EncodeChar c).map UInt8.toBitVec

/-- The standard UTF-16 encoding. -/
def utf16 (c : Char) : List (BitVec 16) :=
  if c.toNat < 0x10000 then [BitVec.ofNat 16 c.toNat]
  else [BitVec.ofNat 16 (0xd800 + (c.toNat - 0x10000) / 0x400),
    BitVec.ofNat 16 (0xdc00 + (c.toNat - 0x10000) % 0x400)]

/-- A carriage return before each line feed. -/
def crlf (cs : List Char) : List Char := cs.flatMap fun c => if c = '\n' then ['\r', '\n'] else [c]

/-- A continuation octet, `10xxxxxx`. -/
def IsCont (b : BitVec 8) : Prop := b &&& 0xc0 = 0x80

instance : DecidablePred IsCont := fun b => inferInstanceAs (Decidable (b &&& 0xc0 = 0x80))

/-- The continuation octet with the low six bits of `v`. -/
def contOctet (v : Nat) : BitVec 8 := BitVec.ofNat 8 (v % 64 + 0x80)

/-- The continuation octets with the low `6 * n` bits of `v`. -/
def conts : Nat → Nat → List (BitVec 8)
  | 0, _ => []
  | n + 1, v => contOctet (v / 64 ^ n) :: conts n v

theorem length_conts (n v : Nat) : (conts n v).length = n := by
  induction n with
  | zero => rfl
  | succ n ih => rw [conts, List.length_cons, ih]

theorem char_lt (c : Char) : c.toNat < 0x110000 := by
  have h := c.valid
  simp only [UInt32.isValidChar, Nat.isValidChar] at h
  simp only [Char.toNat]; omega

theorem char_not_surrogate (c : Char) : c.toNat < 0xd800 ∨ 0xdfff < c.toNat := by
  have h := c.valid
  simp only [UInt32.isValidChar, Nat.isValidChar] at h
  simp only [Char.toNat]; omega

/-- The scalar values are all the code points but the surrogates. -/
theorem exists_char {n : Nat} (hlt : n < 0x110000) (hs : n < 0xd800 ∨ 0xdfff < n) :
    ∃ c : Char, c.toNat = n :=
  ⟨Char.ofNatAux n (hs.imp id fun h => ⟨h, hlt⟩), rfl⟩

section Shape

variable {c : Char}

theorem utf8_one (h : c.toNat < 0x80) : utf8 c = [BitVec.ofNat 8 c.toNat] := by
  simp only [Char.toNat] at h ⊢
  simp only [utf8, String.utf8EncodeChar, if_pos (show c.val.toNat ≤ 0x7f by omega)]
  rfl

theorem utf8_two (h1 : 0x80 ≤ c.toNat) (h2 : c.toNat < 0x800) :
    utf8 c = [BitVec.ofNat 8 (c.toNat / 64 + 0xc0), contOctet c.toNat] := by
  simp only [Char.toNat] at h1 h2 ⊢
  simp only [utf8, String.utf8EncodeChar, if_neg (show ¬c.val.toNat ≤ 0x7f by omega),
    if_pos (show c.val.toNat ≤ 0x7ff by omega),
    Nat.mod_eq_of_lt (show c.val.toNat / 64 < 0x20 by omega)]
  rfl

theorem utf8_three (h1 : 0x800 ≤ c.toNat) (h2 : c.toNat < 0x10000) :
    utf8 c = [BitVec.ofNat 8 (c.toNat / 4096 + 0xe0), contOctet (c.toNat / 64),
      contOctet c.toNat] := by
  simp only [Char.toNat] at h1 h2 ⊢
  simp only [utf8, String.utf8EncodeChar, if_neg (show ¬c.val.toNat ≤ 0x7f by omega),
    if_neg (show ¬c.val.toNat ≤ 0x7ff by omega), if_pos (show c.val.toNat ≤ 0xffff by omega),
    Nat.mod_eq_of_lt (show c.val.toNat / 4096 < 0x10 by omega)]
  rfl

theorem utf8_four (h : 0x10000 ≤ c.toNat) :
    utf8 c = [BitVec.ofNat 8 (c.toNat / 262144 + 0xf0), contOctet (c.toNat / 4096),
      contOctet (c.toNat / 64), contOctet c.toNat] := by
  have hc := char_lt c
  simp only [Char.toNat] at h hc ⊢
  simp only [utf8, String.utf8EncodeChar, if_neg (show ¬c.val.toNat ≤ 0x7f by omega),
    if_neg (show ¬c.val.toNat ≤ 0x7ff by omega), if_neg (show ¬c.val.toNat ≤ 0xffff by omega),
    Nat.mod_eq_of_lt (show c.val.toNat / 262144 < 0x08 by omega)]
  rfl

theorem length_utf8 (h : 0x80 ≤ c.toNat) : 2 ≤ (utf8 c).length ∧ (utf8 c).length ≤ 4 := by
  obtain h' | ⟨h1, h2⟩ | h' : c.toNat < 0x800 ∨ (0x800 ≤ c.toNat ∧ c.toNat < 0x10000) ∨
      0x10000 ≤ c.toNat := by omega
  · rw [utf8_two h h']
    exact ⟨by simp, by simp⟩
  · rw [utf8_three h1 h2]
    exact ⟨by simp, by simp⟩
  · rw [utf8_four h']
    exact ⟨by simp, by simp⟩

/-- The number of trailing octets, and they. -/
theorem utf8_conts {n : Nat} (hn : 1 ≤ n) (hcount : n = (if 0x80 ≤ c.toNat then 1 else 0) +
    (if 0x800 ≤ c.toNat then 1 else 0) + (if 0x10000 ≤ c.toNat then 1 else 0)) :
    utf8 c = BitVec.ofNat 8 (c.toNat / 64 ^ n + (256 - 2 ^ (7 - n))) :: conts n c.toNat := by
  obtain h | ⟨h1, h2⟩ | ⟨h1, h2⟩ | h : c.toNat < 0x80 ∨ (0x80 ≤ c.toNat ∧ c.toNat < 0x800) ∨
      (0x800 ≤ c.toNat ∧ c.toNat < 0x10000) ∨ 0x10000 ≤ c.toNat := by omega
  · rw [if_neg (by omega), if_neg (by omega), if_neg (by omega)] at hcount
    omega
  · rw [if_pos h1, if_neg (by omega), if_neg (by omega)] at hcount
    rw [hcount, utf8_two h1 h2, conts, conts, Nat.pow_zero, Nat.div_one]
    rfl
  · rw [if_pos (by omega), if_pos h1, if_neg (by omega)] at hcount
    rw [hcount, utf8_three h1 h2, conts, conts, conts, Nat.pow_zero, Nat.div_one]
    rfl
  · rw [if_pos (by omega), if_pos (by omega), if_pos h] at hcount
    rw [hcount, utf8_four h, conts, conts, conts, conts, Nat.pow_zero, Nat.div_one]
    rfl

theorem isCont_contOctet (v : Nat) : IsCont (contOctet v) := by
  have h : ∀ d < 64, IsCont (BitVec.ofNat 8 (d + 0x80)) := by decide
  exact h _ (Nat.mod_lt _ (by decide))

theorem not_isCont_lead {n : Nat} (h1 : 0xc0 ≤ n) (h2 : n < 0xf8) : ¬IsCont (BitVec.ofNat 8 n) := by
  have h : ∀ d < 56, ¬IsCont (BitVec.ofNat 8 (d + 0xc0)) := by decide
  have := h (n - 0xc0) (by omega)
  rwa [Nat.sub_add_cancel h1] at this

/-- An ASCII octet alone, or a lead octet and continuation octets. -/
theorem utf8_shape (c : Char) : ∃ c0 tl, utf8 c = c0 :: tl ∧ ¬IsCont c0 ∧ (∀ b ∈ tl, IsCont b) ∧
    (c.toNat < 0x80 ∧ c0.toNat = c.toNat ∨ 0x80 ≤ c.toNat ∧ 0xc0 ≤ c0.toNat) := by
  have hlt := char_lt c
  obtain h | ⟨h1, h2⟩ | ⟨h1, h2⟩ | h : c.toNat < 0x80 ∨ (0x80 ≤ c.toNat ∧ c.toNat < 0x800) ∨
      (0x800 ≤ c.toNat ∧ c.toNat < 0x10000) ∨ 0x10000 ≤ c.toNat := by omega
  · have hascii : ∀ n < 0x80, ¬IsCont (BitVec.ofNat 8 n) := by decide
    refine ⟨_, _, utf8_one h, hascii _ h, by simp, .inl ⟨h, ?_⟩⟩
    rw [BitVec.toNat_ofNat]; omega
  · refine ⟨_, _, utf8_two h1 h2, not_isCont_lead (by omega) (by omega), ?_, .inr ⟨h1, ?_⟩⟩
    · simp [isCont_contOctet]
    · rw [BitVec.toNat_ofNat]; omega
  · refine ⟨_, _, utf8_three h1 h2, not_isCont_lead (by omega) (by omega), ?_,
      .inr ⟨by omega, ?_⟩⟩
    · simp [isCont_contOctet]
    · rw [BitVec.toNat_ofNat]; omega
  · refine ⟨_, _, utf8_four h, not_isCont_lead (by omega) (by omega), ?_, .inr ⟨by omega, ?_⟩⟩
    · simp [isCont_contOctet]
    · rw [BitVec.toNat_ofNat]; omega

end Shape

/-- The five bits above bit 11 tell a surrogate among the sixteen-bit values. -/
theorem surrogate_mask (n : Nat) : n &&& 0xf800 = 0xd800 ↔ n % 0x10000 / 0x800 = 27 := by
  have hmask : n &&& 0xf800 = (n % 0x10000 / 0x800) <<< 11 := by
    rw [show n % 0x10000 / 0x800 = (n >>> 11) &&& 31 by
        rw [Nat.and_two_pow_sub_one_eq_mod (n >>> 11) 5, Nat.shiftRight_eq_div_pow]; omega,
      Nat.shiftLeft_and_distrib]
    refine Nat.eq_of_testBit_eq fun i => ?_
    rw [Nat.testBit_and, Nat.testBit_and, show (0xf800 : Nat) = 31 <<< 11 from rfl]
    simp only [Nat.testBit_shiftLeft, Nat.testBit_shiftRight]
    by_cases hi : 11 ≤ i
    · simp [hi, Nat.add_sub_cancel' hi]
    · simp [hi]
  rw [hmask, Nat.shiftLeft_eq]
  omega

end Interact
