import UefiStub.Console.Text
import UefiStub.Gop.Basic
import UefiStub.Str.Agree

/-!
# The numbers of the mode list

`print_list_entry` converts the mode number into a buffer of four bytes, and
pads it to three places there. `u64tostr` is not told the size of the buffer:
the numeral of a mode number from 1000 on, with its terminator, does not fit,
and `max_mode`, which bounds the mode numbers, is a firmware value.
-/

namespace UefiStub

open Interact Interact.Buf

/-- The number of the entry stays inside its buffer, and what is printed is the decimal numeral of
the mode, padded with zeros to three places. -/
def NumbersEntry (mode : U32) : Prop :=
  ∃ buf text, modeDigits mode = some buf ∧ Says (efiPuts buf.inits) text ∧
    Padded 10 mode.toNat 3 text

variable {mode : U32}

theorem toNat_setWidth_mode (mode : U32) : (mode.setWidth 64).toNat = mode.toNat :=
  BitVec.toNat_setWidth_of_le (by decide)

theorem length_numeral_le_three (n : Nat) : (numeral 10 n).length ≤ 3 ↔ n < 1000 := by
  rw [length_numeral]
  exact length_topDigits_le_iff (by decide) (by decide)

theorem modeDigits_of_lt (h : mode.toNat < 1000) : ∃ buf, modeDigits mode = some buf ∧
    buf.inits = List.replicate (3 - (numeral 10 mode.toNat).length) 48 ++
      numeral 10 mode.toNat ++ [0] := by
  have hlen := (length_numeral_le_three mode.toNat).mpr h
  have h0 : 0 ∉ numeral 10 mode.toNat := zero_notMem_numeral (by decide) (by decide) _
  have hconv : u64tostr false (mode.setWidth 64) (blank 4) 0 10 = _ :=
    u64tostr_eq (by decide) _ (by
      rw [toNat_setWidth_mode, length_blank]
      change 0 + (numeral 10 mode.toNat).length < 4
      omega)
  rw [toNat_setWidth_mode, show numeralBase 10 = 10 from rfl] at hconv
  generalize numeral 10 mode.toNat = num at hlen h0 hconv ⊢
  have hk : (4 - BitVec.ofNat 32 num.length : U32).toNat = 4 - num.length :=
    toNat_sub_ofNat (Nat.le_succ_of_le hlen)
  have hbuf := padded_buffer (m := blank 4) (k := 4 - BitVec.ofNat 32 num.length)
    (length_blank 4) (by decide) hlen h0 (by omega) (by omega)
  refine ⟨_, ?_, inits_map _⟩
  rw [modeDigits, hconv]
  exact hbuf

/-- `u64tostr` writes past the end of the buffer. -/
theorem modeDigits_of_le (h : 1000 ≤ mode.toNat) : modeDigits mode = none := by
  have hlen : ¬(numeral 10 mode.toNat).length ≤ 3 := by
    rw [length_numeral_le_three]
    omega
  have hconv : toDecimal false (mode.setWidth 64) (blank 4) 0 = none := by
    rw [toDecimal_ite, numeralOrNone, if_neg]
    rw [toNat_setWidth_mode, List.length_append, List.length_singleton, length_blank]
    omega
  have hnone : u64tostr false (mode.setWidth 64) (blank 4) 0 10 = none := by
    simp only [u64tostr, hconv]
    rfl
  rw [modeDigits, hnone]
  rfl

/-- **The numbers of the mode list.** A mode is numbered as it should be exactly if its number has
at most three digits. -/
theorem numbersEntry_iff (mode : U32) : NumbersEntry mode ↔ mode.toNat < 1000 := by
  constructor
  · rintro ⟨buf, text, hbuf, -, -⟩
    by_contra h
    rw [modeDigits_of_le (by omega)] at hbuf
    cases hbuf
  · intro h
    obtain ⟨buf, hbuf, hinits⟩ := modeDigits_of_lt h
    refine ⟨buf, _, hbuf, ?_, padded_numeral (by decide) (by decide) _ _⟩
    rw [hinits]
    exact Says.padded (by decide) (by decide) _ _

/-- The last of 1001 modes. -/
theorem not_numbersEntry : ¬∀ maxMode mode : U32, mode < maxMode → NumbersEntry mode := by
  intro h
  obtain ⟨buf, text, hbuf, -, -⟩ := h 1001 1000 (by decide)
  rw [modeDigits_of_le (by decide)] at hbuf
  cases hbuf

end UefiStub
