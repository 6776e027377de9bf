import UefiStub.Console.Text
import UefiStub.Pci.Basic

/-!
# Printing sizes

`print_size` scales a multiple of 1024 down by 1024 until at most 1024 is left
or the unit is TB, and tests once that nothing is dropped, before the first
step. `scaled` is the number and the unit it prints. They are the size exactly
where every step that is taken divides (`scaled_exact_iff`): a multiple of 1024
over 1 MiB that is not a multiple of 1 MiB loses its kilobytes.
-/

namespace UefiStub

open Interact

/-- The number that is printed and the index of its unit. -/
def scaled (size : U64) : Nat × Nat :=
  if size &&& (1024 - 1) ≠ 0 then (size.toNat, 0)
  else ((sizeLoop 4 size 0).1.toNat, (sizeLoop 4 size 0).2)

/-- A number with its unit. -/
def sizeText (d i : Nat) : List U8 := numeral 10 d ++ octets (sizeSuffixes.getD i "")

/-- After `j` turns the size is divided by `1024 ^ j`; each turn was needed, and no more is. -/
theorem sizeLoop_spec (n : Nat) (size : U64) (i : Nat) :
    ∃ j ≤ n, (sizeLoop n size i).2 = i + j ∧
      (sizeLoop n size i).1.toNat = size.toNat / 1024 ^ j ∧
      (j = n ∨ size.toNat / 1024 ^ j ≤ 1024) ∧ ∀ k < j, 1024 < size.toNat / 1024 ^ k := by
  induction n generalizing size i with
  | zero =>
    exact ⟨0, Nat.le_refl 0, rfl, by simp [sizeLoop], .inl rfl, fun k hk => absurd hk (by omega)⟩
  | succ n ih =>
    unfold sizeLoop
    split
    · rename_i hgt
      have hgt : 1024 < size.toNat := hgt
      have hshift : (size >>> 10).toNat = size.toNat / 1024 := by
        rw [BitVec.toNat_ushiftRight, Nat.shiftRight_eq_div_pow]
      have hdiv (k : Nat) : size.toNat / 1024 / 1024 ^ k = size.toNat / 1024 ^ (k + 1) := by
        rw [Nat.div_div_eq_div_mul, Nat.pow_succ']
      obtain ⟨j, hj, hi, hsize, hstop, hall⟩ := ih (size >>> 10) (i + 1)
      rw [hshift, hdiv] at hsize hstop
      refine ⟨j + 1, by omega, by omega, hsize, hstop.imp (by omega) id, fun k hk => ?_⟩
      cases k with
      | zero => simpa using hgt
      | succ k =>
        have hk := hall k (by omega)
        rwa [hshift, hdiv] at hk
    · rename_i hle
      have hle : ¬1024 < size.toNat := hle
      exact ⟨0, by omega, rfl, by simp, .inr (by simpa using hle), fun k hk => absurd hk (by omega)⟩

theorem and_1023_iff (size : U64) : size &&& (1024 - 1) ≠ 0 ↔ ¬1024 ∣ size.toNat := by
  rw [ne_eq, ← BitVec.toNat_inj, BitVec.toNat_and,
    show (1024 - 1 : U64).toNat = 2 ^ 10 - 1 from rfl, Nat.and_two_pow_sub_one_eq_mod,
    Nat.dvd_iff_mod_eq_zero]
  rfl

theorem scaled_lt (size : U64) : (scaled size).2 < 5 := by
  obtain ⟨j, hj, hi, -⟩ := sizeLoop_spec 4 size 0
  unfold scaled
  split
  · exact Nat.succ_pos 4
  · change (sizeLoop 4 size 0).2 < 5
    omega

theorem suffix_eq {i : Nat} (h : i < 5) : sizeSuffixes[i]? = some (sizeSuffixes.getD i "") := by
  have hall : ∀ i < 5, sizeSuffixes[i]? = some (sizeSuffixes.getD i "") := by decide
  exact hall i h

theorem ascii_suffix {i : Nat} (h : i < 5) : AsciiString (sizeSuffixes.getD i "") := by
  have hall : ∀ i < 5, AsciiString (sizeSuffixes.getD i "") := by decide
  exact hall i h

theorem lf_notMem_sizeText {d i : Nat} (h : i < 5) : 10 ∉ sizeText d i := by
  have hall : ∀ i < 5, '\n' ∉ (sizeSuffixes.getD i "").toList := by decide
  unfold sizeText
  rw [List.mem_append, not_or]
  exact ⟨lf_notMem_numeral (by decide) (by decide) _, lf_notMem_octets ⟨ascii_suffix h, hall i h⟩⟩

/-- What `print_size` says. -/
theorem says_size (size : U64) :
    Says (printSize size) (sizeText (scaled size).1 (scaled size).2) := by
  have hlt := scaled_lt size
  unfold printSize sizeText scaled at *
  split
  · exact (Says.putd _).bind (.lit (by decide))
  · rename_i h
    rw [if_neg h] at hlt
    simp only [suffix_eq hlt, lift_some, Prog.ret_bind]
    exact (Says.putd _).bind (.lit (ascii_suffix hlt))

/-- A number with its unit is read in one way only. -/
theorem sizeText_inj {d d' i i' : Nat} (hi : i < 5) (hi' : i' < 5)
    (h : sizeText d i = sizeText d' i') : d = d' ∧ i = i' := by
  have hend : ∀ i < 5, ∀ c ∈ (octets (sizeSuffixes.getD i "")).head?,
      ¬∃ d < 10, digitVal c = some d := by decide
  have hinj : ∀ i < 5, ∀ i' < 5,
      octets (sizeSuffixes.getD i "") = octets (sizeSuffixes.getD i' "") → i = i' := by decide
  obtain ⟨hd, hsuffix⟩ := numeral_append_inj (by decide) (by decide) (hend i hi) (hend i' hi') h
  exact ⟨hd, hinj i hi i' hi' hsuffix⟩

/-- The number that is printed is the size in the unit that is printed. -/
def PrintsExactly (size : U64) : Prop :=
  ∃ d i suffix, sizeSuffixes[i]? = some suffix ∧
    Says (printSize size) (numeral 10 d ++ octets suffix) ∧ d * 1024 ^ i = size.toNat

/-- Nothing is dropped: the size is not scaled, or it is a multiple of the unit it is scaled
to. -/
def Scalable (size : Nat) : Prop :=
  ¬1024 ∣ size ∨ ∃ j ≤ 4, 1024 ^ j ∣ size ∧ (j = 4 ∨ size ≤ 1024 ^ (j + 1))

theorem printsExactly_iff_scaled (size : U64) :
    PrintsExactly size ↔ (scaled size).1 * 1024 ^ (scaled size).2 = size.toNat := by
  have hlt := scaled_lt size
  constructor
  · rintro ⟨d, i, suffix, hget, hprint, hexact⟩
    obtain ⟨hi, -⟩ := List.getElem?_eq_some_iff.mp hget
    have hsuffix := suffix_eq hi
    rw [hget, Option.some.injEq] at hsuffix
    rw [hsuffix] at hprint
    obtain ⟨rfl, rfl⟩ := sizeText_inj hi hlt (hprint.unique (says_size size))
    exact hexact
  · intro hexact
    exact ⟨_, _, _, suffix_eq hlt, says_size size, hexact⟩

theorem scaled_exact_iff (size : U64) :
    (scaled size).1 * 1024 ^ (scaled size).2 = size.toNat ↔ Scalable size.toNat := by
  have haligned := and_1023_iff size
  unfold scaled Scalable
  by_cases hk : 1024 ∣ size.toNat
  · rw [if_neg fun h => haligned.mp h hk]
    obtain ⟨j, hj, hi, hsize, hstop, hall⟩ := sizeLoop_spec 4 size 0
    rw [Nat.zero_add] at hi
    simp only [hi, hsize, hk, not_true_eq_false, false_or]
    rw [← Nat.dvd_iff_div_mul_eq]
    constructor
    · intro hdvd
      refine ⟨j, hj, hdvd, hstop.imp id fun hle => ?_⟩
      obtain ⟨c, hc⟩ := hdvd
      rw [hc, Nat.mul_div_cancel_left _ (Nat.pow_pos (by decide))] at hle
      rw [hc, Nat.pow_succ]
      exact Nat.mul_le_mul_left _ hle
    · rintro ⟨k, hk4, hdvd, hend⟩
      -- the loop stops at the unit it can stop at, or before
      have hjk : j ≤ k := by
        refine Nat.le_of_not_lt fun hlt => ?_
        rcases hend with rfl | hle
        · omega
        · have hgt := hall k hlt
          have := Nat.div_le_div_right (c := 1024 ^ k) hle
          rw [Nat.pow_succ, Nat.mul_div_cancel_left _ (Nat.pow_pos (by decide))] at this
          omega
      exact Nat.dvd_trans (Nat.pow_dvd_pow 1024 hjk) hdvd
  · rw [if_pos (haligned.mpr hk)]
    exact iff_of_true (Nat.mul_one _) (.inl hk)

/-- **Where sizes are printed exactly.** -/
theorem printSize_exact_iff (size : U64) : PrintsExactly size ↔ Scalable size.toNat :=
  (printsExactly_iff_scaled size).trans (scaled_exact_iff size)

/-- The frame buffer of a 1280x800 mode has 4000 kB, and is printed as 3 MB. -/
theorem not_printSize_exact : ¬∀ size : U64, PrintsExactly size := by
  intro h
  have hexact := (printsExactly_iff_scaled _).mp (h (1280 * 800 * 4))
  exact absurd hexact (by decide)

end UefiStub
