import UefiStub.Efi
import UefiStub.Lib.Ones

/-!
# `include/bitops.h`

The bit searches on an `unsigned long`, which has 32 bits here. Both are
undefined on zero; every caller checks it first. Each search has a branch for
compile-time constants, on the builtins, and one on an instruction; `const` is
`__builtin_constant_p` of the argument. The code that reaches a search with a
value from firmware takes the instruction.
-/

namespace UefiStub

open Interact

/-- `__ffs`: the `tzcnt` of `variable__ffs`. -/
def ffsWord (word : U32) : U32 := word.ctz

/-- `__fls`: the `bsr`. -/
def flsWord (word : U32) : U32 := 31 - word.clz

/-! ## The branches of a search -/

def builtinCtzl (word : U32) : U32 := word.ctz

/-- Counts in the width of an `unsigned long`. -/
def builtinClzl (word : U32) : U32 := word.clz

/-- Either branch of `__ffs`. -/
def ffsBranch (const : Bool) (word : U32) : U32 := if const then builtinCtzl word else ffsWord word

/-- Either branch of `__fls`. -/
def flsBranch (const : Bool) (word : U32) : U32 :=
  if const then 63 - builtinClzl word else flsWord word

def builtinFfs (x : U32) : Int := if x = 0 then 0 else x.ctz.toNat + 1

def builtinClz (x : U32) : Int := x.clz.toNat

/-- `bsfl`, and `cmovzl` of `-1` where there is no set bit. -/
def variableFfs (x : U32) : Int :=
  let r : Int := if x = 0 then -1 else x.ctz.toNat
  r - 1

def ffs (const : Bool) (x : U32) : Int := if const then builtinFfs x else variableFfs x

/-- The assembly comes after the `return` of the constant branch, so no other statement assigns
`r`. -/
def fls (const : Bool) (x : U32) : Option Int :=
  if const then some (if x ≠ 0 then 32 - builtinClz x else 0)
  else do
    let r ← (none : Option Int)
    some (r + 1)

section Word

variable {word : U32} (h : word ≠ 0)

include h

theorem toNat_flsWord : (flsWord word).toNat = 31 - word.clz.toNat := by
  have hpos := span_pos h
  unfold span at hpos
  have hle : word.clz.toNat ≤ 31 := by omega
  rw [flsWord, BitVec.toNat_sub_of_le hle]
  rfl

/-- The window between the two. -/
theorem ffsWord_add_span :
    (ffsWord word).toNat + span word = (flsWord word).toNat + 1 ∧ (flsWord word).toNat < 32 := by
  have hpos := span_pos h
  rw [toNat_flsWord h, ffsWord]
  unfold span at hpos ⊢
  omega

theorem isLeast_ffsWord : IsLeast {i | i ∈ bits word} (ffsWord word).toNat := isLeast_ctz h

theorem isGreatest_flsWord : IsGreatest {i | i ∈ bits word} (flsWord word).toNat := by
  rw [toNat_flsWord h]
  exact isGreatest_clz h

end Word

theorem toNat_ffsWord_ones {p n : Nat} (h : p + n ≤ 32) (hn : 0 < n) :
    (ffsWord (ones 32 p n)).toNat = p := ctz_ones h hn

/-- The constant branch is written for a word of 64 bits. -/
theorem flsBranch_true (word : U32) : flsBranch true word = flsBranch false word + 32 := by
  change 63 - word.clz = 31 - word.clz + 32
  rw [BitVec.sub_eq_add_neg, BitVec.sub_eq_add_neg, BitVec.add_assoc, BitVec.add_comm (-word.clz),
    ← BitVec.add_assoc]
  rfl

theorem flsBranch_ne (word : U32) : flsBranch true word ≠ flsBranch false word := by
  intro heq
  have hfls := congrArg BitVec.toNat (flsBranch_true word)
  have hlt := (flsBranch false word).isLt
  rw [heq, BitVec.toNat_add, show (32 : U32).toNat = 32 from rfl] at hfls
  omega

/-! ## Positions -/

/-- Position 0 where there is no set bit, and one more than the index of the first one. -/
def FirstPosition (x : U32) (r : Int) : Prop :=
  x = 0 ∧ r = 0 ∨ ∃ i, IsLeast {i | i ∈ bits x} i ∧ r = i + 1

def LastPosition (x : U32) (r : Int) : Prop :=
  x = 0 ∧ r = 0 ∨ ∃ i, IsGreatest {i | i ∈ bits x} i ∧ r = i + 1

/-- `ffs` and `fls` give the documented positions, in either branch. -/
def PositionsAgree (x : U32) : Prop :=
  ∀ const, FirstPosition x (ffs const x) ∧ ∃ r, fls const x = some r ∧ LastPosition x r

theorem firstPosition_builtin (x : U32) : FirstPosition x (ffs true x) := by
  by_cases h : x = 0
  · exact .inl ⟨h, if_pos h⟩
  · exact .inr ⟨_, isLeast_ctz h, if_neg h⟩

theorem lastPosition_builtin (x : U32) : ∃ r, fls true x = some r ∧ LastPosition x r := by
  refine ⟨_, rfl, ?_⟩
  by_cases h : x = 0
  · exact .inl ⟨h, if_neg (not_not.mpr h)⟩
  · refine .inr ⟨_, isGreatest_clz h, ?_⟩
    have hpos := span_pos h
    unfold span at hpos
    rw [if_pos h, builtinClz]
    omega

/-- The adjustment after `bsfl` goes the wrong way. -/
theorem ffs_false (x : U32) : ffs false x = ffs true x - 2 := by
  change variableFfs x = builtinFfs x - 2
  unfold variableFfs builtinFfs
  dsimp only
  split <;> omega

/-- **The positions.** The constant branches give the documented positions. At run time `ffs` is
two less, and `fls` reads a variable that was not assigned. -/
theorem positions_disagree (x : U32) : ¬PositionsAgree x ∧
    FirstPosition x (ffs true x) ∧ (∃ r, fls true x = some r ∧ LastPosition x r) ∧
      ffs false x = ffs true x - 2 ∧ fls false x = none := by
  refine ⟨fun h => ?_, firstPosition_builtin x, lastPosition_builtin x, ffs_false x, rfl⟩
  obtain ⟨-, r, hr, -⟩ := h false
  cases hr

/-- Zero has position 0. -/
theorem not_positionsAgree : ¬∀ x, PositionsAgree x := by
  intro h
  obtain ⟨hfirst, -⟩ := h 0 false
  have hr : ffs false 0 = -2 := rfl
  rw [hr] at hfirst
  rcases hfirst with ⟨-, h0⟩ | ⟨i, -, hi⟩
  · exact absurd h0 (by decide)
  · omega

end UefiStub
