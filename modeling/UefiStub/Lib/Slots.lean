import Mathlib.Logic.Function.Basic
import Mathlib.Data.List.TakeWhile

/-!
# A store of terminated strings

Slots of fixed sizes, each of which is known to hold a terminated string or of
which nothing is known. A slot can be filled (`put`) and its first cells can be
written over (`write`). What is known after a write is `overlay`: the string
ends at the terminator that was written, or the old string shows behind the
cells that were written.

`Refines` relates a store to what implements it, operation by operation, and
`Refines.run` relates their runs: what can be done to the store can be done to
the implementation, with the same replies.
-/

namespace Interact

variable {α ι : Type} {z : α} {n : Nat}

/-- A string that fits into `n` cells with its terminator. -/
@[ext]
structure Terminated (z : α) (n : Nat) where
  chars : List α
  clean : z ∉ chars
  fits : chars.length < n

theorem notMem_takeWhile [DecidableEq α] (z : α) (w : List α) : z ∉ w.takeWhile (· ≠ z) :=
  fun h => by simpa using List.mem_takeWhile_imp h

/-- Up to the first terminator. -/
theorem takeWhile_prefix_of_mem [DecidableEq α] {w : List α} (h : z ∈ w) :
    w.takeWhile (· ≠ z) ++ [z] <+: w := by
  induction w with
  | nil => cases h
  | cons a w ih =>
    by_cases ha : a = z
    · subst ha
      simp
    · have htail := ih ((List.mem_cons.mp h).resolve_left (Ne.symm ha))
      rw [List.takeWhile_cons_of_pos (by simpa using ha), List.cons_append]
      exact List.prefix_cons_inj a |>.mpr htail

/-- What is known of `n` cells after these were written at their start. -/
def overlay [DecidableEq α] (w : List α) (hw : w.length ≤ n) (old : Option (Terminated z n)) :
    Option (Terminated z n) :=
  if h : z ∈ w then
    some ⟨w.takeWhile (· ≠ z), notMem_takeWhile z w, by
      have hlen := (takeWhile_prefix_of_mem h).length_le
      rw [List.length_append, List.length_singleton] at hlen
      omega⟩
  else old.bind fun d =>
    if hd : w.length ≤ d.chars.length then
      some ⟨w ++ d.chars.drop w.length, fun hz => by
        rcases List.mem_append.mp hz with hz | hz
        · exact h hz
        · exact d.clean (List.mem_of_mem_drop hz), by
        rw [List.length_append, List.length_drop, Nat.add_sub_cancel' hd]
        exact d.fits⟩
    else none

/-- The string that is known then ends in the cells written or shows behind them. -/
theorem overlay_cases [DecidableEq α] {w : List α} {hw : w.length ≤ n}
    {old : Option (Terminated z n)} {s : Terminated z n} (h : overlay w hw old = some s) :
    s.chars ++ [z] <+: w ∨
      ∃ d, old = some d ∧ w.length ≤ d.chars.length ∧ s.chars = w ++ d.chars.drop w.length := by
  unfold overlay at h
  split at h
  · next hz =>
    cases h
    exact .inl (takeWhile_prefix_of_mem hz)
  · obtain ⟨d, hd, h⟩ := Option.bind_eq_some_iff.mp h
    split at h
    · next hle =>
      cases h
      exact .inr ⟨d, hd, hle, rfl⟩
    · cases h

/-- Slots in an address space, of which no two overlap. -/
structure Layout (ι : Type) where
  base : ι → Nat
  size : ι → Nat
  apart : ∀ i j, i ≠ j → base i + size i ≤ base j ∨ base j + size j ≤ base i

/-- What is known of every slot. -/
abbrev Store (L : Layout ι) (z : α) := (i : ι) → Option (Terminated z (L.size i))

namespace Store

variable {L : Layout ι} [DecidableEq ι]

def put (σ : Store L z) (i : ι) (s : Terminated z (L.size i)) : Store L z :=
  Function.update σ i (some s)

def write [DecidableEq α] (σ : Store L z) (i : ι) (w : List α) (hw : w.length ≤ L.size i) :
    Store L z :=
  Function.update σ i (overlay w hw (σ i))

end Store

/-! ## Refinement -/

section Refinement

variable {Op Reply A C : Type}

/-- Operations one after the other, with their replies. -/
def runAll (step : Op → A → Option (Reply × A)) : List Op → A → Option (List Reply × A)
  | [], a => some ([], a)
  | o :: os, a =>
    (step o a).bind fun r => (runAll step os r.2).map fun rs => (r.1 :: rs.1, rs.2)

/-- What can be done to the abstract state can be done to any concrete state it describes, which
replies the same and is described by the result. -/
def Refines (R : A → C → Prop) (astep : Op → A → Option (Reply × A))
    (cstep : Op → C → Option (Reply × C)) : Prop :=
  ∀ o a c x a', R a c → astep o a = some (x, a') → ∃ c', cstep o c = some (x, c') ∧ R a' c'

/-- So for runs. -/
theorem Refines.run {R : A → C → Prop} {astep : Op → A → Option (Reply × A)}
    {cstep : Op → C → Option (Reply × C)} (h : Refines R astep cstep) {os : List Op} {a a' : A}
    {c : C} {xs : List Reply} (hR : R a c) (hrun : runAll astep os a = some (xs, a')) :
    ∃ c', runAll cstep os c = some (xs, c') ∧ R a' c' := by
  induction os generalizing a c xs with
  | nil =>
    cases hrun
    exact ⟨c, rfl, hR⟩
  | cons o os ih =>
    obtain ⟨⟨x, a1⟩, hstep, hrest⟩ := Option.bind_eq_some_iff.mp hrun
    obtain ⟨⟨ys, a2⟩, hys, heq⟩ := Option.map_eq_some_iff.mp hrest
    cases heq
    obtain ⟨c1, hc1, hR1⟩ := h o a c x a1 hR hstep
    obtain ⟨c2, hc2, hR2⟩ := ih hR1 hys
    exact ⟨c2, by rw [runAll, hc1, Option.bind_some, hc2]; rfl, hR2⟩

end Refinement

end Interact
