import Mathlib.Algebra.Group.Nat.Defs
import Mathlib.Data.List.Basic

/-!
# Checked buffers

A `Buf α` is an object of fixed length whose cells are indeterminate (`none`)
until they are written. `load` and `store` fail outside the object and `load`
fails on an indeterminate cell, so a computation that returns has stayed in
bounds and has read initialised cells only.

`writeAt m p l` is the buffer `m` with the values `l` written from index `p`
on; a run of consecutive stores is one `writeAt` (`writeAt_snoc`). A `Local`
computation does on a longer object what it does on a shorter one, so one that
writes a list wherever there is room for it fails where there is none
(`Local.eq_ite`).
-/

namespace Interact

abbrev Buf (α : Type) := List (Option α)

namespace Buf

variable {α : Type}

/-- An uninitialised object of `n` cells. -/
def blank (n : Nat) : Buf α := List.replicate n none

def load (m : Buf α) (i : Nat) : Option α := m[i]?.join

def store (m : Buf α) (i : Nat) (v : α) : Option (Buf α) :=
  if i < m.length then some (m.set i (some v)) else none

/-- The values from the start of `m` up to the terminator `z`. -/
def cstring [DecidableEq α] (z : α) : Buf α → Option (List α)
  | [] => none
  | none :: _ => none
  | some a :: m => if a = z then some [] else (cstring z m).map (a :: ·)

/-- What can be read from the start of `m` on: the cells before the first indeterminate one. -/
def inits : Buf α → List α
  | some a :: m => a :: inits m
  | _ => []

def writeAt (m : Buf α) (p : Nat) (l : List α) : Buf α :=
  m.take p ++ l.map some ++ m.drop (p + l.length)

@[simp] theorem length_blank (n : Nat) : (blank n : Buf α).length = n := List.length_replicate

@[simp] theorem writeAt_nil (m : Buf α) (p : Nat) : writeAt m p [] = m := by
  simp [writeAt]

theorem length_writeAt {m : Buf α} {p : Nat} {l : List α} (h : p + l.length ≤ m.length) :
    (writeAt m p l).length = m.length := by
  simp only [writeAt, List.length_append, List.length_take, List.length_map, List.length_drop]
  omega

theorem getElem?_writeAt {m : Buf α} {p : Nat} {l : List α} (h : p + l.length ≤ m.length)
    (i : Nat) : (writeAt m p l)[i]? =
      if p ≤ i ∧ i < p + l.length then l[i - p]?.map some else m[i]? := by
  have hp : min p m.length = p := by omega
  simp only [writeAt, List.append_assoc]
  by_cases h1 : i < p
  · rw [List.getElem?_append_left (by rw [List.length_take]; omega), List.getElem?_take, if_pos h1,
      if_neg (by omega)]
  rw [List.getElem?_append_right (by rw [List.length_take]; omega), List.length_take, hp]
  by_cases h2 : i < p + l.length
  · rw [List.getElem?_append_left (by rw [List.length_map]; omega), List.getElem?_map,
      if_pos ⟨by omega, h2⟩]
  · rw [List.getElem?_append_right (by rw [List.length_map]; omega), List.length_map,
      List.getElem?_drop, if_neg (by omega)]
    congr 1; omega

theorem load_writeAt_in {m : Buf α} {p : Nat} {l : List α} (h : p + l.length ≤ m.length) {i : Nat}
    (hi : i < l.length) : load (writeAt m p l) (p + i) = l[i]? := by
  rw [load, getElem?_writeAt h, if_pos ⟨by omega, by omega⟩, Nat.add_sub_cancel_left,
    List.getElem?_eq_getElem hi]
  rfl

theorem store_eq {m : Buf α} {i : Nat} (h : i < m.length) (v : α) :
    store m i v = some (writeAt m i [v]) := by
  rw [store, if_pos h]
  congr 1
  refine List.ext_getElem? fun j => ?_
  rw [getElem?_writeAt (by simp only [List.length_singleton]; omega), List.getElem?_set]
  by_cases hj : i = j
  · subst hj; simp [h]
  · rw [if_neg hj, if_neg (by simp only [List.length_singleton]; omega)]

/-- A write that starts in an earlier one, or just after it, and reaches at least as far. -/
theorem writeAt_over {m : Buf α} {p q : Nat} {l r : List α} (hq : q ≤ l.length)
    (hlen : l.length ≤ q + r.length) (h : p + q + r.length ≤ m.length) :
    writeAt (writeAt m p l) (p + q) r = writeAt m p (l.take q ++ r) := by
  have hl : p + l.length ≤ m.length := by omega
  have htake : (l.take q).length = q := by rw [List.length_take]; omega
  have hlr : p + (l.take q ++ r).length ≤ m.length := by rw [List.length_append, htake]; omega
  refine List.ext_getElem? fun i => ?_
  rw [getElem?_writeAt (by rw [length_writeAt hl]; exact h), getElem?_writeAt hl,
    getElem?_writeAt hlr]
  simp only [List.length_append, htake]
  by_cases h1 : p + q ≤ i ∧ i < p + q + r.length
  · rw [if_pos h1, if_pos (by omega), List.getElem?_append_right (by omega), htake]
    congr 2; omega
  · rw [if_neg h1]
    by_cases h2 : p ≤ i ∧ i < p + q
    · rw [if_pos (by omega), if_pos (by omega), List.getElem?_append_left (by omega),
        List.getElem?_take, if_pos (by omega)]
    · rw [if_neg (by omega), if_neg (by omega)]

/-- Consecutive writes are one write. -/
theorem writeAt_append {m : Buf α} {p : Nat} {l r : List α}
    (h : p + l.length + r.length ≤ m.length) :
    writeAt (writeAt m p l) (p + l.length) r = writeAt m p (l ++ r) := by
  rw [writeAt_over (Nat.le_refl _) (Nat.le_add_right _ _) h, List.take_length]

/-- Adjacent writes in either order. -/
theorem writeAt_append_swap {m : Buf α} {p : Nat} {l r : List α}
    (h : p + l.length + r.length ≤ m.length) :
    writeAt (writeAt m (p + l.length) r) p l = writeAt m p (l ++ r) := by
  have hr : p + l.length + r.length ≤ m.length := h
  have hll : p + (l ++ r).length ≤ m.length := by rw [List.length_append]; omega
  refine List.ext_getElem? fun i => ?_
  rw [getElem?_writeAt (by rw [length_writeAt hr]; omega), getElem?_writeAt hr,
    getElem?_writeAt hll]
  simp only [List.length_append]
  by_cases h1 : p ≤ i ∧ i < p + l.length
  · rw [if_pos h1, if_pos (by omega), List.getElem?_append_left (by omega)]
  · rw [if_neg h1]
    by_cases h2 : p + l.length ≤ i ∧ i < p + l.length + r.length
    · rw [if_pos h2, if_pos (by omega), List.getElem?_append_right (by omega)]
      congr 2; omega
    · rw [if_neg h2, if_neg (by omega)]

theorem writeAt_snoc {m : Buf α} {p : Nat} {l : List α} (h : p + l.length < m.length) (v : α) :
    store (writeAt m p l) (p + l.length) v = some (writeAt m p (l ++ [v])) := by
  rw [store_eq (by rw [length_writeAt (by omega)]; exact h),
    writeAt_append (by simp only [List.length_singleton]; omega)]

/-- A write of the whole object. -/
theorem writeAt_whole {m : Buf α} {l : List α} (h : l.length = m.length) :
    writeAt m 0 l = l.map some := by
  rw [writeAt, List.take_zero, List.nil_append, List.drop_eq_nil_of_le (by omega),
    List.append_nil]

/-- A store at the last place of a written region, or just after it. -/
theorem store_over {m : Buf α} {p q : Nat} {l : List α} (hq : q ≤ l.length)
    (hlen : l.length ≤ q + 1) (h : p + q < m.length) (v : α) :
    store (writeAt m p l) (p + q) v = some (writeAt m p (l.take q ++ [v])) := by
  have hone : ([v] : List α).length = 1 := List.length_singleton
  rw [store_eq (by rw [length_writeAt (by omega)]; exact h), writeAt_over hq (by omega) (by omega)]

theorem length_store {m m' : Buf α} {i : Nat} {v : α} (h : store m i v = some m') :
    m'.length = m.length := by
  unfold store at h
  split at h
  · cases h
    exact List.length_set
  · cases h

theorem store_append {m m' : Buf α} {i : Nat} {v : α} (h : store m i v = some m') (e : Buf α) :
    store (m ++ e) i v = some (m' ++ e) := by
  unfold store at h ⊢
  split at h
  · next hi =>
    cases h
    rw [if_pos (by rw [List.length_append]; omega), List.set_append_left _ _ hi]
  · cases h

/-- The computation keeps the length of the object, and the cells after the object make no
difference to it. -/
def Local {β : Type} (f : Buf α → Option (β × Buf α)) : Prop :=
  ∀ ⦃m b m'⦄, f m = some (b, m') → m'.length = m.length ∧ ∀ e, f (m ++ e) = some (b, m' ++ e)

theorem Local.eq_ite {β : Type} {f : Buf α → Option (β × Buf α)} (hf : Local f) {p : Nat}
    {l : List α} {b : β} (hl : l ≠ [])
    (h : ∀ m, p + l.length ≤ m.length → f m = some (b, writeAt m p l)) (m : Buf α) :
    f m = if p + l.length ≤ m.length then some (b, writeAt m p l) else none := by
  split
  · next hm => exact h m hm
  · next hm =>
    have hpos := List.length_pos_iff.mpr hl
    rw [← Option.not_isSome_iff_eq_none, Option.isSome_iff_exists]
    rintro ⟨⟨b', m'⟩, hb⟩
    -- with more cells the last value would go to a cell that the run must not touch
    obtain ⟨hlen, hext⟩ := hf hb
    have hroom : p + l.length ≤ (m ++ (blank (p + l.length) : Buf α)).length := by
      rw [List.length_append, length_blank]
      omega
    have heq := (h _ hroom).symm.trans (hext (blank (p + l.length)))
    simp only [Option.some.injEq, Prod.mk.injEq] at heq
    have hlast := congrArg (load · (p + (l.length - 1))) heq.2
    rw [load_writeAt_in hroom (by omega), load, List.getElem?_append_right (by omega), blank,
      List.getElem?_replicate, if_pos (by omega), List.getElem?_eq_getElem (by omega)] at hlast
    cases hlast

theorem inits_append (l : List α) (m : Buf α) : inits (l.map some ++ m) = l ++ inits m := by
  induction l with
  | nil => rfl
  | cons a l ih => simp only [List.map_cons, List.cons_append, inits, ih]

theorem inits_map (l : List α) : inits (l.map some) = l := by
  have h := inits_append l []
  rw [List.append_nil] at h
  exact h.trans (List.append_nil l)

/-- The part of a written region from `i` on, with what is readable after it. -/
theorem inits_drop_writeAt {m : Buf α} {p : Nat} {l : List α} (h : p + l.length ≤ m.length)
    {i : Nat} (hi : i ≤ l.length) :
    inits ((writeAt m p l).drop (p + i)) = l.drop i ++ inits (m.drop (p + l.length)) := by
  have hp : (m.take p).length = p := by rw [List.length_take]; omega
  rw [writeAt, List.append_assoc, ← List.drop_drop, List.drop_left' hp,
    List.drop_append_of_le_length (by rwa [List.length_map]), ← List.map_drop, inits_append]

theorem inits_drop_blank (n k : Nat) : inits ((blank n : Buf α).drop k) = [] := by
  rw [blank, List.drop_replicate]
  cases n - k <;> rfl

section CString

variable [DecidableEq α] {z : α}

theorem cstring_append {l : List α} (h : z ∉ l) (m : Buf α) :
    cstring z (l.map some ++ some z :: m) = some l := by
  induction l with
  | nil => simp [cstring]
  | cons a l ih =>
    rw [List.mem_cons, not_or] at h
    obtain ⟨ha, hl⟩ := h
    simp only [List.map_cons, List.cons_append, cstring, if_neg (Ne.symm ha), ih hl,
      Option.map_some]

/-- A terminated write at the start of a buffer reads back. -/
theorem cstring_writeAt {l : List α} (h : z ∉ l) (m : Buf α) :
    cstring z (writeAt m 0 (l ++ [z])) = some l := by
  simp only [writeAt, List.take_zero, List.nil_append, List.map_append, List.map_cons, List.map_nil,
    List.append_assoc, List.cons_append]
  exact cstring_append h _

end CString

end Buf

end Interact
