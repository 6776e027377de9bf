import Mathlib.Data.List.MinMax

/-!
# Keeping the greatest

A scan that replaces what it holds only by something greater ends with what it
started with or with an element of the list, and nothing in the list is
greater than what it ends with. It is the `List.argmax` of all it has seen, and
so the first of the greatest.

A scan that stops at the first preferred element and falls back on the first
usable one is two searches in one pass (`scanPrefer_eq`).
-/

namespace Interact

variable {α κ : Type} [LinearOrder κ] (key : α → κ)

/-- The greater of the two; the held one on a tie. -/
def keepMax (held next : α) : α := if key held < key next then next else held

/-- The scan is the `argmax` of the start and the list. -/
theorem scan_mem_argmax (l : List α) (a : α) :
    l.foldl (keepMax key) a ∈ (a :: l).argmax key := by
  change _ ∈ l.foldl (List.argAux fun b c => key c < key b) (some a)
  induction l generalizing a with
  | nil => rfl
  | cons b l ih =>
    have hstep : List.argAux (fun b c => key c < key b) (some a) b = some (keepMax key a b) := by
      unfold keepMax
      split
      · exact if_pos ‹_›
      · exact if_neg ‹_›
    rw [List.foldl_cons, List.foldl_cons, hstep]
    exact ih _

/-- Nothing scanned is greater than the result. -/
theorem key_scan_mem {l : List α} {b : α} (hb : b ∈ l) (a : α) :
    key b ≤ key (l.foldl (keepMax key) a) :=
  List.le_of_mem_argmax (List.mem_cons_of_mem a hb) (scan_mem_argmax key l a)

/-- In a sorted list the result comes before all that is as great. -/
theorem scan_first {r : α → α → Prop} {l : List α} {a b : α} (hr : (a :: l).Pairwise r)
    (hb : b ∈ a :: l) (hle : key (l.foldl (keepMax key) a) ≤ key b) :
    l.foldl (keepMax key) a = b ∨ r (l.foldl (keepMax key) a) b := by
  classical
  have hmax := scan_mem_argmax key l a
  have hmem := List.argmax_mem hmax
  have hidx := List.index_of_argmax hmax hb hle
  have hi := List.idxOf_lt_length_iff.mpr hmem
  have hj := List.idxOf_lt_length_iff.mpr hb
  rcases Nat.lt_or_eq_of_le hidx with hlt | heq
  · have h := List.pairwise_iff_getElem.mp hr _ _ hi hj hlt
    rw [List.getElem_idxOf, List.getElem_idxOf] at h
    exact .inr h
  · exact .inl (List.idxOf_inj hmem |>.mp heq)

/-- The result is the start or was scanned and is greater. -/
theorem scan_eq_or_mem (l : List α) (a : α) : l.foldl (keepMax key) a = a ∨
    l.foldl (keepMax key) a ∈ l ∧ key a < key (l.foldl (keepMax key) a) := by
  induction l generalizing a with
  | nil => exact .inl rfl
  | cons b l ih =>
    rw [List.foldl_cons]
    by_cases hab : key a < key b
    · have hk : keepMax key a b = b := if_pos hab
      rw [hk]
      refine .inr ?_
      rcases ih b with h | ⟨hmem, hlt⟩
      · rw [h]; exact ⟨List.mem_cons_self, hab⟩
      · exact ⟨List.mem_cons_of_mem _ hmem, lt_trans hab hlt⟩
    · have hk : keepMax key a b = a := if_neg hab
      rw [hk]
      exact (ih a).imp id fun ⟨hmem, hlt⟩ => ⟨List.mem_cons_of_mem _ hmem, hlt⟩

/-! ## Two preferences -/

section Prefer

variable {α : Type} (usable preferred : α → Prop) [DecidablePred usable] [DecidablePred preferred]

/-- Stops at a usable element that is preferred, and holds the first usable one. -/
def scanPrefer : List α → Option α → Option α
  | [], held => held
  | a :: l, held =>
    if usable a then if preferred a then some a else scanPrefer l (held.or (some a))
    else scanPrefer l held

theorem scanPrefer_eq (l : List α) (held : Option α) : scanPrefer usable preferred l held =
    (l.find? fun a => usable a ∧ preferred a).or (held.or (l.find? fun a => usable a)) := by
  induction l generalizing held with
  | nil => cases held <;> rfl
  | cons a l ih =>
    unfold scanPrefer
    by_cases hu : usable a
    · by_cases hp : preferred a
      · simp [hu, hp]
      · rw [if_pos hu, if_neg hp, ih]
        cases held <;> simp [hu, hp]
    · rw [if_neg hu, ih]
      simp [hu]

/-- A usable element is found if there is one. -/
theorem scanPrefer_none {l : List α} :
    scanPrefer usable preferred l none = none ↔ ∀ a ∈ l, ¬usable a := by
  rw [scanPrefer_eq, Option.none_or, Option.or_eq_none_iff, List.find?_eq_none, List.find?_eq_none]
  simp only [decide_eq_true_eq]
  exact ⟨fun h => h.2, fun h => ⟨fun a ha hp => h a ha hp.1, h⟩⟩

theorem usable_of_scanPrefer {l : List α} {a : α}
    (h : scanPrefer usable preferred l none = some a) : usable a := by
  rw [scanPrefer_eq, Option.none_or, Option.or_eq_some_iff] at h
  rcases h with h | ⟨-, h⟩
  · have ha := List.find?_some h
    exact (of_decide_eq_true ha).1
  · have ha := List.find?_some h
    exact of_decide_eq_true ha

/-- What is not usable does not count. -/
theorem scanPrefer_filter (l : List α) (held : Option α) :
    scanPrefer usable preferred (l.filter fun a => usable a) held =
      scanPrefer usable preferred l held := by
  rw [scanPrefer_eq, scanPrefer_eq, List.find?_filter, List.find?_filter]
  simp

/-- The first element with a property. -/
def FirstWith (P : α → Prop) (l : List α) (a : α) : Prop :=
  ∃ pre post, l = pre ++ a :: post ∧ P a ∧ ∀ b ∈ pre, ¬P b

theorem FirstWith.find? {P : α → Prop} [DecidablePred P] {l : List α} {a : α}
    (h : FirstWith P l a) : l.find? (fun b => P b) = some a := by
  obtain ⟨pre, post, rfl, ha, hpre⟩ := h
  refine List.find?_eq_some_iff_append.mpr ⟨decide_eq_true ha, pre, post, rfl, fun b hb => ?_⟩
  simp [hpre b hb]

end Prefer

end Interact
