import Mathlib.Data.List.Basic

/-!
# Reading a text back

A text that is put together from parts can be taken apart again where the
parts show their ends: a part whose elements all have a property ends where the
next element does not have it (`append_inj_of_boundary`), and lines end at
their only terminator (`flatten_lines_inj`).
-/

namespace Interact

variable {α : Type}

theorem append_inj_of_boundary {P : α → Prop} {a b s t : List α} (ha : ∀ x ∈ a, P x)
    (hb : ∀ x ∈ b, P x) (hs : ∀ x ∈ s.head?, ¬P x) (ht : ∀ x ∈ t.head?, ¬P x)
    (h : a ++ s = b ++ t) : a = b ∧ s = t := by
  induction a generalizing b with
  | nil => cases b with
    | nil => exact ⟨rfl, h⟩
    | cons y b =>
      rw [List.nil_append] at h
      exact absurd (hb y List.mem_cons_self) (hs y (by rw [h]; rfl))
  | cons x a ih => cases b with
    | nil =>
      rw [List.nil_append] at h
      exact absurd (ha x List.mem_cons_self) (ht x (by rw [← h]; rfl))
    | cons y b =>
      rw [List.cons_append, List.cons_append, List.cons.injEq] at h
      obtain ⟨rfl, h⟩ := h
      obtain ⟨rfl, hst⟩ := ih (fun z hz => ha z (List.mem_cons_of_mem _ hz))
        (fun z hz => hb z (List.mem_cons_of_mem _ hz)) h
      exact ⟨rfl, hst⟩

/-- The terminator `nl` is the last element and no other. -/
def IsLine (nl : α) (l : List α) : Prop := ∃ a, nl ∉ a ∧ l = a ++ [nl]

theorem IsLine.append_inj {nl : α} {l l' s t : List α} (h : IsLine nl l) (h' : IsLine nl l')
    (heq : l ++ s = l' ++ t) : l = l' ∧ s = t := by
  obtain ⟨a, ha, rfl⟩ := h
  obtain ⟨b, hb, rfl⟩ := h'
  rw [List.append_assoc, List.append_assoc] at heq
  obtain ⟨rfl, hst⟩ := append_inj_of_boundary (P := fun x => x ≠ nl)
    (fun x hx => ne_of_mem_of_not_mem hx ha) (fun x hx => ne_of_mem_of_not_mem hx hb)
    (fun x hx => by cases hx; exact fun hne => hne rfl)
    (fun x hx => by cases hx; exact fun hne => hne rfl) heq
  exact ⟨rfl, List.append_cancel_left hst⟩

/-- Lines are determined by their concatenation. -/
theorem flatten_lines_inj {nl : α} {ls ls' : List (List α)} (h : ∀ l ∈ ls, IsLine nl l)
    (h' : ∀ l ∈ ls', IsLine nl l) (heq : ls.flatten = ls'.flatten) : ls = ls' := by
  have hne {l : List α} {s : List α} (hl : IsLine nl l) (hnil : [] = l ++ s) : False := by
    obtain ⟨a, -, rfl⟩ := hl
    simp at hnil
  induction ls generalizing ls' with
  | nil => cases ls' with
    | nil => rfl
    | cons l' ls' => exact (hne (h' l' List.mem_cons_self) heq).elim
  | cons l ls ih => cases ls' with
    | nil => exact (hne (h l List.mem_cons_self) heq.symm).elim
    | cons l' ls' =>
      rw [List.flatten_cons, List.flatten_cons] at heq
      obtain ⟨rfl, hrest⟩ := (h l List.mem_cons_self).append_inj (h' l' List.mem_cons_self) heq
      rw [ih (fun l hl => h l (List.mem_cons_of_mem _ hl))
        (fun l hl => h' l (List.mem_cons_of_mem _ hl)) hrest]

end Interact
