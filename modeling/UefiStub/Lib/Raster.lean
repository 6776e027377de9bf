import Mathlib.Data.List.Range

/-!
# Cells in rows

Rows of `w` cells, each of `cell` bytes, one row every `stride` bytes. The
cells are apart and inside `h` rows exactly if a row of them is no longer than
the stride (`cells_apart`, `cell_end_le`, `stride_of_last`).
-/

namespace Interact

/-- The cells `(x, y)`, row by row. -/
def cells (w h : Nat) : List (Nat × Nat) :=
  (List.range h).flatMap fun y => (List.range w).map fun x => (x, y)

/-- Where a cell starts. -/
def cellOffset (stride cell : Nat) (p : Nat × Nat) : Nat := stride * p.2 + cell * p.1

variable {stride cell w h : Nat} {p q : Nat × Nat}

theorem mem_cells : p ∈ cells w h ↔ p.1 < w ∧ p.2 < h := by
  simp only [cells, List.mem_flatMap, List.mem_map, List.mem_range]
  constructor
  · rintro ⟨y, hy, x, hx, rfl⟩
    exact ⟨hx, hy⟩
  · rintro ⟨hx, hy⟩
    exact ⟨p.2, hy, p.1, hx, rfl⟩

/-- Where the next cell of the row would start. -/
theorem cell_end_le_row (hs : cell * w ≤ stride) (hx : p.1 < w) :
    cellOffset stride cell p + cell ≤ stride * (p.2 + 1) := by
  have hrow : cell * (p.1 + 1) ≤ cell * w := Nat.mul_le_mul_left _ hx
  rw [Nat.mul_add_one] at hrow
  rw [cellOffset, Nat.mul_add_one]
  omega

theorem cell_end_le (hs : cell * w ≤ stride) (hp : p ∈ cells w h) :
    cellOffset stride cell p + cell ≤ stride * h := by
  obtain ⟨hx, hy⟩ := mem_cells.mp hp
  exact Nat.le_trans (cell_end_le_row hs hx) (Nat.mul_le_mul_left _ hy)

theorem row_le_cellOffset (y : Nat) (hy : y ≤ p.2) : stride * y ≤ cellOffset stride cell p :=
  Nat.le_trans (Nat.mul_le_mul_left _ hy) (Nat.le_add_right ..)

theorem cells_apart (hs : cell * w ≤ stride) (hp : p ∈ cells w h) (hq : q ∈ cells w h)
    (hne : p ≠ q) : cellOffset stride cell p + cell ≤ cellOffset stride cell q ∨
      cellOffset stride cell q + cell ≤ cellOffset stride cell p := by
  have hpx := (mem_cells.mp hp).1
  have hqx := (mem_cells.mp hq).1
  rcases Nat.lt_trichotomy p.2 q.2 with hy | hy | hy
  · exact .inl (Nat.le_trans (cell_end_le_row hs hpx) (row_le_cellOffset _ hy))
  · -- the same row
    rcases Nat.lt_trichotomy p.1 q.1 with hx | hx | hx
    · have := Nat.mul_le_mul_left cell (show p.1 + 1 ≤ q.1 from hx)
      rw [Nat.mul_add_one] at this
      left; rw [cellOffset, cellOffset, hy]; omega
    · exact absurd (Prod.ext hx hy) hne
    · have := Nat.mul_le_mul_left cell (show q.1 + 1 ≤ p.1 from hx)
      rw [Nat.mul_add_one] at this
      right; rw [cellOffset, cellOffset, hy]; omega
  · exact .inr (Nat.le_trans (cell_end_le_row hs hqx) (row_le_cellOffset _ hy))

/-- The last cell starts last. -/
theorem cellOffset_le_last (stride cell : Nat) (hp : p ∈ cells w h) :
    cellOffset stride cell p ≤ cellOffset stride cell (w - 1, h - 1) := by
  obtain ⟨hx, hy⟩ := mem_cells.mp hp
  exact Nat.add_le_add (Nat.mul_le_mul_left _ (by change _ ≤ h - 1; omega))
    (Nat.mul_le_mul_left _ (by change _ ≤ w - 1; omega))

/-- If the last cell ends inside the rows, a row is no longer than the stride. -/
theorem stride_of_last (hw : 0 < w) (hh : 0 < h)
    (hend : cellOffset stride cell (w - 1, h - 1) + cell ≤ stride * h) : cell * w ≤ stride := by
  obtain ⟨w, rfl⟩ := Nat.exists_eq_succ_of_ne_zero hw.ne'
  obtain ⟨h, rfl⟩ := Nat.exists_eq_succ_of_ne_zero hh.ne'
  simp only [cellOffset, Nat.succ_sub_one, Nat.mul_succ] at hend
  rw [Nat.mul_succ]
  omega

end Interact
