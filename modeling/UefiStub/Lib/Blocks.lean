import Mathlib.Data.List.Perm.Basic
import Mathlib.Data.Set.Lattice
import Mathlib.Order.CompletePartialOrder

/-!
# Blocks of cells

An allocator hands out blocks of cells. `Partition cells base held live` says
that the cells in use are those of `base` and those of the live blocks, and
that no two of these overlap. It is kept where a block of unused cells is
acquired, and where a live block is released, whatever the order of the
releases.
-/

namespace Interact

variable {α β : Type} (cells : β → Set α)

/-- The cells of the blocks. -/
def covered (live : List β) : Set α := {c | ∃ b ∈ live, c ∈ cells b}

/-- The cells in use are the base and the live blocks, which do not overlap. -/
structure Partition (base held : Set α) (live : List β) : Prop where
  held_eq : held = base ∪ covered cells live
  apart : live.Pairwise fun b c => Disjoint (cells b) (cells c)
  outside : ∀ b ∈ live, Disjoint base (cells b)

variable {cells} {base held : Set α} {live live' : List β} {b : β}

theorem covered_nil : covered cells [] = ∅ := by
  ext c
  simp [covered]

theorem covered_cons : covered cells (b :: live) = cells b ∪ covered cells live := by
  ext c
  simp [covered]

theorem covered_perm (h : live.Perm live') : covered cells live = covered cells live' := by
  ext c
  simp only [covered, Set.mem_ofPred_eq, h.mem_iff]

namespace Partition

theorem nil (base : Set α) : Partition cells base base [] where
  held_eq := by rw [covered_nil, Set.union_empty]
  apart := .nil
  outside := fun b hb => absurd hb List.not_mem_nil

theorem subset (h : Partition cells base held live) (hb : b ∈ live) : cells b ⊆ held := by
  rw [h.held_eq]
  exact fun c hc => .inr ⟨b, hb, hc⟩

/-- A block of unused cells. -/
theorem acquire (h : Partition cells base held live) (hb : Disjoint held (cells b)) :
    Partition cells base (held ∪ cells b) (b :: live) where
  held_eq := by rw [covered_cons, h.held_eq, Set.union_assoc, Set.union_comm (cells b)]
  apart := .cons (fun c hc => (hb.mono_left (h.subset hc)).symm) h.apart
  outside := by
    rintro c hc
    rcases List.mem_cons.mp hc with rfl | hc
    · exact hb.mono_left (h.held_eq ▸ Set.subset_union_left)
    · exact h.outside c hc

theorem perm (h : Partition cells base held live) (hp : live.Perm live') :
    Partition cells base held live' where
  held_eq := by rw [h.held_eq, covered_perm hp]
  apart := (hp.pairwise_iff fun hd => hd.symm).mp h.apart
  outside := fun b hb => h.outside b (hp.mem_iff.mpr hb)

theorem release_head (h : Partition cells base held (b :: live)) :
    Partition cells base (held \ cells b) live where
  held_eq := by
    have hbase : Disjoint base (cells b) := h.outside b List.mem_cons_self
    have hlive : Disjoint (covered cells live) (cells b) := by
      rw [Set.disjoint_left]
      rintro c ⟨d, hd, hcd⟩ hcb
      exact Set.disjoint_left.mp (List.rel_of_pairwise_cons h.apart hd) hcb hcd
    rw [h.held_eq, covered_cons, Set.union_sdiff_distrib, Set.union_sdiff_distrib, Set.sdiff_self,
      Set.empty_union, hbase.sdiff_eq_left, hlive.sdiff_eq_left]
  apart := h.apart.of_cons
  outside := fun c hc => h.outside c (List.mem_cons_of_mem b hc)

/-- Any live block. -/
theorem release [DecidableEq β] (h : Partition cells base held live) (hb : b ∈ live) :
    Partition cells base (held \ cells b) (live.erase b) :=
  (h.perm (List.perm_cons_erase hb)).release_head

end Partition

end Interact
