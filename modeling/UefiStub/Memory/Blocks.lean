import Mathlib.Order.Interval.Set.Basic
import UefiStub.Lib.Blocks
import UefiStub.Memory.Pages

/-!
# Blocks of pages

`efi_free_memory_pages` is told the size that was allocated and computes the
page count again, by another formula. The two counts agree for every size, also
where rounding up wraps (`align_shift`), so each run of pages goes back as it
was given. `heldPages used tr` are the page numbers in use after the history
`tr`, when those in `used` were before. A `PageStep` is a call of either
function; whatever the order of the calls, the pages in use are those of
`used` and of the blocks not yet freed (`PageInv.of_steps`).
-/

namespace UefiStub

open Interact

theorem align_shift (size : U64) :
    Align.align size efiPageSize >>> efiPageShift = Align.alignDiv size efiPageSize := by
  apply BitVec.eq_of_toNat_eq
  rw [toNat_pages, efiPageSize_eq, BitVec.toNat_ushiftRight, Nat.shiftRight_eq_div_pow,
    Align.toNat_align (by decide)]
  exact Nat.mul_div_cancel _ (by decide)

/-- The page counts that a history asks `allocate_pages` for. -/
def requested (tr : Trace) : List U64 :=
  tr.filterMap fun e => match e.1 with
    | .allocatePages _ _ pages _ => some pages
    | _ => none

/-- The page counts that a history gives back through `free_pages`. -/
def returned (tr : Trace) : List U64 :=
  tr.filterMap fun e => match e.1 with
    | .freePages _ pages => some pages
    | _ => none

/-- The numbers of the pages of a run. -/
def pageRange (addr pages : U64) : Set Nat :=
  Set.Ico (addr.toNat / 2 ^ 12) (addr.toNat / 2 ^ 12 + pages.toNat)

/-- What a call does to the pages in use. -/
def pageEffect (held : Set Nat) : Event Op Op.Ans → Set Nat
  | ⟨.allocatePages _ _ pages _, (status, addr)⟩ =>
    if status = efiSuccess then held ∪ pageRange addr pages else held
  | ⟨.freePages memory pages, status⟩ =>
    if status = efiSuccess then held \ pageRange memory pages else held
  | _ => held

def heldPages (used : Set Nat) (tr : Trace) : Set Nat := tr.foldl pageEffect used

/-- `allocate_pages` gives a page-aligned run of pages that are not in use, and `free_pages`
succeeds on a run of pages in use. -/
def PagesHonoured (used : Set Nat) (tr : Trace) : (o : Op) → o.Ans → Prop
  | .allocatePages _ _ pages _, (status, addr) => status = efiSuccess →
    2 ^ 12 ∣ addr.toNat ∧ Disjoint (heldPages used tr) (pageRange addr pages)
  | .freePages memory pages, status =>
    2 ^ 12 ∣ memory.toNat → 0 < pages → pageRange memory pages ⊆ heldPages used tr →
      status = efiSuccess
  | _, _ => True

/-- What a caller of `efi_allocate_memory_pages` keeps to free the pages later. -/
structure PageBlock where
  size : U64
  physAddr : U64
  deriving DecidableEq

def PageBlock.pages (b : PageBlock) : Set Nat :=
  pageRange b.physAddr (Align.alignDiv b.size efiPageSize)

/-- A call of either function, with the blocks not yet freed. -/
inductive PageStep (used : Set Nat) : List PageBlock × Trace → List PageBlock × Trace → Prop where
  | allocate {live : List PageBlock} {tr tr' : Trace} {size physAddr belowAddr addr : U64}
      (h : Reach (Recorded (PagesHonoured used))
        (efiAllocateMemoryPages size physAddr belowAddr, tr) (.ret (efiSuccess, addr), tr')) :
      PageStep used (live, tr) (⟨size, addr⟩ :: live, tr')
  | refused {live : List PageBlock} {tr tr' : Trace} {size physAddr belowAddr addr : U64}
      {status : Status} (hs : status ≠ efiSuccess)
      (h : Reach (Recorded (PagesHonoured used))
        (efiAllocateMemoryPages size physAddr belowAddr, tr) (.ret (status, addr), tr')) :
      PageStep used (live, tr) (live, tr')
  | free {live : List PageBlock} {tr tr' : Trace} {b : PageBlock} (hb : b ∈ live)
      (h : Reach (Recorded (PagesHonoured used)) (efiFreeMemoryPages b.size b.physAddr, tr)
        (.ret (), tr')) :
      PageStep used (live, tr) (live.erase b, tr')

/-- The pages in use, and that each block starts at a page. -/
structure PageInv (used : Set Nat) (c : List PageBlock × Trace) : Prop where
  partition : Partition PageBlock.pages used (heldPages used c.2) c.1
  aligned : ∀ b ∈ c.1, 2 ^ 12 ∣ b.physAddr.toNat

section Blocks

variable {A : Trace → (o : Op) → o.Ans → Prop} {used : Set Nat} {tr tr' : Trace}
  {size physAddr belowAddr addr : U64} {status : Status}

@[simp] theorem heldPages_snoc (used : Set Nat) (tr : Trace) (e : Event Op Op.Ans) :
    heldPages used (tr ++ [e]) = pageEffect (heldPages used tr) e := by
  unfold heldPages
  rw [List.foldl_append]
  rfl

theorem alignDiv_zero : Align.alignDiv 0 efiPageSize = 0 := by decide

theorem pageRange_zero (addr : U64) : pageRange addr 0 = ∅ := by
  unfold pageRange
  exact Set.Ico_self _

/-- The one call of `efi_allocate_memory_pages`. -/
theorem reach_efiAllocateMemoryPages (h : Reach (Recorded A)
    (efiAllocateMemoryPages size physAddr belowAddr, tr) (.ret (status, addr), tr')) :
    ∃ type limit addr', tr' = tr ++ [⟨.allocatePages efiAllocateMaxAddress type
        (Align.alignDiv size efiPageSize) limit, (status, addr')⟩] ∧
      A tr (.allocatePages efiAllocateMaxAddress type (Align.alignDiv size efiPageSize) limit)
        (status, addr') ∧ (status = efiSuccess → addr = addr') := by
  have hsafe : Safe (Recorded A) (fun _ _ => True) (fun r tr' =>
      ∃ type limit addr', tr' = tr ++ [⟨.allocatePages efiAllocateMaxAddress type
          (Align.alignDiv size efiPageSize) limit, (r.1, addr')⟩] ∧
        A tr (.allocatePages efiAllocateMaxAddress type (Align.alignDiv size efiPageSize) limit)
          (r.1, addr') ∧ (r.1 = efiSuccess → r.2 = addr'))
      (efiAllocateMemoryPages size physAddr belowAddr) tr := by
    unfold efiAllocateMemoryPages
    refine .op_bind trivial fun ⟨status, addr'⟩ hA => ?_
    dsimp only
    by_cases hs : status = efiSuccess
    · subst hs
      rw [if_neg fun h => h rfl]
      exact .ret ⟨_, _, _, rfl, hA, fun _ => rfl⟩
    · rw [if_pos hs]
      exact .ret ⟨_, _, _, rfl, hA, fun h => absurd h hs⟩
  exact Safe.ret_iff.mp (hsafe.of_reach h)

/-- The call of `efi_free_memory_pages`, if there is one. -/
theorem reach_efiFreeMemoryPages (h : Reach (Recorded A) (efiFreeMemoryPages size physAddr, tr)
    (.ret (), tr')) :
    size = 0 ∧ tr' = tr ∨ size ≠ 0 ∧ ∃ status,
      tr' = tr ++ [⟨.freePages physAddr (Align.alignDiv size efiPageSize), status⟩] ∧
        A tr (.freePages physAddr (Align.alignDiv size efiPageSize)) status := by
  have hsafe : Safe (Recorded A) (fun _ _ => True) (fun _ tr' =>
      size = 0 ∧ tr' = tr ∨ size ≠ 0 ∧ ∃ status,
        tr' = tr ++ [⟨.freePages physAddr (Align.alignDiv size efiPageSize), status⟩] ∧
          A tr (.freePages physAddr (Align.alignDiv size efiPageSize)) status)
      (efiFreeMemoryPages size physAddr) tr := by
    unfold efiFreeMemoryPages
    rw [align_shift]
    by_cases h0 : size = 0
    · rw [if_pos h0]
      exact .ret (.inl ⟨h0, rfl⟩)
    · rw [if_neg h0]
      exact .op_bind trivial fun status hA => .ret (.inr ⟨h0, status, rfl, hA⟩)
  cases hsafe.of_reach h with
  | ret h => exact h

namespace PageInv

variable {c c' : List PageBlock × Trace} {live : List PageBlock} {b : PageBlock}

theorem nil (used : Set Nat) : PageInv used ([], []) where
  partition := .nil used
  aligned := fun _ hb => absurd hb List.not_mem_nil

theorem allocate (hI : PageInv used (live, tr)) (h : Reach (Recorded (PagesHonoured used))
    (efiAllocateMemoryPages size physAddr belowAddr, tr) (.ret (efiSuccess, addr), tr')) :
    PageInv used (⟨size, addr⟩ :: live, tr') := by
  obtain ⟨type, limit, addr', rfl, hA, haddr⟩ := reach_efiAllocateMemoryPages h
  obtain rfl : addr = addr' := haddr rfl
  obtain ⟨hdvd, hfresh⟩ := hA rfl
  have hblock : Disjoint (heldPages used tr) (PageBlock.mk size addr).pages := hfresh
  constructor
  · rw [heldPages_snoc]
    exact hI.partition.acquire hblock
  · rintro b hb
    rcases List.mem_cons.mp hb with rfl | hb
    · exact hdvd
    · exact hI.aligned b hb

theorem refused (hI : PageInv used (live, tr)) (hs : status ≠ efiSuccess)
    (h : Reach (Recorded (PagesHonoured used))
      (efiAllocateMemoryPages size physAddr belowAddr, tr) (.ret (status, addr), tr')) :
    PageInv used (live, tr') := by
  obtain ⟨type, limit, addr', rfl, -, -⟩ := reach_efiAllocateMemoryPages h
  refine ⟨?_, hI.aligned⟩
  rw [heldPages_snoc, pageEffect, if_neg hs]
  exact hI.partition

theorem free (hI : PageInv used (live, tr)) (hb : b ∈ live)
    (h : Reach (Recorded (PagesHonoured used)) (efiFreeMemoryPages b.size b.physAddr, tr)
      (.ret (), tr')) : PageInv used (live.erase b, tr') := by
  have hrel := hI.partition.release hb
  refine ⟨?_, fun d hd => hI.aligned d (List.mem_of_mem_erase hd)⟩
  by_cases hpages : Align.alignDiv b.size efiPageSize = 0
  · -- nothing to free, whatever `free_pages` answers
    have hempty : b.pages = ∅ := by
      unfold PageBlock.pages
      rw [hpages, pageRange_zero]
    rw [hempty, Set.sdiff_empty] at hrel
    rcases reach_efiFreeMemoryPages h with ⟨-, rfl⟩ | ⟨-, status, rfl, -⟩
    · exact hrel
    · have hkept : heldPages used tr \ b.pages = heldPages used tr := by
        rw [hempty, Set.sdiff_empty]
      rw [heldPages_snoc]
      by_cases hs : status = efiSuccess
      · rw [pageEffect, if_pos hs]
        exact hkept.symm ▸ hrel
      · rw [pageEffect, if_neg hs]
        exact hrel
  · rcases reach_efiFreeMemoryPages h with ⟨h0, -⟩ | ⟨-, status, rfl, hA⟩
    · rw [h0] at hpages
      exact absurd alignDiv_zero hpages
    · have hs : status = efiSuccess := hA (hI.aligned b hb)
        ((BitVec.pos_iff_ne_zero _).mpr hpages) (hI.partition.subset hb)
      rw [heldPages_snoc, pageEffect, if_pos hs]
      exact hrel

theorem step (hI : PageInv used c) (h : PageStep used c c') : PageInv used c' := by
  cases h with
  | allocate h => exact hI.allocate h
  | refused hs h => exact hI.refused hs h
  | free hb h => exact hI.free hb h

theorem of_steps (h : Relation.ReflTransGen (PageStep used) ([], []) c) : PageInv used c := by
  induction h with
  | refl => exact .nil used
  | tail _ hs ih => exact ih.step hs

end PageInv

/-- **Pages go back as they were given.** The two functions give the firmware the same page count,
and in every sequence of their calls exactly the pages of the blocks not yet freed are in use. -/
theorem pages_balanced (h : 0 < size) :
    (∀ physAddr belowAddr r tr, Reach History (efiAllocateMemoryPages size physAddr belowAddr, [])
        (.ret r, tr) → requested tr = [Align.alignDiv size efiPageSize]) ∧
      (∀ physAddr tr, Reach History (efiFreeMemoryPages size physAddr, []) (.ret (), tr) →
        returned tr = [Align.alignDiv size efiPageSize]) ∧
      ∀ used live tr, Relation.ReflTransGen (PageStep used) ([], []) (live, tr) →
        Partition PageBlock.pages used (heldPages used tr) live := by
  refine ⟨fun physAddr belowAddr r tr hr => ?_, fun physAddr tr hr => ?_,
    fun used live tr hr => (PageInv.of_steps hr).partition⟩
  · obtain ⟨type, limit, addr', rfl, -, -⟩ := reach_efiAllocateMemoryPages hr
    rfl
  · rcases reach_efiFreeMemoryPages hr with ⟨rfl, -⟩ | ⟨-, status, rfl, -⟩
    · exact absurd h (by decide)
    · rfl

/-- One byte, and the last size, where rounding up wraps. -/
theorem pages_balanced_byte :
    (∀ physAddr belowAddr r tr, Reach History (efiAllocateMemoryPages 1 physAddr belowAddr, [])
        (.ret r, tr) → requested tr = [1]) ∧
      (∀ physAddr tr, Reach History (efiFreeMemoryPages 1 physAddr, []) (.ret (), tr) →
        returned tr = [1]) ∧
      (∀ physAddr tr, Reach History (efiFreeMemoryPages (-1) physAddr, []) (.ret (), tr) →
        returned tr = [0]) :=
  have h := @pages_balanced 1 (by decide)
  have hmax := @pages_balanced (-1) (by decide)
  ⟨h.1, h.2.1, hmax.2.1⟩

end Blocks

end UefiStub
