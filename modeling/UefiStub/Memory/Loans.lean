import UefiStub.Memory.Blocks

/-!
# Bytes on loan

What callers of the two page functions may rely on together. A `Loan` is a block
of pages with the address it was to stay below. Firmware gives runs that are not
in use, at or below the address it is told, and takes runs back; where there is a
page below that address and the size can be rounded up (`Asked`), the
bytes of the loans do not overlap, whatever the order of the calls.
-/

namespace UefiStub

open Interact

/-- `allocate_pages` gives a run of pages that are not in use, as high as it is told. -/
def PagesLent (used : Set Nat) (tr : Trace) (o : Op) (x : o.Ans) : Prop :=
  PagesHonoured used tr o x ∧ PagesContract tr o x

structure Loan where
  block : PageBlock
  belowAddr : U64
  deriving DecidableEq

namespace Loan

/-- What the caller asked for. -/
def bytes (l : Loan) : Set Nat :=
  Set.Ico l.block.physAddr.toNat (l.block.physAddr.toNat + l.block.size.toNat)

/-- There is a page below the address, and rounding the size up does not wrap. -/
structure Asked (size belowAddr : U64) : Prop where
  below : 2 ^ 12 ≤ belowAddr.toNat
  size : size.toNat + 4095 < 2 ^ 64

/-- The pages hold the bytes and lie below the address. -/
structure Fits (l : Loan) : Prop where
  holds : l.block.size.toNat ≤ (Align.alignDiv l.block.size efiPageSize).toNat * 2 ^ 12
  below : l.block.physAddr.toNat + (Align.alignDiv l.block.size efiPageSize).toNat * 2 ^ 12 ≤
    l.belowAddr.toNat

variable {l : Loan}

/-- A byte of a loan is in one of its pages. -/
theorem Fits.page_mem (h : l.Fits) (ha : 2 ^ 12 ∣ l.block.physAddr.toNat) {b : Nat}
    (hb : b ∈ l.bytes) : b / 2 ^ 12 ∈ l.block.pages := by
  have hholds := h.holds
  obtain ⟨hfirst, hlast⟩ := hb
  obtain ⟨q, hq⟩ := ha
  refine ⟨?_, ?_⟩
  · exact Nat.div_le_div_right hfirst
  · have hpage : l.block.physAddr.toNat / 2 ^ 12 = q := by omega
    rw [hpage]
    omega

end Loan

/-- A call of either function, with the loans that have not been given back. -/
inductive LoanStep (used : Set Nat) : List Loan × Trace → List Loan × Trace → Prop where
  | allocate {loans : List Loan} {tr tr' : Trace} {size physAddr belowAddr addr : U64}
      (hask : Loan.Asked size belowAddr)
      (h : Reach (Recorded (PagesLent used)) (efiAllocateMemoryPages size physAddr belowAddr, tr)
        (.ret (efiSuccess, addr), tr')) :
      LoanStep used (loans, tr) (⟨⟨size, addr⟩, belowAddr⟩ :: loans, tr')
  | refused {loans : List Loan} {tr tr' : Trace} {size physAddr belowAddr addr : U64}
      {status : Status} (hs : status ≠ efiSuccess)
      (h : Reach (Recorded (PagesLent used)) (efiAllocateMemoryPages size physAddr belowAddr, tr)
        (.ret (status, addr), tr')) :
      LoanStep used (loans, tr) (loans, tr')
  | free {loans : List Loan} {tr tr' : Trace} {l : Loan} (hl : l ∈ loans)
      (h : Reach (Recorded (PagesLent used))
        (efiFreeMemoryPages l.block.size l.block.physAddr, tr) (.ret (), tr')) :
      LoanStep used (loans, tr) (loans.erase l, tr')

/-- The blocks keep their pages, and every loan fits. -/
structure LoanInv (used : Set Nat) (c : List Loan × Trace) : Prop where
  pages : PageInv used (c.1.map Loan.block, c.2)
  fits : ∀ l ∈ c.1, l.Fits

section Loans

variable {used : Set Nat} {tr tr' : Trace} {loans : List Loan} {c c' : List Loan × Trace}
  {size physAddr belowAddr addr : U64} {l : Loan} {α : Type} {p p' : Uefi α}

theorem reach_honoured (h : Reach (Recorded (PagesLent used)) (p, tr) (p', tr')) :
    Reach (Recorded (PagesHonoured used)) (p, tr) (p', tr') := h.mono fun _ _ _ hx => hx.1

/-- What is delivered fits. -/
theorem fits_of_reach (hask : Loan.Asked size belowAddr) (h : Reach (Recorded (PagesLent used))
    (efiAllocateMemoryPages size physAddr belowAddr, tr) (.ret (efiSuccess, addr), tr')) :
    (Loan.mk ⟨size, addr⟩ belowAddr).Fits := by
  obtain ⟨es, -, hr⟩ : ∃ es, tr' = tr ++ es ∧ Reach (Recorded PagesContract)
      (efiAllocateMemoryPages size physAddr belowAddr, []) (.ret (efiSuccess, addr), es) :=
    h.behind fun _ _ _ hx => hx.2
  have hdelivered : PagesDelivered size physAddr belowAddr (efiSuccess, addr) es :=
    Safe.ret_iff.mp ((safe_efiAllocateMemoryPages physAddr hask.below hask.size).of_reach hr)
  obtain ⟨type, pages, limit, hes, hholds, hbelow⟩ := hdelivered.1 rfl
  obtain ⟨type', limit', addr', hes', -, -⟩ := reach_efiAllocateMemoryPages hr
  rw [hes] at hes'
  cases hes'
  exact ⟨hholds, hbelow⟩

namespace LoanInv

theorem step (hI : LoanInv used c) (h : LoanStep used c c') : LoanInv used c' := by
  cases h with
  | @allocate loans tr tr' size physAddr belowAddr addr hask h =>
    refine ⟨hI.pages.allocate (reach_honoured h), fun l hl => ?_⟩
    rcases List.mem_cons.mp hl with rfl | hl
    · exact fits_of_reach hask h
    · exact hI.fits l hl
  | refused hs h => exact ⟨hI.pages.refused hs (reach_honoured h), hI.fits⟩
  | @free loans tr tr' l hl h =>
    have hfree := hI.pages.free (List.mem_map_of_mem hl) (reach_honoured h)
    have hperm : ((loans.map Loan.block).erase l.block).Perm ((loans.erase l).map Loan.block) := by
      have hmap := ((List.perm_cons_erase hl).map Loan.block).erase l.block
      rwa [List.map_cons, List.erase_cons_head] at hmap
    exact ⟨⟨hfree.partition.perm hperm, fun b hb => hfree.aligned b (hperm.mem_iff.mpr hb)⟩,
      fun d hd => hI.fits d (List.mem_of_mem_erase hd)⟩

theorem of_steps (h : Relation.ReflTransGen (LoanStep used) ([], []) c) : LoanInv used c := by
  induction h with
  | refl => exact ⟨.nil used, fun l hl => absurd hl List.not_mem_nil⟩
  | tail _ hs ih => exact ih.step hs

/-- The bytes of two loans are apart, as are their pages. -/
theorem apart (hI : LoanInv used (loans, tr)) :
    loans.Pairwise fun l l' => Disjoint l.bytes l'.bytes := by
  have hpages := List.pairwise_map.mp hI.pages.partition.apart
  refine hpages.imp_of_mem fun {l l'} hl hl' hd => Set.disjoint_left.mpr fun b hb hb' => ?_
  have hpage {l : Loan} (hl : l ∈ loans) (hb : b ∈ l.bytes) : b / 2 ^ 12 ∈ l.block.pages :=
    (hI.fits l hl).page_mem (hI.pages.aligned _ (List.mem_map_of_mem hl)) hb
  exact Set.disjoint_left.mp hd (hpage hl hb) (hpage hl' hb')

end LoanInv

end Loans

end UefiStub
