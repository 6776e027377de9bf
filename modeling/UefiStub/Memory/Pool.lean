import UefiStub.Efi
import UefiStub.Lib.History
import UefiStub.Lib.Ledger

/-!
# Pool buffers

Pool buffers are given by `allocate_pool`, `locate_handle_buffer` and
`query_mode`, and `free_pool` releases them. `Held tr bufs` says that a run
with the history `tr` has touched or released only buffers it held, and holds
`bufs` in the end. `NULL` is no buffer.
-/

namespace UefiStub

open Interact

abbrev Trace := List (Event Op Op.Ans)

/-- An access, unless it is to `NULL`. -/
def nonNull (access : Ptr → Access Ptr) (ptr : Ptr) : Option (Access Ptr) :=
  if ptr = 0 then none else some (access ptr)

/-- A buffer that a successful call stores. -/
def given (x : Status × Ptr) : Option (Access Ptr) :=
  if x.1 = efiSuccess then nonNull .acquire x.2 else none

/-- What a call does with a pool buffer. -/
def poolAccess : Event Op Op.Ans → Option (Access Ptr)
  | ⟨.allocatePool _ _, x⟩ => given x
  | ⟨.locateHandleBuffer _, (status, _, handles)⟩ => given (status, handles)
  | ⟨.gopQueryMode _ _, x⟩ => given x
  | ⟨.loadHandle handles _, _⟩ => nonNull .use handles
  | ⟨.loadModeInfo info, _⟩ => nonNull .use info
  | ⟨.getMemoryMap _ map, _⟩ => nonNull .use map
  | ⟨.freePool buffer, _⟩ => some (.release buffer)
  | _ => none

def accesses (tr : Trace) : List (Access Ptr) := tr.filterMap poolAccess

def Held (tr : Trace) (bufs : List Ptr) : Prop := settle (accesses tr) [] = some bufs

namespace Held

variable {tr : Trace} {bufs : List Ptr} {e : Event Op Op.Ans} {a : Access Ptr} {b : Ptr}

theorem nil : Held [] [] := rfl

/-- A call that has nothing to do with buffers. -/
theorem other (h : Held tr bufs) (he : poolAccess e = none) : Held (tr ++ [e]) bufs := by
  unfold Held accesses
  rw [List.filterMap_append, List.filterMap_cons_none he, List.filterMap_nil, List.append_nil]
  exact h

theorem snoc {bufs' : List Ptr} (h : Held tr bufs) (he : poolAccess e = some a)
    (ha : a.apply bufs = some bufs') : Held (tr ++ [e]) bufs' := by
  unfold Held accesses
  rw [List.filterMap_append, List.filterMap_cons_some he, List.filterMap_nil]
  exact settle_snoc h ha

theorem acquire (h : Held tr bufs) (he : poolAccess e = nonNull .acquire b) (hb : b ≠ 0) :
    Held (tr ++ [e]) (b :: bufs) :=
  h.snoc (he.trans (if_neg hb)) rfl

/-- Nothing is held of a `NULL` that was given. -/
theorem acquire_null (h : Held tr bufs) (he : poolAccess e = nonNull .acquire b) (hb : b = 0) :
    Held (tr ++ [e]) bufs :=
  h.other (he.trans (if_pos hb))

theorem use (h : Held tr bufs) (he : poolAccess e = nonNull .use b) (hb : b ≠ 0 → b ∈ bufs) :
    Held (tr ++ [e]) bufs := by
  by_cases h0 : b = 0
  · exact h.other (he.trans (if_pos h0))
  · exact h.snoc (he.trans (if_neg h0)) (apply_use (hb h0))

theorem release (h : Held tr (b :: bufs)) (x : Status) :
    Held (tr ++ [⟨.freePool b, x⟩]) bufs :=
  h.snoc rfl (apply_release b bufs)

end Held

end UefiStub
