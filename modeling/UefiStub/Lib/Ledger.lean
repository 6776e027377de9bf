import Mathlib.Data.List.Basic

/-!
# Ledgers

A ledger lists the resources that were acquired and not yet released, the last
one first. `settle` plays accesses on it and fails at the first use or release
of a resource that is not in it. So a history of accesses that settles to the
empty ledger releases every resource as often as it acquires it, and touches
none after its release.
-/

namespace Interact

/-- What can be done with a resource. -/
inductive Access (ρ : Type) where
  | acquire (r : ρ)
  | use (r : ρ)
  | release (r : ρ)
  deriving DecidableEq

variable {ρ : Type} [DecidableEq ρ]

def Access.apply (held : List ρ) : Access ρ → Option (List ρ)
  | acquire r => some (r :: held)
  | use r => if r ∈ held then some held else none
  | release r => if r ∈ held then some (held.erase r) else none

def settle : List (Access ρ) → List ρ → Option (List ρ)
  | [], held => some held
  | a :: as, held => (a.apply held).bind (settle as)

theorem settle_append (as bs : List (Access ρ)) (held : List ρ) :
    settle (as ++ bs) held = (settle as held).bind (settle bs) := by
  induction as generalizing held with
  | nil => rfl
  | cons a as ih =>
    rw [List.cons_append, settle, settle, Option.bind_assoc]
    exact congrArg _ (funext ih)

theorem settle_snoc {as : List (Access ρ)} {held held' : List ρ} {a : Access ρ}
    (h : settle as [] = some held) (ha : a.apply held = some held') :
    settle (as ++ [a]) [] = some held' := by
  rw [settle_append, h, Option.bind_some, settle, ha]
  rfl

theorem apply_use {r : ρ} {held : List ρ} (h : r ∈ held) : (Access.use r).apply held = some held :=
  if_pos h

/-- The resource acquired last. -/
theorem apply_release (r : ρ) (held : List ρ) :
    (Access.release r).apply (r :: held) = some held := by
  have hmem : r ∈ r :: held := List.mem_cons_self
  rw [Access.apply, if_pos hmem, List.erase_cons_head]

end Interact
