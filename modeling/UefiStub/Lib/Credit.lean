import Mathlib.Algebra.BigOperators.Ring.List
import Mathlib.Algebra.Ring.Nat
import UefiStub.Lib.Embed

/-!
# Calls paid from credits

Every call has a cost and every answer a gain. `Pays cost gain R p n` says that
`p` can pay for its calls from `n` credits and what it gains, whatever is
answered, and has `R a` credits left where it returns `a`. So no run spends more
than it was given and has gained (`Pays.spent_le`).

`Spends` is the other side: with these answers the program returns and has spent
exactly so much.
-/

namespace Interact

variable {Op : Type} {Ans : Op → Type} {α β : Type} {cost : Op → Nat}
  {gain : (o : Op) → Ans o → Nat} {tr : List (Event Op Ans)}

/-- The credits after a call. -/
def balance (cost : Op → Nat) (gain : (o : Op) → Ans o → Nat) (n : Nat) (e : Event Op Ans) : Nat :=
  n - cost e.1 + gain e.1 e.2

/-- What the calls of a history cost. -/
def spent (cost : Op → Nat) (tr : List (Event Op Ans)) : Nat := (tr.map fun e => cost e.1).sum

/-- What the answers of a history gave. -/
def gained (gain : (o : Op) → Ans o → Nat) (tr : List (Event Op Ans)) : Nat :=
  (tr.map fun e => gain e.1 e.2).sum

abbrev Pays (cost : Op → Nat) (gain : (o : Op) → Ans o → Nat) (R : α → Nat) (p : Prog Op Ans α)
    (n : Nat) : Prop :=
  Safe (Summary (balance cost gain)) (fun n o => cost o ≤ n) (fun a n => R a ≤ n) p n

@[simp] theorem spent_snoc (e : Event Op Ans) :
    spent cost (tr ++ [e]) = spent cost tr + cost e.1 := by
  simp [spent]

@[simp] theorem gained_snoc (e : Event Op Ans) :
    gained gain (tr ++ [e]) = gained gain tr + gain e.1 e.2 := by
  simp [gained]

theorem gained_mul (b : Nat) (tr : List (Event Op Ans)) :
    gained (fun o x => b * gain o x) tr = b * gained gain tr :=
  List.sum_map_mul_left tr (fun e => gain e.1 e.2) b

namespace Pays

variable {R : α → Nat} {R' : β → Nat} {p : Prog Op Ans α} {f : α → Prog Op Ans β} {n n' : Nat}

theorem mono (h : Pays cost gain R p n) (hn : n ≤ n') : Pays cost gain R p n' := by
  induction p generalizing n n' with
  | ret a =>
    cases h with
    | ret h => exact .ret (Nat.le_trans h hn)
  | call o k ih =>
    obtain ⟨hcost, hall⟩ := Safe.call_iff.mp h
    refine .call (Nat.le_trans hcost hn) fun x m hm => ?_
    rw [hm]
    refine ih x (hall x _ rfl) ?_
    unfold balance
    omega

theorem seq (h : Pays cost gain R p n) (hf : ∀ a, Pays cost gain R' (f a) (R a)) :
    Pays cost gain R' (p >>= f) n :=
  Safe.seq h fun a _ hn => (hf a).mono hn

/-- A part without costs. -/
theorem free (hp : Only (fun o => cost o = 0) p) : Pays cost gain (fun _ => n) p n :=
  .invariant hp (Nat.le_refl n) (fun m o _ ho => ho ▸ Nat.zero_le m) fun m o x m' hm ho hs => by
    rw [hs, balance, ho]
    exact Nat.le_trans hm (Nat.le_add_right ..)

/-- **No run spends more** than it was given and has gained. -/
theorem spent_le {p' : Prog Op Ans α} (h : Pays cost gain R p n)
    (hr : Reach History (p, []) (p', tr)) : spent cost tr ≤ n + gained gain tr := by
  have hinv : ∀ c, Reach History (p, []) c → ∃ m, Pays cost gain R c.1 m ∧
      spent cost c.2 + m = n + gained gain c.2 := by
    intro c hr
    induction hr with
    | refl => exact ⟨n, h, by simp [spent, gained]⟩
    | tail _ hs ih =>
      obtain ⟨m, hpays, hm⟩ := ih
      obtain ⟨-, rfl⟩ := hs
      rename_i o k s x _
      obtain ⟨hcost, hall⟩ := Safe.call_iff.mp hpays
      refine ⟨_, hall x _ rfl, ?_⟩
      rw [spent_snoc, gained_snoc]
      simp only [balance] at hm hcost ⊢
      omega
  obtain ⟨m, -, hm⟩ := hinv _ hr
  dsimp only at hm
  omega

end Pays

/-! ## Exact costs -/

section Spends

/-- From every history, with these answers, `p` returns `a` and has spent `n` and gained `m`. -/
def Spends (cost : Op → Nat) (gain : (o : Op) → Ans o → Nat) (ans : (o : Op) → Ans o → Prop)
    (p : Prog Op Ans α) (a : α) (n m : Nat) : Prop :=
  ∀ tr, ∃ tr', Reach (Recorded fun _ o x => ans o x) (p, tr) (.ret a, tr') ∧
    spent cost tr' = spent cost tr + n ∧ gained gain tr' = gained gain tr + m

variable {ans : (o : Op) → Ans o → Prop} {p : Prog Op Ans α} {f : α → Prog Op Ans β} {a : α} {b : β}
  {n m n' m' : Nat}

namespace Spends

theorem ret : Spends cost gain ans (.ret a) a 0 0 := fun tr => ⟨tr, .refl, rfl, rfl⟩

theorem op {o : Op} {k : Ans o → Prog Op Ans α} (x : Ans o) (hx : ans o x)
    (h : Spends cost gain ans (k x) a n m) :
    Spends cost gain ans (Prog.op o >>= k) a (n + cost o) (m + gain o x) := by
  intro tr
  obtain ⟨tr', hr, hs, hg⟩ := h (tr ++ [⟨o, x⟩])
  rw [spent_snoc, Nat.add_assoc, Nat.add_comm (cost o)] at hs
  rw [gained_snoc, Nat.add_assoc, Nat.add_comm (gain o x)] at hg
  exact ⟨tr', reach_record hx hr, hs, hg⟩

theorem bind (hp : Spends cost gain ans p a n m) (hf : Spends cost gain ans (f a) b n' m') :
    Spends cost gain ans (p >>= f) b (n' + n) (m' + m) := by
  intro tr
  obtain ⟨tr1, hr, hs, hg⟩ := hp tr
  obtain ⟨tr2, hr', hs', hg'⟩ := hf tr1
  exact ⟨tr2, (hr.bind f).trans hr', by omega, by omega⟩

/-- Calls that cost and give nothing. -/
theorem calls {os : List Op} (h : ∀ o ∈ os, cost o = 0 ∧ ∃ x, ans o x ∧ gain o x = 0) :
    Spends cost gain ans (calls os) () 0 0 := by
  induction os with
  | nil => exact ret
  | cons o os ih =>
    obtain ⟨hcost, x, hx, hgain⟩ := h o List.mem_cons_self
    have hstep := op (k := fun _ => Interact.calls os) x hx
      (ih fun o ho => h o (List.mem_cons_of_mem _ ho))
    rw [hcost, hgain] at hstep
    exact hstep

end Spends

end Spends

end Interact
