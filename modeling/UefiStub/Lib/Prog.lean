import Mathlib.Algebra.Group.Nat.Defs
import Mathlib.Logic.Relation

/-!
# Interaction programs

A program over an interface `Op`/`Ans` returns a value, or issues a call and
continues on its answer. What answers is an environment `Env`: a relation
between the state before a call, the call, its answer and the state after it.

* `Reach E` is the small-step run of a program against an environment; a
  configuration is the rest of the program and the state.
* `Spec E G Q p s` says that along every run of `p` from `s` each call is
  issued in a state the guard `G` allows, is answered, and each return
  satisfies `Q`. `Spec.of_reach` carries it to every reachable configuration.
* `Handler` is a deterministic environment, executed by `run`; `advance` stops
  after a number of calls.
* `Only P p` is the syntactic fact that every call of `p` satisfies `P`;
  `calls` is the program that issues a list of calls and ignores the answers.
-/

namespace Interact

inductive Prog (Op : Type) (Ans : Op → Type) (α : Type) where
  | ret (a : α)
  | call (o : Op) (k : Ans o → Prog Op Ans α)

variable {Op : Type} {Ans : Op → Type} {α β γ S : Type}

namespace Prog

def bind : Prog Op Ans α → (α → Prog Op Ans β) → Prog Op Ans β
  | .ret a, f => f a
  | .call o k, f => .call o fun x => (k x).bind f

instance : Monad (Prog Op Ans) where
  pure := .ret
  bind := bind

/-- Issue one call and return its answer. -/
def op (o : Op) : Prog Op Ans (Ans o) := .call o .ret

@[simp] theorem pure_eq (a : α) : (pure a : Prog Op Ans α) = .ret a := rfl

@[simp] theorem ret_bind (a : α) (f : α → Prog Op Ans β) : ((.ret a : Prog Op Ans α) >>= f) = f a :=
  rfl

@[simp] theorem call_bind (o : Op) (k : Ans o → Prog Op Ans α) (f : α → Prog Op Ans β) :
    (.call o k >>= f) = .call o fun x => k x >>= f := rfl

@[simp] theorem op_bind (o : Op) (f : Ans o → Prog Op Ans β) : (op o >>= f) = .call o f := rfl

theorem bind_ret (p : Prog Op Ans α) : (p >>= fun a => .ret a) = p := by
  induction p with
  | ret a => rfl
  | call o k ih => rw [call_bind]; exact congrArg _ (funext ih)

@[simp] theorem bind_bind (p : Prog Op Ans α) (f : α → Prog Op Ans β) (g : β → Prog Op Ans γ) :
    ((p >>= f) >>= g) = p >>= fun a => f a >>= g := by
  induction p with
  | ret a => rfl
  | call o k ih => simp only [call_bind]; exact congrArg _ (funext ih)

instance : LawfulMonad (Prog Op Ans) :=
  LawfulMonad.mk' _ bind_ret (fun _ _ => rfl) bind_bind

end Prog

/-! ## Environments and runs -/

/-- `E s o x s'`: in state `s` the call `o` may be answered by `x`, leaving `s'`. -/
abbrev Env (Op : Type) (Ans : Op → Type) (S : Type) := S → (o : Op) → Ans o → S → Prop

inductive Step (E : Env Op Ans S) : Prog Op Ans α × S → Prog Op Ans α × S → Prop where
  | call {o : Op} {k : Ans o → Prog Op Ans α} {s s' : S} {x : Ans o} (h : E s o x s') :
      Step E (.call o k, s) (k x, s')

def Reach (E : Env Op Ans S) : Prog Op Ans α × S → Prog Op Ans α × S → Prop :=
  Relation.ReflTransGen (Step E)

/-- The first part of a sequence runs as it runs alone. -/
theorem Reach.bind {E : Env Op Ans S} {c c' : Prog Op Ans α × S} (h : Reach E c c')
    (f : α → Prog Op Ans β) : Reach E (c.1 >>= f, c.2) (c'.1 >>= f, c'.2) := by
  refine h.lift (fun c => (c.1 >>= f, c.2)) fun c c' hs => ?_
  obtain ⟨hE⟩ := hs
  exact .call hE

/-- Every run of `p` from `s` issues its calls in states `G` allows, has each of them
answered, and returns in a state `Q` allows. -/
inductive Spec (E : Env Op Ans S) (G : S → Op → Prop) (Q : α → S → Prop) :
    Prog Op Ans α → S → Prop where
  | ret {a : α} {s : S} (h : Q a s) : Spec E G Q (.ret a) s
  | call {o : Op} {k : Ans o → Prog Op Ans α} {s : S} (hg : G s o) (hex : ∃ x s', E s o x s')
      (hall : ∀ x s', E s o x s' → Spec E G Q (k x) s') : Spec E G Q (.call o k) s

namespace Spec

variable {E : Env Op Ans S} {G G' : S → Op → Prop} {Q Q' : α → S → Prop} {s : S}

theorem call_iff {o : Op} {k : Ans o → Prog Op Ans α} : Spec E G Q (.call o k) s ↔
    G s o ∧ (∃ x s', E s o x s') ∧ ∀ x s', E s o x s' → Spec E G Q (k x) s' :=
  ⟨fun h => by cases h with | call hg hex hall => exact ⟨hg, hex, hall⟩,
    fun h => .call h.1 h.2.1 h.2.2⟩

theorem mono {p : Prog Op Ans α} (h : Spec E G Q p s) (hG : ∀ s o, G s o → G' s o)
    (hQ : ∀ a s, Q a s → Q' a s) : Spec E G' Q' p s := by
  induction h with
  | ret h => exact .ret (hQ _ _ h)
  | call hg hex _ ih => exact .call (hG _ _ hg) hex ih

theorem post {p : Prog Op Ans α} (h : Spec E G Q p s) (hQ : ∀ a s, Q a s → Q' a s) :
    Spec E G Q' p s := h.mono (fun _ _ hg => hg) hQ

theorem bind {R : β → S → Prop} {p : Prog Op Ans α} {f : α → Prog Op Ans β}
    (h : Spec E G (fun a s => Spec E G R (f a) s) p s) : Spec E G R (p >>= f) s := by
  induction h with
  | ret h => exact h
  | call hg hex _ ih => exact .call hg hex ih

theorem of_step {c c' : Prog Op Ans α × S} (h : Spec E G Q c.1 c.2) (hs : Step E c c') :
    Spec E G Q c'.1 c'.2 := by
  obtain ⟨hE⟩ := hs
  exact (call_iff.mp h).2.2 _ _ hE

theorem of_reach {c c' : Prog Op Ans α × S} (h : Spec E G Q c.1 c.2) (hr : Reach E c c') :
    Spec E G Q c'.1 c'.2 := by
  induction hr with
  | refl => exact h
  | tail _ hs ih => exact ih.of_step hs

end Spec

/-! ## Deterministic environments -/

/-- Answers each call from the state, or not at all. -/
abbrev Handler (Op : Type) (Ans : Op → Type) (S : Type) := (o : Op) → S → Option (Ans o × S)

def run (H : Handler Op Ans S) : Prog Op Ans α → S → Option (α × S)
  | .ret a, s => some (a, s)
  | .call o k, s => (H o s).bind fun r => run H (k r.1) r.2

section Run

variable {H : Handler Op Ans S} {s s' : S} {a : α}

@[simp] theorem run_ret (a : α) (s : S) : run H (.ret a : Prog Op Ans α) s = some (a, s) := rfl

theorem run_call (o : Op) (k : Ans o → Prog Op Ans α) (s : S) :
    run H (.call o k) s = (H o s).bind fun r => run H (k r.1) r.2 := rfl

theorem run_bind (p : Prog Op Ans α) (f : α → Prog Op Ans β) (s : S) :
    run H (p >>= f) s = (run H p s).bind fun r => run H (f r.1) r.2 := by
  induction p generalizing s with
  | ret a => rfl
  | call o k ih =>
    simp only [Prog.call_bind, run_call, Option.bind_assoc]
    exact congrArg _ (funext fun r => ih r.1 r.2)

/-- The rule for a sequence whose first part is known to return. -/
theorem run_bind_of {p : Prog Op Ans α} (f : α → Prog Op Ans β) (h : run H p s = some (a, s')) :
    run H (p >>= f) s = run H (f a) s' := by
  rw [run_bind, h]; rfl

theorem run_bind_inv {p : Prog Op Ans α} {f : α → Prog Op Ans β} {b : β}
    (h : run H (p >>= f) s = some (b, s')) :
    ∃ a s1, run H p s = some (a, s1) ∧ run H (f a) s1 = some (b, s') := by
  rw [run_bind, Option.bind_eq_some_iff] at h
  obtain ⟨⟨a, s1⟩, h1, h2⟩ := h
  exact ⟨a, s1, h1, h2⟩

/-- The configuration after `n` calls. -/
def advance (H : Handler Op Ans S) : Nat → Prog Op Ans α × S → Option (Prog Op Ans α × S)
  | 0, c => some c
  | n + 1, (.call o k, s) => (H o s).bind fun r => advance H n (k r.1, r.2)
  | _ + 1, (.ret _, _) => none

/-- It is one of a run against an environment that allows the answers. -/
theorem reach_advance {E : Env Op Ans S} (hH : ∀ o s x s', H o s = some (x, s') → E s o x s')
    {n : Nat} {c c' : Prog Op Ans α × S} (h : advance H n c = some c') : Reach E c c' := by
  induction n generalizing c with
  | zero =>
    cases h
    exact .refl
  | succ n ih =>
    obtain ⟨p, s⟩ := c
    cases p with
    | ret a => cases h
    | call o k =>
      rw [advance, Option.bind_eq_some_iff] at h
      obtain ⟨⟨x, s1⟩, h1, h2⟩ := h
      exact .head (.call (hH _ _ _ _ h1)) (ih h2)

end Run

/-! ## The calls a program can make -/

/-- Every call of the program satisfies `P`. -/
inductive Only (P : Op → Prop) : Prog Op Ans α → Prop where
  | ret (a : α) : Only P (.ret a)
  | call {o : Op} {k : Ans o → Prog Op Ans α} (h : P o) (hk : ∀ x, Only P (k x)) :
      Only P (.call o k)

namespace Only

variable {P : Op → Prop}

theorem bind {p : Prog Op Ans α} {f : α → Prog Op Ans β} (hp : Only P p)
    (hf : ∀ a, Only P (f a)) : Only P (p >>= f) := by
  induction hp with
  | ret a => exact hf a
  | call h _ ih => exact .call h ih

theorem op_bind {o : Op} {f : Ans o → Prog Op Ans α} (h : P o) (hf : ∀ x, Only P (f x)) :
    Only P (Prog.op o >>= f) := .call h hf

theorem mono {P' : Op → Prop} {p : Prog Op Ans α} (hp : Only P p) (h : ∀ o, P o → P' o) :
    Only P' p := by
  induction hp with
  | ret a => exact .ret a
  | call ho _ ih => exact .call (h _ ho) ih

/-- A handler that answers on a part of its state what another one answers. -/
theorem run_part {S' : Type} {H : Handler Op Ans S} {H' : Handler Op Ans S'} (get : S' → S)
    (put : S' → S → S') (hget : ∀ s r, get (put s r) = r)
    (hput : ∀ s r r', put (put s r) r' = put s r') (hself : ∀ s, put s (get s) = s)
    (hH : ∀ o s x r, P o → H o (get s) = some (x, r) → H' o s = some (x, put s r))
    {p : Prog Op Ans α} (hp : Only P p) {s : S'} {a : α} {r : S}
    (h : run H p (get s) = some (a, r)) : run H' p s = some (a, put s r) := by
  induction hp generalizing s with
  | ret b =>
    cases h
    exact congrArg (fun s' => some (a, s')) (hself s).symm
  | @call o k ho _ ih =>
    rw [run_call, Option.bind_eq_some_iff] at h
    obtain ⟨⟨x, r1⟩, h1, h2⟩ := h
    rw [run_call, hH o s x r1 ho h1, Option.bind_some]
    have hrest := ih x (s := put s r1) (by rw [hget]; exact h2)
    rw [hput] at hrest
    exact hrest

/-- Calls that are answered without a change of the state. -/
theorem run_still {H : Handler Op Ans S} {s : S} (hH : ∀ o, P o → ∃ x, H o s = some (x, s))
    {p : Prog Op Ans α} (hp : Only P p) : ∃ a, run H p s = some (a, s) := by
  induction hp with
  | ret a => exact ⟨a, rfl⟩
  | call ho _ ih =>
    obtain ⟨x, hx⟩ := hH _ ho
    obtain ⟨a, ha⟩ := ih x
    exact ⟨a, by rw [run_call, hx]; exact ha⟩

/-- What no allowed call changes, no run changes. -/
theorem run_frame {φ : Type} {H : Handler Op Ans S} (f : S → φ)
    (hH : ∀ o s x s', P o → H o s = some (x, s') → f s' = f s) {p : Prog Op Ans α} (hp : Only P p)
    {s s' : S} {a : α} (h : run H p s = some (a, s')) : f s' = f s := by
  induction hp generalizing s with
  | ret b => cases h; rfl
  | call ho _ ih =>
    rw [run_call, Option.bind_eq_some_iff] at h
    obtain ⟨⟨x, s1⟩, h1, h2⟩ := h
    exact (ih x h2).trans (hH _ s x s1 ho h1)

end Only

/-- Issue the calls in order, whatever they are answered. -/
def calls : List Op → Prog Op Ans Unit
  | [] => .ret ()
  | o :: os => .call o fun _ => calls os

theorem calls_append (os os' : List Op) :
    (calls (os ++ os') : Prog Op Ans Unit) = calls os >>= fun _ => calls os' := by
  induction os with
  | nil => rfl
  | cons o os ih => simp only [List.cons_append, calls, Prog.call_bind, ih]

theorem Only.calls {P : Op → Prop} {os : List Op} (h : ∀ o ∈ os, P o) :
    Only P (calls os : Prog Op Ans Unit) := by
  induction os with
  | nil => exact .ret ()
  | cons o os ih =>
    exact .call (h o List.mem_cons_self) fun _ => ih fun o ho => h o (List.mem_cons_of_mem _ ho)

/-- A program that is a list of answerable calls is so in one way only. -/
theorem calls_inj {os os' : List Op} (hA : ∀ o ∈ os, Nonempty (Ans o))
    (h : (calls os : Prog Op Ans Unit) = calls os') : os = os' := by
  induction os generalizing os' with
  | nil => cases os' with
    | nil => rfl
    | cons o' os' => cases h
  | cons o os ih => cases os' with
    | nil => cases h
    | cons o' os' =>
      simp only [calls, Prog.call.injEq] at h
      obtain ⟨rfl, hk⟩ := h
      obtain ⟨x⟩ := hA o List.mem_cons_self
      rw [ih (fun o ho => hA o (List.mem_cons_of_mem _ ho)) (congrFun (eq_of_heq hk) x)]

/-- Calls that the environment answers without changing the state leave it for what follows. -/
theorem Spec.calls {E : Env Op Ans S} {G : S → Op → Prop} {Q : Unit → S → Prop} {s : S}
    {os : List Op} (hG : ∀ o ∈ os, G s o) (hex : ∀ o ∈ os, ∃ x s', E s o x s')
    (hE : ∀ o ∈ os, ∀ x s', E s o x s' → s' = s) (hQ : Q () s) :
    Spec E G Q (calls os) s := by
  induction os with
  | nil => exact .ret hQ
  | cons o os ih =>
    refine .call (hG o List.mem_cons_self) (hex o List.mem_cons_self) fun x s' h => ?_
    rw [hE o List.mem_cons_self x s' h]
    exact ih (fun o ho => hG o (List.mem_cons_of_mem _ ho))
      (fun o ho => hex o (List.mem_cons_of_mem _ ho))
      (fun o ho => hE o (List.mem_cons_of_mem _ ho))

end Interact
