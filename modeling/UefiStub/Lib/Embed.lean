import UefiStub.Lib.History

/-!
# Parts of a larger interface

A program over one interface is a program over the sum of it and another
(`Prog.inl`). What its runs against a part of the environment establish, they
establish against the whole of it (`Safe.inl`): the state of the whole is
projected to the one of the part. For histories the projection is `lefts`, the
events of the part.

Two more ways to move a safety statement between environments: along a
projection of the states (`Safe.along`), and behind a history that is already
there (`Safe.shift`). The first one serves a statement about a summary of the
history, kept up to date call by call (`Summary`).
-/

namespace Interact

variable {Op Op' : Type} {Ans : Op → Type} {Ans' : Op' → Type} {α β S S' : Type}

namespace Prog

/-- The same program over the sum of two interfaces. -/
def inl : Prog Op Ans α → Prog (Op ⊕ Op') (Sum.elim Ans Ans') α
  | .ret a => .ret a
  | .call o k => .call (.inl o) fun x => (k x).inl

end Prog

/-- A handler of the sum answers the program as its first part does. -/
theorem run_inl {H : Handler Op Ans S} {H' : Handler (Op ⊕ Op') (Sum.elim Ans Ans') S}
    (hH : ∀ o s, H' (.inl o) s = H o s) (p : Prog Op Ans α) (s : S) :
    run H' p.inl s = run H p s := by
  induction p generalizing s with
  | ret a => rfl
  | call o k ih =>
    rw [Prog.inl, run_call, hH, run_call]
    exact congrArg _ (funext fun r => ih r.1 r.2)

/-! ## Safety in another environment -/

section Transfer

variable {E : Env Op Ans S} {G : S → Op → Prop} {Q : α → S → Prop}

/-- Along a projection that takes every step to a step. -/
theorem Safe.along {E' : Env Op Ans S'} {f : S' → S}
    (hf : ∀ s o x s', E' s o x s' → E (f s) o x (f s')) {p : Prog Op Ans α} {s : S'}
    (h : Safe E G Q p (f s)) : Safe E' (fun s o => G (f s) o) (fun a s => Q a (f s)) p s := by
  induction p generalizing s with
  | ret a => exact .ret (ret_iff.mp h)
  | call o k ih =>
    obtain ⟨hg, hall⟩ := call_iff.mp h
    exact .call hg fun x s' hE => ih x (hall x (f s') (hf _ _ _ _ hE))

/-- A program over a part of the interface. -/
theorem Safe.inl {E' : Env (Op ⊕ Op') (Sum.elim Ans Ans') S'} {f : S' → S}
    (hf : ∀ s o x s', E' s (.inl o) x s' → E (f s) o x (f s')) {p : Prog Op Ans α} {s : S'}
    (h : Safe E G Q p (f s)) :
    Safe E' (fun s o => ∀ o', o = .inl o' → G (f s) o') (fun a s => Q a (f s)) p.inl s := by
  induction p generalizing s with
  | ret a => exact .ret (ret_iff.mp h)
  | call o k ih =>
    obtain ⟨hg, hall⟩ := call_iff.mp h
    refine .call (fun o' ho => ?_) fun x s' hE => ih x (hall x (f s') (hf _ _ _ _ hE))
    cases ho
    exact hg

theorem Only.inl {P : Op → Prop} {P' : Op ⊕ Op' → Prop} {p : Prog Op Ans α} (hp : Only P p)
    (h : ∀ o, P o → P' (.inl o)) :
    Only P' (p.inl : Prog (Op ⊕ Op') (Sum.elim Ans Ans') α) := by
  induction hp with
  | ret a => exact .ret a
  | call ho _ ih => exact .call (h _ ho) ih

end Transfer

/-! ## Histories -/

section Histories

/-- The events of the part. -/
def left : Event (Op ⊕ Op') (Sum.elim Ans Ans') → Option (Event Op Ans)
  | ⟨.inl o, x⟩ => some ⟨o, x⟩
  | ⟨.inr _, _⟩ => none

def lefts (tr : List (Event (Op ⊕ Op') (Sum.elim Ans Ans'))) : List (Event Op Ans) :=
  tr.filterMap left

variable {tr tr' : List (Event (Op ⊕ Op') (Sum.elim Ans Ans'))}
  {G : List (Event Op Ans) → Op → Prop} {Q : α → List (Event Op Ans) → Prop}

@[simp] theorem lefts_append : lefts (tr ++ tr') = lefts tr ++ lefts tr' := List.filterMap_append

@[simp] theorem lefts_snoc_inl (o : Op) (x : Sum.elim Ans Ans' (.inl o)) :
    lefts (tr ++ [⟨.inl o, x⟩]) = lefts tr ++ [⟨o, x⟩] := lefts_append

@[simp] theorem lefts_snoc_inr (o : Op') (x : Sum.elim Ans Ans' (.inr o)) :
    lefts (tr ++ [⟨.inr o, x⟩]) = lefts tr := lefts_append.trans (List.append_nil _)

/-- A part of a run, from its runs on its own part of the history. -/
theorem Safe.lefts {p : Prog Op Ans α} (h : Safe History G Q p (lefts tr)) :
    Safe History (fun tr o => ∀ o', o = .inl o' → G (Interact.lefts tr) o')
      (fun a tr => Q a (Interact.lefts tr))
      (p.inl : Prog (Op ⊕ Op') (Sum.elim Ans Ans') α) tr :=
  .inl (fun _ _ _ _ hE => ⟨trivial, by rw [hE.2, lefts_snoc_inl]⟩) h

/-- Behind a history that is already there. -/
theorem Safe.shift {p : Prog Op Ans α} {es' : List (Event Op Ans)}
    (h : Safe History G Q p es') (es : List (Event Op Ans)) :
    Safe History (fun tr o => ∃ tr', tr = es ++ tr' ∧ G tr' o)
      (fun a tr => ∃ tr', tr = es ++ tr' ∧ Q a tr') p (es ++ es') := by
  induction p generalizing es' with
  | ret a => exact .ret ⟨es', rfl, ret_iff.mp h⟩
  | call o k ih =>
    obtain ⟨hg, hall⟩ := call_iff.mp h
    refine .record ⟨es', rfl, hg⟩ fun x _ => ?_
    rw [List.append_assoc]
    exact ih x (hall x _ ⟨trivial, rfl⟩)

end Histories

/-! ## Summaries -/

section Summary

/-- Answers in any way and keeps a summary of what happened. -/
def Summary (δ : S → Event Op Ans → S) : Env Op Ans S := fun s o x s' => s' = δ s ⟨o, x⟩

variable {δ : S → Event Op Ans → S} {G : S → Op → Prop} {Q : α → S → Prop} {s0 : S}

/-- What runs establish about a summary, they establish about the history. -/
theorem Safe.summary {p : Prog Op Ans α} (tr : List (Event Op Ans))
    (h : Safe (Summary δ) G Q p (tr.foldl δ s0)) :
    Safe History (fun tr o => G (tr.foldl δ s0) o) (fun a tr => Q a (tr.foldl δ s0)) p tr :=
  h.along fun _ _ _ _ hE => by rw [hE.2, List.foldl_append]; rfl

/-- The rule for a call. -/
theorem Safe.observe {o : Op} {k : Ans o → Prog Op Ans α} {s : S} (hg : G s o)
    (h : ∀ x, Safe (Summary δ) G Q (k x) (δ s ⟨o, x⟩)) :
    Safe (Summary δ) G Q (Prog.op o >>= k) s :=
  .call hg fun x s' hs => by rw [hs]; exact h x

/-- Calls that are allowed and leave the summary as it is. -/
theorem Safe.unobserved {P : Op → Prop} {p : Prog Op Ans α} {s : S} (hp : Only P p)
    (hg : ∀ o, P o → G s o) (hδ : ∀ o x, P o → δ s ⟨o, x⟩ = s) :
    Safe (Summary δ) G (fun _ s' => s' = s) p s :=
  .invariant hp rfl (fun _ o h ho => h ▸ hg o ho) fun _ o x _ h ho hs => by
    rw [hs, h, hδ o x ho]

/-- A program whose calls a summary always allows, whatever is answered, makes no others. -/
theorem Safe.to_only {P : Op → Prop} {p : Prog Op Ans α} {s : S} (h : Safe (Summary δ) G Q p s)
    (hG : ∀ s o, G s o → P o) : Only P p := by
  induction p generalizing s with
  | ret a => exact .ret a
  | call o k ih =>
    obtain ⟨hg, hall⟩ := call_iff.mp h
    exact .call (hG _ _ hg) fun x => ih x (hall x _ rfl)

/-! The events of both parts. -/

/-- Each part keeps the summary up to date. -/
def joint (δ : S → Event Op Ans → S) (δ' : S → Event Op' Ans' → S) (s : S) :
    Event (Op ⊕ Op') (Sum.elim Ans Ans') → S
  | ⟨.inl o, x⟩ => δ s ⟨o, x⟩
  | ⟨.inr o, x⟩ => δ' s ⟨o, x⟩

theorem foldl_joint (tr : List (Event (Op ⊕ Op') (Sum.elim Ans Ans'))) (s : S) :
    tr.foldl (joint δ fun s _ => s) s = (lefts tr).foldl δ s := by
  induction tr generalizing s with
  | nil => rfl
  | cons e tr ih =>
    obtain ⟨o | o, x⟩ := e
    · exact ih (δ s ⟨o, x⟩)
    · exact ih s

variable {δ' : S → Event Op' Ans' → S} {G' : S → Op ⊕ Op' → Prop} {p : Prog Op Ans α} {s : S}

/-- A part of a run, from what its runs establish about the summary. -/
theorem Safe.joint (h : Safe (Summary δ) G Q p s) (hG : ∀ s o, G s o → G' s (.inl o)) :
    Safe (Summary (Interact.joint δ δ')) G' Q
      (p.inl : Prog (Op ⊕ Op') (Sum.elim Ans Ans') α) s := by
  induction p generalizing s with
  | ret a => exact .ret (ret_iff.mp h)
  | call o k ih =>
    obtain ⟨hg, hall⟩ := call_iff.mp h
    exact .call (hG _ _ hg) fun x s' hs => ih x (hall x s' hs)

/-- A call of the other part. -/
theorem Safe.observe_inr {o : Op'} {k : Ans' o → Prog (Op ⊕ Op') (Sum.elim Ans Ans') α}
    (hg : G' s (.inr o)) (h : ∀ x, Safe (Summary (Interact.joint δ δ')) G' Q (k x) (δ' s ⟨o, x⟩)) :
    Safe (Summary (Interact.joint δ δ')) G' Q
      ((Prog.op (Sum.inr o) : Prog (Op ⊕ Op') (Sum.elim Ans Ans') (Ans' o)) >>= k) s :=
  .call hg fun x s' hs => by rw [hs]; exact h x

/-- A summary that only one part keeps up to date is one of its history. -/
theorem Safe.history_left {p : Prog (Op ⊕ Op') (Sum.elim Ans Ans') α} {s0 : S}
    (h : Safe (Summary (Interact.joint δ fun s _ => s)) G' Q p s0) :
    Safe History (fun tr o => G' ((Interact.lefts tr).foldl δ s0) o)
      (fun a tr => Q a ((Interact.lefts tr).foldl δ s0)) p [] := by
  have hs := h.summary []
  simp only [foldl_joint] at hs
  exact hs

end Summary

end Interact
