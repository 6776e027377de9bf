import UefiStub.Lib.Prog

/-!
# Histories

An environment that keeps what happened: `Recorded A` answers a call in any way
`A` allows and appends the call with its answer to the history, `History`
answers in any way at all. A statement about every behaviour of the other side
is one about every run of `History`.

`Safe E G Q p s` is `Spec` without progress: a call need not be answered. It is
carried to every reachable configuration (`Safe.of_reach`), and a part of a
program leaves behind the run it made (`Safe.ran`). Where only the answers count
the state is left out (`Replies`).
-/

namespace Interact

variable {Op : Type} {Ans : Op → Type} {α β S : Type}

/-- A call with its answer. -/
abbrev Event (Op : Type) (Ans : Op → Type) := (o : Op) × Ans o

def Recorded (A : List (Event Op Ans) → (o : Op) → Ans o → Prop) :
    Env Op Ans (List (Event Op Ans)) :=
  fun tr o x tr' => A tr o x ∧ tr' = tr ++ [⟨o, x⟩]

abbrev History : Env Op Ans (List (Event Op Ans)) := Recorded fun _ _ _ => True

/-- Every run of `p` from `s` issues its calls in states `G` allows and returns in a state `Q`
allows. -/
inductive Safe (E : Env Op Ans S) (G : S → Op → Prop) (Q : α → S → Prop) :
    Prog Op Ans α → S → Prop where
  | ret {a : α} {s : S} (h : Q a s) : Safe E G Q (.ret a) s
  | call {o : Op} {k : Ans o → Prog Op Ans α} {s : S} (hg : G s o)
      (hall : ∀ x s', E s o x s' → Safe E G Q (k x) s') : Safe E G Q (.call o k) s

namespace Safe

variable {E : Env Op Ans S} {G : S → Op → Prop} {Q Q' : α → S → Prop} {s : S}

theorem call_iff {o : Op} {k : Ans o → Prog Op Ans α} :
    Safe E G Q (.call o k) s ↔ G s o ∧ ∀ x s', E s o x s' → Safe E G Q (k x) s' :=
  ⟨fun h => by cases h with | call hg hall => exact ⟨hg, hall⟩, fun h => .call h.1 h.2⟩

theorem ret_iff {a : α} : Safe E G Q (.ret a) s ↔ Q a s :=
  ⟨fun h => by cases h with | ret h => exact h, .ret⟩

theorem post {p : Prog Op Ans α} (h : Safe E G Q p s) (hQ : ∀ a s, Q a s → Q' a s) :
    Safe E G Q' p s := by
  induction h with
  | ret h => exact .ret (hQ _ _ h)
  | call hg _ ih => exact .call hg ih

theorem bind {R : β → S → Prop} {p : Prog Op Ans α} {f : α → Prog Op Ans β}
    (h : Safe E G (fun a s => Safe E G R (f a) s) p s) : Safe E G R (p >>= f) s := by
  induction h with
  | ret h => exact h
  | call hg _ ih => exact .call hg ih

/-- A part of a program, from what its own runs establish. -/
theorem seq {R : β → S → Prop} {p : Prog Op Ans α} {f : α → Prog Op Ans β}
    (h : Safe E G Q p s) (hf : ∀ a s, Q a s → Safe E G R (f a) s) : Safe E G R (p >>= f) s :=
  bind (h.post hf)

theorem of_step {c c' : Prog Op Ans α × S} (h : Safe E G Q c.1 c.2) (hs : Step E c c') :
    Safe E G Q c'.1 c'.2 := by
  obtain ⟨hE⟩ := hs
  exact (call_iff.mp h).2 _ _ hE

theorem of_reach {c c' : Prog Op Ans α × S} (h : Safe E G Q c.1 c.2) (hr : Reach E c c') :
    Safe E G Q c'.1 c'.2 := by
  induction hr with
  | refl => exact h
  | tail _ hs ih => exact ih.of_step hs

/-- What holds of every configuration a run reaches. -/
theorem reached {p : Prog Op Ans α} (h : Safe E G Q p s) {p' : Prog Op Ans α} {s' : S}
    (hr : Reach E (p, s) (p', s')) :
    (∀ o k, p' = .call o k → G s' o) ∧ ∀ a, p' = .ret a → Q a s' := by
  have hs : Safe E G Q p' s' := h.of_reach hr
  refine ⟨?_, ?_⟩
  · rintro o k rfl
    exact (call_iff.mp hs).1
  · rintro a rfl
    exact ret_iff.mp hs

theorem mono {G' : S → Op → Prop} {p : Prog Op Ans α} (h : Safe E G Q p s)
    (hG : ∀ s o, G s o → G' s o) : Safe E G' Q p s := by
  induction h with
  | ret h => exact .ret h
  | call hg _ ih => exact .call (hG _ _ hg) ih

/-- Each call is one the program can make. -/
theorem and_only {P : Op → Prop} {p : Prog Op Ans α} (h : Safe E G Q p s) (hp : Only P p) :
    Safe E (fun s o => G s o ∧ P o) Q p s := by
  induction h with
  | ret h => exact .ret h
  | call hg _ ih =>
    cases hp with
    | call ho hk => exact .call ⟨hg, ho⟩ fun x s' hE => ih x s' hE (hk x)

/-- What every call of a program keeps, the program keeps. -/
theorem invariant {P : Op → Prop} {I : S → Prop} {p : Prog Op Ans α} (hp : Only P p) (hI : I s)
    (hG : ∀ s o, I s → P o → G s o) (hE : ∀ s o x s', I s → P o → E s o x s' → I s') :
    Safe E G (fun _ => I) p s := by
  induction hp generalizing s with
  | ret a => exact .ret hI
  | call ho _ ih => exact .call (hG _ _ hI ho) fun x s' h => ih x (hE _ _ x _ hI ho h)

/-- What returns has run. -/
theorem ran {p : Prog Op Ans α} (h : Safe E G Q p s) :
    Safe E G (fun a s' => Q a s' ∧ Reach E (p, s) (.ret a, s')) p s := by
  induction h with
  | ret h => exact .ret ⟨h, .refl⟩
  | call hg _ ih =>
    refine .call hg fun x s' hE => (ih x s' hE).post fun a s' h => ?_
    exact ⟨h.1, .head (.call hE) h.2⟩

end Safe

/-! ## Without a state -/

section Replies

variable {D : (o : Op) → Ans o → Prop} {P : Op → Prop} {Q : α → Prop} {p : Prog Op Ans α}

end Replies

section Recorded

variable {A : List (Event Op Ans) → (o : Op) → Ans o → Prop}
  {G : List (Event Op Ans) → Op → Prop} {Q : α → List (Event Op Ans) → Prop}
  {tr : List (Event Op Ans)} {o : Op} {k : Ans o → Prog Op Ans α}

/-- The rule for a call whose answer is kept. -/
theorem Safe.record (hg : G tr o)
    (h : ∀ x, A tr o x → Safe (Recorded A) G Q (k x) (tr ++ [⟨o, x⟩])) :
    Safe (Recorded A) G Q (.call o k) tr := by
  refine .call hg fun x tr' hE => ?_
  obtain ⟨hA, rfl⟩ := hE
  exact h x hA

theorem Safe.op_bind (hg : G tr o)
    (h : ∀ x, A tr o x → Safe (Recorded A) G Q (k x) (tr ++ [⟨o, x⟩])) :
    Safe (Recorded A) G Q (Prog.op o >>= k) tr := .record hg h

/-- The history only grows. -/
theorem Safe.grows {p : Prog Op Ans α} (h : Safe (Recorded A) G Q p tr) :
    Safe (Recorded A) G (fun a tr' => Q a tr' ∧ tr <+: tr') p tr := by
  induction h with
  | ret h => exact .ret ⟨h, List.prefix_refl _⟩
  | call hg _ ih =>
    refine .record hg fun x hA => (ih x _ ⟨hA, rfl⟩).post fun a tr' h => ?_
    exact ⟨h.1, (List.prefix_append ..).trans h.2⟩

/-- What a program adds to the history are calls it can make. -/
theorem Safe.only {P : Op → Prop} {p : Prog Op Ans α} (h : Safe (Recorded A) G Q p tr)
    (hp : Only P p) (htr : ∀ e ∈ tr, P e.1) :
    Safe (Recorded A) G (fun a tr' => Q a tr' ∧ ∀ e ∈ tr', P e.1) p tr := by
  induction h with
  | ret h => exact .ret ⟨h, htr⟩
  | call hg _ ih =>
    cases hp with
    | call ho hk =>
      refine .record hg fun x hA => ih x _ ⟨hA, rfl⟩ (hk x) fun e he => ?_
      rcases List.mem_append.mp he with he | he
      · exact htr e he
      · rw [List.mem_singleton.mp he]
        exact ho

/-- A program whose calls are always allowed. -/
theorem Safe.of_only {P : Op → Prop} {p : Prog Op Ans α} (hp : Only P p)
    (hg : ∀ tr o, P o → G tr o) : Safe (Recorded A) G (fun _ _ => True) p tr := by
  induction hp generalizing tr with
  | ret a => exact .ret trivial
  | call ho _ ih => exact .record (hg _ _ ho) fun x _ => ih x

theorem reach_record {c : Prog Op Ans α × List (Event Op Ans)} {x : Ans o} (hA : A tr o x)
    (h : Reach (Recorded A) (k x, tr ++ [⟨o, x⟩]) c) : Reach (Recorded A) (.call o k, tr) c :=
  .head (.call ⟨hA, rfl⟩) h

/-- A list of calls is got through if each has an answer. -/
theorem reach_calls {os : List Op} {f : Unit → Prog Op Ans α}
    (hA : ∀ o ∈ os, ∀ tr, ∃ x, A tr o x) (tr : List (Event Op Ans)) :
    ∃ tr', Reach (Recorded A) (calls os >>= f, tr) (f (), tr') := by
  induction os generalizing tr with
  | nil => exact ⟨tr, .refl⟩
  | cons o os ih =>
    obtain ⟨x, hx⟩ := hA o List.mem_cons_self tr
    obtain ⟨tr', h⟩ := ih (fun o ho => hA o (List.mem_cons_of_mem _ ho)) (tr ++ [⟨o, x⟩])
    exact ⟨tr', reach_record hx h⟩

/-- A run is one where more is answered. -/
theorem Reach.mono {A' : List (Event Op Ans) → (o : Op) → Ans o → Prop}
    {c c' : Prog Op Ans α × List (Event Op Ans)} (h : Reach (Recorded A) c c')
    (hA : ∀ tr o x, A tr o x → A' tr o x) : Reach (Recorded A') c c' := by
  induction h with
  | refl => exact .refl
  | tail _ hs ih =>
    obtain ⟨hE⟩ := hs
    exact ih.tail (.call ⟨hA _ _ _ hE.1, hE.2⟩)

/-- The same run without the history before it. -/
theorem Reach.behind {A' : List (Event Op Ans) → (o : Op) → Ans o → Prop} {p : Prog Op Ans α}
    {c : Prog Op Ans α × List (Event Op Ans)} (h : Reach (Recorded A) (p, tr) c)
    (hA : ∀ es o x, A (tr ++ es) o x → A' es o x) :
    ∃ es, c.2 = tr ++ es ∧ Reach (Recorded A') (p, []) (c.1, es) := by
  induction h with
  | refl => exact ⟨[], (List.append_nil tr).symm, .refl⟩
  | tail _ hs ih =>
    obtain ⟨es, htr, hr⟩ := ih
    obtain ⟨hx, rfl⟩ := hs
    rename_i o k s x _
    obtain rfl : s = tr ++ es := htr
    exact ⟨es ++ [⟨o, x⟩], List.append_assoc .., hr.tail (.call ⟨hA _ _ _ hx, rfl⟩)⟩

/-- A run under restricted answers is a run. -/
theorem Reach.history {c c' : Prog Op Ans α × List (Event Op Ans)}
    (h : Reach (Recorded A) c c') : Reach History c c' := by
  induction h with
  | refl => exact .refl
  | tail _ hs ih =>
    obtain ⟨hE⟩ := hs
    exact ih.tail (.call ⟨trivial, hE.2⟩)

end Recorded

section Follow

variable [DecidableEq Op]

/-- The rest of the program after these calls and answers, if it makes these calls. -/
def follow : List (Event Op Ans) → Prog Op Ans α → Option (Prog Op Ans α)
  | [], p => some p
  | ⟨o, x⟩ :: es, .call o' k => if h : o = o' then follow es (k (h ▸ x)) else none
  | _ :: _, .ret _ => none

/-- A run that makes these calls and gets these answers. -/
theorem reach_recorded_follow {A : List (Event Op Ans) → (o : Op) → Ans o → Prop}
    {es : List (Event Op Ans)} {p p' : Prog Op Ans α} (h : follow es p = some p')
    (hA : ∀ e ∈ es, ∀ tr, A tr e.1 e.2) (tr : List (Event Op Ans)) :
    Reach (Recorded A) (p, tr) (p', tr ++ es) := by
  induction es generalizing p tr with
  | nil =>
    cases h
    rw [List.append_nil]
    exact .refl
  | cons e es ih =>
    obtain ⟨o, x⟩ := e
    cases p with
    | ret a => cases h
    | call o' k =>
      by_cases ho : o = o'
      · subst ho
        rw [follow, dif_pos rfl] at h
        have hrest := ih h (fun e he => hA e (List.mem_cons_of_mem _ he)) (tr ++ [⟨o, x⟩])
        rw [List.append_assoc] at hrest
        exact reach_record (hA _ List.mem_cons_self tr) hrest
      · rw [follow, dif_neg ho] at h
        cases h

theorem reach_follow {es : List (Event Op Ans)} {p p' : Prog Op Ans α}
    (h : follow es p = some p') (tr : List (Event Op Ans)) :
    Reach History (p, tr) (p', tr ++ es) :=
  reach_recorded_follow h (fun _ _ _ => trivial) tr

end Follow

end Interact
