import UefiStub.Gop.Firmware
import UefiStub.Memory.Pool

/-!
# Who owns the buffers of `efi_setup_gop`

The firmware gives the run the handle buffer and, at each successful
`query_mode`, a buffer with mode information. The scan over the modes holds at
most one of the latter: `choose_mode` runs its callback on it and releases it
(`safe_chooseModeLoop`), whichever of the two callbacks it is (`Callback`). The
handle buffer is released last. Nothing is assumed of the firmware's answers.
-/

namespace UefiStub

open Interact

/-- A `query_mode` gave the mode information `b`, and its callback has run since. -/
def CallbackRan (tr : Trace) (b : Ptr) : Prop :=
  ∃ tr0 gop m,
    (∃ ctx r, Reach History (highestRes b m ctx,
      tr0 ++ [⟨.gopQueryMode gop m, (efiSuccess, b)⟩]) (.ret r, tr)) ∨
    ∃ ctx r, Reach History (printListEntry b m ctx,
      tr0 ++ [⟨.gopQueryMode gop m, (efiSuccess, b)⟩]) (.ret r, tr)

/-- `locate_handle_buffer` gave the buffer `b`. -/
def HandleBuffer (tr : Trace) (b : Ptr) : Prop :=
  ∃ protocol num, ⟨.locateHandleBuffer protocol, (efiSuccess, num, b)⟩ ∈ tr

/-- Only held buffers have been touched, and what is released next is mode information whose
callback has run, or the handle buffer if nothing else is held. -/
def Owned (tr : Trace) (o : Op) : Prop :=
  (∃ bufs, Held tr bufs) ∧
    ∀ b, o = .freePool b → CallbackRan tr b ∨ HandleBuffer tr b ∧ Held tr [b]

section Calls

variable {tr : Trace} {bufs : List Ptr} {α : Type}

/-- A call that releases nothing. -/
theorem Owned.of_held {o : Op} (h : Held tr bufs) (ho : ∀ b, o ≠ .freePool b) : Owned tr o :=
  ⟨⟨_, h⟩, fun b hb => absurd hb (ho b)⟩

/-- A call that has nothing to do with buffers. -/
theorem safe_other {o : Op} {k : o.Ans → Uefi α} {Q : α → Trace → Prop} (h : Held tr bufs)
    (ho : ∀ x, poolAccess ⟨o, x⟩ = none)
    (hk : ∀ x, Held (tr ++ [⟨o, x⟩]) bufs → Safe History Owned Q (k x) (tr ++ [⟨o, x⟩])) :
    Safe History Owned Q (Prog.op o >>= k) tr := by
  have hfree : ∀ b, o ≠ .freePool b := by
    rintro b rfl
    cases ho efiSuccess
  exact .op_bind (.of_held h hfree) fun x _ => hk x (h.other (ho x))

/-- What the console does leaves the buffers alone. -/
theorem safe_console {p : Uefi α} (hp : Only ConsoleCall p) (h : Held tr bufs) :
    Safe History Owned (fun _ tr' => Held tr' bufs) p tr := by
  induction hp generalizing tr with
  | ret a => exact .ret h
  | @call o k ho _ ih =>
    refine safe_other h (fun x => ?_) fun x h => ih x h
    cases o <;> first | exact absurd ho id | rfl

end Calls

/-! ## Choosing a mode -/

/-- A callback that reads the mode information it is given and releases nothing. -/
structure Callback {σ : Type} (accept : Ptr → U32 → σ → Uefi (Bool × σ)) : Prop where
  keeps {info : Ptr} {m : U32} {ctx : σ} {tr : Trace} {bufs : List Ptr} (h : Held tr bufs)
    (hinfo : info ≠ 0 → info ∈ bufs) :
    Safe History Owned (fun _ tr' => Held tr' bufs) (accept info m ctx) tr
  ran {gop info : Ptr} {m : U32} {ctx : σ} {r : Bool × σ} {tr0 tr : Trace}
    (h : Reach History (accept info m ctx,
      tr0 ++ [⟨.gopQueryMode gop m, (efiSuccess, info)⟩]) (.ret r, tr)) : CallbackRan tr info

theorem callback_highestRes : Callback highestRes where
  keeps h hinfo := .record (.of_held h nofun) fun _ _ => .ret (h.use rfl hinfo)
  ran h := ⟨_, _, _, .inl ⟨_, _, h⟩⟩

theorem callback_printListEntry : Callback printListEntry where
  keeps {info m ctx tr bufs} h hinfo := by
    obtain ⟨f, heq, hf⟩ := console_listEntry info m ctx
    rw [heq]
    exact .op_bind (.of_held h nofun) fun x _ => safe_console (hf x) (h.use rfl hinfo)
  ran h := ⟨_, _, _, .inr ⟨_, _, h⟩⟩

section Choose

variable {σ : Type} {gop : Ptr} {accept : Ptr → U32 → σ → Uefi (Bool × σ)} {tr : Trace}
  {bufs : List Ptr}

/-- The scan gives back every buffer it gets. -/
theorem safe_chooseModeLoop (ha : Callback accept) (n : Nat) (m : U32) (ctx : σ)
    (h : Held tr bufs) :
    Safe History Owned (fun _ tr' => Held tr' bufs) (chooseModeLoop gop accept n m ctx) tr := by
  induction n generalizing tr m ctx with
  | zero => exact .ret h
  | succ n ih =>
    unfold chooseModeLoop
    refine .op_bind (.of_held h fun _ hfree => by cases hfree) fun x _ => ?_
    obtain ⟨status, info⟩ := x
    dsimp only
    by_cases hs : status = efiSuccess
    swap
    · rw [if_pos hs]
      exact ih _ _ (h.other (if_neg hs))
    subst hs
    rw [if_neg fun h => h rfl]
    -- the rest of the loop, once the buffer is released
    have hrest {r : Bool × σ} {tr' : Trace} (h : Held tr' bufs) :
        Safe History Owned (fun _ tr' => Held tr' bufs)
          (if r.1 = true then pure (some m, r.2) else chooseModeLoop gop accept n (m + 1) r.2)
          tr' := by
      split
      · exact .ret h
      · exact ih _ _ h
    by_cases h0 : info = 0
    · have hq := h.acquire_null (e := ⟨.gopQueryMode gop m, (efiSuccess, info)⟩) rfl h0
      refine (ha.keeps hq fun h => absurd h0 h).seq fun r tr' h' => ?_
      unfold efiFreeBuffer
      rw [if_pos h0]
      exact hrest h'
    · have hq := h.acquire (e := ⟨.gopQueryMode gop m, (efiSuccess, info)⟩) rfl h0
      refine (ha.keeps hq fun _ => List.mem_cons_self).ran.seq fun r tr' hr => ?_
      obtain ⟨h', hran⟩ := hr
      unfold efiFreeBuffer
      rw [if_neg h0]
      refine .op_bind ⟨⟨_, h'⟩, fun b hb => ?_⟩ fun x _ => hrest (h'.release x)
      cases hb
      exact .inl (ha.ran hran)

theorem safe_chooseMode (ha : Callback accept) (ctx : σ) (h : Held tr bufs) :
    Safe History Owned (fun _ tr' => Held tr' bufs) (chooseMode gop accept ctx) tr := by
  unfold chooseMode
  refine safe_other h (fun _ => rfl) fun mode h => ?_
  exact (safe_chooseModeLoop ha _ _ _ h).seq fun _ _ h => .ret h

theorem safe_printModesList (h : Held tr bufs) :
    Safe History Owned (fun _ tr' => Held tr' bufs) (printModesList gop) tr := by
  have hputs {tr : Trace} (str : CStr) (h : Held tr bufs) :=
    safe_console (console_puts str) h
  unfold printModesList
  refine safe_other h (fun _ => rfl) fun mode h => ?_
  refine (hputs _ h).seq fun _ _ h => ?_
  refine (safe_console (console_putd _) h).seq fun _ _ h => ?_
  refine (hputs _ h).seq fun _ _ h => (hputs _ h).seq fun _ _ h => ?_
  refine (hputs _ h).seq fun _ _ h => (hputs _ h).seq fun _ _ h => ?_
  refine (safe_chooseMode callback_printListEntry _ h).seq fun _ _ h => ?_
  refine (hputs _ h).seq fun _ _ h => ?_
  refine (safe_console (console_waitForKey _) h).seq fun ⟨status, _⟩ _ h => ?_
  dsimp only
  split
  · refine (hputs _ h).seq fun _ _ h => ?_
    exact safe_other h (fun _ => rfl) fun _ h => .ret h
  · exact .ret h

theorem safe_switchMode {debug : Bool} {currentMode newMode : U32} (h : Held tr bufs) :
    Safe History Owned (fun _ tr' => Held tr' bufs) (switchMode debug gop currentMode newMode)
      tr := by
  have hlist {tr : Trace} (h : Held tr bufs) : Safe History Owned (fun _ tr' => Held tr' bufs)
      (if debug = true then do
        let _ ← printModesList gop
        pure () else pure ()) tr := by
    split
    · exact (safe_printModesList h).seq fun _ _ h => .ret h
    · exact .ret h
  unfold switchMode
  by_cases hne : newMode ≠ currentMode
  · rw [if_pos hne]
    refine safe_other h (fun _ => rfl) fun status hset => ?_
    by_cases hs : status ≠ efiSuccess
    · rw [if_pos hs]
      exact (safe_console (console_puts _) hset).seq fun _ _ h => hlist h
    · rw [if_neg hs]
      exact hlist hset
  · rw [if_neg hne]
    exact hlist h

theorem safe_setGopMode {debug : Bool} {requestedMode : GraphicsMode} (h : Held tr bufs) :
    Safe History Owned (fun _ tr' => Held tr' bufs) (setGopMode debug gop requestedMode) tr := by
  unfold setGopMode
  refine safe_other h (fun _ => rfl) fun mode hmode => ?_
  split
  · refine .seq (Q := fun _ tr' => Held tr' bufs) ?_ fun _ _ h => safe_switchMode h
    exact (safe_chooseMode callback_highestRes _ hmode).seq fun _ _ h => .ret h
  · exact safe_console (console_puts _) hmode

end Choose

/-! ## The whole run -/

section Setup

variable {tr : Trace} {bufs : List Ptr} {handles : Ptr}

theorem quiet_findGopLoop (n : Nat) (i : U64) (firstGop : Ptr) :
    Only Quiet (findGopLoop handles n i firstGop) := by
  induction n generalizing i firstGop with
  | zero => exact .ret _
  | succ n ih =>
    unfold findGopLoop
    refine .op_bind trivial fun handle => .op_bind trivial fun ⟨status, gop⟩ => ?_
    dsimp only
    split
    · exact ih _ _
    refine .op_bind trivial fun mode => ?_
    split
    · exact ih _ _
    refine .op_bind trivial fun ⟨status, _⟩ => ?_
    dsimp only
    split
    · exact .ret _
    · exact ih _ _

/-- The search reads the handles and holds what it held. -/
theorem safe_findGopLoop (hh : handles ≠ 0 → handles ∈ bufs) (n : Nat) (i : U64) (firstGop : Ptr)
    (h : Held tr bufs) :
    Safe History Owned (fun _ tr' => Held tr' bufs) (findGopLoop handles n i firstGop) tr := by
  induction n generalizing tr i firstGop with
  | zero => exact .ret h
  | succ n ih =>
    unfold findGopLoop
    refine .op_bind (.of_held h nofun) fun handle _ => ?_
    have h := h.use (e := ⟨.loadHandle handles i, handle⟩) rfl hh
    refine safe_other h (fun _ => rfl) fun ⟨status, gop⟩ h => ?_
    dsimp only
    split
    · exact ih _ _ h
    refine safe_other h (fun _ => rfl) fun mode h => ?_
    split
    · exact ih _ _ h
    refine safe_other h (fun _ => rfl) fun ⟨status, dummy⟩ h => ?_
    dsimp only
    split
    · exact .ret h
    · exact ih _ _ h

/-- What a run that returns owes its caller. -/
def SetupSettled (si : ScreenInfo) (r : Status × ScreenInfo) (tr : Trace) : Prop :=
  Held tr [] ∧ (r.1 ≠ efiSuccess → r.2 = si ∧ ∀ e ∈ tr, Quiet e.1)

/-- The handle buffer is released where nothing else is held. -/
theorem safe_freeHandles {α : Type} {Q : α → Trace → Prop} {k : Unit → Uefi α}
    (hb : handles ≠ 0 → HandleBuffer tr handles)
    (h : Held tr (if handles = 0 then [] else [handles]))
    (hk : ∀ tr', Held tr' [] → (∀ e ∈ tr', e ∈ tr ∨ Quiet e.1) → Safe History Owned Q (k ()) tr') :
    Safe History Owned Q (efiFreeBuffer handles >>= k) tr := by
  unfold efiFreeBuffer
  by_cases h0 : handles = 0
  · rw [if_pos h0] at h ⊢
    exact hk tr h fun e he => .inl he
  · rw [if_neg h0] at h ⊢
    refine .op_bind ⟨⟨_, h⟩, fun b hb' => ?_⟩ fun x _ => hk _ (h.release x) fun e he => ?_
    · cases hb'
      exact .inr ⟨hb h0, h⟩
    · rcases List.mem_append.mp he with he | he
      · exact .inl he
      · rw [List.mem_singleton.mp he]
        exact .inr trivial

theorem safe_efiSetupGop (debug : Bool) (si : ScreenInfo) (requestedMode : GraphicsMode) :
    Safe History Owned (SetupSettled si) (efiSetupGop debug si requestedMode) [] := by
  unfold efiSetupGop
  refine .op_bind (.of_held .nil nofun) fun ⟨status, num, handles⟩ _ => ?_
  dsimp only
  by_cases hs : status = efiSuccess
  swap
  · rw [if_pos hs]
    refine .ret ⟨Held.nil.other (if_neg hs), fun _ => ⟨rfl, fun e he => ?_⟩⟩
    rw [List.mem_singleton.mp he]
    trivial
  subst hs
  rw [if_neg fun h => h rfl]
  generalize hstart : ([] : Trace) ++ [⟨.locateHandleBuffer .graphicsOutputProtocol,
    (efiSuccess, num, handles)⟩] = start
  have hbuf {tr : Trace} (hpre : start <+: tr) : HandleBuffer tr handles := by
    refine ⟨.graphicsOutputProtocol, num, hpre.subset ?_⟩
    rw [← hstart]
    exact List.mem_singleton.mpr rfl
  have hheld : Held start (if handles = 0 then [] else [handles]) := by
    rw [← hstart]
    split
    · rename_i h0
      exact Held.nil.acquire_null rfl h0
    · rename_i h0
      exact Held.nil.acquire rfl h0
  have hquiet : ∀ e ∈ start, Quiet e.1 := by
    rw [← hstart]
    intro e he
    rw [List.mem_singleton.mp he]
    trivial
  have hmem : handles ≠ 0 → handles ∈ if handles = 0 then [] else [handles] := by
    intro h0
    rw [if_neg h0]
    exact List.mem_singleton.mpr rfl
  refine ((safe_findGopLoop hmem _ _ _ hheld).only (quiet_findGopLoop _ _ _) hquiet).grows.seq
    fun gop tr ⟨⟨h, hq⟩, hpre⟩ => ?_
  split
  · refine safe_freeHandles (fun _ => hbuf hpre) h fun tr' h' hsub => .ret ⟨h', fun _ => ⟨rfl, ?_⟩⟩
    intro e he
    exact (hsub e he).elim (hq e) id
  refine (safe_setGopMode h).grows.seq fun _ tr ⟨h, hpre'⟩ => ?_
  refine safe_other h (fun _ => rfl) fun mode h => ?_
  cases hsi : storeScreenInfo mode si with
  | none => exact .call (.of_held h nofun) fun x => x.elim
  | some si1 =>
    refine safe_freeHandles (fun _ => hbuf ?_) h fun tr' h' _ => .ret ⟨h', fun hn => absurd rfl hn⟩
    exact (hpre.trans hpre').trans (List.prefix_append ..)

end Setup

/-- **Every buffer is released once.** At every step of every run only held buffers have been
touched, mode information is released after its callback and the handle buffer last; a run that
returns holds nothing, and without success it has set no mode and changed nothing. -/
theorem efiSetupGop_releases {debug : Bool} {si : ScreenInfo} {requestedMode : GraphicsMode}
    {p : Uefi (Status × ScreenInfo)} {tr : Trace}
    (h : Reach History (efiSetupGop debug si requestedMode, []) (p, tr)) :
    (∃ bufs, Held tr bufs) ∧
      (∀ b k, p = .call (.freePool b) k → CallbackRan tr b ∨ HandleBuffer tr b ∧ Held tr [b]) ∧
      ∀ r, p = .ret r → SetupSettled si r tr := by
  have hs := (safe_efiSetupGop debug si requestedMode).of_reach h
  cases p with
  | ret r =>
    have hr : SetupSettled si r tr := Safe.ret_iff.mp hs
    refine ⟨⟨_, hr.1⟩, fun _ _ h => (by cases h), fun _ h => ?_⟩
    cases h
    exact hr
  | call o k =>
    obtain ⟨hheld, hfree⟩ := (Safe.call_iff.mp hs).1
    refine ⟨hheld, fun b _ h => ?_, fun _ h => by cases h⟩
    cases h
    exact hfree b rfl

/-- A firmware whose only graphics mode is queried and kept, up to the release of its buffer. -/
def oneQuery : Trace :=
  let mode : GopMode := ⟨1, 0, ⟨640, 480, 0, ⟨0, 0, 0, 0⟩, 640⟩, 0x80000000⟩
  [⟨.locateHandleBuffer .graphicsOutputProtocol, (efiSuccess, 1, 0x1000)⟩,
    ⟨.loadHandle 0x1000 0, 0x2000⟩,
    ⟨.handleProtocol 0x2000 .graphicsOutputProtocol, (efiSuccess, 0x3000)⟩,
    ⟨.loadGopMode 0x3000, mode⟩,
    ⟨.handleProtocol 0x2000 .consoleOutDevice, (efiSuccess, 0)⟩,
    ⟨.loadGopMode 0x3000, mode⟩,
    ⟨.loadGopMode 0x3000, mode⟩,
    ⟨.gopQueryMode 0x3000 0, (efiSuccess, 0x4000)⟩,
    ⟨.loadModeInfo 0x4000, mode.info⟩]

theorem efiSetupGop_releases_oneQuery :
    ∃ k, (∃ bufs, Held oneQuery bufs) ∧
      (∀ b k', (.call (.freePool 0x4000) k : Uefi (Status × ScreenInfo)) = .call (.freePool b) k' →
        CallbackRan oneQuery b ∨ HandleBuffer oneQuery b ∧ Held oneQuery [b]) ∧
      ∀ r, (.call (.freePool 0x4000) k : Uefi (Status × ScreenInfo)) = .ret r →
        SetupSettled ScreenInfo.zero r oneQuery := by
  have hrun : ∃ k, follow oneQuery (efiSetupGop false ScreenInfo.zero graphicsModeAuto) =
      some (.call (.freePool 0x4000) k) := ⟨_, rfl⟩
  obtain ⟨k, hrun⟩ := hrun
  exact ⟨k, efiSetupGop_releases (reach_follow hrun [])⟩

end UefiStub
