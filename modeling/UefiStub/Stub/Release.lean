import UefiStub.Gop.Release
import UefiStub.Stub.Calls

/-!
# The buffers of a whole run

`efi_setup_gop` and `efi_setup_pci` are the parts of the entry point that get
pool buffers, and each returns all of them: every other call of the entry point
is made while no buffer is held, whatever firmware answers and however the run
ends.
-/

namespace UefiStub

open Interact

/-- Has nothing to do with buffers. -/
def Bufferless (o : Op) : Prop := ∀ x, poolAccess ⟨o, x⟩ = none

theorem bufferless_talk {o : Op} (ho : Talk o) : Bufferless o := by
  intro x
  cases o <;> first | exact absurd ho id | rfl

theorem bufferless_device {pci : Ptr} {o : Op} (ho : DeviceCall pci o) : Bufferless o := by
  intro x
  cases o <;> first | exact absurd ho id | rfl

theorem bufferless_fill (si : ScreenInfo) : Only Bufferless (fillScreen si) :=
  only_fillScreen (fun x => x.elim) (fun _ _ _ => rfl) si

/-- A history behind another that holds nothing. -/
theorem Held.append {tr tr' : Trace} {bufs : List Ptr} (h : Held tr []) (h' : Held tr' bufs) :
    Held (tr ++ tr') bufs := by
  unfold Held accesses at *
  rw [List.filterMap_append, settle_append, h]
  exact h'

/-! ## The devices -/

section Pci

variable {tr : Trace} {bufs : List Ptr} {α : Type}

/-- Some buffers are held. -/
def SomeHeld (tr : Trace) (_ : Op) : Prop := ∃ bufs, Held tr bufs

theorem safe_bufferless {p : Uefi α} (hp : Only Bufferless p) (h : Held tr bufs) :
    Safe History SomeHeld (fun _ tr => Held tr bufs) p tr :=
  .invariant hp h (fun _ _ h _ => ⟨_, h⟩) fun tr o x tr' h ho hE => by
    rw [hE.2]
    exact h.other (ho x)

theorem held_pciHandleLoop {handles : Ptr} (hh : handles ≠ 0 → handles ∈ bufs) (n : Nat) (i : U64)
    (h : Held tr bufs) :
    Safe History SomeHeld (fun _ tr => Held tr bufs) (pciHandleLoop handles n i) tr := by
  induction n generalizing tr i with
  | zero => exact .ret h
  | succ n ih =>
    unfold pciHandleLoop
    refine .op_bind ⟨_, h⟩ fun handle _ => ?_
    have h := h.use (e := ⟨.loadHandle handles i, handle⟩) rfl hh
    refine .op_bind ⟨_, h⟩ fun x _ => ?_
    have h := h.other (e := ⟨.handleProtocol handle .pciIoProtocol, x⟩) rfl
    obtain ⟨status, pci⟩ := x
    dsimp only
    split
    · exact ih _ h
    · exact (safe_bufferless ((device_printDeviceInfo pci).mono fun _ => bufferless_device) h).seq
        fun _ _ h => ih _ h

/-- The handle buffer is given back. -/
theorem held_efiSetupPci (h : Held tr []) :
    Safe History SomeHeld (fun _ tr => Held tr []) efiSetupPci tr := by
  unfold efiSetupPci
  refine .op_bind ⟨_, h⟩ fun ⟨status, numHandles, handles⟩ _ => ?_
  dsimp only
  by_cases hs : status = efiSuccess
  swap
  · rw [if_pos hs]
    exact .ret (h.other (if_neg hs))
  subst hs
  rw [if_neg fun h => h rfl]
  unfold efiFreeBuffer
  by_cases h0 : handles = 0
  · have h := h.acquire_null (e := ⟨.locateHandleBuffer .pciIoProtocol,
      (efiSuccess, numHandles, handles)⟩) rfl h0
    refine (held_pciHandleLoop (fun hne => absurd h0 hne) _ _ h).seq fun _ tr h => ?_
    rw [if_pos h0]
    exact .ret h
  · have h := h.acquire (e := ⟨.locateHandleBuffer .pciIoProtocol,
      (efiSuccess, numHandles, handles)⟩) rfl h0
    refine (held_pciHandleLoop (fun _ => List.mem_singleton.mpr rfl) _ _ h).seq fun _ tr h => ?_
    rw [if_neg h0]
    exact .op_bind ⟨_, h⟩ fun x _ => .ret (h.release x)

end Pci

/-! ## The entry point -/

/-- Only held buffers have been touched, and none is held where the entry point draws or makes a
call of its own. -/
def Settled (tr : StubTrace) : Op ⊕ BootOp → Prop
  | .inl o => (∃ bufs, Held (lefts tr) bufs) ∧ ∀ addr v, o = .store32 addr v → Held (lefts tr) []
  | .inr _ => Held (lefts tr) []

section Entry

variable {tr : StubTrace} {α : Type} {debug : Bool} {turns : Nat}

/-- A part that has nothing to do with buffers. -/
theorem settled_bufferless {p : Uefi α} (hp : Only Bufferless p) (h : Held (lefts tr) []) :
    Safe History Settled (fun _ tr => Held (lefts tr) []) p.inl tr := by
  have hcalls : Only (fun o => ∃ o', o = .inl o' ∧ Bufferless o') (p.inl : Stub α) :=
    hp.inl fun o ho => ⟨o, rfl, ho⟩
  refine .invariant hcalls h ?_ ?_
  · rintro tr o h ⟨o', rfl, -⟩
    exact ⟨⟨_, h⟩, fun _ _ _ => h⟩
  · rintro tr o x tr' h ⟨o', rfl, ho⟩ hE
    rw [hE.2, lefts_snoc_inl]
    exact h.other (ho x)

theorem settled_talk {p : Uefi α} (hp : Only Talk p) (h : Held (lefts tr) []) :
    Safe History Settled (fun _ tr => Held (lefts tr) []) p.inl tr :=
  settled_bufferless (hp.mono fun _ => bufferless_talk) h

/-- A part that gets buffers and returns them. -/
theorem settled_part {G : Trace → Op → Prop} {p : Uefi α} {Q : α → Trace → Prop}
    (hp : Only (fun o => ∀ addr v, o ≠ .store32 addr v) p) (hG : ∀ tr o, G tr o → SomeHeld tr o)
    (h : Safe History G Q p (lefts tr)) :
    Safe History Settled (fun a tr => Q a (lefts tr)) p.inl tr := by
  have hinl : Safe History (fun tr o => ∀ o', o = .inl o' → G (lefts tr) o')
      (fun a tr => Q a (lefts tr)) (p.inl : Stub α) tr := h.lefts
  have hcalls : Only (fun o => ∃ o', o = .inl o' ∧ ∀ addr v, o' ≠ .store32 addr v)
      (p.inl : Stub α) := hp.inl fun o ho => ⟨o, rfl, ho⟩
  refine (hinl.and_only hcalls).mono fun tr o hg => ?_
  obtain ⟨hg, o', rfl, ho⟩ := hg
  exact ⟨hG _ _ (hg o' rfl), fun addr v h => absurd h (ho addr v)⟩

/-- A call of the entry point itself. -/
theorem settled_boot {o : BootOp} {k : o.Ans → Stub α} {Q : α → StubTrace → Prop}
    (h : Held (lefts tr) [])
    (hk : ∀ x tr, Held (lefts tr) [] → Safe History Settled Q (k x) tr) :
    Safe History Settled Q (boot o >>= k) tr :=
  .op_bind h fun x _ => hk x _ (by rw [lefts_snoc_inr]; exact h)

theorem settled_haltLoop (h : Held (lefts tr) []) :
    Safe History Settled (fun _ tr => Held (lefts tr) []) (haltLoop turns) tr := by
  induction turns generalizing tr with
  | zero => exact .ret h
  | succ n ih => exact settled_boot h fun _ _ h => ih h

theorem settled_stallLoop (h : Held (lefts tr) []) :
    Safe History Settled (fun _ tr => Held (lefts tr) []) (stallLoop turns) tr := by
  induction turns generalizing tr with
  | zero => exact .ret h
  | succ n ih =>
    have hstall : Only Talk (stall (2 * 1000000)) := .call trivial fun x => .ret x
    exact (settled_talk hstall h).seq fun _ _ h => ih h

theorem settled_exit {handle : Ptr} {status : Status} (h : Held (lefts tr) []) :
    Safe History Settled (fun _ tr => Held (lefts tr) []) (efiExit debug turns handle status)
      tr := by
  have hexit {tr : StubTrace} (h : Held (lefts tr) []) : Safe History Settled
      (fun _ tr => Held (lefts tr) []) (do
        let _ ← boot (.exit handle status 0 0)
        haltLoop turns) tr := settled_boot h fun _ _ h => settled_haltLoop h
  have hstall : Only Talk (stall (10 * 1000000)) := .call trivial fun x => .ret x
  unfold efiExit
  cases debug with
  | false => exact hexit h
  | true =>
    refine (settled_talk (talk_lit (by decide)) h).seq fun _ _ h => ?_
    refine (settled_talk (Says.put0h status (by decide)).talk h).seq fun _ _ h => ?_
    refine (settled_talk (talk_lit (by decide)) h).seq fun _ _ h => ?_
    exact (settled_talk hstall h).seq fun _ _ h => hexit h

theorem settled_clearScreen (h : Held (lefts tr) []) :
    Safe History Settled (fun _ tr => Held (lefts tr) []) efiConsoleClearScreen tr := by
  have hattr : Only Talk (setAttribute
      ((consoleAttribute efiConsoleGray efiConsoleBlack).setWidth 64)) :=
    .call trivial fun x => .ret x
  refine (settled_talk hattr h).seq fun _ _ h => ?_
  exact settled_boot h fun _ _ h => settled_boot h fun _ _ h => .ret h

theorem settled_drawAndReport {si : ScreenInfo} (h : Held (lefts tr) []) :
    Safe History Settled (fun _ tr => Held (lefts tr) []) (drawAndReport debug turns si) tr := by
  have hpci : Only (fun o => ∀ addr v, o ≠ .store32 addr v) efiSetupPci :=
    pci_efiSetupPci.mono fun o ho addr v h => by
      rw [h] at ho
      exact ho
  have hrest {tr : StubTrace} (h : Held (lefts tr) []) : Safe History Settled
      (fun _ tr => Held (lefts tr) []) (drawAndReport false turns si) tr := by
    unfold drawAndReport
    refine (settled_bufferless (bufferless_fill si) h).seq fun _ _ h => ?_
    refine (settled_talk talk_uefiInfo h).seq fun _ _ h => ?_
    refine (settled_talk (talk_screen si) h).seq fun _ _ h => ?_
    refine (settled_part hpci (fun _ _ h => h) (held_efiSetupPci h)).seq fun _ _ h => ?_
    refine (settled_talk (talk_lit (by decide)) h).seq fun _ _ h => ?_
    exact settled_stallLoop h
  cases debug with
  | false => exact hrest h
  | true => exact (settled_clearScreen h).seq fun _ _ h => hrest h

theorem settled_setUpAndDraw {imghandle : Ptr} (h : Held (lefts tr) []) : Safe History Settled
    (fun _ tr => Held (lefts tr) []) (setUpAndDraw debug turns imghandle) tr := by
  have hgop : Only (fun o => ∀ addr v, o ≠ .store32 addr v)
      (efiSetupGop debug ScreenInfo.zero graphicsModeHighestResolution) :=
    (gop_efiSetupGop _ _ _).mono fun o ho addr v h => by
      rw [h] at ho
      exact ho
  have hsetup {tr : StubTrace} (h : Held (lefts tr) []) : Safe History Settled
      (fun _ tr => Held (lefts tr) [])
      (efiSetupGop debug ScreenInfo.zero graphicsModeHighestResolution).inl tr := by
    have hrun := (safe_efiSetupGop debug ScreenInfo.zero graphicsModeHighestResolution).shift
      (lefts tr)
    rw [List.append_nil] at hrun
    refine (settled_part hgop ?_ hrun).post ?_
    · rintro tr' o ⟨es, rfl, ⟨bufs, ho⟩, -⟩
      exact ⟨bufs, h.append ho⟩
    · rintro r tr' ⟨es, htr, hend, -⟩
      rw [htr]
      exact h.append hend
  unfold setUpAndDraw
  refine (hsetup h).seq fun ⟨status, si⟩ tr h => ?_
  dsimp only
  split
  · exact (settled_talk (talk_lit (by decide)) h).seq fun _ _ h => settled_exit h
  · exact settled_drawAndReport h

theorem settled_entry {imghandle : Ptr} : Safe History Settled (fun _ tr => Held (lefts tr) [])
    (uefistubPeEntry debug turns imghandle) [] := by
  unfold uefistubPeEntry
  refine settled_boot .nil fun signature tr h => ?_
  split
  · exact settled_exit h
  refine (settled_talk (talk_still still_consoleReset) h).seq fun _ _ h => ?_
  cases debug with
  | false => exact settled_setUpAndDraw h
  | true =>
    refine settled_boot h fun _ _ h => ?_
    exact (settled_clearScreen h).seq fun _ _ h => settled_setUpAndDraw h

end Entry

/-- **No buffer is lost.** At every step of every run of the stub, in both builds, only held pool
buffers have been touched and none twice released; none is held where the entry point draws,
exits or makes another call of its own, nor in its last loop. -/
theorem uefistubPeEntry_releases {debug : Bool} {turns : Nat} {imghandle : Ptr} {p : Stub Unit}
    {tr : StubTrace} (h : Reach History (uefistubPeEntry debug turns imghandle, []) (p, tr)) :
    (∀ o k, p = .call o k → Settled tr o) ∧ ∀ u, p = .ret u → Held (lefts tr) [] :=
  settled_entry.reached h

/-- A protocol with one mode, whose description has been read. -/
def oneDescribed : StubTrace :=
  let mode : GopMode := ⟨1, 0, ⟨1, 1, 0, ⟨0, 0, 0, 0⟩, 1⟩, 0x80000000⟩
  consoleReady ++ [⟨.inl (.locateHandleBuffer .graphicsOutputProtocol), (efiSuccess, 1, 0x1000)⟩,
    ⟨.inl (.loadHandle 0x1000 0), (0x2000 : Ptr)⟩,
    ⟨.inl (.handleProtocol 0x2000 .graphicsOutputProtocol), (efiSuccess, 0x3000)⟩,
    ⟨.inl (.loadGopMode 0x3000), mode⟩,
    ⟨.inl (.handleProtocol 0x2000 .consoleOutDevice), (efiSuccess, 0)⟩,
    ⟨.inl (.loadGopMode 0x3000), mode⟩,
    ⟨.inl (.loadGopMode 0x3000), mode⟩,
    ⟨.inl (.gopQueryMode 0x3000 0), (efiSuccess, 0x4000)⟩,
    ⟨.inl (.loadModeInfo 0x4000), mode.info⟩]

/-- Both buffers have been released. -/
def bothReleased : StubTrace :=
  oneDescribed ++ [⟨.inl (.freePool 0x4000), efiSuccess⟩,
    ⟨.inl (.loadGopMode 0x3000), ⟨1, 0, ⟨1, 1, 0, ⟨0, 0, 0, 0⟩, 1⟩, 0x80000000⟩⟩,
    ⟨.inl (.freePool 0x1000), efiSuccess⟩]

set_option maxRecDepth 8192 in
/-- Where the description is released while the handles are held, and where drawing starts. -/
theorem uefistubPeEntry_releases_oneDescribed :
    Held (lefts oneDescribed) [0x4000, 0x1000] ∧
    (∃ k, follow oneDescribed (uefistubPeEntry false 3 1) =
      some (.call (.inl (.freePool 0x4000)) k) ∧ Settled oneDescribed (.inl (.freePool 0x4000))) ∧
    ∃ k, follow bothReleased (uefistubPeEntry false 3 1) =
      some (.call (.inl (.store32 0x80000000 (fillPixel trueColorScreen))) k) ∧
        Held (lefts bothReleased) [] := by
  have hfree : ∃ k, follow oneDescribed (uefistubPeEntry false 3 1) =
      some (.call (.inl (.freePool 0x4000)) k) := ⟨_, rfl⟩
  have hdraw : ∃ k, follow bothReleased (uefistubPeEntry false 3 1) =
      some (.call (.inl (.store32 0x80000000 (fillPixel trueColorScreen))) k) := ⟨_, rfl⟩
  obtain ⟨k, hk⟩ := hfree
  obtain ⟨k', hk'⟩ := hdraw
  refine ⟨rfl, ⟨k, hk, (uefistubPeEntry_releases (reach_follow hk [])).1 _ k rfl⟩, k', hk', ?_⟩
  exact ((uefistubPeEntry_releases (reach_follow hk' [])).1 _ k' rfl).2 _ _ rfl

end UefiStub
