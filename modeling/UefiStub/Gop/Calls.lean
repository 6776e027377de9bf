import UefiStub.Gop.Firmware

/-!
# The calls of `efi_setup_gop`

Besides the console's calls `efi_setup_gop` makes those of the graphics
protocol, looks up handles and releases buffers. It stores nothing to the frame
buffer and makes no access to a PCI device.
-/

namespace UefiStub

open Interact

/-- The calls of `set_gop_mode`. -/
def ModeCall : Op → Prop
  | .freePool _ | .loadGopMode _ | .gopQueryMode _ _ | .loadModeInfo _ | .gopSetMode _ _ => True
  | o => ConsoleCall o

def GopCall : Op → Prop
  | .locateHandleBuffer _ | .loadHandle _ _ | .handleProtocol _ _ => True
  | o => ModeCall o

theorem mode_console {α : Type} {p : Uefi α} (hp : Only ConsoleCall p) : Only ModeCall p :=
  hp.mono fun o ho => by cases o <;> first | exact absurd ho id | trivial

theorem gop_mode {α : Type} {p : Uefi α} (hp : Only ModeCall p) : Only GopCall p :=
  hp.mono fun o ho => by cases o <;> first | exact absurd ho id | trivial

/-- The calls of `find_gop`. -/
def FindCall (handles : Ptr) : Op → Prop
  | .loadHandle handles' _ => handles' = handles
  | .handleProtocol _ protocol => protocol ≠ .pciIoProtocol
  | .loadGopMode _ => True
  | _ => False

theorem find_findGopLoop (handles : Ptr) (n : Nat) (i : U64) (firstGop : Ptr) :
    Only (FindCall handles) (findGopLoop handles n i firstGop) := by
  induction n generalizing i firstGop with
  | zero => exact .ret _
  | succ n ih =>
    unfold findGopLoop
    refine .op_bind rfl fun handle => .op_bind nofun fun ⟨status, gop⟩ => ?_
    dsimp only
    split
    · exact ih _ _
    refine .op_bind trivial fun mode => ?_
    split
    · exact ih _ _
    refine .op_bind nofun fun ⟨status, _⟩ => ?_
    dsimp only
    split
    · exact .ret _
    · exact ih _ _

theorem gop_findGopLoop (handles : Ptr) (n : Nat) (i : U64) (firstGop : Ptr) :
    Only GopCall (findGopLoop handles n i firstGop) :=
  (find_findGopLoop handles n i firstGop).mono fun o ho => by
    cases o <;> first | exact absurd ho id | trivial

theorem mode_chooseMode {σ : Type} {gop : Ptr} {accept : Ptr → U32 → σ → Uefi (Bool × σ)}
    (ha : ∀ info m ctx, Only ModeCall (accept info m ctx)) (ctx : σ) :
    Only ModeCall (chooseMode gop accept ctx) := by
  have hquery : ∀ m, ModeCall (.gopQueryMode gop m) := fun _ => trivial
  have hfree : ∀ ptr, ModeCall (.freePool ptr) := fun _ => trivial
  exact .op_bind trivial fun mode =>
    (only_chooseModeLoop hquery hfree _ _ _ fun info m ctx _ => ha info m ctx).bind fun _ => .ret _

theorem mode_printListEntry (info : Ptr) (mode currentMode : U32) :
    Only ModeCall (printListEntry info mode currentMode) := by
  obtain ⟨f, heq, hf⟩ := console_listEntry info mode currentMode
  rw [heq]
  exact .op_bind trivial fun mi => mode_console (hf mi)

theorem mode_printModesList (gop : Ptr) : Only ModeCall (printModesList gop) := by
  have hputs (str : CStr) : Only ModeCall (efiPuts str) := mode_console (console_puts str)
  unfold printModesList
  refine .op_bind trivial fun mode => ?_
  refine (hputs _).bind fun _ => (mode_console (console_putd _)).bind fun _ =>
    (hputs _).bind fun _ => (hputs _).bind fun _ => (hputs _).bind fun _ => (hputs _).bind fun _ =>
    (mode_chooseMode mode_printListEntry _).bind fun _ => (hputs _).bind fun _ =>
    (mode_console (console_waitForKey _)).bind fun ⟨status, _⟩ => ?_
  dsimp only
  split
  · exact (hputs _).bind fun _ => .op_bind trivial fun _ => .ret _
  · exact .ret _

theorem mode_switchMode (debug : Bool) (gop : Ptr) (currentMode newMode : U32) :
    Only ModeCall (switchMode debug gop currentMode newMode) := by
  have hlist : Only ModeCall (if debug = true then do
      let _ ← printModesList gop
      pure () else pure ()) := by
    split
    · exact (mode_printModesList gop).bind fun _ => .ret _
    · exact .ret _
  unfold switchMode
  by_cases hne : newMode ≠ currentMode
  · rw [if_pos hne]
    refine .op_bind trivial fun status => ?_
    by_cases hs : status ≠ efiSuccess
    · rw [if_pos hs]
      exact (mode_console (console_puts _)).bind fun _ => hlist
    · rw [if_neg hs]
      exact hlist
  · rw [if_neg hne]
    exact hlist

theorem mode_setGopMode (debug : Bool) (gop : Ptr) (requestedMode : GraphicsMode) :
    Only ModeCall (setGopMode debug gop requestedMode) := by
  unfold setGopMode
  refine .op_bind trivial fun mode => ?_
  split
  · refine .bind ?_ fun m => mode_switchMode debug gop _ m
    have hrank (info : Ptr) (m : U32) (ctx : Match) : Only ModeCall (highestRes info m ctx) :=
      .op_bind trivial fun _ => .ret _
    exact (mode_chooseMode hrank _).bind fun _ => .ret _
  · exact mode_console (console_puts _)

theorem gop_efiSetupGop (debug : Bool) (si : ScreenInfo) (requestedMode : GraphicsMode) :
    Only GopCall (efiSetupGop debug si requestedMode) := by
  unfold efiSetupGop
  refine .op_bind trivial fun ⟨status, num, handles⟩ => ?_
  dsimp only
  split
  · exact .ret _
  refine (gop_findGopLoop _ _ _ _).bind fun gop => ?_
  have hfree : Only GopCall (efiFreeBuffer handles) := only_freeBuffer trivial
  split
  · exact hfree.bind fun _ => .ret _
  refine (gop_mode (mode_setGopMode debug gop requestedMode)).bind fun _ =>
    .op_bind trivial fun mode => ?_
  exact (gop_mode (mode_console (console_lift _))).bind fun _ => hfree.bind fun _ => .ret _

end UefiStub
