import UefiStub.Console.Calls
import UefiStub.Gop.Basic

/-!
# A firmware with graphics protocols

`GopFirmware` answers the calls of `efi_setup_gop` from tables: which handles
have which protocols, which modes a graphics protocol can be asked about and
can be set to, and what each mode is. A successful `set_mode` makes the mode
record describe the mode set, a failed one leaves it as it was. Everything else
it answers in any way, or not at all.
-/

namespace UefiStub

open Interact

structure GopFirmware where
  locateStatus : Status
  numHandles : U64
  handles : Ptr
  handle : U64 → Ptr
  protocol : Ptr → Guid → Status × Ptr
  /-- What a mode of a graphics protocol is. -/
  modeInfo : Ptr → U32 → ModeInfo
  frameBufferBase : Ptr → U32 → U64
  queryStatus : Ptr → U32 → Status
  /-- The pool buffer `query_mode` describes a mode in. -/
  infoBuffer : Ptr → U32 → Ptr
  setStatus : Ptr → U32 → Status
  /-- The other calls. -/
  other : (o : Op) → Option o.Ans

/-- The mode records, the pool buffers with mode information and the `set_mode` calls made,
the last one first. -/
structure GopState where
  gopMode : Ptr → GopMode
  infos : Ptr → ModeInfo
  setModes : List (Ptr × U32)

namespace GopFirmware

variable (fw : GopFirmware)

def describe (gop : Ptr) (m : U32) (mode : GopMode) : GopMode :=
  { mode with mode := m, info := fw.modeInfo gop m, frameBufferBase := fw.frameBufferBase gop m }

/-- The mode records after a `set_mode`. -/
def setTo (gop : Ptr) (m : U32) (modes : Ptr → GopMode) : Ptr → GopMode :=
  if fw.setStatus gop m = efiSuccess then
    Function.update modes gop (fw.describe gop m (modes gop))
  else modes

def handler : Handler Op Op.Ans GopState
  | .locateHandleBuffer _, s => some ((fw.locateStatus, fw.numHandles, fw.handles), s)
  | .loadHandle _ i, s => some (fw.handle i, s)
  | .handleProtocol handle protocol, s => some (fw.protocol handle protocol, s)
  | .loadGopMode gop, s => some (s.gopMode gop, s)
  | .gopQueryMode gop m, s => some ((fw.queryStatus gop m, fw.infoBuffer gop m),
      if fw.queryStatus gop m = efiSuccess then
        { s with infos := Function.update s.infos (fw.infoBuffer gop m) (fw.modeInfo gop m) }
      else s)
  | .loadModeInfo info, s => some (s.infos info, s)
  | .gopSetMode gop m, s => some (fw.setStatus gop m,
      { s with gopMode := fw.setTo gop m s.gopMode, setModes := (gop, m) :: s.setModes })
  | o, s => (fw.other o).map fun x => (x, s)

/-- One graphics protocol, of which every mode can be set. -/
def single (queryStatus : Status) (modeInfo : U32 → ModeInfo) : GopFirmware where
  locateStatus := efiSuccess
  numHandles := 1
  handles := 0x1000
  handle _ := 0x2000
  protocol _ _ := (efiSuccess, 0x3000)
  modeInfo _ m := modeInfo m
  frameBufferBase _ _ := 0x80000000
  queryStatus _ _ := queryStatus
  infoBuffer _ _ := 0x4000
  setStatus _ _ := efiSuccess
  other
    | .freePool _ => some efiSuccess
    | _ => none

/-- Mode `m` is current and none has been set. -/
def start (maxMode m : U32) : GopState where
  gopMode gop := ⟨maxMode, m, fw.modeInfo gop m, fw.frameBufferBase gop m⟩
  infos _ := fw.modeInfo 0 m
  setModes := []

end GopFirmware

/-! ## What sets no mode -/

def Quiet : Op → Prop
  | .gopSetMode _ _ => False
  | _ => True

theorem quiet_console {α : Type} {p : Uefi α} (hp : Only ConsoleCall p) : Only Quiet p :=
  hp.mono fun o ho => by cases o <;> trivial

theorem only_freeBuffer {P : Op → Prop} {ptr : Ptr} (h : P (.freePool ptr)) :
    Only P (efiFreeBuffer ptr) := by
  unfold efiFreeBuffer
  split
  · exact .ret _
  · exact .op_bind h fun _ => .ret _

section Choose

variable {σ : Type} {gop : Ptr} {accept : Ptr → U32 → σ → Uefi (Bool × σ)}

/-- The calls of the scan, from those of the callback on the modes that are left. -/
theorem only_chooseModeLoop {P : Op → Prop} (hquery : ∀ m, P (.gopQueryMode gop m))
    (hfree : ∀ ptr, P (.freePool ptr)) (n : Nat) (m : U32) (ctx : σ)
    (ha : ∀ info m' ctx, m'.toNat < m.toNat + n → Only P (accept info m' ctx)) :
    Only P (chooseModeLoop gop accept n m ctx) := by
  induction n generalizing m ctx with
  | zero => exact .ret _
  | succ n ih =>
    have hnext : (m + 1).toNat ≤ m.toNat + 1 := by
      rw [BitVec.toNat_add]
      exact Nat.mod_le _ _
    have ih' (ctx : σ) := ih (m + 1) ctx fun info m' ctx h => ha info m' ctx (by omega)
    unfold chooseModeLoop
    refine .op_bind (hquery m) fun ⟨status, info⟩ => ?_
    dsimp only
    split
    · exact ih' _
    · refine (ha info m ctx (by omega)).bind fun ⟨matched, ctx⟩ =>
        (only_freeBuffer (hfree _)).bind fun _ => ?_
      dsimp only
      split
      · exact .ret _
      · exact ih' _

theorem quiet_chooseMode (ha : ∀ info m ctx, Only Quiet (accept info m ctx)) (ctx : σ) :
    Only Quiet (chooseMode gop accept ctx) := by
  refine .op_bind trivial fun mode => ?_
  refine (only_chooseModeLoop ?_ ?_ _ _ _ fun info m ctx _ => ha info m ctx).bind fun _ => .ret _
  · exact fun _ => trivial
  · exact fun _ => trivial

end Choose

theorem quiet_highestRes (info : Ptr) (mode : U32) (m : Match) :
    Only Quiet (highestRes info mode m) := .op_bind trivial fun _ => .ret _

/-- All but the first call of `print_list_entry` print. -/
theorem print_listEntry (info : Ptr) (mode currentMode : U32) :
    ∃ f, printListEntry info mode currentMode = Prog.op (.loadModeInfo info) >>= f ∧
      ∀ mi, Only PrintCall (f mi) := by
  refine ⟨_, rfl, fun mi => ?_⟩
  exact (print_puts _).bind fun _ => (print_lift _).bind fun _ => (print_puts _).bind fun _ =>
    (print_puts _).bind fun _ => (print_char16Puts _).bind fun _ =>
    (print_char16Puts _).bind fun _ => (print_puts _).bind fun _ => (print_putd _).bind
    fun _ => (print_puts _).bind fun _ => (print_putd _).bind fun _ => (print_puts _).bind
    fun _ => (print_puts _).bind fun _ => (print_putd _).bind fun _ => (print_puts _).bind
    fun _ => .ret _

theorem console_listEntry (info : Ptr) (mode currentMode : U32) :
    ∃ f, printListEntry info mode currentMode = Prog.op (.loadModeInfo info) >>= f ∧
      ∀ mi, Only ConsoleCall (f mi) := by
  obtain ⟨f, heq, hf⟩ := print_listEntry info mode currentMode
  exact ⟨f, heq, fun mi => console_print (hf mi)⟩

theorem quiet_printListEntry (info : Ptr) (mode currentMode : U32) :
    Only Quiet (printListEntry info mode currentMode) := by
  obtain ⟨f, heq, hf⟩ := console_listEntry info mode currentMode
  rw [heq]
  exact .op_bind trivial fun mi => quiet_console (hf mi)

theorem quiet_printModesList (gop : Ptr) : Only Quiet (printModesList gop) := by
  have hputs (str : CStr) : Only Quiet (efiPuts str) := quiet_console (console_puts str)
  unfold printModesList
  refine .op_bind trivial fun mode => ?_
  refine (hputs _).bind fun _ => (quiet_console (console_putd _)).bind fun _ =>
    (hputs _).bind fun _ => (hputs _).bind fun _ => (hputs _).bind fun _ => (hputs _).bind fun _ =>
    (quiet_chooseMode quiet_printListEntry _).bind fun _ => (hputs _).bind fun _ =>
    (quiet_console (console_waitForKey _)).bind fun ⟨status, _⟩ => ?_
  dsimp only
  split
  · exact (hputs _).bind fun _ => .op_bind trivial fun _ => .ret _
  · exact .ret _

namespace GopFirmware

variable {fw : GopFirmware} {α : Type}

theorem run_lift_none (s : GopState) : run fw.handler (lift (none : Option α)) s = none := by
  have hother : fw.other .ub = none := by
    cases h : fw.other .ub with
    | none => rfl
    | some x => exact x.elim
  simp only [lift, ub, run_call, handler, hother, Option.map_none, Option.bind_none]

/-- A quiet call leaves every mode record as it is. -/
theorem handler_quiet {o : Op} (ho : Quiet o) {s s' : GopState} {x : o.Ans}
    (h : fw.handler o s = some (x, s')) :
    (s'.gopMode, s'.setModes) = (s.gopMode, s.setModes) := by
  cases o <;> first | exact absurd ho id | skip
  case gopQueryMode gop m =>
    cases h
    split <;> rfl
  all_goals
    first
    | (cases h; rfl)
    | (obtain ⟨x, -, hx⟩ := Option.map_eq_some_iff.mp h; cases hx; rfl)

theorem run_quiet {p : Uefi α} (hp : Only Quiet p) {s s' : GopState} {a : α}
    (h : run fw.handler p s = some (a, s')) :
    s'.gopMode = s.gopMode ∧ s'.setModes = s.setModes :=
  Prod.mk.inj (hp.run_frame (fun s => (s.gopMode, s.setModes))
    (fun _ _ _ _ ho h => handler_quiet ho h) h)

end GopFirmware

end UefiStub
