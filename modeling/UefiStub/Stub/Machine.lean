import UefiStub.Gop.Compare
import UefiStub.Pci.Bus
import UefiStub.Stub.Picture
import UefiStub.Stub.Pointers
import UefiStub.Stub.Report

/-!
# A machine that boots

`Machine` puts the firmware of the graphics protocols and a PCI bus behind one
console: every mode can be set and no access fails. Its keyboard answers in any
way. What a part of the stub does on its own firmware it does on the machine
(`run_gop`, `run_bus`), and `Writes` says what the parts do that only print.

The machine itself answers calls through any pointer. `strict` answers none
through `NULL`, which makes no difference to the stub if the machine hands out
no `NULL` (`run_strict`).
-/

namespace UefiStub

open Interact

/-- Frees buffers and answers nothing else. -/
def freesOnly : (o : Op) → Option o.Ans
  | .freePool _ => some efiSuccess
  | _ => none

structure Machine where
  revision : U32
  fwRevision : U32
  fwVendor : List U16
  textMode : U64 → Status × Option U64 × Option U64
  conin : Ptr
  keyEvent : Ptr
  timer : Status × Ptr
  timerSet : Status
  eventFired : Status × Option U64
  keystroke : Status × Option InputKey
  gop : GopFirmware
  bus : PciBus
  located : gop.locateStatus = efiSuccess
  settable : ∀ g m, gop.setStatus g m = efiSuccess
  quiet : gop.other = freesOnly
  reliable : ∀ pci off n, (bus.device pci).fails off n = false
  apart : gop.handles ≠ bus.handles

/-- The graphics protocols, the bus with the console, the memory and the waits. -/
structure MachineRun where
  gop : GopState
  bus : BusRun
  memory : Bytes
  stalls : Nat

/-- After these strings were printed. -/
def MachineRun.print (s : MachineRun) (chunks : List (List U16)) : MachineRun :=
  { s with bus := { s.bus with out := s.bus.out ++ chunks } }

namespace Machine

variable (m : Machine)

/-- A call that the graphics firmware answers. -/
def onGop (o : Op) (s : MachineRun) : Option (o.Ans × MachineRun) :=
  (m.gop.handler o s.gop).map fun x => (x.1, { s with gop := x.2 })

/-- A call that the bus answers. -/
def onBus (o : Op) (s : MachineRun) : Option (o.Ans × MachineRun) :=
  (m.bus.handler o s.bus).map fun x => (x.1, { s with bus := x.2 })

def uefi : Handler Op Op.Ans MachineRun
  | .loadConsoleIn, s => some (m.conin, s)
  | .loadWaitForKey _, s => some (m.keyEvent, s)
  | .createEvent _, s => some (m.timer, s)
  | .setTimer _ _ _, s => some (m.timerSet, s)
  | .waitForEvent _, s => some (m.eventFired, s)
  | .closeEvent _, s => some (efiSuccess, s)
  | .readKeystroke _, s => some (m.keystroke, s)
  | .resetInput _, s => some (efiSuccess, s)
  | .resetOutput _, s => some (efiSuccess, s)
  | .queryTextMode mode, s => some (m.textMode mode, s)
  | .setTextMode _, s => some (efiSuccess, s)
  | .setAttribute _, s => some (efiSuccess, s)
  | .loadRevision, s => some (m.revision, s)
  | .loadFwRevision, s => some (m.fwRevision, s)
  | .loadFwVendor, s => some (m.fwVendor, s)
  | .freePool _, s => some (efiSuccess, s)
  | .stall _, s => some (efiSuccess, { s with stalls := s.stalls + 1 })
  | .store32 addr value, s => some ((), { s with memory := Interact.store32 s.memory addr value })
  | .loadHandle handles i, s =>
    if handles = m.gop.handles then m.onGop (.loadHandle handles i) s
    else m.onBus (.loadHandle handles i) s
  | .locateHandleBuffer .graphicsOutputProtocol, s =>
    m.onGop (.locateHandleBuffer .graphicsOutputProtocol) s
  | .handleProtocol handle .pciIoProtocol, s => m.onBus (.handleProtocol handle .pciIoProtocol) s
  | .handleProtocol handle protocol, s => m.onGop (.handleProtocol handle protocol) s
  | .loadGopMode gop, s => m.onGop (.loadGopMode gop) s
  | .gopQueryMode gop mode, s => m.onGop (.gopQueryMode gop mode) s
  | .loadModeInfo info, s => m.onGop (.loadModeInfo info) s
  | .gopSetMode gop mode, s => m.onGop (.gopSetMode gop mode) s
  | o, s => m.onBus o s

def handler : Handler (Op ⊕ BootOp) (Sum.elim Op.Ans BootOp.Ans) MachineRun
  | .inl o, s => m.uefi o s
  | .inr .loadSignature, s => some (efiSystemTableSignature, s)
  | .inr (.setWatchdogTimer _ _ _ _), s => some (efiSuccess, s)
  | .inr .clearScreen, s => some (efiSuccess, s)
  | .inr (.setCursor _ _), s => some (efiSuccess, s)
  | .inr _, _ => none

variable {m} {s : MachineRun}

/-! ## Pointers -/

/-- What the graphics firmware answers for a run of `efi_setup_gop`. -/
def GopPart (handles : Ptr) : Op → Prop
  | .locateHandleBuffer protocol => protocol = .graphicsOutputProtocol
  | .handleProtocol _ protocol => protocol ≠ .pciIoProtocol
  | .loadHandle handles' _ => handles' = handles
  | _ => True

theorem uefi_gop {o : Op} {x : o.Ans} {r : GopState} (ho : GopPart m.gop.handles o)
    (h : m.gop.handler o s.gop = some (x, r)) : m.uefi o s = some (x, { s with gop := r }) := by
  have hpart : m.onGop o s = some (x, { s with gop := r }) := by rw [onGop, h]; rfl
  cases o with
  | locateHandleBuffer protocol =>
    obtain rfl : protocol = .graphicsOutputProtocol := ho
    exact hpart
  | loadHandle handles i => exact (if_pos ho).trans hpart
  | handleProtocol handle protocol =>
    cases protocol with
    | pciIoProtocol => exact absurd rfl ho
    | _ => exact hpart
  | loadGopMode gop => exact hpart
  | gopQueryMode gop mode => exact hpart
  | loadModeInfo info => exact hpart
  | gopSetMode gop mode => exact hpart
  | freePool buffer =>
    have hother : (m.gop.other (.freePool buffer)).map (fun x => (x, s.gop)) = some (x, r) := h
    rw [m.quiet] at hother
    cases hother
    rfl
  | _ =>
    have hother : (m.gop.other _).map (fun x => (x, s.gop)) = some (x, r) := h
    rw [m.quiet] at hother
    cases hother

variable {α : Type}

theorem run_gop {p : Uefi α} (hp : Only (GopPart m.gop.handles) p) {a : α} {r : GopState}
    (h : run m.gop.handler p s.gop = some (a, r)) :
    run m.uefi p s = some (a, { s with gop := r }) := by
  have hpart (o : Op) (s : MachineRun) (x : o.Ans) (r : GopState) (ho : GopPart m.gop.handles o)
      (h : m.gop.handler o s.gop = some (x, r)) := uefi_gop ho h
  exact hp.run_part MachineRun.gop (fun s r => { s with gop := r }) (fun _ _ => rfl)
    (fun _ _ _ => rfl) (fun _ => rfl) hpart h

theorem run_findGop {num : U64} {gop : Ptr} {r : GopState}
    (h : run m.gop.handler (findGop num m.gop.handles) s.gop = some (gop, r)) :
    run m.uefi (findGop num m.gop.handles) s = some (gop, { s with gop := r }) := by
  refine run_gop ((find_findGopLoop _ _ _ _).mono fun o ho => ?_) h
  cases o <;> first | exact absurd ho id | exact ho

theorem run_setGopMode {debug : Bool} {gop : Ptr} {req : GraphicsMode} {r : GopState}
    (h : run m.gop.handler (setGopMode debug gop req) s.gop = some ((), r)) :
    run m.uefi (setGopMode debug gop req) s = some ((), { s with gop := r }) := by
  refine run_gop ((mode_setGopMode debug gop req).mono fun o ho => ?_) h
  cases o <;> first | exact absurd ho id | trivial

theorem run_freeBuffer (ptr : Ptr) (s : MachineRun) :
    run m.uefi (efiFreeBuffer ptr) s = some ((), s) := by
  unfold efiFreeBuffer
  split <;> rfl

/-! ## The console -/

theorem run_still {p : Uefi α} (hp : Only Still p) (s : MachineRun) :
    ∃ a, run m.uefi p s = some (a, s) :=
  hp.run_still fun o ho => by cases o <;> first | exact absurd ho id | exact ⟨_, rfl⟩

/-- Prints these units and does nothing else. -/
def Writes (m : Machine) (p : Uefi Unit) (us : List U16) : Prop :=
  ∃ chunks, chunks.flatten = us ∧ ∀ s, run m.uefi p s = some ((), s.print chunks)

namespace Writes

variable {p q : Uefi Unit} {us us' : List U16}

theorem bind (hp : m.Writes p us) (hq : m.Writes q us') :
    m.Writes (p >>= fun _ => q) (us ++ us') := by
  obtain ⟨chunks, rfl, hrun⟩ := hp
  obtain ⟨chunks', rfl, hrun'⟩ := hq
  refine ⟨chunks ++ chunks', List.flatten_append, fun s => ?_⟩
  rw [run_bind_of _ (hrun s), hrun', MachineRun.print, MachineRun.print, List.append_assoc]
  rfl

theorem sends {chunks : List (List U16)} (hp : Sends p chunks) : m.Writes p chunks.flatten := by
  refine ⟨chunks, rfl, fun s => ?_⟩
  rw [show p = calls (chunks.map Op.outputString) from hp]
  clear hp
  induction chunks generalizing s with
  | nil => simp [calls, MachineRun.print]
  | cons u chunks ih =>
    have hstep : m.uefi (.outputString u) s = some (efiSuccess, s.print [u]) := rfl
    rw [List.map_cons, calls, run_call, hstep, Option.bind_some, ih]
    simp [MachineRun.print]

theorem text {l : List U8} (h : Says p l) : m.Writes p (asciiUnits l) := by
  obtain ⟨chunks, hsend, hflat⟩ := h.streams
  rw [← hflat]
  exact sends hsend

/-- A call that changes nothing before it. -/
theorem call {o : Op} {x : o.Ans} {k : o.Ans → Uefi Unit} (ho : ∀ s, m.uefi o s = some (x, s))
    (h : m.Writes (k x) us) : m.Writes (Prog.op o >>= k) us := by
  obtain ⟨chunks, rfl, hrun⟩ := h
  refine ⟨chunks, rfl, fun s => ?_⟩
  rw [Prog.op_bind, run_call, ho, Option.bind_some, hrun]

end Writes

/-- The network card and a bridge, and a graphics protocol with two modes. -/
def desk : Machine where
  revision := 0x00020046
  fwRevision := 0x00010000
  fwVendor := [0x45, 0x44, 0x4b]
  textMode _ := (efiDeviceError, none, none)
  conin := 0x5000
  keyEvent := 0x6000
  timer := (efiSuccess, 0x7000)
  timerSet := efiSuccess
  eventFired := (efiSuccess, some 1)
  keystroke := (efiDeviceError, none)
  gop := GopFirmware.deeper
  bus := { PciBus.cardBus with handles := 0x9000 }
  located := rfl
  settable _ _ := rfl
  quiet := funext fun o => by cases o <;> rfl
  reliable _ _ _ := rfl
  apart := by decide

def desk.start : MachineRun :=
  ⟨GopFirmware.deeper.start 2 0, .start PciBus.cardBusConfig, fun _ => 0, 0⟩

end Machine

end UefiStub
