import UefiStub.Gop.Setup

/-!
# Which graphics protocol is found

`find_gop` prefers a graphics protocol on a handle that is also a console
output device, and falls back on the first one that has a frame buffer. Both
are decided in one pass over the handles.
-/

namespace UefiStub

open Interact

namespace GopFirmware

variable (fw : GopFirmware) (s : GopState)

/-- The interface that a lookup of the graphics protocol stores. -/
def gopOf (handle : Ptr) : Ptr := (fw.protocol handle .graphicsOutputProtocol).2

/-- The handle has a graphics protocol whose current mode has a direct frame buffer. -/
def DirectGop (handle : Ptr) : Prop :=
  (fw.protocol handle .graphicsOutputProtocol).1 = efiSuccess ∧
    ¬Unusable (s.gopMode (fw.gopOf handle)).info.pixelFormat

/-- The handle is a console output device. -/
def ConsoleOut (handle : Ptr) : Prop := (fw.protocol handle .consoleOutDevice).1 = efiSuccess

instance : DecidablePred (fw.DirectGop s) := fun _ => inferInstanceAs (Decidable (_ ∧ _))

instance : DecidablePred fw.ConsoleOut := fun _ => inferInstanceAs (Decidable (_ = _))

/-- The handles in the buffer from index `i` on. -/
def handlesFrom (i n : Nat) : List Ptr :=
  (List.range' i n).map fun i => fw.handle (BitVec.ofNat 64 i)

/-- Lookups of a graphics protocol that succeed store an interface. -/
def StoresGop : Prop :=
  ∀ handle, (fw.protocol handle .graphicsOutputProtocol).1 = efiSuccess → fw.gopOf handle ≠ 0

/-- The graphics protocol of the first console, or of the first handle that has one to draw on,
or none. -/
structure FindsGop (handles : List Ptr) (gop : Ptr) : Prop where
  console : ∀ handle, FirstWith (fun h => fw.DirectGop s h ∧ fw.ConsoleOut h) handles handle →
    gop = fw.gopOf handle
  direct : (∀ h ∈ handles, ¬(fw.DirectGop s h ∧ fw.ConsoleOut h)) →
    ∀ handle, FirstWith (fw.DirectGop s) handles handle → gop = fw.gopOf handle
  null_iff : gop = 0 ↔ ∀ h ∈ handles, ¬fw.DirectGop s h

/-- In every array of handles with the same usable ones, in this order, the same is found. -/
def IgnoresOthers (num : U64) (gop : Ptr) : Prop :=
  ∀ (handle' : U64 → Ptr) (num' : U64) (handles' : Ptr),
    (handlesFrom { fw with handle := handle' } 0 num'.toNat).filter (fun h => fw.DirectGop s h) =
      (fw.handlesFrom 0 num.toNat).filter (fun h => fw.DirectGop s h) →
    run (handler { fw with handle := handle' }) (findGop num' handles') s = some (gop, s)

/-- The handle that is scanned for. -/
def foundHandle (handles : List Ptr) (held : Option Ptr) : Option Ptr :=
  scanPrefer (fw.DirectGop s) fw.ConsoleOut handles held

/-- The graphics protocol of a handle, `NULL` of none. -/
def heldGop (held : Option Ptr) : Ptr := (held.map fw.gopOf).getD 0

variable {fw s}

/-- The first graphics protocol stays. -/
theorem heldGop_or (hgop : fw.StoresGop) {held : Option Ptr} (hheld : ∀ h ∈ held, fw.DirectGop s h)
    (handle : Ptr) : fw.heldGop (held.or (some handle)) =
      if fw.heldGop held = 0 then fw.gopOf handle else fw.heldGop held := by
  cases held with
  | none => exact (if_pos rfl).symm
  | some h => exact (if_neg (hgop h (hheld h rfl).1)).symm

/-- A turn of the loop at a handle. -/
theorem run_findGopLoop_turn (handles : Ptr) (n : Nat) (i : U64) (firstGop : Ptr) :
    run fw.handler (findGopLoop handles (n + 1) i firstGop) s =
      if fw.DirectGop s (fw.handle i) then
        if fw.ConsoleOut (fw.handle i) then some (fw.gopOf (fw.handle i), s)
        else run fw.handler (findGopLoop handles n (i + 1)
          (if firstGop = 0 then fw.gopOf (fw.handle i) else firstGop)) s
      else run fw.handler (findGopLoop handles n (i + 1) firstGop) s := by
  simp only [findGopLoop, Prog.op_bind, run_call, handler, Option.bind_some]
  generalize fw.handle i = handle
  by_cases hok : (fw.protocol handle .graphicsOutputProtocol).1 = efiSuccess
  · rw [if_neg (not_not.mpr hok)]
    simp only [run_call, handler, Option.bind_some]
    by_cases hu : Unusable (s.gopMode (fw.gopOf handle)).info.pixelFormat
    · rw [if_neg fun h : fw.DirectGop s handle => h.2 hu]
      exact congrArg (run fw.handler · s) (if_pos hu)
    · have hdirect : fw.DirectGop s handle := ⟨hok, hu⟩
      rw [if_pos hdirect]
      refine (congrArg (run fw.handler · s) (if_neg hu)).trans ?_
      simp only [run_call, handler, Option.bind_some]
      by_cases hconsole : fw.ConsoleOut handle
      · rw [if_pos hconsole]
        exact congrArg (run fw.handler · s) (if_pos hconsole)
      · rw [if_neg hconsole]
        exact congrArg (run fw.handler · s) (if_neg hconsole)
  · rw [if_pos hok, if_neg fun h : fw.DirectGop s handle => hok h.1]

theorem handlesFrom_succ (i n : Nat) : fw.handlesFrom i (n + 1) =
    fw.handle (BitVec.ofNat 64 i) :: fw.handlesFrom (i + 1) n := by
  rw [handlesFrom, List.range'_succ]
  rfl

/-- The loop holds the graphics protocol of the handle that the scan holds. -/
theorem run_findGopLoop_scan (hgop : fw.StoresGop) (handles : Ptr) {n i : Nat} {held : Option Ptr}
    (hheld : ∀ h ∈ held, fw.DirectGop s h) :
    run fw.handler (findGopLoop handles n (BitVec.ofNat 64 i) (fw.heldGop held)) s =
      some (fw.heldGop (fw.foundHandle s (fw.handlesFrom i n) held), s) := by
  induction n generalizing i held with
  | zero => rfl
  | succ n ih =>
    have hnext : BitVec.ofNat 64 i + 1 = BitVec.ofNat 64 (i + 1) := (BitVec.ofNat_add ..).symm
    rw [handlesFrom_succ, run_findGopLoop_turn, hnext, foundHandle, scanPrefer]
    generalize fw.handle (BitVec.ofNat 64 i) = handle
    by_cases hdirect : fw.DirectGop s handle
    · rw [if_pos hdirect, if_pos hdirect]
      by_cases hconsole : fw.ConsoleOut handle
      · rw [if_pos hconsole, if_pos hconsole]
        rfl
      · have hheld' : ∀ h ∈ held.or (some handle), fw.DirectGop s h := fun h hh => by
          cases held with
          | none =>
            cases hh
            exact hdirect
          | some h' => exact hheld h hh
        rw [if_neg hconsole, if_neg hconsole, ← heldGop_or hgop hheld]
        exact ih hheld'
    · rw [if_neg hdirect, if_neg hdirect]
      exact ih hheld

theorem run_findGop_scan (hgop : fw.StoresGop) (num : U64) (handles : Ptr) :
    run fw.handler (findGop num handles) s =
      some (fw.heldGop (fw.foundHandle s (fw.handlesFrom 0 num.toNat) none), s) := by
  have hnone : ∀ h ∈ (none : Option Ptr), fw.DirectGop s h := fun h hh => by cases hh
  exact run_findGopLoop_scan (i := 0) hgop handles hnone

/-- What the scan ends with. -/
theorem findsGop_scan (hgop : fw.StoresGop) (handles : List Ptr) :
    fw.FindsGop s handles (fw.heldGop (fw.foundHandle s handles none)) := by
  have heq : fw.foundHandle s handles none = (handles.find? fun h =>
      fw.DirectGop s h ∧ fw.ConsoleOut h).or (handles.find? fun h => fw.DirectGop s h) :=
    scanPrefer_eq _ _ handles none
  refine ⟨fun handle hfirst => ?_, fun hnone handle hfirst => ?_, ?_⟩
  · rw [heq, hfirst.find?]
    rfl
  · have hconsole : (handles.find? fun h => fw.DirectGop s h ∧ fw.ConsoleOut h) = none :=
      List.find?_eq_none.mpr fun h hh => by simp [hnone h hh]
    rw [heq, hconsole, hfirst.find?]
    rfl
  · rw [← scanPrefer_none (fw.DirectGop s) fw.ConsoleOut]
    change fw.heldGop (fw.foundHandle s handles none) = 0 ↔ fw.foundHandle s handles none = none
    cases hfound : fw.foundHandle s handles none with
    | none => exact ⟨fun _ => rfl, fun _ => rfl⟩
    | some h =>
      have hdirect : fw.DirectGop s h := usable_of_scanPrefer _ _ hfound
      exact ⟨fun h0 => absurd h0 (hgop h hdirect.1), fun h => by cases h⟩

/-- **The graphics protocol that is found** is that of the first console with a frame buffer, or
of the first handle with a frame buffer, or `NULL` if there is none; handles without one do not
count. -/
theorem findGop_finds (hgop : fw.StoresGop) (s : GopState) (num : U64) (handles : Ptr) :
    ∃ gop, run fw.handler (findGop num handles) s = some (gop, s) ∧
      fw.FindsGop s (fw.handlesFrom 0 num.toNat) gop ∧ fw.IgnoresOthers s num gop := by
  refine ⟨_, run_findGop_scan hgop num handles, findsGop_scan hgop _, ?_⟩
  intro handle' num' handles' hsame
  have hrun := @run_findGop_scan { fw with handle := handle' } s hgop num' handles'
  have hfound (l : List Ptr) : fw.foundHandle s (l.filter fun h => fw.DirectGop s h) none =
      fw.foundHandle s l none := scanPrefer_filter _ _ _ none
  rw [← hfound, ← hsame, hfound]
  exact hrun

/-- Four handles: one without a graphics protocol, a console without a frame buffer, a handle that
has one but is no console, and a console that has one. -/
def fourHandles : GopFirmware where
  locateStatus := efiSuccess
  numHandles := 4
  handles := 0x1000
  handle i := 0x2001 + i
  protocol handle
    | .graphicsOutputProtocol =>
      if handle = 0x2001 then (efiUnsupported, 0)
      else if handle = 0x2002 then (efiSuccess, 0x3002)
      else (efiSuccess, if handle = 0x2003 then 0x3003 else 0x3004)
    | .consoleOutDevice => (if handle = 0x2003 then efiUnsupported else efiSuccess, 0)
    | .pciIoProtocol => (efiUnsupported, 0)
  modeInfo gop _ :=
    let format := if gop = 0x3002 then pixelBltOnly else pixelRgbReserved8BitPerColor
    ⟨640, 480, format, ⟨0, 0, 0, 0⟩, 640⟩
  frameBufferBase _ _ := 0x80000000
  queryStatus _ _ := efiSuccess
  infoBuffer _ _ := 0x4000
  setStatus _ _ := efiSuccess
  other _ := none

theorem storesGop_fourHandles : fourHandles.StoresGop := by
  intro handle h
  by_cases h1 : handle = 0x2001
  · subst h1
    exact absurd h (by decide)
  change (ite _ _ _ : Status × Ptr).2 ≠ 0
  rw [if_neg h1]
  split
  · exact (by decide : (0x3002 : Ptr) ≠ 0)
  · change ite _ _ _ ≠ (0 : Ptr)
    split <;> decide

theorem findGop_finds_fourHandles :
    run fourHandles.handler (findGop 4 0x1000) (fourHandles.start 1 0) =
      some (0x3004, fourHandles.start 1 0) ∧
    fourHandles.FindsGop (fourHandles.start 1 0) [0x2001, 0x2002, 0x2003, 0x2004] 0x3004 ∧
    fourHandles.IgnoresOthers (fourHandles.start 1 0) 4 0x3004 := by
  have hrun : run fourHandles.handler (findGop 4 0x1000) (fourHandles.start 1 0) =
      some (0x3004, fourHandles.start 1 0) := rfl
  obtain ⟨gop, hfound, hfinds⟩ :=
    @findGop_finds fourHandles storesGop_fourHandles (fourHandles.start 1 0) 4 0x1000
  obtain rfl : gop = 0x3004 := (Prod.mk.inj (Option.some.inj (hfound.symm.trans hrun))).1
  exact ⟨hfound, hfinds⟩

end GopFirmware

end UefiStub
