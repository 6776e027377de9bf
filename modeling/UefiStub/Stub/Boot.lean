import UefiStub.Stub.Modes

/-!
# The whole run

Both builds on a `Machine`, up to the loop at the end and in any number of its
turns: `run_efiSetupGop_best` is the graphics, which end in the best mode there
is, and `run_fillScreen` the picture. The DEBUG build lists the modes first.
What both print ends with a report, which `readReport` reads back.
-/

namespace UefiStub

open Interact

namespace Machine

variable {m : Machine} {s t : MachineRun}

/-! ## Graphics -/

theorem frees (m : Machine) : m.gop.Frees := by
  intro buf h
  rw [m.quiet] at h
  exact Option.some_ne_none efiSuccess h

/-- `find_gop` finds this graphics protocol. Its record describes the current mode, its modes have
less than `2 ^ 32` pixels, and one of them has any. -/
structure Ready (m : Machine) (s : MachineRun) (gop : Ptr) : Prop where
  found : run m.gop.handler (findGop m.gop.numHandles m.gop.handles) s.gop = some (gop, s.gop)
  nonnull : gop ≠ 0
  current : m.gop.describe gop (s.gop.gopMode gop).mode (s.gop.gopMode gop) = s.gop.gopMode gop
  areas : ∀ n, m.gop.Candidate gop (s.gop.gopMode gop).maxMode n →
    pixelCount (m.gop.modeInfo gop n) < 2 ^ 32
  offers : ∃ n, m.gop.Candidate gop (s.gop.gopMode gop).maxMode n ∧
    pixelCount (m.gop.modeInfo gop n) ≠ 0

/-- The smallest mode number among the greatest modes. -/
def Best (m : Machine) (s : MachineRun) (gop : Ptr) (n : U32) : Prop :=
  IsLeast (m.gop.greatest gop (s.gop.gopMode gop).maxMode) n

/-- The record in mode `n`. -/
def record (m : Machine) (s : MachineRun) (gop : Ptr) (n : U32) : GopMode :=
  m.gop.describe gop n (s.gop.gopMode gop)

section Graphics

variable {gop : Ptr} {n : U32}

theorem Ready.best (h : m.Ready s gop) (hn : m.Best s gop n) :
    (m.gop.best gop (s.gop.gopMode gop).maxMode).mode = n := by
  have hleast := GopFirmware.best_isLeast h.areas h.offers
  exact BitVec.le_antisymm (hleast.2 hn.1) (hn.2 hleast.1)

theorem run_setGopMode_release {req : GraphicsMode} (h : m.Ready s gop) (hn : m.Best s gop n)
    (hreq : req = graphicsModeAuto ∨ req = graphicsModeHighestResolution) :
    ∃ r, run m.uefi (setGopMode false gop req) s = some ((), { s with gop := r }) ∧
      r.gopMode gop = m.record s gop n := by
  obtain ⟨t, ht⟩ := GopFirmware.chooseHighestRes_returns m.frees gop s.gop
  obtain ⟨r, hr⟩ : ∃ r, run m.gop.handler (setGopMode false gop req) s.gop = some ((), r) := by
    simp only [setGopMode, Prog.op_bind, run_call, GopFirmware.handler, Option.bind_some]
    rw [if_pos hreq, run_bind_of _ ht, switchMode]
    split
    · simp only [Prog.op_bind, run_call, GopFirmware.handler, Option.bind_some, m.settable]
      exact ⟨_, rfl⟩
    · exact ⟨_, rfl⟩
  refine ⟨r, run_setGopMode hr, ?_⟩
  rcases GopFirmware.run_setGopMode hreq hr with ⟨hbest, hsame, -⟩ | ⟨-, hset, -⟩
  · rw [hsame, record, ← h.best hn, hbest, h.current]
  · rw [hset, GopFirmware.setTo, if_pos (m.settable _ _), Function.update_self, h.best hn]
    rfl

end Graphics

/-! ## The picture -/

variable {α β : Type}

/-- A part of the run, on the machine. -/
theorem run_part {p : Uefi α} {a : α} (f : α → Stub β) (h : run m.uefi p s = some (a, t)) :
    run m.handler (p.inl >>= f) s = run m.handler (f a) t :=
  run_bind_of f ((run_inl (fun _ _ => rfl) p s).trans h)

end Machine

end UefiStub
