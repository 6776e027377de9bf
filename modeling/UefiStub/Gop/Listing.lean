import UefiStub.Gop.Entry
import UefiStub.Gop.Firmware
import UefiStub.Memory.Pool

/-!
# Listing the modes

`print_modes_list` numbers every mode below `max_mode` that firmware describes.
Under a firmware with `maxMode` modes no run of it is undefined, if there are at
most 1000 modes (`safe_printModesList_defined`); with more there is a run that
gets to the number 1000, for which the buffer is too small
(`reachesUb_printModesList`).
-/

namespace UefiStub

open Interact Interact.Buf

/-- Firmware that offers `maxMode` modes. -/
def Offers (maxMode : U32) (_ : Trace) : (o : Op) → o.Ans → Prop
  | .loadGopMode _, mode => mode.maxMode = maxMode
  | _, _ => True

def Defined (o : Op) : Prop := o ≠ .ub

/-- A run of the program gets to undefined behaviour. -/
def ReachesUb {α : Type} (A : Trace → (o : Op) → o.Ans → Prop) (p : Uefi α) (tr : Trace) : Prop :=
  ∃ k tr', Reach (Recorded A) (p, tr) (.call .ub k, tr')

section Runs

variable {α β σ : Type} {A : Trace → (o : Op) → o.Ans → Prop} {tr : Trace} {maxMode mode : U32}
  {gop : Ptr}

theorem not_reachesUb_of_safe {Q : α → Trace → Prop} {p : Uefi α}
    (h : Safe (Recorded A) (fun _ => Defined) Q p tr) : ¬ReachesUb A p tr := by
  rintro ⟨k, tr', hr⟩
  exact (Safe.call_iff.mp (h.of_reach hr)).1 rfl

namespace ReachesUb

theorem op_bind {o : Op} {k : o.Ans → Uefi α} (x : o.Ans) (hA : A tr o x)
    (h : ReachesUb A (k x) (tr ++ [⟨o, x⟩])) : ReachesUb A (Prog.op o >>= k) tr := by
  obtain ⟨k', tr', hr⟩ := h
  exact ⟨k', tr', reach_record hA hr⟩

theorem seq {p : Uefi α} (h : ReachesUb A p tr) (f : α → Uefi β) : ReachesUb A (p >>= f) tr := by
  obtain ⟨k, tr', hr⟩ := h
  exact ⟨_, tr', hr.bind f⟩

/-- What is printed first is printed. -/
theorem prints {p : Uefi Unit} {f : Unit → Uefi α} (hp : Prints p)
    (hA : ∀ string tr, ∃ x, A tr (.outputString string) x) (h : ∀ tr, ReachesUb A (f ()) tr) :
    ReachesUb A (p >>= f) tr := by
  obtain ⟨chunks, hsend⟩ := hp
  rw [show p = calls (chunks.map Op.outputString) from hsend]
  have hos : ∀ o ∈ chunks.map Op.outputString, ∀ tr, ∃ x, A tr o x := by
    intro o ho
    obtain ⟨string, -, rfl⟩ := List.mem_map.mp ho
    exact hA string
  obtain ⟨tr₁, hr₁⟩ := reach_calls (f := f) hos tr
  obtain ⟨k, tr', hr⟩ := h tr₁
  exact ⟨k, tr', hr₁.trans hr⟩

end ReachesUb

/-! ## At most 1000 modes -/

theorem Prints.defined {p : Uefi Unit} (h : Prints p) : Only Defined p := by
  obtain ⟨chunks, hsend⟩ := h
  rw [show p = calls (chunks.map Op.outputString) from hsend]
  refine .calls fun o ho => ?_
  obtain ⟨string, -, rfl⟩ := List.mem_map.mp ho
  exact nofun

theorem prints_putc {c : U16} (h : c ≠ 0) : Prints (efiChar16Putc c) := by
  have hc : (0 : U16) ∉ [c] := fun h0 => h (List.mem_singleton.mp h0).symm
  exact ⟨[[c]], efiChar16Puts_eq hc [none, none]⟩

theorem defined_printListEntry (h : mode.toNat < 1000) (info : Ptr) (currentMode : U32) :
    Only Defined (printListEntry info mode currentMode) := by
  obtain ⟨buf, hbuf, hinits⟩ := modeDigits_of_lt h
  have hnum : Prints (efiPuts buf.inits) := by
    rw [hinits]
    exact prints_puts (List.mem_append_right _ (List.mem_singleton.mpr rfl))
  have hlit (s : String) : Only Defined (efiPuts (lit s)) := (prints_lit s).defined
  have hputd (value : U64) : Only Defined (efiPutd value) := (prints_putd value).defined
  have hputc {p : Prop} [Decidable p] {a b : U16} (ha : a ≠ 0) (hb : b ≠ 0) :
      Only Defined (efiChar16Putc (if p then a else b)) := by
    split
    · exact (prints_putc ha).defined
    · exact (prints_putc hb).defined
  unfold printListEntry
  simp only [hbuf, lift_some, Prog.ret_bind]
  refine .op_bind nofun fun mi => ?_
  exact (hlit _).bind fun _ => hnum.defined.bind fun _ => (hlit _).bind fun _ =>
    (hputc (by decide) (by decide)).bind fun _ => (hputc (by decide) (by decide)).bind fun _ =>
    (hlit _).bind fun _ => (hputd _).bind fun _ => (hlit _).bind fun _ => (hputd _).bind fun _ =>
    (hlit _).bind fun _ => (hlit _).bind fun _ => (hputd _).bind fun _ => (hlit _).bind fun _ =>
    .ret _

theorem safe_chooseMode_defined (h : maxMode.toNat ≤ 1000) (ctx : U32) :
    Safe (Recorded (Offers maxMode)) (fun _ => Defined) (fun _ _ => True)
      (chooseMode gop printListEntry ctx) tr := by
  refine .op_bind nofun fun mode hmode => ?_
  have hmode : mode.maxMode = maxMode := hmode
  have hscan : Only Defined (chooseModeLoop gop printListEntry mode.maxMode.toNat 0 ctx) := by
    refine only_chooseModeLoop (fun _ => nofun) (fun _ => nofun) _ _ _ fun info m ctx hm => ?_
    have hzero : (0 : U32).toNat = 0 := rfl
    rw [hzero, hmode] at hm
    exact defined_printListEntry (by omega) info ctx
  exact .of_only (hscan.bind fun _ => .ret _) fun _ _ ho => ho

theorem safe_printModesList_defined (h : maxMode.toNat ≤ 1000) :
    Safe (Recorded (Offers maxMode)) (fun _ => Defined) (fun _ _ => True) (printModesList gop)
      tr := by
  have hlit {tr : Trace} (s : String) : Safe (Recorded (Offers maxMode)) (fun _ => Defined)
      (fun _ _ => True) (efiPuts (lit s)) tr := .of_only (prints_lit s).defined fun _ _ ho => ho
  unfold printModesList
  refine .op_bind nofun fun mode _ => (hlit _).seq fun _ _ _ => ?_
  refine (Safe.of_only (prints_putd _).defined fun _ _ ho => ho).seq fun _ _ _ => ?_
  refine (hlit _).seq fun _ _ _ => (hlit _).seq fun _ _ _ => (hlit _).seq fun _ _ _ => ?_
  refine (hlit _).seq fun _ _ _ => (safe_chooseMode_defined h _).seq fun _ _ _ => ?_
  refine (hlit _).seq fun _ _ _ => ?_
  refine (Safe.of_only (only_waitForKey (P := Defined) (fun _ _ ho => ho) _) fun _ _ ho => ho).seq
    fun ⟨status, _⟩ _ _ => ?_
  dsimp only
  split
  · exact (hlit _).seq fun _ _ _ => .op_bind nofun fun _ _ => .ret trivial
  · exact .ret trivial

/-! ## More than 1000 modes -/

/-- Modes that firmware does not describe are passed over. -/
theorem reachesUb_chooseModeLoop {accept : Ptr → U32 → σ → Uefi (Bool × σ)} {ctx : σ} {n : Nat}
    (hA : ∀ m x tr, A tr (.gopQueryMode gop m) x) : ∀ {k : Nat} {m : U32} {tr : Trace},
      (∀ tr, ReachesUb A (chooseModeLoop gop accept n (m + BitVec.ofNat 32 k) ctx) tr) →
        ReachesUb A (chooseModeLoop gop accept (n + k) m ctx) tr
  | 0, m, tr, h => by
    have hm := h tr
    rwa [show BitVec.ofNat 32 0 = 0#32 from rfl, BitVec.add_zero] at hm
  | k + 1, m, tr, h => by
    refine .op_bind (efiNotFound, 0) (hA _ _ _) ?_
    refine reachesUb_chooseModeLoop hA fun tr => ?_
    have hm := h tr
    rwa [Nat.add_comm k 1, BitVec.ofNat_add, ← BitVec.add_assoc] at hm

/-- The number is written past the end of its buffer. -/
theorem reachesUb_printListEntry (h : 1000 ≤ mode.toNat) (info : Ptr) (currentMode : U32) :
    ReachesUb (Offers maxMode) (printListEntry info mode currentMode) tr := by
  unfold printListEntry
  rw [modeDigits_of_le h]
  refine .op_bind ⟨0, 0, 0, ⟨0, 0, 0, 0⟩, 0⟩ trivial ?_
  exact .prints (prints_lit _) (fun _ _ => ⟨efiSuccess, trivial⟩) fun tr => ⟨_, tr, .refl⟩

theorem reachesUb_printModesList (h : 1000 < maxMode.toNat) :
    ReachesUb (Offers maxMode) (printModesList gop) tr := by
  have hout : ∀ string tr, ∃ x, Offers maxMode tr (.outputString string) x :=
    fun _ _ => ⟨efiSuccess, trivial⟩
  have hlit {f : Unit → Uefi U32} {tr : Trace} (s : String)
      (h : ∀ tr, ReachesUb (Offers maxMode) (f ()) tr) :
      ReachesUb (Offers maxMode) (efiPuts (lit s) >>= f) tr := .prints (prints_lit s) hout h
  have hscan (ctx : U32) (tr : Trace) :
      ReachesUb (Offers maxMode) (chooseModeLoop gop printListEntry maxMode.toNat 0 ctx) tr := by
    rw [show maxMode.toNat = maxMode.toNat - 1001 + 1 + 1000 by omega]
    refine reachesUb_chooseModeLoop (fun _ _ _ => trivial) fun tr => ?_
    refine .op_bind (efiSuccess, 0) trivial ?_
    have hmode : 1000 ≤ (0 + BitVec.ofNat 32 1000 : U32).toNat := by decide
    exact (reachesUb_printListEntry hmode 0 ctx).seq _
  have hchoose (ctx : U32) (tr : Trace) :
      ReachesUb (Offers maxMode) (chooseMode gop printListEntry ctx) tr :=
    .op_bind ⟨maxMode, 0, ⟨0, 0, 0, ⟨0, 0, 0, 0⟩, 0⟩, 0⟩ rfl ((hscan ctx _).seq _)
  unfold printModesList
  refine .op_bind ⟨maxMode, 0, ⟨0, 0, 0, ⟨0, 0, 0, 0⟩, 0⟩, 0⟩ rfl ?_
  refine hlit _ fun _ => .prints (prints_putd _) hout fun _ => hlit _ fun _ => hlit _ fun _ => ?_
  exact hlit _ fun _ => hlit _ fun _ => (hchoose _ _).seq _

/-- **The mode list.** No run of it is undefined exactly if firmware has at most 1000 modes. -/
theorem printModesList_defined_iff (maxMode : U32) (gop : Ptr) :
    ¬ReachesUb (Offers maxMode) (printModesList gop) [] ↔ maxMode.toNat ≤ 1000 := by
  constructor
  · intro h
    by_contra hmax
    exact h (reachesUb_printModesList (by omega))
  · exact fun h => not_reachesUb_of_safe (safe_printModesList_defined h)

end Runs

end UefiStub
