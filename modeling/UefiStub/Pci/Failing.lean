import UefiStub.Pci.Probe

/-!
# Failing reads

`efi_pci_cfg_read32` drops the status of a read and returns all ones. If it is
the read that saves a register, all ones are written back. So a run leaves
each of the six registers as `left` says, and it keeps them exactly if the
saving read fails only where that writes what is there.
-/

namespace UefiStub

open Interact

namespace PciDevice

variable {dev : PciDevice} {pci : Ptr} {s : PciRun} {command : U64}

/-- **A run of the loop** probes every register from `idx` on, each once. -/
theorem run_barLoop : ∀ (fuel idx : Nat) {s : PciRun}, 6 < fuel + idx → 0 < fuel →
    ∃ s', run dev.handler (barLoop pci command fuel idx) s = some ((), s') ∧
      (∀ r, idx ≤ r → r < 6 → reg s'.config r = left dev s r) ∧
      ∀ r < idx, reg s'.config r = reg s.config r
  | fuel + 1, idx, s, h, _ => by
    unfold barLoop
    by_cases hidx : idx < 6
    · obtain ⟨s1, hprobed, hrun⟩ := run_barBody (s := s) hidx
      have hlast : idx ≤ (turn dev s idx).2 := by
        simp only [turn]; repeat' split
        all_goals simp
      obtain ⟨us, hreport⟩ := run_prints (prints_report (turn dev s idx).1)
      obtain ⟨s', hloop, hnew, hold⟩ := run_barLoop fuel ((turn dev s idx).2 + 1)
        (s := { s1 with out := s1.out ++ us }) (by omega) (by omega)
      refine ⟨s', ?_, fun r hr hr6 => ?_, fun r hr => ?_⟩
      · rw [if_pos hidx, hrun, run_bind_of _ (hreport s1), hloop]
      · by_cases hrl : r ≤ (turn dev s idx).2
        · exact (hold r (by omega)).trans (hprobed.inside r hr hrl)
        · obtain ⟨he, hreads⟩ := hprobed.outside r (.inr (by omega))
          exact (hnew r (by omega) hr6).trans (left_congr he hreads)
      · exact (hold r (by omega)).trans (hprobed.outside r (.inl hr)).1
    · exact ⟨s, by rw [if_neg hidx]; rfl, fun r hr hr6 => absurd hr6 (by omega), fun _ _ => rfl⟩

/-- What a run leaves in the six registers. -/
theorem run_printDeviceInfo_left {config : Config} (h : NormalHeader config) :
    ∃ s', run dev.handler (printDeviceInfo pci) (.start config) = some (efiSuccess, s') ∧
      ∀ r < 6, reg s'.config r = left dev (.start config) r := by
  obtain ⟨us, hline⟩ := run_prints
    (prints_device dev.segment dev.bus dev.device dev.function config.pciClass)
  obtain ⟨s', hloop, hleft, -⟩ := run_barLoop 7 0
    (s := { (PciRun.start config).bump pciClassRevision.toNat with out := us }) (by omega)
    (by omega)
  refine ⟨s', ?_, fun r hr => (hleft r (Nat.zero_le r) hr).trans (left_congr rfl ?_)⟩
  · exact (run_printDeviceInfo h).trans ((run_bind_of _ (hline _)).trans (run_bind_of _ hloop))
  · refine Function.update_of_ne (fun he => ?_) ..
    have : barOffset r = 8 := he
    simp only [barOffset, pciBaseAddress0] at this
    omega

/-- All ones change a value unless its writable bits are ones already. -/
theorem merge_ones_eq_iff {w : Nat} (m a : BitVec w) :
    merge m a (~~~0#w) = a ↔ m &&& ~~~a = 0#w := by
  constructor
  · intro h
    refine BitVec.eq_of_getElem_eq fun i hi => ?_
    have hi' := congrArg (fun x : BitVec w => x[i]) h
    rw [getElem_merge] at hi'
    simp only [BitVec.getElem_not, BitVec.getElem_zero, Bool.not_false] at hi'
    simp only [BitVec.getElem_and, BitVec.getElem_not, BitVec.getElem_zero]
    cases hm : m[i] with
    | false => rfl
    | true => rw [hm, if_pos rfl] at hi'; rw [← hi']; rfl
  · intro h
    refine BitVec.eq_of_getElem_eq fun i hi => ?_
    have hi' := congrArg (fun x : BitVec w => x[i]) h
    simp only [BitVec.getElem_and, BitVec.getElem_not, BitVec.getElem_zero] at hi'
    rw [getElem_merge]
    simp only [BitVec.getElem_not, BitVec.getElem_zero, Bool.not_false]
    cases hm : m[i] with
    | false => rfl
    | true =>
      rw [hm, Bool.true_and, Bool.not_eq_false'] at hi'
      rw [if_pos rfl, hi']

/-- **Read failures.** A run keeps the six registers exactly if the read that saves a register
fails only where the register's writable bits are all ones. -/
theorem printDeviceInfo_keeps_iff (dev : PciDevice) (pci : Ptr) {config : Config}
    (h : NormalHeader config) :
    ∃ s', run dev.handler (printDeviceInfo pci) (.start config) = some (efiSuccess, s') ∧
      ((∀ r < 6, reg s'.config r = reg config r) ↔
        ∀ r < 6, dev.fails (barOffset r) 0 = true → reg dev.mask r &&& ~~~reg config r = 0) := by
  obtain ⟨s', hrun, hleft⟩ := run_printDeviceInfo_left h
  refine ⟨s', hrun, forall₂_congr fun r hr => ?_⟩
  rw [hleft r hr, left]
  change (if dev.fails (barOffset r) 0 = true then merge (reg dev.mask r) (reg config r) (~~~0)
    else reg config r) = reg config r ↔ _
  split
  · rename_i hf
    exact (merge_ones_eq_iff _ _).trans ⟨fun h _ => h, fun h => h hf⟩
  · rename_i hf
    exact ⟨fun _ h => absurd h hf, fun _ => rfl⟩

/-- A device with one 4 KiB memory register in use. -/
def oneBar (fails : Nat → Nat → Bool) : PciDevice where
  segment := 0
  bus := 0
  device := 2
  function := 0
  mask := fun a => if a = 0x11 then 0xf0 else if a = 0x12 ∨ a = 0x13 then 0xff else 0
  fails := fails

/-- Its register 0 at `0xfebf1000`. -/
def oneBarConfig : Config := fun a =>
  if a = 0x11 then 0x10 else if a = 0x12 then 0xbf else if a = 0x13 then 0xfe else 0

theorem printDeviceInfo_keeps_oneBar :
    ∃ s', run (oneBar fun _ _ => false).handler (printDeviceInfo 1) (.start oneBarConfig) =
        some (efiSuccess, s') ∧
      ((∀ r < 6, reg s'.config r = reg oneBarConfig r) ↔ ∀ r < 6, false = true →
        reg (oneBar fun _ _ => false).mask r &&& ~~~reg oneBarConfig r = 0) :=
  printDeviceInfo_keeps_iff (oneBar fun _ _ => false) 1 (by decide)

/-- One failed read, and the register is left all ones. -/
theorem not_printDeviceInfo_keeps : ¬∀ (dev : PciDevice) (pci : Ptr) (config : Config),
    NormalHeader config → ∀ status s',
      run dev.handler (printDeviceInfo pci) (.start config) = some (status, s') →
      ∀ r < 6, reg s'.config r = reg config r := by
  intro hall
  obtain ⟨s', hrun, hleft⟩ := @run_printDeviceInfo_left
    (oneBar fun off n => off == 0x10 && n == 0) 1 oneBarConfig (by decide)
  have hkeep := hall _ 1 oneBarConfig (by decide) _ s' hrun 0 (by decide)
  rw [hleft 0 (by decide)] at hkeep
  exact absurd hkeep (by decide)

end PciDevice

end UefiStub
