import UefiStub.Pci.Probe

/-!
# The sizing loop

A turn that fails no access depends on the registers alone and leaves them as
they were. `found` is what the turns find from a register on; the loop prints
these entries, one after the other, and a run of `print_device_info` the device
line and then them (`run_printDeviceInfo_found`).
-/

namespace UefiStub

open Interact

namespace PciDevice

variable {dev : PciDevice} {pci : Ptr} {s : PciRun} {idx : Nat}

/-- The entries that are printed from register `idx` on. -/
def found (dev : PciDevice) (s : PciRun) : Nat → Nat → List Bar
  | 0, _ => []
  | fuel + 1, idx =>
    if idx < 6 then
      ((turn dev s idx).1.filter (·.fullSize > 0)).toList ++
        found dev s fuel ((turn dev s idx).2 + 1)
    else []

theorem found_succ {fuel : Nat} (h : idx < 6) : found dev s (fuel + 1) idx =
    ((turn dev s idx).1.filter (·.fullSize > 0)).toList ++
      found dev s fuel ((turn dev s idx).2 + 1) := if_pos h

theorem turn_snd (dev : PciDevice) (s : PciRun) (idx : Nat) :
    idx ≤ (turn dev s idx).2 ∧ (turn dev s idx).2 ≤ idx + 1 := by
  unfold turn
  split
  · exact ⟨Nat.le_refl _, Nat.le_succ _⟩
  split
  · exact ⟨Nat.le_refl _, Nat.le_succ _⟩
  split
  · exact ⟨Nat.le_succ _, Nat.le_refl _⟩
  · exact ⟨Nat.le_refl _, Nat.le_succ _⟩

/-- An entry names the register it was found at. -/
theorem bar_of_turn {b : Bar} (h : (turn dev s idx).1 = some b) : b.bar = idx := by
  unfold turn at h
  split at h
  · cases h
  split at h
  · cases h
    rfl
  split at h
  · cases h
    rfl
  · cases h
    rfl

theorem mem_found {b : Bar} {fuel : Nat} (h : b ∈ found dev s fuel idx) :
    ∃ j < 6, (turn dev s j).1 = some b := by
  induction fuel generalizing idx with
  | zero => cases h
  | succ fuel ih =>
    unfold found at h
    split at h
    · rename_i hidx
      rcases List.mem_append.mp h with h | h
      · rw [Option.mem_toList, Option.filter_eq_some_iff] at h
        exact ⟨idx, hidx, h.1⟩
      · exact ih h
    · cases h

theorem report_eq (b : Option Bar) :
    report b = ((b.filter (·.fullSize > 0)).toList.forM printBar) := by
  cases b with
  | none => rfl
  | some b =>
    by_cases h : b.fullSize > 0
    · rw [report, if_pos h, Option.filter_some, if_pos (decide_eq_true h)]
      exact (Prog.bind_ret (printBar b)).symm
    · rw [report, if_neg h, Option.filter_some, if_neg (by simpa using h)]
      rfl

/-! ## Without failing accesses -/

section Sound

variable (hf : ∀ off n, dev.fails off n = false)
include hf

theorem saved_ok (r : Nat) : saved dev s r = reg s.config r := by
  simp only [saved, readBar, hf, Bool.false_eq_true, if_false]

theorem sized_ok (r : Nat) : sized dev s r = ones dev s r := by
  simp only [sized, readBar, hf, Bool.false_eq_true, if_false]

theorem left_ok (r : Nat) : left dev s r = reg s.config r := by
  simp only [left, hf, Bool.false_eq_true, if_false]

theorem turn_congr {s' : PciRun} (h : ∀ r, reg s'.config r = reg s.config r) (idx : Nat) :
    turn dev s' idx = turn dev s idx := by
  simp only [turn, saved_ok hf, sized_ok hf, ones, h]

/-- A turn leaves the registers as they were. -/
theorem Probed.reg_eq {s' : PciRun} {last : Nat} (h : Probed dev s s' idx last) (r : Nat) :
    reg s'.config r = reg s.config r := by
  by_cases hr : idx ≤ r ∧ r ≤ last
  · rw [h.inside r hr.1 hr.2, left_ok hf]
  · exact (h.outside r (by omega)).1

theorem run_barLoop_found {command : U64} {s0 : PciRun} : ∀ (fuel idx : Nat) {s t : PciRun},
    0 < fuel → 6 < fuel + idx → (∀ r, reg s.config r = reg s0.config r) → s.out = t.out →
    ∃ s' t', run dev.handler (barLoop pci command fuel idx) s = some ((), s') ∧
      run dev.handler ((found dev s0 fuel idx).forM printBar) t = some ((), t') ∧ s'.out = t'.out
  | 0, _, _, _, hpos, _, _, _ => absurd hpos (Nat.lt_irrefl 0)
  | fuel + 1, idx, s, t, _, hfuel, hreg, hout => by
    by_cases hidx : idx < 6
    · have hle := (turn_snd dev s0 idx).1
      obtain ⟨s1, hprobed, hrun⟩ := run_barBody (s := s) hidx
      rw [turn_congr hf hreg] at hprobed hrun
      obtain ⟨out, hreport⟩ := run_prints (prints_report (turn dev s0 idx).1)
      obtain ⟨s', t', hs, ht, ho⟩ := run_barLoop_found fuel ((turn dev s0 idx).2 + 1)
        (s := { s1 with out := s1.out ++ out }) (t := { t with out := t.out ++ out })
        (by omega) (by omega) (fun r => (hprobed.reg_eq hf r).trans (hreg r))
        (by rw [hprobed.out, hout])
      refine ⟨s', t', ?_, ?_, ho⟩
      · rw [barLoop, if_pos hidx, hrun, run_bind_of _ (hreport s1), hs]
      · rw [report_eq] at hreport
        rw [found, if_pos hidx, List.forM_eq_forM, List.forM_append]
        exact (run_bind_of _ (hreport t)).trans ht
    · exact ⟨s, t, by rw [barLoop, if_neg hidx]; rfl, by rw [found, if_neg hidx]; rfl, hout⟩

/-- **What a run prints**: the device line and the entries. -/
theorem run_printDeviceInfo_found (pci : Ptr) {config : Config} (h : NormalHeader config) :
    ∃ s t, run dev.handler (printDeviceInfo pci) (.start config) = some (efiSuccess, s) ∧
      run dev.handler (do
        printDevice dev.segment dev.bus dev.device dev.function config.pciClass
        (found dev (.start config) 7 0).forM printBar) (.start config) = some ((), t) ∧
      s.out = t.out := by
  obtain ⟨out, hline⟩ := run_prints
    (prints_device dev.segment dev.bus dev.device dev.function config.pciClass)
  obtain ⟨s, t, hs, ht, ho⟩ := @run_barLoop_found dev pci hf (config.read .uint16 pciCommand 0)
    (.start config) 7 0 { (PciRun.start config).bump pciClassRevision.toNat with out := out }
    { PciRun.start config with out := out } (by omega) (by omega) (fun _ => rfl) rfl
  refine ⟨s, t, ?_, (run_bind_of _ (hline _)).trans ht, ho⟩
  exact (run_printDeviceInfo h).trans ((run_bind_of _ (hline _)).trans (run_bind_of _ hs))

end Sound

end PciDevice

end UefiStub
