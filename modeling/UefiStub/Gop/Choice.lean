import UefiStub.Gop.Setup
import Mathlib.Data.Prod.Lex
import Mathlib.Order.Bounds.Defs

/-!
# The mode `choose_highest_res` returns

`rank` is what `highest_res` compares, over the integers: the number of pixels,
then the depth. As long as no candidate has `2 ^ 32` pixels or more, the 32-bit
records are ordered as the ranks are. The candidates are scanned by increasing
mode number, so that the scan ends with the first of the greatest.
-/

namespace UefiStub

open Interact

/-- The number of pixels of a mode. -/
def pixelCount (info : ModeInfo) : Nat :=
  info.horizontalResolution.toNat * info.verticalResolution.toNat

/-- The number of pixels first, then the bits of a pixel. -/
def rank (info : ModeInfo) : ℕ ×ₗ ℕ :=
  toLex (pixelCount info, (pixelBpp info.pixelFormat info.pixelInformation).toNat)

theorem toNat_area {info : ModeInfo} (h : pixelCount info < 2 ^ 32) (m : U32) :
    (modeMatch info m).area.toNat = pixelCount info := by
  change (info.horizontalResolution * info.verticalResolution).toNat = _
  rw [BitVec.toNat_mul]
  exact Nat.mod_eq_of_lt h

/-- Where the area does not wrap, the record is ordered as the rank is. -/
theorem key_modeMatch_le_iff {a b : ModeInfo} (ha : pixelCount a < 2 ^ 32)
    (hb : pixelCount b < 2 ^ 32) (m n : U32) :
    (modeMatch a m).key ≤ (modeMatch b n).key ↔ rank a ≤ rank b := by
  have hda := (modeMatch a m).depth.isLt
  have hdb := (modeMatch b n).depth.isLt
  unfold rank
  rw [Prod.Lex.toLex_le_toLex, Match.key, Match.key, toNat_area ha, toNat_area hb]
  change _ ↔ _ ∨ _ ∧ (modeMatch a m).depth.toNat ≤ (modeMatch b n).depth.toNat
  omega

namespace GopFirmware

variable (fw : GopFirmware)

/-- The candidates no candidate ranks above. -/
def greatest (gop : Ptr) (maxMode : U32) : Set U32 :=
  {m | fw.Candidate gop maxMode m ∧
    ∀ n, fw.Candidate gop maxMode n → rank (fw.modeInfo gop n) ≤ rank (fw.modeInfo gop m)}

/-- The other table has the same candidates, and says the same of each. -/
def SameCandidates (fw' : GopFirmware) (gop : Ptr) (maxMode maxMode' : U32) : Prop :=
  ∀ m, (fw.Candidate gop maxMode m ↔ fw'.Candidate gop maxMode' m) ∧
    (fw.Candidate gop maxMode m → fw.modeInfo gop m = fw'.modeInfo gop m)

/-- `free_pool` returns. -/
def Frees : Prop := ∀ buf, fw.other (.freePool buf) ≠ none

variable {fw} {gop : Ptr} {maxMode : U32}

theorem SameCandidates.greatest_eq {fw' : GopFirmware} {maxMode' : U32}
    (h : fw.SameCandidates fw' gop maxMode maxMode') :
    fw.greatest gop maxMode = fw'.greatest gop maxMode' := by
  ext m
  constructor
  · rintro ⟨hm, hmax⟩
    refine ⟨(h m).1.mp hm, fun n hn => ?_⟩
    have hn' := (h n).1.mpr hn
    rw [← (h m).2 hm, ← (h n).2 hn']
    exact hmax n hn'
  · rintro ⟨hm, hmax⟩
    have hm' := (h m).1.mpr hm
    refine ⟨hm', fun n hn => ?_⟩
    rw [(h m).2 hm', (h n).2 hn]
    exact hmax n ((h n).1.mp hn)

/-! ## The scan -/

/-- The candidates are scanned by increasing mode number. -/
theorem candidates_sorted {n : Nat} {m : U32} (h : m.toNat + n ≤ 2 ^ 32) :
    (fw.candidates gop n m).Pairwise fun a b => a.mode ≤ b.mode := by
  induction n generalizing m with
  | zero => exact .nil
  | succ n ih =>
    have hnext (hn : n ≠ 0) : (m + 1).toNat = m.toNat + 1 := by
      rw [BitVec.toNat_add]
      exact Nat.mod_eq_of_lt (by change m.toNat + 1 < _; omega)
    have htail : (fw.candidates gop n (m + 1)).Pairwise fun a b => a.mode ≤ b.mode := by
      rcases Nat.eq_zero_or_pos n with rfl | hn
      · exact .nil
      · exact ih (by rw [hnext (by omega)]; omega)
    unfold candidates
    split
    · refine List.pairwise_cons.mpr ⟨fun b hb => ?_, htail⟩
      obtain ⟨i, hi, -, -, rfl⟩ := mem_candidates.mp hb
      change m ≤ m + 1 + BitVec.ofNat 32 i
      rw [BitVec.le_def, BitVec.toNat_add, BitVec.toNat_ofNat, hnext (by omega)]
      omega
    · exact htail

/-- The scan ends with the smallest mode number among the greatest candidates. -/
theorem best_isLeast
    (harea : ∀ m, fw.Candidate gop maxMode m → pixelCount (fw.modeInfo gop m) < 2 ^ 32)
    (hex : ∃ m, fw.Candidate gop maxMode m ∧ pixelCount (fw.modeInfo gop m) ≠ 0) :
    IsLeast (fw.greatest gop maxMode) (fw.best gop maxMode).mode := by
  have hkey {m n : U32} (hm : fw.Candidate gop maxMode m) (hn : fw.Candidate gop maxMode n) :=
    key_modeMatch_le_iff (harea m hm) (harea n hn) m n
  rcases best_spec gop maxMode with ⟨m, hm, hbest, -⟩ | ⟨-, hzero⟩
  · have hmax (n : U32) (hn : fw.Candidate gop maxMode n) :
        (modeMatch (fw.modeInfo gop n) n).key ≤ (fw.best gop maxMode).key :=
      key_scan_mem Match.key (mem_candidates_zero.mpr ⟨n, hn, rfl⟩) Match.zero
    rw [hbest] at hmax ⊢
    refine ⟨⟨hm, fun n hn => (hkey hn hm).mp (hmax n hn)⟩, fun n ⟨hn, hge⟩ => ?_⟩
    have hsorted : (Match.zero :: fw.candidates gop maxMode.toNat 0).Pairwise
        fun a b => a.mode ≤ b.mode :=
      List.pairwise_cons.mpr ⟨fun b _ => BitVec.le_def.mpr (Nat.zero_le _),
        candidates_sorted (Nat.le_of_lt maxMode.isLt |> Nat.le_trans (by simp))⟩
    have hfirst := scan_first Match.key hsorted
      (List.mem_cons_of_mem _ (mem_candidates_zero.mpr ⟨n, hn, rfl⟩))
      (by change (fw.best gop maxMode).key ≤ _; rw [hbest]; exact (hkey hm hn).mpr (hge m hm))
    change fw.best gop maxMode = _ ∨ (fw.best gop maxMode).mode ≤ _ at hfirst
    rw [hbest] at hfirst
    rcases hfirst with heq | hle
    · exact BitVec.le_of_eq (congrArg Match.mode heq)
    · exact hle
  · -- a candidate with a pixel exceeds the all-zero record
    obtain ⟨m, hm, hpos⟩ := hex
    have hne := hzero m hm
    rw [Match.key, toNat_area (harea m hm)] at hne
    omega

/-! ## The run -/

theorem run_freeBuffer (hfree : fw.Frees) (ptr : Ptr) (s : GopState) :
    ∃ s', run fw.handler (efiFreeBuffer ptr) s = some ((), s') := by
  unfold efiFreeBuffer
  split
  · exact ⟨s, rfl⟩
  · obtain ⟨x, hx⟩ := Option.ne_none_iff_exists'.mp (hfree ptr)
    refine ⟨s, ?_⟩
    simp only [freePool, Prog.op_bind, run_call, handler, hx]
    rfl

theorem chooseModeLoop_returns (hfree : fw.Frees) (n : Nat) (m : U32) (ctx : Match) (s : GopState) :
    ∃ r s', run fw.handler (chooseModeLoop gop highestRes n m ctx) s = some (r, s') := by
  induction n generalizing m ctx s with
  | zero => exact ⟨_, _, rfl⟩
  | succ n ih =>
    simp only [chooseModeLoop, Prog.op_bind, run_call, handler, Option.bind_some]
    split
    · exact ih _ _ _
    · rw [run_bind_of _ (run_highestRes _ _ _ _)]
      obtain ⟨s1, h1⟩ := run_freeBuffer hfree (fw.infoBuffer gop m)
        (if fw.queryStatus gop m = efiSuccess then _ else s)
      rw [run_bind_of _ h1]
      exact ih _ _ _

theorem chooseHighestRes_returns (hfree : fw.Frees) (gop : Ptr) (s : GopState) :
    ∃ s', run fw.handler (chooseHighestRes gop) s =
      some ((fw.best gop (s.gopMode gop).maxMode).mode, s') := by
  obtain ⟨r, s1, h1⟩ := chooseModeLoop_returns hfree (s.gopMode gop).maxMode.toNat 0 Match.zero s
  have hrun : run fw.handler (chooseHighestRes gop) s = some (r.2.mode, s1) := by
    simp only [chooseHighestRes, chooseMode, Prog.op_bind, Prog.call_bind, run_call, handler,
      Option.bind_some, Prog.bind_bind]
    rw [run_bind_of _ h1]
    rfl
  exact ⟨s1, by rw [hrun, (run_chooseHighestRes hrun).1]⟩

/-- **The mode chosen** is the smallest mode number of the greatest candidates, whatever the table
says of the modes that are no candidates. -/
theorem chooseHighestRes_isLeast
    (harea : ∀ m, fw.Candidate gop maxMode m → pixelCount (fw.modeInfo gop m) < 2 ^ 32)
    (hex : ∃ m, fw.Candidate gop maxMode m ∧ pixelCount (fw.modeInfo gop m) ≠ 0) :
    ∃ m, IsLeast (fw.greatest gop maxMode) m ∧ ∀ (fw' : GopFirmware) (s : GopState),
      fw.SameCandidates fw' gop maxMode (s.gopMode gop).maxMode → fw'.Frees →
      ∃ s', run fw'.handler (chooseHighestRes gop) s = some (m, s') := by
  have hleast := best_isLeast harea hex
  refine ⟨_, hleast, fun fw' s hsame hfree => ?_⟩
  have hleast' : IsLeast (fw'.greatest gop (s.gopMode gop).maxMode)
      (fw'.best gop (s.gopMode gop).maxMode).mode := by
    refine best_isLeast (fun m hm => ?_) ?_
    · have hm' := (hsame m).1.mpr hm
      rw [← (hsame m).2 hm']
      exact harea m hm'
    · obtain ⟨m, hm, hpos⟩ := hex
      exact ⟨m, (hsame m).1.mp hm, by rwa [← (hsame m).2 hm]⟩
  rw [hsame.greatest_eq] at hleast
  obtain ⟨s', hrun⟩ := chooseHighestRes_returns hfree gop s
  refine ⟨s', ?_⟩
  rw [hrun, BitVec.le_antisymm (hleast'.2 hleast.1) (hleast.2 hleast'.1)]

/-- Mode zero has no frame buffer, the others are as large, and mode one has fewer bits a pixel. -/
def sameSize : GopFirmware := single efiSuccess fun m => {
  horizontalResolution := 800
  verticalResolution := 600
  pixelFormat := if m = 0 then pixelBltOnly else if m = 1 then pixelBitMask
    else pixelRgbReserved8BitPerColor
  pixelInformation := ⟨0xf800, 0x07e0, 0x001f, 0⟩
  pixelsPerScanLine := 800 }

theorem chooseHighestRes_isLeast_sameSize :
    ∃ m, IsLeast (sameSize.greatest 0x3000 4) m ∧ ∀ (fw' : GopFirmware) (s : GopState),
      sameSize.SameCandidates fw' 0x3000 4 (s.gopMode 0x3000).maxMode → fw'.Frees →
      ∃ s', run fw'.handler (chooseHighestRes 0x3000) s = some (m, s') :=
  chooseHighestRes_isLeast (fun _ _ => by change 800 * 600 < 2 ^ 32; omega)
    ⟨1, ⟨⟨by decide, rfl⟩, by decide⟩, by decide⟩

end GopFirmware

end UefiStub
