import UefiStub.Console.Basic
import UefiStub.Lib.Records

/-!
# The choice of a text mode

`efi_console_reset` looks for the text mode with the largest area among modes 0
to 63, and takes a mode only if it is no narrower than the one it holds. The
width it asks for grows with every mode it takes: a mode that is taken early
can be too wide for the largest mode, which is then passed over.
-/

namespace UefiStub

open Interact

/-- The columns and rows of a text mode. -/
abbrev TextSize := U64 × U64

def TextSize.area (s : TextSize) : Nat := s.2.toNat * s.1.toNat

/-- 80x25, the size of mode 0. -/
def defaultSize : TextSize := (80, 25)

/-- A firmware with text modes. -/
structure TextFirmware where
  conin : Ptr
  inputStatus : Status
  outputStatus : Status
  /-- The answer of `query_mode`. -/
  query : U64 → Status × Option U64 × Option U64
  setStatus : U64 → Status

namespace TextFirmware

variable (fw : TextFirmware)

/-- The state is the list of the modes set, the last one first. -/
def handler : Handler Op Op.Ans (List U64)
  | .loadConsoleIn, s => some (fw.conin, s)
  | .resetInput _, s => some (fw.inputStatus, s)
  | .resetOutput _, s => some (fw.outputStatus, s)
  | .queryTextMode mode, s => some (fw.query mode, s)
  | .setTextMode mode, s => some (fw.setStatus mode, mode :: s)
  | _, _ => none

/-- The size of a mode that can be queried; what is not stored is zero. -/
def queried (mode : U64) : Option TextSize :=
  if (fw.query mode).1 = efiSuccess then
    some ((fw.query mode).2.1.getD 0, (fw.query mode).2.2.getD 0)
  else none

/-- The size of mode 0 and of the modes 1 to 63 that can be queried. -/
def modeSize (mode : U64) : Option TextSize :=
  if mode = 0 then some defaultSize else if mode < 64 then fw.queried mode else none

/-- The sizes of the modes from 1 on, in the order the firmware lists them. -/
def sizes : List TextSize := (List.range' 1 63).filterMap fun i => fw.queried (BitVec.ofNat 64 i)

/-- The products of columns and rows fit in 64 bits. -/
def Fits : Prop := ∀ s ∈ fw.sizes, s.area < 2 ^ 64

/-- The mode has at least 80 columns, and no such mode is larger. -/
def Largest (mode : U64) : Prop :=
  ∃ s, fw.modeSize mode = some s ∧ 80 ≤ s.1 ∧
    ∀ mode' s', fw.modeSize mode' = some s' → 80 ≤ s'.1 → s'.area ≤ s.area

/-- `efi_console_reset` sets one mode, which is a largest one. -/
def SetsLargest : Prop :=
  ∃ mode, run fw.handler efiConsoleReset [] = some ((), [mode]) ∧ fw.Largest mode

end TextFirmware

/-! ## The scan -/

def TextMode.size (m : TextMode) : TextSize := (m.columns, m.rows)

/-- A mode in the list of sizes that replaces the one held. -/
abbrev Larger : TextSize → TextSize → Prop := Above TextSize.area fun s => s.1.toNat

/-- A size that no other of at least 80 columns exceeds. -/
abbrev LargestSize (sizes : List TextSize) (s : TextSize) : Prop :=
  Greatest TextSize.area (fun s => s.1.toNat) defaultSize sizes s

theorem size_keep {held : TextMode} {i x y : U64} (hheld : held.size.area < 2 ^ 64)
    (h : TextSize.area (x, y) < 2 ^ 64) :
    (held.keep i x y).size = climb Larger held.size (x, y) := by
  have htest : (y * x > held.rows * held.columns ∧ x ≥ held.columns) ↔
      Larger held.size (x, y) := by
    refine and_congr ?_ BitVec.le_def
    rw [gt_iff_lt, BitVec.lt_def, BitVec.toNat_mul, BitVec.toNat_mul,
      Nat.mod_eq_of_lt (show y.toNat * x.toNat < 2 ^ 64 from h),
      Nat.mod_eq_of_lt (show held.rows.toNat * held.columns.toNat < 2 ^ 64 from hheld)]
    exact Iff.rfl
  unfold TextMode.keep climb
  by_cases hlarger : Larger held.size (x, y)
  · rw [if_pos hlarger, if_pos (htest.mpr hlarger)]
    rfl
  · rw [if_neg hlarger, if_neg (htest.not.mpr hlarger)]

/-- The numbers the loop runs through. -/
theorem listed_ofNat {i : Nat} (h0 : 0 < i) (h : i < 64) :
    BitVec.ofNat 64 i ≠ 0 ∧ BitVec.ofNat 64 i < 64 := by
  rw [← BitVec.toNat_inj.ne, BitVec.lt_def, BitVec.toNat_ofNat]
  change i % 2 ^ 64 ≠ 0 ∧ i % 2 ^ 64 < 64
  omega

namespace TextFirmware

variable {fw : TextFirmware} {s : TextSize}

theorem queried_eq_some {mode : U64} : fw.queried mode = some s ↔
    (fw.query mode).1 = efiSuccess ∧
      s = ((fw.query mode).2.1.getD 0, (fw.query mode).2.2.getD 0) := by
  unfold queried
  split
  · rename_i h
    rw [Option.some_inj, eq_comm, and_iff_right h]
  · rename_i h
    simp [h]

theorem modeSize_listed {i : Nat} (h0 : 0 < i) (h : i < 64) :
    fw.modeSize (BitVec.ofNat 64 i) = fw.queried (BitVec.ofNat 64 i) := by
  obtain ⟨hne, hlt⟩ := listed_ofNat h0 h
  rw [modeSize, if_neg hne, if_pos hlt]

/-- What the loop holds is a mode with its size. -/
def Holding (fw : TextFirmware) (held : TextMode) : Prop :=
  fw.modeSize held.mode = some held.size ∧ held.size.area < 2 ^ 64

/-- A turn that a mode can be queried in. -/
theorem Holding.keep {held : TextMode} {i : Nat} (hheld : fw.Holding held) (h0 : 0 < i)
    (h : i < 64) {x y : U64} (hq : fw.queried (BitVec.ofNat 64 i) = some (x, y))
    (harea : TextSize.area (x, y) < 2 ^ 64) :
    fw.Holding (held.keep (BitVec.ofNat 64 i) x y) := by
  unfold TextMode.keep
  split
  · exact ⟨(modeSize_listed h0 h).trans hq, harea⟩
  · exact hheld

/-- The loop ends with a mode whose size is the scan of the sizes. -/
theorem run_textModeLoop {n i : Nat} {held : TextMode} (st : List U64) (h0 : 0 < i)
    (hn : i + n ≤ 64) (hheld : fw.Holding held)
    (hfits : ∀ j, i ≤ j → j < i + n → ∀ s, fw.queried (BitVec.ofNat 64 j) = some s →
      s.area < 2 ^ 64) :
    ∃ held', run fw.handler (textModeLoop n (BitVec.ofNat 64 i) held) st = some (held', st) ∧
      fw.Holding held' ∧
      held'.size = ((List.range' i n).filterMap fun i => fw.queried (BitVec.ofNat 64 i)).foldl
        (climb Larger) held.size := by
  induction n generalizing i held with
  | zero => exact ⟨held, rfl, hheld, rfl⟩
  | succ n ih =>
    have hnext : BitVec.ofNat 64 i + 1 = BitVec.ofNat 64 (i + 1) := (BitVec.ofNat_add ..).symm
    have hrest := fun j (hj : i + 1 ≤ j) (hjn : j < i + 1 + n) =>
      hfits j (by omega) (by omega)
    rw [List.range'_succ, List.filterMap_cons]
    by_cases hok : (fw.query (BitVec.ofNat 64 i)).1 = efiSuccess
    · have hq := queried_eq_some.mpr ⟨hok, rfl⟩
      have harea := hfits i (Nat.le_refl i) (by omega) _ hq
      obtain ⟨held', hrun, hmode, hscan⟩ := ih (i := i + 1) (by omega) (by omega)
        (hheld.keep h0 (by omega) hq harea) hrest
      refine ⟨held', ?_, hmode, ?_⟩
      · rw [← hrun, ← hnext, textModeLoop]
        simp only [Prog.op_bind, run_call, handler, Option.bind_some, hok, ne_eq, not_true_eq_false,
          if_false]
      · rw [hscan, size_keep hheld.2 harea, hq]
        rfl
    · have hq : fw.queried (BitVec.ofNat 64 i) = none := if_neg hok
      obtain ⟨held', hrun, hmode, hscan⟩ := ih (i := i + 1) (by omega) (by omega) hheld hrest
      refine ⟨held', ?_, hmode, ?_⟩
      · rw [← hrun, ← hnext, textModeLoop]
        simp only [Prog.op_bind, run_call, handler, Option.bind_some, ne_eq, hok, not_false_eq_true,
          if_true]
      · rw [hscan, hq]

theorem mem_sizes : s ∈ fw.sizes ↔ ∃ mode, mode ≠ 0 ∧ fw.modeSize mode = some s := by
  rw [sizes, List.mem_filterMap]
  constructor
  · rintro ⟨i, hi, hq⟩
    rw [List.mem_range'_1] at hi
    exact ⟨_, (listed_ofNat hi.1 hi.2).1, (modeSize_listed hi.1 hi.2).trans hq⟩
  · rintro ⟨mode, h0, hq⟩
    rw [modeSize, if_neg h0] at hq
    split at hq
    · rename_i hlt
      have hlt : mode.toNat < 64 := BitVec.lt_def.mp hlt
      have h0 : mode.toNat ≠ 0 := BitVec.toNat_inj.ne.mpr h0
      refine ⟨mode.toNat, List.mem_range'_1.mpr ⟨by omega, by omega⟩, ?_⟩
      rw [BitVec.ofNat_toNat, BitVec.setWidth_eq]
      exact hq
    · cases hq

theorem mem_all_sizes : s ∈ defaultSize :: fw.sizes ↔ ∃ mode, fw.modeSize mode = some s := by
  rw [List.mem_cons, mem_sizes]
  constructor
  · rintro (rfl | ⟨mode, -, h⟩)
    · exact ⟨0, if_pos rfl⟩
    · exact ⟨mode, h⟩
  · rintro ⟨mode, h⟩
    by_cases h0 : mode = 0
    · rw [modeSize, if_pos h0, Option.some_inj] at h
      exact .inl h.symm
    · exact .inr ⟨mode, h0, h⟩

/-- A mode is largest if its size is. -/
theorem largest_iff {mode : U64} (h : fw.modeSize mode = some s) :
    fw.Largest mode ↔ LargestSize fw.sizes s := by
  constructor
  · rintro ⟨s', hs', hwide, hmax⟩
    cases h.symm.trans hs'
    refine ⟨mem_all_sizes.mpr ⟨mode, h⟩, BitVec.le_def.mp hwide, fun b hb hw => ?_⟩
    obtain ⟨mode', hb⟩ := mem_all_sizes.mp hb
    exact hmax mode' b hb (BitVec.le_def.mpr hw)
  · intro hs
    exact ⟨s, h, BitVec.le_def.mpr hs.wide, fun mode' s' h' hw =>
      hs.max s' (mem_all_sizes.mpr ⟨mode', h'⟩) (BitVec.le_def.mp hw)⟩

/-- The mode set has the size the scan ends with. -/
theorem setsLargest_iff (h : fw.Fits) :
    fw.SetsLargest ↔ LargestSize fw.sizes (fw.sizes.foldl (climb Larger) defaultSize) := by
  have hstart : fw.Holding TextMode.default := ⟨if_pos rfl, by decide⟩
  have hfits := fun j (hj : 1 ≤ j) (hjn : j < 1 + 63) s hs =>
    h s (List.mem_filterMap.mpr ⟨j, List.mem_range'_1.mpr ⟨hj, hjn⟩, hs⟩)
  obtain ⟨held, hrun, hmode, hscan⟩ :=
    run_textModeLoop [] (by decide) (by decide) hstart hfits
  have hreset : run fw.handler efiConsoleReset [] = some ((), [held.mode]) := by
    simp only [efiConsoleReset, Prog.op_bind, run_call, handler, Option.bind_some]
    exact run_bind_of _ hrun
  have hsizes : held.size = fw.sizes.foldl (climb Larger) defaultSize := hscan
  rw [← hsizes, ← largest_iff hmode.1]
  constructor
  · rintro ⟨mode, hm, hl⟩
    rw [hreset] at hm
    cases hm
    exact hl
  · exact fun hl => ⟨held.mode, hreset, hl⟩

/-! ## Every order of the modes -/

/-- The answer of a firmware that knows the size of the mode, or not. -/
def sizeAnswer : Option TextSize → Status × Option U64 × Option U64
  | some s => (efiSuccess, some s.1, some s.2)
  | none => (efiUnsupported, none, none)

/-- A firmware that lists these sizes. -/
def ofSizes (sizes : List TextSize) : TextFirmware where
  conin := 0x1000
  inputStatus := efiSuccess
  outputStatus := efiSuccess
  query mode := sizeAnswer sizes[mode.toNat - 1]?
  setStatus _ := efiSuccess

theorem queried_ofSizes (l : List TextSize) {i : Nat} (hi : i < 63) :
    (ofSizes l).queried (BitVec.ofNat 64 (1 + i)) = l[i]? := by
  have hn : (BitVec.ofNat 64 (1 + i)).toNat - 1 = i := by
    rw [BitVec.toNat_ofNat]
    omega
  simp only [queried, ofSizes, hn]
  cases l[i]? with
  | some s => exact if_pos rfl
  | none => exact if_neg (by decide)

theorem filterMap_range_getElem? (l : List TextSize) (n : Nat) :
    (List.range n).filterMap (fun i => l[i]?) = l.take n := by
  induction n with
  | zero => rfl
  | succ n ih =>
    rw [List.range_succ, List.filterMap_append, ih, List.take_add_one]
    cases h : l[n]? <;> simp [h]

theorem sizes_ofSizes {l : List TextSize} (h : l.length ≤ 63) : (ofSizes l).sizes = l := by
  rw [sizes, List.range'_eq_map_range, List.filterMap_map]
  have hq : ∀ i ∈ List.range 63, (ofSizes l).queried (BitVec.ofNat 64 (1 + i)) = l[i]? :=
    fun i hi => queried_ofSizes l (List.mem_range.mp hi)
  exact (List.filterMap_congr hq).trans
    ((filterMap_range_getElem? l 63).trans (List.take_of_length_le h))

theorem length_sizes_le : fw.sizes.length ≤ 63 := by
  have h := List.length_filterMap_le (fun i => fw.queried (BitVec.ofNat 64 i)) (List.range' 1 63)
  rwa [List.length_range'] at h

/-- A largest size that is as wide as every size larger than 80x25. -/
def WidestLargest (sizes : List TextSize) : Prop :=
  ∃ s, LargestSize sizes s ∧ ∀ b ∈ sizes, Larger defaultSize b → b.1 ≤ s.1

/-- A largest size that is as wide as every record listed before it. -/
def ReachesLargest (sizes : List TextSize) : Prop :=
  ∃ pre s post, defaultSize :: sizes = pre ++ s :: post ∧ LargestSize sizes s ∧
    ∀ b ∈ records Larger pre, b.1 ≤ s.1

end TextFirmware

/-- **The text mode.** For every table of modes the mode set is a largest one exactly where a
largest size is as wide as the records before it, and it is so in every order of the modes exactly
where a largest size is as wide as all sizes larger than 80x25. -/
theorem efiConsoleReset_largest_iff {fw : TextFirmware} (h : fw.Fits) :
    (fw.SetsLargest ↔ TextFirmware.ReachesLargest fw.sizes) ∧
    ((∀ fw' : TextFirmware, fw'.sizes.Perm fw.sizes → fw'.SetsLargest) ↔
      TextFirmware.WidestLargest fw.sizes) := by
  have hperm {fw' : TextFirmware} (hp : fw'.sizes.Perm fw.sizes) : fw'.Fits :=
    fun s hs => h s (hp.mem_iff.mp hs)
  refine ⟨(TextFirmware.setsLargest_iff h).trans greatest_scan_iff, ?_⟩
  refine Iff.trans ?_ forall_perm_greatest_iff
  constructor
  · intro hall l hp
    have hl : (TextFirmware.ofSizes l).sizes = l := TextFirmware.sizes_ofSizes <| by
      rw [hp.length_eq]
      exact TextFirmware.length_sizes_le
    have hp' : (TextFirmware.ofSizes l).sizes.Perm fw.sizes := by rwa [hl]
    have hset := (TextFirmware.setsLargest_iff (hperm hp')).mp (hall _ hp')
    rwa [hl] at hset
  · intro hall fw' hp
    exact (TextFirmware.setsLargest_iff (hperm hp)).mpr ((hall _ hp).perm (List.Perm.refl _))

/-- 80x50 and then 132x43, which grow in both directions. -/
theorem efiConsoleReset_largest_growing :
    ((TextFirmware.ofSizes [(80, 50), (132, 43)]).SetsLargest ↔
      TextFirmware.ReachesLargest (TextFirmware.ofSizes [(80, 50), (132, 43)]).sizes) ∧
    ((∀ fw' : TextFirmware,
        fw'.sizes.Perm (TextFirmware.ofSizes [(80, 50), (132, 43)]).sizes → fw'.SetsLargest) ↔
      TextFirmware.WidestLargest (TextFirmware.ofSizes [(80, 50), (132, 43)]).sizes) :=
  efiConsoleReset_largest_iff fun s hs => by
    rw [TextFirmware.sizes_ofSizes (by decide), List.mem_pair] at hs
    rcases hs with rfl | rfl <;> decide

/-- 100x30 is taken before 90x100, which is narrower. -/
theorem not_efiConsoleReset_largest : ¬∀ fw : TextFirmware, fw.Fits → fw.SetsLargest := by
  intro h
  have hsizes : (TextFirmware.ofSizes [(100, 30), (90, 100)]).sizes = [(100, 30), (90, 100)] :=
    TextFirmware.sizes_ofSizes (by decide)
  have hfits : (TextFirmware.ofSizes [(100, 30), (90, 100)]).Fits := fun s hs => by
    rw [hsizes, List.mem_pair] at hs
    rcases hs with rfl | rfl <;> decide
  have hlargest := (TextFirmware.setsLargest_iff hfits).mp (h _ hfits)
  rw [hsizes] at hlargest
  have hle := hlargest.max (90, 100) (by decide) (by decide)
  exact absurd hle (by decide)

end UefiStub
