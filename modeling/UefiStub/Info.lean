import UefiStub.Console.Text
import UefiStub.Lib.Lines

/-!
# The UEFI revision

`print_uefi_info` prints the revisions of the firmware and its vendor. The
revision word of UEFI holds the major number in its upper half and ten times
the minor number plus the tertiary number in its lower half. The code takes the
tertiary number from the whole word: the major number adds to its last digit.
-/

namespace UefiStub

open Interact

/-- `print_uefi_info` of `uefistub/stub.c`. The vendor string belongs to the firmware and is
passed to `output_string` as it is. -/
def printUefiInfo : Uefi Unit := do
  let uefirev ← loadRevision
  let uefiMajor := uefirev >>> 16
  let uefiMinor := (uefirev &&& 0xffff) / 10
  let uefiTertiary := uefirev % 10
  let fwRevision ← loadFwRevision
  let fwrevMajor := fwRevision >>> 16
  let fwRevision ← loadFwRevision
  let fwrevMinor := fwRevision &&& 0xffff
  efiPuts (lit "UEFI revision: ")
  efiConsoleColor efiConsoleBrightcyan
  efiPutd (uefiMajor.setWidth 64)
  efiPuts (lit ".")
  efiPutd (uefiMinor.setWidth 64)
  efiPuts (lit ".")
  efiPutd (uefiTertiary.setWidth 64)
  efiConsoleRestore
  efiPuts (lit "\n")
  efiPuts (lit "Firmware vendor: ")
  efiConsoleColor efiConsoleBrightmagenta
  let fwVendor ← loadFwVendor
  let _ ← outputString fwVendor
  efiConsoleRestore
  efiPuts (lit "\n")
  efiPuts (lit "Firmware revision: ")
  efiConsoleColor efiConsoleYellow
  efiPutd (fwrevMajor.setWidth 64)
  efiPuts (lit ".")
  efiPutd (fwrevMinor.setWidth 64)
  efiConsoleRestore
  efiPuts (lit "\n")

/-- The line about the revision. -/
def revisionLine (text : List U8) : List U8 := octets "UEFI revision: " ++ text ++ octets "\n"

/-- A firmware with these entries in its system table. -/
structure InfoFirmware where
  revision : U32
  fwRevision : U32
  fwVendor : List U16
  outputStatus : List U16 → Status
  attributeStatus : U64 → Status

namespace InfoFirmware

variable (fw : InfoFirmware)

/-- The state is the text on the console. -/
def handler : Handler Op Op.Ans (List U16)
  | .loadRevision, s => some (fw.revision, s)
  | .loadFwRevision, s => some (fw.fwRevision, s)
  | .loadFwVendor, s => some (fw.fwVendor, s)
  | .outputString string, s => some (fw.outputStatus string, s ++ string)
  | .setAttribute attr, s => some (fw.attributeStatus attr, s)
  | _, _ => none

/-- The number text between `UEFI revision: ` and the end of the line. -/
def PrintsRevision (text : List U8) : Prop :=
  ∃ rest, run fw.handler printUefiInfo [] = some ((), asciiUnits (revisionLine text) ++ rest)

variable {fw} {α : Type} {s : List U16}

theorem run_text {p : Uefi Unit} {l : List U8} (h : Says p l) :
    run fw.handler p s = some ((), s ++ asciiUnits l) := by
  have hcalls (chunks : List (List U16)) (s : List U16) :
      run fw.handler (calls (chunks.map Op.outputString)) s = some ((), s ++ chunks.flatten) := by
    induction chunks generalizing s with
    | nil => simp [calls]
    | cons u chunks ih =>
      simp only [List.map_cons, calls, run_call, handler, Option.bind_some, ih, List.append_assoc,
        List.flatten_cons]
  obtain ⟨chunks, hsend, hflat⟩ := h.streams
  rw [show p = calls (chunks.map Op.outputString) from hsend, hcalls, hflat]

theorem run_text_bind {p : Uefi Unit} {l : List U8} (h : Says p l) (k : Unit → Uefi α) :
    run fw.handler (p >>= k) s = run fw.handler (k ()) (s ++ asciiUnits l) :=
  run_bind_of k (run_text h)

theorem run_color (color : U32) (k : Unit → Uefi α) :
    run fw.handler (efiConsoleColor color >>= k) s = run fw.handler (k ()) s := rfl

theorem run_restore (k : Unit → Uefi α) :
    run fw.handler (efiConsoleRestore >>= k) s = run fw.handler (k ()) s := rfl

end InfoFirmware

/-- Three numerals separated by dots. -/
def revisionText (major minor tertiary : Nat) : List U8 :=
  numeral 10 major ++ octets "." ++ numeral 10 minor ++ octets "." ++ numeral 10 tertiary

/-- The revision word of UEFI. -/
def revisionWord (major minor tertiary : Nat) : U32 :=
  BitVec.ofNat 32 major <<< 16 ||| BitVec.ofNat 32 (10 * minor + tertiary)

namespace InfoFirmware

variable {fw : InfoFirmware}

/-- What is printed for a word. -/
theorem printsRevision_word (fw : InfoFirmware) :
    fw.PrintsRevision (revisionText (fw.revision.toNat / 2 ^ 16)
      (fw.revision.toNat % 2 ^ 16 / 10) (fw.revision.toNat % 10)) := by
  have hmajor : ((fw.revision >>> 16).setWidth 64).toNat = fw.revision.toNat / 2 ^ 16 := by
    rw [BitVec.toNat_setWidth_of_le (by decide), BitVec.toNat_ushiftRight,
      Nat.shiftRight_eq_div_pow]
  have hminor : (((fw.revision &&& 0xffff) / 10).setWidth 64).toNat =
      fw.revision.toNat % 2 ^ 16 / 10 := by
    rw [BitVec.toNat_setWidth_of_le (by decide), BitVec.toNat_udiv, BitVec.toNat_and]
    exact congrArg (· / 10) (Nat.and_two_pow_sub_one_eq_mod fw.revision.toNat 16)
  have htertiary : ((fw.revision % 10).setWidth 64).toNat = fw.revision.toNat % 10 := by
    rw [BitVec.toNat_setWidth_of_le (by decide), BitVec.toNat_umod]
    rfl
  rw [← hmajor, ← hminor, ← htertiary]
  have hline := @Says.lit "\n" (by decide)
  have hdot := @Says.lit "." (by decide)
  unfold PrintsRevision printUefiInfo
  simp only [Prog.op_bind, run_call, handler, Option.bind_some]
  rw [run_text_bind (Says.lit (by decide)), run_color, run_text_bind (Says.putd _),
    run_text_bind hdot, run_text_bind (Says.putd _), run_text_bind hdot,
    run_text_bind (Says.putd _), run_restore, run_text_bind hline,
    run_text_bind (Says.lit (by decide)), run_color, run_call]
  simp only [handler, Option.bind_some]
  rw [run_call]
  simp only [handler, Option.bind_some]
  rw [run_restore, run_text_bind hline, run_text_bind (Says.lit (by decide)), run_color,
    run_text_bind (Says.putd _), run_text_bind hdot, run_text_bind (Says.putd _), run_restore,
    run_text hline]
  simp only [revisionLine, revisionText, asciiUnits_append, List.append_assoc, List.nil_append]
  exact ⟨_, rfl⟩

end InfoFirmware

/-! ## Reading the text back -/

theorem isLine_asciiUnits {l : List U8} (h : IsLine 10 l) : IsLine 10 (asciiUnits l) := by
  obtain ⟨a, ha, rfl⟩ := h
  refine ⟨asciiUnits a ++ [13], fun hmem => ?_, ?_⟩
  · have hoctet : ∀ b : U8, 10 ∈ (if b = 10 then [13] else []) ++ [b.setWidth 16] → b = 10 := by
      decide
    rcases List.mem_append.mp hmem with hmem | hmem
    · obtain ⟨b, hb, h10⟩ := List.mem_flatMap.mp hmem
      exact ha (hoctet b h10 ▸ hb)
    · exact absurd (List.mem_singleton.mp hmem) (by decide)
  · rw [asciiUnits_append, List.append_assoc]
    rfl

theorem revisionText_line (major minor tertiary : Nat) :
    Ascii (revisionText major minor tertiary) ∧ 10 ∉ revisionText major minor tertiary := by
  have hnum (v : Nat) : Ascii (numeral 10 v) := ascii_numeral (by decide) (by decide) v
  have hdot : Ascii (octets ".") := ascii_octets (by decide)
  have hnum' (v : Nat) : 10 ∉ numeral 10 v := lf_notMem_numeral (by decide) (by decide) v
  have hdot' : 10 ∉ octets "." := lf_notMem_octets (by decide)
  refine ⟨((((hnum _).append hdot).append (hnum _)).append hdot).append (hnum _), ?_⟩
  simp only [revisionText, List.mem_append, not_or]
  exact ⟨⟨⟨⟨hnum' _, hdot'⟩, hnum' _⟩, hdot'⟩, hnum' _⟩

theorem revisionText_inj {major minor tertiary tertiary' : Nat}
    (h : revisionText major minor tertiary = revisionText major minor tertiary') :
    tertiary = tertiary' := by
  have hnum := congrArg (parse 10) (List.append_cancel_left h)
  rw [parse_numeral (by decide) (by decide), parse_numeral (by decide) (by decide)] at hnum
  exact Option.some.inj hnum

theorem toNat_revisionWord {major minor tertiary : Nat} (hmajor : major < 2 ^ 16)
    (hlow : 10 * minor + tertiary < 2 ^ 16) :
    (revisionWord major minor tertiary).toNat = major * 2 ^ 16 + (10 * minor + tertiary) := by
  have hhigh : major * 2 ^ 16 < 2 ^ 32 := by omega
  rw [revisionWord, BitVec.toNat_or, BitVec.toNat_shiftLeft, BitVec.toNat_ofNat, BitVec.toNat_ofNat,
    Nat.mod_eq_of_lt (show major < 2 ^ 32 by omega),
    Nat.mod_eq_of_lt (show 10 * minor + tertiary < 2 ^ 32 by omega), Nat.shiftLeft_eq,
    Nat.mod_eq_of_lt hhigh, ← Nat.shiftLeft_eq, Nat.shiftLeft_add_eq_or_of_lt hlow]

namespace InfoFirmware

variable {fw : InfoFirmware}

/-- The line has one text only. -/
theorem PrintsRevision.unique {text text' : List U8} (h : fw.PrintsRevision text)
    (h' : fw.PrintsRevision text') (hl : Ascii text ∧ 10 ∉ text)
    (hl' : Ascii text' ∧ 10 ∉ text') : text = text' := by
  have hascii {l : List U8} (hl : Ascii l) : Ascii (revisionLine l) :=
    ((ascii_octets (by decide)).append hl).append (ascii_octets (by decide))
  have hline {l : List U8} (hl : 10 ∉ l) : IsLine 10 (revisionLine l) := by
    refine ⟨_, ?_, rfl⟩
    rw [List.mem_append, not_or]
    exact ⟨lf_notMem_octets (by decide), hl⟩
  obtain ⟨rest, hrun⟩ := h
  obtain ⟨rest', hrun'⟩ := h'
  have hout := (Prod.mk.inj (Option.some.inj (hrun.symm.trans hrun'))).2
  obtain ⟨heq, -⟩ :=
    (isLine_asciiUnits (hline hl.2)).append_inj (isLine_asciiUnits (hline hl'.2)) hout
  have htext := asciiUnits_inj (hascii hl.1) (hascii hl'.1) heq
  exact List.append_cancel_left (List.append_cancel_right htext)

/-- The tertiary number printed is the last digit of the whole word. -/
theorem printsRevision_iff (fw : InfoFirmware) (tertiary : Nat) :
    fw.PrintsRevision (revisionText (fw.revision.toNat / 2 ^ 16)
      (fw.revision.toNat % 2 ^ 16 / 10) tertiary) ↔ tertiary = fw.revision.toNat % 10 := by
  have hprint := fw.printsRevision_word
  constructor
  · intro h
    exact revisionText_inj (h.unique hprint (revisionText_line _ _ _) (revisionText_line _ _ _))
  · rintro rfl
    exact hprint

end InfoFirmware

/-- The major number adds `6 * major` to the last digit of the word. -/
theorem lastDigit_iff {major minor tertiary : Nat} (h : tertiary < 10) :
    tertiary = (major * 2 ^ 16 + (10 * minor + tertiary)) % 10 ↔ 5 ∣ major := by
  have hsplit : major * 2 ^ 16 + (10 * minor + tertiary) =
      10 * (6553 * major + minor) + (6 * major + tertiary) := by omega
  rw [hsplit, Nat.mul_add_mod]
  omega

/-- **The revision.** The number text is the three numbers separated by dots exactly where the
major number is a multiple of 5. -/
theorem printUefiInfo_revision_iff {fw : InfoFirmware} {major minor tertiary : Nat}
    (hmajor : major < 2 ^ 16) (htertiary : tertiary < 10) (hlow : 10 * minor + tertiary < 2 ^ 16)
    (hword : fw.revision = revisionWord major minor tertiary) :
    fw.PrintsRevision (revisionText major minor tertiary) ↔ 5 ∣ major := by
  have hprint := fw.printsRevision_iff tertiary
  rw [hword, toNat_revisionWord hmajor hlow] at hprint
  have hmaj : (major * 2 ^ 16 + (10 * minor + tertiary)) / 2 ^ 16 = major := by omega
  have hmin : (major * 2 ^ 16 + (10 * minor + tertiary)) % 2 ^ 16 / 10 = minor := by
    rw [Nat.mul_add_mod_of_lt hlow]
    omega
  rw [hmaj, hmin, lastDigit_iff htertiary] at hprint
  exact hprint

/-- UEFI 2.7, of a firmware that says nothing else. -/
def revision27 : InfoFirmware where
  revision := 0x00020046
  fwRevision := 0
  fwVendor := []
  outputStatus _ := efiSuccess
  attributeStatus _ := efiSuccess

theorem printUefiInfo_revision_27 : revision27.PrintsRevision (revisionText 2 7 0) ↔ 5 ∣ 2 :=
  printUefiInfo_revision_iff (by decide) (by decide) (by decide) rfl

/-- UEFI 2.7 is printed as 2.7.2. -/
theorem not_printUefiInfo_revision : ¬∀ (fw : InfoFirmware) (major minor tertiary : Nat),
    major < 2 ^ 16 → tertiary < 10 → 10 * minor + tertiary < 2 ^ 16 →
    fw.revision = revisionWord major minor tertiary →
    fw.PrintsRevision (revisionText major minor tertiary) := by
  intro h
  have hprint := h revision27 2 7 0 (by decide) (by decide) (by decide) rfl
  exact absurd ((revision27.printsRevision_iff 0).mp hprint) (by decide)

end UefiStub
