import UefiStub.Gop.Entry
import UefiStub.Lib.Reader

/-!
# The mode list as a table

`print_modes_list` prints an entry for every mode that firmware describes, with
a heading and notes around them. `readModes` reads the list back: the number of
a mode, whether it is current or unusable, its resolution and its pixels, whose
depth is shown for a bit mask only.
-/

namespace UefiStub

open Interact

/-- What an entry says of the pixels. -/
inductive PixelKind where
  | rgb
  | bgr
  | mask (depth : Nat)
  | unknown
  deriving DecidableEq

def ModeInfo.pixels (info : ModeInfo) : PixelKind :=
  if info.pixelFormat = pixelRgbReserved8BitPerColor then .rgb
  else if info.pixelFormat = pixelBgrReserved8BitPerColor then .bgr
  else if info.pixelFormat = pixelBitMask then
    .mask (pixelBpp info.pixelFormat info.pixelInformation).toNat
  else .unknown

structure ModeLine where
  number : Nat
  current : Bool
  usable : Bool
  width : Nat
  height : Nat
  pixels : PixelKind
  deriving DecidableEq

/-- The entry of a mode. -/
def ModeInfo.line (info : ModeInfo) (mode currentMode : U32) : ModeLine where
  number := mode.toNat
  current := mode = currentMode
  usable := ¬Unusable info.pixelFormat
  width := info.horizontalResolution.toNat
  height := info.verticalResolution.toNat
  pixels := info.pixels

/-! ## The text -/

def pixelsText : PixelKind → List U8
  | .rgb => octets "rgb" ++ (numeral 10 0 ++ octets "\n")
  | .bgr => octets "bgr" ++ (numeral 10 0 ++ octets "\n")
  | .mask depth => octets "" ++ (numeral 10 depth ++ octets "\n")
  | .unknown => octets "xxx" ++ (numeral 10 0 ++ octets "\n")

/-- A mode number in at least three places. -/
def numberText (mode : Nat) : List U8 :=
  List.replicate (3 - (numeral 10 mode).length) 48 ++ numeral 10 mode

def modeText (l : ModeLine) : List U8 :=
  octets "Mode " ++ (numberText l.number ++ (octets " " ++
    (octets (if l.current then "*" else " ") ++ (octets (if l.usable then " " else "-") ++
      (octets ": Resolution " ++ (numeral 10 l.width ++ (octets "x" ++ (numeral 10 l.height ++
        (octets "-" ++ pixelsText l.pixels)))))))))

/-- The heading, with the number of the last mode. -/
def modesHead (last : Nat) : List U8 :=
  octets "Available graphics modes are 0-" ++ (numeral 10 last ++ (octets "\n" ++
    (octets "  * = current mode\n" ++ (octets "  - = unusable mode\n" ++
      octets "Will try to select mode with highest resolution and greatest depth\n"))))

/-- The prompt, and the note behind it if no key can be read. -/
def noteText (unable : Bool) : List U8 :=
  octets (if unable then "Unable to read key, continuing in 10 seconds\n"
    else "\nPress any key to continue or wait 10 seconds\n")

def itemText : ModeLine ⊕ Bool → List U8 := Sum.elim modeText noteText

/-- The list of these modes. -/
def modesText (last : Nat) (lines : List ModeLine) (unable : Bool) : List U8 :=
  modesHead last ++ (lines.map Sum.inl ++ Sum.inr false ::
    if unable then [Sum.inr true] else []).flatMap itemText

/-! ## Reading it -/

def pixelsReader : Reader U8 PixelKind :=
  choice [do
    let depth ← number 10
    literal (octets "\n")
    return .mask depth,
    keyword (octets "rgb0\n") .rgb, keyword (octets "bgr0\n") .bgr,
    keyword (octets "xxx0\n") .unknown]

def modeReader : Reader U8 ModeLine := do
  literal (octets "Mode ")
  let mode ← number 10
  literal (octets " ")
  let current ← choice [keyword (octets "*") true, keyword (octets " ") false]
  let usable ← choice [keyword (octets " ") true, keyword (octets "-") false]
  literal (octets ": Resolution ")
  let width ← number 10
  literal (octets "x")
  let height ← number 10
  literal (octets "-")
  let pixels ← pixelsReader
  return { number := mode, current, usable, width, height, pixels }

/-- An entry or a note. -/
def itemReader : Reader U8 (ModeLine ⊕ Bool) :=
  choice [do return .inl (← modeReader), keyword (noteText false) (.inr false),
    keyword (noteText true) (.inr true)]

def headReader : Reader U8 Nat := do
  literal (octets "Available graphics modes are 0-")
  let last ← number 10
  literal (octets "\n")
  literal (octets "  * = current mode\n")
  literal (octets "  - = unusable mode\n")
  literal (octets "Will try to select mode with highest resolution and greatest depth\n")
  return last

/-- The number of the last mode, and the entries. -/
def readModes (text : List U8) : Option (Nat × List ModeLine) :=
  (headReader text).bind fun x => (readAll itemReader x.2).map fun items =>
    (x.1, items.filterMap Sum.getLeft?)

section Reading

theorem reads_pixels (pixels : PixelKind) : Reads pixelsReader (pixelsText pixels) pixels := by
  cases pixels with
  | rgb => exact fun rest => rfl
  | bgr => exact fun rest => rfl
  | unknown => exact fun rest => rfl
  | mask depth =>
    refine Reads.choice_head ?_
    exact Reads.decimal ⟨_, _, rfl, by decide⟩ ((Reads.literal _).map _)

theorem reads_mode (l : ModeLine) : Reads modeReader (modeText l) l := by
  have hcurrent : Reads (choice [keyword (octets "*") true, keyword (octets " ") false])
      (octets (if l.current then "*" else " ")) l.current := by
    cases l.current <;> exact fun rest => rfl
  have husable : Reads (choice [keyword (octets " ") true, keyword (octets "-") false])
      (octets (if l.usable then " " else "-")) l.usable := by
    cases l.usable <;> exact fun rest => rfl
  refine (Reads.literal _).bind (Reads.number (by decide) (by decide) ⟨_, _, rfl, by decide⟩ ?_)
  refine (Reads.literal _).bind (hcurrent.bind (husable.bind ((Reads.literal _).bind ?_)))
  refine Reads.decimal ⟨_, _, rfl, by decide⟩ ?_
  refine (Reads.literal _).bind ?_
  refine Reads.decimal ⟨_, _, rfl, by decide⟩ ?_
  exact (Reads.literal _).bind ((reads_pixels l.pixels).map _)

theorem reads_head (last : Nat) : Reads headReader (modesHead last) last := by
  refine (Reads.literal _).bind (Reads.decimal ⟨_, _, rfl, by decide⟩ ?_)
  exact (Reads.literal _).bind ((Reads.literal _).bind ((Reads.literal _).bind
    ((Reads.literal _).map _)))

theorem reads_item (item : ModeLine ⊕ Bool) :
    Reads itemReader (itemText item) item ∧ itemText item ≠ [] := by
  cases item with
  | inl l =>
    have hline := (reads_mode l).map Sum.inl (γ := ModeLine ⊕ Bool)
    exact ⟨Reads.choice_head hline, nofun⟩
  | inr unable =>
    cases unable with
    | false =>
      have hne : noteText false ≠ [] := by decide
      exact ⟨Reads.choice_tail (fun rest => rfl) (Reads.choice_head (.keyword _ _)), hne⟩
    | true =>
      have hne : noteText true ≠ [] := by decide
      refine ⟨Reads.choice_tail (fun rest => rfl) (Reads.choice_tail (fun rest => rfl) ?_), hne⟩
      exact Reads.choice_head (.keyword _ _)

/-- **Reading the list** gives back its entries. -/
theorem readModes_modesText (last : Nat) (lines : List ModeLine) (unable : Bool) :
    readModes (modesText last lines unable) = some (last, lines) := by
  unfold readModes modesText
  rw [reads_head, Option.bind_some, readAll_flatMap fun item _ => reads_item item, Option.map_some]
  have hlines : (lines.map Sum.inl).filterMap (Sum.getLeft? (α := ModeLine) (β := Bool)) =
      lines := by
    rw [List.filterMap_map]
    exact List.filterMap_some
  rw [List.filterMap_append, hlines]
  cases unable <;> simp

end Reading

/-! ## Printing it -/

section Printing

/-- What stands for the pixels, and the depth. -/
def entryKind (info : ModeInfo) : String × U8 :=
  if info.pixelFormat = pixelRgbReserved8BitPerColor then ("rgb", 0)
  else if info.pixelFormat = pixelBgrReserved8BitPerColor then ("bgr", 0)
  else if info.pixelFormat = pixelBitMask then
    ("", pixelBpp info.pixelFormat info.pixelInformation)
  else ("xxx", 0)

theorem says_putc {c : U16} {b : U8} (hb : b ≠ 0 ∧ b ≠ 13 ∧ b < 0x80) (hlf : b ≠ 10)
    (hc : c = b.setWidth 16) : Says (efiChar16Putc c) [b] where
  ascii := fun x hx => by rwa [List.mem_singleton.mp hx]
  streams := by
    have h0 : ∀ b : U8, b ≠ 0 → (0 : U16) ∉ [b.setWidth 16] := by decide
    subst hc
    refine ⟨[[b.setWidth 16]], efiChar16Puts_eq (h0 b hb.1) [none, none], ?_⟩
    rw [asciiUnits, List.flatMap_singleton, if_neg hlf]
    rfl

theorem says_pixels (info : ModeInfo) : Says (do
    efiPuts (lit (entryKind info).1)
    efiPutd ((entryKind info).2.setWidth 64)
    efiPuts (lit "\n")) (pixelsText info.pixels) := by
  have hsays {s : String} (hs : AsciiString s) (depth : U8) : Says (do
      efiPuts (lit s)
      efiPutd (depth.setWidth 64)
      efiPuts (lit "\n")) (octets s ++ (numeral 10 depth.toNat ++ octets "\n")) := by
    have hdepth := Says.putd (depth.setWidth 64)
    rw [BitVec.toNat_setWidth_of_le (by decide)] at hdepth
    exact (Says.lit hs).bind (hdepth.bind (.lit (by decide)))
  unfold entryKind ModeInfo.pixels
  split
  · exact hsays (by decide) 0
  split
  · exact hsays (by decide) 0
  split
  · exact hsays (s := "") (by decide) _
  · exact hsays (by decide) 0

/-- The entry is printed after its information is read. -/
theorem printListEntry_eq {mode : U32} (h : mode.toNat < 1000) (info : Ptr) (currentMode : U32) :
    ∃ p : ModeInfo → Uefi Unit, (∀ mi, Says (p mi) (modeText (mi.line mode currentMode))) ∧
      printListEntry info mode currentMode = Prog.op (Op.loadModeInfo info) >>= fun mi =>
        p mi >>= fun _ => .ret (false, currentMode) := by
  obtain ⟨buf, hbuf, hinits⟩ := modeDigits_of_lt h
  refine ⟨fun mi => do
    efiPuts (lit "Mode ")
    efiPuts buf.inits
    efiPuts (lit " ")
    efiChar16Putc (if mode = currentMode then 42 else 32)
    efiChar16Putc (if Unusable mi.pixelFormat then 45 else 32)
    efiPuts (lit ": Resolution ")
    efiPutd (mi.horizontalResolution.setWidth 64)
    efiPuts (lit "x")
    efiPutd (mi.verticalResolution.setWidth 64)
    efiPuts (lit "-")
    efiPuts (lit (entryKind mi).1)
    efiPutd ((entryKind mi).2.setWidth 64)
    efiPuts (lit "\n"), fun mi => ?_, ?_⟩
  · have hnumber : Says (efiPuts buf.inits) (numberText mode.toNat) := by
      rw [hinits]
      exact Says.padded (by decide) (by decide) _ _
    have hspace : Says (efiChar16Putc 32) (octets " ") :=
      says_putc (b := 32) (by decide) (by decide) rfl
    have hcurrent : Says (efiChar16Putc (if mode = currentMode then 42 else 32))
        (octets (if (mi.line mode currentMode).current then "*" else " ")) := by
      unfold ModeInfo.line
      by_cases hc : mode = currentMode
      · rw [if_pos hc, if_pos (decide_eq_true hc)]
        exact says_putc (b := 42) (by decide) (by decide) rfl
      · rw [if_neg hc, if_neg fun h => hc (of_decide_eq_true h)]
        exact hspace
    have husable : Says (efiChar16Putc (if Unusable mi.pixelFormat then 45 else 32))
        (octets (if (mi.line mode currentMode).usable then " " else "-")) := by
      unfold ModeInfo.line
      by_cases hu : Unusable mi.pixelFormat
      · rw [if_pos hu, if_neg fun h => absurd hu (of_decide_eq_true h)]
        exact says_putc (b := 45) (by decide) (by decide) rfl
      · rw [if_neg hu, if_pos (decide_eq_true hu)]
        exact hspace
    have hputd (v : U32) : Says (efiPutd (v.setWidth 64)) (numeral 10 v.toNat) := by
      have h := Says.putd (v.setWidth 64)
      rwa [BitVec.toNat_setWidth_of_le (by decide)] at h
    exact (@Says.lit "Mode " (by decide)).bind (hnumber.bind ((@Says.lit " " (by decide)).bind
      (hcurrent.bind (husable.bind ((@Says.lit ": Resolution " (by decide)).bind
        ((hputd _).bind ((@Says.lit "x" (by decide)).bind ((hputd _).bind
          ((@Says.lit "-" (by decide)).bind (says_pixels mi))))))))))
  · unfold printListEntry
    simp only [hbuf, lift_some, Prog.ret_bind, Prog.bind_bind]
    rfl

/-- The heading is printed after the record is read, then the entries and the notes. -/
theorem printModesList_eq (gop : Ptr) : ∃ p : U32 → Uefi Unit,
    (∀ maxMode, Says (p maxMode) (modesHead (maxMode - 1).toNat)) ∧
    printModesList gop = Prog.op (Op.loadGopMode gop) >>= fun mode => p mode.maxMode >>= fun _ => do
      let _ ← chooseMode gop printListEntry mode.mode
      efiPuts (lit "\nPress any key to continue or wait 10 seconds\n")
      let (status, _) ← efiWaitForKey (10 * 1000000)
      if status ≠ efiSuccess ∧ status ≠ efiTimeout then
        efiPuts (lit "Unable to read key, continuing in 10 seconds\n")
        let _ ← stall (10 * 1000000)
      return mode.mode := by
  refine ⟨fun maxMode => do
    efiPuts (lit "Available graphics modes are 0-")
    efiPutd ((maxMode - 1).setWidth 64)
    efiPuts (lit "\n")
    efiPuts (lit "  * = current mode\n")
    efiPuts (lit "  - = unusable mode\n")
    efiPuts (lit "Will try to select mode with highest resolution and greatest depth\n"),
    fun maxMode => ?_, ?_⟩
  · have hlast := Says.putd ((maxMode - 1).setWidth 64)
    rw [BitVec.toNat_setWidth_of_le (by decide)] at hlast
    exact (@Says.lit "Available graphics modes are 0-" (by decide)).bind (hlast.bind
      ((@Says.lit "\n" (by decide)).bind ((@Says.lit "  * = current mode\n" (by decide)).bind
        ((@Says.lit "  - = unusable mode\n" (by decide)).bind (.lit (by decide))))))
  · simp only [printModesList, Prog.bind_bind]

end Printing

end UefiStub
