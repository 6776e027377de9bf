import UefiStub.Pci.Loop

/-!
# The lines of the report

After the device line a run prints one line for each entry (`barText`). Lines
end at their only line feed, so that the output says which lines were printed:
an entry is reported exactly if the loop finds an entry with the same line
(`reports_iff_found`).
-/

namespace UefiStub

open Interact

def hexText (value : U64) : List U8 :=
  List.replicate (16 - (numeral 16 value.toNat).length) 48 ++ numeral 16 value.toNat

def kindText (b : Bar) : List U8 :=
  if b.memory then
    octets "(" ++ (octets (if b.is64bit then "64-bit" else "32-bit") ++
      ((if b.prefetchable then octets ", prefetchable" else []) ++ octets ")"))
  else []

/-- The line up to the size. -/
def barHead (b : Bar) : List U8 :=
  octets "    BAR" ++ (numeral 10 (BitVec.ofNat 64 b.bar).toNat ++ (octets ": " ++
    (octets (if b.memory then "Memory" else "I/O ports") ++ (octets " at " ++
      (hexText b.fullAddr ++ (octets " " ++ (kindText b ++ octets " [size ")))))))

/-- The line of an entry. -/
def barText (b : Bar) : List U8 :=
  barHead b ++ (sizeText (scaled b.fullSize).1 (scaled b.fullSize).2 ++ (octets "]" ++ octets "\n"))

/-- What `print_device_info` says of an entry. -/
theorem says_bar (b : Bar) : Says (printBar b) (barText b) := by
  have hsize : Says (do
      efiPuts (lit " [size ")
      printSize b.fullSize
      efiPuts (lit "]")
      efiPuts (lit "\n")) _ :=
    (Says.lit (by decide)).bind ((says_size _).bind ((Says.lit (by decide)).bind
      (.lit (by decide))))
  have haddr : Says (efiPut0h b.fullAddr 16) (hexText b.fullAddr) := Says.put0h _ (by decide)
  have hkind : Says (efiPuts (lit (if b.memory then "Memory" else "I/O ports"))) _ :=
    .lit (by cases b.memory <;> decide)
  have hbits : Says (efiPuts (lit (if b.is64bit then "64-bit" else "32-bit"))) _ :=
    .lit (by cases b.is64bit <;> decide)
  have hhead {p : Uefi Unit} {l : List U8} (hp : Says p l) :=
    (@Says.lit "    BAR" (by decide)).bind ((Says.putd (BitVec.ofNat 64 b.bar)).bind
      ((@Says.lit ": " (by decide)).bind (hkind.bind ((@Says.lit " at " (by decide)).bind
        (haddr.bind ((@Says.lit " " (by decide)).bind hp))))))
  have hopen {p : Uefi Unit} {l : List U8} (hp : Says p l) :=
    (@Says.lit "(" (by decide)).bind (hbits.bind hp)
  have hclose := (@Says.lit ")" (by decide)).bind hsize
  by_cases hm : b.memory = true
  · by_cases hp : b.prefetchable = true
    · simp only [printBar, barText, barHead, kindText, List.append_assoc, hm, hp, if_true]
        at hhead ⊢
      exact hhead (hopen ((@Says.lit ", prefetchable" (by decide)).bind hclose))
    · simp only [printBar, barText, barHead, kindText, List.append_assoc, hm, hp, if_true]
        at hhead ⊢
      exact hhead (hopen hclose)
  · simp only [printBar, barText, barHead, kindText, List.append_assoc, hm] at hhead ⊢
    exact hhead hsize

theorem says_bars (bars : List Bar) : Says (bars.forM printBar) (bars.map barText).flatten := by
  induction bars with
  | nil => exact .nil
  | cons b bars ih => exact (says_bar b).bind ih

/-! ## Lines -/

theorem lf_notMem_hexText (value : U64) : 10 ∉ hexText value := by
  unfold hexText
  rw [List.mem_append, not_or]
  refine ⟨fun h => ?_, lf_notMem_numeral (by decide) (by decide) _⟩
  exact absurd (List.mem_replicate.mp h).2 (by decide)

theorem lf_notMem_kindText (b : Bar) : 10 ∉ kindText b := by
  have hbits : 10 ∉ octets (if b.is64bit then "64-bit" else "32-bit") :=
    lf_notMem_octets (by cases b.is64bit <;> decide)
  have hpre : 10 ∉ (if b.prefetchable then octets ", prefetchable" else []) := by
    split
    · exact lf_notMem_octets (by decide)
    · exact List.not_mem_nil
  unfold kindText
  split
  · simp only [List.mem_append, not_or]
    exact ⟨lf_notMem_octets (by decide), hbits, hpre, lf_notMem_octets (by decide)⟩
  · exact List.not_mem_nil

theorem lf_notMem_barHead (b : Bar) : 10 ∉ barHead b := by
  have hspace : 10 ∉ octets (if b.memory then "Memory" else "I/O ports") :=
    lf_notMem_octets (by cases b.memory <;> decide)
  unfold barHead
  simp only [List.mem_append, not_or]
  refine ⟨lf_notMem_octets (by decide), lf_notMem_numeral (by decide) (by decide) _, ?_⟩
  refine ⟨lf_notMem_octets (by decide), hspace, lf_notMem_octets (by decide), ?_⟩
  exact ⟨lf_notMem_hexText _, lf_notMem_octets (by decide), lf_notMem_kindText b,
    lf_notMem_octets (by decide)⟩

/-- The line has no line feed but its last octet. -/
theorem isLine_barText (b : Bar) : IsLine 10 (barText b) := by
  refine ⟨barHead b ++ (sizeText (scaled b.fullSize).1 (scaled b.fullSize).2 ++ octets "]"), ?_, ?_⟩
  · rw [List.mem_append, List.mem_append, not_or, not_or]
    exact ⟨lf_notMem_barHead b, lf_notMem_sizeText (scaled_lt _), lf_notMem_octets (by decide)⟩
  · unfold barText
    rw [List.append_assoc, List.append_assoc]
    rfl

/-- The number of the register is read off the line. -/
theorem bar_of_barText {b b' : Bar} (hb : b.bar < 2 ^ 64) (hb' : b'.bar < 2 ^ 64)
    (h : barText b = barText b') : b.bar = b'.bar := by
  have hcolon (s : List U8) : ∀ c ∈ (octets ": " ++ s).head?, ¬∃ d < 10, digitVal c = some d := by
    intro c hc
    cases hc
    decide
  simp only [barText, barHead, List.append_assoc] at h
  obtain ⟨heq, -⟩ := numeral_append_inj (by decide) (by decide) (hcolon _) (hcolon _)
    (List.append_cancel_left h)
  rwa [BitVec.toNat_ofNat, BitVec.toNat_ofNat, Nat.mod_eq_of_lt hb, Nat.mod_eq_of_lt hb'] at heq

/-- Lines that agree up to the size show the same size. -/
theorem scaled_of_barText {b b' : Bar} (hhead : barHead b = barHead b')
    (h : barText b = barText b') : scaled b.fullSize = scaled b'.fullSize := by
  rw [barText, barText, hhead] at h
  obtain ⟨hd, hi⟩ := sizeText_inj (scaled_lt _) (scaled_lt _)
    (List.append_cancel_right (List.append_cancel_left h))
  exact Prod.ext hd hi

/-! ## Reports -/

namespace PciDevice

/-- A run succeeds, and its output is the device line and lines, one of which is the entry's. -/
def Reports (dev : PciDevice) (pci : Ptr) (config : Config) (b : Bar) : Prop :=
  ∃ (s t : PciRun) (lines : List (List U8)),
    run dev.handler (printDeviceInfo pci) (.start config) = some (efiSuccess, s) ∧
    run dev.handler (printDevice dev.segment dev.bus dev.device dev.function config.pciClass)
      (.start config) = some ((), t) ∧
    s.out.flatten = t.out.flatten ++ asciiUnits lines.flatten ∧
    (∀ l ∈ lines, Ascii l ∧ IsLine 10 l) ∧ barText b ∈ lines

theorem run_says {dev : PciDevice} {p : Uefi Unit} {l : List U8} (h : Says p l) (s : PciRun) :
    ∃ t, run dev.handler p s = some ((), t) ∧ t.out.flatten = s.out.flatten ++ asciiUnits l := by
  obtain ⟨chunks, hsend, hflat⟩ := h.streams
  refine ⟨_, run_sends hsend s, ?_⟩
  rw [List.flatten_append, hflat]

/-- **Reported entries** have the line of an entry that is found. -/
theorem reports_iff_found {dev : PciDevice} (hf : ∀ off n, dev.fails off n = false) {pci : Ptr}
    {config : Config} (h : NormalHeader config) (b : Bar) : dev.Reports pci config b ↔
      ∃ b' ∈ found dev (.start config) 7 0, barText b' = barText b := by
  obtain ⟨s, t, hs, ht, hout⟩ := run_printDeviceInfo_found hf pci h
  obtain ⟨_, t1, hline, hbars⟩ := run_bind_inv ht
  have hprint := says_bars (found dev (.start config) 7 0)
  obtain ⟨t2, ht2, hflat⟩ := run_says hprint t1
  obtain rfl : t2 = t := (Prod.mk.inj (Option.some.inj (ht2.symm.trans hbars))).2
  rw [← hout] at hflat
  constructor
  · rintro ⟨s', t', lines, hs', ht', hflat', hlines, hmem⟩
    obtain rfl : s = s' := (Prod.mk.inj (Option.some.inj (hs.symm.trans hs'))).2
    obtain rfl : t1 = t' := (Prod.mk.inj (Option.some.inj (hline.symm.trans ht'))).2
    rw [hflat] at hflat'
    have hascii : Ascii lines.flatten := by
      intro c hc
      obtain ⟨l, hl, hc⟩ := List.mem_flatten.mp hc
      exact (hlines l hl).1 c hc
    have heq := asciiUnits_inj hprint.ascii hascii (List.append_cancel_left hflat')
    have hfound := flatten_lines_inj (fun l hl => by
      obtain ⟨b', -, rfl⟩ := List.mem_map.mp hl
      exact isLine_barText b') (fun l hl => (hlines l hl).2) heq
    rw [← hfound] at hmem
    exact List.mem_map.mp hmem
  · intro hmem
    refine ⟨s, t1, _, hs, hline, hflat, fun l hl => ?_, List.mem_map.mpr hmem⟩
    obtain ⟨b', -, rfl⟩ := List.mem_map.mp hl
    exact ⟨(says_bar b').ascii, isLine_barText b'⟩

end PciDevice

end UefiStub
