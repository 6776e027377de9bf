import UefiStub.Console.Puts

/-!
# The console stream

`Streams p us` says that the payloads `p` sends concatenate to `us`. A program
has at most one stream (`Streams.unique`), so the statements here are about the
stream.

The round trip holds for every text but those with a code point the surrogate
test confuses with a surrogate: such a code point comes out as the units of its
four octets.
-/

namespace UefiStub

open Interact

def Streams (p : Uefi Unit) (us : List U16) : Prop :=
  ∃ chunks, Sends p chunks ∧ chunks.flatten = us

theorem Sends.unique {p : Uefi Unit} {cs cs' : List (List U16)} (h : Sends p cs)
    (h' : Sends p cs') : cs = cs' := by
  have hcalls := calls_inj (fun o ho => by
    obtain ⟨u, -, rfl⟩ := List.mem_map.mp ho
    exact ⟨(0 : Status)⟩) (h.symm.trans h')
  exact List.map_injective_iff.mpr (fun u v huv => by cases huv; rfl) hcalls

theorem Streams.unique {p : Uefi Unit} {us us' : List U16} (h : Streams p us)
    (h' : Streams p us') : us = us' := by
  obtain ⟨cs, hs, rfl⟩ := h
  obtain ⟨cs', hs', rfl⟩ := h'
  rw [hs.unique hs']

theorem Units.unique {a : CStr} {us us' : List U16} (h : Units a us) (h' : Units a us') :
    us = us' := by
  have := (h.transcode []).symm.trans (h'.transcode [])
  exact Option.some.inj this

theorem Units.streams {a : CStr} {us : List U16} (h : Units a us) (h0 : 0 ∉ a)
    (z : CStr) : Streams (efiPuts (a ++ 0 :: z)) us := by
  obtain ⟨chunks, us', hus', hsend, hflat, -⟩ := efiPuts_payloads h0 z
  exact ⟨chunks, hsend, hflat.trans (hus'.unique h)⟩

theorem Streams.bind {p q : Uefi Unit} {us vs : List U16} (hp : Streams p us)
    (hq : Streams q vs) : Streams (p >>= fun _ => q) (us ++ vs) := by
  obtain ⟨cs, hs, rfl⟩ := hp
  obtain ⟨cs', hs', rfl⟩ := hq
  exact ⟨cs ++ cs', hs.bind hs', List.flatten_append⟩

/-- **Concatenation.** Two strings that meet at the start of a character are streamed one after
the other as their concatenation is, however malformed either is. -/
theorem efiPuts_append {a b : CStr} (ha : 0 ∉ a) (hb : 0 ∉ b) (hfirst : ∀ x ∈ b.head?, ¬IsCont x) :
    ∃ us, Streams (efiPuts (a ++ [0]) >>= fun _ => efiPuts (b ++ [0])) us ∧
      Streams (efiPuts (a ++ b ++ [0])) us := by
  obtain ⟨us, hus⟩ := exists_units ha
  obtain ⟨vs, hvs⟩ := exists_units hb
  have hfresh : ∀ x, Fresh x → Fresh (b ++ x) := fun x hx => by
    cases b with
    | nil => exact hx
    | cons c b => exact ⟨c, b ++ x, rfl, hfirst c rfl⟩
  exact ⟨us ++ vs, (hus.streams ha []).bind (hvs.streams hb []), (hus.append hvs hfresh).streams
    (fun h => (List.mem_append.mp h).elim ha hb) []⟩

/-- A three-octet sequence cut off before its last octet, then a letter. -/
theorem efiPuts_append_truncated :
    ∃ us, Streams (efiPuts ([0xe2, 0x82] ++ [0]) >>= fun _ => efiPuts ([0x61] ++ [0])) us ∧
      Streams (efiPuts ([0xe2, 0x82] ++ [0x61] ++ [0])) us :=
  efiPuts_append (by decide) (by decide) (by decide)

/-! ## Round trip -/

/-- What the console sends for a code point. -/
def consoleUnits (c : Char) : List U16 :=
  if MaskedSurrogate c then (utf8 c).map (·.setWidth 16)
  else (if c = '\n' then [13] else []) ++ utf16 c

theorem charUnits_octet (b : U8) : charUnits (b.setWidth 32) = [b.setWidth 16] := by
  have hw : (b.setWidth 32).setWidth 16 = b.setWidth 16 :=
    BitVec.eq_of_toNat_eq (by simp only [BitVec.toNat_setWidth]; omega)
  have hlt : b.setWidth 32 < (0x10000 : U32) := by
    rw [BitVec.lt_def, BitVec.toNat_setWidth]; simp; omega
  rw [charUnits, if_pos hlt, hw]

theorem charUnits_char (c : Char) : charUnits (BitVec.ofNat 32 c.toNat) = utf16 c := by
  have hlt := char_lt c
  have hn : (BitVec.ofNat 32 c.toNat).toNat = c.toNat :=
    toNat_ofNat_lt (by omega)
  by_cases hp : c.toNat < 0x10000
  · have hlt : BitVec.ofNat 32 c.toNat < 0x10000 := by rw [BitVec.lt_def, hn]; exact hp
    have hw : (BitVec.ofNat 32 c.toNat).setWidth 16 = BitVec.ofNat 16 c.toNat :=
      BitVec.eq_of_toNat_eq (by rw [BitVec.toNat_setWidth, hn, BitVec.toNat_ofNat])
    rw [charUnits, utf16, if_pos hp, if_pos hlt, hw]
  · have hge : ¬BitVec.ofNat 32 c.toNat < 0x10000 := by rw [BitVec.lt_def, hn]; exact hp
    have h1 : 0x10000 ≤ (BitVec.ofNat 32 c.toNat).toNat := by omega
    have h2 : (BitVec.ofNat 32 c.toNat).toNat < 0x110000 := by omega
    have hhigh :
        ((0xd800 - (0x10000 >>> 10)) + (BitVec.ofNat 32 c.toNat >>> 10) : U32).setWidth 16 =
        BitVec.ofNat 16 (0xd800 + (c.toNat - 0x10000) / 0x400) :=
      BitVec.eq_of_toNat_eq ((toNat_high h1 h2).trans (by rw [hn, BitVec.toNat_ofNat]; omega))
    have hlow : (0xdc00 + (BitVec.ofNat 32 c.toNat &&& 0x3ff) : U32).setWidth 16 =
        BitVec.ofNat 16 (0xdc00 + (c.toNat - 0x10000) % 0x400) :=
      BitVec.eq_of_toNat_eq ((toNat_low h1 h2).trans (by rw [hn, BitVec.toNat_ofNat]; omega))
    rw [charUnits, utf16, if_neg hp, if_neg hge, hhigh, hlow]

/-- Stray continuation octets stand for themselves. -/
theorem units_cont : ∀ {tl : CStr}, (∀ b ∈ tl, IsCont b) → Units tl (tl.map (·.setWidth 16))
  | [], _ => .nil
  | b :: tl, h => by
    have hb := h b List.mem_cons_self
    have h0 : b ≠ 0 := by rintro rfl; exact absurd hb (by decide)
    have h10 : b ≠ 10 := by rintro rfl; exact absurd hb (by decide)
    have := Units.cons h0 (Nat.le_refl _)
      (fun x _ => utf8ToUtf32_cont hb (tl ++ x))
      (units_cont fun b hmem => h b (List.mem_cons_of_mem _ hmem))
    rwa [turnUnits, if_neg h10, charUnits_octet] at this

theorem units_char {c : Char} (hc : c ≠ '\x00') : Units (utf8 c) (consoleUnits c) := by
  obtain ⟨c0, tl, hutf8, -, htl, hc0⟩ := utf8_shape c
  have hcn : c.toNat ≠ 0 := fun h => hc (Char.toNat_inj.mp h)
  have h0 : c0 ≠ 0 := by rintro rfl; simp at hc0; omega
  have h10 : c0 = 10 ↔ c = '\n' := by
    rw [← Char.toNat_inj, ← BitVec.toNat_inj]
    change c0.toNat = 10 ↔ c.toNat = 10
    omega
  have hdec (x : CStr) := utf8ToUtf32_utf8 c x
  rw [hutf8] at hdec ⊢
  by_cases hm : MaskedSurrogate c
  · have hlf : ¬c0 = 10 := fun h => by
      have h1 := hm.1
      rw [h10.mp h] at h1
      exact absurd h1 (by decide)
    have := Units.cons h0 (Nat.le_refl _)
      (fun x _ => (hdec x).trans (if_pos hm)) (units_cont htl)
    rw [turnUnits, if_neg hlf, List.headD_cons, charUnits_octet] at this
    rwa [consoleUnits, if_pos hm, hutf8]
  · have := Units.cons (s := []) h0 (Nat.zero_le _)
      (fun x _ => (hdec x).trans (if_neg hm)) .nil
    rw [turnUnits, charUnits_char, List.append_nil] at this
    simpa only [consoleUnits, if_neg hm, h10] using this

theorem nul_notMem_utf8 {c : Char} (hc : c ≠ '\x00') : 0 ∉ utf8 c := by
  obtain ⟨c0, tl, hutf8, -, htl, hc0⟩ := utf8_shape c
  have hcn : c.toNat ≠ 0 := fun h => hc (Char.toNat_inj.mp h)
  rw [hutf8, List.mem_cons, not_or]
  refine ⟨?_, fun h => absurd (htl 0 h) (by decide)⟩
  rintro rfl; simp at hc0; omega

theorem units_text : ∀ {cs : List Char}, '\x00' ∉ cs →
    Units (cs.flatMap utf8) (cs.flatMap consoleUnits)
  | [], _ => .nil
  | c :: cs, h => by
    rw [List.mem_cons, not_or] at h
    refine (units_char (Ne.symm h.1)).append (units_text h.2) fun x hx => ?_
    cases cs with
    | nil => exact hx
    | cons d cs =>
      obtain ⟨c0, tl, hutf8, hc0, -⟩ := utf8_shape d
      change Fresh ((d :: cs).flatMap utf8 ++ x)
      rw [List.flatMap_cons, hutf8]
      exact ⟨c0, _, rfl, hc0⟩

theorem efiPuts_text {cs : List Char} (h : '\x00' ∉ cs) :
    Streams (efiPuts (cs.flatMap utf8 ++ [0])) (cs.flatMap consoleUnits) := by
  refine (units_text h).streams (fun hmem => ?_) []
  obtain ⟨c, hc, hz⟩ := List.mem_flatMap.mp hmem
  exact nul_notMem_utf8 (fun hn => h (hn ▸ hc)) hz

/-- Concatenations of pieces that are pairwise no shorter agree only piece by piece. -/
theorem flatMap_eq_iff {α β : Type} {f g : α → List β} (hlen : ∀ a, (g a).length ≤ (f a).length)
    (l : List α) : l.flatMap f = l.flatMap g ↔ ∀ a ∈ l, f a = g a := by
  have hle : ∀ l : List α, (l.flatMap g).length ≤ (l.flatMap f).length := fun l => by
    induction l with
    | nil => exact Nat.le_refl _
    | cons a l ih =>
      have := hlen a
      simp only [List.flatMap_cons, List.length_append]; omega
  induction l with
  | nil => simp
  | cons a l ih =>
    rw [List.flatMap_cons, List.flatMap_cons, List.forall_mem_cons]
    refine ⟨fun h => ?_, fun h => by rw [h.1, ih.mpr h.2]⟩
    have hsum := congrArg List.length h
    have h1 := hlen a
    have h2 := hle l
    rw [List.length_append, List.length_append] at hsum
    obtain ⟨ha, hl⟩ := List.append_inj h (by omega)
    exact ⟨ha, ih.mp hl⟩

theorem crlf_flatMap (cs : List Char) : (crlf cs).flatMap utf16 =
    cs.flatMap fun c => (if c = '\n' then [13] else []) ++ utf16 c := by
  rw [crlf, List.flatMap_assoc]
  refine List.flatMap_congr fun c _ => ?_
  by_cases hc : c = '\n'
  · rw [if_pos hc, if_pos hc, hc]; rfl
  · rw [if_neg hc, if_neg hc]; simp

/-- A code point taken for a surrogate comes out as four units where its pair has two. -/
theorem length_lt_consoleUnits {c : Char} (hm : MaskedSurrogate c) :
    ((if c = '\n' then [13] else []) ++ utf16 c).length < (consoleUnits c).length := by
  have hlf : c ≠ '\n' := by rintro rfl; exact absurd hm (by decide)
  have hp : ¬c.toNat < 0x10000 := Nat.not_lt.mpr hm.1
  rw [consoleUnits, if_pos hm, utf8_four hm.1, if_neg hlf, utf16, if_neg hp]
  simp

theorem consoleUnits_eq_iff (c : Char) :
    consoleUnits c = (if c = '\n' then [13] else []) ++ utf16 c ↔ ¬MaskedSurrogate c := by
  refine ⟨fun h hm => ?_, fun hm => by rw [consoleUnits, if_neg hm]⟩
  have hlt := length_lt_consoleUnits hm
  rw [h] at hlt
  exact Nat.lt_irrefl _ hlt

theorem length_le_consoleUnits (c : Char) :
    ((if c = '\n' then [13] else []) ++ utf16 c).length ≤ (consoleUnits c).length := by
  by_cases hm : MaskedSurrogate c
  · exact Nat.le_of_lt (length_lt_consoleUnits hm)
  · exact Nat.le_of_eq (by rw [(consoleUnits_eq_iff c).mpr hm])

/-- **The round trip of the console.** A text without NUL is streamed as its standard UTF-16
encoding with CR before LF, exactly if no code point of it is taken for a surrogate. -/
theorem efiPuts_utf16_iff {cs : List Char} (h : '\x00' ∉ cs) :
    Streams (efiPuts (cs.flatMap utf8 ++ [0])) ((crlf cs).flatMap utf16) ↔
      ∀ c ∈ cs, ¬MaskedSurrogate c := by
  have hs := efiPuts_text h
  have hiff : cs.flatMap consoleUnits = (crlf cs).flatMap utf16 ↔ ∀ c ∈ cs, ¬MaskedSurrogate c := by
    rw [crlf_flatMap, flatMap_eq_iff length_le_consoleUnits]
    exact forall₂_congr fun c _ => consoleUnits_eq_iff c
  rw [← hiff]
  exact ⟨fun h' => hs.unique h', fun h' => h' ▸ hs⟩

theorem efiPuts_utf16_line :
    Streams (efiPuts (['a', '\n', '€', '😀'].flatMap utf8 ++ [0]))
      ((crlf ['a', '\n', '€', '😀']).flatMap utf16) :=
  (efiPuts_utf16_iff (by decide)).mpr (by simp [MaskedSurrogate])

/-- U+1D800 is not streamed as its surrogate pair. -/
theorem efiPuts_utf16_masked : ¬∀ cs : List Char, '\x00' ∉ cs →
    Streams (efiPuts (cs.flatMap utf8 ++ [0])) ((crlf cs).flatMap utf16) := by
  intro h
  have h1 := h [Char.ofNat 0x1d800] (by decide)
  have h2 : Streams _ ([Char.ofNat 0x1d800].flatMap consoleUnits) := efiPuts_text (by decide)
  exact absurd (h1.unique h2) (by decide)

end UefiStub
