import UefiStub.Console.Stream
import UefiStub.Console.Number

/-!
# ASCII texts

Most of what the stub prints is ASCII: string literals and numerals. `Says p l`
says that the program `p` streams the text `l`, and that `l` is ASCII without
NUL and carriage return. Texts concatenate (`Says.bind`), and a program says
one text at most (`Says.unique`).
-/

namespace UefiStub

open Interact

/-- ASCII, without NUL, which ends a string, and without the carriage returns the console adds. -/
def Ascii (l : List U8) : Prop := ∀ b ∈ l, b ≠ 0 ∧ b ≠ 13 ∧ b < 0x80

/-- The units of an ASCII text. -/
def asciiUnits (l : List U8) : List U16 :=
  l.flatMap fun b => (if b = 10 then [13] else []) ++ [b.setWidth 16]

/-- The octets that units without their carriage returns stand for. -/
def unitOctets (us : List U16) : List U8 := (us.filter (· ≠ 13)).map (BitVec.setWidth 8)

/-- The octets of a string literal. -/
def octets (s : String) : List U8 := s.toList.flatMap utf8

structure Says (p : Uefi Unit) (l : List U8) : Prop where
  ascii : Ascii l
  streams : Streams p (asciiUnits l)

/-- The characters are ASCII, without NUL and carriage return. -/
def AsciiString (s : String) : Prop :=
  ∀ c ∈ s.toList, c.toNat ≠ 0 ∧ c.toNat ≠ 13 ∧ c.toNat < 0x80

instance (s : String) : Decidable (AsciiString s) :=
  List.decidableBAll (fun c : Char => c.toNat ≠ 0 ∧ c.toNat ≠ 13 ∧ c.toNat < 0x80) s.toList

section Ascii

variable {l l' : List U8}

theorem Ascii.append (h : Ascii l) (h' : Ascii l') : Ascii (l ++ l') :=
  fun b hb => (List.mem_append.mp hb).elim (h b) (h' b)

theorem asciiUnits_append (l l' : List U8) :
    asciiUnits (l ++ l') = asciiUnits l ++ asciiUnits l' := List.flatMap_append

theorem units_ascii (h : Ascii l) : Units l (asciiUnits l) := by
  induction l with
  | nil => exact .nil
  | cons b l ih =>
    obtain ⟨h0, -, hlt⟩ := h b List.mem_cons_self
    have hu := Units.cons h0 (Nat.le_refl l.length) (fun x _ => utf8ToUtf32_octet hlt (l ++ x))
      (ih fun c hc => h c (List.mem_cons_of_mem _ hc))
    rwa [turnUnits, charUnits_octet] at hu

/-- Without the carriage returns the units are the octets. -/
theorem unitOctets_asciiUnits (h : Ascii l) : unitOctets (asciiUnits l) = l := by
  have hoctet : ∀ b : U8, b ≠ 13 →
      unitOctets ((if b = 10 then [13] else []) ++ [b.setWidth 16]) = [b] := by decide
  unfold unitOctets at hoctet ⊢
  induction l with
  | nil => rfl
  | cons b l ih =>
    unfold asciiUnits
    rw [List.flatMap_cons, List.filter_append, List.map_append,
      hoctet b (h b List.mem_cons_self).2.1]
    exact congrArg (b :: ·) (ih fun c hc => h c (List.mem_cons_of_mem _ hc))

theorem asciiUnits_inj (h : Ascii l) (h' : Ascii l') (heq : asciiUnits l = asciiUnits l') :
    l = l' := by
  rw [← unitOctets_asciiUnits h, heq, unitOctets_asciiUnits h']

end Ascii

theorem mem_octets {s : String} (h : AsciiString s) {b : U8} :
    b ∈ octets s ↔ ∃ c ∈ s.toList, b = BitVec.ofNat 8 c.toNat := by
  unfold octets
  rw [List.mem_flatMap]
  refine exists_congr fun c => and_congr_right fun hc => ?_
  rw [utf8_one (h c hc).2.2, List.mem_singleton]

theorem ascii_octets {s : String} (h : AsciiString s) : Ascii (octets s) := by
  intro b hb
  obtain ⟨c, hc, rfl⟩ := (mem_octets h).mp hb
  obtain ⟨h0, h13, hlt⟩ := h c hc
  have hn : (BitVec.ofNat 8 c.toNat).toNat = c.toNat := by
    rw [BitVec.toNat_ofNat]
    omega
  refine ⟨fun h => h0 ?_, fun h => h13 ?_, ?_⟩
  · rw [← hn, h]
    rfl
  · rw [← hn, h]
    rfl
  · rw [BitVec.lt_def, hn]
    exact hlt

/-- A literal without a line feed. -/
theorem lf_notMem_octets {s : String} (h : AsciiString s ∧ '\n' ∉ s.toList) : 10 ∉ octets s := by
  intro hb
  obtain ⟨c, hc, heq⟩ := (mem_octets h.1).mp hb
  have hlt := (h.1 c hc).2.2
  have hn := congrArg BitVec.toNat heq
  rw [BitVec.toNat_ofNat] at hn
  change 10 = c.toNat % 2 ^ 8 at hn
  have hlf : c = '\n' := Char.ext (UInt32.toNat_inj.mp (show c.toNat = 10 by omega))
  exact h.2 (hlf ▸ hc)

theorem ascii_numeral {b : Nat} (hb : 1 < b) (hb36 : b ≤ 36) (v : Nat) : Ascii (numeral b v) := by
  have hdigit : ∀ d < 36, digitChar d ≠ 0 ∧ digitChar d ≠ 13 ∧ digitChar d < (0x80 : U8) := by
    decide
  intro c hc
  obtain ⟨d, hd, rfl⟩ := List.mem_map.mp hc
  exact hdigit d (Nat.lt_of_lt_of_le (topDigits_lt hb d hd) hb36)

theorem lf_notMem_numeral {b : Nat} (hb : 1 < b) (hb36 : b ≤ 36) (v : Nat) :
    10 ∉ numeral b v := by
  have hdigit : ∀ d < 36, digitChar d ≠ (10 : U8) := by decide
  intro h
  obtain ⟨d, hd, h10⟩ := List.mem_map.mp h
  exact hdigit d (Nat.lt_of_lt_of_le (topDigits_lt hb d hd) hb36) h10

namespace Says

variable {p q : Uefi Unit} {l l' : List U8}

theorem nil : Says (.ret ()) [] := ⟨fun _ hb => (List.not_mem_nil hb).elim, [], rfl, rfl⟩

theorem bind (hp : Says p l) (hq : Says q l') : Says (p >>= fun _ => q) (l ++ l') where
  ascii := hp.ascii.append hq.ascii
  streams := by
    rw [asciiUnits_append]
    exact hp.streams.bind hq.streams

theorem unique (h : Says p l) (h' : Says p l') : l = l' :=
  asciiUnits_inj h.ascii h'.ascii (h.streams.unique h'.streams)

theorem puts (h : Ascii l) : Says (efiPuts (l ++ [0])) l where
  ascii := h
  streams := (units_ascii h).streams (fun h0 => (h 0 h0).1 rfl) []

theorem lit {s : String} (h : AsciiString s) : Says (efiPuts (lit s)) (octets s) :=
  puts (ascii_octets h)

theorem putd (value : U64) : Says (efiPutd value) (numeral 10 value.toNat) := by
  rw [efiPutd_eq]
  exact puts (ascii_numeral (by decide) (by decide) _)

/-- A padded numeral as it stands in a buffer. -/
theorem padded {b : Nat} (hb : 1 < b) (hb36 : b ≤ 36) (value k : Nat) :
    Says (efiPuts (List.replicate k 48 ++ numeral b value ++ [0]))
      (List.replicate k 48 ++ numeral b value) := by
  refine puts (Ascii.append (fun c hc => ?_) (ascii_numeral hb hb36 _))
  rw [(List.mem_replicate.mp hc).2]
  decide

theorem put0h (value : U64) {digits : U32} (hd : digits.toNat ≤ 16) : Says (efiPut0h value digits)
    (List.replicate (digits.toNat - (numeral 16 value.toNat).length) 48 ++
      numeral 16 value.toNat) := by
  rw [efiPut0h_eq value hd]
  exact padded (by decide) (by decide) _ _

/-- A text is said in `output_string` calls only. -/
theorem only_outputString (h : Says p l) :
    Only (fun o => ∃ string, o = .outputString string) p := by
  obtain ⟨chunks, hsend, -⟩ := h.streams
  rw [show p = calls (chunks.map Op.outputString) from hsend]
  refine Only.calls fun o ho => ?_
  obtain ⟨string, -, rfl⟩ := List.mem_map.mp ho
  exact ⟨string, rfl⟩

end Says

/-! ## Padded numbers -/

/-- The canonical numeral of the value, padded with zeros to `digits` places; longer numerals are
not cut. -/
def Padded (b value digits : Nat) (text : List U8) : Prop :=
  ∃ k num, text = List.replicate k 48 ++ num ∧ Canonical b num ∧ parse b num = some value ∧
    text.length = max digits num.length

theorem padded_numeral {b : Nat} (hb : 1 < b) (hb36 : b ≤ 36) (value digits : Nat) :
    Padded b value digits
      (List.replicate (digits - (numeral b value).length) 48 ++ numeral b value) := by
  refine ⟨_, _, rfl, numeral_canonical hb hb36 _, parse_numeral hb hb36 _, ?_⟩
  rw [List.length_append, List.length_replicate]
  omega

/-- The canonical lower-case numeral of the value, padded with zeros to `digits` places; longer
numerals are not cut. -/
structure PaddedHex (value digits : Nat) (text : List U8) : Prop where
  padded : ∃ k num, text = List.replicate k 48 ++ num ∧ Canonical 16 num ∧
    parse 16 num = some value ∧ text.length = max digits num.length
  hex : ∀ c ∈ text, ∃ d < 16, digitVal c = some d

theorem paddedHex_numeral (value digits : Nat) : PaddedHex value digits
    (List.replicate (digits - (numeral 16 value).length) 48 ++ numeral 16 value) where
  padded := padded_numeral (by decide) (by decide) value digits
  hex := by
    intro c hc
    rcases List.mem_append.mp hc with hc | hc
    · rw [(List.mem_replicate.mp hc).2]
      exact ⟨0, by decide, by decide⟩
    · exact (numeral_canonical (by decide) (by decide) value).digits c hc

/-- **Padded hexadecimal numbers.** For every value and every width up to 16 the text is the padded
numeral, and nothing but `output_string` is called: no access to the buffer is out of bounds. -/
theorem efiPut0h_padded (value : U64) {digits : U32} (hd : digits.toNat ≤ 16) :
    ∃ text, Says (efiPut0h value digits) text ∧ PaddedHex value.toNat digits.toNat text ∧
      Only (fun o => ∃ string, o = .outputString string) (efiPut0h value digits) :=
  ⟨_, Says.put0h value hd, paddedHex_numeral _ _, (Says.put0h value hd).only_outputString⟩

/-- `0xbeef` in eight places. -/
theorem efiPut0h_padded_beef :
    ∃ text, Says (efiPut0h 0xbeef 8) text ∧ PaddedHex (0xbeef : U64).toNat (8 : U32).toNat text ∧
      Only (fun o => ∃ string, o = .outputString string) (efiPut0h 0xbeef 8) :=
  efiPut0h_padded 0xbeef (by decide)

end UefiStub
