import UefiStub.Console.Decode

/-!
# `efi_puts`

`transcode` is the unbuffered transcoding: one character after the other, each
to its units. `Units a us` says that the text `a` has the units `us` whatever
follows it, and is the unit of composition: texts that meet at the start of a
character concatenate (`Units.append`).

`efi_puts` is a list of `output_string` calls (`Sends`), whose payloads are cut
from the transcoding of the string. The loop invariant is that the buffer holds
`pos ≤ 125` pending units; a turn appends one or two and the terminator still
fits.
-/

namespace UefiStub

open Interact Interact.Buf

/-! ## Unbuffered transcoding -/

/-- One unit in plane 0, a surrogate pair elsewhere. -/
def charUnits (c32 : U32) : List U16 :=
  if c32 < 0x10000 then [c32.setWidth 16]
  else [((0xd800 - (0x10000 >>> 10)) + (c32 >>> 10)).setWidth 16,
    (0xdc00 + (c32 &&& 0x3ff)).setWidth 16]

/-- The units of a code point decoded at the octet `c0`, with CR before LF. -/
def turnUnits (c0 : U8) (c32 : U32) : List U16 := (if c0 = 10 then [13] else []) ++ charUnits c32

def transcodeLoop : Nat → CStr → Option (List U16)
  | 0, _ => none
  | fuel + 1, s8 => do
    let c ← s8.head?
    if c = 0 then return []
    let (c32, s8) ← utf8ToUtf32 s8
    let units ← transcodeLoop fuel s8
    return turnUnits c c32 ++ units

def transcode (str : CStr) : Option (List U16) := transcodeLoop str.length str

theorem transcodeLoop_turn {c0 : U8} {t s : CStr} {c : U32} (h0 : c0 ≠ 0)
    (h : utf8ToUtf32 (c0 :: t) = some (c, s)) (n : Nat) :
    transcodeLoop (n + 1) (c0 :: t) = (transcodeLoop n s).map (turnUnits c0 c ++ ·) := by
  simp only [transcodeLoop, List.head?_cons, Option.bind_eq_bind, Option.bind_some, if_neg h0, h,
    Option.pure_def]
  cases transcodeLoop n s <;> rfl

/-- The text `a` has the units `us`, whatever follows it. -/
def Units (a : CStr) (us : List U16) : Prop :=
  ∃ k ≤ a.length, ∀ x m, Fresh x →
    transcodeLoop (k + m) (a ++ x) = (transcodeLoop m x).map (us ++ ·)

namespace Units

theorem nil : Units [] [] :=
  ⟨0, Nat.le_refl 0, fun x m _ => by
    rw [Nat.zero_add, List.nil_append]; cases transcodeLoop m x <;> rfl⟩

theorem append {a b : CStr} {us vs : List U16} (ha : Units a us) (hb : Units b vs)
    (hfresh : ∀ x, Fresh x → Fresh (b ++ x)) : Units (a ++ b) (us ++ vs) := by
  obtain ⟨k, hk, ha⟩ := ha
  obtain ⟨l, hl, hb⟩ := hb
  refine ⟨k + l, by rw [List.length_append]; omega, fun x m hx => ?_⟩
  rw [List.append_assoc, Nat.add_assoc, ha _ _ (hfresh x hx), hb x m hx]
  cases transcodeLoop m x with
  | none => rfl
  | some ws => simp

/-- A first character and the rest of the text behind it. -/
theorem cons {c0 : U8} {a s : CStr} {c : U32} {us : List U16} (h0 : c0 ≠ 0)
    (hs : s.length ≤ a.length) (h : ∀ x, Fresh x → utf8ToUtf32 (c0 :: (a ++ x)) = some (c, s ++ x))
    (hu : Units s us) : Units (c0 :: a) (turnUnits c0 c ++ us) := by
  obtain ⟨k, hk, hu⟩ := hu
  refine ⟨k + 1, by rw [List.length_cons]; omega, fun x m hx => ?_⟩
  rw [List.cons_append, Nat.add_right_comm, transcodeLoop_turn h0 (h x hx), hu x m hx]
  cases transcodeLoop m x with
  | none => rfl
  | some ws => simp

theorem transcode {a : CStr} {us : List U16} (h : Units a us) (z : CStr) :
    UefiStub.transcode (a ++ 0 :: z) = some us := by
  obtain ⟨k, hk, h⟩ := h
  have := h (0 :: z) (a.length - k + z.length + 1) (fresh_nul z)
  rw [UefiStub.transcode, List.length_append, List.length_cons,
    show a.length + (z.length + 1) = k + (a.length - k + z.length + 1) by omega, this]
  simp [transcodeLoop]

end Units

/-! ## Payloads -/

/-- The first half of a surrogate pair. -/
def IsHigh (u : U16) : Prop := 0xd800 ≤ u.toNat ∧ u.toNat < 0xdc00

/-- Units that can be cut out of the stream: they do not start inside a CR LF or end inside
a surrogate pair. -/
structure Clean (u : List U16) : Prop where
  noNul : 0 ∉ u
  noLfFirst : u.head? ≠ some 10
  noHighLast : ∀ x ∈ u.getLast?, ¬IsHigh x

/-- What one `output_string` gets: it fits the buffer with its terminator. -/
structure Payload (u : List U16) : Prop extends Clean u where
  ne_nil : u ≠ []
  length_le : u.length ≤ 127

theorem clean_nil : Clean [] := ⟨by simp, by simp, by simp⟩

theorem Clean.append {u v : List U16} (hu : Clean u) (hv : Clean v) : Clean (u ++ v) where
  noNul h := (List.mem_append.mp h).elim hu.noNul hv.noNul
  noLfFirst := by
    cases u with
    | nil => exact hv.noLfFirst
    | cons a u => exact hu.noLfFirst
  noHighLast x hx := by
    rw [List.getLast?_append] at hx
    cases hl : v.getLast? with
    | none => rw [hl] at hx; exact hu.noHighLast x hx
    | some y => rw [hl] at hx; exact hv.noHighLast x (by rw [hl]; exact hx)

theorem length_turnUnits {c0 : U8} {c : U32} (h : c0 = 10 → c = 10) :
    (turnUnits c0 c).length = 1 ∨ (turnUnits c0 c).length = 2 := by
  by_cases h0 : c0 = 10
  · rw [h0, h h0]; exact .inr rfl
  · simp only [turnUnits, if_neg h0, List.nil_append, charUnits]
    split
    · exact .inl rfl
    · exact .inr rfl

/-- A decoded line feed is a line feed. -/
theorem decoded_lf {c0 : U8} {t s : CStr} {c : U32} (h : utf8ToUtf32 (c0 :: t) = some (c, s)) :
    c0 = 10 → c = 10 := by
  rintro rfl
  obtain h | ⟨h, -⟩ := utf8ToUtf32_value h
  · exact h
  · exact absurd h (by decide)

theorem clean_singleton {u : U16} (h0 : u.toNat ≠ 0) (h10 : u.toNat ≠ 10) (hh : ¬IsHigh u) :
    Clean [u] where
  noNul h := h0 (by rw [← List.mem_singleton.mp h]; rfl)
  noLfFirst h := h10 (by cases h; rfl)
  noHighLast x hx := by cases hx; exact hh

theorem clean_pair {u v : U16} (hu : IsHigh u) (hv : 0xdc00 ≤ v.toNat) : Clean [u, v] where
  noNul h := by
    obtain ⟨hl, hr⟩ := hu
    rcases List.mem_cons.mp h with h | h
    · rw [← h] at hl; exact absurd hl (by decide)
    · rw [← List.mem_singleton.mp h] at hv; exact absurd hv (by decide)
  noLfFirst h := by cases h; exact absurd hu.1 (by decide)
  noHighLast x hx := by
    rw [show [u, v].getLast? = some v from rfl, Option.mem_some_iff] at hx
    subst hx
    exact fun h => Nat.not_lt.mpr hv h.2

section Pair

variable {c : U32} (h1 : 0x10000 ≤ c.toNat) (h2 : c.toNat < 0x110000)
include h1 h2

theorem toNat_high : (((0xd800 - (0x10000 >>> 10)) + (c >>> 10) : U32).setWidth 16).toNat =
    0xd800 + (c.toNat - 0x10000) / 0x400 := by
  rw [show (0xd800 - (0x10000 >>> 10) : U32) = 0xd7c0 from by decide, BitVec.toNat_setWidth,
    BitVec.toNat_add, BitVec.toNat_ushiftRight, Nat.shiftRight_eq_div_pow,
    show (0xd7c0 : U32).toNat = 0xd7c0 from rfl]
  omega

theorem toNat_low : ((0xdc00 + (c &&& 0x3ff) : U32).setWidth 16).toNat =
    0xdc00 + (c.toNat - 0x10000) % 0x400 := by
  rw [BitVec.toNat_setWidth, BitVec.toNat_add, BitVec.toNat_and,
    show (0x3ff : U32).toNat = 2 ^ 10 - 1 from rfl, Nat.and_two_pow_sub_one_eq_mod,
    show (0xdc00 : U32).toNat = 0xdc00 from rfl]
  omega

end Pair

theorem clean_turnUnits {c0 : U8} {t s : CStr} {c : U32} (h0 : c0 ≠ 0)
    (h : utf8ToUtf32 (c0 :: t) = some (c, s)) : Clean (turnUnits c0 c) := by
  by_cases hlf : c0 = 10
  · rw [decoded_lf h hlf, hlf]
    exact ⟨by decide, by decide, fun x hx => by cases hx; exact fun h => absurd h.1 (by decide)⟩
  unfold turnUnits
  rw [if_neg hlf, List.nil_append, charUnits]
  obtain rfl | ⟨-, h80, hmax, hmask⟩ := utf8ToUtf32_value h
  · have hc0 : c0.toNat ≠ 0 := fun h => h0 (BitVec.eq_of_toNat_eq h)
    have hc10 : c0.toNat ≠ 10 := fun h => hlf (BitVec.eq_of_toNat_eq h)
    have hw : ((c0.setWidth 32).setWidth 16).toNat = c0.toNat := by
      rw [BitVec.toNat_setWidth, BitVec.toNat_setWidth]; omega
    rw [if_pos (by rw [BitVec.lt_def, BitVec.toNat_setWidth]; simp; omega)]
    exact clean_singleton (by rwa [hw]) (by rwa [hw]) (fun h => by have := h.1; omega)
  · have h80 : 0x80 ≤ c.toNat := h80
    have hmax : c.toNat ≤ 0x10ffff := hmax
    have hmask : ¬c.toNat % 0x10000 / 0x800 = 27 := fun h =>
      hmask (BitVec.eq_of_toNat_eq ((BitVec.toNat_and ..).trans ((surrogate_mask _).mpr h)))
    by_cases hp : c < 0x10000
    · have hp' : c.toNat < 0x10000 := hp
      have hw : (c.setWidth 16).toNat = c.toNat := by rw [BitVec.toNat_setWidth]; omega
      rw [if_pos hp]
      exact clean_singleton (by omega) (by omega) (fun h => by
        obtain ⟨hl, hr⟩ := h
        omega)
    · have hp' : 0x10000 ≤ c.toNat := Nat.not_lt.mp hp
      rw [if_neg hp]
      refine clean_pair ?_ ?_
      · rw [IsHigh, toNat_high hp' (by omega)]; omega
      · rw [toNat_low hp' (by omega)]; omega

/-- **Every text has units**, well-formed or not, and what holds of each turn's holds of them. -/
theorem exists_units_of {P : List U16 → Prop} (hnil : P [])
    (hturn : ∀ {c0 : U8} {t s : CStr} {c : U32} {us : List U16}, c0 ≠ 0 →
      utf8ToUtf32 (c0 :: t) = some (c, s) → P us → P (turnUnits c0 c ++ us)) :
    ∀ (n : Nat) {a : CStr}, a.length ≤ n → 0 ∉ a → ∃ us, Units a us ∧ P us
  | _, [], _, _ => ⟨[], .nil, hnil⟩
  | n + 1, c0 :: a, hn, h0 => by
    rw [List.mem_cons, not_or] at h0
    obtain ⟨c, s, hs, h⟩ := utf8ToUtf32_text c0 a
    have hlen := hs.length_le
    rw [List.length_cons] at hn
    obtain ⟨us, hus, hP⟩ := exists_units_of hnil hturn n (by omega) (fun hm => h0.2 (hs.mem hm))
    exact ⟨_, .cons (Ne.symm h0.1) hlen h hus,
      hturn (Ne.symm h0.1) (h _ (fresh_nul [])) hP⟩

theorem exists_units {a : CStr} (h : 0 ∉ a) : ∃ us, Units a us := by
  obtain ⟨us, hus, -⟩ := exists_units_of (P := fun _ => True) trivial (fun _ _ _ => trivial)
    a.length (Nat.le_refl _) h
  exact ⟨us, hus⟩

/-! ## Buffering -/

/-- The program is the calls of `output_string` with these payloads. -/
def Sends (p : Uefi Unit) (chunks : List (List U16)) : Prop :=
  p = calls (chunks.map Op.outputString)

theorem Sends.bind {p q : Uefi Unit} {cs cs' : List (List U16)} (hp : Sends p cs)
    (hq : Sends q cs') : Sends (p >>= fun _ => q) (cs ++ cs') := by
  rw [Sends, hp, hq, List.map_append, calls_append]

theorem putChar_eq {m : Buf U16} {l : List U16} (h : l.length + 2 ≤ m.length) (c : U32) :
    putChar (writeAt m 0 l) l.length c =
      some (writeAt m 0 (l ++ charUnits c), (l ++ charUnits c).length) := by
  have h1 (v : U16) := writeAt_snoc (m := m) (p := 0) (l := l) (by omega) v
  rw [Nat.zero_add] at h1
  by_cases hp : c < 0x10000
  · simp only [putChar, charUnits, putUnit, if_pos hp, h1, Option.bind_eq_bind, Option.bind_some,
      List.length_append, List.length_singleton]
  · have h2 (u v : U16) := writeAt_snoc (m := m) (p := 0) (l := l ++ [u])
      (by rw [List.length_append, List.length_singleton]; omega) v
    simp only [Nat.zero_add, List.length_append, List.length_singleton, List.append_assoc,
      List.singleton_append] at h2
    simp only [putChar, charUnits, putUnit, if_neg hp, h1, h2, Option.bind_eq_bind,
      Option.bind_some, List.length_append, List.length_cons, List.length_nil, Nat.add_assoc]

theorem putsStep_eq {m : Buf U16} {l : List U16} {c0 : U8} {t s : CStr} {c : U32}
    (h : utf8ToUtf32 (c0 :: t) = some (c, s)) (hl : l.length + 3 ≤ m.length) :
    putsStep (writeAt m 0 l) l.length (c0 :: t) =
      some (writeAt m 0 (l ++ turnUnits c0 c), (l ++ turnUnits c0 c).length, s) := by
  by_cases hc : c0 = 10
  · have h1 := writeAt_snoc (m := m) (p := 0) (l := l) (by omega) 13
    rw [Nat.zero_add] at h1
    have h2 := putChar_eq (m := m) (l := l ++ [13])
      (by rw [List.length_append, List.length_singleton]; omega) c
    rw [List.length_append, List.length_singleton] at h2
    simp only [putsStep, putUnit, List.head?_cons, Option.bind_eq_bind, Option.bind_some, if_pos hc,
      h1, h, h2, turnUnits, List.append_assoc]
  · simp only [putsStep, List.head?_cons, Option.bind_eq_bind, Option.bind_some, if_neg hc, h,
      putChar_eq (m := m) (l := l) (by omega), turnUnits, List.nil_append]

theorem efiChar16Puts_eq {u : List U16} (h : 0 ∉ u) (m : Buf U16) :
    efiChar16Puts (writeAt m 0 (u ++ [0])) = calls [.outputString u] := by
  simp only [efiChar16Puts, cstring_writeAt h, lift_some, Prog.ret_bind, Prog.op_bind, calls]
  rfl

/-- The terminator is stored and the pending units are sent. -/
theorem flush_eq {m : Buf U16} {u : List U16} (hu : 0 ∉ u) (hm : u.length < m.length) {α : Type}
    (k : Buf U16 → Uefi α) : (do
      let buf ← lift ((writeAt m 0 u).store u.length 0)
      let _ ← efiChar16Puts buf
      k buf) = .call (.outputString u) fun _ => k (writeAt m 0 (u ++ [0])) := by
  have hs := writeAt_snoc (m := m) (p := 0) (l := u) (by omega) 0
  rw [Nat.zero_add] at hs
  simp only [hs, lift_some, Prog.ret_bind, efiChar16Puts_eq hu, calls, Prog.call_bind]

theorem efiPutsLoop_nul (fuel : Nat) (buf : Buf U16) (pos : Nat) (z : CStr) :
    efiPutsLoop (fuel + 1) buf pos (0 :: z) = .ret () := by
  simp only [efiPutsLoop, List.head?_cons, lift_some, Prog.ret_bind, if_true]
  rfl

/-- One turn: the units of a character are appended, and sent if the string ends or the buffer
is nearly full. -/
theorem efiPutsLoop_turn (fuel : Nat) {m : Buf U16} {l : List U16} {c0 : U8} {t s : CStr} {c : U32}
    {c1 : U8} (h0 : c0 ≠ 0) (h : utf8ToUtf32 (c0 :: t) = some (c, s)) (hs : s.head? = some c1)
    (hm : m.length = 128) (hl : l.length ≤ 125) (hclean : Clean (l ++ turnUnits c0 c)) :
    efiPutsLoop (fuel + 1) (writeAt m 0 l) l.length (c0 :: t) =
      if c1 = 0 ∨ (l ++ turnUnits c0 c).length ≥ 126 then
        .call (.outputString (l ++ turnUnits c0 c)) fun _ =>
          efiPutsLoop fuel (writeAt m 0 (l ++ turnUnits c0 c ++ [0])) 0 s
      else efiPutsLoop fuel (writeAt m 0 (l ++ turnUnits c0 c)) (l ++ turnUnits c0 c).length s := by
  have hlen := length_turnUnits (decoded_lf h)
  have hstep := putsStep_eq h (show l.length + 3 ≤ m.length by omega)
  simp only [efiPutsLoop, List.head?_cons, lift_some, Prog.ret_bind, if_neg h0, hstep, hs]
  rw [flush_eq hclean.noNul (by rw [List.length_append]; omega)]

/-- **The run of `efi_puts` from any pending units.** The induction is on the turns; what is
sent is what was pending and then the units of the rest of the string. -/
theorem efiPutsLoop_sends (z : CStr) : ∀ (fuel : Nat) {s : CStr} {m : Buf U16} {l : List U16},
    s.length < fuel → 0 ∉ s → m.length = 128 → Clean l → l.length ≤ 125 → (s = [] → l = []) →
    ∃ chunks us, Units s us ∧
      Sends (efiPutsLoop fuel (writeAt m 0 l) l.length (s ++ 0 :: z)) chunks ∧
      chunks.flatten = l ++ us ∧ ∀ u ∈ chunks, Payload u
  | fuel + 1, [], m, l, _, _, _, _, _, hnil => by
    refine ⟨[], [], .nil, efiPutsLoop_nul .., ?_, by simp⟩
    rw [hnil rfl]; rfl
  | fuel + 1, c0 :: a, m, l, hfuel, h0, hm, hclean, hl, _ => by
    rw [List.mem_cons, not_or] at h0
    rw [List.length_cons] at hfuel
    obtain ⟨c, s, hs, htext⟩ := utf8ToUtf32_text c0 a
    have hdec := htext _ (fresh_nul z)
    have hlen := length_turnUnits (decoded_lf hdec)
    have hs0 : 0 ∉ s := fun hmem => h0.2 (hs.mem hmem)
    have hslen := hs.length_le
    have hclean' := hclean.append (clean_turnUnits (Ne.symm h0.1) hdec)
    obtain ⟨c1, hc1, hend⟩ : ∃ c1, (s ++ 0 :: z).head? = some c1 ∧ (s = [] ↔ c1 = 0) := by
      cases s with
      | nil => exact ⟨0, rfl, by simp⟩
      | cons b s => exact ⟨b, rfl, by simpa using fun h => hs0 (by simp [h])⟩
    have hturn := efiPutsLoop_turn fuel (Ne.symm h0.1) hdec hc1 hm hl hclean'
    rw [List.cons_append]
    by_cases hflush : c1 = 0 ∨ (l ++ turnUnits c0 c).length ≥ 126
    · obtain ⟨chunks, us, hus, hsend, hflat, hgood⟩ := efiPutsLoop_sends z fuel (s := s)
        (m := writeAt m 0 (l ++ turnUnits c0 c ++ [0])) (l := []) (by omega) hs0
        (by rw [length_writeAt (by simp only [List.length_append, List.length_singleton]; omega),
          hm]) clean_nil (by simp) (fun _ => rfl)
      refine ⟨(l ++ turnUnits c0 c) :: chunks, _, .cons (Ne.symm h0.1) hslen htext hus, ?_, ?_, ?_⟩
      · rw [Sends, hturn, if_pos hflush, List.map_cons, calls]
        rw [writeAt_nil, List.length_nil] at hsend
        rw [hsend]
      · rw [List.flatten_cons, hflat, List.nil_append, List.append_assoc]
      · intro u hu
        rcases List.mem_cons.mp hu with rfl | hu
        · refine ⟨hclean', fun hnil => ?_, by rw [List.length_append]; omega⟩
          rw [List.append_eq_nil_iff] at hnil
          rw [hnil.2, List.length_nil] at hlen
          omega
        · exact hgood u hu
    · rw [not_or] at hflush
      obtain ⟨chunks, us, hus, hsend, hflat, hgood⟩ := efiPutsLoop_sends z fuel (s := s) (m := m)
        (l := l ++ turnUnits c0 c) (by omega) hs0 hm hclean' (by omega)
        (fun h => absurd (hend.mp h) hflush.1)
      refine ⟨chunks, _, .cons (Ne.symm h0.1) hslen htext hus, ?_, ?_, hgood⟩
      · rw [Sends, hturn, if_neg (not_or.mpr hflush), hsend]
      · rw [hflat, List.append_assoc]

theorem efiPuts_payloads {s : CStr} (h0 : 0 ∉ s) (z : CStr) :
    ∃ chunks us, Units s us ∧ Sends (efiPuts (s ++ 0 :: z)) chunks ∧ chunks.flatten = us ∧
      ∀ u ∈ chunks, Payload u := by
  have := efiPutsLoop_sends z (s ++ 0 :: z).length (m := blank 128) (l := [])
    (by rw [List.length_append, List.length_cons]; omega) h0 (length_blank 128) clean_nil
    (by simp) (fun _ => rfl)
  simpa only [efiPuts, writeAt_nil, List.length_nil, List.nil_append] using this

/-- **Buffering loses nothing.** On any string `efi_puts` stays in its buffer, returns, and
sends the transcoding of the whole string, cut into payloads. -/
theorem efiPuts_transcode {s : CStr} (h0 : 0 ∉ s) (z : CStr) :
    ∃ chunks, Sends (efiPuts (s ++ 0 :: z)) chunks ∧
      transcode (s ++ 0 :: z) = some chunks.flatten ∧ ∀ u ∈ chunks, Payload u := by
  obtain ⟨chunks, us, hus, hsend, rfl, hgood⟩ := efiPuts_payloads h0 z
  exact ⟨chunks, hsend, hus.transcode z, hgood⟩

/-- A line that fills the buffer, a character outside the basic plane, and a truncated one. -/
def longLine : CStr := List.replicate 125 0x61 ++ [0x0a, 0xf0, 0x9f, 0x98, 0x80, 0xe2, 0x82]

set_option maxRecDepth 4096 in
theorem efiPuts_transcode_long : ∃ chunks, Sends (efiPuts (longLine ++ 0 :: [])) chunks ∧
    transcode (longLine ++ 0 :: []) = some chunks.flatten ∧ (∀ u ∈ chunks, Payload u) ∧
      1 < chunks.length := by
  obtain ⟨chunks, hsend, hflat, hgood⟩ := @efiPuts_transcode longLine (by decide) []
  refine ⟨chunks, hsend, hflat, hgood, ?_⟩
  have hlen : (transcode (longLine ++ 0 :: [])).map List.length = some 131 := by decide
  rw [hflat] at hlen
  have hlen : chunks.flatten.length = 131 := Option.some.inj hlen
  by_contra hone
  cases chunks with
  | nil => cases hlen
  | cons u us =>
    -- one payload is too short
    obtain rfl : us = [] := List.length_eq_zero_iff.mp (by rw [List.length_cons] at hone; omega)
    rw [List.flatten_cons, List.flatten_nil, List.append_nil] at hlen
    have hle := (hgood u List.mem_cons_self).length_le
    omega

end UefiStub
