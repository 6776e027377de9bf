import UefiStub.Console.Basic

/-!
# The UTF-8 decoder

What `utf8_to_utf32` does on any octets, and what it does on the encoding of a
code point.

On any octets it consumes the first one and possibly continuation octets after
it, and its result is the first octet or a validated code point
(`utf8ToUtf32_value`). What follows the text does not matter as long as it
starts with an octet that is not a continuation (`utf8ToUtf32_text`).

On the encoding of a code point it returns that code point, unless the
surrogate test, which ignores bits 16 and up, rejects it (`MaskedSurrogate`).
-/

namespace UefiStub

open Interact

/-- Outside plane 0 and with low sixteen bits in the surrogate range. -/
def MaskedSurrogate (c : Char) : Prop := 0x10000 ≤ c.toNat ∧ c.toNat % 0x10000 / 0x800 = 27

instance : DecidablePred MaskedSurrogate := fun c =>
  inferInstanceAs (Decidable (0x10000 ≤ c.toNat ∧ c.toNat % 0x10000 / 0x800 = 27))

/-- A text that starts with an octet that is not a continuation. -/
def Fresh (x : CStr) : Prop := ∃ b t, x = b :: t ∧ ¬IsCont b

theorem fresh_nul (z : CStr) : Fresh (0 :: z) := ⟨0, z, rfl, by decide⟩

theorem isCont_iff (b : U8) : IsCont b ↔ (b ^^^ 0x80) &&& 0xc0 = 0 := by
  revert b; decide

/-! ## Any octets -/

theorem trailLoop_stop {b : U8} (hb : ¬IsCont b) (n : Nat) (t : CStr) (c32 : U32) :
    trailLoop (n + 1) (b :: t) c32 = some none := by
  rw [isCont_iff] at hb
  simp only [trailLoop, List.head?_cons, Option.bind_eq_bind, Option.bind_some, ne_eq, hb,
    not_false_eq_true, if_true]

theorem trailLoop_step {b : U8} (hb : IsCont b) (n : Nat) (t : CStr) (c32 : U32) :
    trailLoop (n + 1) (b :: t) c32 =
      trailLoop n t (c32 <<< 6 ||| (b ^^^ 0x80).setWidth 32) := by
  rw [isCont_iff] at hb
  simp only [trailLoop, List.head?_cons, List.tail_cons, Option.bind_eq_bind, Option.bind_some,
    ne_eq, hb, not_true_eq_false, if_false]

/-- The loop over the trailing octets on two texts that differ only after `a`. -/
theorem trailLoop_ext {x y : CStr} (hx : Fresh x) (hy : Fresh y) :
    ∀ (n : Nat) (a : CStr) (c32 : U32),
      (trailLoop n (a ++ x) c32 = some none ∧ trailLoop n (a ++ y) c32 = some none) ∨
      ∃ r, n ≤ a.length ∧ trailLoop n (a ++ x) c32 = some (some r) ∧
        trailLoop n (a ++ y) c32 = some (some r)
  | 0, a, c32 => .inr ⟨c32, Nat.zero_le _, rfl, rfl⟩
  | n + 1, [], c32 => by
    obtain ⟨b, t, rfl, hb⟩ := hx
    obtain ⟨b', t', rfl, hb'⟩ := hy
    exact .inl ⟨trailLoop_stop hb n t c32, trailLoop_stop hb' n t' c32⟩
  | n + 1, b :: a, c32 => by
    by_cases hb : IsCont b
    · simp only [List.cons_append, trailLoop_step hb, List.length_cons, Nat.add_le_add_iff_right]
      exact trailLoop_ext hx hy n a _
    · exact .inl ⟨trailLoop_stop hb n _ c32, trailLoop_stop hb n _ c32⟩

/-- A first octet that does not lead a sequence of two to four stands for itself. -/
theorem utf8ToUtf32_single {c0 : U8}
    (hlen : (leadLoop 8 c0 0).2 < 2 ∨ (leadLoop 8 c0 0).2 > 4) (t : CStr) :
    utf8ToUtf32 (c0 :: t) = some (c0.setWidth 32, t) := by
  generalize hlead : leadLoop 8 c0 0 = lead at hlen
  obtain ⟨cx, clen⟩ := lead
  simp only [utf8ToUtf32, List.head?_cons, List.tail_cons, Option.bind_eq_bind, Option.bind_some,
    Option.pure_def, hlead, if_pos hlen]

/-- What a call can do: return the first octet, or a checked code point of `n + 1` octets. -/
theorem utf8ToUtf32_cases {c0 : U8} {t s : CStr} {c : U32}
    (h : utf8ToUtf32 (c0 :: t) = some (c, s)) :
    (c = c0.setWidth 32 ∧ s = t) ∨
    ∃ cx n, leadLoop 8 c0 0 = (cx, n + 1) ∧ 1 ≤ n ∧ n ≤ 3 ∧
      trailLoop n t ((cx >>> (n + 1)).setWidth 32) = some (some c) ∧ s = t.drop n ∧
      c ≤ 0x10ffff ∧ c &&& 0xf800 ≠ 0xd800 ∧ n = trailCount c := by
  by_cases hlen : (leadLoop 8 c0 0).2 < 2 ∨ (leadLoop 8 c0 0).2 > 4
  · rw [utf8ToUtf32_single hlen] at h
    cases h
    exact .inl ⟨rfl, rfl⟩
  generalize hlead : leadLoop 8 c0 0 = lead at hlen
  obtain ⟨cx, clen⟩ := lead
  obtain ⟨n, rfl⟩ : ∃ n, clen = n + 1 := ⟨clen - 1, by dsimp only at hlen; omega⟩
  simp only [utf8ToUtf32, List.head?_cons, List.tail_cons, Option.bind_eq_bind, Option.bind_some,
    Option.pure_def, hlead, if_neg hlen, Nat.add_sub_cancel, Option.bind_eq_some_iff] at h
  obtain ⟨r, htrail, h⟩ := h
  cases r with
  | none =>
    cases h
    exact .inl ⟨rfl, rfl⟩
  | some r =>
    dsimp only at h
    split at h
    · cases h
      exact .inl ⟨rfl, rfl⟩
    · rename_i hvalid
      cases h
      simp only [not_or, not_not] at hvalid
      obtain ⟨hmax, hmask, hcount⟩ := hvalid
      exact .inr ⟨cx, n, rfl, by omega, by omega, htrail, rfl, BitVec.not_lt.mp hmax, hmask, hcount⟩

theorem utf8ToUtf32_ext {x y : CStr} (hx : Fresh x) (hy : Fresh y) (c0 : U8) (a : CStr) :
    ∃ c s, s <:+ a ∧ utf8ToUtf32 (c0 :: (a ++ x)) = some (c, s ++ x) ∧
      utf8ToUtf32 (c0 :: (a ++ y)) = some (c, s ++ y) := by
  simp only [utf8ToUtf32, List.head?_cons, List.tail_cons, Option.bind_eq_bind, Option.bind_some,
    Option.pure_def]
  generalize leadLoop 8 c0 0 = lead
  obtain ⟨cx, clen⟩ := lead
  by_cases hlen : clen < 2 ∨ clen > 4
  · exact ⟨c0.setWidth 32, a, List.suffix_refl a, by rw [if_pos hlen], by rw [if_pos hlen]⟩
  simp only [hlen, if_false]
  obtain ⟨h1, h2⟩ | ⟨r, hn, h1, h2⟩ := trailLoop_ext hx hy (clen - 1) a ((cx >>> clen).setWidth 32)
  · exact ⟨c0.setWidth 32, a, List.suffix_refl a, by rw [h1]; rfl, by rw [h2]; rfl⟩
  simp only [h1, h2, Option.bind_some]
  split
  · exact ⟨c0.setWidth 32, a, List.suffix_refl a, rfl, rfl⟩
  · exact ⟨r, a.drop (clen - 1), List.drop_suffix _ _, by rw [List.drop_append_of_le_length hn],
      by rw [List.drop_append_of_le_length hn]⟩

/-- **The decoder does not look past the text**, whatever the octets. -/
theorem utf8ToUtf32_text (c0 : U8) (a : CStr) :
    ∃ c s, s <:+ a ∧ ∀ x, Fresh x → utf8ToUtf32 (c0 :: (a ++ x)) = some (c, s ++ x) := by
  obtain ⟨c, s, hs, h, -⟩ := utf8ToUtf32_ext (fresh_nul []) (fresh_nul []) c0 a
  refine ⟨c, s, hs, fun x hx => ?_⟩
  obtain ⟨c', s', -, h', hx'⟩ := utf8ToUtf32_ext (fresh_nul []) hx c0 a
  rw [h, Option.some.injEq, Prod.mk.injEq] at h'
  obtain ⟨rfl, hs'⟩ := h'
  rwa [List.append_cancel_right hs']

theorem leadLoop_ascii : ∀ c0 : U8, 2 ≤ (leadLoop 8 c0 0).2 → 0x80 ≤ c0 := by decide

theorem trailCount_eq (c : U32) : trailCount c = (if 0x80 ≤ c.toNat then 1 else 0) +
    (if 0x800 ≤ c.toNat then 1 else 0) + (if 0x10000 ≤ c.toNat then 1 else 0) := rfl

theorem le_of_trailCount {c : U32} (h : 1 ≤ trailCount c) : 0x80 ≤ c := by
  rw [trailCount_eq] at h
  show 0x80 ≤ c.toNat
  by_contra hc
  rw [if_neg (by omega), if_neg (by omega), if_neg (by omega)] at h
  omega

/-- The result is the first octet, or a code point outside ASCII that is in range and no
surrogate. -/
theorem utf8ToUtf32_value {c0 : U8} {t s : CStr} {c : U32}
    (h : utf8ToUtf32 (c0 :: t) = some (c, s)) :
    c = c0.setWidth 32 ∨ (0x80 ≤ c0 ∧ 0x80 ≤ c ∧ c ≤ 0x10ffff ∧ c &&& 0xf800 ≠ 0xd800) := by
  obtain ⟨rfl, -⟩ | ⟨cx, n, hlead, h1, -, -, -, hmax, hmask, hcount⟩ := utf8ToUtf32_cases h
  · exact .inl rfl
  · have hc0 : 0x80 ≤ c0 := leadLoop_ascii c0 (by rw [hlead]; exact Nat.succ_le_succ h1)
    exact .inr ⟨hc0, le_of_trailCount (hcount ▸ h1), hmax, hmask⟩

/-- A continuation octet where a character should start stands for itself. -/
theorem utf8ToUtf32_cont {b : U8} (hb : IsCont b) (t : CStr) :
    utf8ToUtf32 (b :: t) = some (b.setWidth 32, t) := by
  have hlen : ∀ b : U8, IsCont b → (leadLoop 8 b 0).2 < 2 := by decide
  exact utf8ToUtf32_single (.inl (hlen b hb)) t

theorem utf8ToUtf32_octet {b : U8} (hb : b < 0x80) (t : CStr) :
    utf8ToUtf32 (b :: t) = some (b.setWidth 32, t) := by
  have hlen : ∀ b : U8, b < 0x80 → (leadLoop 8 b 0).2 < 2 := by decide
  exact utf8ToUtf32_single (.inl (hlen b hb)) t

/-! ## Encoded code points -/

theorem lead_two : ∀ a < 32,
    leadLoop 8 (BitVec.ofNat 8 (a + 0xc0)) 0 = (BitVec.ofNat 8 (a * 4), 2) ∧
      (BitVec.ofNat 8 (a * 4) >>> 2).setWidth 32 = BitVec.ofNat 32 a := by decide

theorem lead_three : ∀ a < 16,
    leadLoop 8 (BitVec.ofNat 8 (a + 0xe0)) 0 = (BitVec.ofNat 8 (a * 8), 3) ∧
      (BitVec.ofNat 8 (a * 8) >>> 3).setWidth 32 = BitVec.ofNat 32 a := by decide

theorem lead_four : ∀ a < 8,
    leadLoop 8 (BitVec.ofNat 8 (a + 0xf0)) 0 = (BitVec.ofNat 8 (a * 16), 4) ∧
      (BitVec.ofNat 8 (a * 16) >>> 4).setWidth 32 = BitVec.ofNat 32 a := by decide

theorem contOctet_bits : ∀ d < 64, (BitVec.ofNat 8 (d + 0x80) ^^^ 0x80) &&& 0xc0 = (0 : U8) ∧
    (BitVec.ofNat 8 (d + 0x80) ^^^ 0x80).setWidth 32 = BitVec.ofNat 32 d := by decide

/-- One continuation octet appends its six bits. -/
theorem trailLoop_cont {n v : Nat} {t : CStr} (hv : v < 2 ^ 32) :
    trailLoop (n + 1) (contOctet v :: t) (BitVec.ofNat 32 (v / 64)) =
      trailLoop n t (BitVec.ofNat 32 v) := by
  obtain ⟨h1, h2⟩ := contOctet_bits (v % 64) (Nat.mod_lt _ (by decide))
  have hor : BitVec.ofNat 32 (v / 64) <<< 6 ||| BitVec.ofNat 32 (v % 64) = BitVec.ofNat 32 v := by
    apply BitVec.eq_of_toNat_eq
    rw [BitVec.toNat_or, BitVec.toNat_shiftLeft, BitVec.toNat_ofNat, BitVec.toNat_ofNat,
      BitVec.toNat_ofNat, Nat.mod_eq_of_lt (show v / 64 < 2 ^ 32 by omega),
      Nat.mod_eq_of_lt (show v % 64 < 2 ^ 32 by omega), Nat.mod_eq_of_lt hv,
      Nat.mod_eq_of_lt (by rw [Nat.shiftLeft_eq]; omega),
      ← Nat.shiftLeft_add_eq_or_of_lt (show v % 64 < 2 ^ 6 by omega), Nat.shiftLeft_eq]
    omega
  simp only [trailLoop, contOctet, List.head?_cons, List.tail_cons, Option.bind_eq_bind,
    Option.bind_some, h1, h2, hor, ne_eq, not_true_eq_false, if_false]

theorem trailCount_char (c : Char) : trailCount (BitVec.ofNat 32 c.toNat) =
    (if 0x80 ≤ c.toNat then 1 else 0) + (if 0x800 ≤ c.toNat then 1 else 0) +
      (if 0x10000 ≤ c.toNat then 1 else 0) := by
  have hlt := char_lt c
  rw [trailCount_eq, toNat_ofNat_lt (by omega)]

/-- The checks after the loop, on a code point decoded from the right number of octets. -/
theorem valid_iff {c : Char} {n : Nat} (hn : n = trailCount (BitVec.ofNat 32 c.toNat)) :
    (BitVec.ofNat 32 c.toNat > 0x10ffff ∨ BitVec.ofNat 32 c.toNat &&& 0xf800 = 0xd800 ∨
      n ≠ trailCount (BitVec.ofNat 32 c.toNat)) ↔ MaskedSurrogate c := by
  have hlt := char_lt c
  have hns := char_not_surrogate c
  have hrange : ¬BitVec.ofNat 32 c.toNat > 0x10ffff := by
    rw [gt_iff_lt, BitVec.lt_def, toNat_ofNat_lt (by omega)]
    simp; omega
  have hmask : BitVec.ofNat 32 c.toNat &&& 0xf800 = 0xd800 ↔ c.toNat % 0x10000 / 0x800 = 27 := by
    rw [← surrogate_mask, ← BitVec.toNat_inj, BitVec.toNat_and, BitVec.toNat_ofNat,
      Nat.mod_eq_of_lt (by omega)]
    rfl
  simp only [hrange, hmask, hn, ne_eq, not_true_eq_false, false_or, or_false, MaskedSurrogate]
  omega

/-- A lead octet for `n` trailing octets, and those octets. -/
theorem utf8ToUtf32_seq {c0 cx : U8} {n : Nat} {tl t : CStr} {c : Char}
    (hlead : leadLoop 8 c0 0 = (cx, n + 1)) (h1 : 1 ≤ n) (h3 : n ≤ 3) (htl : tl.length = n)
    (htrail : trailLoop n (tl ++ t) ((cx >>> (n + 1)).setWidth 32) =
      some (some (BitVec.ofNat 32 c.toNat)))
    (hcount : n = trailCount (BitVec.ofNat 32 c.toNat)) :
    utf8ToUtf32 (c0 :: (tl ++ t)) =
      if MaskedSurrogate c then some (c0.setWidth 32, tl ++ t)
      else some (BitVec.ofNat 32 c.toNat, t) := by
  simp only [utf8ToUtf32, List.head?_cons, List.tail_cons, Option.bind_eq_bind, Option.bind_some,
    Option.pure_def, hlead, Nat.add_sub_cancel, htrail, valid_iff hcount,
    if_neg (show ¬(n + 1 < 2 ∨ n + 1 > 4) by omega), List.drop_left' htl]

theorem utf8ToUtf32_ascii {c : Char} (h : c.toNat < 0x80) (t : CStr) :
    utf8ToUtf32 (BitVec.ofNat 8 c.toNat :: t) = some (BitVec.ofNat 32 c.toNat, t) := by
  have hw : (BitVec.ofNat 8 c.toNat).setWidth 32 = BitVec.ofNat 32 c.toNat := by
    apply BitVec.eq_of_toNat_eq
    rw [BitVec.toNat_setWidth, BitVec.toNat_ofNat, BitVec.toNat_ofNat]
    omega
  have hlt : BitVec.ofNat 8 c.toNat < 0x80 := by
    rw [BitVec.lt_def, toNat_ofNat_lt (by omega)]
    exact h
  rw [utf8ToUtf32_octet hlt, hw]

/-- **The decoder on an encoded code point.** -/
theorem utf8ToUtf32_utf8 (c : Char) (t : CStr) : utf8ToUtf32 (utf8 c ++ t) =
    if MaskedSurrogate c then some (((utf8 c).headD 0).setWidth 32, (utf8 c).tail ++ t)
    else some (BitVec.ofNat 32 c.toNat, t) := by
  have hlt := char_lt c
  have hcount := trailCount_char c
  obtain h | ⟨h1, h2⟩ | ⟨h1, h2⟩ | h : c.toNat < 0x80 ∨ (0x80 ≤ c.toNat ∧ c.toNat < 0x800) ∨
      (0x800 ≤ c.toNat ∧ c.toNat < 0x10000) ∨ 0x10000 ≤ c.toNat := by omega
  · rw [utf8_one h, if_neg (fun hm => by have := hm.1; omega)]
    exact utf8ToUtf32_ascii h t
  · obtain ⟨hl, hw⟩ := lead_two (c.toNat / 64) (by omega)
    rw [utf8_two h1 h2]
    refine utf8ToUtf32_seq (n := 1) hl (by omega) (by omega) rfl ?_ ?_
    · rw [hw, List.singleton_append, trailLoop_cont (by omega), trailLoop]
    · rw [hcount, if_pos h1, if_neg (by omega), if_neg (by omega)]
  · obtain ⟨hl, hw⟩ := lead_three (c.toNat / 4096) (by omega)
    have hdiv : c.toNat / 4096 = c.toNat / 64 / 64 := by omega
    rw [utf8_three h1 h2]
    refine utf8ToUtf32_seq (n := 2) hl (by omega) (by omega) rfl ?_ ?_
    · rw [hw, hdiv, List.cons_append, trailLoop_cont (by omega), List.cons_append,
        trailLoop_cont (by omega), trailLoop]
    · rw [hcount, if_pos (by omega), if_pos h1, if_neg (by omega)]
  · obtain ⟨hl, hw⟩ := lead_four (c.toNat / 262144) (by omega)
    have hdiv : c.toNat / 262144 = c.toNat / 64 / 64 / 64 := by omega
    have hdiv' : c.toNat / 4096 = c.toNat / 64 / 64 := by omega
    rw [utf8_four h]
    refine utf8ToUtf32_seq (n := 3) hl (by omega) (by omega) rfl ?_ ?_
    · rw [hw, hdiv, hdiv', List.cons_append, trailLoop_cont (by omega), List.cons_append,
        trailLoop_cont (by omega), List.cons_append, trailLoop_cont (by omega), trailLoop]
    · rw [hcount, if_pos (by omega), if_pos (by omega), if_pos h]

end UefiStub
