import UefiStub.Console.Stream

/-!
# Soundness of the decoder

Whatever the octets, `utf8_to_utf32` consumes one of them and returns it, or
consumes the encoding of the scalar value it returns (`utf8ToUtf32_decodes`).
The trailing octets the loop accepts are those of the value it has collected
(`trailLoop_inv`), and the checks after the loop leave a scalar value whose
shortest form has as many octets.

The units of a decoded character are well paired, and so is what `efi_puts`
sends for any string.
-/

namespace UefiStub

open Interact

/-! ## Decoding -/

/-- The value of a consumed sequence: a single octet, or an encoded character outside ASCII. -/
inductive Decodes : CStr → U32 → Prop where
  | octet (b : U8) : Decodes [b] (b.setWidth 32)
  | char (ch : Char) (h : 0x80 ≤ ch.toNat) : Decodes (utf8 ch) (BitVec.ofNat 32 ch.toNat)

/-- A lead octet is the length and the highest bits. -/
theorem leadLoop_inv : ∀ c0 : U8, 2 ≤ (leadLoop 8 c0 0).2 → (leadLoop 8 c0 0).2 ≤ 4 →
    c0 = BitVec.ofNat 8 (((leadLoop 8 c0 0).1 >>> (leadLoop 8 c0 0).2).toNat +
      (256 - 2 ^ (8 - (leadLoop 8 c0 0).2))) ∧
    ((leadLoop 8 c0 0).1 >>> (leadLoop 8 c0 0).2).toNat < 32 := by decide

theorem isCont_inv : ∀ b : U8, IsCont b → b = BitVec.ofNat 8 (b.toNat % 64 + 0x80) := by decide

/-- The octets the loop consumes are the lower bits of the value it returns. -/
theorem trailLoop_inv {n v0 : Nat} {t : CStr} {r : U32} (hv0 : (v0 + 1) * 64 ^ n ≤ 2 ^ 32)
    (h : trailLoop n t (BitVec.ofNat 32 v0) = some (some r)) :
    ∃ v t', v < 2 ^ 32 ∧ r = BitVec.ofNat 32 v ∧ v / 64 ^ n = v0 ∧ t = conts n v ++ t' := by
  induction n generalizing t v0 with
  | zero =>
    cases h
    exact ⟨v0, t, by omega, rfl, by simp, rfl⟩
  | succ n ih =>
    cases t with
    | nil => cases h
    | cons b t =>
      by_cases hb : IsCont b
      · -- the octet appends its six bits to the value
        obtain ⟨w, rfl, rfl, hw⟩ : ∃ w, b = contOctet w ∧ w / 64 = v0 ∧ w + 1 ≤ (v0 + 1) * 64 := by
          refine ⟨64 * v0 + b.toNat % 64, ?_, by omega, by omega⟩
          rw [contOctet, Nat.mul_add_mod, Nat.mod_mod]
          exact isCont_inv b hb
        have hbound : (w + 1) * 64 ^ n ≤ 2 ^ 32 := by
          refine Nat.le_trans (Nat.mul_le_mul_right _ hw) ?_
          rwa [Nat.mul_assoc, ← Nat.pow_succ']
        have hlt : w < 2 ^ 32 := Nat.lt_of_lt_of_le (Nat.lt_succ_self w)
          (Nat.le_trans (Nat.le_mul_of_pos_right _ (Nat.pow_pos (by decide))) hbound)
        rw [trailLoop_cont hlt] at h
        obtain ⟨v, t', hv, hr, rfl, rfl⟩ := ih hbound h
        refine ⟨v, t', hv, hr, ?_, ?_⟩
        · rw [Nat.pow_succ, Nat.div_div_eq_div_mul]
        · rw [conts, List.cons_append]
      · rw [trailLoop_stop hb] at h
        cases h

/-- **Any octets.** One octet is consumed and returned, or the encoding of what is returned. -/
theorem utf8ToUtf32_decodes {c0 : U8} {t s : CStr} {c : U32}
    (h : utf8ToUtf32 (c0 :: t) = some (c, s)) : ∃ p, c0 :: t = p ++ s ∧ Decodes p c := by
  have hlead := leadLoop_inv c0
  obtain ⟨rfl, rfl⟩ | ⟨cx, n, hl, h1, h3, htrail, rfl, hmax, hmask, hcount⟩ := utf8ToUtf32_cases h
  · exact ⟨[c0], rfl, .octet c0⟩
  rw [hl] at hlead
  obtain ⟨hc0, hbits⟩ := hlead (by simp only; omega) (by simp only; omega)
  dsimp only at hc0 hbits
  have hfirst : (cx >>> (n + 1)).setWidth 32 = BitVec.ofNat 32 (cx >>> (n + 1)).toNat := by
    apply BitVec.eq_of_toNat_eq
    rw [BitVec.toNat_setWidth, BitVec.toNat_ofNat]
  have hbound : ((cx >>> (n + 1)).toNat + 1) * 64 ^ n ≤ 2 ^ 32 := by
    have hpow := Nat.pow_le_pow_right (show 0 < 64 by decide) h3
    calc _ ≤ 32 * 64 ^ 3 := Nat.mul_le_mul (by omega) hpow
      _ ≤ 2 ^ 32 := by decide
  rw [hfirst] at htrail
  obtain ⟨v, t', hv, rfl, hv0, rfl⟩ := trailLoop_inv hbound htrail
  -- the checks make the value a character outside ASCII
  have hn : (BitVec.ofNat 32 v).toNat = v := toNat_ofNat_lt hv
  have hmax : v ≤ 0x10ffff := by
    have := BitVec.le_def.mp hmax
    rwa [hn] at this
  have hmask : ¬v % 0x10000 / 0x800 = 27 := fun h =>
    hmask (BitVec.eq_of_toNat_eq ((BitVec.toNat_and ..).trans
      (by rw [hn]; exact (surrogate_mask v).mpr h)))
  obtain ⟨ch, rfl⟩ := exists_char (n := v) (by omega) (by omega)
  have hle : 0x80 ≤ ch.toNat := by
    have := BitVec.le_def.mp (le_of_trailCount (c := BitVec.ofNat 32 ch.toNat) (by omega))
    rwa [hn] at this
  rw [trailCount_eq, hn] at hcount
  refine ⟨utf8 ch, ?_, .char ch hle⟩
  rw [utf8_conts h1 hcount, hc0, hv0, List.drop_left' (length_conts n _)]
  rw [show 8 - (n + 1) = 7 - n by omega]
  rfl

theorem Decodes.ne_zero {p : CStr} {c : U32} (h : Decodes p c) (h0 : 0 ∉ p) : c ≠ 0 := by
  cases h with
  | octet b =>
    intro hb
    have hb0 : b = 0 := by
      apply BitVec.eq_of_toNat_eq
      have := congrArg BitVec.toNat hb
      rwa [BitVec.toNat_setWidth, Nat.mod_eq_of_lt (Nat.lt_trans b.isLt (by decide))] at this
    exact h0 (by rw [hb0]; exact List.mem_singleton_self 0)
  | char ch h =>
    intro hc
    have hlt := char_lt ch
    have := congrArg BitVec.toNat hc
    rw [toNat_ofNat_lt (by omega)] at this
    change ch.toNat = 0 at this
    omega

/-! ## Surrogates -/

/-- The second half of a surrogate pair. -/
def IsLow (u : U16) : Prop := 0xdc00 ≤ u.toNat ∧ u.toNat < 0xe000

/-- Every surrogate belongs to a pair. -/
inductive WellPaired : List U16 → Prop where
  | nil : WellPaired []
  | unit {u : U16} {us : List U16} (hh : ¬IsHigh u) (hl : ¬IsLow u) (h : WellPaired us) :
      WellPaired (u :: us)
  | pair {u v : U16} {us : List U16} (hu : IsHigh u) (hv : IsLow v) (h : WellPaired us) :
      WellPaired (u :: v :: us)

namespace WellPaired

theorem append {us vs : List U16} (hu : WellPaired us) (hv : WellPaired vs) :
    WellPaired (us ++ vs) := by
  induction hu with
  | nil => exact hv
  | unit hh hl _ ih => exact .unit hh hl ih
  | pair hu hv _ ih => exact .pair hu hv ih

theorem singleton {u : U16} (h : u.toNat < 0xd800 ∨ 0xdfff < u.toNat) : WellPaired [u] := by
  refine .unit (fun hu => ?_) (fun hu => ?_) .nil
  · obtain ⟨h1, h2⟩ := hu
    omega
  · obtain ⟨h1, h2⟩ := hu
    omega

/-- The encoding of a scalar value. -/
theorem utf16 (ch : Char) : WellPaired (Interact.utf16 ch) := by
  have hlt := char_lt ch
  have hs := char_not_surrogate ch
  unfold Interact.utf16
  split
  · refine singleton ?_
    rw [BitVec.toNat_ofNat]
    omega
  · refine .pair ⟨?_, ?_⟩ ⟨?_, ?_⟩ .nil <;> rw [BitVec.toNat_ofNat] <;> omega

theorem charUnits {p : CStr} {c : U32} (h : Decodes p c) : WellPaired (charUnits c) := by
  cases h with
  | octet b =>
    rw [charUnits_octet]
    refine singleton (.inl ?_)
    rw [BitVec.toNat_setWidth]
    omega
  | char ch h =>
    rw [charUnits_char]
    exact utf16 ch

theorem turnUnits {c0 : U8} {t s : CStr} {c : U32} (h : utf8ToUtf32 (c0 :: t) = some (c, s)) :
    WellPaired (turnUnits c0 c) := by
  obtain ⟨p, -, hp⟩ := utf8ToUtf32_decodes h
  refine append ?_ (charUnits hp)
  split
  · exact singleton (.inl (by decide))
  · exact .nil

end WellPaired

/-- **Soundness.** Of a text that is followed by a terminator the decoder consumes one octet, or
the two to four octets of the scalar value it returns, and the units of the text are well
paired. -/
theorem utf8ToUtf32_sound {a : CStr} (h0 : 0 ∉ a) (z : CStr) :
    (a ≠ [] → ∃ p s c, a = p ++ s ∧ utf8ToUtf32 (a ++ 0 :: z) = some (c, s ++ 0 :: z) ∧ c ≠ 0 ∧
      ((∃ b : U8, p = [b] ∧ c = b.setWidth 32) ∨ 2 ≤ p.length ∧ p.length ≤ 4 ∧
        ∃ ch : Char, 0x80 ≤ ch.toNat ∧ c = BitVec.ofNat 32 ch.toNat ∧ p = utf8 ch)) ∧
    ∃ us, Streams (efiPuts (a ++ 0 :: z)) us ∧ WellPaired us := by
  constructor
  · intro hne
    obtain ⟨c0, t, rfl⟩ := List.exists_cons_of_ne_nil hne
    obtain ⟨c, s, -, htext⟩ := utf8ToUtf32_text c0 t
    have hdec := htext _ (fresh_nul z)
    obtain ⟨p, hp, hd⟩ := utf8ToUtf32_decodes hdec
    rw [← List.append_assoc, ← List.cons_append] at hp
    have hcut := List.append_cancel_right hp
    refine ⟨p, s, c, hcut, hdec, hd.ne_zero fun hmem => h0 ?_, ?_⟩
    · rw [hcut]
      exact List.mem_append_left s hmem
    · cases hd with
      | octet b => exact .inl ⟨b, rfl, rfl⟩
      | char ch h =>
        obtain ⟨h2, h4⟩ := length_utf8 h
        exact .inr ⟨h2, h4, ch, h, rfl, rfl⟩
  · obtain ⟨us, hus, hpair⟩ := exists_units_of WellPaired.nil
      (fun _ hdec hP => (WellPaired.turnUnits hdec).append hP) a.length (Nat.le_refl _) h0
    exact ⟨us, hus.streams h0 z, hpair⟩

/-- The octets of the euro sign, and the first two of them again. -/
def truncatedEuro : CStr := [0xe2, 0x82, 0xac, 0xe2, 0x82]

theorem utf8ToUtf32_sound_truncatedEuro :
    (truncatedEuro ≠ [] → ∃ p s c, truncatedEuro = p ++ s ∧
      utf8ToUtf32 (truncatedEuro ++ 0 :: []) = some (c, s ++ 0 :: []) ∧ c ≠ 0 ∧
      ((∃ b : U8, p = [b] ∧ c = b.setWidth 32) ∨ 2 ≤ p.length ∧ p.length ≤ 4 ∧
        ∃ ch : Char, 0x80 ≤ ch.toNat ∧ c = BitVec.ofNat 32 ch.toNat ∧ p = utf8 ch)) ∧
    ∃ us, Streams (efiPuts (truncatedEuro ++ 0 :: [])) us ∧ WellPaired us :=
  utf8ToUtf32_sound (by decide) []

end UefiStub
