import UefiStub.Console.Puts
import UefiStub.Str.Convert
import UefiStub.Str.Edit

/-!
# Console output of numbers

`efi_putd` and `efi_put0h` convert into a buffer and hand it to `efi_puts`:
they are `efi_puts` of the numeral, padded with zeros to at least `digits`
places by the latter. What the stub prints is therefore always a list of
`output_string` calls (`Prints`).
-/

namespace UefiStub

open Interact Interact.Buf

theorem efiPutd_eq (value : U64) : efiPutd value = efiPuts (numeral 10 value.toNat ++ [0]) := by
  have hlen : (numeral 10 value.toNat).length + 1 ≤ 21 :=
    @length_numeral_le 10 (by decide) value
  have hconv : u64tostr false value (blank 21) 0 10 =
      some (BitVec.ofNat 32 (numeral 10 value.toNat).length,
        writeAt (blank 21) 0 (numeral 10 value.toNat ++ [0])) :=
    u64tostr_eq (by decide) value
      (by rw [length_blank]; change 0 + (numeral 10 value.toNat).length < 21; omega)
  have hread := inits_drop_writeAt (m := (blank 21 : Mem)) (p := 0) (i := 0)
    (l := numeral 10 value.toNat ++ [0])
    (by rw [length_blank, List.length_append, List.length_singleton]; omega) (Nat.zero_le _)
  rw [Nat.add_zero, List.drop_zero, List.drop_zero, inits_drop_blank, List.append_nil] at hread
  simp only [efiPutd, hconv, lift_some, Prog.ret_bind, hread]

/-- Zeros are written after a text up to the last place, or over it, and the last place is
terminated. -/
theorem pad_eq {w : Nat} {text : List U8} {k : U32} {m : Mem} (hm : m.length = w + 1)
    (hlen : text.length ≤ w) (hk : w ≤ text.length + k.toNat)
    (hk1 : text.length + k.toNat ≤ w + 1) : (do
      let buf ← memset (writeAt m 0 (text ++ [0])) text.length 48 k
      buf.store w 0) =
    some ((text ++ List.replicate (w - text.length) 48 ++ [0]).map some) := by
  -- the terminator first, so that what follows is written over it
  have hm1 : (writeAt m text.length [0]).length = w + 1 := by
    rw [length_writeAt (by rw [List.length_singleton]; omega), hm]
  have hswap := writeAt_append_swap (m := m) (p := 0) (l := text) (r := [0])
    (by rw [List.length_singleton]; omega)
  have hpad := writeAt_append (m := writeAt m text.length [0]) (p := 0) (l := text)
    (r := List.replicate k.toNat 48) (by rw [List.length_replicate]; omega)
  have hroom : text.length + k.toNat ≤ (writeAt (writeAt m text.length [0]) 0 text).length := by
    rw [length_writeAt (by omega)]
    omega
  have hplen : (text ++ List.replicate k.toNat (48 : U8)).length = text.length + k.toNat := by
    rw [List.length_append, List.length_replicate]
  have hend := store_over (m := writeAt m text.length [0]) (p := 0) (q := w)
    (l := text ++ List.replicate k.toNat 48) (by omega) (by omega) (by omega) 0
  have hwhole : writeAt (writeAt m text.length [0]) 0
      (text ++ List.replicate (w - text.length) 48 ++ [0]) =
        (text ++ List.replicate (w - text.length) 48 ++ [0]).map some :=
    writeAt_whole (by
      simp only [List.length_append, List.length_replicate, List.length_singleton]; omega)
  rw [Nat.zero_add] at hswap hpad hend
  rw [List.take_append, List.take_of_length_le hlen, List.take_replicate,
    Nat.min_eq_left (by omega), hwhole] at hend
  rw [← hswap, memset_eq _ hroom, Option.bind_eq_bind, Option.bind_some, hpad, hend]

/-- A numeral is reversed, padded and reversed back. -/
theorem padded_buffer {w : Nat} {num : List U8} {k : U32} {m : Mem} (hm : m.length = w + 1)
    (hw : w ≤ 2147483647) (hlen : num.length ≤ w) (h0 : 0 ∉ num) (hk : w ≤ num.length + k.toNat)
    (hk1 : num.length + k.toNat ≤ w + 1) : (do
      let buf ← strrev (writeAt m 0 (num ++ [0])) 0
      let buf ← memset buf (BitVec.ofNat 32 num.length : U32).toNat 48 k
      let buf ← buf.store w 0
      strrev buf 0) =
    some ((List.replicate (w - num.length) 48 ++ num ++ [0]).map some) := by
  have hn : (BitVec.ofNat 32 num.length : U32).toNat = num.length := toNat_ofNat_lt (by omega)
  have hpad := @pad_eq w num.reverse k m hm (by rwa [List.length_reverse])
    (by rwa [List.length_reverse]) (by rwa [List.length_reverse])
  rw [List.length_reverse, Option.bind_eq_bind, Option.bind_eq_some_iff] at hpad
  obtain ⟨buf, hset, hstore⟩ := hpad
  have hnul : (0 : U8) ∉ num.reverse ++ List.replicate (w - num.length) 48 := by
    intro h
    rcases List.mem_append.mp h with h | h
    · exact h0 (List.mem_reverse.mp h)
    · exact absurd (List.mem_replicate.mp h).2 (by decide)
  have hback := strrev_whole hnul
    (by rw [List.length_append, List.length_reverse, List.length_replicate]; omega)
  rw [List.reverse_append, List.reverse_reverse, List.reverse_replicate] at hback
  simp only [strrev_eq (m := m) (p := 0) h0 (by omega) (by omega), hn, hset, hstore, hback,
    Option.bind_eq_bind, Option.bind_some]

theorem efiPut0h_eq (value : U64) {digits : U32} (hd : digits.toNat ≤ 16) :
    efiPut0h value digits =
      efiPuts (List.replicate (digits.toNat - (numeral 16 value.toNat).length) 48 ++
        numeral 16 value.toNat ++ [0]) := by
  have hlen : (numeral 16 value.toNat).length + 1 ≤ 17 :=
    @length_numeral_le 16 (by decide) value
  have h0 : 0 ∉ numeral 16 value.toNat := zero_notMem_numeral (by decide) (by decide) _
  have hconv : u64tostr false value (blank 17) 0 16 =
      some (BitVec.ofNat 32 (numeral 16 value.toNat).length,
        writeAt (blank 17) 0 (numeral 16 value.toNat ++ [0])) :=
    u64tostr_eq (by decide) value
      (by rw [length_blank]; change 0 + (numeral 16 value.toNat).length < 17; omega)
  generalize numeral 16 value.toNat = num at hlen h0 hconv
  have hn : (BitVec.ofNat 32 num.length : U32).toNat = num.length :=
    toNat_ofNat_lt (by omega)
  have hk : (16 - BitVec.ofNat 32 num.length : U32).toNat = 16 - num.length :=
    toNat_sub_ofNat (Nat.le_of_succ_le_succ hlen)
  have hbuf := padded_buffer (m := blank 17) (k := 16 - BitVec.ofNat 32 num.length)
    (length_blank 17) (by decide) (by omega) h0 (by omega) (by omega)
  simp only [Option.bind_eq_bind, Option.bind_eq_some_iff] at hbuf
  obtain ⟨b1, h1, b2, h2, b3, h3, h4⟩ := hbuf
  -- the start of the printed part
  have hskip : (16 - if (BitVec.ofNat 32 num.length : U32) > digits then BitVec.ofNat 32 num.length
      else digits : U32).toNat = 16 - max num.length digits.toNat := by
    split <;> rename_i hgt <;> rw [gt_iff_lt, BitVec.lt_def, hn] at hgt
    · rw [hk]
      omega
    · rw [BitVec.toNat_sub_of_le hd]
      change 16 - digits.toNat = _
      omega
  have hread : inits (((List.replicate (16 - num.length) 48 ++ num ++ [0]).map some).drop
      (16 - max num.length digits.toNat)) =
        List.replicate (digits.toNat - num.length) 48 ++ num ++ [0] := by
    rw [← List.map_drop, inits_map, List.append_assoc, List.drop_append_of_le_length
      (by rw [List.length_replicate]; omega), List.drop_replicate, ← List.append_assoc,
      show 16 - num.length - (16 - max num.length digits.toNat) = digits.toNat - num.length by
        omega]
  simp only [efiPut0h, hconv, lift_some, Prog.ret_bind, h1, h2, h3, h4, hskip, hread]

/-! ## What the stub prints -/

/-- The program is a list of `output_string` calls. -/
def Prints (p : Uefi Unit) : Prop := ∃ chunks, Sends p chunks

theorem Prints.bind {p q : Uefi Unit} (hp : Prints p) (hq : Prints q) :
    Prints (p >>= fun _ => q) := by
  obtain ⟨cs, hp⟩ := hp
  obtain ⟨cs', hq⟩ := hq
  exact ⟨cs ++ cs', hp.bind hq⟩

theorem prints_ret : Prints (.ret ()) := ⟨[], rfl⟩

theorem prints_puts {str : CStr} (h : 0 ∈ str) : Prints (efiPuts str) := by
  obtain ⟨s, z, rfl, h0⟩ := List.eq_append_cons_of_mem h
  obtain ⟨chunks, -, -, hsend, -⟩ := efiPuts_payloads h0 z
  exact ⟨chunks, hsend⟩

theorem prints_lit (s : String) : Prints (efiPuts (lit s)) :=
  prints_puts (List.mem_append_right _ (List.mem_singleton.mpr rfl))

theorem prints_putd (value : U64) : Prints (efiPutd value) := by
  rw [efiPutd_eq]
  exact prints_puts (List.mem_append_right _ (List.mem_singleton.mpr rfl))

theorem prints_put0h (value : U64) {digits : U32} (hd : digits.toNat ≤ 16) :
    Prints (efiPut0h value digits) := by
  rw [efiPut0h_eq value hd]
  exact prints_puts (List.mem_append_right _ (List.mem_singleton.mpr rfl))

end UefiStub
