import UefiStub.Str.Basic

/-!
# Comparing strings

`memcmp` compares bytes as unsigned values, `strncmp` and `strcmp` compare
signed characters. The sign of a comparison is that of the lexicographic order
on the bytes, where a string that ends first comes first. The signed comparison
gives this order exactly where the first bytes that differ have the same top
bit; the terminator counts as a byte.
-/

namespace UefiStub

open Interact

/-- The sign of a comparison is the order of the byte strings. -/
structure Orders (r : Int) (a b : List U8) : Prop where
  neg_iff : r < 0 ↔ a < b
  zero_iff : r = 0 ↔ a = b
  pos_iff : 0 < r ↔ b < a

section Orders

variable {r : Int} {a b : List U8} {x y : U8}

theorem orders_nil : Orders 0 [] [] := ⟨by simp, by simp, by simp⟩

theorem orders_cons_iff : Orders r (x :: a) (x :: b) ↔ Orders r a b := by
  have hlt (a b : List U8) : x :: a < x :: b ↔ a < b := by
    rw [List.cons_lt_cons_iff]
    simp
  constructor
  · rintro ⟨hn, hz, hp⟩
    rw [hlt] at hn hp
    rw [List.cons_inj_right] at hz
    exact ⟨hn, hz, hp⟩
  · rintro ⟨hn, hz, hp⟩
    rw [← hlt] at hn hp
    exact ⟨hn, hz.trans (List.cons_inj_right x).symm, hp⟩

/-- Strings that differ in the first byte. -/
theorem orders_of_ne (h : x ≠ y) :
    Orders r (x :: a) (y :: b) ↔ (r < 0 ↔ x < y) ∧ (0 < r ↔ y < x) := by
  have hxy : x :: a < y :: b ↔ x < y := by
    rw [List.cons_lt_cons_iff]
    simp [h]
  have hyx : y :: b < x :: a ↔ y < x := by
    rw [List.cons_lt_cons_iff]
    simp [Ne.symm h]
  have hne : x :: a ≠ y :: b := fun heq => h (List.cons.inj heq).1
  constructor
  · rintro ⟨hn, hz, hp⟩
    exact ⟨hn.trans hxy, hp.trans hyx⟩
  · rintro ⟨hn, hp⟩
    refine ⟨hn.trans hxy.symm, ⟨fun h0 => ?_, fun heq => absurd heq hne⟩, hp.trans hyx.symm⟩
    have htotal : x < y ∨ y < x := by
      rw [BitVec.lt_def, BitVec.lt_def]
      exact Nat.lt_or_gt_of_ne fun heq => h (BitVec.eq_of_toNat_eq heq)
    rcases htotal with hlt | hlt
    · exact absurd (hn.mpr hlt) (by omega)
    · exact absurd (hp.mpr hlt) (by omega)

theorem zero_lt_of_ne (h : y ≠ 0) : (0 : U8) < y := by
  have hy : y.toNat ≠ 0 := fun heq => h (BitVec.eq_of_toNat_eq heq)
  rw [BitVec.lt_def]
  exact Nat.pos_of_ne_zero hy

/-- A string that ends where the other goes on is compared by its terminator. -/
theorem orders_nil_cons (h : y ≠ 0) :
    Orders r [] (y :: b) ↔ (r < 0 ↔ 0 < y) ∧ (0 < r ↔ y < 0) := by
  have hp : 0 < y := zero_lt_of_ne h
  have hn : ¬ y < 0 := BitVec.not_lt_zero
  have hlt : ([] : List U8) < y :: b ↔ 0 < y := iff_of_true (List.nil_lt_cons y b) hp
  have hgt : y :: b < [] ↔ y < 0 := iff_of_false (List.not_lt_nil _) hn
  constructor
  · rintro ⟨hl, hz, hg⟩
    exact ⟨hl.trans hlt, hg.trans hgt⟩
  · rintro ⟨hl, hg⟩
    have hr : r < 0 := hl.mpr hp
    exact ⟨hl.trans hlt.symm, iff_of_false (by omega) (List.cons_ne_nil y b).symm,
      hg.trans hgt.symm⟩

theorem Orders.swap (h : Orders r a b) : Orders (-r) b a :=
  ⟨by rw [← h.pos_iff]; omega, by rw [@eq_comm _ b, ← h.zero_iff]; omega,
    by rw [← h.neg_iff]; omega⟩

theorem orders_swap_iff : Orders r a b ↔ Orders (-r) b a :=
  ⟨Orders.swap, fun h => by simpa using h.swap⟩

theorem orders_cons_nil (h : x ≠ 0) :
    Orders r (x :: a) [] ↔ (r < 0 ↔ x < 0) ∧ (0 < r ↔ 0 < x) := by
  rw [orders_swap_iff, orders_nil_cons h, and_comm]
  exact and_congr (iff_congr (by omega) Iff.rfl) (iff_congr (by omega) Iff.rfl)

/-- The terminators may take part in the comparison. -/
theorem orders_terminated_iff : ∀ {a b : List U8}, 0 ∉ a → 0 ∉ b →
    (Orders r ((a ++ [0]).take (min a.length b.length + 1))
      ((b ++ [0]).take (min a.length b.length + 1)) ↔ Orders r a b)
  | [], [], _, _ => orders_cons_iff
  | [], y :: b, _, hb => by
    have hy : y ≠ 0 := (List.ne_of_not_mem_cons hb).symm
    rw [orders_nil_cons hy]
    exact orders_of_ne hy.symm
  | x :: a, [], ha, _ => by
    have hx : x ≠ 0 := (List.ne_of_not_mem_cons ha).symm
    rw [orders_cons_nil hx]
    exact orders_of_ne hx
  | x :: a, y :: b, ha, hb => by
    have ih := orders_terminated_iff (List.not_mem_of_not_mem_cons ha)
      (List.not_mem_of_not_mem_cons hb)
    simp only [List.length_cons, Nat.add_min_add_right, List.cons_append, List.take_succ_cons]
    by_cases hxy : x = y
    · subst hxy
      rw [orders_cons_iff, orders_cons_iff, ih]
    · rw [orders_of_ne hxy, orders_of_ne hxy]

/-- Of two results, one of which has the sign of the order, both agree iff the other has it. -/
theorem Orders.sign_eq_iff {r' : Int} (h : Orders r' a b) : r.sign = r'.sign ↔ Orders r a b := by
  constructor
  · intro hs
    refine ⟨?_, ?_, ?_⟩
    · rw [← Int.sign_neg_iff, hs, Int.sign_neg_iff, h.neg_iff]
    · rw [← Int.sign_eq_zero_iff_zero, hs, Int.sign_eq_zero_iff_zero, h.zero_iff]
    · rw [← Int.sign_pos_iff, hs, Int.sign_pos_iff, h.pos_iff]
  · rintro ⟨hn, hz, hp⟩
    rw [← h.neg_iff] at hn
    rw [← h.zero_iff] at hz
    rw [← h.pos_iff] at hp
    rcases Int.lt_trichotomy r' 0 with hr | hr | hr
    · rw [Int.sign_eq_neg_one_of_neg hr, Int.sign_eq_neg_one_of_neg (hn.mpr hr)]
    · rw [hr, hz.mpr hr]
    · rw [Int.sign_eq_one_of_pos hr, Int.sign_eq_one_of_pos (hp.mpr hr)]

end Orders

theorem memcmpLoop_orders {n : Nat} {a b : CStr} (ha : n ≤ a.length) (hb : n ≤ b.length) :
    ∃ r, memcmpLoop n a b = some r ∧ Orders r (a.take n) (b.take n) := by
  induction n generalizing a b with
  | zero => exact ⟨0, rfl, orders_nil⟩
  | succ n ih => cases a with
    | nil => cases ha
    | cons x a => cases b with
      | nil => cases hb
      | cons y b =>
        rw [memcmpLoop]
        simp only [List.head?_cons, List.tail_cons, Option.bind_eq_bind, Option.bind_some,
          List.take_succ_cons]
        by_cases hxy : x = y
        · subst hxy
          rw [if_neg (by simp)]
          simp only [orders_cons_iff]
          exact ih (Nat.le_of_succ_le_succ ha) (Nat.le_of_succ_le_succ hb)
        · have hne : x.toNat ≠ y.toNat := fun h => hxy (BitVec.eq_of_toNat_eq h)
          rw [if_pos (by omega)]
          refine ⟨_, rfl, (orders_of_ne hxy).mpr ?_⟩
          rw [BitVec.lt_def, BitVec.lt_def]
          omega

/-! ## Signed characters -/

/-- The first bytes at which the strings differ, with their terminators, are these, and not past
the bound. -/
def FirstDiff (n : Nat) (a b : List U8) (x y : U8) : Prop :=
  ∃ p s t, p.length < n ∧ a ++ [0] = p ++ x :: s ∧ b ++ [0] = p ++ y :: t ∧ x ≠ y

/-- The first bytes that differ are both below `0x80` or both not. -/
def SameHalf (n : Nat) (a b : List U8) : Prop :=
  ∀ x y, FirstDiff n a b x y → (x < 0x80 ↔ y < 0x80)

section SameHalf

variable {n : Nat} {a b : List U8} {x y : U8}

theorem sameHalf_zero : SameHalf 0 a b :=
  fun _ _ ⟨_, _, _, hp, _⟩ => absurd hp (Nat.not_lt_zero _)

theorem firstDiff_cons_iff {x' y' : U8} :
    FirstDiff (n + 1) (x :: a) (x :: b) x' y' ↔ FirstDiff n a b x' y' := by
  constructor
  · rintro ⟨p, s, t, hp, ha, hb, hne⟩
    cases p with
    | nil =>
      injection ha with hx
      injection hb with hy
      exact absurd (hx.symm.trans hy) hne
    | cons z p =>
      injection ha with _ ha
      injection hb with _ hb
      exact ⟨p, s, t, Nat.lt_of_succ_lt_succ hp, ha, hb, hne⟩
  · rintro ⟨p, s, t, hp, ha, hb, hne⟩
    exact ⟨x :: p, s, t, Nat.succ_lt_succ hp, congrArg (x :: ·) ha, congrArg (x :: ·) hb, hne⟩

theorem sameHalf_cons_iff : SameHalf (n + 1) (x :: a) (x :: b) ↔ SameHalf n a b :=
  forall_congr' fun _ => forall_congr' fun _ => by rw [firstDiff_cons_iff]

theorem sameHalf_nil : SameHalf n [] [] := by
  rintro x y ⟨p, s, t, hp, ha, hb, hne⟩
  rw [ha] at hb
  exact absurd (List.cons.inj (List.append_cancel_left hb)).1 hne

/-- Strings, with their terminators, that differ in the first byte. -/
theorem sameHalf_of_ne {s t : List U8} (ha : a ++ [0] = x :: s) (hb : b ++ [0] = y :: t)
    (h : x ≠ y) : SameHalf (n + 1) a b ↔ (x < 0x80 ↔ y < 0x80) := by
  constructor
  · intro hs
    exact hs x y ⟨[], s, t, Nat.succ_pos n, ha, hb, h⟩
  · rintro hs x' y' ⟨p, s', t', hp, ha', hb', hne⟩
    rw [ha] at ha'
    rw [hb] at hb'
    cases p with
    | nil =>
      injection ha' with hx
      injection hb' with hy
      rwa [← hx, ← hy]
    | cons z p =>
      injection ha' with hx
      injection hb' with hy
      exact absurd (hx.trans hy.symm) h

end SameHalf

/-- The difference of signed characters has the sign of the unsigned order iff the bytes have the
same top bit. -/
theorem toInt_sub_signs_iff {x y : U8} (h : x ≠ y) :
    (x.toInt - y.toInt < 0 ↔ x < y) ∧ (0 < x.toInt - y.toInt ↔ y < x) ↔
      (x < 0x80 ↔ y < 0x80) := by
  have hne : x.toNat ≠ y.toNat := fun heq => h (BitVec.eq_of_toNat_eq heq)
  have hx := x.isLt
  have hy := y.isLt
  have h80 : (0x80 : U8).toNat = 128 := rfl
  simp only [BitVec.lt_def, BitVec.toInt_eq_toNat_cond, h80]
  split <;> split <;> omega

theorem strncmpLoop_cons {x y : U8} {s1 s2 : CStr} :
    ∀ {n i : Nat} {c : U8 × U8},
      strncmpLoop (x :: s1) (y :: s2) n (i + 1) c = strncmpLoop s1 s2 n i c
  | 0, _, _ => rfl
  | n + 1, i, c => by
    simp only [strncmpLoop, List.getElem?_cons_succ, strncmpLoop_cons]

/-- A turn of the loop on the first characters. -/
theorem strncmpLoop_turn {x y : U8} {s1 s2 : CStr} {n : Nat} {c : U8 × U8} :
    strncmpLoop (x :: s1) (y :: s2) (n + 1) 0 c =
      if x ≠ y ∨ x = 0 ∨ y = 0 then some (x, y) else strncmpLoop s1 s2 n 0 (x, y) := by
  simp only [strncmpLoop, List.getElem?_cons_zero, strncmpLoop_cons, Option.bind_eq_bind,
    Option.bind_some]

/-- Where the first characters differ, the loop ends with them. -/
theorem strncmpLoop_differ {x y : U8} {s1 s2 : CStr} {a b s t : List U8} {n : Nat} {c : U8 × U8}
    (h : x ≠ y) (ha : a ++ [0] = x :: s) (hb : b ++ [0] = y :: t)
    (horders : ∀ r, Orders r (a.take (n + 1)) (b.take (n + 1)) ↔
      (r < 0 ↔ x < y) ∧ (0 < r ↔ y < x)) :
    ∃ c', strncmpLoop (x :: s1) (y :: s2) (n + 1) 0 c = some c' ∧
      (Orders (c'.1.toInt - c'.2.toInt) (a.take (n + 1)) (b.take (n + 1)) ↔
        SameHalf (n + 1) a b) := by
  refine ⟨(x, y), strncmpLoop_turn.trans (if_pos (Or.inl h)), ?_⟩
  rw [sameHalf_of_ne ha hb h, ← toInt_sub_signs_iff h]
  exact horders _

theorem strncmpLoop_orders (ra rb : List U8) : ∀ {n : Nat} {a b : List U8} {c : U8 × U8},
    c.1 = c.2 → 0 ∉ a → 0 ∉ b →
    ∃ c', strncmpLoop (a ++ 0 :: ra) (b ++ 0 :: rb) n 0 c = some c' ∧
      (Orders (c'.1.toInt - c'.2.toInt) (a.take n) (b.take n) ↔ SameHalf n a b)
  | 0, a, b, c, hc, _, _ =>
    ⟨c, rfl, iff_of_true (by rw [hc, Int.sub_self]; exact orders_nil) sameHalf_zero⟩
  | n + 1, [], [], c, _, _, _ =>
    ⟨(0, 0), strncmpLoop_turn, iff_of_true orders_nil sameHalf_nil⟩
  | n + 1, [], y :: b, c, _, _, hb => by
    have hy : y ≠ 0 := (List.ne_of_not_mem_cons hb).symm
    exact strncmpLoop_differ hy.symm rfl rfl fun _ => orders_nil_cons hy
  | n + 1, x :: a, [], c, _, ha, _ => by
    have hx : x ≠ 0 := (List.ne_of_not_mem_cons ha).symm
    exact strncmpLoop_differ hx rfl rfl fun _ => orders_cons_nil hx
  | n + 1, x :: a, y :: b, c, _, ha, hb => by
    by_cases hxy : x = y
    · -- equal and no terminator: the comparison goes on
      subst hxy
      have hx : x ≠ 0 := (List.ne_of_not_mem_cons ha).symm
      obtain ⟨c', hc', hiff⟩ := strncmpLoop_orders ra rb (n := n) (c := (x, x)) rfl
        (List.not_mem_of_not_mem_cons ha) (List.not_mem_of_not_mem_cons hb)
      refine ⟨c', strncmpLoop_turn.trans ((if_neg (by simpa using hx)).trans hc'), ?_⟩
      rw [sameHalf_cons_iff, ← hiff]
      exact orders_cons_iff
    · exact strncmpLoop_differ hxy rfl rfl fun _ => orders_of_ne hxy

/-- The loop ends with equal characters if the strings are equal up to the bound. -/
theorem strncmpLoop_same (ra rb : List U8) : ∀ {n : Nat} {a b : List U8} {c : U8 × U8},
    c.1 = c.2 → 0 ∉ a → 0 ∉ b →
    ∃ c', strncmpLoop (a ++ 0 :: ra) (b ++ 0 :: rb) n 0 c = some c' ∧
      (c'.1 = c'.2 ↔ a.take n = b.take n)
  | 0, a, b, c, hc, _, _ => ⟨c, rfl, iff_of_true hc rfl⟩
  | n + 1, [], [], c, _, _, _ => ⟨(0, 0), strncmpLoop_turn, iff_of_true rfl rfl⟩
  | n + 1, [], y :: b, c, _, _, hb => by
    have hy : 0 ≠ y := List.ne_of_not_mem_cons hb
    exact ⟨(0, y), strncmpLoop_turn.trans (if_pos (.inl hy)), iff_of_false hy nofun⟩
  | n + 1, x :: a, [], c, _, ha, _ => by
    have hx : x ≠ 0 := (List.ne_of_not_mem_cons ha).symm
    exact ⟨(x, 0), strncmpLoop_turn.trans (if_pos (.inl hx)), iff_of_false hx nofun⟩
  | n + 1, x :: a, y :: b, c, _, ha, hb => by
    by_cases hxy : x = y
    · subst hxy
      have hx : x ≠ 0 := (List.ne_of_not_mem_cons ha).symm
      obtain ⟨c', hc', hiff⟩ := strncmpLoop_same ra rb (n := n) (c := (x, x)) rfl
        (List.not_mem_of_not_mem_cons ha) (List.not_mem_of_not_mem_cons hb)
      refine ⟨c', strncmpLoop_turn.trans ((if_neg (by simpa using hx)).trans hc'), ?_⟩
      rw [hiff, List.take_succ_cons, List.take_succ_cons, List.cons_inj_right]
    · refine ⟨(x, y), strncmpLoop_turn.trans (if_pos (.inl hxy)), iff_of_false hxy fun h => ?_⟩
      rw [List.take_succ_cons, List.take_succ_cons, List.cons.injEq] at h
      exact hxy h.1

/-! ## The functions -/

theorem memcmp_orders {a b : CStr} {n : U32} (ha : n.toNat ≤ a.length) (hb : n.toNat ≤ b.length) :
    ∃ r, memcmp a b n = some r ∧ Orders r (a.take n.toNat) (b.take n.toNat) :=
  memcmpLoop_orders ha hb

section Terminated

variable {a b : List U8} (ha : 0 ∉ a) (hb : 0 ∉ b) (ra rb : List U8)

include ha hb

theorem strncmp_orders_iff (n : U32) :
    ∃ r, strncmp (a ++ 0 :: ra) (b ++ 0 :: rb) n = some r ∧
      (Orders r (a.take n.toNat) (b.take n.toNat) ↔ SameHalf n.toNat a b) := by
  obtain ⟨c, hc, hiff⟩ := strncmpLoop_orders ra rb (n := n.toNat) (c := (0, 0)) rfl ha hb
  exact ⟨_, by rw [strncmp, hc]; rfl, hiff⟩

/-- Whatever the sign says, zero says that the strings are equal. -/
theorem strncmp_zero_iff (n : U32) :
    ∃ r, strncmp (a ++ 0 :: ra) (b ++ 0 :: rb) n = some r ∧
      (r = 0 ↔ a.take n.toNat = b.take n.toNat) := by
  obtain ⟨c, hc, hiff⟩ := strncmpLoop_same ra rb (n := n.toNat) (c := (0, 0)) rfl ha hb
  exact ⟨_, by rw [strncmp, hc]; rfl, by rw [Int.sub_eq_zero, BitVec.toInt_inj, hiff]⟩

theorem strcmp_orders_iff (hla : a.length < 2147483647) (hlb : b.length < 2147483647) :
    ∃ r, strcmp (a ++ 0 :: ra) (b ++ 0 :: rb) = some r ∧
      (Orders r a b ↔ SameHalf 2147483647 a b) := by
  obtain ⟨r, hr, hiff⟩ := strncmp_orders_iff ha hb ra rb 2147483647
  have hn : (2147483647 : U32).toNat = 2147483647 := rfl
  rw [hn, List.take_of_length_le (Nat.le_of_lt hla),
    List.take_of_length_le (Nat.le_of_lt hlb)] at hiff
  exact ⟨r, hr, hiff⟩

/-- `memcmp` up to the terminator that comes first has the sign of the order. -/
theorem memcmp_terminated_orders (hla : a.length < 2147483647) :
    ∃ r, memcmp (a ++ 0 :: ra) (b ++ 0 :: rb)
        (BitVec.ofNat 32 (min a.length b.length + 1)) = some r ∧ Orders r a b := by
  have hn : (BitVec.ofNat 32 (min a.length b.length + 1)).toNat = min a.length b.length + 1 :=
    toNat_ofNat_lt (by omega)
  have htake {c : List U8} (rc : List U8) (h : min a.length b.length ≤ c.length) :
      (c ++ 0 :: rc).take (min a.length b.length + 1) =
        (c ++ [0]).take (min a.length b.length + 1) := by
    rw [List.append_cons, List.take_append_of_le_length (by simpa using h)]
  obtain ⟨r, hr, ho⟩ := memcmp_orders (a := a ++ 0 :: ra) (b := b ++ 0 :: rb)
    (n := BitVec.ofNat 32 (min a.length b.length + 1))
    (by rw [hn, List.length_append, List.length_cons]; omega)
    (by rw [hn, List.length_append, List.length_cons]; omega)
  rw [hn, htake ra (Nat.min_le_left _ _), htake rb (Nat.min_le_right _ _),
    orders_terminated_iff ha hb] at ho
  exact ⟨r, hr, ho⟩

end Terminated

/-- **The order law.** `memcmp` has the sign of the lexicographic order of the unsigned bytes.
`strncmp` and `strcmp` have it, and `strcmp` agrees with `memcmp`, iff the first bytes that differ
are both below `0x80` or both not. -/
theorem compare_orders_iff (a b ra rb : List U8) (n : U32) :
    (n.toNat ≤ a.length → n.toNat ≤ b.length →
      ∃ r, memcmp a b n = some r ∧ Orders r (a.take n.toNat) (b.take n.toNat)) ∧
    (0 ∉ a → 0 ∉ b →
      (∃ r, strncmp (a ++ 0 :: ra) (b ++ 0 :: rb) n = some r ∧
        (Orders r (a.take n.toNat) (b.take n.toNat) ↔ SameHalf n.toNat a b)) ∧
      (a.length < 2147483647 → b.length < 2147483647 →
        ∃ r r', strcmp (a ++ 0 :: ra) (b ++ 0 :: rb) = some r ∧
          memcmp (a ++ 0 :: ra) (b ++ 0 :: rb)
            (BitVec.ofNat 32 (min a.length b.length + 1)) = some r' ∧
          (Orders r a b ↔ SameHalf 2147483647 a b) ∧
          (r.sign = r'.sign ↔ SameHalf 2147483647 a b))) := by
  refine ⟨memcmp_orders, fun ha hb => ⟨strncmp_orders_iff ha hb ra rb n, fun hla hlb => ?_⟩⟩
  obtain ⟨r, hr, hiff⟩ := strcmp_orders_iff ha hb ra rb hla hlb
  obtain ⟨r', hr', ho⟩ := memcmp_terminated_orders ha hb ra rb hla
  exact ⟨r, r', hr, hr', hiff, ho.sign_eq_iff.trans hiff⟩

/-- `"ab"` and `"ac"`. -/
theorem compare_orders_ascii :
    (∃ r, memcmp [0x61, 0x62] [0x61, 0x63] 2 = some r ∧ Orders r [0x61, 0x62] [0x61, 0x63]) ∧
    (∃ r, strncmp [0x61, 0x62, 0] [0x61, 0x63, 0] 2 = some r ∧
      (Orders r [0x61, 0x62] [0x61, 0x63] ↔ SameHalf 2 [0x61, 0x62] [0x61, 0x63])) ∧
    (∃ r r', strcmp [0x61, 0x62, 0] [0x61, 0x63, 0] = some r ∧
      memcmp [0x61, 0x62, 0] [0x61, 0x63, 0] 3 = some r' ∧
      (Orders r [0x61, 0x62] [0x61, 0x63] ↔ SameHalf 2147483647 [0x61, 0x62] [0x61, 0x63]) ∧
      (r.sign = r'.sign ↔ SameHalf 2147483647 [0x61, 0x62] [0x61, 0x63])) :=
  have h := compare_orders_iff [0x61, 0x62] [0x61, 0x63] [] [] 2
  have hstr := h.2 (by decide) (by decide)
  ⟨h.1 (by decide) (by decide), hstr.1, hstr.2 (by decide) (by decide)⟩

/-- `"é"` and `"z"`. -/
theorem not_compare_orders :
    ¬ ∀ a b ra rb : List U8, 0 ∉ a → 0 ∉ b → a.length < 2147483647 → b.length < 2147483647 →
      ∃ r, strcmp (a ++ 0 :: ra) (b ++ 0 :: rb) = some r ∧ Orders r a b := by
  intro h
  obtain ⟨r, hr, ho⟩ := h [0xc3, 0xa9] [0x7a] [] [] (by decide) (by decide) (by decide) (by decide)
  have hneg : strcmp ([0xc3, 0xa9] ++ 0 :: []) ([0x7a] ++ 0 :: []) = some (-183) := rfl
  rw [hr] at hneg
  obtain rfl := Option.some.inj hneg
  exact absurd (ho.neg_iff.mp (by decide)) (by decide)

end UefiStub
