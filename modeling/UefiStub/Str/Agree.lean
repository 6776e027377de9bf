import UefiStub.Str.Convert

/-!
# The number converters agree

`bitwise_convert` and `to_decimal` produce the digits from the top,
`naive_convert` from the bottom. Each of them writes the canonical numeral where
there is room for it and its terminator, and goes out of bounds elsewhere:
`bitwiseConvert_ite`, `toDecimal_ite` and `naiveConvert_ite` are three equations
with one right-hand side, so the fast converters are the plain one on every
object.
-/

namespace UefiStub

open Interact Interact.Buf

variable {ck : Bool} {m : Mem} {p b bits : Nat} {v : U64}

/-! ## The converters are local -/

/-- The state on a longer object. -/
def Conv.extend (st : Conv) (e : Mem) : Conv := { st with mem := st.mem ++ e }

def LocalStep (f : Conv → Option Conv) : Prop :=
  ∀ ⦃st st'⦄, f st = some st' →
    st'.mem.length = st.mem.length ∧ ∀ e, f (st.extend e) = some (st'.extend e)

/-- The store that ends a turn. -/
theorem localStep_put {st st' : Conv} {value : U64} {c : U8}
    (h : (do let m ← st.mem.store (p + st.digits) c
             some (⟨value, st.digits + 1, m⟩ : Conv)) = some st') :
    st'.mem.length = st.mem.length ∧ ∀ e,
      (do let m ← (st.mem ++ e).store (p + st.digits) c
          some (⟨value, st.digits + 1, m⟩ : Conv)) = some (st'.extend e) := by
  rw [Option.bind_eq_bind, Option.bind_eq_some_iff] at h
  obtain ⟨m, hm, hst⟩ := h
  cases hst
  refine ⟨length_store hm, fun e => ?_⟩
  rw [store_append hm e]
  rfl

theorem localStep_bitwiseStep (j : Nat) : LocalStep (bitwiseStep ck p bits j) := by
  intro st st' h
  simp only [bitwiseStep, Option.bind_eq_bind] at h ⊢
  obtain ⟨sub, hsub, h⟩ := Option.bind_eq_some_iff.mp h
  obtain ⟨value, hvalue, h⟩ := Option.bind_eq_some_iff.mp h
  simp only [Conv.extend, hsub, hvalue, Option.bind_some]
  split at h
  · next hd =>
    obtain ⟨c, hc, h⟩ := Option.bind_eq_some_iff.mp h
    simp only [if_pos hd, hc, Option.bind_some]
    exact localStep_put h
  · next hd =>
    cases h
    exact ⟨rfl, fun e => if_neg hd⟩

theorem localStep_decimalStep (pos : Nat) : LocalStep (decimalStep ck p pos) := by
  intro st st' h
  simp only [decimalStep, Option.bind_eq_bind] at h ⊢
  obtain ⟨lim, hlim, h⟩ := Option.bind_eq_some_iff.mp h
  simp only [Conv.extend, hlim, Option.bind_some]
  split at h
  · next hd =>
    obtain ⟨⟨digit, value⟩, hdigit, h⟩ := Option.bind_eq_some_iff.mp h
    obtain ⟨c, hc, h⟩ := Option.bind_eq_some_iff.mp h
    simp only [if_pos hd, hdigit, hc, Option.bind_some]
    exact localStep_put h
  · next hd =>
    cases h
    exact ⟨rfl, fun e => if_neg hd⟩

theorem localStep_downLoop {step : Nat → Conv → Option Conv} (hs : ∀ j, LocalStep (step j)) :
    ∀ j, LocalStep (downLoop step j)
  | 0 => hs 0
  | j + 1 => by
    intro st st' h
    rw [downLoop, Option.bind_eq_bind] at h
    obtain ⟨st₁, h₁, h⟩ := Option.bind_eq_some_iff.mp h
    obtain ⟨hlen₁, hext₁⟩ := hs (j + 1) h₁
    obtain ⟨hlen, hext⟩ := localStep_downLoop hs j h
    refine ⟨hlen.trans hlen₁, fun e => ?_⟩
    rw [downLoop, hext₁, Option.bind_eq_bind, Option.bind_some, hext]

/-- Running down and terminating. -/
theorem local_downLoop {step : Nat → Conv → Option Conv} (hs : ∀ j, LocalStep (step j)) (j : Nat)
    (v : U64) : Local (fun m => do
      let st ← downLoop step j ⟨v, 0, m⟩
      let m ← st.mem.store (p + st.digits) 0
      some (st.digits, m)) := by
  intro m d m' h
  simp only [Option.bind_eq_bind] at h ⊢
  obtain ⟨st, hst, h⟩ := Option.bind_eq_some_iff.mp h
  obtain ⟨m₁, hm₁, h⟩ := Option.bind_eq_some_iff.mp h
  cases h
  obtain ⟨hlen, hext⟩ := localStep_downLoop hs j hst
  refine ⟨(length_store hm₁).trans hlen, fun e => ?_⟩
  have hrun : downLoop step j ⟨v, 0, m ++ e⟩ = some (st.extend e) := hext e
  rw [hrun, Option.bind_some, Conv.extend, store_append hm₁ e, Option.bind_some]

theorem local_copyReversed {reverse : Buf U8} : ∀ {left p : Nat} {m m' : Mem},
    copyReversed reverse p left m = some m' →
      m'.length = m.length ∧ ∀ e, copyReversed reverse p left (m ++ e) = some (m' ++ e)
  | 0, p, m, m', h => by
    cases h
    exact ⟨rfl, fun e => rfl⟩
  | left + 1, p, m, m', h => by
    rw [copyReversed, Option.bind_eq_bind] at h
    obtain ⟨c, hc, h⟩ := Option.bind_eq_some_iff.mp h
    obtain ⟨m₁, hm₁, h⟩ := Option.bind_eq_some_iff.mp h
    obtain ⟨hlen, hext⟩ := local_copyReversed h
    refine ⟨hlen.trans (length_store hm₁), fun e => ?_⟩
    simp only [copyReversed, hc, store_append hm₁ e, hext, Option.bind_eq_bind, Option.bind_some]

theorem local_naiveConvert (base : U64) : Local fun m => naiveConvert ck v m p base := by
  intro m d m' h
  simp only [naiveConvert, Option.bind_eq_bind] at h ⊢
  split at h
  · cases h
  · next hbase =>
    obtain ⟨⟨digits, reverse⟩, hloop, h⟩ := Option.bind_eq_some_iff.mp h
    obtain ⟨m₁, hm₁, h⟩ := Option.bind_eq_some_iff.mp h
    obtain ⟨m₂, hm₂, h⟩ := Option.bind_eq_some_iff.mp h
    cases h
    obtain ⟨hlen, hext⟩ := local_copyReversed hm₁
    refine ⟨(length_store hm₂).trans hlen, fun e => ?_⟩
    simp only [if_neg hbase, hloop, hext, store_append hm₂ e, Option.bind_some]

/-! ## The same result on every object -/

/-- What each of the converters returns. -/
def numeralOrNone (b : Nat) (v : U64) (m : Mem) (p : Nat) : Option (Nat × Mem) :=
  if p + (numeral b v.toNat ++ [0]).length ≤ m.length then
    some ((numeral b v.toNat).length, writeAt m p (numeral b v.toNat ++ [0])) else none

/-- A local computation that writes the numeral where there is room. -/
theorem eq_numeralOrNone {f : Mem → Option (Nat × Mem)} (hf : Local f)
    (h : ∀ m, p + (numeral b v.toNat).length < m.length →
      f m = some ((numeral b v.toNat).length, writeAt m p (numeral b v.toNat ++ [0]))) (m : Mem) :
    f m = numeralOrNone b v m p := by
  refine hf.eq_ite (List.append_ne_nil_of_right_ne_nil _ (List.cons_ne_nil _ _)) (fun m hm => ?_) m
  rw [List.length_append, List.length_singleton] at hm
  exact h m hm

theorem bitwiseConvert_ite (hbits : 1 ≤ bits) (hbits5 : bits ≤ 5) (v : U64) (m : Mem) (p : Nat) :
    bitwiseConvert ck v m p bits = numeralOrNone (2 ^ bits) v m p :=
  eq_numeralOrNone (local_downLoop localStep_bitwiseStep (63 / bits) v)
    (fun _ hm => bitwiseConvert_eq hbits hbits5 v hm) m

theorem toDecimal_ite (v : U64) (m : Mem) (p : Nat) :
    toDecimal ck v m p = numeralOrNone 10 v m p :=
  eq_numeralOrNone (local_downLoop localStep_decimalStep 19 v) (fun _ hm => toDecimal_eq v hm) m

theorem naiveConvert_ite (hb : 1 < b) (hb36 : b ≤ 36) (v : U64) (m : Mem) (p : Nat) :
    naiveConvert ck v m p (BitVec.ofNat 64 b) = numeralOrNone b v m p :=
  eq_numeralOrNone (local_naiveConvert _) (fun _ hm => naiveConvert_eq hb hb36 v hm) m

/-- Room for 64 digits and the terminator is enough in every base. -/
theorem numeralOrNone_isSome (hb : 1 < b) (h : p + 65 ≤ m.length) :
    (numeralOrNone b v m p).isSome := by
  have hv : v.toNat < b ^ 64 := Nat.lt_of_lt_of_le v.isLt (Nat.pow_le_pow_left hb 64)
  have hlen : (numeral b v.toNat).length ≤ 64 := by
    rw [length_numeral]
    exact length_topDigits_le hb (by decide) hv
  rw [numeralOrNone, if_pos (by rw [List.length_append, List.length_singleton]; omega)]
  rfl

/-- **The fast converters are the plain one**, on every object and for every digit width. With room
for 64 digits and the terminator they all return. -/
theorem converters_agree (ck : Bool) (v : U64) (m : Mem) (buffer : Nat) :
    (∀ bits, 1 ≤ bits → bits ≤ 5 → bitwiseConvert ck v m buffer bits =
        naiveConvert ck v m buffer (BitVec.ofNat 64 (2 ^ bits))) ∧
      toDecimal ck v m buffer = naiveConvert ck v m buffer 10 ∧
      (buffer + 65 ≤ m.length → ∀ b, 1 < b → b ≤ 36 →
        (naiveConvert ck v m buffer (BitVec.ofNat 64 b)).isSome) := by
  refine ⟨fun bits h1 h5 => ?_, ?_, fun hm b hb hb36 => ?_⟩
  · have h32 : 2 ^ bits ≤ 2 ^ 5 := Nat.pow_le_pow_right (by decide) h5
    rw [bitwiseConvert_ite h1 h5, naiveConvert_ite (Nat.one_lt_two_pow (by omega)) (by omega)]
  · rw [toDecimal_ite]
    exact (naiveConvert_ite (by decide) (by decide) v m buffer).symm
  · rw [naiveConvert_ite hb hb36]
    exact numeralOrNone_isSome hb hm

end UefiStub
