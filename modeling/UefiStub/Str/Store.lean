import UefiStub.Lib.Slots
import UefiStub.Str.Compare
import UefiStub.Str.Convert
import UefiStub.Str.Reverse

/-!
# What the string functions are for

`utils/string.c` as a store of strings: slots of memory that do not overlap,
and operations on the strings in them. `StrOp.step` says what an operation is
for, in terms of strings; it is defined where the callers of the functions keep
what the header asks of them. `StrOp.exec` calls the functions at the addresses
of the slots. Every run of operations that the store allows is a run of the
functions (`strings_refine`): no access is undefined, the replies are the same,
and no byte outside of the slots changes.

A comparison replies whether the strings are equal, which is right for all
bytes; its sign is not (`not_compare_orders`).
-/

namespace UefiStub

open Interact Interact.Buf

/-- A call of a function of `utils/string.c`. -/
inductive StrOp (ι : Type) where
  | memset (dst : ι) (c : U8) (n : U32)
  | memcpy (dst src : ι) (n : U32)
  | mempcpy (dst src : ι) (n : U32)
  | memcmp (s1 s2 : ι) (n : U32)
  | strnlen (str : ι) (n : U32)
  | strlen (str : ι)
  | stpncpy (dst src : ι) (size : U32)
  | strncpy (dst src : ι) (size : U32)
  | stpcpy (dst src : ι)
  | strcpy (dst src : ι)
  | strncmp (str1 str2 : ι) (size : U32)
  | strcmp (str1 str2 : ι)
  | strrev (str : ι)
  | strcat (dst src : ι)
  | u64tostr (value : U64) (str : ι) (base : Int)

inductive StrReply where
  | ptr (addr : Nat)
  | length (n : Nat)
  | equal (same : Bool)
  deriving DecidableEq

/-- The bytes that can be read from an address on. -/
def readable (m : Mem) (p : Nat) : CStr := inits (m.drop p)

namespace StrOp

variable {ι : Type} (L : Layout ι)

def exec : StrOp ι → Mem → Option (StrReply × Mem)
  | memset dst c n, m =>
    (UefiStub.memset m (L.base dst) c n).map fun m => (.ptr (L.base dst), m)
  | memcpy dst src n, m =>
    (UefiStub.memcpy m (L.base dst) (L.base src) n).map fun r => (.ptr r.1, r.2)
  | mempcpy dst src n, m =>
    (UefiStub.mempcpy m (L.base dst) (L.base src) n).map fun r => (.ptr r.1, r.2)
  | memcmp s1 s2 n, m =>
    (UefiStub.memcmp (readable m (L.base s1)) (readable m (L.base s2)) n).map
      fun r => (.equal (r = 0), m)
  | strnlen str n, m => (UefiStub.strnlen m (L.base str) n).map fun r => (.length r.toNat, m)
  | strlen str, m => (UefiStub.strlen m (L.base str)).map fun r => (.length r.toNat, m)
  | stpncpy dst src size, m =>
    (UefiStub.stpncpy m (L.base dst) (L.base src) size).map fun r => (.ptr r.1, r.2)
  | strncpy dst src size, m =>
    (UefiStub.strncpy m (L.base dst) (L.base src) size).map fun r => (.ptr r.1, r.2)
  | stpcpy dst src, m =>
    (UefiStub.stpcpy m (L.base dst) (L.base src)).map fun r => (.ptr r.1, r.2)
  | strcpy dst src, m =>
    (UefiStub.strcpy m (L.base dst) (L.base src)).map fun r => (.ptr r.1, r.2)
  | strncmp str1 str2 size, m =>
    (UefiStub.strncmp (readable m (L.base str1)) (readable m (L.base str2)) size).map
      fun r => (.equal (r = 0), m)
  | strcmp str1 str2, m =>
    (UefiStub.strcmp (readable m (L.base str1)) (readable m (L.base str2))).map
      fun r => (.equal (r = 0), m)
  | strrev str, m => (UefiStub.strrev m (L.base str)).map fun m => (.ptr (L.base str), m)
  | strcat dst src, m =>
    (UefiStub.strcat m (L.base dst) (L.base src)).map fun r => (.ptr r.1, r.2)
  | u64tostr value str base, m =>
    (UefiStub.u64tostr false value m (L.base str) base).map fun r => (.length r.1.toNat, r.2)

variable [DecidableEq ι] (σ : Store L (0 : U8))

/-- What a bounded copy writes. -/
def padded (l : List U8) (n : Nat) : List U8 := l.take n ++ List.replicate (n - l.length) 0

theorem length_padded (l : List U8) (n : Nat) : (padded l n).length = n := by
  rw [padded, List.length_append, List.length_take, List.length_replicate]
  omega

/-! The copies are between different slots. -/

/-- Copy a number of bytes. -/
def copyBytes (dst src : ι) (n : Nat) : Option (Store L (0 : U8)) := do
  let s ← σ src
  if h : dst ≠ src ∧ n ≤ s.chars.length + 1 ∧ n ≤ L.size dst then
    some (σ.write dst ((s.chars ++ [0]).take n) ((List.length_take_le _ _).trans h.2.2))
  else none

/-- Copy a string to a number of bytes: where they end first, it is not terminated. -/
def copyPadded (dst src : ι) (n : Nat) : Option (Nat × Store L (0 : U8)) := do
  let s ← σ src
  if h : dst ≠ src ∧ n ≤ L.size dst then
    some (min n s.chars.length,
      σ.write dst (padded s.chars n) ((length_padded _ _).trans_le h.2))
  else none

/-- Copy a string. -/
def copyString (dst src : ι) : Option (Nat × Store L (0 : U8)) := do
  let s ← σ src
  if h : dst ≠ src ∧ s.chars.length < L.size dst then
    some (s.chars.length, σ.put dst ⟨s.chars, s.clean, h.2⟩)
  else none

/-- Look at two strings. -/
def compare (str1 str2 : ι) (f : List U8 → List U8 → Option Bool) :
    Option (StrReply × Store L (0 : U8)) := do
  let s ← σ str1
  let t ← σ str2
  let same ← f s.chars t.chars
  some (.equal same, σ)

def step : StrOp ι → Store L (0 : U8) → Option (StrReply × Store L (0 : U8))
  | memset dst c n, σ =>
    if h : n.toNat ≤ L.size dst then
      some (.ptr (L.base dst),
        σ.write dst (List.replicate n.toNat c) (List.length_replicate.trans_le h))
    else none
  | memcpy dst src n, σ =>
    (copyBytes L σ dst src n.toNat).map fun σ => (.ptr (L.base dst), σ)
  | mempcpy dst src n, σ =>
    (copyBytes L σ dst src n.toNat).map fun σ => (.ptr (L.base dst + n.toNat), σ)
  | memcmp s1 s2 n, σ => compare L σ s1 s2 fun s t =>
    if n.toNat ≤ s.length + 1 ∧ n.toNat ≤ t.length + 1 then
      some ((s ++ [0]).take n.toNat = (t ++ [0]).take n.toNat)
    else none
  | strnlen str n, σ => do
    let s ← σ str
    some (.length (min s.chars.length n.toNat), σ)
  | strlen str, σ => do
    let s ← σ str
    some (.length s.chars.length, σ)
  | stpncpy dst src size, σ =>
    (copyPadded L σ dst src size.toNat).map fun r => (.ptr (L.base dst + r.1), r.2)
  | strncpy dst src size, σ =>
    (copyPadded L σ dst src size.toNat).map fun r => (.ptr (L.base dst), r.2)
  | stpcpy dst src, σ =>
    (copyString L σ dst src).map fun r => (.ptr (L.base dst + r.1), r.2)
  | strcpy dst src, σ => (copyString L σ dst src).map fun r => (.ptr (L.base dst), r.2)
  | strncmp str1 str2 size, σ =>
    compare L σ str1 str2 fun s t => some (s.take size.toNat = t.take size.toNat)
  | strcmp str1 str2, σ => compare L σ str1 str2 fun s t => some (s = t)
  | strrev str, σ => do
    let s ← σ str
    some (.ptr (L.base str), σ.put str ⟨s.chars.reverse, fun h => s.clean (List.mem_reverse.mp h),
      List.length_reverse.trans_lt s.fits⟩)
  | strcat dst src, σ => do
    let s ← σ src
    let d ← σ dst
    if h : dst ≠ src ∧ (d.chars ++ s.chars).length < L.size dst then
      some (.ptr (L.base dst), σ.put dst ⟨d.chars ++ s.chars,
        fun hz => (List.mem_append.mp hz).elim d.clean s.clean, h.2⟩)
    else none
  | u64tostr value str base, σ =>
    if hb : base ∈ supportedBases then
      if h : (numeral (numeralBase base) value.toNat).length < L.size str then
        some (.length (numeral (numeralBase base) value.toNat).length,
          σ.put str ⟨numeral (numeralBase base) value.toNat, zero_notMem_numeral
            (numeralBase_range hb).1 (numeralBase_range hb).2 _, h⟩)
      else none
    else if h : 0 < L.size str then
      some (.length 0, σ.put str ⟨[], List.not_mem_nil, h⟩)
    else none

end StrOp

/-! ## The slots in memory -/

/-- The slots are in the memory, which holds what is known and is otherwise as it was. -/
structure Represents {ι : Type} (L : Layout ι) (before : Mem) (σ : Store L (0 : U8))
    (m : Mem) : Prop where
  room : ∀ i, L.base i + L.size i ≤ m.length
  known : ∀ i s, σ i = some s → Holds m (L.base i) (s.chars ++ [0])
  others : ∀ a, (∀ i, a < L.base i ∨ L.base i + L.size i ≤ a) → m[a]? = before[a]?

section Memory

variable {ι : Type} {L : Layout ι} {before m m' : Mem} {σ σ' : Store L (0 : U8)} {p : Nat}
  {l w : List U8}

theorem Holds.congr (h : Holds m p l) (hm : ∀ i, p ≤ i → i < p + l.length → m'[i]? = m[i]?) :
    Holds m' p l := fun i hi => by
  rw [← h i hi, load, load, hm (p + i) (by omega) (by omega)]

/-- The old bytes show behind those that were written. -/
theorem Overwrites.holds_behind (hw : Overwrites m m' p w) (h : Holds m p l)
    (hle : w.length ≤ l.length) : Holds m' p (w ++ l.drop w.length) := by
  intro i hi
  rw [List.length_append, List.length_drop] at hi
  by_cases hiw : i < w.length
  · rw [hw.holds i hiw, List.getElem?_append_left hiw]
  · rw [List.getElem?_append_right (by omega), List.getElem?_drop, Nat.add_sub_cancel' (by omega),
      ← h i (by omega), load, load, hw.frame _ (by omega)]

/-- What can be read where a string is. -/
theorem readable_of_holds (h : Holds m p (l ++ [0])) : ∃ rest, readable m p = l ++ 0 :: rest := by
  have hroom := h.room (List.append_ne_nil_of_right_ne_nil _ (List.cons_ne_nil _ _))
  have hread := inits_drop_writeAt hroom (Nat.zero_le _)
  rw [h.writeAt_eq, Nat.add_zero, List.drop_zero, List.append_assoc] at hread
  exact ⟨_, hread⟩

variable [DecidableEq ι]

namespace Represents

/-- Other slots are kept. -/
theorem update (h : Represents L before σ m) {i : ι} (hw : Overwrites m m' (L.base i) w)
    (hfits : w.length ≤ L.size i) {new : Option (Terminated (0 : U8) (L.size i))}
    (hnew : ∀ s, new = some s → Holds m' (L.base i) (s.chars ++ [0])) :
    Represents L before (Function.update σ i new) m' where
  room j := by rw [hw.length]; exact h.room j
  known j s hs := by
    by_cases hj : j = i
    · subst hj
      rw [Function.update_self] at hs
      exact hnew s hs
    · rw [Function.update_of_ne hj] at hs
      refine (h.known j s hs).congr fun a ha hlt => hw.frame a ?_
      have hapart := L.apart i j (Ne.symm hj)
      have hs := s.fits
      rw [List.length_append, List.length_singleton] at hlt
      omega
  others a ha := by
    have hi := ha i
    rw [hw.frame a (by omega), h.others a ha]

theorem put (h : Represents L before σ m) {i : ι} {s : Terminated (0 : U8) (L.size i)}
    (hw : Overwrites m m' (L.base i) (s.chars ++ [0])) : Represents L before (σ.put i s) m' := by
  refine h.update hw ?_ fun s' hs' => ?_
  · rw [List.length_append]
    exact s.fits
  · cases hs'
    exact hw.holds

theorem write (h : Represents L before σ m) {i : ι} (hfits : w.length ≤ L.size i)
    (hw : Overwrites m m' (L.base i) w) : Represents L before (σ.write i w hfits) m' := by
  refine h.update hw hfits fun s hs => ?_
  rcases overlay_cases hs with hprefix | ⟨d, hd, hle, hchars⟩
  · exact hw.holds.of_prefix hprefix
  · have hbehind := hw.holds_behind (h.known i d hd) (by rw [List.length_append]; omega)
    rwa [List.drop_append_of_le_length hle, ← List.append_assoc, ← hchars] at hbehind

end Represents

/-! ## The functions -/

namespace StrOp

variable {dst src : ι} {n : U32}

omit [DecidableEq ι] in
theorem noOverlap_slots (hne : dst ≠ src) {k j : Nat} (hk : k ≤ L.size src) (hj : j ≤ L.size dst) :
    NoOverlap (L.base src) k (L.base dst) j := by
  have hapart := L.apart src dst hne.symm
  unfold NoOverlap
  omega

theorem mempcpy_refines (h : Represents L before σ m)
    (hc : copyBytes L σ dst src n.toNat = some σ') :
    ∃ m', UefiStub.mempcpy m (L.base dst) (L.base src) n = some (L.base dst + n.toNat, m') ∧
      Represents L before σ' m' := by
  obtain ⟨s, hs, hc⟩ := Option.bind_eq_some_iff.mp hc
  split at hc
  · next hguard =>
    obtain ⟨hne, hn, hsize⟩ := hguard
    cases hc
    have hlen : ((s.chars ++ [0]).take n.toNat).length = n.toNat := by
      rw [List.length_take, List.length_append, List.length_singleton, Nat.min_eq_left hn]
    have hroom := h.room dst
    have hfits := s.fits
    have hknown := h.known src s hs
    have hcopy := @mempcpy_eq m (L.base dst) _ _ _ hlen.symm
      (hknown.of_prefix (List.take_prefix _ _)) (noOverlap_slots hne (by omega) (by omega))
      (by omega)
    rw [hlen] at hcopy
    exact ⟨_, hcopy, h.write _ (overwrites_writeAt (by omega))⟩
  · cases hc

theorem stpncpy_refines {len : Nat} (h : Represents L before σ m)
    (hc : copyPadded L σ dst src n.toNat = some (len, σ')) :
    ∃ m', UefiStub.stpncpy m (L.base dst) (L.base src) n = some (L.base dst + len, m') ∧
      Represents L before σ' m' := by
  obtain ⟨s, hs, hc⟩ := Option.bind_eq_some_iff.mp hc
  split at hc
  · next hguard =>
    obtain ⟨hne, hsize⟩ := hguard
    cases hc
    have hroom := h.room dst
    have hfits := s.fits
    have hknown := h.known src s hs
    refine ⟨_, stpncpy_eq s.clean (hknown.of_prefix (List.take_prefix _ _))
      (noOverlap_slots hne (by omega) hsize) (by omega), h.write _ (overwrites_writeAt ?_)⟩
    rw [← padded, length_padded]
    omega
  · cases hc

theorem stpcpy_refines {len : Nat} (hsmall : L.size src ≤ 2147483647) (h : Represents L before σ m)
    (hc : copyString L σ dst src = some (len, σ')) :
    ∃ m', UefiStub.stpcpy m (L.base dst) (L.base src) = some (L.base dst + len, m') ∧
      Represents L before σ' m' := by
  obtain ⟨s, hs, hc⟩ := Option.bind_eq_some_iff.mp hc
  split at hc
  · next hguard =>
    obtain ⟨hne, hsize⟩ := hguard
    cases hc
    have hroom := h.room dst
    have hfits := s.fits
    refine ⟨_, stpcpy_eq s.clean (by omega) (h.known src s hs)
      (noOverlap_slots hne (by omega) (by omega)) (by omega), h.put (overwrites_writeAt ?_)⟩
    rw [List.length_append, List.length_singleton]
    omega
  · cases hc

omit [DecidableEq ι] in
/-- A comparison that is zero where it should be, on strings with anything behind them. -/
theorem compare_refines {str1 str2 : ι} {f : List U8 → List U8 → Option Bool}
    {g : CStr → CStr → Option Int} {x : StrReply} (hsmall : ∀ i, L.size i ≤ 2147483647)
    (hfg : ∀ s t rs rt : List U8, ∀ same, 0 ∉ s → 0 ∉ t → s.length < 2147483647 →
      t.length < 2147483647 → f s t = some same →
      ∃ r, g (s ++ 0 :: rs) (t ++ 0 :: rt) = some r ∧ decide (r = 0) = same)
    (h : Represents L before σ m) (hc : compare L σ str1 str2 f = some (x, σ')) :
    ∃ m', (g (readable m (L.base str1)) (readable m (L.base str2))).map
      (fun r => (StrReply.equal (r = 0), m)) = some (x, m') ∧ Represents L before σ' m' := by
  obtain ⟨s, hs, hc⟩ := Option.bind_eq_some_iff.mp hc
  obtain ⟨t, ht, hc⟩ := Option.bind_eq_some_iff.mp hc
  obtain ⟨same, hsame, hc⟩ := Option.bind_eq_some_iff.mp hc
  cases hc
  obtain ⟨rs, hrs⟩ := readable_of_holds (h.known str1 s hs)
  obtain ⟨rt, hrt⟩ := readable_of_holds (h.known str2 t ht)
  obtain ⟨r, hr, hzero⟩ := hfg s.chars t.chars rs rt same s.clean t.clean
    (s.fits.trans_le (hsmall str1)) (t.fits.trans_le (hsmall str2)) hsame
  exact ⟨m, by rw [hrs, hrt, hr, Option.map_some, hzero], h⟩

/-- Every function does to the slots what it is for. -/
theorem refines (hsmall : ∀ i, L.size i ≤ 2147483647) (before : Mem) :
    Refines (Represents L before) (step L) (exec L) := by
  intro o σ m x σ' h hstep
  cases o with
  | memset dst c n =>
    simp only [step] at hstep
    split at hstep
    · next hn =>
      cases hstep
      have hroom := h.room dst
      have hset := memset_eq (m := m) (p := L.base dst) (n := n) c (by omega)
      exact ⟨_, by rw [exec, hset]; rfl, h.write _ (overwrites_writeAt (by
        rw [List.length_replicate]
        omega))⟩
    · cases hstep
  | memcpy dst src n =>
    obtain ⟨σ1, hc, hret⟩ := Option.map_eq_some_iff.mp hstep
    cases hret
    obtain ⟨m', hcopy, h'⟩ := mempcpy_refines h hc
    exact ⟨m', by rw [exec, UefiStub.memcpy, hcopy]; rfl, h'⟩
  | mempcpy dst src n =>
    obtain ⟨σ1, hc, hret⟩ := Option.map_eq_some_iff.mp hstep
    cases hret
    obtain ⟨m', hcopy, h'⟩ := mempcpy_refines h hc
    exact ⟨m', by rw [exec, hcopy]; rfl, h'⟩
  | memcmp s1 s2 n =>
    rw [step] at hstep
    refine compare_refines hsmall (fun s t rs rt same _ _ _ _ hf => ?_) h hstep
    split at hf
    · next hn =>
      cases hf
      have htake {l : List U8} (r : List U8) (hl : n.toNat ≤ l.length + 1) :
          (l ++ 0 :: r).take n.toNat = (l ++ [0]).take n.toNat := by
        rw [List.append_cons, List.take_append_of_le_length (by simpa using hl)]
      have hlen {l : List U8} (r : List U8) (hl : n.toNat ≤ l.length + 1) :
          n.toNat ≤ (l ++ 0 :: r).length := by
        rw [List.length_append, List.length_cons]
        omega
      obtain ⟨r, hr, ho⟩ := memcmp_orders (hlen rs hn.1) (hlen rt hn.2)
      rw [htake rs hn.1, htake rt hn.2] at ho
      exact ⟨r, hr, decide_eq_decide.mpr ho.zero_iff⟩
    · cases hf
  | strnlen str n =>
    obtain ⟨s, hs, hret⟩ := Option.bind_eq_some_iff.mp hstep
    cases hret
    have hknown := h.known str s hs
    have hlen := strnlen_eq (n := n) s.clean (hknown.of_prefix (List.take_prefix _ _))
    refine ⟨m, ?_, h⟩
    rw [exec, hlen, Option.map_some, toNat_ofNat_lt (by omega)]
  | strlen str =>
    obtain ⟨s, hs, hret⟩ := Option.bind_eq_some_iff.mp hstep
    cases hret
    have hlt := s.fits.trans_le (hsmall str)
    have hlen := strlen_eq s.clean (by omega) (h.known str s hs)
    refine ⟨m, ?_, h⟩
    rw [exec, hlen, Option.map_some, toNat_ofNat_lt (by omega)]
  | stpncpy dst src size =>
    obtain ⟨⟨len, σ1⟩, hc, hret⟩ := Option.map_eq_some_iff.mp hstep
    cases hret
    obtain ⟨m', hcopy, h'⟩ := stpncpy_refines h hc
    exact ⟨m', by rw [exec, hcopy]; rfl, h'⟩
  | strncpy dst src size =>
    obtain ⟨⟨len, σ1⟩, hc, hret⟩ := Option.map_eq_some_iff.mp hstep
    cases hret
    obtain ⟨m', hcopy, h'⟩ := stpncpy_refines h hc
    exact ⟨m', by rw [exec, UefiStub.strncpy, hcopy]; rfl, h'⟩
  | stpcpy dst src =>
    obtain ⟨⟨len, σ1⟩, hc, hret⟩ := Option.map_eq_some_iff.mp hstep
    cases hret
    obtain ⟨m', hcopy, h'⟩ := stpcpy_refines (hsmall src) h hc
    exact ⟨m', by rw [exec, hcopy]; rfl, h'⟩
  | strcpy dst src =>
    obtain ⟨⟨len, σ1⟩, hc, hret⟩ := Option.map_eq_some_iff.mp hstep
    cases hret
    obtain ⟨m', hcopy, h'⟩ := stpcpy_refines (hsmall src) h hc
    exact ⟨m', by rw [exec, UefiStub.strcpy, hcopy]; rfl, h'⟩
  | strncmp str1 str2 size =>
    rw [step] at hstep
    refine compare_refines (g := fun s t => UefiStub.strncmp s t size) hsmall
      (fun s t rs rt same hs ht _ _ hf => ?_) h hstep
    cases hf
    obtain ⟨r, hr, hzero⟩ := strncmp_zero_iff hs ht rs rt size
    exact ⟨r, hr, decide_eq_decide.mpr hzero⟩
  | strcmp str1 str2 =>
    rw [step] at hstep
    refine compare_refines hsmall (fun s t rs rt same hs ht hls hlt hf => ?_) h hstep
    cases hf
    obtain ⟨r, hr, hzero⟩ := strncmp_zero_iff hs ht rs rt 2147483647
    have hn : (2147483647 : U32).toNat = 2147483647 := rfl
    rw [hn, List.take_of_length_le (Nat.le_of_lt hls), List.take_of_length_le (Nat.le_of_lt hlt)]
      at hzero
    exact ⟨r, hr, decide_eq_decide.mpr hzero⟩
  | strrev str =>
    obtain ⟨s, hs, hret⟩ := Option.bind_eq_some_iff.mp hstep
    cases hret
    have hlt := s.fits.trans_le (hsmall str)
    obtain ⟨m', hrev, hw, -⟩ := strrev_holds s.clean (by omega) (h.known str s hs)
    exact ⟨m', by rw [exec, hrev]; rfl, h.put hw⟩
  | strcat dst src =>
    obtain ⟨s, hs, hstep⟩ := Option.bind_eq_some_iff.mp hstep
    obtain ⟨d, hd, hstep⟩ := Option.bind_eq_some_iff.mp hstep
    split at hstep
    · next hguard =>
      obtain ⟨hne, hsize⟩ := hguard
      cases hstep
      rw [List.length_append] at hsize
      have hroom := h.room dst
      have hfits := s.fits
      have hdst := hsmall dst
      have hsrc := hsmall src
      have hapart : NoOverlap (L.base src) (s.chars.length + 1) (L.base dst + d.chars.length)
          (s.chars.length + 1) := by
        have := L.apart src dst hne.symm
        unfold NoOverlap
        omega
      have hknown := h.known dst d hd
      have hcat := strcat_eq s.clean d.clean (by omega) (by omega) hknown (h.known src s hs) hapart
        (by omega)
      refine ⟨_, by rw [exec, hcat]; rfl, h.put ?_⟩
      rw [List.append_assoc]
      refine .of_holds (hknown.of_prefix (List.prefix_append _ _)) (overwrites_writeAt ?_)
      rw [List.length_append, List.length_singleton]
      omega
    · cases hstep
  | u64tostr value str base =>
    rw [step] at hstep
    have hroom := h.room str
    have hfits := hsmall str
    split at hstep
    · next hb =>
      split at hstep
      · next hlt =>
        cases hstep
        have hconv := @u64tostr_eq false m (L.base str) _ hb value (by omega)
        refine ⟨_, ?_, h.put (overwrites_writeAt ?_)⟩
        · rw [exec, hconv, Option.map_some, toNat_ofNat_lt (by omega)]
        · simp only [List.length_append, List.length_singleton]
          omega
      · cases hstep
    · next hb =>
      split at hstep
      · next hpos =>
        cases hstep
        have hconv := @u64tostr_unsupported false m (L.base str) _ hb value (by omega)
        exact ⟨_, by rw [exec, hconv]; rfl, h.put (overwrites_writeAt (by
          rw [List.length_append]
          exact Nat.le_trans (Nat.add_le_add_left hpos _) hroom))⟩
      · cases hstep

end StrOp

/-- **The string functions** implement the store: whatever run it allows, they make it with the same
replies, the slots hold what is known then, and no byte outside of them has changed. -/
theorem strings_refine (hsmall : ∀ i, L.size i ≤ 2147483647) (h : Represents L m σ m)
    {ops : List (StrOp ι)} {xs : List StrReply}
    (hrun : runAll (StrOp.step L) ops σ = some (xs, σ')) :
    ∃ m', runAll (StrOp.exec L) ops m = some (xs, m') ∧ Represents L m σ' m' :=
  (StrOp.refines hsmall m).run h hrun

end Memory

/-- Two slots of eight bytes. -/
def twoSlots : Layout Bool where
  base b := if b then 8 else 0
  size _ := 8
  apart := by decide

/-- From uninitialised memory: `"ff"` is written, copied, found equal and appended. -/
theorem strings_refine_twoSlots : ∃ σ m',
    runAll (StrOp.exec twoSlots) [.u64tostr 255 false 16, .strcpy true false, .strcmp true false,
      .strcat true false, .strlen true] (blank 16) =
        some ([.length 2, .ptr 8, .equal true, .ptr 8, .length 4], m') ∧
      Represents twoSlots (blank 16) σ m' := by
  have hstart : Represents twoSlots (blank 16) (fun _ => none) (blank 16) :=
    ⟨by decide, nofun, fun _ _ => rfl⟩
  have hrun : ∃ σ, runAll (StrOp.step twoSlots) [.u64tostr 255 false 16, .strcpy true false,
      .strcmp true false, .strcat true false, .strlen true] (fun _ => none) =
        some ([.length 2, .ptr 8, .equal true, .ptr 8, .length 4], σ) := ⟨_, rfl⟩
  obtain ⟨σ, hrun⟩ := hrun
  obtain ⟨m', hm', h⟩ := strings_refine (by decide) hstart hrun
  exact ⟨σ, m', hm', h⟩

end UefiStub
