import Mathlib.Data.List.MinMax

/-!
# Climbing scans

A scan that takes the next element where a transitive relation `r` allows it
holds the last record: an element that is above every record before it
(`mem_records_iff`, `scan_records`). Where `r` asks for a greater key and
no smaller width, a record can be too wide for the greatest element that
follows it. So the scan ends with a greatest element exactly where one of them
is as wide as every record before it (`greatest_scan_iff`), and it does so in
every order of the list exactly where one of them is as wide as all that
exceeds the start (`forall_perm_greatest_iff`).
-/

namespace Interact

variable {α : Type}

section Records

variable (r : α → α → Prop) [DecidableRel r]

/-- The next element, if the held one is below it. -/
def climb (held next : α) : α := if r held next then next else held

/-- Keeps the element if it is above all that were kept. -/
def addRecord (rs : List α) (b : α) : List α := if ∀ x ∈ rs, r x b then rs ++ [b] else rs

/-- The elements that are above every record before them. -/
def records (l : List α) : List α := l.foldl (addRecord r) []

theorem records_snoc (l : List α) (b : α) : records r (l ++ [b]) = addRecord r (records r l) b := by
  rw [records, List.foldl_append]
  rfl

theorem mem_records_iff {l : List α} {g : α} : g ∈ records r l ↔
    ∃ pre post, l = pre ++ g :: post ∧ ∀ x ∈ records r pre, r x g := by
  induction l using List.reverseRecOn with
  | nil => simp [records]
  | append_singleton l b ih =>
    rw [records_snoc]
    constructor
    · intro h
      by_cases hb : ∀ x ∈ records r l, r x b
      · rw [addRecord, if_pos hb, List.mem_append, List.mem_singleton] at h
        rcases h with h | rfl
        · obtain ⟨pre, post, rfl, hpre⟩ := ih.mp h
          exact ⟨pre, post ++ [b], by simp, hpre⟩
        · exact ⟨l, [], rfl, hb⟩
      · rw [addRecord, if_neg hb] at h
        obtain ⟨pre, post, rfl, hpre⟩ := ih.mp h
        exact ⟨pre, post ++ [b], by simp, hpre⟩
    · rintro ⟨pre, post, heq, hpre⟩
      rcases List.eq_nil_or_concat post with rfl | ⟨post, c, rfl⟩
      · obtain ⟨rfl, hgb⟩ := List.append_inj' heq rfl
        cases hgb
        rw [addRecord, if_pos hpre]
        exact List.mem_append_right _ (List.mem_singleton.mpr rfl)
      · rw [List.concat_eq_append, ← List.cons_append, ← List.append_assoc] at heq
        obtain ⟨rfl, -⟩ := List.append_inj' heq rfl
        have hg := ih.mpr ⟨pre, post, rfl, hpre⟩
        rw [addRecord]
        split
        · exact List.mem_append_left _ hg
        · exact hg

variable {r}

/-- A record is the start or above it. -/
theorem mem_of_records_cons {a g : α} {l : List α} (h : g ∈ records r (a :: l)) :
    g = a ∨ g ∈ l ∧ r a g := by
  obtain ⟨pre, post, heq, hpre⟩ := (mem_records_iff r).mp h
  cases pre with
  | nil =>
    injection heq with hg _
    exact .inl hg.symm
  | cons b pre =>
    injection heq with hb hl
    subst hb hl
    have hfirst : a ∈ records r (a :: pre) :=
      (mem_records_iff r).mpr ⟨[], pre, rfl, fun y hy => absurd hy List.not_mem_nil⟩
    exact .inr ⟨List.mem_append_right _ List.mem_cons_self, hpre a hfirst⟩

variable (htrans : ∀ a b c, r a b → r b c → r a c)

include htrans in
/-- The scan holds a record, and the other records are below it. -/
theorem scan_records (a : α) (l : List α) :
    l.foldl (climb r) a ∈ records r (a :: l) ∧
      ∀ x ∈ records r (a :: l), x = l.foldl (climb r) a ∨ r x (l.foldl (climb r) a) := by
  induction l using List.reverseRecOn with
  | nil => simp [records, addRecord]
  | append_singleton l b ih =>
    obtain ⟨hmem, hbelow⟩ := ih
    rw [← List.cons_append, records_snoc, List.foldl_append, List.foldl_cons, List.foldl_nil]
    by_cases hb : r (l.foldl (climb r) a) b
    · have hall : ∀ x ∈ records r (a :: l), r x b := fun x hx => by
        rcases hbelow x hx with rfl | h
        · exact hb
        · exact htrans _ _ _ h hb
      rw [climb, if_pos hb, addRecord, if_pos hall]
      refine ⟨List.mem_append_right _ (List.mem_singleton.mpr rfl), fun x hx => ?_⟩
      rcases List.mem_append.mp hx with hx | hx
      · exact .inr (hall x hx)
      · exact .inl (List.mem_singleton.mp hx)
    · have hnot : ¬∀ x ∈ records r (a :: l), r x b := fun h => hb (h _ hmem)
      rw [climb, if_neg hb, addRecord, if_neg hnot]
      exact ⟨hmem, hbelow⟩

theorem scan_mem (a : α) (l : List α) : l.foldl (climb r) a ∈ a :: l := by
  induction l generalizing a with
  | nil => exact List.mem_singleton.mpr rfl
  | cons b l ih =>
    rw [List.foldl_cons, climb]
    split
    · exact List.mem_cons_of_mem _ (ih b)
    · rcases List.mem_cons.mp (ih a) with h | h
      · rw [h]
        exact List.mem_cons_self
      · exact List.mem_cons_of_mem _ (List.mem_cons_of_mem _ h)

end Records

/-! ## A key and a width -/

section Greatest

variable {κ ω : Type} [LinearOrder κ] [LinearOrder ω] (key : α → κ) (width : α → ω)

/-- A greater key and no smaller width. -/
def Above (a b : α) : Prop := key a < key b ∧ width a ≤ width b

instance (a b : α) : Decidable (Above key width a b) := inferInstanceAs (Decidable (_ ∧ _))

/-- No element as wide as the start has a greater key. -/
structure Greatest (a : α) (l : List α) (g : α) : Prop where
  mem : g ∈ a :: l
  wide : width a ≤ width g
  max : ∀ b ∈ a :: l, width a ≤ width b → key b ≤ key g

variable {key width} {a g : α} {l : List α}

theorem Above.trans {a b c : α} (hab : Above key width a b) (hbc : Above key width b c) :
    Above key width a c := ⟨lt_trans hab.1 hbc.1, le_trans hab.2 hbc.2⟩

/-- A scan gives up neither key nor width. -/
theorem scan_grows (a : α) (l : List α) :
    key a ≤ key (l.foldl (climb (Above key width)) a) ∧
      width a ≤ width (l.foldl (climb (Above key width)) a) := by
  induction l generalizing a with
  | nil => exact ⟨le_refl _, le_refl _⟩
  | cons b l ih =>
    rw [List.foldl_cons, climb]
    split
    · rename_i hab
      exact ⟨le_trans (le_of_lt hab.1) (ih b).1, le_trans hab.2 (ih b).2⟩
    · exact ih a

/-- What is no narrower than the held element is reached or exceeded. -/
theorem key_le_scan_cons {b : α} (hw : width a ≤ width b) :
    key b ≤ key ((b :: l).foldl (climb (Above key width)) a) := by
  rw [List.foldl_cons, climb]
  split
  · exact (scan_grows b l).1
  · rename_i hab
    have hle : key b ≤ key a := le_of_not_gt fun hlt => hab ⟨hlt, hw⟩
    exact le_trans hle (scan_grows a l).1

theorem greatest_scan_of_le {g : α} (hg : Greatest key width a l g)
    (hle : key g ≤ key (l.foldl (climb (Above key width)) a)) :
    Greatest key width a l (l.foldl (climb (Above key width)) a) where
  mem := scan_mem a l
  wide := (scan_grows a l).2
  max := fun b hb hw => le_trans (hg.max b hb hw) hle

/-- **One order.** The scan ends with a greatest element exactly where a greatest element is as
wide as every record before it. -/
theorem greatest_scan_iff :
    Greatest key width a l (l.foldl (climb (Above key width)) a) ↔
      ∃ pre g post, a :: l = pre ++ g :: post ∧ Greatest key width a l g ∧
        ∀ x ∈ records (Above key width) pre, width x ≤ width g := by
  constructor
  · intro h
    obtain ⟨hmem, -⟩ := scan_records (r := Above key width) (fun _ _ _ => Above.trans) a l
    obtain ⟨pre, post, heq, hpre⟩ := (mem_records_iff _).mp hmem
    exact ⟨pre, _, post, heq, h, fun x hx => (hpre x hx).2⟩
  · rintro ⟨pre, g, post, heq, hg, hpre⟩
    cases pre with
    | nil =>
      cases heq
      exact greatest_scan_of_le hg (scan_grows _ _).1
    | cons b pre =>
      obtain ⟨rfl, rfl⟩ : a = b ∧ l = pre ++ g :: post := by cases heq; exact ⟨rfl, rfl⟩
      obtain ⟨hheld, -⟩ := scan_records (r := Above key width) (fun _ _ _ => Above.trans) a pre
      refine greatest_scan_of_le hg ?_
      rw [List.foldl_append]
      exact key_le_scan_cons (hpre _ hheld)

/-- Where nothing is above the start, the start is a greatest element. -/
theorem greatest_start (h : ∀ b ∈ l, ¬Above key width a b) : Greatest key width a l a where
  mem := List.mem_cons_self
  wide := le_refl _
  max := fun b hb hw => by
    rcases List.mem_cons.mp hb with rfl | hb
    · exact le_refl _
    · exact le_of_not_gt fun hlt => h b hb ⟨hlt, hw⟩

/-- A greatest element stays one in another order. -/
theorem Greatest.perm {l' : List α} (h : Greatest key width a l g) (hp : l'.Perm l) :
    Greatest key width a l' g where
  mem := (hp.cons a).mem_iff.mpr h.mem
  wide := h.wide
  max := fun b hb hw => h.max b ((hp.cons a).mem_iff.mp hb) hw

/-- **Every order.** The scan ends with a greatest element in every order exactly where a
greatest element is as wide as all that exceeds the start. -/
theorem forall_perm_greatest_iff :
    (∀ l', l'.Perm l → Greatest key width a l' (l'.foldl (climb (Above key width)) a)) ↔
      ∃ g, Greatest key width a l g ∧ ∀ b ∈ l, Above key width a b → width b ≤ width g := by
  constructor
  · intro h
    cases hmax : (l.filter fun b => Above key width a b).argmax width with
    | none =>
      have hnil := List.argmax_eq_none.mp hmax
      have hnone : ∀ b ∈ l, ¬Above key width a b := fun b hb hab => by
        have hmem : b ∈ l.filter fun b => Above key width a b :=
          List.mem_filter.mpr ⟨hb, decide_eq_true hab⟩
        rw [hnil] at hmem
        cases hmem
      exact ⟨a, greatest_start hnone, fun b hb hab => absurd hab (hnone b hb)⟩
    | some b =>
      -- the widest of them first: the scan takes it and never gets narrower
      have hb := List.mem_filter.mp (List.argmax_mem hmax)
      have hab : Above key width a b := of_decide_eq_true hb.2
      obtain ⟨s, t, rfl⟩ := List.append_of_mem hb.1
      have hp : (b :: (s ++ t)).Perm (s ++ b :: t) := List.perm_middle.symm
      have hscan := h _ hp
      rw [List.foldl_cons, climb, if_pos hab] at hscan
      refine ⟨_, hscan.perm hp.symm, fun c hc hac => ?_⟩
      have hcb : width c ≤ width b := List.le_of_mem_argmax
        (List.mem_filter.mpr ⟨hc, decide_eq_true hac⟩) hmax
      exact le_trans hcb (scan_grows b _).2
  · rintro ⟨g, hg, hall⟩ l' hp
    have hg' := hg.perm hp
    obtain ⟨pre, post, heq⟩ := List.append_of_mem hg'.mem
    refine greatest_scan_iff.mpr ⟨pre, g, post, heq, hg', fun x hx => ?_⟩
    cases pre with
    | nil => cases hx
    | cons c pre =>
      injection heq with hc hl
      subst hc
      rcases mem_of_records_cons hx with rfl | ⟨hmem, habove⟩
      · exact hg.wide
      · have hx' : x ∈ l' := hl ▸ List.mem_append_left _ hmem
        exact hall x (hp.mem_iff.mp hx') habove

end Greatest

end Interact
