import UefiStub.Lib.Numeral

/-!
# Readers

A reader takes a value off the front of a text and leaves the rest. `Reads r l b`
says that `r` reads the text `l` as `b`, whatever follows; it is compositional
(`Reads.bind`), and a number is read where no digit follows it (`Reads.number`).
A text of items that are read one by one is read as the list of these items
(`readAll_flatMap`).
-/

namespace Interact

abbrev Reader (α : Type) := StateT (List α) Option

variable {α β γ : Type}

def Reads (r : Reader α β) (l : List α) (b : β) : Prop := ∀ rest, r (l ++ rest) = some (b, rest)

/-- Takes this text off. -/
def literal [DecidableEq α] : List α → Reader α Unit
  | [], l => some ((), l)
  | _ :: _, [] => none
  | a :: p, c :: l => if a = c then literal p l else none

/-- A word, for what it stands for. -/
def keyword [DecidableEq α] (l : List α) (b : β) : Reader α β := do
  literal l
  return b

/-- The first of the readers that does not fail. -/
def choice : List (Reader α β) → Reader α β
  | [], _ => none
  | r :: rs, l => (r l).or (choice rs l)

/-- Reads items to the end of the text. -/
def readAllFrom (r : Reader α β) : Nat → List α → Option (List β)
  | _, [] => some []
  | 0, _ :: _ => none
  | fuel + 1, l => (r l).bind fun x => (readAllFrom r fuel x.2).map (x.1 :: ·)

def readAll (r : Reader α β) (l : List α) : Option (List β) := readAllFrom r l.length l

namespace Reads

theorem pure (b : β) : Reads (Pure.pure b : Reader α β) [] b := fun _ => rfl

theorem bind {r : Reader α β} {f : β → Reader α γ} {l l' : List α} {b : β} {c : γ}
    (h : Reads r l b) (h' : Reads (f b) l' c) : Reads (r >>= f) (l ++ l') c := by
  intro rest
  have hr : r ((l ++ l') ++ rest) = some (b, l' ++ rest) := by rw [List.append_assoc, h]
  change (r ((l ++ l') ++ rest)).bind (fun x => f x.1 x.2) = _
  rw [hr]
  exact h' rest

/-- The last reader of a sequence. -/
theorem map {r : Reader α β} {l : List α} {b : β} (f : β → γ) (h : Reads r l b) :
    Reads (do
      let b ← r
      return f b) l (f b) := by
  have hread := bind (f := fun b => Pure.pure (f b)) h (.pure (f b))
  rw [List.append_nil] at hread
  exact hread

theorem literal [DecidableEq α] (l : List α) : Reads (literal l) l () := by
  intro rest
  induction l with
  | nil => rfl
  | cons a l ih => exact (if_pos rfl).trans ih

theorem keyword [DecidableEq α] (l : List α) (b : β) : Reads (keyword l b) l b :=
  (literal l).map fun _ => b

/-- A text that starts otherwise is not taken off. -/
theorem literal_head [DecidableEq α] {p : List α} {c : α} (hp : p ≠ []) (h : p.head? ≠ some c)
    (l : List α) : Interact.literal p (c :: l) = none := by
  cases p with
  | nil => exact absurd rfl hp
  | cons a p => exact if_neg fun hac => h (congrArg some hac)

theorem choice_head {r : Reader α β} {rs : List (Reader α β)} {l : List α} {b : β}
    (h : Reads r l b) : Reads (Interact.choice (r :: rs)) l b := fun rest => by
  change (r (l ++ rest)).or _ = _
  rw [h rest]
  rfl

theorem choice_tail {r : Reader α β} {rs : List (Reader α β)} {l : List α} {b : β}
    (hr : ∀ rest, r (l ++ rest) = none) (h : Reads (Interact.choice rs) l b) :
    Reads (Interact.choice (r :: rs)) l b := fun rest => by
  change (r (l ++ rest)).or _ = _
  rw [hr rest]
  exact h rest

/-- An alternative that the ones before it leave over. -/
theorem choice {pre post : List (Reader α β)} {r : Reader α β} {l : List α} {b : β}
    (h : Reads r l b) (hpre : ∀ q ∈ pre, ∀ rest, q (l ++ rest) = none) :
    Reads (choice (pre ++ r :: post)) l b := by
  induction pre with
  | nil => exact choice_head h
  | cons q pre ih =>
    exact choice_tail (hpre q List.mem_cons_self)
      (ih fun q hq => hpre q (List.mem_cons_of_mem _ hq))

end Reads

theorem readAllFrom_flatMap {r : Reader α β} {print : β → List α} {bs : List β} {fuel : Nat}
    (h : ∀ b ∈ bs, Reads r (print b) b ∧ print b ≠ []) (hfuel : (bs.flatMap print).length ≤ fuel) :
    readAllFrom r fuel (bs.flatMap print) = some bs := by
  induction bs generalizing fuel with
  | nil =>
    unfold readAllFrom
    rfl
  | cons b bs ih =>
    obtain ⟨hread, hne⟩ := h b List.mem_cons_self
    obtain ⟨c, l, hl⟩ := List.exists_cons_of_ne_nil hne
    rw [List.flatMap_cons, List.length_append, hl, List.length_cons] at hfuel
    obtain ⟨fuel, rfl⟩ : ∃ n, fuel = n + 1 := ⟨fuel - 1, by omega⟩
    have hrest := hread (bs.flatMap print)
    rw [List.flatMap_cons]
    rw [hl] at hrest ⊢
    change (r (c :: l ++ bs.flatMap print)).bind _ = _
    rw [hrest]
    change (readAllFrom r fuel (bs.flatMap print)).map (b :: ·) = _
    rw [ih (fun b hb => h b (List.mem_cons_of_mem _ hb)) (by omega)]
    rfl

/-- **Items that are read one by one.** -/
theorem readAll_flatMap {r : Reader α β} {print : β → List α} {bs : List β}
    (h : ∀ b ∈ bs, Reads r (print b) b ∧ print b ≠ []) :
    readAll r (bs.flatMap print) = some bs := readAllFrom_flatMap h (Nat.le_refl _)

/-! ## Numbers -/

section Number

/-- A digit of base `b`. -/
def IsDigit (b : Nat) (c : BitVec 8) : Prop := ∃ d < b, digitVal c = some d

instance (b : Nat) (c : BitVec 8) : Decidable (IsDigit b c) :=
  inferInstanceAs (Decidable (∃ d, d < b ∧ digitVal c = some d))

/-- The digits at the front. -/
def number (b : Nat) : Reader (BitVec 8) Nat := fun l =>
  (parse b (l.takeWhile fun c => IsDigit b c)).map fun v => (v, l.dropWhile fun c => IsDigit b c)

variable {b v k : Nat}

/-- Leading zeros do not count. -/
theorem parse_padded (hb : 1 < b) (hb36 : b ≤ 36) (k v : Nat) :
    parse b (List.replicate k 48 ++ numeral b v) = some v := by
  have hfrom (k : Nat) : parseFrom b 0 (List.replicate k 48 ++ numeral b v) =
      parseFrom b 0 (numeral b v) := by
    induction k with
    | zero => rfl
    | succ k ih =>
      rw [List.replicate_succ, List.cons_append, parseFrom,
        show digitVal 48 = some 0 by decide, Option.bind_some, if_pos (by omega), Nat.zero_mul]
      exact ih
  have hne := (numeral_canonical hb hb36 v).ne_nil
  have hparse := parse_numeral hb hb36 v
  rw [parse, if_neg hne] at hparse
  rw [parse, if_neg (by simp [hne]), hfrom, hparse]

theorem isDigit_padded (hb : 1 < b) (hb36 : b ≤ 36) {c : BitVec 8}
    (hc : c ∈ List.replicate k 48 ++ numeral b v) : IsDigit b c := by
  rcases List.mem_append.mp hc with hc | hc
  · rw [(List.mem_replicate.mp hc).2]
    exact ⟨0, by omega, by decide⟩
  · exact (numeral_canonical hb hb36 v).digits c hc

/-- A padded number, before a text that does not start with a digit. -/
theorem Reads.number {f : Nat → Reader (BitVec 8) γ} {l : List (BitVec 8)} {c : γ} (hb : 1 < b)
    (hb36 : b ≤ 36) (hl : ∃ a s, l = a :: s ∧ ¬IsDigit b a) (h : Reads (f v) l c) :
    Reads (number b >>= f) (List.replicate k 48 ++ numeral b v ++ l) c := by
  obtain ⟨a, s, rfl, ha⟩ := hl
  intro rest
  have hdigits : ∀ c ∈ List.replicate k 48 ++ numeral b v, decide (IsDigit b c) = true :=
    fun c hc => decide_eq_true (isDigit_padded hb hb36 hc)
  have hnum : Interact.number b (List.replicate k 48 ++ numeral b v ++ (a :: s) ++ rest) =
      some (v, (a :: s) ++ rest) := by
    rw [List.append_assoc _ (a :: s) rest, Interact.number, List.takeWhile_append_of_pos hdigits,
      List.dropWhile_append_of_pos hdigits, List.cons_append, List.takeWhile_cons_of_neg (by simpa),
      List.dropWhile_cons_of_neg (by simpa), List.append_nil, parse_padded hb hb36]
    rfl
  change (Interact.number b _).bind (fun x => f x.1 x.2) = _
  rw [hnum]
  exact h rest

variable {f : Nat → Reader (BitVec 8) γ} {l : List (BitVec 8)} {c : γ}

theorem Reads.decimal (hl : ∃ a s, l = a :: s ∧ ¬IsDigit 10 a) (h : Reads (f v) l c) :
    Reads (Interact.number 10 >>= f) (numeral 10 v ++ l) c :=
  Reads.number (k := 0) (by decide) (by decide) hl h

theorem Reads.hex (hl : ∃ a s, l = a :: s ∧ ¬IsDigit 16 a) (h : Reads (f v) l c) :
    Reads (Interact.number 16 >>= f) (List.replicate k 48 ++ numeral 16 v ++ l) c :=
  Reads.number (by decide) (by decide) hl h

end Number

end Interact
