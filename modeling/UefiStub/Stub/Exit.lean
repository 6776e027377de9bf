import UefiStub.Gop.Exact
import UefiStub.Gop.Listing
import UefiStub.Pci.Bracket
import UefiStub.Stub.Pointers

/-!
# How a run ends

The stub exits if the system table has another signature or if no graphics mode
is found, before it has changed anything but the console, and then halts. If
firmware hands out no `NULL`, the other ways out are two calls of undefined
behaviour, both for values firmware supplies: the size of a frame buffer that is
no `int`, and, in the `DEBUG` build, a mode number that does not fit into the
buffer it is printed from.
-/

namespace UefiStub

open Interact

/-- The size of the frame buffer, from the scan line and the height as they are stored. -/
def ModeInfo.frameBytes (info : ModeInfo) : Nat :=
  info.pixelsPerScanLine.toNat * info.depth % 2 ^ 32 / 8 % 2 ^ 16 *
    (info.verticalResolution.toNat % 2 ^ 16)

/-- The description is undefined for frame buffers of `2 ^ 31` bytes and more. -/
theorem storeScreenInfo_none_iff (mode : GopMode) (si : ScreenInfo) :
    storeScreenInfo mode si = none ↔ 2 ^ 31 ≤ mode.info.frameBytes := by
  constructor
  · intro h
    by_contra hlt
    obtain ⟨si', hsi⟩ := storeScreenInfo_defined si (Nat.lt_of_not_le hlt)
    rw [h] at hsi
    cases hsi
  · intro h
    cases hsi : storeScreenInfo mode si with
    | none => rfl
    | some si' =>
      obtain ⟨-, -, hheight, hline, hsize⟩ := storeScreenInfo_spec hsi
      have hlt := (mulInt_eq_some hsize).1
      rw [hline, hheight, BitVec.toNat_setWidth] at hlt
      exact absurd hlt (Nat.not_lt_of_le h)

/-- What a history shows of the run. -/
structure Life where
  signature : Option U64
  /-- The status of the lookup of graphics protocols. -/
  located : Option Status
  /-- The mode record read last. -/
  mode : Option GopMode
  /-- The mode asked for last. -/
  query : Option U32
  /-- A mode is set, a pixel stored or a PCI device accessed. -/
  touched : Bool
  text : List U16
  exited : Bool

namespace Life

def start : Life := ⟨none, none, none, none, false, [], false⟩

def next (l : Life) : Event Op Op.Ans → Life
  | ⟨.locateHandleBuffer .graphicsOutputProtocol, (status, _)⟩ => { l with located := some status }
  | ⟨.loadGopMode _, mode⟩ => { l with mode := some mode }
  | ⟨.gopQueryMode _ m, _⟩ => { l with query := some m }
  | ⟨.outputString string, _⟩ => { l with text := l.text ++ string }
  | ⟨.gopSetMode _ _, _⟩ | ⟨.store32 _ _, _⟩ | ⟨.pciGetLocation _, _⟩ | ⟨.pciRead _ _ _ _, _⟩
  | ⟨.pciWrite _ _ _ _, _⟩ => { l with touched := true }
  | _ => l

def nextBoot (l : Life) : Event BootOp BootOp.Ans → Life
  | ⟨.loadSignature, signature⟩ => { l with signature := some signature }
  | ⟨.exit _ _ _ _, _⟩ => { l with exited := true }
  | _ => l

/-- The life after a history. -/
def after (tr : StubTrace) : Life := tr.foldl (joint next nextBoot) start

/-- The message of `efi_exit`. -/
def exitText (debug : Bool) (status : Status) : List U8 :=
  if debug then octets "Exiting with status code " ++
    (List.replicate (16 - (numeral 16 status.toNat).length) 48 ++ numeral 16 status.toNat ++
      octets "\n")
  else []

/-- The exit with a status, its reason and its message. -/
structure ExitsWith (l : Life) (debug : Bool) (status : Status) : Prop where
  error : status ≠ efiSuccess
  untouched : l.touched = false
  running : l.exited = false
  reason : match l.located with
    | none => (∃ signature, l.signature = some signature ∧ signature ≠ efiSystemTableSignature) ∧
        status = efiInvalidParameter ∧ l.text = asciiUnits (exitText debug status)
    | some located => l.signature = some efiSystemTableSignature ∧
        status = (if located = efiSuccess then efiNotFound else located) ∧
        asciiUnits (octets "ERROR: Unable to set up graphics\n" ++ exitText debug status) <:+ l.text

/-- Firmware's values lead to undefined behaviour. -/
def Overflows (l : Life) (debug : Bool) : Prop :=
  (debug = true ∧ ∃ m, l.query = some m ∧ 1000 ≤ m.toNat) ∨
    ∃ mode, l.mode = some mode ∧ 2 ^ 31 ≤ mode.info.frameBytes

def Allowed (debug : Bool) (imghandle : Ptr) (l : Life) : Op ⊕ BootOp → Prop
  | .inl o => l.exited = false ∧ (o = .ub → l.Overflows debug)
  | .inr (.exit handle status exitDataSize exitData) =>
    handle = imghandle ∧ exitDataSize = 0 ∧ exitData = 0 ∧ l.ExitsWith debug status
  | .inr .hlt => l.exited = true ∧ l.touched = false
  | .inr _ => l.exited = false

/-! ## The parts -/

/-- Runs of a part of the entry point. -/
abbrev Lives {α : Type} (debug : Bool) (imghandle : Ptr) (Q : α → Life → Prop) (p : Uefi α)
    (l : Life) : Prop :=
  Safe (Summary next) (fun l o => l.Allowed debug imghandle (.inl o)) Q p l

abbrev Runs {α : Type} (debug : Bool) (imghandle : Ptr) (Q : α → Life → Prop) (p : Stub α)
    (l : Life) : Prop :=
  Safe (Summary (joint next nextBoot)) (Allowed debug imghandle) Q p l

/-- The signature is the right one and the run has not exited. -/
structure Alive (l : Life) : Prop where
  signature : l.signature = some efiSystemTableSignature
  running : l.exited = false

/-- Nothing has been changed but the console. -/
structure Fresh (l : Life) : Prop extends Alive l where
  untouched : l.touched = false

section Parts

variable {debug : Bool} {imghandle : Ptr} {l : Life} {α : Type}

theorem alive_next {o : Op} (h : Alive l) (x : o.Ans) : Alive (l.next ⟨o, x⟩) := by
  obtain ⟨hsig, hrun⟩ := h
  unfold next
  split <;> exact ⟨hsig, hrun⟩

theorem lives_defined {p : Uefi α} (hp : Only Defined p) (h : Alive l) :
    Lives debug imghandle (fun _ => Alive) p l :=
  .invariant hp h (fun _ _ h ho => ⟨h.running, fun hub => absurd hub ho⟩) fun _ _ x _ h _ hs => by
    rw [hs]
    exact alive_next h x

theorem defined_talk {o : Op} (ho : Talk o) : Defined o := by
  rintro rfl
  exact ho

theorem lives_talk {p : Uefi α} (hp : Only Talk p) (h : Alive l) :
    Lives debug imghandle (fun _ l' => Alive l' ∧ l'.touched = l.touched) p l := by
  refine .invariant (I := fun l' => Alive l' ∧ l'.touched = l.touched) hp ⟨h, rfl⟩
    (fun _ _ h ho => ⟨h.1.running, fun hub => absurd hub (defined_talk ho)⟩) ?_
  rintro l1 o x l2 ⟨h1, hsame⟩ ho rfl
  have htouched : (l1.next ⟨o, x⟩).touched = l1.touched := by
    cases o <;> first | exact absurd ho id | rfl
  exact ⟨alive_next h1 x, htouched.trans hsame⟩

/-- A text that is said is part of the text from then on, and nothing else changes. -/
theorem lives_text {p : Uefi Unit} {t : List U8} (hp : Says p t) (h : l.exited = false) :
    Lives debug imghandle (fun _ l' => l' = { l with text := l.text ++ asciiUnits t }) p l := by
  obtain ⟨chunks, hsend, hflat⟩ := hp.streams
  rw [show p = calls (chunks.map Op.outputString) from hsend, ← hflat]
  clear hsend hflat
  induction chunks generalizing l with
  | nil => exact .ret (by rw [List.flatten_nil, List.append_nil])
  | cons string chunks ih =>
    refine .observe ⟨h, nofun⟩ fun x => ?_
    refine (ih (l := l.next ⟨.outputString string, x⟩) h).post fun _ l' hl' => ?_
    rw [hl', List.flatten_cons, ← List.append_assoc]
    rfl

/-! ### The graphics mode -/

/-- The number of a listed mode is the one place where a callback can be undefined. -/
theorem lives_printListEntry {info : Ptr} {m cur : U32} (hd : debug = true) (h : Alive l)
    (hq : l.query = some m) :
    Lives debug imghandle (fun _ => Alive) (printListEntry info m cur) l := by
  by_cases hm : m.toNat < 1000
  · exact lives_defined (defined_printListEntry hm info cur) h
  have hm : 1000 ≤ m.toNat := Nat.le_of_not_lt hm
  unfold printListEntry
  rw [modeDigits_of_le hm]
  refine .observe ⟨h.running, nofun⟩ fun mi => ?_
  refine (lives_text (@Says.lit "Mode " (by decide)) h.running).seq fun _ l' hl' => ?_
  rw [hl']
  exact .call ⟨h.running, fun _ => .inl ⟨hd, m, hq, hm⟩⟩ fun x => x.elim

theorem defined_freeBuffer (ptr : Ptr) : Only Defined (efiFreeBuffer ptr) := only_freeBuffer nofun

theorem lives_listLoop {gop : Ptr} (hd : debug = true) (n : Nat) (m cur : U32) (h : Alive l) :
    Lives debug imghandle (fun _ => Alive) (chooseModeLoop gop printListEntry n m cur) l := by
  induction n generalizing l m cur with
  | zero => exact .ret h
  | succ n ih =>
    unfold chooseModeLoop
    refine .observe ⟨h.running, fun h => Op.noConfusion h⟩ fun x => ?_
    have h := alive_next (o := .gopQueryMode gop m) h x
    obtain ⟨status, info⟩ := x
    dsimp only
    split
    · exact ih _ _ h
    refine (lives_printListEntry hd h rfl).seq fun r l h => ?_
    obtain ⟨matched, cur⟩ := r
    refine (lives_defined (defined_freeBuffer info) h).seq fun _ l h => ?_
    dsimp only
    split
    · exact .ret h
    · exact ih _ _ h

theorem lives_printModesList {gop : Ptr} (hd : debug = true) (h : Alive l) :
    Lives debug imghandle (fun _ => Alive) (printModesList gop) l := by
  have hlit {l : Life} (s : String) (h : Alive l) :
      Lives debug imghandle (fun _ => Alive) (efiPuts (lit s)) l :=
    lives_defined (prints_lit s).defined h
  have hchoose {l : Life} (cur : U32) (h : Alive l) :
      Lives debug imghandle (fun _ => Alive) (chooseMode gop printListEntry cur) l :=
    .observe ⟨h.running, nofun⟩ fun mode =>
      (lives_listLoop hd _ _ _ (alive_next h mode)).seq fun _ _ h => .ret h
  unfold printModesList
  refine .observe ⟨h.running, nofun⟩ fun mode => ?_
  refine (hlit _ (alive_next h mode)).seq fun _ _ h => ?_
  refine (lives_defined (prints_putd _).defined h).seq fun _ _ h => ?_
  refine (hlit _ h).seq fun _ _ h => (hlit _ h).seq fun _ _ h => ?_
  refine (hlit _ h).seq fun _ _ h => (hlit _ h).seq fun _ _ h => ?_
  refine (hchoose _ h).seq fun _ _ h => (hlit _ h).seq fun _ _ h => ?_
  refine (lives_defined (only_waitForKey (fun _ _ ho => ho) _) h).seq fun ⟨status, _⟩ _ h => ?_
  dsimp only
  split
  · exact (hlit _ h).seq fun _ _ h => .observe ⟨h.running, nofun⟩ fun x => .ret (alive_next h x)
  · exact .ret h

theorem lives_switchMode {gop : Ptr} {cur new : U32} (h : Alive l) :
    Lives debug imghandle (fun _ => Alive) (switchMode debug gop cur new) l := by
  have hlist {l : Life} (h : Alive l) : Lives debug imghandle (fun _ => Alive)
      (if debug = true then do
        let _ ← printModesList gop
        pure () else pure ()) l := by
    split
    · rename_i hd
      exact (lives_printModesList hd h).seq fun _ _ h => .ret h
    · exact .ret h
  unfold switchMode
  by_cases hne : new ≠ cur
  · rw [if_pos hne]
    refine .observe ⟨h.running, nofun⟩ fun status => ?_
    have h := alive_next (o := .gopSetMode gop new) h status
    by_cases hs : status ≠ efiSuccess
    · rw [if_pos hs]
      exact (lives_defined (prints_lit _).defined h).seq fun _ _ h => hlist h
    · rw [if_neg hs]
      exact hlist h
  · rw [if_neg hne]
    exact hlist h

theorem defined_chooseHighestRes (gop : Ptr) : Only Defined (chooseHighestRes gop) := by
  have hrank (info : Ptr) (m : U32) (ctx : Match) : Only Defined (highestRes info m ctx) :=
    .op_bind nofun fun _ => .ret _
  have hscan (n : Nat) (m : U32) (ctx : Match) :
      Only Defined (chooseModeLoop gop highestRes n m ctx) :=
    only_chooseModeLoop (fun _ => nofun) (fun _ => nofun) n m ctx fun info m ctx _ =>
      hrank info m ctx
  exact Only.bind (.op_bind nofun fun mode => (hscan _ _ _).bind fun _ => .ret _) fun _ => .ret _

theorem lives_setGopMode {gop : Ptr} {req : GraphicsMode} (h : Alive l) :
    Lives debug imghandle (fun _ => Alive) (setGopMode debug gop req) l := by
  unfold setGopMode
  refine .observe ⟨h.running, nofun⟩ fun mode => ?_
  have h := alive_next (o := .loadGopMode gop) h mode
  split
  · exact (lives_defined (defined_chooseHighestRes gop) h).seq fun _ _ h => lives_switchMode h
  · exact lives_defined (prints_lit _).defined h

/-- The search changes nothing. -/
theorem lives_findGop {handles : Ptr} {num : U64} (h : Fresh l) :
    Lives debug imghandle (fun _ l' => Fresh l' ∧ l'.located = l.located) (findGop num handles)
      l := by
  refine .invariant (I := fun l' => Fresh l' ∧ l'.located = l.located)
    (find_findGopLoop handles num.toNat 0 0) ⟨h, rfl⟩ (fun _ o h ho => ⟨h.1.running, ?_⟩) ?_
  · rintro rfl
    exact absurd ho id
  · rintro l1 o x l2 ⟨h1, hloc⟩ ho rfl
    have hsame : (l1.next ⟨o, x⟩).touched = l1.touched ∧ (l1.next ⟨o, x⟩).located = l1.located := by
      cases o <;> first | exact absurd ho id | exact ⟨rfl, rfl⟩
    exact ⟨⟨alive_next h1.toAlive x, hsame.1.trans h1.untouched⟩, hsame.2.trans hloc⟩

/-- What `efi_setup_gop` leaves behind. -/
structure SetUp (r : Status × ScreenInfo) (l : Life) : Prop extends Alive l where
  failed : r.1 ≠ efiSuccess → l.touched = false ∧ ∃ located, l.located = some located ∧
    r.1 = if located = efiSuccess then efiNotFound else located
  described : r.1 = efiSuccess → ∃ mode, storeScreenInfo mode ScreenInfo.zero = some r.2

theorem lives_setup {req : GraphicsMode} (h : Fresh l) :
    Lives debug imghandle SetUp (efiSetupGop debug ScreenInfo.zero req) l := by
  unfold efiSetupGop
  refine .observe ⟨h.running, nofun⟩ fun ⟨status, num, handles⟩ => ?_
  have h : Fresh (l.next ⟨.locateHandleBuffer .graphicsOutputProtocol, (status, num, handles)⟩) :=
    ⟨alive_next h.toAlive _, h.untouched⟩
  dsimp only
  split
  · rename_i hs
    exact .ret ⟨h.toAlive, fun _ => ⟨h.untouched, status, rfl, (if_neg hs).symm⟩,
      fun hok => absurd hok hs⟩
  rename_i hs
  obtain rfl := not_not.mp hs
  refine (lives_findGop h).seq fun gop l ⟨h, hloc⟩ => ?_
  split
  · -- no graphics protocol
    have hnone {l' : Life} (h' : Fresh l') (hl : l'.located = l.located) :
        SetUp (efiNotFound, ScreenInfo.zero) l' :=
      ⟨h'.toAlive, fun _ => ⟨h'.untouched, efiSuccess, hl.trans hloc, (if_pos rfl).symm⟩,
        fun hok => absurd hok (by decide)⟩
    unfold efiFreeBuffer
    by_cases h0 : handles = 0
    · rw [if_pos h0]
      exact .ret (hnone h rfl)
    · rw [if_neg h0]
      exact .observe ⟨h.running, nofun⟩ fun x =>
        .ret (hnone ⟨alive_next h.toAlive x, h.untouched⟩ rfl)
  refine (lives_setGopMode h.toAlive).seq fun _ l h => .observe ⟨h.running, nofun⟩ fun mode => ?_
  have h := alive_next (o := .loadGopMode gop) h mode
  cases hsi : storeScreenInfo mode ScreenInfo.zero with
  | none =>
    have hwide := (storeScreenInfo_none_iff mode _).mp hsi
    exact .call ⟨h.running, fun _ => .inr ⟨mode, rfl, hwide⟩⟩ fun x => x.elim
  | some si =>
    refine (lives_defined (defined_freeBuffer handles) h).seq fun _ l h => .ret ?_
    exact ⟨h, fun hn => absurd rfl hn, fun _ => ⟨mode, hsi⟩⟩

end Parts

/-! ## The entry point -/

section Entry

variable {debug : Bool} {turns : Nat} {imghandle : Ptr} {l : Life} {α : Type}

theorem runs_part {β : Type} {p : Uefi α} {f : α → Stub β} {Q : α → Life → Prop}
    {R : β → Life → Prop} (hp : Lives debug imghandle Q p l)
    (hf : ∀ a l', Q a l' → Runs debug imghandle R (f a) l') :
    Runs debug imghandle R (p.inl >>= f) l :=
  Safe.seq (hp.joint fun _ _ h => h) hf

/-- What a run that returns is like. -/
def Over (l : Life) : Prop := l.exited = true → l.touched = false

theorem runs_haltLoop (hexit : l.exited = true) (h : l.touched = false) :
    Runs debug imghandle (fun _ => Over) (haltLoop turns) l := by
  induction turns with
  | zero => exact .ret fun _ => h
  | succ n ih => exact .observe_inr ⟨hexit, h⟩ fun _ => ih

theorem runs_exit {status : Status} (hrun : l.exited = false)
    (h : ExitsWith { l with text := l.text ++ asciiUnits (exitText debug status) } debug status) :
    Runs debug imghandle (fun _ => Over) (efiExit debug turns imghandle status) l := by
  have hexit {l : Life} (h : ExitsWith l debug status) : Runs debug imghandle (fun _ => Over) (do
      let _ ← boot (.exit imghandle status 0 0)
      haltLoop turns) l :=
    .observe_inr ⟨rfl, rfl, rfl, h⟩ fun _ => runs_haltLoop rfl h.untouched
  unfold efiExit
  cases debug with
  | false =>
    refine hexit ?_
    rwa [show exitText false status = [] from rfl, show asciiUnits [] = [] from rfl,
      List.append_nil] at h
  | true =>
    have hstall {l : Life} (h : ExitsWith l true status) :
        Runs true imghandle (fun _ => Over) (do
          let _ ← stall (10 * 1000000)
          let _ ← boot (.exit imghandle status 0 0)
          haltLoop turns) l :=
      runs_part (Q := fun _ l' => l' = l) (.observe ⟨h.running, nofun⟩ fun _ => .ret rfl)
        fun _ _ hl => hexit (hl ▸ h)
    refine runs_part (lives_text (Says.lit (by decide)) hrun) fun _ l1 h1 => ?_
    subst h1
    refine runs_part (lives_text (Says.put0h status (by decide)) hrun) fun _ l2 h2 => ?_
    subst h2
    refine runs_part (lives_text (Says.lit (by decide)) hrun) fun _ l3 h3 => ?_
    subst h3
    refine hstall ?_
    rw [show exitText true status = octets "Exiting with status code " ++
      (List.replicate (16 - (numeral 16 status.toNat).length) 48 ++ numeral 16 status.toNat ++
        octets "\n") from rfl, asciiUnits_append, asciiUnits_append _ (octets "\n"),
      ← List.append_assoc, ← List.append_assoc] at h
    exact h

theorem runs_clearScreen (h : Alive l) :
    Runs debug imghandle (fun _ l' => Alive l' ∧ l'.touched = l.touched) efiConsoleClearScreen
      l := by
  have hattr : Only Talk (setAttribute
      ((consoleAttribute efiConsoleGray efiConsoleBlack).setWidth 64)) :=
    .call trivial fun x => .ret x
  refine runs_part (lives_talk hattr h) fun _ l h => ?_
  exact .observe_inr h.1.running fun _ => .observe_inr h.1.running fun _ => .ret h

theorem runs_stallLoop (h : Alive l) :
    Runs debug imghandle (fun _ => Over) (stallLoop turns) l := by
  have hstall : Only Talk (stall (2 * 1000000)) := .call trivial fun x => .ret x
  induction turns generalizing l with
  | zero => exact .ret fun hexit => by rw [h.running] at hexit; cases hexit
  | succ n ih => exact runs_part (lives_talk hstall h) fun _ _ h => ih h.1

theorem defined_efiSetupPci : Only Defined efiSetupPci :=
  Bracket.safe_efiSetupPci.to_only fun b o ho => by
    rintro rfl
    exact ho

theorem runs_drawAndReport {si : ScreenInfo} (h : Alive l)
    (hsi : ∃ mode, storeScreenInfo mode ScreenInfo.zero = some si) :
    Runs debug imghandle (fun _ => Over) (drawAndReport debug turns si) l := by
  have hfill : Only Defined (fillScreen si) := by
    obtain ⟨mode, hstore⟩ := hsi
    rw [fillScreen_eq (mulInt_eq_some (storeScreenInfo_spec hstore).2.2.2.2).1]
    refine .calls fun o ho => ?_
    obtain ⟨p, -, rfl⟩ := List.mem_map.mp ho
    exact nofun
  have hrest {l : Life} (h : Alive l) :
      Runs debug imghandle (fun _ => Over) (drawAndReport false turns si) l := by
    refine runs_part (lives_defined hfill h) fun _ l h => ?_
    refine runs_part (lives_talk talk_uefiInfo h) fun _ l ⟨h, _⟩ => ?_
    refine runs_part (lives_talk (talk_screen si) h) fun _ l ⟨h, _⟩ => ?_
    refine runs_part (lives_defined defined_efiSetupPci h) fun _ l h => ?_
    exact runs_part (lives_talk (talk_lit (by decide)) h) fun _ l h => runs_stallLoop h.1
  cases debug with
  | false => exact hrest h
  | true => exact (runs_clearScreen h).seq fun _ l h => hrest h.1

theorem runs_setUpAndDraw (h : Fresh l) :
    Runs debug imghandle (fun _ => Over) (setUpAndDraw debug turns imghandle) l := by
  unfold setUpAndDraw
  refine runs_part (lives_setup h) fun ⟨status, si⟩ l h => ?_
  dsimp only
  split
  · rename_i hs
    obtain ⟨htouched, located, hloc, hstatus⟩ := h.failed hs
    have hsays := @Says.lit "ERROR: Unable to set up graphics\n" (by decide)
    refine runs_part (lives_text hsays h.running) fun _ l' hl' => ?_
    subst hl'
    refine runs_exit h.running ⟨hs, htouched, h.running, ?_⟩
    dsimp only
    rw [hloc]
    refine ⟨h.signature, hstatus, ?_⟩
    rw [List.append_assoc, ← asciiUnits_append]
    exact List.suffix_append ..
  · rename_i hs
    exact runs_drawAndReport h.toAlive (h.described (not_not.mp hs))

theorem runs_entry : Runs debug imghandle (fun _ => Over) (uefistubPeEntry debug turns imghandle)
    start := by
  unfold uefistubPeEntry
  refine .observe_inr rfl fun signature => ?_
  split
  · rename_i hsig
    exact runs_exit rfl ⟨by decide, rfl, rfl, ⟨signature, rfl, hsig⟩, rfl, rfl⟩
  rename_i hsig
  have h0 : Alive (start.nextBoot ⟨.loadSignature, signature⟩) :=
    ⟨congrArg some (not_not.mp hsig), rfl⟩
  refine runs_part (lives_talk (talk_still still_consoleReset) h0) fun _ l ⟨h, hsame⟩ => ?_
  cases debug with
  | false => exact runs_setUpAndDraw ⟨h, hsame⟩
  | true =>
    refine .observe_inr h.running fun _ => (runs_clearScreen h).seq fun _ l' hl' => ?_
    exact runs_setUpAndDraw ⟨hl'.1, hl'.2.trans hsame⟩

end Entry

/-- The guard, for histories. -/
theorem reached {debug : Bool} {turns : Nat} {imghandle : Ptr} {p : Stub Unit} {tr : StubTrace}
    (h : Reach History (uefistubPeEntry debug turns imghandle, []) (p, tr)) :
    (∀ o k, p = .call o k → (after tr).Allowed debug imghandle o) ∧
      ∀ u, p = .ret u → (after tr).Over :=
  (runs_entry.summary []).reached h

end Life

/-- **When the stub exits.** In every run `exit` is called at most once, with the image handle and
an error: with `EFI_INVALID_PARAMETER` where the signature of the system table is another one, else
with the status of the failed search for a graphics protocol and after a message. Until then no
mode has been set, nothing drawn and no PCI device accessed, and from then on the processor is
halted. -/
theorem uefistubPeEntry_exits {debug : Bool} {turns : Nat} {imghandle : Ptr} {o : Op ⊕ BootOp}
    {k : Sum.elim Op.Ans BootOp.Ans o → Stub Unit} {tr : StubTrace}
    (h : Reach History (uefistubPeEntry debug turns imghandle, []) (.call o k, tr)) :
    (∀ handle status exitDataSize exitData, o = .inr (.exit handle status exitDataSize exitData) →
      handle = imghandle ∧ exitDataSize = 0 ∧ exitData = 0 ∧
        (Life.after tr).ExitsWith debug status) ∧
    ((Life.after tr).exited = true ↔ o = .inr .hlt) ∧
    ((Life.after tr).exited = true → (Life.after tr).touched = false) := by
  have hallowed := (Life.reached h).1 o k rfl
  rcases o with o | o
  · refine ⟨nofun, ⟨fun hexit => ?_, nofun⟩, fun hexit => ?_⟩
    all_goals
      rw [hallowed.1] at hexit
      cases hexit
  cases o with
  | exit handle status exitDataSize exitData =>
    refine ⟨?_, ⟨fun hexit => ?_, nofun⟩, fun _ => hallowed.2.2.2.untouched⟩
    · rintro _ _ _ _ ⟨⟩
      exact hallowed
    · rw [hallowed.2.2.2.running] at hexit
      cases hexit
  | hlt => exact ⟨nofun, ⟨fun _ => rfl, fun _ => hallowed.1⟩, fun _ => hallowed.2⟩
  | loadSignature | setWatchdogTimer | clearScreen | setCursor =>
    have hrun : (Life.after tr).exited = false := hallowed
    refine ⟨nofun, ⟨fun hexit => ?_, nofun⟩, fun hexit => ?_⟩
    all_goals
      rw [hrun] at hexit
      cases hexit

/-- Firmware that has no graphics, up to the exit. -/
def noGraphics : StubTrace :=
  consoleReady ++ [⟨.inl (.locateHandleBuffer .graphicsOutputProtocol), (efiNotFound, 0, 0)⟩,
    ⟨.inl (.outputString (asciiUnits (octets "ERROR: Unable to set up graphics\n"))), efiSuccess⟩]

set_option maxRecDepth 8192 in
theorem uefistubPeEntry_exits_noGraphics :
    (∀ handle status exitDataSize exitData, (.inr (.exit 1 efiNotFound 0 0) : Op ⊕ BootOp) =
        .inr (.exit handle status exitDataSize exitData) →
      handle = 1 ∧ exitDataSize = 0 ∧ exitData = 0 ∧
        (Life.after noGraphics).ExitsWith false status) ∧
    ((Life.after noGraphics).exited = true ↔
      (.inr (.exit 1 efiNotFound 0 0) : Op ⊕ BootOp) = .inr .hlt) ∧
    ((Life.after noGraphics).exited = true → (Life.after noGraphics).touched = false) := by
  have hrun : ∃ k, follow noGraphics (uefistubPeEntry false 3 1) =
      some (.call (.inr (.exit 1 efiNotFound 0 0)) k) := ⟨_, rfl⟩
  obtain ⟨k, hrun⟩ := hrun
  exact uefistubPeEntry_exits (reach_follow hrun [])

end UefiStub
