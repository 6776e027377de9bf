import UefiStub.Memory.Pool
import UefiStub.Stub.Calls

/-!
# What is drawn and what is reported

`Drawing` is what a history shows of the screen: the mode record read last, the
stores to the frame buffer and the text printed. The stores of every run are the
first pixels of the raster of the mode read last, in the order of the raster.
Before the first access to a PCI device the raster is complete, and the same
description has been printed.
-/

namespace UefiStub

open Interact

structure Drawing where
  mode : Option GopMode
  stores : List Op
  text : List U16

namespace Drawing

def start : Drawing := ⟨none, [], []⟩

def next (d : Drawing) : Event Op Op.Ans → Drawing
  | ⟨.loadGopMode _, mode⟩ => { d with mode := some mode }
  | ⟨.store32 addr value, _⟩ => { d with stores := d.stores ++ [.store32 addr value] }
  | ⟨.outputString string, _⟩ => { d with text := d.text ++ string }
  | _ => d

/-- The drawing after a history. -/
def after (tr : Trace) : Drawing := tr.foldl next start

/-- `si` describes the mode read last. -/
def Describes (d : Drawing) (si : ScreenInfo) : Prop :=
  ∃ mode, d.mode = some mode ∧ storeScreenInfo mode ScreenInfo.zero = some si

/-- Nothing is drawn, or the first pixels of the mode read last. -/
def Partial (d : Drawing) : Prop :=
  d.stores = [] ∨ ∃ si, d.Describes si ∧ d.stores <+: pixelStores si

/-- All pixels are drawn, and the description they are drawn by is part of the text. -/
def Complete (d : Drawing) : Prop :=
  ∃ si, d.Describes si ∧ d.stores = pixelStores si ∧ asciiUnits (screenText si) <:+: d.text

/-- An access to a PCI device. -/
def PciAccess : Op → Prop
  | .pciGetLocation _ | .pciRead _ _ _ _ | .pciWrite _ _ _ _ => True
  | _ => False

def Allowed (d : Drawing) : Op ⊕ BootOp → Prop
  | .inl o => d.Partial ∧ (PciAccess o → d.Complete)
  | .inr _ => d.Partial

/-- The same mode and stores, and at least the text. -/
structure Extends (d d' : Drawing) : Prop where
  mode : d'.mode = d.mode
  stores : d'.stores = d.stores
  text : d.text <+: d'.text

theorem Extends.refl (d : Drawing) : d.Extends d := ⟨rfl, rfl, List.prefix_refl _⟩

theorem Extends.trans {a b c : Drawing} (h : a.Extends b) (h' : b.Extends c) : a.Extends c :=
  ⟨h'.mode.trans h.mode, h'.stores.trans h.stores, h.text.trans h'.text⟩

namespace Extends

variable {d d' : Drawing} (h : d.Extends d')
include h

theorem describes {si : ScreenInfo} (hd : d.Describes si) : d'.Describes si := by
  obtain ⟨mode, hmode, hsi⟩ := hd
  exact ⟨mode, h.mode.trans hmode, hsi⟩

theorem isPartial (hd : d.Partial) : d'.Partial := by
  unfold Partial
  rw [h.stores]
  exact hd.imp id fun ⟨si, hsi, hpre⟩ => ⟨si, h.describes hsi, hpre⟩

theorem complete (hd : d.Complete) : d'.Complete := by
  obtain ⟨si, hsi, hstores, htext⟩ := hd
  exact ⟨si, h.describes hsi, h.stores.trans hstores, htext.trans h.text.isInfix⟩

end Extends

theorem Complete.isPartial {d : Drawing} (h : d.Complete) : d.Partial := by
  obtain ⟨si, hsi, hstores, -⟩ := h
  exact .inr ⟨si, hsi, hstores ▸ List.prefix_refl _⟩

/-- Neither reads a mode record nor stores a pixel. -/
def Leaves : Op → Prop
  | .loadGopMode _ | .store32 _ _ => False
  | _ => True

theorem extends_next {o : Op} (ho : Leaves o) (d : Drawing) (x : o.Ans) :
    d.Extends (d.next ⟨o, x⟩) := by
  cases o <;> first | exact absurd ho id | exact .refl d | skip
  exact ⟨rfl, rfl, List.prefix_append ..⟩

/-! ## The parts -/

/-- Runs of a part of the entry point. -/
abbrev Draws {α : Type} (Q : α → Drawing → Prop) (p : Uefi α) (d : Drawing) : Prop :=
  Safe (Summary next) (fun d o => d.Allowed (.inl o)) Q p d

abbrev Runs {α : Type} (Q : α → Drawing → Prop) (p : Stub α) (d : Drawing) : Prop :=
  Safe (Summary (joint next fun d _ => d)) Allowed Q p d

section Parts

variable {d : Drawing} {α : Type} {si : ScreenInfo}

theorem Draws.runs {Q : α → Drawing → Prop} {p : Uefi α} (h : Draws Q p d) : Runs Q p.inl d :=
  h.joint fun _ _ h => h

/-- Calls that draw nothing. -/
theorem draws_leaves {P : Op → Prop} {p : Uefi α} (hp : Only P p) (hP : ∀ o, P o → Leaves o)
    (hG : ∀ d', d.Extends d' → ∀ o, P o → d'.Allowed (.inl o)) :
    Draws (fun _ d' => d.Extends d') p d := by
  refine .invariant hp (.refl d) (fun d' o h ho => hG d' h o ho) fun d' o x d'' h ho hs => ?_
  rw [hs]
  exact h.trans (extends_next (hP o ho) d' x)

theorem leaves_talk {o : Op} (ho : Talk o) : Leaves o ∧ ¬PciAccess o := by
  cases o <;> first | exact absurd ho id | exact ⟨trivial, id⟩

theorem draws_talk {p : Uefi α} (hp : Only Talk p) (h : d.Partial) :
    Draws (fun _ d' => d.Extends d') p d :=
  draws_leaves hp (fun _ ho => (leaves_talk ho).1) fun _ hd _ ho =>
    ⟨hd.isPartial h, fun hpci => absurd hpci (leaves_talk ho).2⟩

theorem draws_pci (h : d.Complete) : Draws (fun _ d' => d.Extends d') efiSetupPci d :=
  draws_leaves pci_efiSetupPci (fun o ho => by cases o <;> first | exact absurd ho id | trivial)
    fun _ hd _ _ => ⟨hd.isPartial h.isPartial, fun _ => hd.complete h⟩

/-- A text that is said is part of the text from then on. -/
theorem draws_text {p : Uefi Unit} {l : List U8} (hp : Says p l) (h : d.Partial) :
    Draws (fun _ d' => d' = { d with text := d.text ++ asciiUnits l }) p d := by
  obtain ⟨chunks, hsend, hflat⟩ := hp.streams
  rw [show p = calls (chunks.map Op.outputString) from hsend, ← hflat]
  clear hsend hflat
  induction chunks generalizing d with
  | nil => exact .ret (by rw [List.flatten_nil, List.append_nil])
  | cons string chunks ih =>
    have hext : d.Extends (d.next ⟨.outputString string, efiSuccess⟩) :=
      extends_next (o := .outputString string) trivial d efiSuccess
    refine .observe ⟨h, fun hpci => absurd hpci id⟩ fun x => ?_
    refine (ih (hext.isPartial h)).post fun _ d' hd' => ?_
    rw [hd', List.flatten_cons, ← List.append_assoc]
    rfl

/-! ### The graphics mode -/

theorem stores_next {o : Op} (ho : GopCall o) (d : Drawing) (x : o.Ans) :
    (d.next ⟨o, x⟩).stores = d.stores := by
  cases o <;> first | exact absurd ho id | rfl

theorem allowed_gop {o : Op} (ho : GopCall o) (h : d.stores = []) : d.Allowed (.inl o) := by
  refine ⟨.inl h, fun hpci => ?_⟩
  cases o <;> first | exact absurd ho id | exact absurd hpci id

theorem draws_gop {p : Uefi α} (hp : Only GopCall p) (h : d.stores = []) :
    Draws (fun _ d' => d'.stores = []) p d :=
  .invariant hp h (fun _ _ h ho => allowed_gop ho h) fun d o x _ h ho hs => by
    rw [hs, stores_next ho]
    exact h

/-- Nothing is drawn, and after success the mode read last is described. -/
def SetUp (r : Status × ScreenInfo) (d : Drawing) : Prop :=
  d.stores = [] ∧ (r.1 = efiSuccess → d.Describes r.2)

theorem draws_setup {debug : Bool} {req : GraphicsMode} (h : d.stores = []) :
    Draws SetUp (efiSetupGop debug ScreenInfo.zero req) d := by
  unfold efiSetupGop
  refine .observe (allowed_gop trivial h) fun ⟨status, num, handles⟩ => ?_
  have hfree : Only GopCall (efiFreeBuffer handles) := only_freeBuffer trivial
  dsimp only
  split
  · rename_i hs
    exact .ret ⟨h, fun hok => absurd hok hs⟩
  refine (draws_gop (gop_findGopLoop _ _ _ _) h).seq fun gop d h => ?_
  split
  · exact (draws_gop hfree h).seq fun _ _ h => .ret ⟨h, fun hok => absurd hok (by decide)⟩
  refine (draws_gop (gop_mode (mode_setGopMode ..)) h).seq fun _ d h => ?_
  refine .observe (allowed_gop trivial h) fun mode => ?_
  cases hsi : storeScreenInfo mode ScreenInfo.zero with
  | none => exact .call (allowed_gop trivial h) fun x => x.elim
  | some si =>
    have hdesc : (d.next ⟨.loadGopMode gop, mode⟩).Describes si := ⟨mode, rfl, hsi⟩
    unfold efiFreeBuffer
    by_cases h0 : handles = 0
    · rw [if_pos h0]
      exact .ret ⟨h, fun _ => hdesc⟩
    · rw [if_neg h0]
      exact .observe (allowed_gop trivial h) fun _ => .ret ⟨h, fun _ => hdesc⟩

/-! ### The raster -/

theorem draws_pixels {rest : List (Nat × Nat)} (hsi : d.Describes si)
    (h : d.stores ++ rest.map (fun p => .store32 (pixelAddr si p) (fillPixel si)) =
      pixelStores si) :
    Draws (fun _ d' => d'.Describes si ∧ d'.stores = pixelStores si)
      (calls (rest.map fun p => .store32 (pixelAddr si p) (fillPixel si))) d := by
  induction rest generalizing d with
  | nil => exact .ret ⟨hsi, by rw [← h, List.map_nil, List.append_nil]⟩
  | cons p rest ih =>
    have hpre : d.stores <+: pixelStores si := ⟨_, h⟩
    refine .observe ⟨.inr ⟨si, hsi, hpre⟩, fun hpci => absurd hpci id⟩ fun _ => ih hsi ?_
    rw [← h, List.map_cons, List.append_cons]
    rfl

theorem draws_fill (hsi : d.Describes si) (h : d.stores = []) :
    Draws (fun _ d' => d'.Describes si ∧ d'.stores = pixelStores si) (fillScreen si) d := by
  obtain ⟨mode, -, hstore⟩ := id hsi
  have hprod := (mulInt_eq_some (storeScreenInfo_spec hstore).2.2.2.2).1
  rw [fillScreen_eq hprod]
  refine draws_pixels hsi ?_
  rw [h]
  rfl

end Parts

/-! ## The entry point -/

section Entry

variable {d : Drawing} {α : Type} {debug : Bool} {turns : Nat} {si : ScreenInfo}

theorem runs_boot {o : BootOp} {k : o.Ans → Stub α} {Q : α → Drawing → Prop} (h : d.Partial)
    (hk : ∀ x, Runs Q (k x) d) : Runs Q (boot o >>= k) d := .observe_inr h hk

/-- Calls that draw nothing, and what follows them. -/
theorem runs_talk {β : Type} {p : Uefi α} {f : α → Stub β} {Q : β → Drawing → Prop}
    (hp : Only Talk p) (h : d.Partial) (hf : ∀ a d', d.Extends d' → Runs Q (f a) d') :
    Runs Q (p.inl >>= f) d := (draws_talk hp h).runs.seq hf

theorem runs_haltLoop (h : d.Partial) : Runs (fun _ d' => d.Extends d') (haltLoop turns) d := by
  induction turns with
  | zero => exact .ret (.refl d)
  | succ n ih => exact runs_boot h fun _ => ih

theorem runs_stallLoop (h : d.Partial) :
    Runs (fun _ d' => d.Extends d') (stallLoop turns) d := by
  have hstall : Only Talk (stall (2 * 1000000)) := .call trivial fun x => .ret x
  induction turns generalizing d with
  | zero => exact .ret (.refl d)
  | succ n ih =>
    exact runs_talk hstall h fun _ _ h1 => (ih (h1.isPartial h)).post fun _ _ => h1.trans

theorem runs_exit {handle : Ptr} {status : Status} (h : d.Partial) :
    Runs (fun _ d' => d.Extends d') (efiExit debug turns handle status) d := by
  have hexit {d' : Drawing} (h' : d.Extends d') : Runs (fun _ d' => d.Extends d') (do
      let _ ← boot (.exit handle status 0 0)
      haltLoop turns) d' :=
    runs_boot (h'.isPartial h) fun _ =>
      (runs_haltLoop (h'.isPartial h)).post fun _ _ => h'.trans
  have hstall : Only Talk (stall (10 * 1000000)) := .call trivial fun x => .ret x
  unfold efiExit
  cases debug with
  | false => exact hexit (.refl d)
  | true =>
    refine runs_talk (talk_lit (by decide)) h fun _ d1 h1 => ?_
    refine runs_talk (Says.put0h status (by decide)).talk (h1.isPartial h) fun _ d2 h2 => ?_
    have h2 := h1.trans h2
    refine runs_talk (talk_lit (by decide)) (h2.isPartial h) fun _ d3 h3 => ?_
    have h3 := h2.trans h3
    exact runs_talk hstall (h3.isPartial h) fun _ d4 h4 => hexit (h3.trans h4)

theorem runs_clearScreen (h : d.Partial) :
    Runs (fun _ d' => d.Extends d') efiConsoleClearScreen d := by
  have hattr : Only Talk (setAttribute
      ((consoleAttribute efiConsoleGray efiConsoleBlack).setWidth 64)) :=
    .call trivial fun x => .ret x
  refine runs_talk hattr h fun _ d' h' => ?_
  exact runs_boot (h'.isPartial h) fun _ => runs_boot (h'.isPartial h) fun _ => .ret h'

/-- From the described mode to the end: the raster, its description, then the devices. -/
theorem runs_drawAndReport (hsi : d.Describes si) (h : d.stores = []) :
    Runs (fun _ d' => d'.Complete) (drawAndReport debug turns si) d := by
  have hrest {d : Drawing} (hsi : d.Describes si) (h : d.stores = []) :
      Runs (fun _ d' => d'.Complete) (drawAndReport false turns si) d := by
    refine (draws_fill hsi h).runs.seq fun _ d1 ⟨hsi, hstores⟩ => ?_
    have hp : d1.Partial := .inr ⟨si, hsi, hstores ▸ List.prefix_refl _⟩
    refine runs_talk talk_uefiInfo hp fun _ d2 h2 => ?_
    refine (draws_text (says_screen si) (h2.isPartial hp)).runs.seq fun _ d3 h3 => ?_
    have hc : d3.Complete := by
      rw [h3]
      exact ⟨si, h2.describes hsi, h2.stores.trans hstores, (List.suffix_append ..).isInfix⟩
    refine (draws_pci hc).runs.seq fun _ d4 h4 => ?_
    have hc := h4.complete hc
    refine runs_talk (talk_lit (by decide)) hc.isPartial fun _ d5 h5 => ?_
    have hc := h5.complete hc
    exact (runs_stallLoop hc.isPartial).post fun _ _ h => h.complete hc
  cases debug with
  | false => exact hrest hsi h
  | true =>
    refine (runs_clearScreen (.inl h)).seq fun _ d' h' => ?_
    exact hrest (h'.describes hsi) (h'.stores.trans h)

theorem runs_exitUndrawn {imghandle : Ptr} {status : Status} (h : d.stores = []) :
    Runs (fun _ d => d.stores = [] ∨ d.Complete) (efiExit debug turns imghandle status) d :=
  (runs_exit (.inl h)).post fun _ _ h' => .inl (h'.stores.trans h)

theorem runs_setUpAndDraw {imghandle : Ptr} (h : d.stores = []) :
    Runs (fun _ d => d.stores = [] ∨ d.Complete) (setUpAndDraw debug turns imghandle) d := by
  unfold setUpAndDraw
  refine (draws_setup h).runs.seq fun ⟨status, si⟩ d ⟨h, hsi⟩ => ?_
  dsimp only
  split
  · exact runs_talk (talk_lit (by decide)) (.inl h) fun _ d' h' =>
      runs_exitUndrawn (h'.stores.trans h)
  · rename_i hok
    exact (runs_drawAndReport (hsi (not_not.mp hok)) h).post fun _ _ => .inr

theorem runs_entry {imghandle : Ptr} : Runs (fun _ d => d.stores = [] ∨ d.Complete)
    (uefistubPeEntry debug turns imghandle) start := by
  unfold uefistubPeEntry
  refine runs_boot (.inl rfl) fun signature => ?_
  split
  · exact runs_exitUndrawn rfl
  refine runs_talk (talk_still still_consoleReset) (.inl rfl) fun _ d1 h1 => ?_
  have h1 : d1.stores = [] := h1.stores
  cases debug with
  | false => exact runs_setUpAndDraw h1
  | true =>
    refine runs_boot (.inl h1) fun _ => ?_
    exact (runs_clearScreen (.inl h1)).seq fun _ d2 h2 =>
      runs_setUpAndDraw (h2.stores.trans h1)

end Entry

end Drawing

/-- **What is drawn.** In every run of the stub, in both builds, the stores to the frame buffer are
the first pixels of the raster that describes the mode read last, in its order. The raster is
complete, and the description printed, before a PCI device is accessed; no run ends in between. -/
theorem uefistubPeEntry_draws {debug : Bool} {turns : Nat} {imghandle : Ptr} {p : Stub Unit}
    {tr : StubTrace} (h : Reach History (uefistubPeEntry debug turns imghandle, []) (p, tr)) :
    (∀ o k, p = .call o k → (Drawing.after (lefts tr)).Allowed o) ∧
      ∀ u, p = .ret u → (Drawing.after (lefts tr)).stores = [] ∨
        (Drawing.after (lefts tr)).Complete :=
  Drawing.runs_entry.history_left.reached h

/-- A mode of one pixel in two rows, up to the second row. -/
def twoRows : StubTrace :=
  let mode : GopMode := ⟨0, 0, ⟨1, 2, 0, ⟨0, 0, 0, 0⟩, 1⟩, 0x80000000⟩
  consoleReady ++ [⟨.inl (.locateHandleBuffer .graphicsOutputProtocol), (efiSuccess, 1, 0x1000)⟩,
    ⟨.inl (.loadHandle 0x1000 0), (0x2000 : Ptr)⟩,
    ⟨.inl (.handleProtocol 0x2000 .graphicsOutputProtocol), (efiSuccess, 0x3000)⟩,
    ⟨.inl (.loadGopMode 0x3000), mode⟩,
    ⟨.inl (.handleProtocol 0x2000 .consoleOutDevice), (efiSuccess, 0)⟩,
    ⟨.inl (.loadGopMode 0x3000), mode⟩,
    ⟨.inl (.loadGopMode 0x3000), mode⟩,
    ⟨.inl (.loadGopMode 0x3000), mode⟩,
    ⟨.inl (.freePool 0x1000), efiSuccess⟩,
    ⟨.inl (.store32 0x80000000 (fillPixel trueColorScreen)), ()⟩]

set_option maxRecDepth 8192 in
theorem uefistubPeEntry_draws_twoRows : ∃ k,
    (∀ o k', (.call (.inl (.store32 0x80000004 (fillPixel trueColorScreen))) k : Stub Unit) =
      .call o k' → (Drawing.after (lefts twoRows)).Allowed o) ∧
    ∀ u, (.call (.inl (.store32 0x80000004 (fillPixel trueColorScreen))) k : Stub Unit) = .ret u →
      (Drawing.after (lefts twoRows)).stores = [] ∨ (Drawing.after (lefts twoRows)).Complete := by
  have hrun : ∃ k, follow twoRows (uefistubPeEntry false 3 1) =
      some (.call (.inl (.store32 0x80000004 (fillPixel trueColorScreen))) k) := ⟨_, rfl⟩
  obtain ⟨k, hrun⟩ := hrun
  exact ⟨k, uefistubPeEntry_draws (reach_follow hrun [])⟩

end UefiStub
