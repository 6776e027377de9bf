import UefiStub.Gop.Calls
import UefiStub.Pci.Calls
import UefiStub.Stub.Basic

/-!
# The calls of the entry point

Apart from `efi_setup_gop`, the fill loop and `efi_setup_pci` the entry point
only talks: it makes calls of the console and reads the system table, none of
them undefined.
-/

namespace UefiStub

open Interact

/-- Prints nothing and does not wait. -/
def Still : Op → Prop
  | .setAttribute _ | .loadConsoleIn | .resetInput _ | .resetOutput _ | .queryTextMode _
  | .setTextMode _ | .loadRevision | .loadFwRevision | .loadFwVendor => True
  | _ => False

def Talk : Op → Prop
  | .outputString _ | .stall _ => True
  | o => Still o

/-- Prints, sets a colour or reads the system table. -/
def Tell : Op → Prop
  | .outputString _ | .setAttribute _ | .loadRevision | .loadFwRevision | .loadFwVendor => True
  | _ => False

theorem talk_still {α : Type} {p : Uefi α} (hp : Only Still p) : Only Talk p :=
  hp.mono fun o ho => by cases o <;> first | exact absurd ho id | trivial

theorem talk_tell {α : Type} {p : Uefi α} (hp : Only Tell p) : Only Talk p :=
  hp.mono fun o ho => by cases o <;> first | exact absurd ho id | trivial

theorem Says.tell {p : Uefi Unit} {l : List U8} (h : Says p l) : Only Tell p :=
  h.only_outputString.mono fun o ho => by
    obtain ⟨string, rfl⟩ := ho
    trivial

theorem Says.talk {p : Uefi Unit} {l : List U8} (h : Says p l) : Only Talk p := talk_tell h.tell

theorem tell_lit {s : String} (h : AsciiString s) : Only Tell (efiPuts (lit s)) :=
  (Says.lit h).tell

theorem talk_lit {s : String} (h : AsciiString s) : Only Talk (efiPuts (lit s)) :=
  (Says.lit h).talk

/-- The loop only queries. -/
theorem only_textModeLoop {P : Op → Prop} (hquery : ∀ mode, P (.queryTextMode mode)) (n : Nat)
    (i : U64) (held : TextMode) : Only P (textModeLoop n i held) := by
  induction n generalizing i held with
  | zero => exact .ret _
  | succ n ih =>
    unfold textModeLoop
    refine .op_bind (hquery _) fun x => ?_
    obtain ⟨status, columns, rows⟩ := x
    dsimp only
    split
    · exact ih _ _
    · exact ih _ _

theorem still_consoleReset : Only Still efiConsoleReset :=
  .op_bind trivial fun _ => .op_bind trivial fun _ => .op_bind trivial fun _ =>
    (only_textModeLoop (fun _ => trivial) _ _ _).bind fun _ => .op_bind trivial fun _ => .ret _

theorem tell_color (color : U32) : Only Tell (efiConsoleColor color) :=
  .op_bind trivial fun _ => .ret _

theorem tell_uefiInfo : Only Tell printUefiInfo := by
  have hlf := @tell_lit "\n" (by decide)
  have hdot := @tell_lit "." (by decide)
  have hputd (value : U64) : Only Tell (efiPutd value) := (Says.putd value).tell
  unfold printUefiInfo
  refine .op_bind trivial fun uefirev => .op_bind trivial fun _ => .op_bind trivial fun _ => ?_
  refine (tell_lit (by decide)).bind fun _ => (tell_color _).bind fun _ => (hputd _).bind fun _ =>
    hdot.bind fun _ => (hputd _).bind fun _ => hdot.bind fun _ => (hputd _).bind fun _ =>
    (tell_color _).bind fun _ => hlf.bind fun _ => ?_
  refine (tell_lit (by decide)).bind fun _ => (tell_color _).bind fun _ => ?_
  refine .op_bind trivial fun _ => .op_bind trivial fun _ => ?_
  exact (tell_color _).bind fun _ => hlf.bind fun _ => (tell_lit (by decide)).bind fun _ =>
    (tell_color _).bind fun _ => (hputd _).bind fun _ => hdot.bind fun _ => (hputd _).bind fun _ =>
    (tell_color _).bind fun _ => hlf

theorem talk_uefiInfo : Only Talk printUefiInfo := talk_tell tell_uefiInfo

/-! ## The lines about the screen -/

/-- A channel: its size and its position. -/
def channelText (name : String) (size pos : U8) (stop : String) : List U8 :=
  octets name ++ (numeral 10 size.toNat ++ (octets "-" ++ (numeral 10 pos.toNat ++ octets stop)))

/-- The base address, in at least eight places. -/
def baseText (base : U64) : List U8 :=
  List.replicate (8 - (numeral 16 base.toNat).length) 48 ++ numeral 16 base.toNat

def screenText (si : ScreenInfo) : List U8 :=
  octets "Resolution: " ++ (numeral 10 si.lfbWidth.toNat ++ (octets "x" ++
    (numeral 10 si.lfbHeight.toNat ++ (octets ":" ++ (numeral 10 si.lfbDepth.toNat ++
      (octets "\n" ++ (channelText "R:" si.redSize si.redPos " " ++
        (channelText "G:" si.greenSize si.greenPos " " ++
          (channelText "B:" si.blueSize si.bluePos "\n" ++
            (octets "Frame buffer address: 0x" ++ (baseText si.lfbBase ++ (octets "\n" ++
              (octets "Frame buffer size: " ++ (sizeText (scaled (si.lfbSize.setWidth 64)).1
                (scaled (si.lfbSize.setWidth 64)).2 ++ octets "\n"))))))))))))))

theorem says_wide {w : Nat} (hw : w ≤ 64) (value : BitVec w) :
    Says (efiPutd (value.setWidth 64)) (numeral 10 value.toNat) := by
  have h := Says.putd (value.setWidth 64)
  rwa [BitVec.toNat_setWidth_of_le hw] at h

theorem says_screen (si : ScreenInfo) : Says (printScreen si) (screenText si) := by
  have hchannel (name stop : String) (hname : AsciiString name) (hstop : AsciiString stop)
      (size pos : U8) {p : Uefi Unit} {l : List U8} (hp : Says p l) : Says (do
        efiPuts (lit name)
        efiPutd (size.setWidth 64)
        efiPuts (lit "-")
        efiPutd (pos.setWidth 64)
        efiPuts (lit stop)
        p) (channelText name size pos stop ++ l) := by
    have h := (Says.lit hname).bind ((says_wide (by decide) size).bind
      ((@Says.lit "-" (by decide)).bind ((says_wide (by decide) pos).bind
        ((Says.lit hstop).bind hp))))
    simp only [channelText, List.append_assoc]
    exact h
  have hbase : Says (efiPut0h si.lfbBase 8) (baseText si.lfbBase) := Says.put0h _ (by decide)
  have hlf := @Says.lit "\n" (by decide)
  exact (@Says.lit "Resolution: " (by decide)).bind ((says_wide (by decide) si.lfbWidth).bind
    ((@Says.lit "x" (by decide)).bind ((says_wide (by decide) si.lfbHeight).bind
      ((@Says.lit ":" (by decide)).bind ((says_wide (by decide) si.lfbDepth).bind (hlf.bind
        (hchannel "R:" " " (by decide) (by decide) si.redSize si.redPos
          (hchannel "G:" " " (by decide) (by decide) si.greenSize si.greenPos
            (hchannel "B:" "\n" (by decide) (by decide) si.blueSize si.bluePos
              ((@Says.lit "Frame buffer address: 0x" (by decide)).bind (hbase.bind (hlf.bind
                ((@Says.lit "Frame buffer size: " (by decide)).bind
                  ((says_size _).bind hlf))))))))))))))

theorem talk_screen (si : ScreenInfo) : Only Talk (printScreen si) := (says_screen si).talk

/-- A run up to `efi_setup_gop`, on a console with one text mode. -/
def consoleReady : StubTrace :=
  [⟨.inr .loadSignature, efiSystemTableSignature⟩,
    ⟨.inl .loadConsoleIn, (0x5000 : Ptr)⟩,
    ⟨.inl (.resetInput 0x5000), efiSuccess⟩,
    ⟨.inl (.resetOutput 0), efiSuccess⟩] ++
  (List.range 63).map (fun i => ⟨.inl (.queryTextMode (BitVec.ofNat 64 (i + 1))),
    (efiDeviceError, none, none)⟩) ++
  [⟨.inl (.setTextMode 0), efiSuccess⟩]

end UefiStub
