import UefiStub.Pci.Bracket
import UefiStub.Pci.Calls
import UefiStub.Pci.Listing
import UefiStub.Pci.Sizing

/-!
# The devices of a bus

`PciBus` is firmware with any number of handles and a device behind each
interface pointer, none of whose accesses fails. `efi_setup_pci` prints the
reports of the devices in the order of their handles and leaves the devices as
it found them, as far as a report depends on them; an interface that two handles
have is reported twice, with the same report.
-/

namespace UefiStub

open Interact

/-- A report of one is a report of the other. -/
structure SameReport (f g : Config) : Prop where
  regs : ∀ r, reg g r = reg f r
  header : g 0x0e = f 0x0e
  pciClass : g.pciClass = f.pciClass

theorem SameReport.refl (f : Config) : SameReport f f := ⟨fun _ => rfl, rfl, rfl⟩

theorem SameReport.trans {f g h : Config} (hfg : SameReport f g) (hgh : SameReport g h) :
    SameReport f h where
  regs r := (hgh.regs r).trans (hfg.regs r)
  header := hgh.header.trans hfg.header
  pciClass := hgh.pciClass.trans hfg.pciClass

theorem SameReport.normalHeader {f g : Config} (h : SameReport f g) :
    NormalHeader g ↔ NormalHeader f := by
  unfold NormalHeader
  rw [h.header]

theorem NormalHeader.of_read {config : Config}
    (h : config.read .uint8 pciHeaderType 0 &&& pciHeaderTypeMask = pciHeaderTypeNormal) :
    NormalHeader config := by
  change RegFile.fetch config 14 1 0 &&& (0x7f : U8).setWidth 64 = 0 at h
  rw [RegFile.fetch_byte, ← BitVec.setWidth_and] at h
  have hlow := congrArg (BitVec.setWidth 8) h
  rwa [BitVec.setWidth_setWidth_of_le _ (by decide), BitVec.setWidth_eq] at hlow

theorem Config.pciClass_congr {f g : Config} (h : ∀ i, 8 ≤ i → i < 12 → g i = f i) :
    g.pciClass = f.pciClass := by
  have hread : RegFile.fetch g 8 4 0 = RegFile.fetch f 8 4 0 :=
    RegFile.fetch_congr 0 fun i hi => h (8 + i) (by omega) (by omega)
  unfold Config.pciClass
  exact congrArg (fun v : U64 => (v >>> 16).setWidth 16) hread

/-! ## One device -/

namespace PciDevice

/-- What the report of a device says. -/
def summary (dev : PciDevice) (config : Config) : DeviceLine × List Bar where
  fst := dev.line config
  snd := if NormalHeader config then found dev (.start config) 7 0 else []

variable {dev : PciDevice} {pci : Ptr} {s s' : PciRun}

/-- A write to COMMAND or to a base address register. -/
def SparesHeader : Op → Prop
  | .pciWrite _ .uint16 offset _ => offset = pciCommand
  | .pciWrite _ .uint32 offset _ => 0x10 ≤ offset.toNat
  | .pciWrite _ .uint8 _ _ => False
  | _ => True

theorem sparesHeader_printDeviceInfo (pci : Ptr) : Only SparesHeader (printDeviceInfo pci) := by
  have hsafe := @Bracket.safe_printDeviceInfo pci Bracket.start rfl
  refine hsafe.to_only fun b o ho => ?_
  cases o with
  | pciWrite pci width offset buffer => cases width with
    | uint8 => exact ho
    | uint16 => exact ho.1
    | uint32 => exact ho.2.2
  | _ => trivial

/-- Only a write changes the configuration space. -/
theorem config_of_handler {o : Op} {x : o.Ans} (h : dev.handler o s = some (x, s')) :
    s'.config = s.config ∨ ∃ pci width offset buffer, o = .pciWrite pci width offset buffer ∧
      s'.config = s.config.write dev.mask width offset buffer := by
  unfold handler at h
  split at h
  · cases h
    exact .inl rfl
  · cases h
    exact .inl rfl
  · split at h
    · cases h
      exact .inl rfl
    · cases h
      exact .inl rfl
  · cases h
    exact .inl rfl
  · cases h
    exact .inr ⟨_, _, _, _, rfl, rfl⟩
  · cases h

/-- The bytes from the class on are those of the start. -/
theorem run_header {α : Type} {p : Uefi α} (hp : Only SparesHeader p) {a : α}
    (h : run dev.handler p s = some (a, s')) {i : Nat} (hi : 6 ≤ i) (hi' : i < 16) :
    s'.config i = s.config i := by
  refine hp.run_frame (fun s => s.config i) (fun o s x s' ho hH => ?_) h
  obtain hsame | ⟨pci, width, offset, buffer, rfl, hwrite⟩ := config_of_handler hH
  · exact congrFun hsame i
  refine (congrFun hwrite i).trans ?_
  cases width with
  | uint8 => exact absurd ho id
  | uint16 =>
    obtain rfl : offset = pciCommand := ho
    exact Config.write_out _ (.inr hi)
  | uint32 => exact Config.write_out _ (.inl (Nat.lt_of_lt_of_le hi' ho))

/-- Of a device with another header only the line of the device is printed. -/
theorem run_printDeviceInfo_bridge {pci : Ptr} (h : ¬NormalHeader s.config) :
    run dev.handler (printDeviceInfo pci) s = run dev.handler (do
        printDevice dev.segment dev.bus dev.device dev.function s.config.pciClass
        return efiSuccess) (s.bump pciClassRevision.toNat) := by
  have hok : ¬efiSuccess ≠ efiSuccess := fun h => h rfl
  have hclass : ¬pciBaseAddress0 ≤ pciClassRevision.toNat := by decide
  have hnormal : s.config.read .uint8 pciHeaderType 0 &&& pciHeaderTypeMask ≠
    pciHeaderTypeNormal := fun hn => h (.of_read hn)
  simp only [printDeviceInfo, Prog.op_bind, run_call, handler, Option.bind_some,
    if_neg hok, hclass, false_and, if_false, if_pos hnormal]
  rfl

/-! ## A device without failing accesses -/

section Sound

variable (hf : ∀ off n, dev.fails off n = false)
include hf

theorem found_congr {t : PciRun} (h : ∀ r, reg t.config r = reg s.config r) (fuel idx : Nat) :
    found dev t fuel idx = found dev s fuel idx := by
  induction fuel generalizing idx with
  | zero => rfl
  | succ fuel ih =>
    unfold found
    rw [turn_congr hf h, ih]

theorem summary_congr {f g : Config} (h : SameReport f g) : dev.summary g = dev.summary f := by
  have hfound : found dev (.start g) 7 0 = found dev (.start f) 7 0 :=
    found_congr hf (s := .start f) (t := .start g) h.regs 7 0
  unfold summary line
  rw [h.pciClass, hfound]
  simp only [h.normalHeader]

/-- The loop prints the entries and leaves the registers as they were. -/
theorem run_barLoop_says (pci : Ptr) (command : U64) (fuel idx : Nat) (hpos : 0 < fuel)
    (hfuel : 6 < fuel + idx) (s : PciRun) :
    ∃ t, run dev.handler (barLoop pci command fuel idx) s = some ((), t) ∧
      t.out.flatten = s.out.flatten ++
        asciiUnits ((found dev s fuel idx).map barText).flatten ∧
      ∀ r, reg t.config r = reg s.config r := by
  induction fuel generalizing idx s with
  | zero => exact absurd hpos (Nat.lt_irrefl 0)
  | succ fuel ih =>
    by_cases hidx : idx < 6
    · have hle := (turn_snd dev s idx).1
      obtain ⟨s1, hprobed, hrun⟩ := @run_barBody dev Unit pci s command idx hidx
      have hreg := hprobed.reg_eq hf
      have hsays := says_bars ((turn dev s idx).1.filter (·.fullSize > 0)).toList
      rw [← report_eq] at hsays
      obtain ⟨chunks, hsend, hflat⟩ := hsays.streams
      obtain ⟨t, ht, hout, hreg'⟩ := ih ((turn dev s idx).2 + 1) (by omega) (by omega)
        { s1 with out := s1.out ++ chunks }
      rw [found_congr hf (s := s) (t := { s1 with out := s1.out ++ chunks }) hreg,
        List.flatten_append, hflat, hprobed.out] at hout
      refine ⟨t, ?_, ?_, fun r => (hreg' r).trans (hreg r)⟩
      · rw [barLoop, if_pos hidx, hrun, run_bind_of _ (run_sends hsend s1), ht]
      · rw [hout, List.append_assoc, ← asciiUnits_append, found_succ hidx, List.map_append,
          List.flatten_append]
    · refine ⟨s, ?_, ?_, fun r => rfl⟩
      · rw [barLoop, if_neg hidx]
        rfl
      · rw [found, if_neg hidx]
        exact (List.append_nil _).symm

/-- **A run on one device** prints its report and keeps it. -/
theorem run_printDeviceInfo_summary (pci : Ptr) (s : PciRun) :
    ∃ t, run dev.handler (printDeviceInfo pci) s = some (efiSuccess, t) ∧
      t.out.flatten = s.out.flatten ++ asciiUnits (summaryText (dev.summary s.config)) ∧
      SameReport s.config t.config := by
  have hline := says_device (dev.line s.config)
  obtain ⟨chunks, hsend, hflat⟩ := hline.streams
  have hreport : ∃ t, run dev.handler (printDeviceInfo pci) s = some (efiSuccess, t) ∧
      t.out.flatten = s.out.flatten ++ asciiUnits (summaryText (dev.summary s.config)) ∧
      ∀ r, reg t.config r = reg s.config r := by
    by_cases hn : NormalHeader s.config
    · obtain ⟨t, ht, hout, hreg⟩ := run_barLoop_says hf pci (s.config.read .uint16 pciCommand 0)
        7 0 (by omega) (by omega)
        { s.bump pciClassRevision.toNat with out := s.out ++ chunks }
      refine ⟨t, ?_, ?_, hreg⟩
      · rw [run_printDeviceInfo hn]
        exact (run_bind_of _ (run_sends hsend _)).trans (run_bind_of _ ht)
      · have hfound : found dev { s.bump pciClassRevision.toNat with out := s.out ++ chunks } 7 0 =
            found dev (.start s.config) 7 0 :=
          found_congr hf (s := .start s.config)
            (t := { s.bump pciClassRevision.toNat with out := s.out ++ chunks }) (fun _ => rfl) 7 0
        rw [hout, hfound, List.flatten_append, hflat, List.append_assoc, ← asciiUnits_append,
          summaryText, summary, if_pos hn]
    · refine ⟨{ s.bump pciClassRevision.toNat with out := s.out ++ chunks }, ?_, ?_, fun r => rfl⟩
      · rw [run_printDeviceInfo_bridge hn]
        exact run_bind_of _ (run_sends hsend _)
      · rw [List.flatten_append, hflat, summaryText, summary, if_neg hn]
        exact congrArg (_ ++ asciiUnits ·) (List.append_nil _).symm
  obtain ⟨t, ht, hout, hreg⟩ := hreport
  have hbyte {i : Nat} := run_header (sparesHeader_printDeviceInfo pci) ht (i := i)
  exact ⟨t, ht, hout, hreg, hbyte (by omega) (by omega),
    Config.pciClass_congr fun i _ _ => hbyte (by omega) (by omega)⟩

end Sound

end PciDevice

/-! ## The bus -/

/-- The handles, their interfaces and the devices behind these. -/
structure PciBus where
  numHandles : U64
  handles : Ptr
  handle : U64 → Ptr
  interface : Ptr → Option Ptr
  device : Ptr → PciDevice

/-- The states of the devices, and what was printed. -/
structure BusRun where
  config : Ptr → Config
  reads : Ptr → Nat → Nat
  out : List (List U16)

namespace BusRun

def start (config : Ptr → Config) : BusRun := ⟨config, fun _ _ => 0, []⟩

/-- The state as one device sees it. -/
def view (s : BusRun) (pci : Ptr) : PciRun := ⟨s.config pci, s.reads pci, s.out⟩

def put (s : BusRun) (pci : Ptr) (r : PciRun) : BusRun where
  config := Function.update s.config pci r.config
  reads := Function.update s.reads pci r.reads
  out := r.out

@[simp] theorem view_put (s : BusRun) (pci : Ptr) (r : PciRun) : (s.put pci r).view pci = r := by
  simp only [view, put, Function.update_self]

@[simp] theorem put_put (s : BusRun) (pci : Ptr) (r r' : PciRun) :
    (s.put pci r).put pci r' = s.put pci r' := by
  simp only [put, Function.update_idem]

@[simp] theorem put_view (s : BusRun) (pci : Ptr) : s.put pci (s.view pci) = s := by
  simp only [put, view, Function.update_eq_self]

theorem sameReport_put (s : BusRun) {pci : Ptr} {r : PciRun}
    (h : SameReport (s.config pci) r.config) (p : Ptr) :
    SameReport (s.config p) ((s.put pci r).config p) := by
  change SameReport (s.config p) (Function.update s.config pci r.config p)
  by_cases hp : p = pci
  · subst hp
    rw [Function.update_self]
    exact h
  · rw [Function.update_of_ne hp]
    exact .refl _

end BusRun

namespace PciBus

/-- An access is answered by the device at its interface. -/
def handler (bus : PciBus) : Handler Op Op.Ans BusRun
  | .locateHandleBuffer .pciIoProtocol, s =>
    some ((efiSuccess, bus.numHandles, bus.handles), s)
  | .loadHandle handles i, s =>
    if handles = bus.handles ∧ i < bus.numHandles then some (bus.handle i, s) else none
  | .handleProtocol handle .pciIoProtocol, s => match bus.interface handle with
    | some pci => some ((efiSuccess, pci), s)
    | none => some ((efiUnsupported, 0), s)
  | .freePool _, s => some (efiSuccess, s)
  | .outputString u, s => some (efiSuccess, { s with out := s.out ++ [u] })
  | .pciGetLocation pci, s =>
    ((bus.device pci).handler (.pciGetLocation pci) (s.view pci)).map fun x => (x.1, s.put pci x.2)
  | .pciRead pci width offset buffer, s =>
    ((bus.device pci).handler (.pciRead pci width offset buffer) (s.view pci)).map
      fun x => (x.1, s.put pci x.2)
  | .pciWrite pci width offset buffer, s =>
    ((bus.device pci).handler (.pciWrite pci width offset buffer) (s.view pci)).map
      fun x => (x.1, s.put pci x.2)
  | _, _ => none

/-- The interfaces of the handles from `i` on, with `n` of them left. -/
def interfacesFrom (bus : PciBus) (i n : Nat) : List Ptr :=
  (List.range' i n).filterMap fun i => bus.interface (bus.handle (BitVec.ofNat 64 i))

def interfaces (bus : PciBus) : List Ptr := bus.interfacesFrom 0 bus.numHandles.toNat

/-- What the listing of the bus says. -/
def inventory (bus : PciBus) (config : Ptr → Config) : Inventory :=
  bus.interfaces.map fun pci => (bus.device pci).summary (config pci)

variable {bus : PciBus}

/-- A run that accesses one device is a run on that device. -/
theorem run_device {α : Type} {pci : Ptr} {p : Uefi α} (hp : Only (DeviceCall pci) p) {s : BusRun}
    {a : α} {r : PciRun} (h : run (bus.device pci).handler p (s.view pci) = some (a, r)) :
    run bus.handler p s = some (a, s.put pci r) := by
  refine hp.run_part (BusRun.view · pci) (BusRun.put · pci) (fun s => s.view_put pci)
    (fun s => s.put_put pci) (fun s => s.put_view pci) (fun o s x r ho hH => ?_) h
  cases o with
  | outputString u =>
    cases hH
    change some (efiSuccess, { s with out := s.out ++ [u] }) =
      some (efiSuccess, s.put pci { s.view pci with out := s.out ++ [u] })
    rw [BusRun.put]
    simp only [BusRun.view, Function.update_eq_self]
  | pciGetLocation pci' =>
    cases ho
    exact congrArg (Option.map fun x => (x.1, s.put pci x.2)) hH
  | pciRead pci' width offset buffer =>
    cases ho
    exact congrArg (Option.map fun x => (x.1, s.put pci x.2)) hH
  | pciWrite pci' width offset buffer =>
    cases ho
    exact congrArg (Option.map fun x => (x.1, s.put pci x.2)) hH
  | ub => exact x.elim
  | _ => exact absurd ho id

section Sound

variable (hf : ∀ pci off n, (bus.device pci).fails off n = false)
include hf

/-- **The loop** prints the reports of the handles that are left. -/
theorem run_pciHandleLoop (n i : Nat) (h : i + n = bus.numHandles.toNat) (s : BusRun) :
    ∃ t, run bus.handler (pciHandleLoop bus.handles n (BitVec.ofNat 64 i)) s = some ((), t) ∧
      t.out.flatten = s.out.flatten ++ asciiUnits (listingText
        ((bus.interfacesFrom i n).map fun pci => (bus.device pci).summary (s.config pci))) ∧
      ∀ pci, SameReport (s.config pci) (t.config pci) := by
  induction n generalizing i s with
  | zero => exact ⟨s, rfl, (List.append_nil _).symm, fun pci => .refl _⟩
  | succ n ih =>
    have hi : (BitVec.ofNat 64 i).toNat = i := toNat_ofNat_lt (by omega)
    have hlt : BitVec.ofNat 64 i < bus.numHandles := by rw [BitVec.lt_def, hi]; omega
    have hnext : BitVec.ofNat 64 i + 1 = BitVec.ofNat 64 (i + 1) := (BitVec.ofNat_add ..).symm
    have hinter : bus.interfacesFrom i (n + 1) =
        (bus.interface (bus.handle (BitVec.ofNat 64 i))).toList ++
          bus.interfacesFrom (i + 1) n := by
      unfold interfacesFrom
      rw [List.range'_succ, List.filterMap_cons]
      cases bus.interface (bus.handle (BitVec.ofNat 64 i)) <;> rfl
    have hload (k : Ptr → Uefi Unit) :
        run bus.handler (Prog.op (.loadHandle bus.handles (BitVec.ofNat 64 i)) >>= k) s =
          run bus.handler (k (bus.handle (BitVec.ofNat 64 i))) s := by
      rw [Prog.op_bind, run_call, handler, if_pos ⟨rfl, hlt⟩, Option.bind_some]
    rw [pciHandleLoop, hload, hinter]
    cases hp : bus.interface (bus.handle (BitVec.ofNat 64 i)) with
    | none =>
      obtain ⟨t, ht, hout, hsame⟩ := ih (i + 1) (by omega) s
      refine ⟨t, ?_, hout, hsame⟩
      rw [Prog.op_bind, run_call, handler, hp, Option.bind_some]
      dsimp only
      rw [if_pos (by decide), hnext, ht]
    | some pci =>
      obtain ⟨r, hr, hline, hkeep⟩ :=
        (bus.device pci).run_printDeviceInfo_summary (hf pci) pci (s.view pci)
      have hdevice : run bus.handler (printDeviceInfo pci) s = some (efiSuccess, s.put pci r) :=
        run_device (device_printDeviceInfo pci) hr
      have hput := s.sameReport_put hkeep
      obtain ⟨t, ht, hout, hsame⟩ := ih (i + 1) (by omega) (s.put pci r)
      refine ⟨t, ?_, ?_, fun p => (hput p).trans (hsame p)⟩
      · rw [Prog.op_bind, run_call, handler, hp, Option.bind_some]
        dsimp only
        rw [if_neg (by decide), run_bind_of _ hdevice, hnext, ht]
      · have hrest : ((bus.interfacesFrom (i + 1) n).map fun p =>
            (bus.device p).summary ((s.put pci r).config p)) =
            (bus.interfacesFrom (i + 1) n).map fun p => (bus.device p).summary (s.config p) :=
          List.map_congr_left fun p _ => PciDevice.summary_congr (hf p) (hput p)
        rw [hout, hrest, show (s.put pci r).out = r.out from rfl, hline, List.append_assoc,
          ← asciiUnits_append, Option.toList_some, List.singleton_append, List.map_cons,
          listingText_cons]
        rfl

/-- **A run on the bus** prints its inventory and keeps it. -/
theorem run_efiSetupPci (s : BusRun) :
    ∃ t, run bus.handler efiSetupPci s = some (efiSuccess, t) ∧
      t.out.flatten = s.out.flatten ++ asciiUnits (listingText (bus.inventory s.config)) ∧
      ∀ pci, SameReport (s.config pci) (t.config pci) := by
  obtain ⟨t, ht, hout, hsame⟩ := run_pciHandleLoop hf bus.numHandles.toNat 0 (Nat.zero_add _) s
  refine ⟨t, ?_, hout, hsame⟩
  rw [efiSetupPci, Prog.op_bind, run_call, handler, Option.bind_some]
  dsimp only
  rw [if_neg (by decide)]
  refine (run_bind_of _ ht).trans ?_
  unfold efiFreeBuffer
  split <;> rfl

end Sound

/-- A handle without the protocol between a bridge and the network card. -/
def cardBus : PciBus where
  numHandles := 3
  handles := 0x1000
  handle i := i + 1
  interface handle := if handle = 2 then none else if handle = 1 then some 0x11 else some 0x13
  device pci := ⟨0, 0, if pci = 0x11 then 0 else 3, 0, PciDevice.cardMask, fun _ _ => false⟩

/-- A bridge has header type 1, the card class 0x0200. -/
def cardBusConfig (pci : Ptr) : Config := fun a =>
  if pci = 0x11 then [0x00, 0x00, 0x04, 0x06, 0x00, 0x00, 0x01].getD (a - 0x08) 0
  else if a = 0x0b then 0x02 else PciDevice.cardConfig a

/-- The registers of the devices with a normal header are laid out so. -/
def Layouts (bus : PciBus) (config : Ptr → Config) (units : Ptr → List BarUnit) : Prop :=
  ∀ pci ∈ bus.interfaces, NormalHeader (config pci) →
    HasLayout (bus.device pci).mask (config pci) (units pci)

/-- The devices in the order of their handles, each with its windows. -/
def contents (bus : PciBus) (config : Ptr → Config) (units : Ptr → List BarUnit) : Inventory :=
  bus.interfaces.map fun pci => ((bus.device pci).line (config pci),
    if NormalHeader (config pci) then entries 0 (units pci) else [])

/-- What is printed reads back as the contents. -/
theorem readListing_inventory (hf : ∀ pci off n, (bus.device pci).fails off n = false)
    {config : Ptr → Config} {units : Ptr → List BarUnit} (hl : bus.Layouts config units) :
    readListing (listingText (bus.inventory config)) = some (bus.contents config units) := by
  have hfound : ∀ pci ∈ bus.interfaces, NormalHeader (config pci) →
      (bus.device pci).found (.start (config pci)) 7 0 = entries 0 (units pci) :=
    fun pci hpci hn => PciDevice.found_units (hf pci) (by omega) (by omega) (hl pci hpci hn)
  have hinv : bus.inventory config = bus.contents config units := by
    refine List.map_congr_left fun pci hpci => ?_
    unfold PciDevice.summary
    split
    · rename_i hn
      rw [hfound pci hpci hn]
    · rfl
  have hlegible : ∀ x ∈ bus.inventory config, ∀ b ∈ x.2, b.Legible := by
    intro x hx b hb
    obtain ⟨pci, hpci, rfl⟩ := List.mem_map.mp hx
    unfold PciDevice.summary at hb
    split at hb
    · rename_i hn
      rw [hfound pci hpci hn] at hb
      exact PciDevice.legible_entries (hl pci hpci hn) b hb
    · cases hb
  rw [readListing_listingText hlegible, hinv]

/-- **The listing** that a run on a bus prints reads back as the devices in the order of their
handles, each with its windows, and the run keeps what it reports. -/
theorem efiSetupPci_listing (hf : ∀ pci off n, (bus.device pci).fails off n = false)
    {config : Ptr → Config} {units : Ptr → List BarUnit} (hl : bus.Layouts config units) :
    ∃ t, run bus.handler efiSetupPci (.start config) = some (efiSuccess, t) ∧
      readListing (unitOctets t.out.flatten) = some (bus.contents config units) ∧
      ∀ pci, SameReport (config pci) (t.config pci) := by
  obtain ⟨t, ht, hout, hsame⟩ := run_efiSetupPci hf (.start config)
  refine ⟨t, ht, ?_, hsame⟩
  rw [hout]
  change readListing (unitOctets ([] ++ asciiUnits (listingText (bus.inventory config)))) = _
  rw [List.nil_append, unitOctets_asciiUnits (ascii_listingText _), readListing_inventory hf hl]

theorem interfaces_cardBus : cardBus.interfaces = [0x11, 0x13] := by decide

theorem layouts_cardBus : cardBus.Layouts cardBusConfig fun _ => PciDevice.cardUnits := by
  have hlayout : HasLayout PciDevice.cardMask (cardBusConfig 0x13) PciDevice.cardUnits := by decide
  intro pci hpci hn
  rw [interfaces_cardBus] at hpci
  obtain rfl | rfl : pci = 0x11 ∨ pci = 0x13 := by simpa using hpci
  · exact absurd hn (by decide)
  · exact hlayout

theorem contents_cardBus : cardBus.contents cardBusConfig (fun _ => PciDevice.cardUnits) =
    [(⟨0, 0, 0, 0, 0x0604⟩, []), (⟨0, 0, 3, 0, 0x0200⟩,
      [⟨0, true, false, false, 0xfebf1000, 0x1000⟩, ⟨1, false, false, false, 0xc020, 0x20⟩,
        ⟨2, true, true, true, 0x800004000, 0x4000⟩])] := by
  rw [contents, interfaces_cardBus]
  decide

theorem efiSetupPci_listing_card :
    ∃ t, run cardBus.handler efiSetupPci (.start cardBusConfig) = some (efiSuccess, t) ∧
      readListing (unitOctets t.out.flatten) = some
        [(⟨0, 0, 0, 0, 0x0604⟩, []), (⟨0, 0, 3, 0, 0x0200⟩,
          [⟨0, true, false, false, 0xfebf1000, 0x1000⟩, ⟨1, false, false, false, 0xc020, 0x20⟩,
            ⟨2, true, true, true, 0x800004000, 0x4000⟩])] ∧
      ∀ pci, SameReport (cardBusConfig pci) (t.config pci) := by
  obtain ⟨t, ht, hread, hsame⟩ := @efiSetupPci_listing cardBus (fun _ _ _ => rfl) cardBusConfig
    (fun _ => PciDevice.cardUnits) layouts_cardBus
  exact ⟨t, ht, hread.trans (congrArg some contents_cardBus), hsame⟩

end PciBus

end UefiStub
