import UefiStub.Lib.History
import UefiStub.Pci.Probe

/-!
# Where sizing writes

A run may write to COMMAND and to the six base address registers, and to no
other place of configuration space (`Contained`). The loop takes the register
after one that reads back as 64-bit memory for its upper half, also after the
last: then it probes offset `0x28`. Whatever a device answers, a run in which
the last register does not read back so when it is sized on its own stays inside
(`printDeviceInfo_contained`).
-/

namespace UefiStub

open Interact

/-- The call is defined, and if it is a write it goes to COMMAND or to a base address register. -/
def Contained (pci : Ptr) : Op → Prop
  | .pciWrite pci' width offset _ => pci' = pci ∧
    (width = .uint16 ∧ offset = pciCommand ∨
      width = .uint32 ∧ ∃ r < 6, offset.toNat = barOffset r)
  | .ub => False
  | _ => True

/-- The history ends with a turn's first read of a register, decoding disabled. -/
def Saved (pci : Ptr) (offset : U64) (baseAddr : U32) (tr : List (Event Op Op.Ans)) : Prop :=
  ∃ (tr' : List (Event Op Op.Ans)) (command : U64) (status : Status) (value : U64),
    value.setWidth 32 = baseAddr ∧
    tr = tr' ++ [⟨.pciWrite pci .uint16 pciCommand command, efiSuccess⟩,
      ⟨.pciRead pci .uint32 offset (~~~0), (status, value)⟩]

/-- The register was read as a memory register in this turn, and all ones were written to it. -/
def Sizing (pci : Ptr) (offset : U64) (tr : List (Event Op Op.Ans)) : Prop :=
  ∃ (tr' : List (Event Op Op.Ans)) (baseAddr : U32) (status : Status),
    Saved pci offset baseAddr tr' ∧ baseAddr &&& pciBaseAddressSpace ≠ pciBaseAddressSpaceIo ∧
    tr = tr' ++ [⟨.pciWrite pci .uint32 offset 0xffffffff, status⟩]

/-- The last register does not read back as 64-bit memory when it is sized. -/
def LastNot64 (pci : Ptr) (tr : List (Event Op Op.Ans)) : (o : Op) → o.Ans → Prop
  | .pciRead _ .uint32 offset _, (_, value) =>
    offset.toNat = barOffset 5 → Sizing pci offset tr →
      value.setWidth 32 &&& pciBaseAddressMemTypeMask ≠ pciBaseAddressMemType64
  | _, _ => True

/-! ## The calls -/

section Calls

variable {pci : Ptr} {r : Nat} {tr : List (Event Op Op.Ans)} {α : Type}
  {A : List (Event Op Op.Ans) → (o : Op) → o.Ans → Prop}
  {Q : α → List (Event Op Op.Ans) → Prop}

theorem contained_command (v : U64) : Contained pci (.pciWrite pci .uint16 pciCommand v) :=
  ⟨rfl, .inl ⟨rfl, rfl⟩⟩

theorem contained_bar {offset : U16} (ho : offset.toNat = barOffset r) (hr : r < 6) (v : U64) :
    Contained pci (.pciWrite pci .uint32 (offset.setWidth 64) v) :=
  ⟨rfl, .inr ⟨rfl, r, hr, (BitVec.toNat_setWidth_of_le (by decide)).trans ho⟩⟩

/-- Printing writes nothing. -/
theorem safe_prints {p : Uefi Unit} (hp : Prints p) :
    Safe (Recorded A) (fun _ => Contained pci) (fun _ _ => True) p tr := by
  obtain ⟨chunks, rfl⟩ := hp
  have hout : ∀ o ∈ chunks.map Op.outputString, Contained pci o := by
    intro o ho
    obtain ⟨u, -, rfl⟩ := List.mem_map.mp ho
    trivial
  exact .of_only (.calls hout) fun _ _ h => h

theorem safe_read32 {offset : U16} {k : U32 → Uefi α}
    (hk : ∀ status value,
      A tr (.pciRead pci .uint32 (offset.setWidth 64) (~~~0)) (status, value) →
      Safe (Recorded A) (fun _ => Contained pci) Q (k (value.setWidth 32))
        (tr ++ [⟨.pciRead pci .uint32 (offset.setWidth 64) (~~~0), (status, value)⟩])) :
    Safe (Recorded A) (fun _ => Contained pci) Q (efiPciCfgRead32 pci offset >>= k) tr :=
  .record trivial fun ⟨status, value⟩ hA => hk status value hA

/-- The probe of a register, and what was read back from it. -/
theorem safe_probe32 {offset : U16} (ho : offset.toNat = barOffset r) (hr : r < 6)
    (baseAddr : U32) : Safe (Recorded A) (fun _ => Contained pci)
      (fun size _ => ∃ status' status value, size = value.setWidth 32 ∧
        A (tr ++ [⟨.pciWrite pci .uint32 (offset.setWidth 64) 0xffffffff, status'⟩])
          (.pciRead pci .uint32 (offset.setWidth 64) (~~~0)) (status, value))
      (probe32 pci offset baseAddr) tr := by
  unfold probe32
  refine .record (contained_bar ho hr _) fun status' _ => ?_
  refine safe_read32 fun status value hA => ?_
  refine .record (contained_bar ho hr _) fun _ _ => ?_
  exact .ret ⟨status', status, value, rfl, hA⟩

end Calls

/-! ## The loop -/

section Loop

variable {pci : Ptr} {tr : List (Event Op Op.Ans)}

/-- The next register is probed only if there is one. -/
theorem safe_probeBar {offset : U16} {idx : Nat} {baseAddr : U32}
    (ho : offset.toNat = barOffset idx) (ho' : (offset + 4).toNat = barOffset (idx + 1))
    (hidx : idx < 6) (hsaved : Saved pci (offset.setWidth 64) baseAddr tr) :
    Safe (Recorded (LastNot64 pci)) (fun _ => Contained pci) (fun _ _ => True)
      (probeBar pci idx offset baseAddr) tr := by
  unfold probeBar
  refine (safe_probe32 ho hidx baseAddr).seq fun size tr1 hsize => ?_
  split
  · exact .ret trivial
  rename_i hio
  split
  · rename_i h64
    have hnext : idx + 1 < 6 := by
      by_contra hlast
      obtain rfl : idx = 5 := by omega
      obtain ⟨status', status, value, rfl, hA⟩ := hsize
      have hoff := (BitVec.toNat_setWidth_of_le (show 16 ≤ 64 by decide)).trans ho
      exact hA hoff ⟨tr, baseAddr, status', hsaved, hio, rfl⟩ h64
    refine safe_read32 fun _ upper _ => ?_
    exact (safe_probe32 ho' hnext _).seq fun _ _ _ => .ret trivial
  · exact .ret trivial

/-- **One turn of the loop** stays inside. -/
theorem safe_barBody {command : U64} {idx : Nat} (hidx : idx < 6) :
    Safe (Recorded (LastNot64 pci)) (fun _ => Contained pci) (fun idx' _ => idx ≤ idx')
      (barBody pci command idx) tr := by
  unfold barBody
  refine .op_bind (contained_command _) fun status _ => ?_
  split
  · exact (safe_prints (prints_lit _)).seq fun _ _ _ => .ret (Nat.le_refl _)
  rename_i hstatus
  obtain rfl : status = efiSuccess := Classical.not_not.mp hstatus
  refine safe_read32 fun status value _ => ?_
  split
  · exact .op_bind (contained_command _) fun _ _ => .ret (Nat.le_refl _)
  refine (safe_probeBar (PciDevice.toNat_offset hidx) (PciDevice.toNat_offset_next hidx) hidx
    ⟨tr, _, status, value, rfl, List.append_assoc ..⟩).seq fun b tr1 _ => ?_
  refine .op_bind (contained_command _) fun _ _ => ?_
  dsimp only
  -- the index is left where it is or one register on
  have hend {tr2 : List (Event Op Op.Ans)} : Safe (Recorded (LastNot64 pci))
      (fun _ => Contained pci) (fun idx' _ => idx ≤ idx')
      (pure (if b.is64bit = true then idx + 1 else idx)) tr2 := .ret (le_index b idx)
  split
  · exact (safe_prints (prints_bar b)).seq fun _ _ _ => hend
  · exact hend

theorem safe_barLoop {command : U64} : ∀ {fuel idx : Nat} {tr : List (Event Op Op.Ans)},
    6 < fuel + idx → 0 < fuel → Safe (Recorded (LastNot64 pci)) (fun _ => Contained pci)
      (fun _ _ => True) (barLoop pci command fuel idx) tr
  | fuel + 1, idx, tr, h, _ => by
    unfold barLoop
    split
    · refine (safe_barBody ‹_›).seq fun idx' tr' hle => ?_
      exact safe_barLoop (by omega) (by omega)
    · exact .ret trivial

theorem safe_printDeviceInfo : Safe (Recorded (LastNot64 pci)) (fun _ => Contained pci)
    (fun _ _ => True) (printDeviceInfo pci) tr := by
  unfold printDeviceInfo
  refine .op_bind trivial fun ⟨status, segment, bus, device, function⟩ _ => ?_
  dsimp only
  split
  · exact (safe_prints (prints_lit _)).seq fun _ _ _ => .ret trivial
  refine .op_bind trivial fun ⟨status, htype⟩ _ => ?_
  dsimp only
  split
  · exact .ret trivial
  refine .op_bind trivial fun ⟨status, command⟩ _ => ?_
  dsimp only
  split
  · exact .ret trivial
  refine .op_bind trivial fun ⟨status, classRevision⟩ _ => ?_
  dsimp only
  split
  · exact (safe_prints (prints_lit _)).seq fun _ _ _ => .ret trivial
  refine (safe_prints (prints_device ..)).seq fun _ _ _ => ?_
  split
  · exact .ret trivial
  · exact (safe_barLoop (by omega) (by omega)).seq fun _ _ _ => .ret trivial

end Loop

/-- **Sizing stays inside.** In every run in which the last register does not read back as 64-bit
memory when it is sized, every write goes to COMMAND or to a base address register. -/
theorem printDeviceInfo_contained {pci : Ptr} {tr : List (Event Op Op.Ans)} {o : Op}
    {k : o.Ans → Uefi Status}
    (h : Reach (Recorded (LastNot64 pci)) (printDeviceInfo pci, []) (.call o k, tr)) :
    Contained pci o :=
  (Safe.call_iff.mp (safe_printDeviceInfo.of_reach h)).1

/-- The reads before the device line, for a device with a normal header. -/
def header : List (Event Op Op.Ans) :=
  [⟨.pciGetLocation 1, (efiSuccess, 0, 0, 3, 0)⟩,
    ⟨.pciRead 1 .uint8 pciHeaderType 0, (efiSuccess, 0)⟩,
    ⟨.pciRead 1 .uint16 pciCommand 0, (efiSuccess, 0)⟩,
    ⟨.pciRead 1 .uint32 pciClassRevision 0, (efiSuccess, 0x0c030000)⟩]

set_option maxRecDepth 4096 in
/-- Then a run comes to the registers. -/
theorem reach_barLoop : ∃ tr, Reach (Recorded (LastNot64 1)) (printDeviceInfo 1, [])
    (barLoop 1 0 7 0 >>= fun _ => return efiSuccess, tr) := by
  obtain ⟨f, hheader, hf⟩ : ∃ f, follow header (printDeviceInfo 1) =
      some (printDevice 0 0 3 0 (((0x0c030000 : U64) >>> 16).setWidth 16) >>= f) ∧
      f () = (barLoop 1 0 7 0 >>= fun _ => return efiSuccess) := ⟨_, rfl, rfl⟩
  have hanswers : ∀ e ∈ header, ∀ tr, LastNot64 1 tr e.1 e.2 := by
    simp only [header, List.forall_mem_cons]
    exact ⟨fun _ => trivial, fun _ => trivial, fun _ => trivial,
      fun _ h => absurd h (by decide), nofun⟩
  obtain ⟨chunks, hline⟩ := prints_device 0 0 3 0 (((0x0c030000 : U64) >>> 16).setWidth 16)
  have hout : ∀ o ∈ chunks.map Op.outputString, ∀ tr, ∃ x, LastNot64 1 tr o x := by
    intro o ho tr
    obtain ⟨u, -, rfl⟩ := List.mem_map.mp ho
    exact ⟨efiSuccess, trivial⟩
  obtain ⟨tr, hcalls⟩ := @reach_calls _ _ _ _ _ f hout header
  rw [hf] at hcalls
  rw [hline] at hheader
  exact ⟨tr, (reach_recorded_follow hheader hanswers []).trans hcalls⟩

/-- A turn at a register that reads as zero. -/
def zeroTurn (r : Nat) : List (Event Op Op.Ans) :=
  [⟨.pciWrite 1 .uint16 pciCommand 0, efiSuccess⟩,
    ⟨.pciRead 1 .uint32 (BitVec.ofNat 64 (barOffset r)) (~~~0), (efiSuccess, 0)⟩,
    ⟨.pciWrite 1 .uint16 pciCommand 0, efiSuccess⟩]

/-- The last register at `0xfebf0000` reads back as 64 KiB of 32-bit memory. -/
def lastTurn32 : List (Event Op Op.Ans) :=
  [⟨.pciWrite 1 .uint16 pciCommand 0, efiSuccess⟩,
    ⟨.pciRead 1 .uint32 0x24 (~~~0), (efiSuccess, 0xfebf0000)⟩,
    ⟨.pciWrite 1 .uint32 0x24 0xffffffff, efiSuccess⟩,
    ⟨.pciRead 1 .uint32 0x24 (~~~0), (efiSuccess, 0xffff0000)⟩]

/-- The last register has been sized and is about to be restored. -/
theorem printDeviceInfo_contained_last : ∃ tr k,
    Reach (Recorded (LastNot64 1)) (printDeviceInfo 1, [])
      (.call (.pciWrite 1 .uint32 0x24 0xfebf0000) k, tr ++ lastTurn32) ∧
    Contained 1 (.pciWrite 1 .uint32 0x24 0xfebf0000) := by
  obtain ⟨tr, hheader⟩ := reach_barLoop
  obtain ⟨k, hturns⟩ : ∃ k, follow ((List.range 5).flatMap zeroTurn ++ lastTurn32)
      (barLoop 1 0 7 0 >>= fun _ => return efiSuccess) =
      some (.call (.pciWrite 1 .uint32 0x24 0xfebf0000) k) := ⟨_, rfl⟩
  have hzero : ∀ r, ∀ e ∈ zeroTurn r, ∀ tr, LastNot64 1 tr e.1 e.2 := by
    intro r
    simp only [zeroTurn, List.forall_mem_cons]
    exact ⟨fun _ => trivial, fun _ _ _ => by decide, fun _ => trivial, nofun⟩
  have hlast : ∀ e ∈ lastTurn32, ∀ tr, LastNot64 1 tr e.1 e.2 := by
    simp only [lastTurn32, List.forall_mem_cons]
    exact ⟨fun _ => trivial, fun _ _ _ => by decide, fun _ => trivial, fun _ _ _ => by decide,
      nofun⟩
  have hanswers : ∀ e ∈ (List.range 5).flatMap zeroTurn ++ lastTurn32,
      ∀ tr, LastNot64 1 tr e.1 e.2 := by
    intro e he
    rcases List.mem_append.mp he with he | he
    · obtain ⟨r, -, he⟩ := List.mem_flatMap.mp he
      exact hzero r e he
    · exact hlast e he
  have hrun := hheader.trans (reach_recorded_follow hturns hanswers tr)
  rw [← List.append_assoc] at hrun
  exact ⟨_, k, hrun, printDeviceInfo_contained hrun⟩

/-! ## Outside -/

/-- The last register at `0xfebf0000` reads back as 64 KiB of 64-bit memory. -/
def lastTurn : List (Event Op Op.Ans) :=
  [⟨.pciWrite 1 .uint16 pciCommand 0, efiSuccess⟩,
    ⟨.pciRead 1 .uint32 0x24 (~~~0), (efiSuccess, 0xfebf0004)⟩,
    ⟨.pciWrite 1 .uint32 0x24 0xffffffff, efiSuccess⟩,
    ⟨.pciRead 1 .uint32 0x24 (~~~0), (efiSuccess, 0xffff0004)⟩,
    ⟨.pciWrite 1 .uint32 0x24 0xfebf0004, efiSuccess⟩,
    ⟨.pciRead 1 .uint32 0x28 (~~~0), (efiSuccess, 0)⟩]

/-- Such a device gets all ones written to offset `0x28`. -/
theorem not_printDeviceInfo_contained : ¬∀ (pci : Ptr) (tr : List (Event Op Op.Ans)) (o : Op)
    (k : o.Ans → Uefi Status), Reach History (printDeviceInfo pci, []) (.call o k, tr) →
    Contained pci o := by
  intro hall
  obtain ⟨tr, hheader⟩ := reach_barLoop
  obtain ⟨k, hturns⟩ : ∃ k, follow ((List.range 5).flatMap zeroTurn ++ lastTurn)
      (barLoop 1 0 7 0 >>= fun _ => return efiSuccess) =
      some (.call (.pciWrite 1 .uint32 0x28 0xffffffff) k) := ⟨_, rfl⟩
  obtain ⟨-, hcommand | ⟨-, r, hr, hoff⟩⟩ :=
    hall 1 _ _ k (hheader.history.trans (reach_follow hturns tr))
  · exact absurd hcommand.1 (by decide)
  · change 0x28 = 0x10 + 4 * r at hoff
    omega

end UefiStub
