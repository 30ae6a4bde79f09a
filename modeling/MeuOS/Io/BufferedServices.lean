import MeuOS.Io.BufferedBuild

/-! What comes back to the callers of the services, and the builders and the services together. -/
namespace MeuOS.BufferedIo

open MeuOS.Lib MeuOS.Mm

/-- A driver does not give an IRP another system buffer. -/
def KeepsBuffer (dispatch : Option Dispatch) : Prop :=
  ∀ fn ∈ dispatch, ∀ h dev irp, (fn h dev irp).mem.rd64 (systemBufferAt irp) = h.mem.rd64 (systemBufferAt irp)

/-- Bytes from the front of the system buffer the IRP was built with, no more than the driver reported
in the memory `m`, than the caller has room for and than the system buffer has. -/
structure HandsBack (h : Heap) (live : List Alloc) (m : Mem) (irp len : Nat) (copied : List UInt8) : Prop where
  reported : copied.length ≤ m.rd64 (informationAt irp)
  length : copied.length ≤ len
  inside : copied = [] ∨ ∃ a b : Alloc, irp = b.ptr ∧ Holds h (a :: b :: live) ∧
    copied.length ≤ a.granted ∧ copied = (List.range copied.length).map fun i => m (a.ptr + i)

section Services

variable {h : Heap} {live : List Alloc} {m : Mem} {irp : Nat}

theorem copyBack_length (m : Mem) (irp buf len : Nat) :
    (copyBack m irp buf len).length ≤ m.rd64 (informationAt irp) ∧ (copyBack m irp buf len).length ≤ len := by
  unfold copyBack
  dsimp only
  split
  · rw [List.length_map, List.length_range]
    split <;> omega
  · exact ⟨Nat.zero_le _, Nat.zero_le _⟩

theorem copyBack_bytes (m : Mem) (irp buf len : Nat) :
    copyBack m irp buf len =
      (List.range (copyBack m irp buf len).length).map fun i => m (m.rd64 (systemBufferAt irp) + i) := by
  unfold copyBack
  dsimp only
  split
  · rw [List.length_map, List.length_range]
  · rfl

theorem copyBack_null (buf len : Nat) (hnull : m.rd64 (systemBufferAt irp) = 0) : copyBack m irp buf len = [] := by
  unfold copyBack
  rw [hnull]
  simp

/-- Whatever the driver does, unless it gives the IRP another buffer. -/
theorem Outcome.handsBack {size inLen : Nat} {input : Mem} {h' : Heap}
    (houtcome : Outcome h live size inLen input (some (h', irp))) (hirp : irp ≠ 0)
    (hkeeps : m.rd64 (systemBufferAt irp) = h'.mem.rd64 (systemBufferAt irp)) (buf : Nat) {len : Nat}
    (hlen : len ≤ size) : HandsBack h' live m irp len (copyBack m irp buf len) := by
  obtain ⟨hreported, hlength⟩ := copyBack_length m irp buf len
  refine ⟨hreported, hlength, ?_⟩
  cases houtcome with
  | gaveUp _ => exact absurd rfl hirp
  | plain _ hfilled => exact Or.inl (copyBack_null buf len (hkeeps.trans hfilled.systemBuffer))
  | bare _ _ _ hnull _ => exact Or.inl (copyBack_null buf len (hkeeps.trans hnull))
  | @attached a b m' _ _ hatt =>
    refine Or.inr ⟨a, b, rfl, hatt.holds, Nat.le_trans hlength (Nat.le_trans hlen hatt.room), ?_⟩
    rw [← hkeeps.trans hatt.systemBuffer]
    exact copyBack_bytes m b.ptr buf len

theorem Outcome.location {size inLen : Nat} {input : Mem} {h' : Heap}
    (houtcome : Outcome h live size inLen input (some (h', irp))) (hirp : irp ≠ 0) :
    h'.mem.rd64 (currentStackLocationAt irp) = irp + irpSize + locationSize := by
  cases houtcome with
  | gaveUp _ => exact absurd rfl hirp
  | plain _ hfilled => exact hfilled.location
  | bare _ _ _ _ hlocation => exact hlocation
  | attached _ _ hatt => exact hatt.location

/-- `IoCallDriver` writes into the IRP, but not over the pointer. -/
theorem ioCallDriver_keeps {dispatch : Option Dispatch} (hkeeps : KeepsBuffer dispatch) (dev : Nat)
    (hlocation : h.mem.rd64 (currentStackLocationAt irp) = irp + irpSize + locationSize) :
    (ioCallDriver dispatch h dev irp).mem.rd64 (systemBufferAt irp) = h.mem.rd64 (systemBufferAt irp) := by
  have hs : ioGetNextIrpStackLocation h.mem irp = irp + irpSize := by
    unfold ioGetNextIrpStackLocation
    rw [hlocation, Nat.add_sub_cancel]
  have hlocationSize : irpSize = 200 := rfl
  have hwrites : (((h.mem.write (irp + 0x43) 1 (h.mem.read (irp + 0x43) 1 + 255)).write
      (currentStackLocationAt irp) 8 (irp + irpSize)).write (irp + irpSize + 0x28) 8 dev).rd64
        (systemBufferAt irp) = h.mem.rd64 (systemBufferAt irp) := by
    simp only [systemBufferAt, currentStackLocationAt, Mem.rd64]
    simp (disch := omega) only [Mem.read_write_of_disjoint]
  unfold ioCallDriver
  rw [hs]
  cases dispatch with
  | some fn => exact (hkeeps fn rfl _ _ _).trans hwrites
  | none =>
    refine Eq.trans (Mem.read_write_of_disjoint _ _ ?_) hwrites
    unfold systemBufferAt statusAt
    omega

theorem storeCursor_reads (cursor : Option (Nat × Nat))
    (hlocation : m.rd64 (currentStackLocationAt irp) = irp + irpSize + locationSize) :
    (storeCursor m irp cursor).rd64 (systemBufferAt irp) = m.rd64 (systemBufferAt irp) ∧
      (storeCursor m irp cursor).rd64 (currentStackLocationAt irp) = irp + irpSize + locationSize := by
  cases cursor with
  | none => exact ⟨rfl, hlocation⟩
  | some c =>
    have hs : ioGetNextIrpStackLocation m irp = irp + irpSize := by
      unfold ioGetNextIrpStackLocation
      rw [hlocation, Nat.add_sub_cancel]
    have hlocationSize : irpSize = 200 := rfl
    rw [← hlocation]
    unfold storeCursor
    rw [hs]
    simp only [systemBufferAt, currentStackLocationAt, Mem.rd64]
    constructor <;> simp (disch := omega) only [Mem.read_write_of_disjoint]

/-- What a service may do for its caller, given what its builder returns and the memory its driver
leaves: nothing comes back, or what the driver reported. -/
def CopiesReported (live : List Alloc) (build : Option (Heap × Nat)) (after : Heap → Nat → Mem) (len : Nat)
    (r : Option ServiceResult) : Prop :=
  ∀ s, r = some s → s.copied = [] ∨
    ∃ h' irp, build = some (h', irp) ∧ HandsBack h' live (after h' irp) irp len s.copied

theorem finishService_copied {buf len : Nat} {s : ServiceResult} (hs : finishService h irp buf len = some s) :
    s.copied = copyBack h.mem irp buf len := by
  unfold finishService at hs
  simp only [Option.bind_eq_bind, Option.bind_eq_some_iff] at hs
  obtain ⟨h', -, heq⟩ := hs
  cases heq
  rfl

variable {dispatch : Option Dispatch}

theorem sysDeviceiocontrol_copied (hh : Holds h live) (hkeeps : KeepsBuffer dispatch) (code dev : Nat) (input : Mem)
    (outB : Nat) {inL outL : Nat} (hin : inL < 2 ^ 32) (hout : outL < 2 ^ 32) :
    CopiesReported live (ioBuildIoctl h code dev input inL outB outL)
      (fun h' irp => (ioCallDriver dispatch h' dev irp).mem) outL
      (sysDeviceiocontrol dispatch h code dev input inL outB outL) := by
  intro s hs
  have houtcome := ioBuildIoctl_outcome hh code dev input outB hin hout
  unfold sysDeviceiocontrol at hs
  simp only [Option.bind_eq_bind, Option.bind_eq_some_iff] at hs
  obtain ⟨⟨h', irp⟩, hbuild, hs⟩ := hs
  rw [hbuild] at houtcome
  by_cases hirp : irp = 0
  · rw [if_pos hirp] at hs
    cases hs
    exact Or.inl rfl
  · rw [if_neg hirp] at hs
    refine Or.inr ⟨h', irp, hbuild, ?_⟩
    rw [finishService_copied hs]
    exact houtcome.handsBack hirp (ioCallDriver_keeps hkeeps dev (houtcome.location hirp)) outB
      (Nat.le_max_right inL outL)

theorem sysReadfile_copied (hh : Holds h live) (hkeeps : KeepsBuffer dispatch) (dev : Nat)
    (cursor : Option (Nat × Nat)) (buf : Nat) {len : Nat} (hlen : len < 2 ^ 32) :
    CopiesReported live (ioBuildRead h dev buf len)
      (fun h' irp => (ioCallDriver dispatch { h' with mem := storeCursor h'.mem irp cursor } dev irp).mem) len
      (sysReadfile dispatch h dev cursor buf len) := by
  intro s hs
  have houtcome := ioBuildRead_outcome hh dev buf hlen
  unfold sysReadfile at hs
  simp only [Option.bind_eq_bind, Option.bind_eq_some_iff] at hs
  obtain ⟨⟨h', irp⟩, hbuild, hs⟩ := hs
  rw [hbuild] at houtcome
  by_cases hirp : irp = 0
  · rw [if_pos hirp] at hs
    cases hs
    exact Or.inl rfl
  · rw [if_neg hirp] at hs
    refine Or.inr ⟨h', irp, hbuild, ?_⟩
    rw [finishService_copied hs]
    obtain ⟨hbuffer, hlocation⟩ := storeCursor_reads cursor (houtcome.location hirp)
    have hcalled := @ioCallDriver_keeps { h' with mem := storeCursor h'.mem irp cursor } irp dispatch hkeeps dev hlocation
    exact houtcome.handsBack hirp (hcalled.trans hbuffer) buf (Nat.le_refl len)

theorem sysWritefile_copied (dispatch : Option Dispatch) (h : Heap) (dev : Nat) (cursor : Option (Nat × Nat))
    (buf : Nat) (input : Mem) (len : Nat) {s : ServiceResult}
    (hs : sysWritefile dispatch h dev cursor buf input len = some s) : s.copied = [] := by
  unfold sysWritefile at hs
  simp only [Option.bind_eq_bind, Option.bind_eq_some_iff] at hs
  obtain ⟨⟨h', irp⟩, -, hs⟩ := hs
  by_cases hirp : irp = 0
  · rw [if_pos hirp] at hs
    cases hs
    rfl
  · rw [if_neg hirp] at hs
    rw [finishService_copied hs]
    unfold copyBack
    simp

theorem ioAllocIrp_built (hh : Holds h live) {stackCount : Nat} (hcount : stackCount < 256) :
    Built h live 0 0 (fun _ => 0) (ioAllocIrp h stackCount) := by
  rcases ioAllocIrp_cases hh hcount with ⟨-, halloc⟩ | ⟨m₁, b, -, halloc, hne, -, hholds, hkept, hready⟩
  · exact Or.inl halloc
  · have hkeptb := (hholds.store List.mem_cons_self hready.kept).2
    refine Or.inr ⟨_, _, halloc, ⟨fun c hc => ?_, hne, fun _ => ?_, fun h => absurd rfl h⟩⟩
    · exact Kept.trans (hkept c hc).2 (hkeptb c (List.mem_cons_of_mem _ hc) (hkept c hc).1)
    · exact ⟨b, rfl, hready.holds hholds, hready.systemBuffer⟩

/-- The builders do what they should exactly where the heap does not end between their two allocations;
the services hand back no more than they may in any case. -/
theorem irp_construction (hh : Holds h live) :
    (∀ stackCount < 256, Built h live 0 0 (fun _ => 0) (ioAllocIrp h stackCount)) ∧
      (∀ major dev, Built h live 0 0 (fun _ => 0) (ioBuildRequest h major dev)) ∧
      (∀ ioctl dev input outBuf inLen outLen, inLen < 2 ^ 32 → outLen < 2 ^ 32 →
        (Built h live (max inLen outLen) inLen input (ioBuildIoctl h ioctl dev input inLen outBuf outLen) ↔
          max inLen outLen = 0 ∨ RoomBehind h (irpBytes 1) (max inLen outLen))) ∧
      (∀ dev buf input len, len < 2 ^ 32 →
        (Built h live len (if buf = 0 then 0 else len) input (ioBuildWrite h dev buf input len) ↔
          len = 0 ∨ RoomBehind h (irpBytes 1) len)) ∧
      (∀ dev buf len, len < 2 ^ 32 →
        (Built h live len 0 (fun _ => 0) (ioBuildRead h dev buf len) ↔
          len = 0 ∨ RoomBehind h (irpBytes 1) len)) ∧
      ∀ dispatch, KeepsBuffer dispatch →
        (∀ code dev input inL outB outL, inL < 2 ^ 32 → outL < 2 ^ 32 →
          CopiesReported live (ioBuildIoctl h code dev input inL outB outL)
            (fun h' irp => (ioCallDriver dispatch h' dev irp).mem) outL
            (sysDeviceiocontrol dispatch h code dev input inL outB outL)) ∧
        (∀ dev cursor buf len, len < 2 ^ 32 →
          CopiesReported live (ioBuildRead h dev buf len)
            (fun h' irp => (ioCallDriver dispatch { h' with mem := storeCursor h'.mem irp cursor } dev irp).mem) len
            (sysReadfile dispatch h dev cursor buf len)) ∧
        ∀ dev cursor buf input len s, sysWritefile dispatch h dev cursor buf input len = some s → s.copied = [] := by
  refine ⟨fun sc hsc => ioAllocIrp_built hh hsc, fun major dev => ?_, ?_, ?_, ?_, fun dispatch hkeeps => ⟨?_, ?_, ?_⟩⟩
  · exact (ioBuildRequest_outcome hh major dev).built_iff.2 (Or.inl rfl)
  · exact fun ioctl dev input outBuf inLen outLen hin hout =>
      (ioBuildIoctl_outcome hh ioctl dev input outBuf hin hout).built_iff
  · exact fun dev buf input len hlen => (ioBuildWrite_outcome hh dev buf input hlen).built_iff
  · exact fun dev buf len hlen => (ioBuildRead_outcome hh dev buf hlen).built_iff
  · exact fun code dev input inL outB outL hin hout =>
      sysDeviceiocontrol_copied hh hkeeps code dev input outB hin hout
  · exact fun dev cursor buf len hlen => sysReadfile_copied hh hkeeps dev cursor buf hlen
  · exact fun dev cursor buf input len s hs => sysWritefile_copied dispatch h dev cursor buf input len hs

end Services

/-! ## A fresh heap -/

/-- Whether there is room can be told from the blocks. -/
theorem roomBehind_blocks {h : Heap} {live : List Alloc} {bs bs' : List Block} {n k p : Nat}
    (hinv : HeapInv ⟨h, live⟩ bs) (hfirst : mallocList (roundUp16 n) bs = some (bs', p)) :
    RoomBehind h n k ↔ mallocList (roundUp16 k) bs' ≠ none := by
  have hplace := hinv.kmalloc n
  simp only [hfirst] at hplace
  obtain ⟨m', hk, hchain, -⟩ := hplace
  have htiles := mallocList_tiles hinv.tiles hfirst
  have hlen : bs'.length < heapSize := by
    have hle := tiles_length htiles
    simp only [blockHeader, heapSize] at hle ⊢
    omega
  obtain ⟨b, -, -, -, -, rfl, -⟩ := mallocList_used hfirst
  have hp : b.payload ≠ 0 := by simp [Block.payload, blockHeader]
  have hloop := kmallocLoop_refines (n := roundUp16 k) hchain htiles (by decide) hlen
  cases hsecond : mallocList (roundUp16 k) bs' with
  | none =>
    simp only [hsecond] at hloop
    have hnull : (kmalloc { h with mem := m' } k).map Prod.snd = some 0 := by
      unfold kmalloc
      rw [hloop]
      rfl
    exact iff_of_false (fun hroom => (roomBehind_iff hk hp hnull).1 hroom rfl) fun h => h rfl
  | some r =>
    simp only [hsecond] at hloop
    obtain ⟨m'', hrun, -⟩ := hloop
    obtain ⟨b', -, -, -, -, hq, -⟩ := mallocList_used hsecond
    have hsome : (kmalloc { h with mem := m' } k).map Prod.snd = some r.2 := by
      unfold kmalloc
      rw [hrun]
      rfl
    have hne : r.2 ≠ 0 := by
      rw [hq]
      simp [Block.payload, blockHeader]
    exact iff_of_true ((roomBehind_iff hk hp hsome).2 hne) (Option.some_ne_none r)

def freshHeap : Heap := heapInit fun _ => 0

theorem freshHeap_holds : Holds freshHeap [] := ⟨_, heapInit_inv _⟩

theorem irp_construction_fresh :
    Built freshHeap [] 4096 16 (fun i => i.toUInt8) (ioBuildIoctl freshHeap 0x222000 0 (fun i => i.toUInt8) 16 0 4096) := by
  refine ((irp_construction freshHeap_holds).2.2.1 0x222000 0 (fun i => i.toUInt8) 0 16 4096 (by decide) (by decide)).2 (Or.inr ?_)
  exact (roomBehind_blocks (heapInit_inv _) rfl).2 (by decide)

/-- Sixteen megabytes of input are more than the heap has. -/
theorem systemBuffer_missing : ¬∀ (h : Heap) (live : List Alloc), Holds h live →
    ∀ (input : Mem) (inLen outLen : Nat), inLen < 2 ^ 32 → outLen < 2 ^ 32 →
      Built h live (max inLen outLen) inLen input (ioBuildIoctl h 0x222000 0 input inLen 0 outLen) := by
  intro hall
  have hbuilt := hall freshHeap [] freshHeap_holds (fun _ => 0) (2 ^ 24) 0 (by decide) (by decide)
  have houtcome := ioBuildIoctl_outcome freshHeap_holds 0x222000 0 (fun _ => 0) 0
    (show 2 ^ 24 < 2 ^ 32 by decide) (show 0 < 2 ^ 32 by decide)
  rcases houtcome.built_iff.1 hbuilt with hzero | hroom
  · exact absurd hzero (by decide)
  · exact (roomBehind_blocks (heapInit_inv _) rfl).1 hroom (by decide)

end MeuOS.BufferedIo
