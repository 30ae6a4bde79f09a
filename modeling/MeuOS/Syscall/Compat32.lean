import MeuOS.Syscall.EntryTrips

/-! The arguments of a 32-bit caller. Every service reads its own registers of the frame, and the
dispatcher cuts five of them down for the caller; the fourth argument is read from another one. -/
namespace MeuOS.Syscall

open MeuOS.Lib

/-- A register a service reads, and the type it is read as. -/
inductive Param
  | word (x : Reg)
  | uint32 (x : Reg)
  | int32 (x : Reg)
  | uint8 (x : Reg)
  deriving DecidableEq, Repr

def Param.reg : Param → Reg
  | .word x => x
  | .uint32 x => x
  | .int32 x => x
  | .uint8 x => x

def Param.cast : Param → BitVec 64 → BitVec 64
  | .word _, v => v
  | .uint32 _, v => low32 v
  | .int32 _, v => (v.setWidth 32).signExtend 64
  | .uint8 _, v => v &&& 0xFF

def Param.read (r : Regs) (q : Param) : BitVec 64 := q.cast (r.gpr q.reg)

/-! ## What the services read -/

def sysWrite : List Param := [.word .rdi]

def sysExit : List Param := [.word .rsp]

def sysMessagebox : List Param := [.word .rdi, .word .rsi]

def sysCreatefile : List Param := [.word .rdi, .word .rsi]

def sysDeviceiocontrol : List Param := [.word .rdi, .uint32 .rsi, .word .rdx, .uint32 .r10, .word .r8, .uint32 .r9]

def sysClose : List Param := [.word .rdi]

def sysCreateprocess : List Param := [.word .rdi, .word .rsi, .word .rdx]

def sysCreatethread : List Param := [.word .rdi, .word .rsi, .word .rdx, .word .r10]

def sysTerminateprocess : List Param := [.word .rdi, .uint32 .rsi]

def sysWaitforsingleobject : List Param := [.word .rdi]

def sysWritefile : List Param := [.word .rdi, .word .rsi, .uint32 .rdx, .word .r10]

def sysReadfile : List Param := [.word .rdi, .word .rsi, .uint32 .rdx, .word .r10]

def sysOpenkey : List Param := [.word .rdi, .word .rsi]

def sysQueryvaluekey : List Param := [.word .rdi, .word .rsi, .word .rdx, .uint32 .r10, .word .r8]

def sysGetmodulehandle : List Param := [.word .rdi]

def sysGetprocaddress : List Param := [.word .rdi, .word .rsi]

def sysUserRegisterclass : List Param := [.word .rdi, .word .rsi]

def sysUserCreatewindowex : List Param := [.word .rdi]

def sysUserDestroywindow : List Param := [.word .rdi]

def sysUserShowwindow : List Param := [.word .rdi, .int32 .rsi]

def sysUserGetmessage : List Param := [.word .rdi]

def sysUserDispatchmessage : List Param := [.word .rdi]

def sysUserPostmessage : List Param := [.word .rdi, .uint32 .rsi, .word .rdx, .word .r10]

def sysUserPostquitmessage : List Param := [.int32 .rdi]

def sysUserGetdc : List Param := [.word .rdi]

def sysUserInvalidate : List Param := [.word .rdi]

def sysGdiGetstockobject : List Param := [.int32 .rdi]

def sysGdiCreatesolidbrush : List Param := [.uint32 .rdi]

def sysGdiTextout : List Param := [.word .rdi, .int32 .rsi, .int32 .rdx, .word .r10, .int32 .r8]

def sysGdiFillrect : List Param := [.word .rdi, .int32 .rsi, .int32 .rdx, .int32 .r10, .int32 .r8, .word .r9]

def sysCreatenamedpipe : List Param := [.word .rdi, .word .rsi]

def sysConnectnamedpipe : List Param := [.word .rdi]

def sysQuerysysteminfo : List Param := [.uint32 .rdi, .word .rsi, .uint32 .rdx, .word .r10]

def sysQueryinformationprocess : List Param := [.word .rdi, .uint32 .rsi, .word .rdx, .uint32 .r10, .word .r8]

def sysReadvirtualmemory : List Param := [.word .rdi, .word .rsi, .word .rdx, .uint32 .r10, .word .r8]

def sysWritevirtualmemory : List Param := [.word .rdi, .word .rsi, .word .rdx, .uint32 .r10, .word .r8]

def sysEnumprocesses : List Param := [.int32 .rdi, .word .rsi]

def sysEnumdrivers : List Param := [.int32 .rdi, .word .rsi]

def sysLoaddriver : List Param := [.word .rdi]

def sysUnloaddriver : List Param := [.word .rdi]

def sysUserSetfocus : List Param := [.word .rdi]

def sysUserPostkey : List Param := [.word .rdi, .uint8 .rsi, .uint8 .rdx]

def sysGdiTextoutex : List Param := [.word .rdi, .int32 .rsi, .int32 .rdx, .word .r10, .int32 .r8, .uint32 .r9]

def sysQuerydirectoryfile : List Param := [.word .rdi, .word .rsi, .uint32 .rdx, .word .r10]

def sysQueryvolumeinformation : List Param := [.word .rdi, .uint32 .rsi, .word .rdx]

def sysUserGetcursorpos : List Param := [.word .rdi]

def sysUserSetcursorpos : List Param := [.int32 .rdi, .int32 .rsi]

def sysLoadlibrary : List Param := [.word .rdi]

def sysQuerysystemtime : List Param := [.word .rdi]

def sysVirtualalloc : List Param := [.word .rdi]

def sysThreadExit : List Param := [.word .rdi]

def sysModuleForPc : List Param := [.word .rdi, .word .rsi, .word .rdx]

/-- `s_ssdt`. -/
def sSsdt : List (Option (List Param)) :=
  [none,
    some sysWrite, some sysExit, some sysMessagebox, some sysCreatefile,
    some sysDeviceiocontrol, some sysClose, some sysCreateprocess, some sysCreatethread,
    some sysTerminateprocess, some sysWaitforsingleobject, some sysWritefile, some sysReadfile,
    some sysOpenkey, some sysQueryvaluekey, some sysGetmodulehandle, some sysGetprocaddress,
    some sysUserRegisterclass, some sysUserCreatewindowex, some sysUserDestroywindow, some sysUserShowwindow,
    some sysUserGetmessage, some sysUserDispatchmessage, some sysUserPostmessage, some sysUserPostquitmessage,
    some sysUserGetdc, some sysUserInvalidate, some sysGdiGetstockobject, some sysGdiCreatesolidbrush,
    some sysGdiTextout, some sysGdiFillrect, some sysCreatenamedpipe, some sysConnectnamedpipe,
    some sysQuerysysteminfo, some sysQueryinformationprocess, some sysReadvirtualmemory, some sysWritevirtualmemory,
    some sysEnumprocesses, some sysEnumdrivers, some sysLoaddriver, some sysUnloaddriver,
    some sysUserSetfocus, some sysUserPostkey, some sysGdiTextoutex, some sysQuerydirectoryfile,
    some sysQueryvolumeinformation, some sysUserGetcursorpos, some sysUserSetcursorpos, some sysLoadlibrary,
    some sysQuerysystemtime, some sysVirtualalloc, some sysThreadExit, some sysModuleForPc]

def params (n : Nat) : Option (List Param) := (sSsdt[n]?).join

/-- What `syscall_dispatch` hands over: the service and its arguments; `none` for a number that
is not in the table. -/
def request (r : Regs) : Option (Nat × List (BitVec 64)) :=
  (params r.normalise.rax.toNat).map fun ps => (r.normalise.rax.toNat, ps.map (Param.read r.normalise))

/-- The frame of a 64-bit caller whose number and first four arguments are EAX, EDI, ESI, EDX and
ECX. -/
def Regs.widen (r : Regs) : Regs :=
  { r with
    cs := 0x1B
    rax := low32 r.rax
    rdi := low32 r.rdi
    rsi := low32 r.rsi
    rdx := low32 r.rdx
    r10 := low32 r.rcx }

/-- A service gets what it gets from the 64-bit caller. -/
def ServedAlike (r : Regs) : Prop := request r = request r.widen

instance (r : Regs) : Decidable (ServedAlike r) := inferInstanceAs (Decidable (_ = _))

/-! ## The fourth argument -/

/-- With at most four parameters a service reads RDI, RSI, RDX and, for the fourth, all of R10;
`sys_exit` looks at RSP. -/
theorem params_few {n : Nat} {ps : List Param} (h : params n = some ps) (hfew : ps.length ≤ 4) :
    (∀ q ∈ ps, q.reg ∈ [.rdi, .rsi, .rdx, .rsp] ∨ q = .word .r10) ∧ (.word .r10 ∈ ps ↔ ps.length = 4) := by
  have htable : ∀ ps ∈ sSsdt.filterMap id, ps.length ≤ 4 →
      (∀ q ∈ ps, q.reg ∈ [.rdi, .rsi, .rdx, .rsp] ∨ q = .word .r10) ∧ (.word .r10 ∈ ps ↔ ps.length = 4) := by
    decide
  have hentry := Option.join_eq_some_iff.1 h
  exact htable ps (List.mem_filterMap.2 ⟨some ps, List.mem_of_getElem? hentry, rfl⟩) hfew

variable {r : Regs}

theorem normalise_widen (r : Regs) : r.widen.normalise = r.widen := by
  unfold Regs.normalise
  rw [is32_of_cs (r := r.widen) rfl]
  rfl

theorem normalise_of_is32 (h32 : r.is32 = true) : r.normalise =
    { r with rax := low32 r.rax, rdi := low32 r.rdi, rsi := low32 r.rsi, rdx := low32 r.rdx, rcx := low32 r.rcx } := by
  unfold Regs.normalise
  rw [if_pos h32]

theorem read_widen (h32 : r.is32 = true) {q : Param} (hq : q.reg ∈ [.rdi, .rsi, .rdx, .rsp]) :
    q.read r.normalise = q.read r.widen := by
  have hgpr : ∀ x ∈ [Reg.rdi, .rsi, .rdx, .rsp], r.normalise.gpr x = r.widen.gpr x := by
    rw [normalise_of_is32 h32]
    simp only [List.forall_mem_cons, List.not_mem_nil, false_implies, implies_true, and_true]
    exact ⟨rfl, rfl, rfl, rfl⟩
  unfold Param.read
  rw [hgpr _ hq]

/-- A 32-bit caller is served like a 64-bit caller where no fourth argument is read, or where R10
happens to hold ECX. -/
theorem served_alike_iff (h32 : r.is32 = true)
    (hfew : ∀ ps ∈ params (low32 r.rax).toNat, ps.length ≤ 4) :
    ServedAlike r ↔ ∀ ps ∈ params (low32 r.rax).toNat, ps.length = 4 → r.r10 = low32 r.rcx := by
  have hnumber : r.normalise.rax = low32 r.rax := by
    rw [normalise_of_is32 h32]
  have hr10 : r.normalise.r10 = r.r10 := by
    rw [normalise_of_is32 h32]
  unfold ServedAlike request
  rw [normalise_widen, hnumber, show r.widen.rax = low32 r.rax from rfl]
  cases hps : params (low32 r.rax).toNat with
  | none => simp
  | some ps =>
    obtain ⟨hregs, hfour⟩ := params_few hps (hfew ps hps)
    simp only [Option.map_some, Option.some.injEq, Prod.mk.injEq, true_and, List.map_inj_left, Option.mem_def,
      forall_eq']
    rw [← hfour]
    constructor
    · intro hread hmem
      have h10 := hread _ hmem
      unfold Param.read at h10
      exact hr10.symm.trans h10
    · intro h10 q hq
      rcases hregs q hq with hreg | rfl
      · exact read_widen h32 hreg
      · exact hr10.trans (h10 hq)

/-! ## A 32-bit caller -/

/-- `service` with four arguments, ECX for the fourth; the upper halves and R10 are left over. -/
def compatCaller (service r10 : BitVec 64) : Regs :=
  { frameOf (fun x => if x = .rax then service else if x = .rdi then 0x12300000004 else if x = .rsi then 0x402000
      else if x = .rdx then 5 else if x = .rcx then 0x403000 else if x = .r10 then r10 else 0)
      0x401000 0x3B 0x202 0x6F0000 0x23 with }

theorem served_alike_iff_write :
    ServedAlike (compatCaller 11 0x403000) ↔
      ∀ ps ∈ params (low32 (compatCaller 11 0x403000).rax).toNat, ps.length = 4 →
        (compatCaller 11 0x403000).r10 = low32 (compatCaller 11 0x403000).rcx :=
  served_alike_iff (by decide) (by decide)

/-- `NtWriteFile` stores the count through R10, not through ECX. -/
theorem write_served_otherwise : ¬ ∀ r : Regs, r.is32 = true →
    (∀ ps ∈ params (low32 r.rax).toNat, ps.length ≤ 4) → ServedAlike r := by
  intro hall
  have halike := hall (compatCaller 11 0) (by decide) (by decide)
  revert halike
  decide

end MeuOS.Syscall
