import MeuOS.Lib.Words

/-! The two ways into the kernel. The stubs of `syscall_entry.asm` and `isr.asm` are programs of a
small machine; what they push is the `struct regs` of the handler, and `IRETQ` pops the rest. -/
namespace MeuOS.Syscall

open MeuOS.Lib

inductive Reg
  | rax | rbx | rcx | rdx | rsi | rdi | rbp | rsp
  | r8 | r9 | r10 | r11 | r12 | r13 | r14 | r15
  deriving DecidableEq, Repr

structure Cpu where
  gpr : Reg → BitVec 64
  rip : BitVec 64
  cs : BitVec 64
  rflags : BitVec 64
  ss : BitVec 64
  mem : Mem

inductive Operand
  | imm (v : BitVec 64)
  | reg (r : Reg)
  deriving DecidableEq, Repr

inductive Insn
  | push (o : Operand)
  | pop (r : Reg)
  | mov (dst src : Reg)
  | add (dst : Reg) (v : BitVec 64)
  | cld
  | iretq
  deriving DecidableEq, Repr

/-- A stub: what stands before `call isr_handler` and what stands behind it. -/
structure Stub where
  enter : List Insn
  leave : List Insn

/-! ## The machine -/

def Operand.value (gpr : Reg → BitVec 64) : Operand → BitVec 64
  | .imm v => v
  | .reg r => gpr r

/-- `n` bytes below the top of the stack can be written; the bytes below 0 are the last ones of
the address space, where nothing is mapped. -/
def Room (writable : Nat → Bool) (top n : Nat) : Prop :=
  n ≤ top ∧ ∀ a, top - n ≤ a → a < top → writable a = true

def roomTest (writable : Nat → Bool) (top : Nat) : Bool :=
  decide (8 ≤ top) && (List.range 8).all fun i => writable (top - 8 + i)

/-- `none` is a fault. `PUSH RSP` pushes the value from before. -/
def Cpu.push (writable : Nat → Bool) (v : BitVec 64) (c : Cpu) : Option Cpu :=
  if roomTest writable (c.gpr .rsp).toNat then
    some { c with
      gpr := Function.update c.gpr .rsp (c.gpr .rsp - 8)
      mem := c.mem.putWord ((c.gpr .rsp).toNat - 8) v }
  else none

/-- What is popped was pushed, so can be read. -/
def Cpu.pop (r : Reg) (c : Cpu) : Cpu :=
  { c with
    gpr := Function.update (Function.update c.gpr .rsp (c.gpr .rsp + 8)) r (c.mem.word (c.gpr .rsp).toNat) }

def Cpu.iretq (c : Cpu) : Cpu :=
  let top := (c.gpr .rsp).toNat
  { c with
    rip := c.mem.word top
    cs := c.mem.word (top + 8)
    rflags := c.mem.word (top + 16)
    gpr := Function.update c.gpr .rsp (c.mem.word (top + 24))
    ss := c.mem.word (top + 32) }

def stepInsn (writable : Nat → Bool) (c : Cpu) : Insn → Option Cpu
  | .push o => c.push writable (o.value c.gpr)
  | .pop r => some (c.pop r)
  | .mov dst src => some { c with gpr := Function.update c.gpr dst (c.gpr src) }
  | .add dst v => some { c with gpr := Function.update c.gpr dst (c.gpr dst + v) }
  | .cld => some { c with rflags := c.rflags &&& ~~~0x400 }
  | .iretq => some c.iretq

def run (writable : Nat → Bool) : List Insn → Cpu → Option Cpu
  | [], c => some c
  | i :: is, c => (stepInsn writable c i).bind (run writable is)

/-! ## The stubs -/

/-- In both stubs. -/
def saveRegs : List Insn :=
  [.push (.reg .rax), .push (.reg .rbx), .push (.reg .rcx), .push (.reg .rdx), .push (.reg .rsi),
    .push (.reg .rdi), .push (.reg .rbp), .push (.reg .r8), .push (.reg .r9), .push (.reg .r10),
    .push (.reg .r11), .push (.reg .r12), .push (.reg .r13), .push (.reg .r14), .push (.reg .r15)]

def restoreRegs : List Insn :=
  [.pop .r15, .pop .r14, .pop .r13, .pop .r12, .pop .r11, .pop .r10, .pop .r9, .pop .r8,
    .pop .rbp, .pop .rdi, .pop .rsi, .pop .rdx, .pop .rcx, .pop .rbx, .pop .rax]

def syscallEntry : Stub where
  enter :=
    [.push (.imm 0x23), .push (.reg .rsp), .push (.reg .r11), .push (.imm 0x1B), .push (.reg .rcx),
      .push (.imm 0), .push (.imm 0x80)] ++ saveRegs ++ [.mov .rdi .rsp, .cld]
  leave := restoreRegs ++ [.add .rsp 16, .iretq]

/-- `isr_stub_128` and `isr_common`. -/
def isrStub128 : Stub where
  enter := [.push (.imm 0), .push (.imm 0x80)] ++ saveRegs ++ [.mov .rdi .rsp]
  leave := restoreRegs ++ [.add .rsp 16, .iretq]

/-! ## The handler -/

/-- `struct regs`. -/
structure Regs where
  r15 : BitVec 64
  r14 : BitVec 64
  r13 : BitVec 64
  r12 : BitVec 64
  r11 : BitVec 64
  r10 : BitVec 64
  r9 : BitVec 64
  r8 : BitVec 64
  rbp : BitVec 64
  rdi : BitVec 64
  rsi : BitVec 64
  rdx : BitVec 64
  rcx : BitVec 64
  rbx : BitVec 64
  rax : BitVec 64
  intNo : BitVec 64
  errCode : BitVec 64
  rip : BitVec 64
  cs : BitVec 64
  rflags : BitVec 64
  rsp : BitVec 64
  ss : BitVec 64
  deriving DecidableEq, Repr

/-- The fields in the order they have in memory. -/
def Regs.words (r : Regs) : List (BitVec 64) :=
  [r.r15, r.r14, r.r13, r.r12, r.r11, r.r10, r.r9, r.r8, r.rbp, r.rdi, r.rsi, r.rdx, r.rcx, r.rbx, r.rax,
    r.intNo, r.errCode, r.rip, r.cs, r.rflags, r.rsp, r.ss]

def Regs.load (m : Mem) (p : Nat) : Regs where
  r15 := m.word p
  r14 := m.word (p + 8)
  r13 := m.word (p + 16)
  r12 := m.word (p + 24)
  r11 := m.word (p + 32)
  r10 := m.word (p + 40)
  r9 := m.word (p + 48)
  r8 := m.word (p + 56)
  rbp := m.word (p + 64)
  rdi := m.word (p + 72)
  rsi := m.word (p + 80)
  rdx := m.word (p + 88)
  rcx := m.word (p + 96)
  rbx := m.word (p + 104)
  rax := m.word (p + 112)
  intNo := m.word (p + 120)
  errCode := m.word (p + 128)
  rip := m.word (p + 136)
  cs := m.word (p + 144)
  rflags := m.word (p + 152)
  rsp := m.word (p + 160)
  ss := m.word (p + 168)

/-- A service gets the frame and the memory; its own stack frames lie below the frame. One that
ends its thread or its process does not return. -/
inductive Service
  | ends
  | returns (f : Nat → Regs → Mem → BitVec 64 × Mem)

/-- The caller's code segment is `SEL_UCODE32 | 3`. -/
def Regs.is32 (r : Regs) : Bool := r.cs &&& 0xFFFF == 0x3B

/-- `(uint32_t)` of a register. -/
def low32 (v : BitVec 64) : BitVec 64 := v &&& 0xFFFFFFFF

/-- What `syscall_dispatch` makes of the frame of a 32-bit caller. -/
def Regs.normalise (r : Regs) : Regs :=
  if r.is32 then
    { r with rax := low32 r.rax, rdi := low32 r.rdi, rsi := low32 r.rsi, rdx := low32 r.rdx, rcx := low32 r.rcx }
  else r

def storeArgs (p : Nat) (r : Regs) (m : Mem) : Mem :=
  ((((m.putWord (p + 112) r.rax).putWord (p + 72) r.rdi).putWord (p + 80) r.rsi).putWord (p + 88) r.rdx).putWord
    (p + 96) r.rcx

/-- `syscall_dispatch` on the frame at `p`; `none` where it does not return. -/
def syscallDispatch (ssdt : Nat → Option Service) (p : Nat) (m : Mem) : Option Mem :=
  let r := Regs.load m p
  let m := if r.is32 then storeArgs p r.normalise m else m
  match ssdt r.normalise.rax.toNat with
  | some (.returns f) =>
    let (rax, m) := f p r.normalise m
    some (m.putWord (p + 112) rax)
  | some .ends => none
  | none => some (m.putWord (p + 112) (-1))

/-! ## The traps -/

/-- Segments of the kernel. -/
def selKcode : BitVec 64 := 0x08

def selKdata : BitVec 64 := 0x10

def sfmask : BitVec 64 := 0x4700

/-- The `SYSCALL` instruction; `rip` is that of the instruction behind it. -/
def syscallTrap (c : Cpu) : Cpu :=
  { c with
    gpr := Function.update (Function.update c.gpr .rcx c.rip) .r11 c.rflags
    rflags := c.rflags &&& ~~~sfmask
    cs := selKcode
    ss := selKdata }

def pushList (writable : Nat → Bool) : List (BitVec 64) → Cpu → Option Cpu
  | [], c => some c
  | v :: vs, c => (c.push writable v).bind (pushList writable vs)

/-- `INT 0x80` from ring 3: the stack becomes that of the TSS, aligned to 16. -/
def int80Trap (writable : Nat → Bool) (rsp0 : BitVec 64) (c : Cpu) : Option Cpu :=
  (pushList writable [c.ss, c.gpr .rsp, c.rflags, c.cs, c.rip]
    { c with gpr := Function.update c.gpr .rsp (rsp0 &&& ~~~0xF) }).map fun d => { d with cs := selKcode, ss := 0 }

/-- One way through the kernel: the frame the handler gets, the memory at that moment, and the
state back in ring 3 if the service returns. -/
structure Trip where
  frame : Regs
  entered : Mem
  back : Option Cpu

/-- The C code may leave anything in the registers but RSP. -/
def travel (writable : Nat → Bool) (ssdt : Nat → Option Service) (scratch : Reg → BitVec 64) (stub : Stub)
    (c : Cpu) : Option Trip :=
  (run writable stub.enter c).map fun d =>
    let p := (d.gpr .rdi).toNat
    { frame := Regs.load d.mem p
      entered := d.mem
      back := (syscallDispatch ssdt p d.mem).bind fun mem =>
        run writable stub.leave { d with gpr := Function.update scratch .rsp (d.gpr .rsp), mem } }

end MeuOS.Syscall
