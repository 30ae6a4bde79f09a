import MeuOS.Lib.Mem
import MeuOS.Lib.Run

/-! Ring 3 on CPU 0: processes that run inside `NtCreateProcess` of their parents, threads of
ring 3, and the registers that three parts of the kernel switch for them, `run_child_image`,
`usermode_enter` and `ki_quantum_end`. The kernel runs with interrupts off, so between a trap
and its `iretq` it does one thing after the other. The process images are 64-bit ones. -/
namespace MeuOS.Ke

open MeuOS.Lib

/-- The window of stack, TEB and PEB that every process has at the same place. -/
def uwinBase : Nat := 0x600000
def uwinSize : Nat := 0x100000
def ustackTop : Nat := uwinBase + uwinSize
def tebAddr : Nat := uwinBase
def pebAddr : Nat := uwinBase + 0x1000
def ustackLimit : Nat := uwinBase + 0x2000

/-- `build_teb_peb`, on the bytes of the window. -/
def buildTebPeb (loadBase : Nat) (cmdline : List UInt8) (win : Mem) : Mem :=
  let win := win.blit 0 0x2000 fun _ => 0
  let win := win.write 0x08 8 ustackTop
  let win := win.write 0x10 8 ustackLimit
  let win := win.write 0x30 8 tebAddr
  let win := win.write 0x60 8 pebAddr
  let win := win.write 0x68 8 0
  let win := win.write 0x1010 8 loadBase
  if cmdline = [] then win
  else win.blit 0x1800 (cmdline.length + 1) fun i => cmdline.getD i 0

/-- A context of ring 3: its TEB, the address space of its process, and, while it is not
running, the top of the kernel stack that its trap frame lies on. `intact` is false once
another frame has been pushed over that one. -/
structure Ring3Context where
  teb : Nat
  cr3 : Nat
  frame : Option Nat
  intact : Bool
  deriving DecidableEq

/-- The call of `usermode_enter` that `g_user_exit` jumps back into: the thread it was made
on, and how many children it was made below. -/
structure ExitPoint where
  thread : Nat
  depth : Nat
  deriving DecidableEq

/-- What `run_child_image` saves of the parent. -/
structure ParentState where
  exitBuffer : Option ExitPoint
  window : Mem
  cr3 : Nat
  gsBase : Nat
  rsp0 : Nat

/-- The outermost context of a thread. `kernelCr3` is the local of `usermode_enter`. -/
structure BaseContext where
  context : Ring3Context
  kernelCr3 : Nat

/-- A child that runs inside `run_child_image`, on the kernel stack `kstk`. -/
structure ChildContext where
  context : Ring3Context
  kstk : Nat
  saved : ParentState

/-- A `ki_thread_t`, with the children running on it, the innermost first. -/
structure Ring3Thread where
  isRing3 : Bool
  userTeb : Nat
  kstackTop : Nat
  terminated : Bool
  base : Option BaseContext
  children : List ChildContext

namespace Ring3Thread

/-- The innermost context of a thread with this base and these children. -/
def innermostOf (base : Option BaseContext) : List ChildContext → Option Ring3Context
  | [] => base.map BaseContext.context
  | c :: _ => some c.context

def innermost (th : Ring3Thread) : Option Ring3Context := innermostOf th.base th.children

/-- The kernel stack for the traps of the innermost context. -/
def stackOf (kstackTop : Nat) : List ChildContext → Nat
  | [] => kstackTop
  | c :: _ => c.kstk

def topStack (th : Ring3Thread) : Nat := stackOf th.kstackTop th.children

/-- The kernel stacks of the thread. -/
def kstacks (th : Ring3Thread) : List Nat := th.kstackTop :: th.children.map ChildContext.kstk

def mapInnermost (f : Ring3Context → Ring3Context) (th : Ring3Thread) : Ring3Thread :=
  match th.children with
  | [] => { th with base := th.base.map fun b => { b with context := f b.context } }
  | c :: rest => { th with children := { c with context := f c.context } :: rest }

def mapContexts (f : Ring3Context → Ring3Context) (th : Ring3Thread) : Ring3Thread :=
  { th with base := th.base.map fun b => { b with context := f b.context }
            children := th.children.map fun c => { c with context := f c.context } }

/-- All contexts of the thread, each with its kernel stack. -/
def contexts (th : Ring3Thread) : List (Ring3Context × Nat) :=
  th.children.map (fun c => (c.context, c.kstk)) ++
    (th.base.map fun b => (b.context, th.kstackTop)).toList

end Ring3Thread

/-- `lost` is set by a jump to a call of `usermode_enter` that is not the innermost one of
the thread that jumps. -/
structure Ring3Machine where
  thread : Nat → Ring3Thread
  created : Nat
  current : Nat
  inRing3 : Bool
  ring3Active : Bool
  rsp0 : Nat
  gsBase : Nat
  cr3 : Nat
  exitBuffer : Option ExitPoint
  window : Mem
  kpcr : Nat
  lost : Bool

/-- The image of a process: what `usermode_enter` finds and makes for it. `procCr3` is 0 where
there is no memory for another address space. -/
structure Ring3Image where
  loadBase : Nat
  cmdline : List UInt8
  procCr3 : Nat

inductive Ring3Event
  /-- An interrupt, a fault or a service of ring 3. -/
  | trap
  | iret
  /-- A thread of ring 3 runs for the first time. -/
  | ring3Trampoline
  /-- `ki_quantum_end` goes over to another thread. -/
  | quantumEnd (next : Nat)
  /-- `kmain` runs an application. -/
  | ldrRun (image : Ring3Image)
  /-- `run_child_image`, for `NtCreateProcess`, with the kernel stack it has allocated. -/
  | runChildImage (image : Ring3Image) (kstk : Nat)
  /-- `ki_launch_ring3_thread`, for `NtCreateThread` in a process with this address space. -/
  | launchRing3Thread (teb kstack procCr3 : Nat)
  | createSystemThread (kstack : Nat)
  /-- `sys_exit`, or a fault that is not recovered, with the stack pointer of ring 3. -/
  | sysExit (rsp : Nat)
  /-- `NtTerminateProcess` of the own process. -/
  | terminateProcess
  | sysThreadExit
  /-- Ring 3 writes into the window. -/
  | userWrite (off : Nat) (b : UInt8)

namespace Ring3Machine

def currentThread (s : Ring3Machine) : Ring3Thread := s.thread s.current

def setCurrent (s : Ring3Machine) (th : Ring3Thread) : Ring3Machine :=
  { s with thread := Function.update s.thread s.current th }

/-- What `run_child_image` looks at before it runs the child. -/
def snapshot (s : Ring3Machine) : ParentState :=
  ⟨s.exitBuffer, s.window, s.cr3, s.gsBase, s.rsp0⟩

/-- The CPU pushes a trap frame at the top of the stack in TSS.RSP0. -/
def pushFrame (s : Ring3Machine) : Ring3Machine :=
  let hit (c : Ring3Context) := if c.frame = some s.rsp0 then { c with intact := false } else c
  let s := { s with thread := fun t => (s.thread t).mapContexts hit, inRing3 := false }
  s.setCurrent (s.currentThread.mapInnermost fun c => { c with frame := some s.rsp0, intact := true })

/-- `ki_mark_current_ring3`. -/
def kiMarkCurrentRing3 (s : Ring3Machine) (userTeb : Nat) : Ring3Machine :=
  let cur := s.currentThread
  let kstackTop := if cur.kstackTop = 0 then s.rsp0 else cur.kstackTop
  { s.setCurrent { cur with isRing3 := true, userTeb := userTeb, kstackTop := kstackTop } with
    ring3Active := true }

/-- The address space the image runs in. -/
def imageCr3 (s : Ring3Machine) (image : Ring3Image) : Nat :=
  if image.procCr3 = 0 then s.cr3 else image.procCr3

/-- `usermode_enter` up to its `iretq`, less the new context. -/
def usermodeEnter (s : Ring3Machine) (image : Ring3Image) (depth : Nat) : Ring3Machine :=
  let s := { s with window := buildTebPeb image.loadBase image.cmdline s.window }
  let s := s.kiMarkCurrentRing3 tebAddr
  { s with exitBuffer := some ⟨s.current, depth⟩
           cr3 := s.imageCr3 image
           gsBase := tebAddr
           inRing3 := true }

/-- The context an image starts in. -/
def imageContext (s : Ring3Machine) (image : Ring3Image) : Ring3Context :=
  ⟨tebAddr, s.imageCr3 image, none, true⟩

def ldrRun (s : Ring3Machine) (image : Ring3Image) : Ring3Machine :=
  let base := ⟨s.imageContext image, s.cr3⟩
  let s := s.usermodeEnter image 0
  s.setCurrent { s.currentThread with base := some base }

/-- `run_child_image` until the child is in ring 3. -/
def runChildImage (s : Ring3Machine) (image : Ring3Image) (kstk : Nat) : Ring3Machine :=
  let child := ⟨s.imageContext image, kstk, s.snapshot⟩
  let depth := s.currentThread.children.length + 1
  let s := { s with rsp0 := kstk }.usermodeEnter image depth
  s.setCurrent { s.currentThread with children := child :: s.currentThread.children }

/-- The end of `run_child_image`. -/
def restoreParent (s : Ring3Machine) (p : ParentState) : Ring3Machine :=
  { s with rsp0 := p.rsp0, window := p.window, exitBuffer := p.exitBuffer, cr3 := p.cr3,
           gsBase := p.gsBase }

/-- `__builtin_longjmp` into `g_user_exit`, and what the call of `usermode_enter` and its caller
do then. -/
def longjmpExit (s : Ring3Machine) : Option Ring3Machine :=
  let cur := s.currentThread
  if s.exitBuffer ≠ some ⟨s.current, cur.children.length⟩ then some { s with lost := true }
  else
    match cur.children, cur.base with
    | c :: rest, _ =>
        some ((s.setCurrent { cur with children := rest }).restoreParent c.saved)
    | [], some b =>
        some { s.setCurrent { cur with base := none } with cr3 := b.kernelCr3, gsBase := s.kpcr }
    | [], none => none

/-- `ki_ring3_thread_exit` before it goes over to another thread. -/
def kiRing3ThreadExit (s : Ring3Machine) : Ring3Machine :=
  s.setCurrent { s.currentThread with terminated := true, base := none, children := [] }

/-- `ki_quantum_end` where it goes over to `next`. -/
def kiQuantumEnd (s : Ring3Machine) (next : Nat) : Ring3Machine :=
  let s := { s with current := next }
  if s.ring3Active then
    let th := s.thread next
    { s with rsp0 := th.kstackTop, gsBase := if th.isRing3 then th.userTeb else s.kpcr }
  else s

/-- The thread that `ki_create_thread` makes. -/
def addThread (s : Ring3Machine) (th : Ring3Thread) : Ring3Machine :=
  { s with thread := Function.update s.thread s.created th, created := s.created + 1 }

/-- The context of the thread that the kernel works for. -/
def Serving (s : Ring3Machine) (c : Ring3Context) : Prop :=
  s.inRing3 = false ∧ s.currentThread.innermost = some c ∧ c.frame ≠ none

/-- The heap hands out a stack that nobody has. -/
def FreshStack (s : Ring3Machine) (kstack : Nat) : Prop :=
  kstack ≠ 0 ∧ ∀ t, t < s.created → kstack ∉ (s.thread t).kstacks

end Ring3Machine

open Ring3Machine in
inductive Ring3Step : Ring3Machine → Ring3Event → Ring3Machine → Prop
  | trap (s : Ring3Machine) (hring : s.inRing3 = true) : Ring3Step s .trap s.pushFrame
  | iret (s : Ring3Machine) (c : Ring3Context) (hserving : s.Serving c) :
      Ring3Step s .iret { s.setCurrent (s.currentThread.mapInnermost fun c => { c with frame := none })
        with inRing3 := true }
  | ring3Trampoline (s : Ring3Machine) (b : BaseContext) (hkernel : s.inRing3 = false)
      (hbase : s.currentThread.base = some b) (hnew : b.context.frame = none)
      (halone : s.currentThread.children = []) :
      Ring3Step s .ring3Trampoline
        { s with rsp0 := s.currentThread.kstackTop, gsBase := s.currentThread.userTeb, inRing3 := true }
  | quantumEnd (s : Ring3Machine) (next : Nat) (hkernel : s.inRing3 = false) (hnext : next < s.created)
      (hother : next ≠ s.current) : Ring3Step s (.quantumEnd next) (s.kiQuantumEnd next)
  | ldrRun (s : Ring3Machine) (image : Ring3Image) (hkernel : s.inRing3 = false)
      (hboot : s.current = 0) (hbase : s.currentThread.innermost = none)
      (halive : s.currentThread.terminated = false) :
      Ring3Step s (.ldrRun image) (s.ldrRun image)
  | runChildImage (s : Ring3Machine) (image : Ring3Image) (kstk : Nat) (c : Ring3Context)
      (hserving : s.Serving c) (hfresh : s.FreshStack kstk) :
      Ring3Step s (.runChildImage image kstk) (s.runChildImage image kstk)
  | launchRing3Thread (s : Ring3Machine) (teb kstack procCr3 : Nat) (c : Ring3Context)
      (hserving : s.Serving c) (hfresh : s.FreshStack kstack) :
      Ring3Step s (.launchRing3Thread teb kstack procCr3)
        { s.addThread ⟨true, teb, kstack, false, some ⟨⟨teb, procCr3, none, true⟩, 0⟩, []⟩ with
          ring3Active := true }
  | createSystemThread (s : Ring3Machine) (kstack : Nat) (hkernel : s.inRing3 = false)
      (hfresh : s.FreshStack kstack) :
      Ring3Step s (.createSystemThread kstack) (s.addThread ⟨false, 0, kstack, false, none, []⟩)
  | sysExitMain (s s' : Ring3Machine) (rsp : Nat) (c : Ring3Context) (hserving : s.Serving c)
      (hrsp : uwinBase ≤ rsp ∧ rsp < ustackTop) (hjump : s.longjmpExit = some s') :
      Ring3Step s (.sysExit rsp) s'
  | sysExitWorker (s : Ring3Machine) (rsp : Nat) (c : Ring3Context) (hserving : s.Serving c)
      (hrsp : ¬(uwinBase ≤ rsp ∧ rsp < ustackTop)) :
      Ring3Step s (.sysExit rsp) s.kiRing3ThreadExit
  | terminateProcess (s s' : Ring3Machine) (c : Ring3Context) (hserving : s.Serving c)
      (hjump : s.longjmpExit = some s') : Ring3Step s .terminateProcess s'
  | sysThreadExit (s : Ring3Machine) (c : Ring3Context) (hserving : s.Serving c) :
      Ring3Step s .sysThreadExit s.kiRing3ThreadExit
  | userWrite (s : Ring3Machine) (off : Nat) (b : UInt8) (hring : s.inRing3 = true)
      (hoff : off < uwinSize) :
      Ring3Step s (.userWrite off b) { s with window := Function.update s.window off b }

/-- `kmain` on the boot stack, before any ring 3. -/
structure Ring3Booted (s : Ring3Machine) : Prop where
  boot : s.current = 0 ∧ s.created = 1 ∧ s.inRing3 = false ∧ s.ring3Active = false
  lost : s.lost = false
  stack : s.rsp0 = (s.thread 0).kstackTop ∧ (s.thread 0).kstackTop ≠ 0
  empty : ∀ t, (s.thread t).base = none ∧ (s.thread t).children = []

/-! ## What ring 3 is promised -/

/-- A context of ring 3 runs with a kernel stack that holds no other context's frame, its own
TEB and its own address space, and nobody's frame has been overwritten. -/
structure Ring3Machine.Integrity (s : Ring3Machine) : Prop where
  rsp0 : s.inRing3 = true → (∃ t, t < s.created ∧ s.rsp0 ∈ (s.thread t).kstacks) ∧
    ∀ t p, p ∈ (s.thread t).contexts → p.1.frame ≠ some s.rsp0
  regs : s.inRing3 = true → ∃ c, s.currentThread.innermost = some c ∧ s.gsBase = c.teb ∧ s.cr3 = c.cr3
  intact : ∀ t p, p ∈ (s.thread t).contexts → p.1.intact = true
  found : s.lost = false

/-- The event ends the process of the thread by the jump into `g_user_exit`. -/
def Ring3Event.EndsProcess : Ring3Event → Prop
  | .sysExit rsp => uwinBase ≤ rsp ∧ rsp < ustackTop
  | .terminateProcess => True
  | _ => False

/-- The event ends the thread and nothing else. -/
def Ring3Event.EndsThread : Ring3Event → Prop
  | .sysExit rsp => ¬(uwinBase ≤ rsp ∧ rsp < ustackTop)
  | .sysThreadExit => True
  | _ => False

/-- A thread comes back only outside `NtCreateProcess`, with the TEB in its KTHREAD still its
own and the CR3 of its process loaded. A process is ended only where it was the last one to be
entered, and a thread only outside `NtCreateProcess`. -/
structure Ring3Machine.EventOk (s : Ring3Machine) (e : Ring3Event) : Prop where
  alone : ∀ next, e = .quantumEnd next → (s.thread next).children = []
  own : ∀ next b, e = .quantumEnd next → (s.thread next).base = some b →
    (s.thread next).userTeb = b.context.teb ∧ s.cr3 = b.context.cr3
  process : e.EndsProcess → s.exitBuffer = some ⟨s.current, s.currentThread.children.length⟩
  thread : e.EndsThread → s.currentThread.children = []

/-- `run_child_image`, called in `s`, has gone back to the parent with everything that it saved. -/
structure Ring3Machine.Resumed (s s' : Ring3Machine) : Prop where
  current : s'.current = s.current
  snapshot : s'.snapshot = s.snapshot
  serving : ∃ c, s'.Serving c ∧ c.frame = some s.rsp0 ∧ c.intact = true ∧ s.gsBase = c.teb ∧
    s.cr3 = c.cr3

end MeuOS.Ke
