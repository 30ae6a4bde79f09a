import MeuOS.Lib.Run
import MeuOS.Io.Irp

/-! The IRP of `NtReadFile`, `NtWriteFile` and `NtDeviceIoControlFile`, from `IoCallDriver`
to `io_free_irp`. The service takes its steps one at a time, and between any two of them
a DPC, a timer or another thread of the driver may take one of its own. -/
namespace MeuOS.Io

open MeuOS.Lib

def statusUnsuccessful : BitVec 32 := 0xC0000001#32

inductive IoService
  | readFile
  | writeFile
  | deviceIoControl
  deriving DecidableEq, Repr

/-- What a driver writes into an IRP it holds. -/
inductive DriverWrite
  | status (st : BitVec 32)
  | information (n : BitVec 64)
  | output (i : Nat) (b : UInt8)
  | markPending

/-- What a driver does with the IRP its dispatch routine is called with: complete it there,
leave its completion to another context, or return without. -/
inductive Behaviour
  | completes (ws : List DriverWrite)
  | defers (ws later : List DriverWrite)
  | fails (ws : List DriverWrite)

/-- A call of a service on a file with a device. `buffer` and `count` are pointers of the
caller, 0 for none, and `input` the bytes it hands in. The IRP could be allocated. -/
structure ServiceCall where
  service : IoService
  buffer : Nat
  length : Nat
  input : Nat → UInt8
  inLength : Nat
  count : Nat
  device : Nat
  /-- `none` where the driver has no routine for the major function. -/
  routine : Option Behaviour
  /-- The block `kmalloc` has for the system buffer, `none` for a null. -/
  block : Option (Nat → UInt8)

namespace ServiceCall

/-- The writes of the dispatch routine and how it ends. The one `IoCallDriver` stands in
with fails the IRP. -/
def behaviour (q : ServiceCall) : Behaviour :=
  match q.routine with
  | some b => b
  | none => .fails [.status statusUnsuccessful]

def bufferSize (q : ServiceCall) : Nat :=
  match q.service with
  | .deviceIoControl => if q.inLength > q.length then q.inLength else q.length
  | _ => q.length

/-- A byte of the system buffer before the driver is called. -/
def initial (q : ServiceCall) (block : Nat → UInt8) (i : Nat) : UInt8 :=
  match q.service with
  | .readFile => block i
  | .writeFile => if q.buffer ≠ 0 then q.input i else block i
  | .deviceIoControl => if i < q.inLength then q.input i else block i

/-- `SystemBuffer` of `io_build_read`, `io_build_write` and `io_build_ioctl`. -/
def systemBuffer (q : ServiceCall) : Option (List UInt8) :=
  if q.bufferSize = 0 then none
  else q.block.map fun block => (List.range q.bufferSize).map (q.initial block)

/-- The service has somewhere to copy output to. -/
def copies (q : ServiceCall) : Bool := q.service != .writeFile && q.buffer != 0

/-- The service has somewhere to report the byte count. -/
def counts (q : ServiceCall) : Bool := q.service != .deviceIoControl && q.count != 0

/-- The output data of an IRP with these contents. -/
def output (q : ServiceCall) (information : BitVec 64) (systemBuffer : Option (List UInt8)) :
    List UInt8 :=
  if q.copies then (systemBuffer.getD []).take (min information.toNat q.length) else []

end ServiceCall

/-- What the driver leaves in the IRP when it lets go of it. -/
structure Outcome where
  status : BitVec 32
  information : BitVec 64
  output : List UInt8

/-- What the caller of the service gets. -/
structure Answer where
  rax : BitVec 64
  count : Option (BitVec 32)
  output : List UInt8

/-- Where the service is. It has read `IoStatus.Information` from `copy` on, `IoStatus.Status`
from `freeBuffer` on. -/
inductive Pc
  | dispatch (ws : List DriverWrite)
  | collect
  | copy (info : BitVec 64) (left : Nat)
  | status (info : BitVec 64)
  | freeBuffer (info : BitVec 64) (st : BitVec 32)
  | freeIrp (info : BitVec 64) (st : BitVec 32)
  | answered

structure Lifetime where
  packet : Irp
  information : BitVec 64
  systemBuffer : Option (List UInt8)
  irpFrees : Nat
  bufferFrees : Nat
  pc : Pc
  /-- What another context of the driver has still to write before it completes the IRP. -/
  later : Option (List DriverWrite)
  copied : List UInt8
  outcome : Option Outcome
  answer : Option Answer

namespace Lifetime

/-- A write of the driver. A block that is freed takes it as well. -/
def write (w : Lifetime) : DriverWrite → Lifetime
  | .status st => { w with packet := { w.packet with status := st.toInt } }
  | .information n => { w with information := n }
  | .output i b => { w with systemBuffer := w.systemBuffer.map fun bytes => bytes.set i b }
  | .markPending =>
      let i := w.packet.currentStackLocation
      let l := w.packet.locations i
      { w with packet := w.packet.setLocation i { l with control := l.control ||| slPendingReturned } }

def letGo (q : ServiceCall) (w : Lifetime) : Lifetime :=
  { w with outcome := some ⟨BitVec.ofInt 32 w.packet.status, w.information,
      q.output w.information w.systemBuffer⟩ }

/-- `IoCompleteRequest`, on an IRP no completion routine was set for. -/
def complete (q : ServiceCall) (w : Lifetime) : Option Lifetime :=
  (ioCompleteRequest (fun _ => false) w.packet).map fun walk =>
    { w.letGo q with packet := walk.1 }

/-- The service, in the thread that called it. What `IoCallDriver` returns is dropped. -/
def serviceStep (q : ServiceCall) (w : Lifetime) : Option Lifetime :=
  match w.pc with
  | .dispatch (d :: ws) => some { w.write d with pc := .dispatch ws }
  | .dispatch [] =>
      match q.behaviour with
      | .completes _ => (w.complete q).map fun w => { w with pc := .collect }
      | .defers _ later => some { w with pc := .collect, later := some later }
      | .fails _ => some { w.letGo q with pc := .collect }
  | .collect =>
      let pc :=
        if q.copies ∧ w.systemBuffer.isSome ∧ w.information ≠ 0 then
          Pc.copy w.information (min w.information.toNat q.length)
        else Pc.status w.information
      some { w with pc := pc }
  | .copy info 0 => some { w with pc := .status info }
  | .copy info (n + 1) =>
      (w.systemBuffer.bind fun bytes => bytes[w.copied.length]?).map fun b =>
        { w with pc := .copy info n, copied := w.copied ++ [b] }
  | .status info => some { w with pc := .freeBuffer info (BitVec.ofInt 32 w.packet.status) }
  | .freeBuffer info st =>
      let frees := if w.systemBuffer.isSome then w.bufferFrees + 1 else w.bufferFrees
      some { w with pc := .freeIrp info st, bufferFrees := frees }
  | .freeIrp info st =>
      let count := if q.counts then some (info.setWidth 32) else none
      let answer := ⟨st.setWidth 64, count, w.copied⟩
      some { w with pc := .answered, irpFrees := w.irpFrees + 1, answer := some answer }
  | .answered => some w

/-- The driver, outside its dispatch routine. -/
def driverStep (q : ServiceCall) (w : Lifetime) : Option Lifetime :=
  match w.later with
  | none => some w
  | some (d :: ws) => some { w.write d with later := some ws }
  | some [] => (w.complete q).map fun w => { w with later := none }

end Lifetime

inductive Turn
  | service
  | driver
  deriving DecidableEq, Repr

def lifetimeStep (q : ServiceCall) (w : Lifetime) : Turn → Option Lifetime
  | .service => w.serviceStep q
  | .driver => w.driverStep q

/-- The writes of the dispatch routine. -/
def Behaviour.writes : Behaviour → List DriverWrite
  | .completes ws => ws
  | .defers ws _ => ws
  | .fails ws => ws

namespace ServiceCall

/-- The IRP as the driver gets it. -/
def start (q : ServiceCall) : Option Lifetime :=
  (ioCallDriver (ioAllocIrp 1 0 0) q.device).map fun packet =>
    { packet := packet
      information := 0
      systemBuffer := q.systemBuffer
      irpFrees := 0
      bufferFrees := 0
      pc := .dispatch q.behaviour.writes
      later := none
      copied := []
      outcome := none
      answer := none }

def run (q : ServiceCall) (turns : List Turn) : Option Lifetime :=
  q.start.bind (runSteps (lifetimeStep q) turns)

end ServiceCall

/-! ## What the service and the driver rely on -/

/-- The driver has the IRP. -/
def Lifetime.Held (w : Lifetime) : Prop := (∃ ws, w.pc = .dispatch ws) ∨ w.later.isSome

/-- The caller gets what the driver left. -/
structure Answer.Reports (a : Answer) (o : Outcome) : Prop where
  status : a.rax = o.status.setWidth 64
  count : ∀ n ∈ a.count, n.toNat = o.information.toNat
  output : a.output = o.output

structure Lifetime.Lawful (w : Lifetime) : Prop where
  held : w.Held → w.irpFrees = 0 ∧ w.bufferFrees = 0
  once : w.irpFrees ≤ 1 ∧ w.bufferFrees ≤ 1
  freed : w.pc = .answered → w.irpFrees = 1 ∧ (w.bufferFrees = 1 ↔ w.systemBuffer.isSome)
  reports : ∀ a ∈ w.answer, ∀ o ∈ w.outcome, a.Reports o

/-- Whatever the order of the steps, every state is lawful, and the service, if it gets its
turns, comes to its end. -/
structure ServiceCall.Kept (q : ServiceCall) : Prop where
  lawful : ∀ turns, ∃ w, q.run turns = some w ∧ w.Lawful
  ends : ∃ n, ∀ turns : List Turn, n ≤ turns.count .service →
    ∃ w, q.run turns = some w ∧ w.pc = .answered

/-- The driver is done with the IRP when its dispatch routine returns. -/
def Behaviour.LetsGo : Behaviour → Prop
  | .defers .. => False
  | _ => True

/-- `IoStatus.Information` behind these writes. -/
def informationAfter (n : BitVec 64) (ws : List DriverWrite) : BitVec 64 :=
  ws.foldl (fun n d => match d with | .information m => m | _ => n) n

end MeuOS.Io
