import MeuOS.Lib.Run
import MeuOS.Ke.Sched

/-! The locks of the timer interrupt. A processor runs a thread's code or, on top of it, the
handler of the interrupt. What is left to do is a list of operations on locks and on the
interrupt flag; how the tests of a call come out is chosen when it is entered. -/
namespace MeuOS.Ke

open MeuOS.Lib

/-- `s_tlock`, the lock of each DPC queue, and `s_dispatcher_lock`. -/
inductive SpinLock
  | timers
  | dpc (cpu : Nat)
  | dispatcher
  deriving DecidableEq, Repr

/-- `kiCheckDpcDrain` is what a pair of `KeRaiseIrql` and `KeLowerIrql` does. -/
inductive Call
  | keSetTimerEx
  | keCancelTimer
  | keInsertQueueDpc
  | keRemoveQueueDpc
  | kiCheckDpcDrain
  | kiRetireDpcList (cpu : Nat)
  | keSetEvent
  | kiReadyThread (t : Tid)
  | kiWake
  | keWaitForSingleObject
  | kiQuantumEnd
  | kiTimerTick
  deriving Repr

/-- `ready` is the thread that goes into a processor's queue while the lock is held. A saved
flag is that of the moment the call was entered. -/
inductive Op
  | call (c : Call)
  | irqSave
  | irqRestore (f : Bool)
  | irqSaveLock (ready : Option (Tid × Nat))
  | lock (l : SpinLock) (ready : Option (Tid × Nat))
  | unlock (l : SpinLock) (ready : Option (Tid × Nat))
  | swap (sleeps : Bool)
  deriving Repr

/-- A timer of the tick's batch. -/
structure Expiry where
  dpc : Bool
  periodic : Bool
  deriving Repr

/-- How the tests of a call come out. -/
inductive Outcome
  | returns
  | refused
  | goesOn
  | number (cpu : Nat)
  | routine (calls : List Call)
  | target (cpu : Nat)
  | batch (threads : List Tid)
  | expired (timers : List Expiry)
  | next (t : Tid)
  deriving Repr

/-- The loop of `KiTimerTick` after the list was walked. -/
def Expiry.ops (x : Expiry) : List Op :=
  .call .kiWake :: (if x.dpc then [.call .keInsertQueueDpc] else []) ++
    if x.periodic then [.lock .timers none] else []

/-- What a call does on `cpu`, entered with the interrupt flag `f`. A call that returns finds a
null argument, legacy mode or no subsystem. -/
def body (cpu : Nat) (f : Bool) : Call → Outcome → Option (List Op)
  | .keSetTimerEx, .returns => some []
  | .keSetTimerEx, .goesOn => some [.lock .timers none]
  | .keCancelTimer, .returns => some []
  | .keCancelTimer, .goesOn => some [.lock .timers none]
  | .keInsertQueueDpc, .returns => some []
  -- in a queue already, or at DISPATCH_LEVEL
  | .keInsertQueueDpc, .refused => some [.lock (.dpc cpu) none]
  | .keInsertQueueDpc, .goesOn => some [.lock (.dpc cpu) none, .call .kiCheckDpcDrain]
  | .keRemoveQueueDpc, .returns => some []
  | .keRemoveQueueDpc, .number c => if c < maxCpus then some [.lock (.dpc c) none] else none
  | .kiCheckDpcDrain, .returns => some []
  | .kiCheckDpcDrain, .goesOn => some [.call (.kiRetireDpcList cpu)]
  | .kiRetireDpcList _, .returns => some []
  -- the queue is empty
  | .kiRetireDpcList c, .refused => some [.lock (.dpc c) none]
  | .kiRetireDpcList c, .routine calls =>
      some (.lock (.dpc c) none :: calls.map .call ++ [.call (.kiRetireDpcList c)])
  | .keSetEvent, .returns => some []
  | .keSetEvent, .goesOn => some [.call .kiWake]
  | .kiReadyThread _, .returns => some []
  | .kiReadyThread t, .target c => some [.irqSaveLock (some (t, c)), .irqRestore f]
  | .kiWake, .batch threads =>
      if threads.length ≤ 16 then
        some ([.irqSaveLock none, .irqRestore f] ++ threads.map fun t => .call (.kiReadyThread t))
      else none
  | .keWaitForSingleObject, .returns => some []
  | .keWaitForSingleObject, .refused => some [.irqSave, .irqRestore f]
  -- `ki_block_current` and `ki_yield_processor`, which always swaps here
  | .keWaitForSingleObject, .goesOn =>
      some [.irqSaveLock none, .irqSaveLock none, .swap true, .irqRestore false, .irqRestore f,
        .call .keWaitForSingleObject]
  -- not online, or the quantum is not used up
  | .kiQuantumEnd, .returns => some [.irqSave, .irqRestore f]
  | .kiQuantumEnd, .refused => some [.irqSaveLock none, .irqRestore f]
  | .kiQuantumEnd, .goesOn => some [.irqSaveLock none, .swap false, .irqRestore f]
  | .kiTimerTick, .returns => some []
  | .kiTimerTick, .expired timers =>
      if timers.length ≤ 16 then some (.lock .timers none :: timers.flatMap Expiry.ops) else none
  | _, _ => none

/-- The handler: processor 0 owns the clock, and a thread at `DISPATCH_LEVEL` is not
preempted. -/
def isrHandler (cpu : Nat) (preempts : Bool) : List Op :=
  (if cpu = 0 then [.call .kiTimerTick] else []) ++ if preempts then [.call .kiQuantumEnd] else []

/-! ## Steps -/

/-- A thread, the handler on top of its code, and the flag it runs with. -/
structure Context where
  code : List Op
  handler : Option (List Op)
  iflag : Bool
  waiting : Bool
  home : Nat

def Context.ops (c : Context) : List Op := c.handler.getD c.code

def Context.setOps (c : Context) (l : List Op) : Context :=
  match c.handler with
  | none => { c with code := l }
  | some _ => { c with handler := some l }

structure Holder where
  thread : Tid
  handler : Bool
  deriving DecidableEq, Repr

structure LockSys where
  context : Tid → Context
  running : Nat → Option Tid
  owner : SpinLock → Option Holder

def LockSys.setContext (s : LockSys) (t : Tid) (c : Context) : LockSys :=
  { s with context := Function.update s.context t c }

/-- A thread that waits, or is new, goes into the queue of a processor. -/
def LockSys.insertReady (s : LockSys) : Option (Tid × Nat) → LockSys
  | some (t, cpu) =>
      if (s.context t).waiting then
        s.setContext t { s.context t with waiting := false, home := cpu }
      else s
  | none => s

/-- The thread `t` of `cpu` does its next operation. A lock that is not free is no step. -/
def runOp (cpu : Nat) (t : Tid) (o : Outcome) (rest : List Op) (s : LockSys) : Op → Option LockSys
  | .call call =>
      (body cpu (s.context t).iflag call o).map fun ops =>
        s.setContext t ((s.context t).setOps (ops ++ rest))
  | .irqSave => some (s.setContext t { (s.context t).setOps rest with iflag := false })
  | .irqRestore f => some (s.setContext t { (s.context t).setOps rest with iflag := f })
  | .irqSaveLock ready =>
      some (s.setContext t
        { (s.context t).setOps (.lock .dispatcher ready :: rest) with iflag := false })
  | .lock l ready =>
      if s.owner l = none then
        some ({ s with
          owner := Function.update s.owner l (some ⟨t, (s.context t).handler.isSome⟩) }.setContext t
            ((s.context t).setOps (.unlock l ready :: rest)))
      else none
  | .unlock l ready =>
      some (({ s with owner := Function.update s.owner l none }.setContext t
        ((s.context t).setOps rest)).insertReady ready)
  | .swap sleeps =>
      match o with
      | .next u =>
          if u ≠ t ∧ (s.context u).waiting = false ∧ (s.context u).home = cpu then
            some { s.setContext t { (s.context t).setOps rest with waiting := sleeps } with
              running := Function.update s.running cpu (some u) }
          else none
      | _ => none

inductive LockAction
  | run (cpu : Nat) (o : Outcome)
  | interrupt (cpu : Nat) (preempts : Bool)
  | iret (cpu : Nat)
  deriving Repr

def lockStepOf (cpu : Nat) (t : Tid) (s : LockSys) : LockAction → Option LockSys
  | .run _ o =>
      match (s.context t).ops with
      | op :: rest => runOp cpu t o rest s op
      | [] => none
  | .interrupt _ preempts =>
      match (s.context t).handler, (s.context t).iflag with
      | none, true =>
          some (s.setContext t { s.context t with
            handler := some (isrHandler cpu preempts), iflag := false })
      | _, _ => none
  | .iret _ =>
      match (s.context t).handler with
      | some [] => some (s.setContext t { s.context t with handler := none, iflag := true })
      | _ => none

def LockAction.cpu : LockAction → Nat
  | .run cpu _ => cpu
  | .interrupt cpu _ => cpu
  | .iret cpu => cpu

def lockStep (s : LockSys) (a : LockAction) : Option LockSys :=
  (s.running a.cpu).bind fun t => lockStepOf a.cpu t s a

def LockStep (s : LockSys) (a : LockAction) (s' : LockSys) : Prop := lockStep s a = some s'

/-- The code of a thread: calls, and switching interrupts off and on between them. -/
def Op.own : Op → Bool
  | .call _ => true
  | .irqSave => true
  | .irqRestore _ => true
  | _ => false

/-- Every thread has a program to run, and nothing has happened. -/
structure LocksBooted (s : LockSys) : Prop where
  code : ∀ t, ∀ op ∈ (s.context t).code, op.own = true
  handler : ∀ t, (s.context t).handler = none
  running : ∀ cpu t, s.running cpu = some t →
    (s.context t).home = cpu ∧ (s.context t).waiting = false
  owner : ∀ l, s.owner l = none

end MeuOS.Ke
