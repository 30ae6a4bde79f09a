import MeuOS.Ke.Sched
import MeuOS.Ke.Timer

/-! Waiting on one processor. A wait checks the signal and goes to sleep with interrupts
off, in one step; a thread that was woken checks again when it runs. A call that signals an
object writes the signal first and wakes in a later step, and the tick interrupts whatever
the current thread does. -/
namespace MeuOS.Ke

open MeuOS.Lib

inductive WaitStatus
  | success | timeout | invalidParameter
  deriving DecidableEq, Repr

/-- A call of `ki_wake` that has not taken the lock yet. -/
inductive Waker
  | event (e : Nat)
  | semaphore (sem : Nat)
  | timer (t : Nat)
  | threadExit (t : Tid)
  deriving DecidableEq, Repr

/-- What the calls did; `entered` is the call of a wait. -/
inductive WaitEvent
  | entered (t : Tid) (obj : Nat)
  | satisfied (t : Tid) (obj : Nat)
  | set (e : Nat)
  | released (sem : Nat) (adj : Int)
  deriving DecidableEq, Repr

/-- The headers of all objects are with the timers'. `waiting` is the object of the infinite
wait a thread is in, asleep or not; `threadObject` is the address of a thread. -/
structure WaitSys where
  sched : Sched
  timers : TimerSys
  p4Active : Bool
  threadObject : Tid → Nat
  waiting : Tid → Option Nat
  owed : Tid → List Waker
  history : List WaitEvent

namespace WaitSys

def header (s : WaitSys) (obj : Nat) : DispatcherHeader := s.timers.header obj

def setHeader (s : WaitSys) (obj : Nat) (h : DispatcherHeader) : WaitSys :=
  { s with timers := s.timers.setHeader obj h }

def signal (s : WaitSys) (obj : Nat) (n : Int) : WaitSys :=
  s.setHeader obj { s.header obj with signalState := n }

def setWaiting (s : WaitSys) (t : Tid) (w : Option Nat) : WaitSys :=
  { s with waiting := Function.update s.waiting t w }

def setOwed (s : WaitSys) (t : Tid) (l : List Waker) : WaitSys :=
  { s with owed := Function.update s.owed t l }

def note (s : WaitSys) (e : WaitEvent) : WaitSys := { s with history := e :: s.history }

end WaitSys

def Waker.object (s : WaitSys) : Waker → Nat
  | .event e => e
  | .semaphore sem => sem
  | .timer t => t
  | .threadExit t => s.threadObject t

/-- The second argument of `ki_wake`. -/
def Waker.wakeAll (s : WaitSys) : Waker → Bool
  | .event e => (s.header e).type = 0
  | .semaphore _ => true
  | .timer t => (s.header t).type ≠ 9
  | .threadExit _ => true

/-! ## `KeWaitForSingleObject` -/

/-- `sc_consume`. -/
def scConsume (h : DispatcherHeader) : DispatcherHeader :=
  if h.type = 0 ∨ h.type = 8 then h
  else if h.type = 5 then
    if 0 < h.signalState then { h with signalState := h.signalState - 1 } else h
  else { h with signalState := 0 }

def kiCanBlock (s : WaitSys) : Bool :=
  if s.p4Active = false then false
  else
    match s.sched.current 0 with
    | some cur => some cur ≠ (s.sched.prcb 0).idleThread
    | none => false

/-- One pass of the loop, by the thread `cur`; there is no status when it fell asleep. A
timeout of `none` is the null pointer. -/
def waitPass (cur : Tid) (obj : Nat) (timeout : Option Int) (s : WaitSys) :
    Option (Option WaitStatus × WaitSys) :=
  if (s.header obj).signalState ≠ 0 then
    some (some .success,
      ((s.setHeader obj (scConsume (s.header obj))).setWaiting cur none).note (.satisfied cur obj))
  else if timeout = some 0 then some (some .timeout, s.setWaiting cur none)
  else if s.timers.legacy ∨ timeout ≠ none ∨ kiCanBlock s = false then
    some (some .success, s.setWaiting cur none)
  else
    ((kiBlockCurrent 0 obj s.sched).bind (kiYieldProcessor 0)).map fun sched =>
      (none, { s with sched := sched }.setWaiting cur (some obj))

def keWaitForSingleObject (cur : Tid) (obj : Nat) (timeout : Option Int) (s : WaitSys) :
    Option (Option WaitStatus × WaitSys) :=
  if obj = 0 then some (some .invalidParameter, s)
  else waitPass cur obj timeout (s.note (.entered cur obj))

/-! ## Signals -/

def keInitializeEvent (e type : Nat) (state : Bool) (s : WaitSys) : WaitSys :=
  if e = 0 then s else s.setHeader e ⟨type % 256, if state then 1 else 0⟩

/-- Up to `ki_wake`, which `cur` still has to call. -/
def keSetEvent (cur : Tid) (e : Nat) (s : WaitSys) : WaitSys :=
  if e = 0 then s
  else
    let s := (s.signal e 1).note (.set e)
    if s.timers.legacy then s else s.setOwed cur (.event e :: s.owed cur)

def keResetEvent (e : Nat) (s : WaitSys) : WaitSys :=
  if e = 0 then s else s.signal e 0

def keInitializeSemaphore (sem : Nat) (count : Int) (s : WaitSys) : WaitSys :=
  if sem = 0 then s else s.setHeader sem ⟨5, count⟩

/-- `SignalState += Adj`, a LONG that wraps, up to `ki_wake`. -/
def keReleaseSemaphore (cur : Tid) (sem : Nat) (adj : Int) (s : WaitSys) : WaitSys :=
  if sem = 0 then s
  else
    let s := (s.signal sem (Int.bmod ((s.header sem).signalState + adj) 4294967296)).note
      (.released sem adj)
    if s.timers.legacy then s else s.setOwed cur (.semaphore sem :: s.owed cur)

/-- The tick signals the next timer of its batch and is about to wake. -/
def expireTimer (cur : Tid) (s : WaitSys) : Option WaitSys :=
  (tickFire s.timers).map fun timers =>
    match s.timers.firing with
    | t :: _ => { s with timers := timers }.setOwed cur (.timer t :: s.owed cur)
    | [] => s

/-- `ki_ring3_thread_exit` up to `ki_wake`; the yields are steps of their own. -/
def kiRing3ThreadExit (cur : Tid) (s : WaitSys) : WaitSys :=
  { s with sched := kiThreadExit 0 s.sched }.setOwed cur (.threadExit cur :: s.owed cur)

/-- The part of `ki_wake` under the lock. -/
def wakeOwed (fuel : Nat) (cur : Tid) (s : WaitSys) : Option WaitSys :=
  match s.owed cur with
  | w :: rest =>
      (kiWake fuel 0 (w.object s) (w.wakeAll s) s.sched).map fun sched =>
        { s with sched := sched }.setOwed cur rest
  | [] => none

/-! ## Steps -/

inductive WaitAction
  | spawn (cpuAffinity : Int)
  | mark
  | insert
  | quantumEnd
  | yieldProcessor
  | wait (obj : Nat) (timeout : Option Int)
  | retry
  | initEvent (e type : Nat) (state : Bool)
  | setEvent (e : Nat)
  | resetEvent (e : Nat)
  | initSemaphore (sem : Nat) (count : Int)
  | releaseSemaphore (sem : Nat) (adj : Int)
  | exit
  | wake
  | initTimer (timer : Nat) (type : TimerType)
  | setTimer (timer : Nat) (due period : Int) (dpc : Nat)
  | cancelTimer (timer : Nat)
  | tickStart
  | tickFire
  | tickRearm
  deriving Repr

/-- The tick is not under way. -/
def WaitSys.idleTick (s : WaitSys) : Bool := s.timers.firing = []

/-- The current thread runs code of its own, outside a wait. -/
def WaitSys.free (s : WaitSys) (cur : Tid) : Bool :=
  s.idleTick && s.waiting cur = none && (s.sched.thread cur).state = .running

/-- Calls that a DPC routine may make as well, while the tick is under way. -/
def WaitSys.calls (s : WaitSys) (cur : Tid) : Bool := !s.idleTick || s.free cur

def spawn (cur : Tid) (cpuAffinity : Int) (s : Sched) : Sched :=
  let t : Tid := .worker s.created
  let s := kiCreateThread cpuAffinity s
  s.setPending cur (⟨t, none⟩ :: s.pending cur)

def WaitSys.withSched (s : WaitSys) (r : Option Sched) : Option WaitSys :=
  r.map fun sched => { s with sched := sched }

def WaitSys.withTimers (s : WaitSys) (r : Option TimerSys) : Option WaitSys :=
  r.map fun timers => { s with timers := timers }

/-- One step while `cur` is the current thread. A thread is created for the one processor
there is. -/
def waitStepOf (fuel : Nat) (cur : Tid) (s : WaitSys) : WaitAction → Option WaitSys
  | .spawn affinity =>
      if s.free cur ∧ (affinity < 0 ∨ (maxCpus : Int) ≤ affinity ∨ affinity = 0) then
        some { s with sched := spawn cur affinity s.sched }
      else none
  | .mark => s.withSched (readyMark cur s.sched)
  | .insert => s.withSched (readyInsert cur s.sched)
  | .quantumEnd => if s.idleTick then s.withSched (kiQuantumEnd 0 s.sched) else none
  | .yieldProcessor => if s.idleTick then s.withSched (kiYieldProcessor 0 s.sched) else none
  | .wait obj timeout =>
      if s.free cur then (keWaitForSingleObject cur obj timeout s).map Prod.snd else none
  | .retry =>
      match s.waiting cur with
      | some obj => if s.idleTick then (waitPass cur obj none s).map Prod.snd else none
      | none => none
  | .initEvent e type state => if s.calls cur then some (keInitializeEvent e type state s) else none
  | .setEvent e => if s.calls cur then some (keSetEvent cur e s) else none
  | .resetEvent e => if s.calls cur then some (keResetEvent e s) else none
  | .initSemaphore sem count => if s.calls cur then some (keInitializeSemaphore sem count s) else none
  | .releaseSemaphore sem adj => if s.calls cur then some (keReleaseSemaphore cur sem adj s) else none
  | .exit =>
      if s.free cur ∧ some cur ≠ (s.sched.prcb 0).idleThread then some (kiRing3ThreadExit cur s)
      else none
  | .wake => wakeOwed fuel cur s
  | .initTimer t type =>
      if s.calls cur then some { s with timers := keInitializeTimerEx t type s.timers } else none
  | .setTimer t due period dpc =>
      if s.calls cur then s.withTimers ((keSetTimerEx t due period dpc s.timers).map Prod.snd) else none
  | .cancelTimer t =>
      if s.calls cur then s.withTimers ((keCancelTimer t s.timers).map Prod.snd) else none
  | .tickStart => s.withTimers (tickStart fuel s.timers)
  | .tickFire => expireTimer cur s
  | .tickRearm => s.withTimers (tickRearm s.timers)

/-- `fuel` bounds the walks over the lists. -/
def waitStep (fuel : Nat) (s : WaitSys) (a : WaitAction) : Option WaitSys :=
  (s.sched.current 0).bind fun cur => waitStepOf fuel cur s a

def WaitStep (s : WaitSys) (a : WaitAction) (s' : WaitSys) : Prop :=
  ∃ fuel, waitStep fuel s a = some s'

/-- The processor has booted and preemption is on. -/
def WaitBooted (s : WaitSys) : Prop :=
  Booted s.sched ∧ TimersBooted s.timers ∧ s.p4Active = true ∧ (∀ t, s.waiting t = none) ∧
    (∀ t, s.owed t = []) ∧ s.history = []

end MeuOS.Ke
