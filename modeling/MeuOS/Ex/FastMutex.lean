import MeuOS.Ke.EventClient
import MeuOS.Lib.Headcount

/-! `FAST_MUTEX`: a count of the threads that have or want the mutex, and a synchronization
event that hands it over. The calls are cut where other threads may run in between. -/
namespace MeuOS.Ex

open MeuOS.Lib MeuOS.Ke

/-- `event` is the address of the event in the mutex. The count is a LONG; the heap of 16 MiB
has room for fewer than 1024 stacks of 16 KiB, so it stays far from where it would wrap. -/
structure FastMutex where
  count : Int
  owner : Option Tid
  contention : Nat
  event : Nat

/-- Where a thread is in the calls. -/
inductive MutexPhase
  | outside
  | contended
  | waiting
  | acquired
  | holding
  | releasing
  | signalling
  | waking
  deriving DecidableEq, Repr

structure MutexSys where
  sys : WaitSys
  mutex : FastMutex
  phase : Tid → MutexPhase

def MutexSys.goTo (s : MutexSys) (t : Tid) (x : MutexPhase) : MutexSys :=
  { s with phase := Function.update s.phase t x }

/-- A wait or a wake of `cur` may be over when the system went on. -/
def MutexPhase.after (event : Nat) (sys : WaitSys) (cur : Tid) : MutexPhase → MutexPhase
  | .waiting => if sys.waiting cur = none then .acquired else .waiting
  | .waking => if Waker.event event ∈ sys.owed cur then .waking else .outside
  | x => x

def MutexSys.advance (s : MutexSys) (cur : Tid) (sys : WaitSys) : MutexSys :=
  { s with sys := sys }.goTo cur ((s.phase cur).after s.mutex.event sys cur)

/-! ## The calls -/

def exInitializeFastMutex (event : Nat) (sys : WaitSys) : MutexSys :=
  ⟨keInitializeEvent event 1 false sys, ⟨1, none, 0, event⟩, fun _ => .outside⟩

/-- Up to the test of the count. In the legacy mode the call does nothing. -/
def exAcquireFastMutex (cur : Tid) (s : MutexSys) : MutexSys :=
  if s.sys.timers.legacy then s.goTo cur .holding
  else
    let count := s.mutex.count - 1
    { s with mutex := { s.mutex with count := count } }.goTo cur
      (if count < 0 then .contended else .acquired)

/-- `Contention++` and the wait. -/
def contend (fuel : Nat) (cur : Tid) (s : MutexSys) : Option MutexSys :=
  let contention := (s.mutex.contention + 1) % 4294967296
  (waitStepOf fuel cur s.sys (.wait s.mutex.event none)).map
    (({ s with mutex := { s.mutex with contention := contention } }.goTo cur .waiting).advance cur)

/-- The end of `ExAcquireFastMutex`. -/
def own (cur : Tid) (s : MutexSys) : MutexSys :=
  { s with mutex := { s.mutex with owner := some cur } }.goTo cur .holding

/-- Up to the store of the owner. -/
def exReleaseFastMutex (cur : Tid) (s : MutexSys) : MutexSys :=
  if s.sys.timers.legacy then s.goTo cur .outside
  else { s with mutex := { s.mutex with owner := none } }.goTo cur .releasing

/-- The count goes up again, and is tested. -/
def giveBack (cur : Tid) (s : MutexSys) : MutexSys :=
  let count := s.mutex.count + 1
  { s with mutex := { s.mutex with count := count } }.goTo cur
    (if count ≤ 0 then .signalling else .outside)

/-- `KeSetEvent`, whose `ki_wake` is still to come. -/
def signal (fuel : Nat) (cur : Tid) (s : MutexSys) : Option MutexSys :=
  (waitStepOf fuel cur s.sys (.setEvent s.mutex.event)).map ((s.goTo cur .waking).advance cur)

def exTryToAcquireFastMutex (cur : Tid) (s : MutexSys) : Bool × MutexSys :=
  if s.sys.timers.legacy then (true, s.goTo cur .holding)
  else if s.mutex.count = 1 then
    (true, { s with mutex := { s.mutex with count := 0 } }.goTo cur .holding)
  else (false, s)

/-! ## Steps -/

inductive MutexAction
  | acquire
  | contend
  | own
  | tryAcquire
  | release
  | giveBack
  | signal
  | system (a : WaitAction)
  deriving Repr

/-- The thread runs, and is there. -/
def MutexSys.at (s : MutexSys) (cur : Tid) (x : MutexPhase) : Bool :=
  s.sys.free cur && s.phase cur = x

def MutexSys.betweenCalls (s : MutexSys) (cur : Tid) : Bool :=
  s.phase cur = .outside || s.phase cur = .holding

/-- One step while `cur` is the current thread. The event is the mutex's own. -/
def mutexStepOf (fuel : Nat) (cur : Tid) (s : MutexSys) : MutexAction → Option MutexSys
  | .acquire => if s.at cur .outside then some (exAcquireFastMutex cur s) else none
  | .contend => if s.at cur .contended then contend fuel cur s else none
  | .own => if s.at cur .acquired then some (own cur s) else none
  | .tryAcquire => if s.at cur .outside then some (exTryToAcquireFastMutex cur s).2 else none
  | .release => if s.at cur .holding then some (exReleaseFastMutex cur s) else none
  | .giveBack => if s.at cur .releasing then some (giveBack cur s) else none
  | .signal => if s.at cur .signalling then signal fuel cur s else none
  | .system a =>
      if Spares s.mutex.event s.sys a ∧ (ownCall a = true → s.betweenCalls cur = true) then
        (waitStepOf fuel cur s.sys a).map (s.advance cur)
      else none

def mutexStep (fuel : Nat) (s : MutexSys) (a : MutexAction) : Option MutexSys :=
  (s.sys.sched.current 0).bind fun cur => mutexStepOf fuel cur s a

def MutexStep (s : MutexSys) (a : MutexAction) (s' : MutexSys) : Prop :=
  ∃ fuel, mutexStep fuel s a = some s'

/-- The mutex was initialized, at an address that was in no use. -/
def MutexStart (s : MutexSys) : Prop :=
  ∃ event sys, event ≠ 0 ∧ Reach WaitBooted WaitStep (fun _ _ => True) sys ∧
    (∀ t, sys.waiting t ≠ some event) ∧ (∀ t, ∀ w ∈ sys.owed t, w.object sys ≠ event) ∧
      s = exInitializeFastMutex event sys

end MeuOS.Ex
