import MeuOS.Ke.EventClient
import MeuOS.Lib.Headcount

/-! `ERESOURCE`: a count that is -1 while a thread has the resource exclusively and the number
of shared holders otherwise, and one synchronization event on which all waiters sleep. The
calls are cut where other threads may run in between. -/
namespace MeuOS.Ex

open MeuOS.Lib MeuOS.Ke

inductive ResourceMode
  | exclusive
  | shared
  deriving DecidableEq, Repr

/-- `exclusiveEvent` and `sharedSem` are addresses. The counts of waiters and the semaphore
are set up and not used. The count of holders is a LONG; fewer threads than 1024 have room for
their stacks. -/
structure Eresource where
  activeCount : Int
  exclusiveWaiters : Nat
  sharedWaiters : Nat
  ownerThread : Option Tid
  exclusiveEvent : Nat
  sharedSem : Nat

/-- Where a thread is in the calls. At `loaded` and `releasing` it has read the count, at
`failed` it is about to wait. -/
inductive ResourcePhase
  | outside
  | trying (mode : ResourceMode) (wait : Bool)
  | loaded (wait : Bool) (seen : Int)
  | failed (mode : ResourceMode)
  | waiting (mode : ResourceMode)
  | claimed
  | holding (mode : ResourceMode)
  | releasing (mode : ResourceMode) (seen : Int)
  | disowned
  | signalling
  | waking
  deriving DecidableEq, Repr

structure ResourceSys where
  sys : WaitSys
  resource : Eresource
  phase : Tid → ResourcePhase

/-- A wait or a wake of `cur` may be over when the system went on. -/
def ResourcePhase.after (event : Nat) (sys : WaitSys) (cur : Tid) : ResourcePhase → ResourcePhase
  | .waiting mode => if sys.waiting cur = none then .trying mode true else .waiting mode
  | .waking => if Waker.event event ∈ sys.owed cur then .waking else .outside
  | x => x

namespace ResourceSys

def goTo (s : ResourceSys) (t : Tid) (x : ResourcePhase) : ResourceSys :=
  { s with phase := Function.update s.phase t x }

def advance (s : ResourceSys) (cur : Tid) (sys : WaitSys) : ResourceSys :=
  { s with sys := sys }.goTo cur ((s.phase cur).after s.resource.exclusiveEvent sys cur)

def setCount (s : ResourceSys) (count : Int) : ResourceSys :=
  { s with resource := { s.resource with activeCount := count } }

def setOwner (s : ResourceSys) (owner : Option Tid) : ResourceSys :=
  { s with resource := { s.resource with ownerThread := owner } }

/-- In the legacy mode the acquires return FALSE. -/
def enterLoop (mode : ResourceMode) (wait : Bool) (cur : Tid) (s : ResourceSys) : ResourceSys :=
  if s.sys.timers.legacy then s else s.goTo cur (.trying mode wait)

/-- A pass of the exclusive loop, up to the wait. -/
def claim (wait : Bool) (cur : Tid) (s : ResourceSys) : ResourceSys :=
  if s.resource.activeCount = 0 then (s.setCount (-1)).goTo cur .claimed
  else s.goTo cur (if wait then .failed .exclusive else .outside)

def own (cur : Tid) (s : ResourceSys) : ResourceSys :=
  (s.setOwner (some cur)).goTo cur (.holding .exclusive)

/-- The load of a pass of the shared loop. -/
def load (wait : Bool) (cur : Tid) (s : ResourceSys) : ResourceSys :=
  if 0 ≤ s.resource.activeCount then s.goTo cur (.loaded wait s.resource.activeCount)
  else s.goTo cur (if wait then .failed .shared else .outside)

/-- The exchange of a pass of the shared loop. -/
def join (wait : Bool) (seen : Int) (cur : Tid) (s : ResourceSys) : ResourceSys :=
  if s.resource.activeCount = seen then (s.setCount (seen + 1)).goTo cur (.holding .shared)
  else s.goTo cur (.trying .shared wait)

def block (fuel : Nat) (mode : ResourceMode) (cur : Tid) (s : ResourceSys) : Option ResourceSys :=
  (waitStepOf fuel cur s.sys (.wait s.resource.exclusiveEvent none)).map
    ((s.goTo cur (.waiting mode)).advance cur)

/-- The branches of the release, after the load. -/
def giveBack (seen : Int) (cur : Tid) (s : ResourceSys) : ResourceSys :=
  if seen = -1 then (s.setOwner none).goTo cur .disowned
  else if 0 < seen then (s.setCount (s.resource.activeCount - 1)).goTo cur .signalling
  else s.goTo cur .signalling

def free (cur : Tid) (s : ResourceSys) : ResourceSys := (s.setCount 0).goTo cur .signalling

/-- `KeSetEvent`, whose `ki_wake` is still to come. -/
def signal (fuel : Nat) (cur : Tid) (s : ResourceSys) : Option ResourceSys :=
  (waitStepOf fuel cur s.sys (.setEvent s.resource.exclusiveEvent)).map
    ((s.goTo cur .waking).advance cur)

end ResourceSys

/-! ## The calls -/

def exInitializeResourceLite (event sem : Nat) (sys : WaitSys) : ResourceSys :=
  ⟨keInitializeSemaphore sem 0 (keInitializeEvent event 1 false sys), ⟨0, 0, 0, none, event, sem⟩,
    fun _ => .outside⟩

/-- Up to its loop. -/
def exAcquireResourceExclusiveLite (wait : Bool) (cur : Tid) (s : ResourceSys) : ResourceSys :=
  s.enterLoop .exclusive wait cur

/-- Up to its loop. -/
def exAcquireResourceSharedLite (wait : Bool) (cur : Tid) (s : ResourceSys) : ResourceSys :=
  s.enterLoop .shared wait cur

/-- Up to the load of the count; `mode` is how the caller has the resource. -/
def exReleaseResourceLite (mode : ResourceMode) (cur : Tid) (s : ResourceSys) : ResourceSys :=
  if s.sys.timers.legacy then s.goTo cur .outside
  else s.goTo cur (.releasing mode s.resource.activeCount)

/-! ## Steps -/

/-- The three calls, and the next step of the call a thread is in. -/
inductive ResourceAction
  | acquireExclusive (wait : Bool)
  | acquireShared (wait : Bool)
  | release
  | next
  | system (a : WaitAction)
  deriving Repr

def ResourceSys.next (fuel : Nat) (cur : Tid) (s : ResourceSys) : Option ResourceSys :=
  match s.phase cur with
  | .trying .exclusive wait => some (s.claim wait cur)
  | .trying .shared wait => some (s.load wait cur)
  | .loaded wait seen => some (s.join wait seen cur)
  | .failed mode => s.block fuel mode cur
  | .claimed => some (s.own cur)
  | .releasing _ seen => some (s.giveBack seen cur)
  | .disowned => some (s.free cur)
  | .signalling => s.signal fuel cur
  | _ => none

/-- How the thread has the resource, between calls. -/
def ResourcePhase.held : ResourcePhase → Option ResourceMode
  | .holding mode => some mode
  | _ => none

def ResourceSys.betweenCalls (s : ResourceSys) (cur : Tid) : Bool :=
  s.phase cur = .outside || (s.phase cur).held.isSome

/-- A worker thread calls an acquire. -/
def ResourceSys.canCall (s : ResourceSys) (cur : Tid) : Bool :=
  s.sys.free cur && s.phase cur = .outside && kiCanBlock s.sys

/-- One step while `cur` is the current thread. The event is the resource's own. -/
def resourceStepOf (fuel : Nat) (cur : Tid) (s : ResourceSys) : ResourceAction → Option ResourceSys
  | .acquireExclusive wait =>
      if s.canCall cur then some (exAcquireResourceExclusiveLite wait cur s) else none
  | .acquireShared wait =>
      if s.canCall cur then some (exAcquireResourceSharedLite wait cur s) else none
  | .release =>
      if s.sys.free cur then (s.phase cur).held.map fun mode => exReleaseResourceLite mode cur s
      else none
  | .next => if s.sys.free cur then s.next fuel cur else none
  | .system a =>
      if Spares s.resource.exclusiveEvent s.sys a ∧
          (ownCall a = true → s.betweenCalls cur = true) then
        (waitStepOf fuel cur s.sys a).map (s.advance cur)
      else none

def resourceStep (fuel : Nat) (s : ResourceSys) (a : ResourceAction) : Option ResourceSys :=
  (s.sys.sched.current 0).bind fun cur => resourceStepOf fuel cur s a

def ResourceStep (s : ResourceSys) (a : ResourceAction) (s' : ResourceSys) : Prop :=
  ∃ fuel, resourceStep fuel s a = some s'

/-- The resource was initialized, at addresses that were in no use. -/
def ResourceStart (s : ResourceSys) : Prop :=
  ∃ event sem sys, event ≠ 0 ∧ sem ≠ event ∧ Reach WaitBooted WaitStep (fun _ _ => True) sys ∧
    (∀ t, sys.waiting t ≠ some event) ∧ (∀ t, ∀ w ∈ sys.owed t, w.object sys ≠ event) ∧
      s = exInitializeResourceLite event sem sys

end MeuOS.Ex
