import MeuOS.Lib.Ring
import Mathlib.Algebra.Ring.Nat

/-! Timers. The tick takes a batch of due timers out of the list under the lock and then
works through it without the lock; what the DPC routines it calls do, and what other
processors do, is between its steps. -/
namespace MeuOS.Ke

open MeuOS.Lib

/-- `SignalState` is a LONG. -/
structure DispatcherHeader where
  type : Nat
  signalState : Int
  deriving DecidableEq, Repr

inductive TimerNode
  | head
  | entry (timer : Nat)
  deriving DecidableEq, Repr

/-- A KTIMER behind its header; its links are in `TimerSys.links`. -/
structure Ktimer where
  dueTime : Nat
  dpc : Nat
  period : Int
  deriving DecidableEq, Repr

inductive TimerType
  | notification | synchronization
  deriving DecidableEq, Repr

/-- What the calls did: `fired` is the insert of the timer's DPC. -/
inductive TimerEvent
  | set (timer : Nat) (wasSet : Bool)
  | cancelled (timer : Nat) (wasSet : Bool)
  | tick
  | fired (timer : Nat)
  deriving DecidableEq, Repr

/-- `firing` is what the tick has still to do of its batch; the first of it has been
signalled when `called` is set. -/
structure TimerSys where
  header : Nat → DispatcherHeader
  links : Links TimerNode
  timer : Nat → Ktimer
  ticks : Nat
  ready : Bool
  legacy : Bool
  firing : List Nat
  called : Bool
  log : List TimerEvent

namespace TimerSys

def setHeader (s : TimerSys) (t : Nat) (h : DispatcherHeader) : TimerSys :=
  { s with header := Function.update s.header t h }

def setTimer (s : TimerSys) (t : Nat) (k : Ktimer) : TimerSys :=
  { s with timer := Function.update s.timer t k }

def signal (s : TimerSys) (t : Nat) (n : Int) : TimerSys :=
  s.setHeader t { s.header t with signalState := n }

end TimerSys

def kiInitializeTimerSubsystem (s : TimerSys) : TimerSys :=
  { s with links := s.links.initHead .head, ready := true }

/-- `due_to_tick`, in ticks of 10 ms. -/
def dueToTick (ticks : Nat) (due : Int) : Nat :=
  if due < 0 then
    let t := (-due).toNat % 2 ^ 64 / 100000
    (ticks + if t = 0 then 1 else t) % 2 ^ 64
  else if due.toNat ≤ 132934176000000000 then ticks
  else (ticks + (due.toNat - 132934176000000000) / 100000) % 2 ^ 64

/-- `timer_unlink`: the backward link of the timer stays. -/
def timerUnlink (L : Links TimerNode) (t : Nat) : Option (Links TimerNode) :=
  match L.next (.entry t) with
  | none => some L
  | some _ => (L.detach (.entry t)).map fun L => L.setNext (.entry t) none

def timerLink (L : Links TimerNode) (t : Nat) : Option (Links TimerNode) :=
  L.insertTail .head (.entry t)

/-- The test `TimerListEntry.Flink != 0`. -/
def timerSet (L : Links TimerNode) (t : Nat) : Bool := (L.next (.entry t)).isSome

/-- All the bytes of the timer are cleared, and its links with them. -/
def keInitializeTimerEx (t : Nat) (type : TimerType) (s : TimerSys) : TimerSys :=
  if t = 0 then s
  else
    let s := { s.setTimer t ⟨0, 0, 0⟩ with
      links := (s.links.setNext (.entry t) none).setPrev (.entry t) none }
    let s := s.setHeader t ⟨0, 0⟩
    if s.legacy then s
    else s.setHeader t { s.header t with
      type := match type with | .synchronization => 9 | .notification => 8 }

def keSetTimerEx (t : Nat) (due period : Int) (dpc : Nat) (s : TimerSys) : Option (Bool × TimerSys) :=
  if t = 0 then some (false, s)
  else if s.legacy ∨ s.ready = false then some (false, s)
  else
    let wasSet := timerSet s.links t
    (timerUnlink s.links t).bind fun links =>
      (timerLink links t).map fun links =>
        (wasSet, { (s.setTimer t ⟨dueToTick s.ticks due, dpc, period⟩).signal t 0 with
          links := links, log := .set t wasSet :: s.log })

def keCancelTimer (t : Nat) (s : TimerSys) : Option (Bool × TimerSys) :=
  if t = 0 then some (false, s)
  else if s.legacy ∨ s.ready = false then some (true, s)
  else
    let wasSet := timerSet s.links t
    (timerUnlink s.links t).map fun links =>
      (wasSet, { s with links := links, log := .cancelled t wasSet :: s.log })

/-! ## `KiTimerTick` -/

/-- The loop under the lock, at `e` with `n` timers in the batch. -/
def expireLoop (timer : Nat → Ktimer) (ticks : Nat) :
    Nat → Option TimerNode → Nat → Links TimerNode → Option (List Nat × Links TimerNode)
  | 0, _, _, _ => none
  | _ + 1, none, _, L => some ([], L)
  | _ + 1, some .head, _, L => some ([], L)
  | fuel + 1, some (.entry t), n, L =>
      if 16 ≤ n then some ([], L)
      else
        let nx := L.next (.entry t)
        if (timer t).dueTime ≤ ticks then
          (timerUnlink L t).bind fun L =>
            (expireLoop timer ticks fuel nx (n + 1) L).map fun (l, L) => (t :: l, L)
        else expireLoop timer ticks fuel nx n L

/-- The clock moves on and the batch is collected. -/
def tickStart (fuel : Nat) (s : TimerSys) : Option TimerSys :=
  if s.firing ≠ [] then none
  else
    let s := { s with ticks := (s.ticks + 1) % 2 ^ 64, log := .tick :: s.log }
    if s.ready = false then some s
    else (expireLoop s.timer s.ticks fuel (s.links.next .head) 0 s.links).map fun (batch, links) =>
      { s with links := links, firing := batch, called := false }

/-- The next timer of the batch is signalled and its DPC is queued. -/
def tickFire (s : TimerSys) : Option TimerSys :=
  match s.firing with
  | t :: _ =>
      if s.called then none
      else
        let log := if (s.timer t).dpc ≠ 0 then .fired t :: s.log else s.log
        some { s.signal t 1 with called := true, log := log }
  | [] => none

/-- It is armed again if it is periodic now. -/
def tickRearm (s : TimerSys) : Option TimerSys :=
  match s.firing with
  | t :: rest =>
      if s.called = false then none
      else if 0 < (s.timer t).period then
        let ticks := (s.timer t).period.toNat / 10
        (timerLink s.links t).map fun links =>
          { (s.setTimer t { s.timer t with
              dueTime := (s.ticks + if ticks = 0 then 1 else ticks) % 2 ^ 64 }).signal t 0 with
            links := links, firing := rest, called := false }
      else some { s with firing := rest, called := false }
  | [] => none

/-! ## Steps -/

inductive TimerAction
  | initTimer (timer : Nat) (type : TimerType)
  | set (timer : Nat) (due period : Int) (dpc : Nat)
  | cancel (timer : Nat)
  | tickStart
  | tickFire
  | tickRearm
  deriving Repr

/-- One step; `fuel` bounds the walk over the list. -/
def timerStep (fuel : Nat) (s : TimerSys) : TimerAction → Option TimerSys
  | .initTimer t type => some (keInitializeTimerEx t type s)
  | .set t due period dpc => (keSetTimerEx t due period dpc s).map Prod.snd
  | .cancel t => (keCancelTimer t s).map Prod.snd
  | .tickStart => tickStart fuel s
  | .tickFire => tickFire s
  | .tickRearm => tickRearm s

def TimerStep (s : TimerSys) (a : TimerAction) (s' : TimerSys) : Prop :=
  ∃ fuel, timerStep fuel s a = some s'

/-- The list is set up, and every timer is outside it. -/
def TimersBooted (s : TimerSys) : Prop :=
  ∃ s₀ : TimerSys, s = kiInitializeTimerSubsystem s₀ ∧ s₀.legacy = false ∧ s₀.firing = [] ∧
    s₀.log = [] ∧ ∀ t, s₀.links.next (.entry t) = none

end MeuOS.Ke
