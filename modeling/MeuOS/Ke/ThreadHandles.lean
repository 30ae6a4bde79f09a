import MeuOS.Lib.Run
import MeuOS.Ob.Object

/-! Threads of ring 3 and waiting on their handles. `NtCreateThread` makes an `ETHREAD`
with a handle and a `KTHREAD` that runs it; which `KTHREAD` a handle stands for is kept in
a side table that `NtWaitForSingleObject` searches. -/
namespace MeuOS.Ke

open MeuOS.Lib
open MeuOS.Ob (ObState obCreateObject obCreateHandle obCloseHandle obHandleToObject)

def obTypeProcess : Nat := 5
def obTypeThread : Nat := 6

/-- `sizeof(ETHREAD)`. -/
def ethreadSize : Nat := 0x800

def statusSuccess : Nat := 0
def statusUnsuccessful : Nat := 0xC0000001

/-- The length of `g_ring3_threads`. -/
def ring3Max : Nat := 16

structure ThreadSys where
  ob : ObState
  currentProcess : Nat
  /-- `g_ring3_threads`: a handle and a `KTHREAD`. -/
  ring3 : Nat → Nat × Nat
  ring3Count : Nat
  /-- The `KTHREAD`s in state `TERMINATED`. -/
  terminated : Nat → Bool

/-- `ki_thread_is_terminated`. -/
def kiThreadIsTerminated (s : ThreadSys) (kt : Nat) : Bool := kt == 0 || s.terminated kt

/-- The process of a new thread. -/
def threadProcess (s : ThreadSys) (hproc : Nat) : Nat :=
  if hproc ≠ 0 then obHandleToObject s.ob hproc obTypeProcess else s.currentProcess

/-- The entry of a launched thread, while there is room. -/
def recordLaunch (s : ThreadSys) (h kt : Nat) : ThreadSys :=
  if kt ≠ 0 ∧ s.ring3Count < ring3Max then
    { s with
      ring3 := Function.update s.ring3 s.ring3Count (h, kt)
      ring3Count := s.ring3Count + 1 }
  else s

/-- Status, handle, `ETHREAD` and the new state; `hdr` is `kmalloc`'s answer for the object
and `kt` that of `ki_launch_ring3_thread`. -/
def sysCreateThread (s : ThreadSys) (hproc start hdr kt : Nat) : Nat × Nat × Nat × ThreadSys :=
  if threadProcess s hproc = 0 then (statusUnsuccessful, 0, 0, s)
  else
    let made := obCreateObject s.ob hdr obTypeThread ethreadSize none
    if made.2 = 0 then (statusUnsuccessful, 0, 0, { s with ob := made.1 })
    else
      let handed := obCreateHandle made.1 made.2
      let s := { s with ob := handed.1 }
      (statusSuccess, handed.2, made.2, if start ≠ 0 then recordLaunch s handed.2 kt else s)

/-- The entry `NtWaitForSingleObject` waits on. -/
def waitEntry (s : ThreadSys) (h : Nat) : Option Nat :=
  (List.range s.ring3Count).find? fun i => (s.ring3 i).1 == h && (s.ring3 i).2 != 0

/-- Whether the loop of `NtWaitForSingleObject` on an entry ends; without an entry the call
returns at once. -/
def waitDone (s : ThreadSys) : Option Nat → Bool
  | none => true
  | some i => kiThreadIsTerminated s (s.ring3 i).2

/-! ## Histories -/

/-- A thread that was launched, with the handle `NtCreateThread` returned. -/
structure Launch where
  handle : Nat
  ethread : Nat
  kthread : Nat
deriving DecidableEq

/-- Beside the system: all launches in order, and for each caller that is waiting the thread
its handle denoted and the entry it waits on. -/
structure JoinWorld where
  sys : ThreadSys
  launches : List Launch
  waiting : Nat → Option (Nat × Nat)

inductive JoinOp
  | createThread (hproc start hdr kt : Nat)
  | createObject (hdr type bodySize : Nat) (name : Option (List UInt8))
  | createHandle (body : Nat)
  | close (h : Nat)
  | exit (kt : Nat)
  | wait (caller h : Nat)
  /-- A waiting caller gets the processor again. -/
  | resume (caller : Nat)

/-- The thread a handle denotes; 0 for none. -/
def threadOf (s : ThreadSys) (h : Nat) : Nat := obHandleToObject s.ob h obTypeThread

/-- The launch a call of `NtCreateThread` makes. -/
def newLaunch (s : ThreadSys) (hproc start hdr kt : Nat) : List Launch :=
  let r := sysCreateThread s hproc start hdr kt
  if r.1 = statusSuccess ∧ start ≠ 0 ∧ kt ≠ 0 then [⟨r.2.1, r.2.2.1, kt⟩] else []

def joinStep (w : JoinWorld) : JoinOp → JoinWorld
  | .createThread hproc start hdr kt =>
      { w with
        sys := (sysCreateThread w.sys hproc start hdr kt).2.2.2
        launches := w.launches ++ newLaunch w.sys hproc start hdr kt }
  | .createObject hdr type bodySize name =>
      { w with sys := { w.sys with ob := (obCreateObject w.sys.ob hdr type bodySize name).1 } }
  | .createHandle body => { w with sys := { w.sys with ob := (obCreateHandle w.sys.ob body).1 } }
  | .close h => { w with sys := { w.sys with ob := obCloseHandle w.sys.ob h } }
  | .exit kt =>
      { w with sys := { w.sys with terminated := Function.update w.sys.terminated kt true } }
  | .wait caller h =>
      { w with
        waiting := Function.update w.waiting caller
          (if waitDone w.sys (waitEntry w.sys h) then none
           else (waitEntry w.sys h).map fun i => (threadOf w.sys h, i)) }
  | .resume caller =>
      { w with
        waiting := Function.update w.waiting caller
          ((w.waiting caller).filter fun e => !waitDone w.sys (some e.2)) }

/-- A new `ETHREAD` and a new `KTHREAD` are no thread's, and the latter is to run. -/
def Proper (w : JoinWorld) : JoinOp → Prop
  | .createThread _ _ hdr kt =>
      (∀ l ∈ w.launches, l.ethread ≠ hdr + Ob.objectHeader ∧ l.kthread ≠ kt) ∧
        w.sys.terminated kt = false
  | .wait caller _ => w.waiting caller = none
  | _ => True

/-- `kt` runs thread `t`. -/
def Runs (w : JoinWorld) (t kt : Nat) : Prop :=
  ∃ l ∈ w.launches, l.ethread = t ∧ l.kthread = kt

/-- Thread `t` has terminated. -/
def Over (w : JoinWorld) (t : Nat) : Prop := ∃ kt, Runs w t kt ∧ w.sys.terminated kt = true

/-- A call with a handle of thread `t` is right: if it returns at once the thread is over,
and otherwise it waits for that thread. -/
def WaitRight (w : JoinWorld) (h t : Nat) : Prop :=
  if waitDone w.sys (waitEntry w.sys h) then Over w t
  else ∃ i, waitEntry w.sys h = some i ∧ Runs w t (w.sys.ring3 i).2

/-- The first of the 16 oldest launches to get a handle's value. -/
def firstLaunch (w : JoinWorld) (h : Nat) : Option Launch :=
  (w.launches.take ring3Max).find? fun l => l.handle == h

/-- Thread `t` was the first to get the value of its handle, among the 16 oldest; or it is
over, and so is the one that was. -/
def FirstOrOver (w : JoinWorld) (h t : Nat) : Prop :=
  (∃ l, firstLaunch w h = some l ∧ l.ethread = t) ∨
    (∀ l, firstLaunch w h = some l → w.sys.terminated l.kthread = true) ∧ Over w t

/-- The thread of a wait that returns with an operation. -/
def returned (w : JoinWorld) : JoinOp → Option Nat
  | .wait _ h => if waitDone w.sys (waitEntry w.sys h) then some (threadOf w.sys h) else none
  | .resume caller => ((w.waiting caller).filter fun e => waitDone w.sys (some e.2)).map Prod.fst
  | _ => none

end MeuOS.Ke
