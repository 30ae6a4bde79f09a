import MeuOS.Lib.Ring

/-! The scheduler. A step is what one processor does between two releases of the
dispatcher lock; what a thread still has to do after it dropped the lock is part of the
state. -/
namespace MeuOS.Ke

open MeuOS.Lib

def maxCpus : Nat := 8

def quantumDefault : Int := 4

inductive ThreadState
  | new | ready | running | waiting | terminated
  deriving DecidableEq, Repr

/-- A `ki_thread_t`: an entry of the static idle pool, or the `n`-th thread created. -/
inductive Tid
  | idle (cpu : Nat)
  | worker (n : Nat)
  deriving DecidableEq, Repr

/-- The list entries: two in each thread, and the sentinels. -/
inductive Node
  | readyLink (t : Tid)
  | waitLink (t : Tid)
  | readyHead (cpu : Nat)
  | waitHead
  deriving DecidableEq, Repr

structure KiThread where
  state : ThreadState
  cpuAffinity : Int
  cpuCurrent : Int
  waitObject : Nat
  quantum : Int

structure KiPrcb where
  currentThread : Option Tid
  idleThread : Option Tid
  online : Bool

/-- A call of `ki_ready_thread` that has not inserted its thread yet. The processor is
chosen, and the state set, before the lock is taken. -/
structure Readying where
  thread : Tid
  target : Option Nat

/-- `pending` lists the calls each thread has still to finish: its own, and the batch its
`ki_wake` took out of the wait list. -/
structure Sched where
  thread : Tid → KiThread
  links : Links Node
  prcb : Nat → KiPrcb
  cpuCount : Nat
  rrCpu : Nat
  created : Nat
  pending : Tid → List Readying

namespace Sched

def setThread (s : Sched) (t : Tid) (k : KiThread) : Sched :=
  { s with thread := Function.update s.thread t k }

def setPrcb (s : Sched) (cpu : Nat) (p : KiPrcb) : Sched :=
  { s with prcb := Function.update s.prcb cpu p }

def setPending (s : Sched) (t : Tid) (l : List Readying) : Sched :=
  { s with pending := Function.update s.pending t l }

/-- The thread `ki_current_thread` returns on `cpu`. -/
def current (s : Sched) (cpu : Nat) : Option Tid := (s.prcb cpu).currentThread

def online (s : Sched) (cpu : Nat) : Bool := (s.prcb cpu).online

end Sched

/-- Memory at boot, all zero. -/
def zeroThread : KiThread := ⟨.new, 0, 0, 0, 0⟩

def zeroSched : Sched where
  thread := fun _ => zeroThread
  links := ⟨fun _ => none, fun _ => none⟩
  prcb := fun _ => ⟨none, none, false⟩
  cpuCount := 0
  rrCpu := 0
  created := 0
  pending := fun _ => []

/-- Both list entries of a `ki_thread_t` set to zero. -/
def zeroLinks (L : Links Node) (t : Tid) : Links Node :=
  (((L.setNext (.readyLink t) none).setPrev (.readyLink t) none).setNext (.waitLink t) none).setPrev
    (.waitLink t) none

def kiInitProcessor (cpu : Nat) (s : Sched) : Sched :=
  if maxCpus ≤ cpu then s
  else
    let links := if cpu = 0 then s.links.initHead .waitHead else s.links
    let links := zeroLinks (links.initHead (.readyHead cpu)) (.idle cpu)
    let idle : KiThread :=
      { state := .running, cpuAffinity := cpu, cpuCurrent := cpu, waitObject := 0
        quantum := quantumDefault }
    { s with
      links := links
      cpuCount := s.cpuCount + 1
      thread := Function.update s.thread (.idle cpu) idle
      prcb := Function.update s.prcb cpu ⟨some (.idle cpu), some (.idle cpu), true⟩ }

/-- The thread's block is fresh: no thread is ever freed. -/
def kiCreateThread (cpuAffinity : Int) (s : Sched) : Sched :=
  { s with
    links := zeroLinks s.links (.worker s.created)
    thread := Function.update s.thread (.worker s.created)
      { state := .new, cpuAffinity := cpuAffinity, cpuCurrent := -1, waitObject := 0
        quantum := quantumDefault }
    created := s.created + 1 }

/-! ## `ki_ready_thread` -/

/-- The round-robin search with `left` processors to try. -/
def roundRobinLoop (s : Sched) (pick : Nat) : Nat → Nat → Nat
  | 0, _ => 0
  | left + 1, i =>
      let idx := (pick + i) % 4294967296 % maxCpus
      if s.online idx then idx else roundRobinLoop s pick left (i + 1)

/-- The processor a thread goes to, and the state after `s_rr_cpu` moved on. -/
def readyTarget (t : Tid) (s : Sched) : Nat × Sched :=
  let affinity := (s.thread t).cpuAffinity
  if affinity < 0 ∨ (maxCpus : Int) ≤ affinity then
    (roundRobinLoop s s.rrCpu s.cpuCount 0, { s with rrCpu := (s.rrCpu + 1) % 4294967296 })
  else (affinity.toNat, s)

/-- Up to the lock: the thread `waker` chooses a processor for the next thread it readies. -/
def readyMark (waker : Tid) (s : Sched) : Option Sched :=
  match s.pending waker with
  | ⟨t, none⟩ :: rest =>
      let (target, s) := readyTarget t s
      some ((s.setThread t { s.thread t with state := .ready, cpuCurrent := target }).setPending
        waker (⟨t, some target⟩ :: rest))
  | _ => none

/-- Under the lock. -/
def readyInsert (waker : Tid) (s : Sched) : Option Sched :=
  match s.pending waker with
  | ⟨t, some target⟩ :: rest =>
      (s.links.insertTail (.readyHead target) (.readyLink t)).map fun links =>
        { s with links := links }.setPending waker rest
  | _ => none

/-! ## `ki_quantum_end` -/

def kiPickNextLocked (cpu : Nat) (s : Sched) : Option (Tid × Sched) :=
  (s.links.popHead (.readyHead cpu)).bind fun (link, links) =>
    match link with
    | none => (s.prcb cpu).idleThread.map fun t => (t, s)
    | some (.readyLink t) => some (t, { s with links := links })
    | some _ => none

/-- The thread that gives the processor up goes back to the end of the queue, unless it
terminated or waits. The idle thread keeps its state. -/
def requeue (cpu : Nat) (cur : Tid) (isIdle : Bool) (s : Sched) : Option Sched :=
  if (s.thread cur).state ≠ .terminated ∧ (s.thread cur).state ≠ .waiting then
    let s := if isIdle then s else s.setThread cur { s.thread cur with state := .ready }
    (s.links.insertTail (.readyHead cpu) (.readyLink cur)).map fun links =>
      { s with links := links }
  else some s

def dispatch (cpu : Nat) (next : Tid) (s : Sched) : Sched :=
  (s.setThread next { s.thread next with state := .running, cpuCurrent := cpu }).setPrcb cpu
    { s.prcb cpu with currentThread := some next }

/-- The part under the lock, `cur` being the thread that gives the processor up. -/
def kiSwapThread (cpu : Nat) (cur : Tid) (isIdle : Bool) (s : Sched) : Option Sched :=
  (kiPickNextLocked cpu s).bind fun (next, s) =>
    if next = cur then some s else (requeue cpu cur isIdle s).map (dispatch cpu next)

def kiQuantumEnd (cpu : Nat) (s : Sched) : Option Sched :=
  if s.online cpu = false then some s
  else
    ((s.current cpu).or (s.prcb cpu).idleThread).bind fun cur =>
      if some cur = (s.prcb cpu).idleThread then kiSwapThread cpu cur true s
      else
        let left := (s.thread cur).quantum - 1
        if left ≤ 0 then
          kiSwapThread cpu cur false (s.setThread cur { s.thread cur with quantum := quantumDefault })
        else some (s.setThread cur { s.thread cur with quantum := left })

def kiYieldProcessor (cpu : Nat) (s : Sched) : Option Sched :=
  match s.current cpu with
  | none => kiQuantumEnd cpu s
  | some cur => kiQuantumEnd cpu (s.setThread cur { s.thread cur with quantum := 0 })

/-! ## Waiting -/

def kiBlockCurrent (cpu obj : Nat) (s : Sched) : Option Sched :=
  match s.current cpu with
  | none => some s
  | some cur =>
      (s.links.insertTail .waitHead (.waitLink cur)).map fun links =>
        { s with links := links }.setThread cur
          { s.thread cur with waitObject := obj, state := .waiting }

/-- The loop of `ki_wake` under the lock; a null link ends it. -/
def kiWakeLoop (obj : Nat) (wakeAll : Bool) :
    Nat → Option Node → Nat → Sched → Option (List Tid × Sched)
  | 0, _, _, _ => none
  | _ + 1, none, _, s => some ([], s)
  | _ + 1, some .waitHead, _, s => some ([], s)
  | fuel + 1, some (.waitLink t), n, s =>
      if 16 ≤ n then some ([], s)
      else
        let nx := s.links.next (.waitLink t)
        if (s.thread t).waitObject = obj then
          (s.links.unlink (.waitLink t)).bind fun links =>
            let s := { s with links := links }.setThread t { s.thread t with waitObject := 0 }
            if wakeAll then (kiWakeLoop obj wakeAll fuel nx (n + 1) s).map fun (l, s) => (t :: l, s)
            else some ([t], s)
        else kiWakeLoop obj wakeAll fuel nx n s
  | _ + 1, some _, _, _ => none

/-- The first half of `ki_wake`, run by the current thread of `cpu`: the batch is left for
its calls of `ki_ready_thread`. -/
def kiWake (fuel cpu obj : Nat) (wakeAll : Bool) (s : Sched) : Option Sched :=
  (s.current cpu).bind fun waker =>
    (kiWakeLoop obj wakeAll fuel (s.links.next .waitHead) 0 s).map fun (batch, s) =>
      s.setPending waker ((batch.map fun t => ⟨t, none⟩) ++ s.pending waker)

/-- `cur->state = KI_THREAD_TERMINATED`, as `ki_thread_startup` and
`ki_ring3_thread_exit` do; the wake and the yields that follow are steps of their own. -/
def kiThreadExit (cpu : Nat) (s : Sched) : Sched :=
  match s.current cpu with
  | none => s
  | some cur => s.setThread cur { s.thread cur with state := .terminated }

/-! ## Steps -/

inductive Action
  | initProcessor (cpu : Nat)
  | create (cpuAffinity : Int)
  | readyThread (cpu : Nat) (t : Tid)
  | mark (cpu : Nat)
  | insert (cpu : Nat)
  | quantumEnd (cpu : Nat)
  | yieldProcessor (cpu : Nat)
  | blockCurrent (cpu obj : Nat)
  | wake (cpu obj : Nat) (wakeAll : Bool)
  | exit (cpu : Nat)
  deriving Repr

/-- One step; `fuel` bounds the walk over the wait list. -/
def schedStep (fuel : Nat) (s : Sched) : Action → Option Sched
  | .initProcessor cpu => some (kiInitProcessor cpu s)
  | .create cpuAffinity => some (kiCreateThread cpuAffinity s)
  | .readyThread cpu t =>
      (s.current cpu).map fun cur => s.setPending cur (⟨t, none⟩ :: s.pending cur)
  | .mark cpu => (s.current cpu).bind fun cur => readyMark cur s
  | .insert cpu => (s.current cpu).bind fun cur => readyInsert cur s
  | .quantumEnd cpu => kiQuantumEnd cpu s
  | .yieldProcessor cpu => kiYieldProcessor cpu s
  | .blockCurrent cpu obj => kiBlockCurrent cpu obj s
  | .wake cpu obj wakeAll => kiWake fuel cpu obj wakeAll s
  | .exit cpu => some (kiThreadExit cpu s)

def SchedStep (s : Sched) (a : Action) (s' : Sched) : Prop := ∃ fuel, schedStep fuel s a = some s'

/-- The boot processor has initialised itself. -/
def Booted (s : Sched) : Prop := s = kiInitProcessor 0 zeroSched

end MeuOS.Ke
