import MeuOS.Lib.Ring

/-! Deferred procedure calls. A step is one section under the lock of a queue;
`KeRemoveQueueDpc` reads which lock to take before it takes it, so its two halves are
two steps. What a routine does when it is called is again such steps. -/
namespace MeuOS.Ke

open MeuOS.Lib

def dpcMaxCpus : Nat := 8

/-- `Number` of a DPC in no queue. -/
def notQueued : Nat := 0xFFFF

/-- The list entries: one in each KDPC, and the heads. -/
inductive DpcNode
  | head (cpu : Nat)
  | entry (dpc : Nat)
  deriving DecidableEq, Repr

structure Kdpc where
  number : Nat
  deferredRoutine : Nat
  deferredContext : Nat
  systemArgument1 : Nat
  systemArgument2 : Nat
  deriving DecidableEq, Repr

/-- One successful insert: the object and its arguments. -/
structure DpcRequest where
  dpc : Nat
  arg1 : Nat
  arg2 : Nat
  deriving DecidableEq, Repr

/-- `ran` is the call `r(dpc, ctx, a1, a2)`; a null routine is not called. -/
inductive DpcEvent
  | inserted (cpu : Nat) (r : DpcRequest)
  | ran (cpu : Nat) (r : DpcRequest) (routine context : Nat)
  | removed (cpu dpc : Nat)
  deriving DecidableEq, Repr

/-- `removing` lists the calls of `KeRemoveQueueDpc` between the read of `Number` and the
lock; `log` is what the calls did, latest first. -/
structure DpcSys where
  links : Links DpcNode
  dpc : Nat → Kdpc
  pending : Nat → Bool
  ready : Bool
  removing : List (Nat × Nat)
  log : List DpcEvent

/-- `cur_cpu`. -/
def curCpu (index : Nat) : Nat := if dpcMaxCpus ≤ index then 0 else index

def keInitializeDpc (routine context : Nat) : Kdpc := ⟨notQueued, routine, context, 0, 0⟩

/-- The heads of the first `n` queues. -/
def initHeads (L : Links DpcNode) : Nat → Links DpcNode
  | 0 => L
  | n + 1 => (initHeads L n).initHead (.head n)

def kiInitializeDpcSubsystem (s : DpcSys) : DpcSys :=
  { s with links := initHeads s.links dpcMaxCpus, pending := fun _ => false, ready := true }

def DpcSys.setDpc (s : DpcSys) (d : Nat) (k : Kdpc) : DpcSys :=
  { s with dpc := Function.update s.dpc d k }

def DpcSys.setPending (s : DpcSys) (cpu : Nat) (b : Bool) : DpcSys :=
  { s with pending := Function.update s.pending cpu b }

/-- The locked part of `KeInsertQueueDpc` on the processor `index`; 0 is a null pointer. -/
def keInsertQueueDpc (index d arg1 arg2 : Nat) (s : DpcSys) : Option (Bool × DpcSys) :=
  if d = 0 ∨ s.ready = false then some (false, s)
  else
    let c := curCpu index
    if (s.dpc d).number ≠ notQueued then some (false, s)
    else
      (s.links.insertTail (.head c) (.entry d)).map fun links =>
        (true, { (s.setDpc d { s.dpc d with
            number := c, systemArgument1 := arg1, systemArgument2 := arg2 }).setPending c true with
          links := links, log := .inserted c ⟨d, arg1, arg2⟩ :: s.log })

/-- One turn of the loop of `KiRetireDpcList`: `true` when the queue was empty. -/
def kiRetireDpc (cpu : Nat) (s : DpcSys) : Option (Bool × DpcSys) :=
  if dpcMaxCpus ≤ cpu ∨ s.ready = false then some (true, s)
  else
    (s.links.next (.head cpu)).bind fun e =>
      match e with
      | .head c => if c = cpu then some (true, s.setPending cpu false) else none
      | .entry d =>
          (s.links.detach (.entry d)).map fun links =>
            let k := s.dpc d
            (false, { s.setDpc d { k with number := notQueued } with
              links := links
              log := .ran cpu ⟨d, k.systemArgument1, k.systemArgument2⟩ k.deferredRoutine
                k.deferredContext :: s.log })

/-- `KeRemoveQueueDpc` up to the lock: the lock it will take, or none when it returns
FALSE. -/
def removeQueueDpcRead (d : Nat) (s : DpcSys) : Option Nat :=
  if d = 0 ∨ s.ready = false ∨ dpcMaxCpus ≤ (s.dpc d).number then none else some (s.dpc d).number

/-- The locked part of `KeRemoveQueueDpc`. -/
def removeQueueDpcLocked (d : Nat) (s : DpcSys) : Option (Bool × DpcSys) :=
  if (s.dpc d).number = notQueued then some (false, s)
  else
    (s.links.detach (.entry d)).map fun links =>
      (true, { s.setDpc d { s.dpc d with number := notQueued } with
        links := links, log := .removed (s.dpc d).number d :: s.log })

/-! ## Steps -/

inductive DpcAction
  | insert (index dpc arg1 arg2 : Nat)
  | retire (cpu : Nat)
  | removeRead (dpc : Nat)
  | removeLocked (dpc cpu : Nat)
  deriving Repr

def dpcStep (s : DpcSys) : DpcAction → Option DpcSys
  | .insert index d arg1 arg2 => (keInsertQueueDpc index d arg1 arg2 s).map Prod.snd
  | .retire cpu => (kiRetireDpc cpu s).map Prod.snd
  | .removeRead d =>
      match removeQueueDpcRead d s with
      | none => some s
      | some c => some { s with removing := (d, c) :: s.removing }
  | .removeLocked d c =>
      if (d, c) ∈ s.removing then
        (removeQueueDpcLocked d { s with removing := s.removing.erase (d, c) }).map Prod.snd
      else none

def DpcStep (s : DpcSys) (a : DpcAction) (s' : DpcSys) : Prop := dpcStep s a = some s'

/-- The queues are set up and every DPC is initialised. -/
def DpcBooted (s : DpcSys) : Prop :=
  ∃ s₀ : DpcSys, s = kiInitializeDpcSubsystem s₀ ∧ s₀.removing = [] ∧ s₀.log = [] ∧
    ∀ d, ∃ routine context, s₀.dpc d = keInitializeDpc routine context

end MeuOS.Ke
