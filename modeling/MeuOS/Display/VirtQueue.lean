import Mathlib.Data.List.Perm.Basic
import Mathlib.Data.List.Nodup
import Mathlib.Data.List.Range
import Mathlib.Tactic.Ring
import MeuOS.Lib.Run

/-! The control queue of virtio-gpu. Free descriptors are threaded through the links that chains use,
and a chain is freed by the flags that were left in it. -/
namespace MeuOS.Display

open MeuOS.Lib

/-- `VIRTIO_VQ_SIZE`. -/
def virtioVqSize : Nat := 64

def virtqDescFreeEnd : Nat := 0xFFFF
def virtqDescFNext : Nat := 1
def virtqDescFWrite : Nat := 2

/-- `struct vq_desc`. -/
structure VqDesc where
  addr : Nat
  len : Nat
  flags : Nat
  next : Nat

/-- `struct vq_used_elem`. -/
structure VqUsedElem where
  id : Nat
  len : Nat

/-- `VIRTIO_QUEUE`, with the three areas it shares with the device. -/
structure VirtioQueue where
  size : Nat
  lastUsedIdx : Nat
  nextFreeDesc : Nat
  numFree : Nat
  desc : Nat → VqDesc
  availIdx : Nat
  availRing : Nat → Nat
  usedIdx : Nat
  usedRing : Nat → VqUsedElem

/-- `none` where the device has no such queue or there is no memory; the page's address is `0` then. -/
def virtioQueueInit (devQsize descPhys availPhys usedPhys : Nat) : Option VirtioQueue :=
  if devQsize = 0 then none
  else
    let qsize := if virtioVqSize < devQsize then virtioVqSize else devQsize
    if descPhys = 0 ∨ availPhys = 0 ∨ usedPhys = 0 then none
    else
      some
        { size := qsize
          lastUsedIdx := 0
          nextFreeDesc := 0
          numFree := qsize
          desc := fun i => ⟨0, 0, 0, if i < qsize - 1 then i + 1 else if i = qsize - 1 then virtqDescFreeEnd else 0⟩
          availIdx := 0
          availRing := fun _ => 0
          usedIdx := 0
          usedRing := fun _ => ⟨0, 0⟩ }

/-! ## Descriptors -/

/-- The queue afterwards and the descriptor. -/
def virtioQueueAllocDesc (q : VirtioQueue) : VirtioQueue × Nat :=
  if q.numFree = 0 then (q, virtqDescFreeEnd)
  else
    let head := q.nextFreeDesc
    if head = virtqDescFreeEnd then (q, virtqDescFreeEnd)
    else ({ q with nextFreeDesc := (q.desc head).next, numFree := q.numFree - 1 }, head)

/-- What one turn of the loop of `virtio_queue_free_desc_chain` does to its descriptor. -/
def VirtioQueue.giveBack (q : VirtioQueue) (cur : Nat) : VirtioQueue :=
  { q with
    desc := Function.update q.desc cur { q.desc cur with next := q.nextFreeDesc, flags := 0 }
    nextFreeDesc := cur
    numFree := (q.numFree + 1) % 2 ^ 16 }

def freeLoop : Nat → VirtioQueue → Nat → Option VirtioQueue
  | 0, _, _ => none
  | fuel + 1, q, cur =>
    let d := q.desc cur
    let q := q.giveBack cur
    if d.flags &&& virtqDescFNext = 0 then some q
    else if q.size ≤ d.next then some q
    else freeLoop fuel q d.next

/-- A turn leaves a descriptor without the flag that leads on, so there are no more turns than descriptors. -/
def virtioQueueFreeDescChain (q : VirtioQueue) (headIdx : Nat) : Option VirtioQueue :=
  if q.size ≤ headIdx then some q else freeLoop (q.size + 1) q headIdx

def virtioQueueSubmit (q : VirtioQueue) (headIdx : Nat) : VirtioQueue :=
  { q with
    availRing := Function.update q.availRing (q.availIdx % q.size) headIdx
    availIdx := (q.availIdx + 1) % 2 ^ 16 }

/-- The queue and the length the device wrote. `none` as long as the device has not answered, which is polled for. -/
def virtioQueueWaitResponse (q : VirtioQueue) : Option (VirtioQueue × Nat) :=
  if q.lastUsedIdx = q.usedIdx then none
  else
    let elem := q.usedRing (q.lastUsedIdx % q.size)
    let q := { q with lastUsedIdx := (q.lastUsedIdx + 1) % 2 ^ 16 }
    (if elem.id < q.size then virtioQueueFreeDescChain q (elem.id % 2 ^ 16) else some q).map (·, elem.len)

/-! ## Commands -/

/-- The arguments of `virtio_gpu_send_cmd`. -/
structure GpuCommand where
  reqBuf : Nat
  reqLen : Nat
  respBuf : Nat
  respLen : Nat

/-- The length in the used ring, and the type the response has afterwards. -/
structure GpuAnswer where
  len : Nat
  type : Nat

/-- `desc[h]` is the request, `desc[r]` the response. -/
def VirtioQueue.link (q : VirtioQueue) (h r : Nat) (cmd : GpuCommand) : VirtioQueue :=
  { q with
    desc := Function.update (Function.update q.desc h ⟨cmd.reqBuf, cmd.reqLen, virtqDescFNext, r⟩) r
      ⟨cmd.respBuf, cmd.respLen, virtqDescFWrite, 0⟩ }

/-- The device has read the available ring up to `seen`, and completes the chain that is next. -/
def VirtioQueue.answer (q : VirtioQueue) (seen len : Nat) : VirtioQueue :=
  { q with
    usedRing := Function.update q.usedRing (q.usedIdx % q.size) ⟨q.availRing (seen % q.size), len⟩
    usedIdx := (q.usedIdx + 1) % 2 ^ 16 }

/-- A descriptor that is given back if there was one. -/
def freeAllocated (q : VirtioQueue) (d : Nat) : Option VirtioQueue :=
  if d ≠ virtqDescFreeEnd then virtioQueueFreeDescChain q d else some q

/-- The queue, how far the device has read, and the type that is returned. The device answers while
`virtio_queue_wait_response` polls. -/
def virtioGpuSendCmd (queuesOk : Bool) (cmd : GpuCommand) (ans : GpuAnswer) (q : VirtioQueue) (seen : Nat) :
    Option (VirtioQueue × Nat × Nat) :=
  if !queuesOk then some (q, seen, 0)
  else
    let head := virtioQueueAllocDesc q
    let resp := virtioQueueAllocDesc head.1
    let h := head.2
    let r := resp.2
    if h = virtqDescFreeEnd ∨ r = virtqDescFreeEnd then
      (freeAllocated resp.1 h).bind fun q => (freeAllocated q r).map (·, seen, 0)
    else
      let q := virtioQueueSubmit (resp.1.link h r cmd) h
      (virtioQueueWaitResponse (q.answer seen ans.len)).map fun p => (p.1, (seen + 1) % 2 ^ 16, ans.type)

/-! ## Histories -/

/-- `chains` are those that were allocated and not freed; `sent` is the head of the one that was submitted
and not waited for. -/
structure GpuWorld where
  queue : VirtioQueue
  lastAvail : Nat
  chains : List (List Nat)
  sent : Option Nat

inductive GpuOp
  | alloc
  | link (h r : Nat) (cmd : GpuCommand)
  | submit (h : Nat)
  /-- The device answers. -/
  | answer (len : Nat)
  | wait
  | free (h : Nat)
  | sendCmd (queuesOk : Bool) (cmd : GpuCommand) (ans : GpuAnswer)

/-- The chains but for the one with the head `h`. -/
def GpuWorld.without (w : GpuWorld) (h : Nat) : List (List Nat) := w.chains.eraseP fun c => c.head? = some h

/-- Whoever submits a chain waits for it before anything else is submitted, and what is linked or freed is
not with the device. -/
def gpuStep (w : GpuWorld) : GpuOp → Option GpuWorld
  | .alloc =>
      let a := virtioQueueAllocDesc w.queue
      some { w with queue := a.1, chains := if a.2 = virtqDescFreeEnd then w.chains else [a.2] :: w.chains }
  | .link h r cmd =>
      if [h] ∈ w.chains ∧ [r] ∈ w.chains.erase [h] ∧ w.sent ≠ some h ∧ w.sent ≠ some r then
        some { w with queue := w.queue.link h r cmd, chains := [h, r] :: (w.chains.erase [h]).erase [r] }
      else none
  | .submit h =>
      if w.sent = none ∧ some h ∈ w.chains.map List.head? then
        some { w with queue := virtioQueueSubmit w.queue h, sent := some h }
      else none
  | .answer len =>
      if w.lastAvail ≠ w.queue.availIdx then
        some { w with queue := w.queue.answer w.lastAvail len, lastAvail := (w.lastAvail + 1) % 2 ^ 16 }
      else none
  | .wait =>
      (virtioQueueWaitResponse w.queue).map fun p =>
        { w with
          queue := p.1
          chains := w.without (w.queue.usedRing (w.queue.lastUsedIdx % w.queue.size)).id
          sent := none }
  | .free h =>
      if some h ∈ w.chains.map List.head? ∧ w.sent ≠ some h then
        (virtioQueueFreeDescChain w.queue h).map fun q => { w with queue := q, chains := w.without h }
      else none
  | .sendCmd queuesOk cmd ans =>
      if w.sent = none then
        (virtioGpuSendCmd queuesOk cmd ans w.queue w.lastAvail).map fun p =>
          { w with queue := p.1, lastAvail := p.2.1 }
      else none

/-- Nothing is allocated after `virtio_queue_init`. -/
def GpuStart (devQsize : Nat) (w : GpuWorld) : Prop :=
  (∃ descPhys availPhys usedPhys, virtioQueueInit devQsize descPhys availPhys usedPhys = some w.queue) ∧
    w.lastAvail = 0 ∧ w.chains = [] ∧ w.sent = none

def GpuReach (devQsize : Nat) : GpuWorld → Prop :=
  Reach (GpuStart devQsize) (fun w op w' => gpuStep w op = some w') fun _ _ => True

/-! ## What is promised -/

/-- From `p` the links lead through `l` to the end of the free list. -/
def FreeFrom (desc : Nat → VqDesc) : Nat → List Nat → Prop
  | p, [] => p = virtqDescFreeEnd
  | p, d :: l => p = d ∧ d ≠ virtqDescFreeEnd ∧ FreeFrom desc (desc d).next l

def VirtioQueue.FreeList (q : VirtioQueue) (l : List Nat) : Prop := FreeFrom q.desc q.nextFreeDesc l

/-- The descriptors of one chain, in order. -/
def Chained (desc : Nat → VqDesc) : List Nat → Prop
  | [] => False
  | [d] => (desc d).flags &&& virtqDescFNext = 0
  | d :: e :: c => (desc d).flags &&& virtqDescFNext ≠ 0 ∧ (desc d).next = e ∧ Chained desc (e :: c)

/-- The free list and the chains in flight share out the descriptors. -/
structure SharedOut (w : GpuWorld) (free : List Nat) : Prop where
  list : w.queue.FreeList free
  chained : ∀ c ∈ w.chains, Chained w.queue.desc c
  parts : (free ++ w.chains.flatten).Perm (List.range w.queue.size)
  count : w.queue.numFree = free.length

/-- What is allocated was free and is not in flight; nothing is allocated exactly if nothing is free. -/
def AllocSound (w : GpuWorld) (free : List Nat) : Prop :=
  let d := (virtioQueueAllocDesc w.queue).2
  (d = virtqDescFreeEnd ↔ free = []) ∧ (d ≠ virtqDescFreeEnd → d ∈ free ∧ d ∉ w.chains.flatten)

/-- Freeing a chain, by its head, gives back its members and no other descriptor. -/
def FreeSound (w : GpuWorld) (free : List Nat) : Prop :=
  ∀ c ∈ w.chains, ∀ h, c.head? = some h →
    ∃ q, virtioQueueFreeDescChain w.queue h = some q ∧ q.FreeList (c.reverse ++ free)

/-- An answer gives back the chain that was submitted. -/
def WaitSound (w : GpuWorld) (free : List Nat) : Prop :=
  w.queue.lastUsedIdx ≠ w.queue.usedIdx →
    ∃ h c q len, w.sent = some h ∧ c ∈ w.chains ∧ c.head? = some h ∧
      virtioQueueWaitResponse w.queue = some (q, len) ∧ q.FreeList (c.reverse ++ free)

/-- A command leaves the free descriptors as they were, but for their order. -/
def SendSound (w : GpuWorld) (free : List Nat) : Prop :=
  w.sent = none → ∀ queuesOk cmd ans,
    ∃ q seen type free', virtioGpuSendCmd queuesOk cmd ans w.queue w.lastAvail = some (q, seen, type) ∧
      q.FreeList free' ∧ free'.Perm free

end MeuOS.Display
