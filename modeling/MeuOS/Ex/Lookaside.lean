import MeuOS.Mm.HeapClient
import MeuOS.Lib.Linked

/-! Lookaside lists: entries that were freed stay linked through their first eight bytes and are handed out again.
The heap behind them has no lock of its own. -/
namespace MeuOS.Ex

open MeuOS.Lib MeuOS.Mm

/-- `NPAGED_LOOKASIDE_LIST`, but for its lock: what happens under the lock is one step. -/
structure NpagedLookasideList where
  listHead : Nat
  size : Nat
  tag : Nat
  depth : Nat

def exInitializeNPagedLookasideList (size tag : Nat) : NpagedLookasideList where
  listHead := 0
  size := size % 2 ^ 32
  tag := tag % 2 ^ 32
  depth := 0

/-- What `ExAllocateFromNPagedLookasideList` does under the lock: the list and the entry, or 0. -/
def popEntry (m : Mem) (l : NpagedLookasideList) : NpagedLookasideList × Nat :=
  let p := l.listHead
  if p ≠ 0 then
    ({ l with listHead := m.rd64 p, depth := if l.depth ≠ 0 then l.depth - 1 else l.depth }, p)
  else (l, 0)

/-- `L->Size ? L->Size : 16`, the argument of `kmalloc` on a miss. -/
def missSize (l : NpagedLookasideList) : Nat := if l.size ≠ 0 then l.size else 16

/-- `ExFreeToNPagedLookasideList`, for an entry. -/
def pushEntry (m : Mem) (l : NpagedLookasideList) (entry : Nat) : Mem × NpagedLookasideList :=
  (m.write entry 8 l.listHead, { l with listHead := entry, depth := (l.depth + 1) % 2 ^ 32 })

/-- The loop of `ExDeleteNPagedLookasideList`, and the arguments of `kfree`. -/
def deleteLoop : Nat → Heap → Nat → Option (Heap × List Nat)
  | 0, _, _ => none
  | fuel + 1, h, p =>
      if p = 0 then some (h, [])
      else
        let nx := h.mem.rd64 p
        (kfree h p).bind fun h => (deleteLoop fuel h nx).map fun r => (r.1, p :: r.2)

def exDeleteNPagedLookasideList (h : Heap) (l : NpagedLookasideList) :
    Option (Heap × NpagedLookasideList × List Nat) :=
  (deleteLoop heapSize h l.listHead).map fun r => (r.1, { l with listHead := 0 }, r.2)

/-! ## Threads -/

/-- Where a thread is: outside, behind an unsuccessful look at the list, in the loop of `kmalloc` at a block, or
behind its test, about to take the block. -/
inductive Call
  | idle | miss | search (n b : Nat) | take (n b : Nat)
  deriving DecidableEq

def Call.inside : Call → Bool
  | .search _ _ | .take _ _ => true
  | _ => false

structure LookWorld where
  heap : Heap
  list : NpagedLookasideList
  call : Nat → Call
  /-- The entries that were handed out and not freed. -/
  live : List Nat
  /-- The freed ones that were not handed out again, the last one first. -/
  cached : List Nat

inductive LookOp
  | allocate (t : Nat)
  /-- Behind a miss, the thread calls `kmalloc`. -/
  | kmalloc (t : Nat)
  | look (t : Nat)
  | take (t : Nat)
  | free (p : Nat)
  /-- A byte is stored into a live entry. -/
  | store (p i : Nat) (v : UInt8)

/-- The bytes of an entry. -/
def LookWorld.bytes (s : LookWorld) (p : Nat) : Nat := blockSize s.heap.mem (p - blockHeader)

def LookWorld.setCall (s : LookWorld) (t : Nat) (c : Call) : LookWorld := { s with call := Function.update s.call t c }

@[simp] theorem LookWorld.setCall_same (s : LookWorld) (t : Nat) (c : Call) : (s.setCall t c).call t = c :=
  Function.update_self ..

theorem LookWorld.setCall_other (s : LookWorld) {t u : Nat} (c : Call) (h : u ≠ t) :
    (s.setCall t c).call u = s.call u :=
  Function.update_of_ne h ..

/-- One turn of the loop in `kmalloc`. -/
def lookTurn (m : Mem) (n b : Nat) : Call :=
  if b = 0 then .idle
  else if blockFree m b = true ∧ n ≤ blockSize m b then .take n b
  else .search n (blockNext m b)

def lookStep (s : LookWorld) : LookOp → Option LookWorld
  | .allocate t =>
      if s.call t = .idle then
        let (l, p) := popEntry s.heap.mem s.list
        if p = 0 then some (s.setCall t .miss)
        else some { s with list := l, live := p :: s.live, cached := s.cached.erase p }
      else none
  | .kmalloc t =>
      if s.call t = .miss then some (s.setCall t (.search (roundUp16 (missSize s.list)) s.heap.sHead)) else none
  | .look t =>
      match s.call t with
      | .search n b => some (s.setCall t (lookTurn s.heap.mem n b))
      | _ => none
  | .take t =>
      match s.call t with
      | .take n b =>
          some { s.setCall t .idle with
            heap := { s.heap with mem := takeBlock s.heap.mem b n }
            live := (b + blockHeader) :: s.live }
      | _ => none
  | .free p =>
      if p ∈ s.live then
        let (m, l) := pushEntry s.heap.mem s.list p
        some { s with heap := { s.heap with mem := m }, list := l, live := s.live.erase p, cached := p :: s.cached }
      else none
  | .store p i v =>
      if p ∈ s.live ∧ i < s.bytes p then some { s with heap := { s.heap with mem := s.heap.mem.put (p + i) v } }
      else none

/-- A heap with these blocks in use, and a list as it is initialised. -/
def LookStart (h : Heap) (size tag : Nat) (s : LookWorld) : Prop :=
  s = ⟨h, exInitializeNPagedLookasideList size tag, fun _ => .idle, [], []⟩

/-- A thread calls `kmalloc` while no other is in it. -/
def Alone (s : LookWorld) : LookOp → Prop
  | .kmalloc _ => ∀ u, (s.call u).inside = false
  | _ => True

def LookRun (h : Heap) (size tag : Nat) (guard : LookWorld → LookOp → Prop) : LookWorld → Prop :=
  Reach (LookStart h size tag) (fun s op s' => lookStep s op = some s') guard

/-- Entries apart, with as many bytes as the list was made for; the entry that was freed last comes first; the depth is
the number of the cached ones. -/
structure LookSound (size : Nat) (s : LookWorld) : Prop where
  disjoint : s.live.Pairwise fun p q => p + s.bytes p ≤ q ∨ q + s.bytes q ≤ p
  room : ∀ p ∈ s.live, (size ≤ s.bytes p ↔ size < 2 ^ 32)
  recent : (popEntry s.heap.mem s.list).2 = s.cached.headD 0
  entry : 0 ∉ s.cached
  depth : s.list.depth = s.cached.length

/-- The list gives its entries back, each once. It is as it was made exactly if there were none. -/
def DeleteSound (others : List Alloc) (size tag : Nat) (s : LookWorld) : Prop :=
  ∃ h' l' live, exDeleteNPagedLookasideList s.heap s.list = some (h', l', s.cached) ∧ s.cached.Nodup ∧
    (live.map Alloc.ptr).Perm s.live ∧ Mm.Holds h' (live ++ others) ∧
    (l' = exInitializeNPagedLookasideList size tag ↔ s.cached = [])

end MeuOS.Ex
