import MeuOS.Mm.HeapWords

/-! `ExAllocatePool*` and `ExFreePool*`: a hidden header of 16 bytes in front of every block of the
heap, and counters of what is out. -/
namespace MeuOS.Ex

open MeuOS.Lib MeuOS.Mm

/-- `sizeof(POOL_HDR)`: `Tag`, `Size`, `Magic`, `PoolType` and `Reserved`, packed. -/
def poolHdr : Nat := 16

/-- `POOL_MAGIC`. -/
def poolMagic : Nat := 0x4C50

def hdrSize (m : Mem) (h : Nat) : Nat := m.rd64 (h + 4)
def hdrMagic (m : Mem) (h : Nat) : Nat := m.rd16 (h + 12)
def hdrPoolType (m : Mem) (h : Nat) : Nat := m.read (h + 14) 1

structure Pool where
  heap : Heap
  sAllocs : Nat
  sFrees : Nat
  sBytes : Nat
  sBytesPaged : Nat
  sBytesNonpag : Nat

def writeHdr (m : Mem) (h tag size poolType : Nat) : Mem :=
  let m := m.write h 4 tag
  let m := m.write (h + 4) 8 size
  let m := m.write (h + 12) 2 poolMagic
  let m := m.write (h + 14) 1 (poolType % 256)
  m.write (h + 15) 1 0

/-- The counters after an allocation; `PagedPool` is 1. -/
def Pool.charge (p : Pool) (heap : Heap) (poolType size : Nat) : Pool where
  heap := heap
  sAllocs := (p.sAllocs + 1) % 2 ^ 64
  sFrees := p.sFrees
  sBytes := (p.sBytes + size) % 2 ^ 64
  sBytesPaged := if poolType % 256 = 1 then (p.sBytesPaged + size) % 2 ^ 64 else p.sBytesPaged
  sBytesNonpag := if poolType % 256 = 1 then p.sBytesNonpag else (p.sBytesNonpag + size) % 2 ^ 64

def exAllocatePoolWithTag (p : Pool) (poolType numberOfBytes tag : Nat) : Option (Pool × Nat) :=
  if numberOfBytes = 0 then some (p, 0)
  else
    (kmalloc p.heap ((numberOfBytes + poolHdr) % 2 ^ 64)).map fun (heap, raw) =>
      if raw = 0 then ({ p with heap := heap }, 0)
      else
        let m := writeHdr heap.mem raw tag numberOfBytes poolType
        (p.charge { heap with mem := m } poolType numberOfBytes, raw + poolHdr)

/-- Tag `'Non '`. -/
def exAllocatePool (p : Pool) (poolType numberOfBytes : Nat) : Option (Pool × Nat) :=
  exAllocatePoolWithTag p poolType numberOfBytes 0x20656E6E

def exAllocatePoolUninitialized (p : Pool) (poolType numberOfBytes tag : Nat) : Option (Pool × Nat) :=
  exAllocatePoolWithTag p poolType numberOfBytes tag

/-- `NonPagedPool`. -/
def nonPagedPool : Nat := 0

def exAllocatePool2 (p : Pool) (flags numberOfBytes tag : Nat) : Option (Pool × Nat) :=
  (exAllocatePoolWithTag p nonPagedPool numberOfBytes tag).map fun (p, ptr) =>
    if ptr ≠ 0 ∧ flags % 2 = 1 then
      ({ p with heap := { p.heap with mem := p.heap.mem.blit ptr numberOfBytes fun _ => 0 } }, ptr)
    else (p, ptr)

def exAllocatePool3 (p : Pool) (flags numberOfBytes tag _params : Nat) : Option (Pool × Nat) :=
  exAllocatePool2 p flags numberOfBytes tag

/-- A counter goes down, but not below zero. -/
def takeBytes (counter size : Nat) : Nat := if size ≤ counter then counter - size else 0

/-- The counters after a block is freed. -/
def Pool.discharge (p : Pool) (heap : Heap) (poolType size : Nat) : Pool where
  heap := heap
  sAllocs := p.sAllocs
  sFrees := (p.sFrees + 1) % 2 ^ 64
  sBytes := takeBytes p.sBytes size
  sBytesPaged := if poolType = 1 then takeBytes p.sBytesPaged size else p.sBytesPaged
  sBytesNonpag := if poolType = 1 then p.sBytesNonpag else takeBytes p.sBytesNonpag size

def exFreePoolWithTag (p : Pool) (ptr _tag : Nat) : Option Pool :=
  if ptr = 0 then some p
  else
    let h := (ptr + 2 ^ 64 - poolHdr) % 2 ^ 64
    let m := p.heap.mem
    if hdrMagic m h ≠ poolMagic then some p
    else
      (kfree { p.heap with mem := m.write (h + 12) 2 0 } h).map fun heap =>
        p.discharge heap (hdrPoolType m h) (hdrSize m h)

def exFreePool (p : Pool) (ptr : Nat) : Option Pool := exFreePoolWithTag p ptr 0

/-! ## Calls -/

/-- A block handed out and not freed since. -/
structure PoolBlock where
  ptr : Nat
  size : Nat
  poolType : Nat

/-- The pool, the blocks of the heap other clients have, and the pointers that were freed and whose
headers no block handed out since has covered. -/
structure PoolWorld where
  pool : Pool
  others : List Alloc
  live : List PoolBlock
  freed : List Nat

inductive PoolCall
  | exAllocatePool (poolType numberOfBytes : Nat)
  | exAllocatePoolWithTag (poolType numberOfBytes tag : Nat)
  | exAllocatePoolUninitialized (poolType numberOfBytes tag : Nat)
  | exAllocatePool2 (flags numberOfBytes tag : Nat)
  | exAllocatePool3 (flags numberOfBytes tag params : Nat)
  | exFreePool (ptr : Nat)
  | exFreePoolWithTag (ptr tag : Nat)
  /-- A client stores a byte into memory it has. -/
  | store (i : Nat) (v : UInt8)

/-- The pool type and the size a call asks for. -/
def PoolCall.asks : PoolCall → Option (Nat × Nat)
  | .exAllocatePool t n => some (t, n)
  | .exAllocatePoolWithTag t n _ => some (t, n)
  | .exAllocatePoolUninitialized t n _ => some (t, n)
  | .exAllocatePool2 _ n _ => some (nonPagedPool, n)
  | .exAllocatePool3 _ n _ _ => some (nonPagedPool, n)
  | _ => none

/-- The pointer a call frees. -/
def PoolCall.frees : PoolCall → Option Nat
  | .exFreePool ptr => some ptr
  | .exFreePoolWithTag ptr _ => some ptr
  | _ => none

/-- What a call returns; 0 where it returns nothing. -/
def PoolCall.run (p : Pool) : PoolCall → Option (Pool × Nat)
  | .exAllocatePool t n => Ex.exAllocatePool p t n
  | .exAllocatePoolWithTag t n tag => Ex.exAllocatePoolWithTag p t n tag
  | .exAllocatePoolUninitialized t n tag => Ex.exAllocatePoolUninitialized p t n tag
  | .exAllocatePool2 flags n tag => Ex.exAllocatePool2 p flags n tag
  | .exAllocatePool3 flags n tag params => Ex.exAllocatePool3 p flags n tag params
  | .exFreePool ptr => (Ex.exFreePool p ptr).map (·, 0)
  | .exFreePoolWithTag ptr tag => (Ex.exFreePoolWithTag p ptr tag).map (·, 0)
  | .store i v => some ({ p with heap := { p.heap with mem := p.heap.mem.write i 1 v.toNat } }, 0)

/-- The block of the heap behind a pool pointer lies over the header of another. -/
def overHdr (m : Mem) (ptr q : Nat) : Prop :=
  ptr - poolHdr < q ∧ q - poolHdr < ptr - poolHdr + blockSize m (ptr - poolHdr - blockHeader)

instance (m : Mem) (ptr q : Nat) : Decidable (overHdr m ptr q) := inferInstanceAs (Decidable (_ ∧ _))

def PoolWorld.handed (w : PoolWorld) (p : Pool) (t n ptr : Nat) : PoolWorld :=
  { w with
    pool := p
    live := ⟨ptr, n, t % 256⟩ :: w.live
    freed := w.freed.filter fun q => ¬overHdr p.heap.mem ptr q }

def PoolWorld.dropped (w : PoolWorld) (p : Pool) (q : Nat) : PoolWorld :=
  { w with
    pool := p
    live := w.live.filter fun b => b.ptr != q
    freed := q :: w.freed }

/-- What is out after a call that returned. -/
def PoolWorld.after (w : PoolWorld) (c : PoolCall) (p : Pool) (ptr : Nat) : PoolWorld :=
  match c.asks, c.frees with
  | some (t, n), _ =>
      if ptr = 0 then { w with pool := p } else w.handed p t n ptr
  | none, some q => if ∃ b ∈ w.live, b.ptr = q then w.dropped p q else { w with pool := p }
  | none, none => { w with pool := p }

/-- The calls of the callers' contract: a freed pointer is null, a live one, or was freed before and
its memory not handed out since. -/
def PoolCall.Allowed (w : PoolWorld) : PoolCall → Prop
  | .store i _ => (∃ b ∈ w.live, b.ptr ≤ i ∧ i < b.ptr + b.size) ∨
      ∃ a ∈ w.others, a.ptr ≤ i ∧ i < a.ptr + a.granted
  | c => (∀ t n, c.asks = some (t, n) → n < 2 ^ 64) ∧
      ∀ q, c.frees = some q → q = 0 ∨ (∃ b ∈ w.live, b.ptr = q) ∨ q ∈ w.freed

inductive PoolStep : PoolWorld → PoolCall → PoolWorld → Prop
  | call (w : PoolWorld) (c : PoolCall) (p : Pool) (ptr : Nat) (hallowed : c.Allowed w)
      (hrun : c.run w.pool = some (p, ptr)) : PoolStep w c (w.after c p ptr)

/-- The header and the rounding to 16 bytes are added without a wrap. -/
def PoolMeets (_ : PoolWorld) (c : PoolCall) : Prop :=
  ∀ t n, c.asks = some (t, n) → n + poolHdr + 15 < 2 ^ 64

/-- Any heap of the kernel, and nothing out. -/
structure PoolStart (w : PoolWorld) : Prop where
  heap : ∃ mem, HeapRun mem HeapOp.Rounds ⟨w.pool.heap, w.others⟩
  nothing : w.live = [] ∧ w.freed = []
  counters : w.pool.sAllocs = 0 ∧ w.pool.sFrees = 0 ∧ w.pool.sBytes = 0 ∧ w.pool.sBytesPaged = 0 ∧
    w.pool.sBytesNonpag = 0

/-- The blocks lie apart in the heap, the counters say what is out, and what was freed already is
not freed again. -/
structure PoolSound (w : PoolWorld) : Prop where
  inside : ∀ b ∈ w.live, heapBase + blockHeader + poolHdr ≤ b.ptr ∧ b.ptr + b.size ≤ heapBase + heapSize
  apart : w.live.Pairwise fun b c =>
    b.ptr + b.size ≤ c.ptr - poolHdr ∨ c.ptr + c.size ≤ b.ptr - poolHdr
  others : ∀ b ∈ w.live, ∀ a ∈ w.others, b.ptr + b.size ≤ a.ptr ∨ a.ptr + a.granted ≤ b.ptr - poolHdr
  headers : ∀ b ∈ w.live, ∀ c ∈ w.pool.heap.blocks, b.ptr + b.size ≤ c.addr ∨ c.payload ≤ b.ptr - poolHdr
  bytes : w.pool.sBytes = (w.live.map PoolBlock.size).sum
  kinds : w.pool.sBytes = w.pool.sBytesPaged + w.pool.sBytesNonpag
  count : (w.pool.sAllocs + 2 ^ 64 - w.pool.sFrees) % 2 ^ 64 = w.live.length
  freedAgain : ∀ q ∈ w.freed, ∀ tag, exFreePoolWithTag w.pool q tag = some w.pool

end MeuOS.Ex
