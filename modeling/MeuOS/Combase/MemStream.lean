import MeuOS.Combase.TaskMem

/-! Streams in memory: the object of `CreateStreamOnHGlobal`, with its buffer in the task memory. A loop that has
not ended after so many turns and an access outside a buffer give no result. -/
namespace MeuOS.Combase

open MeuOS.Lib Bump

/-- The fields of `memstream_t` that the stream is about. -/
structure MemStream where
  buf : Nat
  cap : Nat
  size : Nat
  pos : Nat

def MemStream.empty : MemStream := ⟨0, 0, 0, 0⟩

/-- `sizeof(memstream_t)`. -/
def memStreamSize : Nat := 48

/-- `g_comoff` and the memory. -/
structure ComHeap where
  off : Nat
  mem : Mem

inductive StmStatus
  | sOk
  | sFalse
  | eOutOfMemory
  | eInvalidArg
  deriving DecidableEq

/-- The status, the bytes that were read, how many were read or written, and for a copy how many were written. -/
structure Reply where
  status : StmStatus
  bytes : List UInt8
  count : Nat
  wrote : Nat
  deriving DecidableEq

/-- `while (ncap < need) ncap *= 2;` -/
def growLoop (need : Nat) : Nat → Nat → Option Nat
  | 0, _ => none
  | turns + 1, ncap => if ncap < need then growLoop need turns (ncap * 2 % 2 ^ 64) else some ncap

/-- What is left behind the position, at most `cb` bytes. -/
def MemStream.toRead (s : MemStream) (cb : Nat) : Nat :=
  let avail := if s.pos < s.size then s.size - s.pos else 0
  if cb < avail then cb else avail

section

variable (turns base : Nat) (h : ComHeap) (s : MemStream)

def streamEnsure (need : Nat) : Option (Bool × ComHeap × MemStream) :=
  if need ≤ s.cap then some (true, h, s)
  else
    (growLoop need turns (if s.cap ≠ 0 then s.cap else 256)).bind fun ncap =>
      let (nb, off) := arenaAlloc base h.off ncap
      if nb = 0 then some (false, ⟨off, h.mem⟩, s)
      else if s.buf ≠ 0 ∧ s.size ≠ 0 then
        if s.size ≤ s.cap ∧ s.size ≤ ncap then
          some (true, ⟨off, h.mem.copyUp nb s.buf s.size⟩, { s with buf := nb, cap := ncap })
        else none
      else some (true, ⟨off, h.mem⟩, { s with buf := nb, cap := ncap })

def stmRead (cb : Nat) : Option (Reply × MemStream) :=
  let n := s.toRead cb
  if n ≠ 0 ∧ s.cap < s.pos + n then none
  else
    some (⟨if n = cb then .sOk else .sFalse, (List.range n).map fun i => h.mem (s.buf + s.pos + i), n, 0⟩,
      { s with pos := (s.pos + n) % 2 ^ 64 })

/-- The bytes are those behind a pointer, in the memory as it is when each is stored. -/
def stmWrite (pv : Mem → Nat → UInt8) (cb : Nat) : Option (Reply × ComHeap × MemStream) :=
  if cb = 0 then some (⟨.sOk, [], cb, 0⟩, h, s)
  else
    (streamEnsure turns base h s ((s.pos + cb) % 2 ^ 64)).bind fun (room, h, s) =>
      if room = false then some (⟨.eOutOfMemory, [], 0, 0⟩, h, s)
      else if s.cap < s.pos + cb then none
      else
        let pos := (s.pos + cb) % 2 ^ 64
        some (⟨.sOk, [], cb, 0⟩, ⟨h.off, Mem.storeUp pv (s.buf + s.pos) cb h.mem⟩,
          { s with pos := pos, size := if s.size < pos then pos else s.size })

/-- Conversion to `long long`. -/
def int64 (x : Int) : Int := (x + 2 ^ 63) % 2 ^ 64 - 2 ^ 63

def stmSeek (move : Int) (origin : Nat) : Reply × MemStream :=
  let start : Int := if origin = 1 then int64 s.pos else if origin = 2 then int64 s.size else 0
  let np := int64 (start + move)
  if np < 0 then (⟨.eInvalidArg, [], 0, 0⟩, s) else (⟨.sOk, [], np.toNat, 0⟩, { s with pos := np.toNat })

def stmSetSize (newSize : Nat) : Option (Reply × ComHeap × MemStream) :=
  (streamEnsure turns base h s newSize).map fun (room, h, s) =>
    if room = false then (⟨.eOutOfMemory, [], 0, 0⟩, h, s) else (⟨.sOk, [], 0, 0⟩, h, { s with size := newSize })

/-- A new stream, if there is room for the object. -/
def streamNew : Option MemStream × ComHeap :=
  let (p, off) := arenaAlloc base h.off memStreamSize
  (if p = 0 then none else some .empty, ⟨off, h.mem⟩)

def stmClone : Option (Option MemStream × ComHeap) :=
  match streamNew base h with
  | (none, h) => some (none, h)
  | (some c, h) =>
      if s.size = 0 then some (some { c with pos := s.pos }, h)
      else
        (streamEnsure turns base h c s.size).bind fun (room, h, c) =>
          if room = false then some (none, h)
          else if s.cap < s.size ∨ c.cap < s.size then none
          else some (some { c with size := s.size, pos := s.pos }, ⟨h.off, h.mem.copyUp c.buf s.buf s.size⟩)

end

/-! ## All streams of a process -/

structure ComWorld where
  heap : ComHeap
  count : Nat
  table : Nat → MemStream

def ComWorld.put (w : ComWorld) (h : ComHeap) (i : Nat) (s : MemStream) : ComWorld :=
  ⟨h, w.count, Function.update w.table i s⟩

def ComWorld.add (w : ComWorld) (h : ComHeap) : Option MemStream → ComWorld
  | none => ⟨h, w.count, w.table⟩
  | some s => ⟨h, w.count + 1, Function.update w.table w.count s⟩

inductive StreamOp
  | create
  | read (i cb : Nat)
  | write (i : Nat) (data : List UInt8)
  | seek (i : Nat) (move : Int) (origin : Nat)
  | setSize (i newSize : Nat)
  /-- To a stream, or nowhere. -/
  | copyTo (i : Nat) (target : Option Nat) (cb : Nat)
  | clone (i : Nat)
  /-- Another part of the process takes memory. -/
  | alloc (cb : Nat)

def madeReply (made : Option MemStream) : Reply := ⟨if made.isSome then .sOk else .eOutOfMemory, [], 0, 0⟩

/-- `stm_CopyTo`: the position of the source goes on even where nothing could be written. -/
def stmCopyTo (turns base : Nat) (w : ComWorld) (i : Nat) (target : Option Nat) (cb : Nat) :
    Option (Reply × ComWorld) :=
  let s := w.table i
  let n := s.toRead cb
  let skip := fun (w : ComWorld) => w.put w.heap i { w.table i with pos := ((w.table i).pos + n) % 2 ^ 64 }
  match target with
  | none => some (⟨.sOk, [], n, 0⟩, skip w)
  | some j =>
      if n = 0 then some (⟨.sOk, [], n, 0⟩, skip w)
      else if s.cap < s.pos + n then none
      else
        (stmWrite turns base w.heap (w.table j) (fun m k => m (s.buf + s.pos + k)) (n % 2 ^ 32)).map
          fun (r, h, t) => (⟨.sOk, [], n, r.count⟩, skip (w.put h j t))

def serve (turns base : Nat) (w : ComWorld) : StreamOp → Option (Reply × ComWorld)
  | .create => let (s, h) := streamNew base w.heap; some (madeReply s, w.add h s)
  | .read i cb => (stmRead w.heap (w.table i) cb).map fun (r, s) => (r, w.put w.heap i s)
  | .write i data =>
      (stmWrite turns base w.heap (w.table i) (fun _ k => data.getD k 0) data.length).map fun (r, h, s) =>
        (r, w.put h i s)
  | .seek i move origin => let (r, s) := stmSeek (w.table i) move origin; some (r, w.put w.heap i s)
  | .setSize i newSize => (stmSetSize turns base w.heap (w.table i) newSize).map fun (r, h, s) => (r, w.put h i s)
  | .copyTo i target cb => stmCopyTo turns base w i target cb
  | .clone i => (stmClone turns base w.heap (w.table i)).map fun (c, h) => (madeReply c, w.add h c)
  | .alloc cb => some (⟨.sOk, [], 0, 0⟩, w.add ⟨(coTaskMemAlloc base w.heap.off cb).2, w.heap.mem⟩ none)

/-! ## The growth of a buffer -/

theorem growLoop_ends {need : Nat} (hneed : need ≤ 2 ^ 63) {k : Nat} (hk : k ≤ 63) :
    ∃ j, k ≤ j ∧ j ≤ 63 ∧ need ≤ 2 ^ j ∧ ∀ turns, 64 ≤ turns + k → growLoop need turns (2 ^ k) = some (2 ^ j) := by
  obtain ⟨d, hd⟩ : ∃ d, k + d = 63 := ⟨63 - k, by omega⟩
  induction d generalizing k with
  | zero =>
    obtain rfl : k = 63 := by omega
    refine ⟨63, Nat.le_refl _, Nat.le_refl _, hneed, fun turns hturns => ?_⟩
    obtain ⟨t, rfl⟩ : ∃ t, turns = t + 1 := ⟨turns - 1, by omega⟩
    exact if_neg (Nat.not_lt.mpr hneed)
  | succ d ih =>
    by_cases hlt : 2 ^ k < need
    · obtain ⟨j, hkj, hj, hle, hloop⟩ := ih (k := k + 1) (by omega) (by omega)
      refine ⟨j, by omega, hj, hle, fun turns hturns => ?_⟩
      obtain ⟨t, rfl⟩ : ∃ t, turns = t + 1 := ⟨turns - 1, by omega⟩
      have hdouble : 2 ^ k * 2 % 2 ^ 64 = 2 ^ (k + 1) :=
        Nat.mod_eq_of_lt (Nat.pow_lt_pow_right Nat.one_lt_two (show k + 1 < 64 by omega))
      rw [growLoop, if_pos hlt, hdouble]
      exact hloop t (by omega)
    · refine ⟨k, Nat.le_refl _, hk, Nat.not_lt.mp hlt, fun turns hturns => ?_⟩
      obtain ⟨t, rfl⟩ : ∃ t, turns = t + 1 := ⟨turns - 1, by omega⟩
      exact if_neg hlt

/-- From 2^63 on the capacity becomes 0 and stays there. -/
theorem growLoop_never {need : Nat} (hneed : 2 ^ 63 < need) {c : Nat} (hc : c = 0 ∨ ∃ k ≤ 63, c = 2 ^ k) (turns : Nat) :
    growLoop need turns c = none := by
  induction turns generalizing c with
  | zero => rfl
  | succ turns ih =>
    have hlt : c < need := by
      rcases hc with rfl | ⟨k, hk, rfl⟩
      · omega
      · exact (Nat.pow_le_pow_right (by decide) hk).trans_lt hneed
    rw [growLoop, if_pos hlt]
    refine ih ?_
    rcases hc with rfl | ⟨k, hk, rfl⟩
    · exact .inl rfl
    · rcases Nat.lt_or_ge k 63 with hlt | hge
      · refine .inr ⟨k + 1, hlt, Nat.mod_eq_of_lt ?_⟩
        exact Nat.pow_lt_pow_right Nat.one_lt_two (show k + 1 < 64 by omega)
      · obtain rfl : k = 63 := by omega
        exact .inl rfl

end MeuOS.Combase
