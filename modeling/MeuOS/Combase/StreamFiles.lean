import MeuOS.Combase.MemStream

/-! Streams as files of bytes. A file has a size, a position and what is known of its bytes: those that were written
and not cut off since. A run of calls on the streams of a process is followed on its files. -/
namespace MeuOS.Combase

open MeuOS.Lib Bump

structure File where
  known : Nat → Option UInt8
  size : Nat
  pos : Nat

namespace File

def empty : File := ⟨fun _ => none, 0, 0⟩

def left (f : File) (cb : Nat) : Nat := min cb (f.size - f.pos)

/-- `n` bytes are written at the position. -/
def store (f : File) (byte : Nat → Option UInt8) (n : Nat) : File :=
  if n = 0 then f
  else
    ⟨fun k => if f.pos ≤ k ∧ k < f.pos + n then byte (k - f.pos) else f.known k, max f.size (f.pos + n), f.pos + n⟩

def write (f : File) (data : List UInt8) : File := f.store (fun k => data[k]?) data.length

def cut (f : File) (n : Nat) : File := ⟨fun k => if k < n then f.known k else none, n, f.pos⟩

def skip (f : File) (n : Nat) : File := { f with pos := f.pos + n }

/-- Where a seek leads to, if it is a position. -/
def seekTo (f : File) (move : Int) (origin : Nat) : Option Nat :=
  let p : Int := (if origin = 1 then (f.pos : Int) else if origin = 2 then (f.size : Int) else 0) + move
  if 0 ≤ p ∧ p < 2 ^ 63 then some p.toNat else none

end File

/-- What a call does to the first `n` files and the one that it may add. A copy moves the position of its source
when the bytes are written. -/
def filesAfter (n : Nat) (r : Reply) (fs : Nat → File) : StreamOp → Nat → File
  | .create => if r.status = .sOk then Function.update fs n File.empty else fs
  | .read i cb => Function.update fs i ((fs i).skip ((fs i).left cb))
  | .write i data => if r.status = .sOk then Function.update fs i ((fs i).write data) else fs
  | .seek i move origin =>
      match (fs i).seekTo move origin with
      | some p => Function.update fs i { fs i with pos := p }
      | none => fs
  | .setSize i newSize => if r.status = .sOk then Function.update fs i ((fs i).cut newSize) else fs
  | .copyTo i target cb =>
      let k := (fs i).left cb
      let fs' := match target with
        | some j =>
            if r.wrote = k then Function.update fs j ((fs j).store (fun o => (fs i).known ((fs i).pos + o)) k) else fs
        | none => fs
      Function.update fs' i ((fs' i).skip k)
  | .clone i => if r.status = .sOk then Function.update fs n (fs i) else fs
  | .alloc _ => fs

/-- The replies that the files allow. -/
def Answers (fs : Nat → File) (r : Reply) : StreamOp → Prop
  | .read i cb =>
      let f := fs i
      r.count = f.left cb ∧ r.bytes.length = f.left cb ∧ r.status = (if f.left cb = cb then .sOk else .sFalse) ∧
        ∀ k < f.left cb, ∀ v, f.known (f.pos + k) = some v → r.bytes[k]? = some v
  | .write i data =>
      r.status = .sOk ∧ r.count = data.length ∧ (fs i).pos + data.length ≤ ((fs i).write data).size ∨
        r.status = .eOutOfMemory ∧ r.count = 0
  | .seek i move origin =>
      match (fs i).seekTo move origin with
      | some p => r.status = .sOk ∧ r.count = p
      | none => r.status = .eInvalidArg
  | .copyTo i target cb =>
      r.status = .sOk ∧ r.count = (fs i).left cb ∧ (r.wrote = 0 ∨ target.isSome ∧ r.wrote = (fs i).left cb)
  | _ => r.status = .sOk ∨ r.status = .eOutOfMemory

/-- The call is about streams that are there, and its arguments are of their types. Other parts of the process ask for
no block whose rounded size or end wraps around. -/
def MayCall (w : ComWorld) : StreamOp → Prop
  | .create => True
  | .read i cb => i < w.count ∧ cb < 2 ^ 32
  | .write i data => i < w.count ∧ data.length < 2 ^ 32
  | .seek i move _ => i < w.count ∧ -2 ^ 63 ≤ move ∧ move < 2 ^ 63
  | .setSize i newSize => i < w.count ∧ newSize < 2 ^ 64
  | .copyTo i target cb => i < w.count ∧ (∀ j, target = some j → j < w.count) ∧ cb < 2 ^ 64
  | .clone i => i < w.count
  | .alloc cb => w.heap.off + cb + 15 < 2 ^ 64

/-- What is to be stored does not end behind 2^63, and a write of no bytes does not start behind the end. -/
def Meets (w : ComWorld) : StreamOp → Prop
  | .write i data => (w.table i).pos + data.length ≤ 2 ^ 63 ∧ (data = [] → (w.table i).pos ≤ (w.table i).size)
  | .setSize _ newSize => newSize ≤ 2 ^ 63
  | .copyTo i (some j) cb => (w.table j).pos + (w.table i).toRead cb ≤ 2 ^ 63
  | _ => True

/-! ## What the streams keep -/

def MemStream.block (s : MemStream) : Block := ⟨s.buf, s.cap⟩

/-- The stream is what is known of the file. -/
structure Held (m : Mem) (s : MemStream) (f : File) : Prop where
  size : s.size = f.size
  pos : s.pos = f.pos
  bytes : ∀ k v, f.known k = some v → k < f.size ∧ m (s.buf + k) = v

/-- No buffer yet, or one in the arena that came from 256 bytes by doubling. -/
structure MemStream.Ok (base off : Nat) (s : MemStream) : Prop where
  cap : s.buf = 0 ∧ s.cap = 0 ∨ (base ≤ s.buf ∧ s.buf + s.cap ≤ base + off) ∧ ∃ k, 8 ≤ k ∧ k ≤ 63 ∧ s.cap = 2 ^ k
  size : s.size ≤ s.cap
  pos : s.pos < 2 ^ 63

structure Sim (a : Arena comHeapSize) (w : ComWorld) (fs : Nat → File) : Prop where
  off : w.heap.off % 16 = 0
  cap : w.heap.off ≤ comHeapSize
  ok : ∀ i < w.count, (w.table i).Ok a.base w.heap.off
  apart : ∀ i j, i < w.count → j < w.count → i ≠ j → Apart (w.table i).block (w.table j).block
  held : ∀ i < w.count, Held w.heap.mem (w.table i) (fs i)

section Keeps

variable {a : Arena comHeapSize} {w : ComWorld} {fs : Nat → File} {i j n off' need : Nat} {m' : Mem} {s' : MemStream}
  {f' : File}

theorem MemStream.Ok.mono {base off : Nat} {s : MemStream} (h : s.Ok base off) (hoff : off ≤ off') :
    s.Ok base off' :=
  ⟨h.cap.imp_right fun ⟨⟨hlo, hhi⟩, hpow⟩ => ⟨⟨hlo, by omega⟩, hpow⟩, h.size, h.pos⟩

theorem Sim.cap_le (h : Sim a w fs) (hi : i < w.count) : (w.table i).cap ≤ comHeapSize := by
  have hcap := h.cap
  rcases (h.ok i hi).cap with ⟨-, h0⟩ | ⟨⟨hlo, hhi⟩, -⟩ <;> omega

/-- A stream is put in a place, or added, with its file; other buffers keep their bytes. -/
theorem Sim.update (h : Sim a w fs) (hcount : ∀ j < n, j ≠ i → j < w.count) (h16 : off' % 16 = 0)
    (hoff : w.heap.off ≤ off') (hcap : off' ≤ comHeapSize) (hok : s'.Ok a.base off')
    (hapart : ∀ j < w.count, j ≠ i → Apart s'.block (w.table j).block)
    (hmem : ∀ j < w.count, j ≠ i → Mem.Agree m' w.heap.mem (w.table j).buf ((w.table j).buf + (w.table j).cap))
    (hheld : Held m' s' f') :
    Sim a ⟨⟨off', m'⟩, n, Function.update w.table i s'⟩ (Function.update fs i f') := by
  refine ⟨h16, hcap, fun j hj => ?_, fun j k hj hk hne => ?_, fun j hj => ?_⟩
  · dsimp only
    by_cases hji : j = i
    · rw [hji, Function.update_self]
      exact hok
    · rw [Function.update_of_ne hji]
      exact (h.ok j (hcount j hj hji)).mono hoff
  · dsimp only
    by_cases hji : j = i
    · have hki : k ≠ i := fun hki => hne (hji.trans hki.symm)
      rw [hji, Function.update_self, Function.update_of_ne hki]
      exact hapart k (hcount k hk hki) hki
    · rw [Function.update_of_ne hji]
      by_cases hki : k = i
      · rw [hki, Function.update_self]
        exact (hapart j (hcount j hj hji) hji).symm
      · rw [Function.update_of_ne hki]
        exact h.apart j k (hcount j hj hji) (hcount k hk hki) hne
  · dsimp only
    by_cases hji : j = i
    · rw [hji, Function.update_self, Function.update_self]
      exact hheld
    · rw [Function.update_of_ne hji, Function.update_of_ne hji]
      have hold := h.held j (hcount j hj hji)
      refine ⟨hold.size, hold.pos, fun k v hk => ?_⟩
      obtain ⟨hlt, hv⟩ := hold.bytes k v hk
      have hfits := (h.ok j (hcount j hj hji)).size
      have hsize := hold.size
      exact ⟨hlt, (hmem j (hcount j hj hji) hji _ (by omega) (by omega)).trans hv⟩

/-- A stream changes within its buffer. -/
theorem Sim.put (h : Sim a w fs) (hi : i < w.count) (hbuf : s'.buf = (w.table i).buf) (hcap : s'.cap = (w.table i).cap)
    (hsize : s'.size ≤ s'.cap) (hpos : s'.pos < 2 ^ 63)
    (hmem : ∀ x, x < s'.buf ∨ s'.buf + s'.cap ≤ x → m' x = w.heap.mem x) (hheld : Held m' s' f') :
    Sim a (w.put ⟨w.heap.off, m'⟩ i s') (Function.update fs i f') := by
  have hok := h.ok i hi
  refine h.update (fun _ hj _ => hj) h.off (Nat.le_refl _) h.cap ⟨?_, hsize, hpos⟩ (fun j hj hne => ?_)
    (fun j hj hne x hlo hhi => hmem x ?_) hheld
  · rw [hbuf, hcap]
    exact hok.cap
  · rw [show s'.block = (w.table i).block by rw [MemStream.block, hbuf, hcap]; rfl]
    exact h.apart i j hi hj (Ne.symm hne)
  · have hclear : (w.table i).buf + (w.table i).cap + 0 ≤ (w.table j).buf ∨
        (w.table j).buf + (w.table j).cap + 0 ≤ (w.table i).buf := h.apart i j hi hj (Ne.symm hne)
    omega

theorem toRead_eq {s : MemStream} {m : Mem} {f : File} (h : Held m s f) (cb : Nat) : s.toRead cb = f.left cb := by
  have hsize := h.size
  have hpos := h.pos
  unfold MemStream.toRead File.left
  dsimp only
  split <;> split <;> omega

/-- Room for the stream is made, unless the arena is full. -/
theorem Sim.ensure (h : Sim a w fs) (hi : i < w.count) (hneed : need ≤ 2 ^ 63) :
    (∀ turns, 64 ≤ turns → streamEnsure turns a.base w.heap (w.table i) need = some (false, w.heap, w.table i)) ∨
    ∃ h' s', (∀ turns, 64 ≤ turns → streamEnsure turns a.base w.heap (w.table i) need = some (true, h', s')) ∧
      need ≤ s'.cap ∧ s'.size = (w.table i).size ∧ s'.pos = (w.table i).pos ∧ Sim a (w.put h' i s') fs ∧
      (∀ x < a.base + w.heap.off, h'.mem x = w.heap.mem x) ∧
      (s'.buf = (w.table i).buf ∧ s'.cap = (w.table i).cap ∨ a.base + w.heap.off ≤ s'.buf) := by
  by_cases hin : need ≤ (w.table i).cap
  · refine .inr ⟨w.heap, w.table i, fun turns _ => if_pos hin, hin, rfl, rfl, ?_, fun _ _ => rfl, .inl ⟨rfl, rfl⟩⟩
    rwa [ComWorld.put, Function.update_eq_self]
  have hok := h.ok i hi
  have hheld := h.held i hi
  have hbase := a.pos
  have hcap := h.cap
  -- the capacity that the loop starts from is a power of two
  obtain ⟨k, hk8, hk, hstart⟩ : ∃ k, 8 ≤ k ∧ k ≤ 63 ∧
      (if (w.table i).cap ≠ 0 then (w.table i).cap else 256) = 2 ^ k := by
    rcases hok.cap with ⟨-, h0⟩ | ⟨-, k, hk8, hk, hpow⟩
    · exact ⟨8, Nat.le_refl _, by decide, by rw [if_neg (not_not.mpr h0)]; rfl⟩
    · refine ⟨k, hk8, hk, ?_⟩
      rw [if_pos (by rw [hpow]; exact (Nat.pow_pos (by decide)).ne'), hpow]
  obtain ⟨j, hkj, hj, hbig, hloop⟩ := growLoop_ends hneed hk
  have hpow : 2 ^ j ≤ 2 ^ 63 := Nat.pow_le_pow_right (by decide) hj
  have hpos : 0 < 2 ^ j := Nat.pow_pos (by decide)
  have hrun : ∀ turns, 64 ≤ turns → streamEnsure turns a.base w.heap (w.table i) need = _ := fun turns hturns => by
    unfold streamEnsure
    rw [if_neg hin, hstart, hloop turns (by omega), Option.bind_some]
  by_cases hfull : Refused comHeapSize (· == 0) w.heap.off (2 ^ j)
  · refine .inl fun turns hturns => (hrun turns hturns).trans ?_
    unfold arenaAlloc bump
    rw [if_pos hfull]
    rfl
  have hfits := bump_fits h.off (show w.heap.off + 2 ^ j + 15 < 2 ^ 64 by unfold comHeapSize at hcap; omega) hfull
  generalize hoff' : (w.heap.off + roundUp (2 ^ j)) % 2 ^ 64 = off' at hfits
  have hbelow : ∀ i < w.count, (w.table i).buf + (w.table i).cap ≤ a.base + w.heap.off := fun i hi => by
    rcases (h.ok i hi).cap with ⟨hbuf, h0⟩ | ⟨⟨-, hhi⟩, -⟩ <;> omega
  have hsize := hok.size
  obtain ⟨m', hm', hmem, hsame⟩ : ∃ m', (if (w.table i).buf ≠ 0 ∧ (w.table i).size ≠ 0 then
      w.heap.mem.copyUp (a.base + w.heap.off) (w.table i).buf (w.table i).size else w.heap.mem) = m' ∧
      (∀ x < a.base + w.heap.off, m' x = w.heap.mem x) ∧
      Mem.SameAt w.heap.mem (w.table i).buf m' (a.base + w.heap.off) (w.table i).size := by
    refine ⟨_, rfl, fun x hx => ?_, ?_⟩
    · split
      · exact Mem.copyUp_outside (.inl hx)
      · rfl
    · split
      · have hend := hbelow i hi
        exact Mem.copyUp_sameAt (.inl (by omega))
      · rename_i hempty
        intro k hk
        rcases hok.cap with ⟨-, h0⟩ | ⟨⟨hlo, -⟩, -⟩
        · omega
        · exact absurd ⟨by omega, by omega⟩ hempty
  have hroom : (w.table i).size ≤ (w.table i).cap ∧ (w.table i).size ≤ 2 ^ j := ⟨hsize, by omega⟩
  refine .inr ⟨⟨off', m'⟩, { w.table i with buf := a.base + w.heap.off, cap := 2 ^ j }, fun turns hturns => ?_, hbig,
    rfl, rfl, ?_, hmem, .inr (Nat.le_refl _)⟩
  · rw [hrun turns hturns]
    unfold arenaAlloc bump
    rw [if_neg hfull, hoff']
    dsimp only
    rw [if_neg (show a.base + w.heap.off ≠ 0 by omega), ← hm']
    by_cases hcopy : (w.table i).buf ≠ 0 ∧ (w.table i).size ≠ 0
    · rw [if_pos hcopy, if_pos hcopy, if_pos hroom]
    · rw [if_neg hcopy, if_neg hcopy]
  · have hput : Sim a (w.put ⟨off', m'⟩ i { w.table i with buf := a.base + w.heap.off, cap := 2 ^ j })
        (Function.update fs i (fs i)) := h.update (fun _ hj _ => hj) hfits.2.2 (by omega) hfits.2.1
      ⟨.inr ⟨⟨Nat.le_add_right _ _, by show a.base + w.heap.off + 2 ^ j ≤ a.base + off'; omega⟩, j, by omega, hj, rfl⟩,
        hroom.2, hok.pos⟩ (fun l hl _ => .inr (hbelow l hl)) (fun l hl _ x _ hx => hmem x (hx.trans_le (hbelow l hl)))
      ⟨hheld.size, hheld.pos, fun o v ho => ?_⟩
    · rwa [Function.update_eq_self] at hput
    · obtain ⟨hlt, hv⟩ := hheld.bytes o v ho
      have hfile := hheld.size
      exact ⟨hlt, (hsame o (by omega)).trans hv⟩

/-! ## The calls -/

/-- The position goes on. -/
theorem Sim.skip (h : Sim a w fs) (hi : i < w.count) (hsmall : (w.table i).pos + n < 2 ^ 63) :
    Sim a (w.put w.heap i { w.table i with pos := ((w.table i).pos + n) % 2 ^ 64 })
      (Function.update fs i ((fs i).skip n)) := by
  have hheld := h.held i hi
  rw [Nat.mod_eq_of_lt (by omega)]
  exact h.put hi rfl rfl (h.ok i hi).size hsmall (fun _ _ => rfl)
    ⟨hheld.size, congrArg (· + n) hheld.pos, hheld.bytes⟩

theorem Sim.toRead_le (h : Sim a w fs) (hi : i < w.count) (cb : Nat) :
    (w.table i).toRead cb ≤ comHeapSize ∧ (w.table i).pos + (w.table i).toRead cb < 2 ^ 63 ∧
      ((w.table i).toRead cb ≠ 0 → (w.table i).pos + (w.table i).toRead cb ≤ (w.table i).size) := by
  have hsize := (h.ok i hi).size
  have hpos := (h.ok i hi).pos
  have hcap := h.cap_le hi
  unfold comHeapSize at hcap ⊢
  unfold MemStream.toRead
  dsimp only
  split <;> split <;> omega

/-- The call ends, with a reply that the files allow, and the streams are the files again. -/
def Served (a : Arena comHeapSize) (w : ComWorld) (fs : Nat → File) (op : StreamOp) : Prop :=
  ∃ r w', (∀ turns, 64 ≤ turns → serve turns a.base w op = some (r, w')) ∧ Answers fs r op ∧
    Sim a w' (filesAfter w.count r fs op)

theorem Sim.same (h : Sim a w fs) : Sim a (w.put w.heap i (w.table i)) fs := by
  rwa [ComWorld.put, Function.update_eq_self]

theorem Sim.read (h : Sim a w fs) (hi : i < w.count) (cb : Nat) : Served a w fs (.read i cb) := by
  obtain ⟨-, hsmall, hin⟩ := h.toRead_le hi cb
  have hheld := h.held i hi
  have hread := toRead_eq hheld cb
  have hfits : ¬ ((w.table i).toRead cb ≠ 0 ∧ (w.table i).cap < (w.table i).pos + (w.table i).toRead cb) := by
    have hsize := (h.ok i hi).size
    rintro ⟨hne, hlt⟩
    have hle := hin hne
    omega
  have hskip := h.skip hi hsmall
  have hrun : ∀ turns, serve turns a.base w (.read i cb) = some
      (⟨if (w.table i).toRead cb = cb then .sOk else .sFalse,
        (List.range ((w.table i).toRead cb)).map fun k => w.heap.mem ((w.table i).buf + (w.table i).pos + k),
        (w.table i).toRead cb, 0⟩,
        w.put w.heap i { w.table i with pos := ((w.table i).pos + (w.table i).toRead cb) % 2 ^ 64 }) := fun turns => by
    rw [serve, stmRead]
    dsimp only
    rw [if_neg hfits]
    rfl
  refine ⟨_, _, fun turns _ => hrun turns, ?_, ?_⟩
  · refine ⟨hread, ?_, by rw [hread], fun k hk v hv => ?_⟩
    · rw [List.length_map, List.length_range, hread]
    · obtain ⟨-, hbyte⟩ := hheld.bytes _ v hv
      rw [List.getElem?_map, List.getElem?_range (hread ▸ hk), Option.map_some, Nat.add_assoc, hheld.pos, hbyte]
  · show Sim a _ (Function.update fs i ((fs i).skip ((fs i).left cb)))
    rw [← hread]
    exact hskip

/-- The bytes are those that are wanted, as long as they are read from memory that neither the stream nor what is
taken from the arena now has. -/
theorem Sim.write {pv : Mem → Nat → UInt8} {byte : Nat → Option UInt8} (h : Sim a w fs) (hj : j < w.count) (hn : 0 < n)
    (hfits : (w.table j).pos + n ≤ 2 ^ 63)
    (hpv : ∀ m k, k < n → (∀ x < a.base + w.heap.off, x < (w.table j).buf ∨ (w.table j).buf + (w.table j).cap ≤ x ∨
      (w.table j).buf + (w.table j).pos + k ≤ x → m x = w.heap.mem x) → ∀ v, byte k = some v → pv m k = v) :
    (∀ turns, 64 ≤ turns → stmWrite turns a.base w.heap (w.table j) pv n =
      some (⟨.eOutOfMemory, [], 0, 0⟩, w.heap, w.table j)) ∨
    ∃ h' s', (∀ turns, 64 ≤ turns → stmWrite turns a.base w.heap (w.table j) pv n = some (⟨.sOk, [], n, 0⟩, h', s')) ∧
      Sim a (w.put h' j s') (Function.update fs j ((fs j).store byte n)) := by
  have hsum : ((w.table j).pos + n) % 2 ^ 64 = (w.table j).pos + n := Nat.mod_eq_of_lt (by omega)
  have hheld := h.held j hj
  rcases h.ensure hj hfits with hfull | ⟨h', s', hroom, hneed, hsize, hpos, hsim, hbelow, hwhere⟩
  · refine .inl fun turns hturns => ?_
    unfold stmWrite
    rw [if_neg (by omega), hsum, hfull turns hturns]
    rfl
  have hjoin : ∀ h'' s'', (w.put h' j s').put h'' j s'' = w.put h'' j s'' := fun h'' s'' => by
    unfold ComWorld.put
    rw [Function.update_idem]
  have hself : (w.put h' j s').table j = s' := Function.update_self ..
  have hok' := hsim.ok j hj
  have hheld' := hsim.held j hj
  have hcap' := hsim.cap_le hj
  rw [hself] at hok' hheld' hcap'
  unfold comHeapSize at hcap'
  have hbytes : ∀ k < n, ∀ v, byte k = some v →
      Mem.storeUp pv (s'.buf + s'.pos) n h'.mem (s'.buf + s'.pos + k) = v := fun k hk v hv => by
    rw [Mem.storeUp_at hk]
    refine hpv _ k hk (fun x hx hout => ?_) v hv
    rw [← hbelow x hx]
    refine Mem.storeUp_outside ?_
    rcases hwhere with ⟨hbuf, hcap⟩ | hnew <;> omega
  have hfile : Sim a ((w.put h' j s').put ⟨h'.off, Mem.storeUp pv (s'.buf + s'.pos) n h'.mem⟩ j
      { s' with pos := s'.pos + n, size := max s'.size (s'.pos + n) })
      (Function.update fs j ((fs j).store byte n)) := by
    have hsize' := hok'.size
    refine hsim.put hj (by rw [hself]) (by rw [hself]) (show max s'.size (s'.pos + n) ≤ s'.cap by omega)
      (show s'.pos + n < 2 ^ 63 by omega) (fun x hx => ?_) ⟨?_, ?_, fun k v hk => ?_⟩
    · dsimp only at hx
      exact Mem.storeUp_outside (by omega)
    · rw [File.store, if_neg (by omega), ← hheld'.size, ← hheld'.pos]
    · rw [File.store, if_neg (by omega), ← hheld'.pos]
    · rw [File.store, if_neg (by omega), ← hheld'.size, ← hheld'.pos] at hk ⊢
      dsimp only at hk ⊢
      by_cases hin : s'.pos ≤ k ∧ k < s'.pos + n
      · rw [if_pos hin] at hk
        refine ⟨by omega, ?_⟩
        have hbyte := hbytes (k - s'.pos) (by omega) v hk
        rwa [Nat.add_assoc, Nat.add_sub_cancel' hin.1] at hbyte
      · rw [if_neg hin] at hk
        obtain ⟨hlt, hv⟩ := hheld'.bytes k v hk
        have hfile := hheld'.size
        refine ⟨by omega, ?_⟩
        rw [Mem.storeUp_outside (by omega)]
        exact hv
  rw [hjoin] at hfile
  refine .inr ⟨_, _, fun turns hturns => ?_, hfile⟩
  have hlast : (s'.pos + n) % 2 ^ 64 = s'.pos + n := Nat.mod_eq_of_lt (by omega)
  have hend : (if s'.size < s'.pos + n then s'.pos + n else s'.size) = max s'.size (s'.pos + n) := by
    split <;> omega
  unfold stmWrite
  rw [if_neg (by omega), hsum, hroom turns hturns, Option.bind_some]
  dsimp only
  rw [if_neg Bool.noConfusion, if_neg (by omega), hlast, hend]

theorem Sim.serve_write (h : Sim a w fs) (hi : i < w.count) {data : List UInt8}
    (hfits : (w.table i).pos + data.length ≤ 2 ^ 63) (hempty : data = [] → (w.table i).pos ≤ (w.table i).size) :
    Served a w fs (.write i data) := by
  have hheld := h.held i hi
  cases data with
  | nil =>
    have hle := hempty rfl
    rw [hheld.size, hheld.pos] at hle
    refine ⟨_, _, fun turns _ => rfl, .inl ⟨rfl, rfl, hle⟩, ?_⟩
    rw [filesAfter, if_pos rfl, show (fs i).write [] = fs i from rfl, Function.update_eq_self]
    exact h.same
  | cons c data =>
    have hgiven : ∀ k v, (c :: data)[k]? = some v → (c :: data).getD k 0 = v := fun k v hv => by
      rw [List.getD_eq_getElem?_getD, hv, Option.getD_some]
    have hn : 0 < (c :: data).length := Nat.succ_pos _
    rcases h.write hi hn hfits fun _ k _ _ v hv => hgiven k v hv with hfull | ⟨h', s', hdone, hsim⟩
    · have hserve : ∀ turns, 64 ≤ turns → serve turns a.base w (.write i (c :: data)) =
          some (⟨.eOutOfMemory, [], 0, 0⟩, w.put w.heap i (w.table i)) := fun turns hturns => by
        rw [serve, hfull turns hturns]
        rfl
      refine ⟨_, _, hserve, .inr ⟨rfl, rfl⟩, ?_⟩
      rw [filesAfter, if_neg StmStatus.noConfusion]
      exact h.same
    · have hserve : ∀ turns, 64 ≤ turns → serve turns a.base w (.write i (c :: data)) =
          some (⟨.sOk, [], (c :: data).length, 0⟩, w.put h' i s') := fun turns hturns => by
        rw [serve, hdone turns hturns]
        rfl
      refine ⟨_, _, hserve, .inl ⟨rfl, rfl, ?_⟩, ?_⟩
      · rw [File.write, File.store, if_neg hn.ne']
        exact Nat.le_max_right _ _
      · rw [filesAfter, if_pos rfl]
        exact hsim

theorem int64_small {x : Int} (hlo : -2 ^ 63 ≤ x) (hhi : x < 2 ^ 63) : int64 x = x := by
  unfold int64
  omega

theorem Sim.seek (h : Sim a w fs) (hi : i < w.count) {move : Int} (hlo : -2 ^ 63 ≤ move) (hhi : move < 2 ^ 63)
    (origin : Nat) : Served a w fs (.seek i move origin) := by
  have hheld := h.held i hi
  have hpos := (h.ok i hi).pos
  have hsize := (h.ok i hi).size
  have hcap := h.cap_le hi
  unfold comHeapSize at hcap
  -- where the seek starts from, as a number of 64 bits and as it is
  obtain ⟨start, hstart, hbelow, hfile⟩ : ∃ start : Int, (if origin = 1 then int64 (w.table i).pos
      else if origin = 2 then int64 (w.table i).size else 0) = start ∧ (0 ≤ start ∧ start < 2 ^ 63) ∧
      (if origin = 1 then ((fs i).pos : Int) else if origin = 2 then ((fs i).size : Int) else 0) = start := by
    rw [← hheld.pos, ← hheld.size]
    split
    · exact ⟨_, int64_small (by omega) (by omega), ⟨by omega, by omega⟩, rfl⟩
    · split
      · exact ⟨_, int64_small (by omega) (by omega), ⟨by omega, by omega⟩, rfl⟩
      · exact ⟨0, rfl, ⟨by omega, by omega⟩, rfl⟩
  by_cases hin : 0 ≤ start + move ∧ start + move < 2 ^ 63
  · have hseek : (fs i).seekTo move origin = some (start + move).toNat := by
      unfold File.seekTo
      rw [hfile]
      exact if_pos hin
    have hrun : stmSeek (w.table i) move origin =
        (⟨.sOk, [], (start + move).toNat, 0⟩, { w.table i with pos := (start + move).toNat }) := by
      unfold stmSeek
      rw [hstart]
      dsimp only
      rw [int64_small (by omega) hin.2, if_neg (by omega)]
    have hserve : ∀ turns, serve turns a.base w (.seek i move origin) = some (⟨.sOk, [], (start + move).toNat, 0⟩,
        w.put w.heap i { w.table i with pos := (start + move).toNat }) := fun turns => by rw [serve, hrun]
    refine ⟨_, _, fun turns _ => hserve turns, ?_, ?_⟩
    · rw [Answers, hseek]
      exact ⟨rfl, rfl⟩
    · rw [filesAfter, hseek]
      exact h.put hi rfl rfl hsize (show (start + move).toNat < 2 ^ 63 by omega) (fun _ _ => rfl)
        ⟨hheld.size, rfl, hheld.bytes⟩
  · have hseek : (fs i).seekTo move origin = none := by
      unfold File.seekTo
      rw [hfile]
      exact if_neg hin
    have hrun : stmSeek (w.table i) move origin = (⟨.eInvalidArg, [], 0, 0⟩, w.table i) := by
      unfold stmSeek
      rw [hstart]
      dsimp only
      rw [if_pos]
      unfold int64
      omega
    have hserve : ∀ turns, serve turns a.base w (.seek i move origin) = some (⟨.eInvalidArg, [], 0, 0⟩,
        w.put w.heap i (w.table i)) := fun turns => by rw [serve, hrun]
    refine ⟨_, _, fun turns _ => hserve turns, ?_, ?_⟩
    · rw [Answers, hseek]
    · rw [filesAfter, hseek]
      exact h.same

theorem Sim.setSize (h : Sim a w fs) (hi : i < w.count) (hneed : need ≤ 2 ^ 63) : Served a w fs (.setSize i need) := by
  rcases h.ensure hi hneed with hfull | ⟨h', s', hroom, hbig, hsize, hpos, hsim, -, -⟩
  · have hserve : ∀ turns, 64 ≤ turns → serve turns a.base w (.setSize i need) = some (⟨.eOutOfMemory, [], 0, 0⟩,
        w.put w.heap i (w.table i)) := fun turns hturns => by
      rw [serve, stmSetSize, hfull turns hturns]
      rfl
    refine ⟨_, _, hserve, .inr rfl, ?_⟩
    rw [filesAfter, if_neg StmStatus.noConfusion]
    exact h.same
  · have hserve : ∀ turns, 64 ≤ turns → serve turns a.base w (.setSize i need) = some (⟨.sOk, [], 0, 0⟩,
        w.put h' i { s' with size := need }) := fun turns hturns => by
      rw [serve, stmSetSize, hroom turns hturns]
      rfl
    refine ⟨_, _, hserve, .inl rfl, ?_⟩
    have hself : (w.put h' i s').table i = s' := Function.update_self ..
    have hheld := hsim.held i hi
    have hok := hsim.ok i hi
    rw [hself] at hheld hok
    rw [filesAfter, if_pos rfl]
    have hcut : Sim a ((w.put h' i s').put h' i { s' with size := need }) (Function.update fs i ((fs i).cut need)) :=
      hsim.put hi (by rw [hself]) (by rw [hself]) hbig hok.pos (fun _ _ => rfl) ⟨rfl, hheld.pos, fun k v hk => by
        obtain ⟨hlt, hknown⟩ : k < need ∧ (fs i).known k = some v := by
          rw [File.cut] at hk
          exact Option.ite_none_right_eq_some.mp hk
        exact ⟨hlt, (hheld.bytes k v hknown).2⟩⟩
    rwa [ComWorld.put, ComWorld.put, Function.update_idem] at hcut

/-- The arena has less room; a stream may come to the others. -/
theorem Sim.grow (h : Sim a w fs) (h16 : off' % 16 = 0) (hoff : w.heap.off ≤ off') (hcap : off' ≤ comHeapSize) :
    Sim a (w.add ⟨off', w.heap.mem⟩ none) fs :=
  ⟨h16, hcap, fun i hi => (h.ok i hi).mono hoff, h.apart, h.held⟩

theorem Sim.add (h : Sim a w fs) : Sim a (w.add w.heap (some .empty)) (Function.update fs w.count File.empty) := by
  refine h.update (fun j hj hne => by omega) h.off (Nat.le_refl _) h.cap ⟨.inl ⟨rfl, rfl⟩, Nat.le_refl _, by decide⟩
    (fun j _ _ => .inl (Nat.zero_le _)) (fun j _ _ x _ _ => rfl) ⟨rfl, rfl, nofun⟩

theorem Sim.alloc (h : Sim a w fs) {cb : Nat} (hfits : w.heap.off + cb + 15 < 2 ^ 64) :
    Sim a (w.add ⟨(arenaAlloc a.base w.heap.off cb).2, w.heap.mem⟩ none) fs := by
  unfold arenaAlloc bump
  by_cases hfull : Refused comHeapSize (· == 0) w.heap.off cb
  · rw [if_pos hfull]
    exact h.grow h.off (Nat.le_refl _) h.cap
  · rw [if_neg hfull]
    obtain ⟨hroom, hcap, h16⟩ := bump_fits h.off hfits hfull
    exact h.grow h16 (by dsimp only; omega) hcap

/-- A new stream is empty, in what is left of the arena. -/
theorem Sim.streamNew (h : Sim a w fs) : ∃ off', Sim a (w.add ⟨off', w.heap.mem⟩ none) fs ∧
    (Combase.streamNew a.base w.heap = (none, ⟨off', w.heap.mem⟩) ∨
      Combase.streamNew a.base w.heap = (some .empty, ⟨off', w.heap.mem⟩)) := by
  have hcap := h.cap
  refine ⟨_, h.alloc (show w.heap.off + memStreamSize + 15 < 2 ^ 64 by
    unfold comHeapSize at hcap
    unfold memStreamSize
    omega), ?_⟩
  unfold Combase.streamNew
  dsimp only
  split
  · exact .inl rfl
  · exact .inr rfl

theorem Sim.create (h : Sim a w fs) : Served a w fs .create := by
  obtain ⟨off', hgrown, hnone | hnew⟩ := h.streamNew
  · have hserve : ∀ turns, serve turns a.base w .create =
        some (⟨.eOutOfMemory, [], 0, 0⟩, w.add ⟨off', w.heap.mem⟩ none) := fun turns => by
      rw [serve, hnone]
      rfl
    refine ⟨_, _, fun turns _ => hserve turns, .inr rfl, ?_⟩
    rw [filesAfter, if_neg StmStatus.noConfusion]
    exact hgrown
  · have hserve : ∀ turns, serve turns a.base w .create =
        some (⟨.sOk, [], 0, 0⟩, w.add ⟨off', w.heap.mem⟩ (some .empty)) := fun turns => by
      rw [serve, hnew]
      rfl
    refine ⟨_, _, fun turns _ => hserve turns, .inl rfl, ?_⟩
    rw [filesAfter, if_pos rfl]
    exact hgrown.add

theorem Sim.clone (h : Sim a w fs) (hi : i < w.count) : Served a w fs (.clone i) := by
  have hheld := h.held i hi
  have hok := h.ok i hi
  obtain ⟨off', hgrown, hnone | hnew⟩ := h.streamNew
  · have hserve : ∀ turns, serve turns a.base w (.clone i) =
        some (⟨.eOutOfMemory, [], 0, 0⟩, w.add ⟨off', w.heap.mem⟩ none) := fun turns => by
      rw [serve, stmClone, hnone]
      rfl
    refine ⟨_, _, fun turns _ => hserve turns, .inr rfl, ?_⟩
    rw [filesAfter, if_neg StmStatus.noConfusion]
    exact hgrown
  have hadded : Sim a (w.add ⟨off', w.heap.mem⟩ (some .empty)) (Function.update fs w.count File.empty) := hgrown.add
  have hlast : (w.add ⟨off', w.heap.mem⟩ (some .empty)).table w.count = .empty := Function.update_self ..
  have hheap : (w.add ⟨off', w.heap.mem⟩ (some .empty)).heap = ⟨off', w.heap.mem⟩ := rfl
  have hne : i ≠ w.count := by omega
  have hjoin : ∀ h₁ s₁ h₂ s₂, ((w.add h₁ (some s₁)).put h₂ w.count s₂) = w.add h₂ (some s₂) := fun h₁ s₁ h₂ s₂ => by
    rw [ComWorld.put, ComWorld.add, Function.update_idem]
    rfl
  by_cases hsize : (w.table i).size = 0
  · have hserve : ∀ turns, serve turns a.base w (.clone i) = some (⟨.sOk, [], 0, 0⟩,
        w.add ⟨off', w.heap.mem⟩ (some { MemStream.empty with pos := (w.table i).pos })) := fun turns => by
      rw [serve, stmClone, hnew]
      dsimp only
      rw [if_pos hsize]
      rfl
    refine ⟨_, _, fun turns _ => hserve turns, .inl rfl, ?_⟩
    rw [filesAfter, if_pos rfl]
    have hput : Sim a ((w.add ⟨off', w.heap.mem⟩ (some .empty)).put ⟨off', w.heap.mem⟩ w.count
        { MemStream.empty with pos := (w.table i).pos })
        (Function.update (Function.update fs w.count File.empty) w.count (fs i)) :=
      hadded.put (Nat.lt_succ_self _) (by rw [hlast]) (by rw [hlast]) (Nat.le_refl _) hok.pos (fun _ _ => rfl)
        ⟨hsize.symm.trans hheld.size, hheld.pos, fun k v hk => by
          have hlt := (hheld.bytes k v hk).1
          have hfile := hheld.size
          omega⟩
    rwa [hjoin, Function.update_idem] at hput
  · have hsmall := h.cap_le hi
    have hfit := hok.size
    have hcopied : (w.table i).size ≤ 2 ^ 63 := by
      unfold comHeapSize at hsmall
      omega
    rcases hadded.ensure (Nat.lt_succ_self _) hcopied with hfull | ⟨h', c, hroom, hbig, -, -, hsim, -, -⟩
    · rw [hlast, hheap] at hfull
      have hserve : ∀ turns, 64 ≤ turns → serve turns a.base w (.clone i) =
          some (⟨.eOutOfMemory, [], 0, 0⟩, w.add ⟨off', w.heap.mem⟩ none) := fun turns hturns => by
        rw [serve, stmClone, hnew]
        dsimp only
        rw [if_neg hsize, hfull turns hturns]
        rfl
      refine ⟨_, _, hserve, .inr rfl, ?_⟩
      rw [filesAfter, if_neg StmStatus.noConfusion]
      exact hgrown
    · rw [hlast, hheap] at hroom
      have hserve : ∀ turns, 64 ≤ turns → serve turns a.base w (.clone i) = some (⟨.sOk, [], 0, 0⟩,
          w.add ⟨h'.off, h'.mem.copyUp c.buf (w.table i).buf (w.table i).size⟩
            (some { c with size := (w.table i).size, pos := (w.table i).pos })) := fun turns hturns => by
        rw [serve, stmClone, hnew]
        dsimp only
        rw [if_neg hsize, hroom turns hturns, Option.bind_some]
        dsimp only
        rw [if_neg Bool.noConfusion, if_neg (by omega)]
        rfl
      refine ⟨_, _, hserve, .inl rfl, ?_⟩
      rw [filesAfter, if_pos rfl]
      rw [hjoin] at hsim
      have hself : (w.add h' (some c)).table w.count = c := Function.update_self ..
      have hother : (w.add h' (some c)).table i = w.table i := Function.update_of_ne hne ..
      have hsource := hsim.held i (Nat.lt_succ_of_lt hi)
      have hapart := hsim.apart i w.count (Nat.lt_succ_of_lt hi) (Nat.lt_succ_self _) hne
      rw [hother, Function.update_of_ne hne] at hsource
      rw [hother, hself] at hapart
      have hclear : (w.table i).buf + (w.table i).cap + 0 ≤ c.buf ∨ c.buf + c.cap + 0 ≤ (w.table i).buf := hapart
      have hsame : Mem.SameAt h'.mem (w.table i).buf (h'.mem.copyUp c.buf (w.table i).buf (w.table i).size) c.buf
          (w.table i).size := Mem.copyUp_sameAt (by omega)
      have hput : Sim a ((w.add h' (some c)).put ⟨h'.off, h'.mem.copyUp c.buf (w.table i).buf (w.table i).size⟩ w.count
          { c with size := (w.table i).size, pos := (w.table i).pos })
          (Function.update (Function.update fs w.count File.empty) w.count (fs i)) :=
        hsim.put (Nat.lt_succ_self _) (by rw [hself]) (by rw [hself]) hbig hok.pos
          (fun x hx => Mem.copyUp_outside (by dsimp only at hx; omega))
          ⟨hheld.size, hheld.pos, fun k v hk => by
            obtain ⟨hlt, hv⟩ := hsource.bytes k v hk
            have hfile := hheld.size
            exact ⟨hlt, (hsame k (by omega)).trans hv⟩⟩
      rwa [hjoin, Function.update_idem] at hput

theorem Sim.copyNowhere (h : Sim a w fs) (hi : i < w.count) (cb : Nat) : Served a w fs (.copyTo i none cb) := by
  have hread := toRead_eq (h.held i hi) cb
  have hskip := h.skip hi (h.toRead_le hi cb).2.1
  have hserve : ∀ turns, serve turns a.base w (.copyTo i none cb) = some (⟨.sOk, [], (w.table i).toRead cb, 0⟩, _) :=
    fun _ => rfl
  refine ⟨_, _, fun turns _ => hserve turns, ⟨rfl, hread, .inl rfl⟩, ?_⟩
  rw [hread] at hskip ⊢
  exact hskip

theorem Sim.copyTo (h : Sim a w fs) (hi : i < w.count) (hj : j < w.count) {cb : Nat}
    (hfits : (w.table j).pos + (w.table i).toRead cb ≤ 2 ^ 63) : Served a w fs (.copyTo i (some j) cb) := by
  have hheld := h.held i hi
  have hread := toRead_eq hheld cb
  obtain ⟨hsmall, hend, hin⟩ := h.toRead_le hi cb
  have hskip := h.skip hi hend
  have hsize := (h.ok i hi).size
  have hcap := h.cap_le hi
  unfold comHeapSize at hsmall hcap
  have hsame : w.put w.heap j (w.table j) = w := by
    unfold ComWorld.put
    rw [Function.update_eq_self]
  generalize hn : (w.table i).toRead cb = n at hread hsmall hend hin hskip hfits
  by_cases hzero : n = 0
  · have hserve : ∀ turns, serve turns a.base w (.copyTo i (some j) cb) = some (⟨.sOk, [], n, 0⟩,
        w.put w.heap i { w.table i with pos := ((w.table i).pos + n) % 2 ^ 64 }) := fun turns => by
      rw [serve, stmCopyTo]
      dsimp only
      rw [hn, if_pos hzero]
    refine ⟨_, _, fun turns _ => hserve turns, ⟨rfl, hread, .inl rfl⟩, ?_⟩
    rw [filesAfter]
    dsimp only
    rw [← hread, if_pos hzero.symm, File.store, if_pos hzero, Function.update_eq_self]
    exact hskip
  have hle := hin hzero
  have hmod : n % 2 ^ 32 = n := Nat.mod_eq_of_lt (by omega)
  have hpv : ∀ (m : Mem) k, k < n → (∀ x < a.base + w.heap.off, x < (w.table j).buf ∨
      (w.table j).buf + (w.table j).cap ≤ x ∨ (w.table j).buf + (w.table j).pos + k ≤ x → m x = w.heap.mem x) →
      ∀ v, (fs i).known ((fs i).pos + k) = some v → m ((w.table i).buf + (w.table i).pos + k) = v := by
    intro m k hk hagree v hv
    obtain ⟨-, hbyte⟩ := hheld.bytes _ v hv
    have hinside : (w.table i).buf + (w.table i).cap ≤ a.base + w.heap.off := by
      rcases (h.ok i hi).cap with ⟨-, h0⟩ | ⟨⟨-, hhi⟩, -⟩ <;> omega
    rw [hagree _ (by omega), Nat.add_assoc, hheld.pos, hbyte]
    by_cases hij : i = j
    · subst hij
      exact .inr (.inr (Nat.le_refl _))
    · have hclear : (w.table i).buf + (w.table i).cap + 0 ≤ (w.table j).buf ∨
          (w.table j).buf + (w.table j).cap + 0 ≤ (w.table i).buf := h.apart i j hi hj hij
      omega
  rcases h.write hj (Nat.pos_of_ne_zero hzero) hfits hpv with hfull | ⟨h', s', hdone, hsim⟩
  · have hserve : ∀ turns, 64 ≤ turns → serve turns a.base w (.copyTo i (some j) cb) = some (⟨.sOk, [], n, 0⟩,
        w.put w.heap i { w.table i with pos := ((w.table i).pos + n) % 2 ^ 64 }) := fun turns hturns => by
      rw [serve, stmCopyTo]
      dsimp only
      rw [hn, if_neg hzero, if_neg (by omega), hmod, hfull turns hturns, Option.map_some]
      dsimp only
      rw [hsame]
    refine ⟨_, _, hserve, ⟨rfl, hread, .inl rfl⟩, ?_⟩
    rw [filesAfter]
    dsimp only
    rw [← hread, if_neg (Ne.symm hzero)]
    exact hskip
  · have hserve : ∀ turns, 64 ≤ turns → serve turns a.base w (.copyTo i (some j) cb) = some (⟨.sOk, [], n, n⟩,
        (w.put h' j s').put (w.put h' j s').heap i
          { (w.put h' j s').table i with pos := (((w.put h' j s').table i).pos + n) % 2 ^ 64 }) := by
      intro turns hturns
      rw [serve, stmCopyTo]
      dsimp only
      rw [hn, if_neg hzero, if_neg (by omega), hmod, hdone turns hturns, Option.map_some]
    have hpos : ((w.put h' j s').table i).pos + n < 2 ^ 63 := by
      rw [(hsim.held i hi).pos]
      by_cases hij : i = j
      · subst hij
        rw [Function.update_self, File.store, if_neg hzero, ← hheld.pos]
        dsimp only
        omega
      · rw [Function.update_of_ne hij, ← hheld.pos]
        exact hend
    refine ⟨_, _, hserve, ⟨rfl, hread, .inr ⟨rfl, hread⟩⟩, ?_⟩
    rw [filesAfter]
    dsimp only
    rw [← hread, if_pos rfl]
    exact hsim.skip hi hpos

theorem Sim.served (h : Sim a w fs) {op : StreamOp} (hcall : MayCall w op) (hmeets : Meets w op) :
    Served a w fs op := by
  cases op with
  | create => exact h.create
  | read i cb => exact h.read hcall.1 cb
  | write i data => exact h.serve_write hcall.1 hmeets.1 hmeets.2
  | seek i move origin => exact h.seek hcall.1 hcall.2.1 hcall.2.2 origin
  | setSize i newSize => exact h.setSize hcall.1 hmeets
  | copyTo i target cb =>
    cases target with
    | none => exact h.copyNowhere hcall.1 cb
    | some j => exact h.copyTo hcall.1 (hcall.2.1 j rfl) hmeets
  | clone i => exact h.clone hcall
  | alloc cb => exact ⟨_, _, fun _ _ => rfl, .inl rfl, h.alloc hcall⟩

/-! ## Where a call does not end -/

/-- The capacity never gets to more than 2^63. -/
theorem Sim.ensure_never (h : Sim a w fs) (hi : i < w.count) (hneed : 2 ^ 63 < need) (turns : Nat) :
    streamEnsure turns a.base w.heap (w.table i) need = none := by
  have hcap := h.cap_le hi
  unfold comHeapSize at hcap
  unfold streamEnsure
  rw [if_neg (by omega), growLoop_never hneed]
  · rfl
  · rcases (h.ok i hi).cap with ⟨-, h0⟩ | ⟨-, k, -, hk, hpow⟩
    · exact .inr ⟨8, by decide, by rw [if_neg (not_not.mpr h0)]; rfl⟩
    · exact .inr ⟨k, hk, by rw [if_pos (by rw [hpow]; exact (Nat.pow_pos (by decide)).ne'), hpow]⟩

theorem Sim.write_never (h : Sim a w fs) (hi : i < w.count) (hn : n < 2 ^ 32) (hneed : 2 ^ 63 < (w.table i).pos + n)
    (pv : Mem → Nat → UInt8) (turns : Nat) : stmWrite turns a.base w.heap (w.table i) pv n = none := by
  have hpos := (h.ok i hi).pos
  unfold stmWrite
  rw [if_neg (by omega), Nat.mod_eq_of_lt (by omega), h.ensure_never hi hneed]
  rfl

end Keeps

/-- The call ends with this reply. -/
def Ends (a : Arena comHeapSize) (w : ComWorld) (op : StreamOp) (r : Reply) (w' : ComWorld) : Prop :=
  ∃ n, ∀ turns, n ≤ turns → serve turns a.base w op = some (r, w')

theorem Ends.unique {a : Arena comHeapSize} {w w₁ w₂ : ComWorld} {op : StreamOp} {r₁ r₂ : Reply}
    (h₁ : Ends a w op r₁ w₁) (h₂ : Ends a w op r₂ w₂) : r₁ = r₂ ∧ w₁ = w₂ := by
  obtain ⟨n₁, h₁⟩ := h₁
  obtain ⟨n₂, h₂⟩ := h₂
  have hsame := (h₁ (max n₁ n₂) (Nat.le_max_left _ _)).symm.trans (h₂ (max n₁ n₂) (Nat.le_max_right _ _))
  exact Prod.mk.inj (Option.some.inj hsame)

theorem not_ends {a : Arena comHeapSize} {w w' : ComWorld} {op : StreamOp} {r : Reply}
    (h : ∀ turns, serve turns a.base w op = none) : ¬ Ends a w op r w' := by
  rintro ⟨n, hends⟩
  cases (h n).symm.trans (hends n (Nat.le_refl _))

/-- Streams and files after a run of calls, from a process without streams. -/
def StreamRun (a : Arena comHeapSize) : ComWorld × (Nat → File) → Prop :=
  Reach (fun s => s.1.heap.off = 0 ∧ s.1.count = 0)
    (fun s op s' => MayCall s.1 op ∧ ∃ r, Ends a s.1 op r s'.1 ∧ s'.2 = filesAfter s.1.count r s.2 op)
    fun s op => Meets s.1 op

section Runs

variable {a : Arena comHeapSize} {w : ComWorld} {fs : Nat → File}

theorem streamRun_sim {s : ComWorld × (Nat → File)} (h : StreamRun a s) : Sim a s.1 s.2 := by
  induction h with
  | start hs =>
    obtain ⟨hoff, hcount⟩ := hs
    refine ⟨by rw [hoff], by rw [hoff]; exact Nat.zero_le _, fun i hi => ?_, fun i _ hi => ?_, fun i hi => ?_⟩ <;> omega
  | step _ hmeets hstep hsim =>
    obtain ⟨hcall, r, hends, hfiles⟩ := hstep
    obtain ⟨r', w', hserved, -, hsim'⟩ := hsim.served hcall hmeets
    obtain ⟨rfl, rfl⟩ := hends.unique ⟨64, hserved⟩
    rw [hfiles]
    exact hsim'

theorem Sim.answers_iff (h : Sim a w fs) {op : StreamOp} (hcall : MayCall w op) :
    (∃ r w', Ends a w op r w' ∧ Answers fs r op) ↔ Meets w op := by
  constructor
  · rintro ⟨r, w', hends, hanswers⟩
    by_contra hnot
    cases op with
    | create => exact hnot trivial
    | read i cb => exact hnot trivial
    | seek i move origin => exact hnot trivial
    | clone i => exact hnot trivial
    | alloc cb => exact hnot trivial
    | setSize i newSize =>
      refine not_ends (fun turns => ?_) hends
      rw [serve, stmSetSize, h.ensure_never hcall.1 (Nat.not_le.mp hnot)]
      rfl
    | copyTo i target cb =>
      cases target with
      | none => exact hnot trivial
      | some j =>
        obtain ⟨hsmall, -, hin⟩ := h.toRead_le hcall.1 cb
        have hfit := (h.ok i hcall.1).size
        have hpos := (h.ok j (hcall.2.1 j rfl)).pos
        have hbig : 2 ^ 63 < (w.table j).pos + (w.table i).toRead cb := Nat.not_le.mp hnot
        unfold comHeapSize at hsmall
        have hne : (w.table i).toRead cb ≠ 0 := by omega
        have hle := hin hne
        refine not_ends (fun turns => ?_) hends
        rw [serve, stmCopyTo]
        dsimp only
        rw [if_neg hne, if_neg (by omega), Nat.mod_eq_of_lt (by omega),
          h.write_never (hcall.2.1 j rfl) (by omega) hbig]
        rfl
    | write i data =>
      have hheld := h.held i hcall.1
      have hpos := (h.ok i hcall.1).pos
      cases data with
      | nil =>
        have hdone : Ends a w (.write i []) ⟨.sOk, [], 0, 0⟩ (w.put w.heap i (w.table i)) := ⟨0, fun _ _ => rfl⟩
        obtain ⟨rfl, -⟩ := hends.unique hdone
        rcases hanswers with ⟨-, -, hend⟩ | ⟨hstatus, -⟩
        · refine hnot ⟨Nat.le_of_lt hpos, fun _ => ?_⟩
          rw [hheld.size, hheld.pos]
          exact hend
        · cases hstatus
      | cons c data =>
        have hbig : 2 ^ 63 < (w.table i).pos + (c :: data).length :=
          Nat.not_le.mp fun hle => hnot ⟨hle, fun hnil => absurd hnil (List.cons_ne_nil _ _)⟩
        refine not_ends (fun turns => ?_) hends
        rw [serve, h.write_never hcall.1 hcall.2 hbig]
        rfl
  · intro hmeets
    obtain ⟨r, w', hserved, hanswers, -⟩ := h.served hcall hmeets
    exact ⟨r, w', ⟨64, hserved⟩, hanswers⟩

/-- In every run of calls that meet the condition the streams are the files, and a call ends with a reply that the
files allow exactly if it meets the condition. -/
theorem streams_are_files (h : StreamRun a (w, fs)) :
    (∀ i < w.count, Held w.heap.mem (w.table i) (fs i)) ∧
      ∀ op, MayCall w op → ((∃ r w', Ends a w op r w' ∧ Answers fs r op) ↔ Meets w op) := by
  have hsim := streamRun_sim h
  exact ⟨hsim.held, fun op hcall => hsim.answers_iff hcall⟩

end Runs

/-- One stream that was just made. -/
def oneStream : ComWorld := ⟨⟨48, fun _ => 0⟩, 1, fun _ => .empty⟩

def firstArena : Arena comHeapSize := ⟨16, by decide, by decide⟩

theorem oneStream_run : StreamRun firstArena (oneStream, fun _ => File.empty) := by
  have hmade : serve 0 16 ⟨⟨0, fun _ => 0⟩, 0, fun _ => .empty⟩ .create = some (⟨.sOk, [], 0, 0⟩, oneStream) := by
    have hnew : streamNew 16 ⟨0, fun _ => 0⟩ = (some .empty, ⟨48, fun _ => 0⟩) := rfl
    rw [serve, hnew]
    dsimp only [ComWorld.add, madeReply]
    rw [Function.update_eq_self]
    rfl
  have hstart : StreamRun firstArena (⟨⟨0, fun _ => 0⟩, 0, fun _ => .empty⟩, fun _ => File.empty) := .start ⟨rfl, rfl⟩
  refine hstart.step (a := .create) trivial ⟨trivial, _, ⟨0, fun _ _ => hmade⟩, ?_⟩
  rw [filesAfter, if_pos rfl, Function.update_eq_self]

theorem streams_are_files_one : Held oneStream.heap.mem (oneStream.table 0) File.empty ∧
    ∃ r w', Ends firstArena oneStream (.write 0 [0x61, 0x62]) r w' ∧
      Answers (fun _ => File.empty) r (.write 0 [0x61, 0x62]) := by
  obtain ⟨hheld, hiff⟩ := streams_are_files oneStream_run
  exact ⟨hheld 0 Nat.one_pos, (hiff (.write 0 [0x61, 0x62]) ⟨Nat.one_pos, by decide⟩).mpr ⟨by decide, nofun⟩⟩

/-- To make room for 2^63 + 1 bytes takes for ever. -/
theorem streams_stuck : ∃ s, StreamRun firstArena s ∧ MayCall s.1 (.setSize 0 (2 ^ 63 + 1)) ∧
    ∀ turns, serve turns firstArena.base s.1 (.setSize 0 (2 ^ 63 + 1)) = none := by
  refine ⟨_, oneStream_run, ⟨Nat.one_pos, by decide⟩, fun turns => ?_⟩
  rw [serve, stmSetSize, (streamRun_sim oneStream_run).ensure_never Nat.one_pos (by decide)]
  rfl

end MeuOS.Combase
