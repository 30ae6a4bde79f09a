import MeuOS.Ex.Pool
import Mathlib.Algebra.Group.Action.Defs
import Mathlib.Algebra.Order.BigOperators.Group.List

/-! Runs of pool calls. Behind every pool block is a block of the heap that begins with its header;
the magic of a freed one stays zero, since what the heap writes into free memory never has a byte
other than zero there. -/
namespace MeuOS.Ex

open MeuOS.Lib MeuOS.Mm

/-- The header of a block is in place. -/
structure PoolBlock.Stamped (b : PoolBlock) (m : Mem) : Prop where
  size : hdrSize m (b.ptr - poolHdr) = b.size
  magic : hdrMagic m (b.ptr - poolHdr) = poolMagic
  poolType : hdrPoolType m (b.ptr - poolHdr) = b.poolType

/-- A freed pointer: the magic of its header is zero, and no block in use lies over the header. -/
structure Gone (m : Mem) (held : List Alloc) (q : Nat) : Prop where
  range : poolHdr ≤ q ∧ q < 2 ^ 64 ∧ q % 8 = 0
  magic : m (q - 4) = 0 ∧ m (q - 3) = 0
  apart : ∀ a ∈ held, q ≤ a.ptr ∨ a.ptr + a.granted ≤ q - poolHdr

/-- The blocks of the heap in use, behind the blocks of the pool. -/
structure PoolHeld (w : PoolWorld) (held : List Alloc) : Prop where
  heap : Mm.Holds w.pool.heap held
  aligned : Aligned w.pool.heap.blocks
  block : ∀ b ∈ w.live, ∃ a ∈ held, b.ptr = a.ptr + poolHdr ∧ b.size + poolHdr ≤ a.granted ∧
    b.Stamped w.pool.heap.mem
  others : ∀ a ∈ w.others, a ∈ held ∧ ∀ b ∈ w.live, b.ptr ≠ a.ptr + poolHdr
  distinct : w.live.Pairwise fun b c => b.ptr ≠ c.ptr
  gone : ∀ q ∈ w.freed, Gone w.pool.heap.mem held q

def PoolBlock.pagedBytes (b : PoolBlock) : Nat := if b.poolType = 1 then b.size else 0
def PoolBlock.nonpagBytes (b : PoolBlock) : Nat := if b.poolType = 1 then 0 else b.size

/-- The counters and what is out. -/
structure PoolCounts (w : PoolWorld) : Prop where
  bytes : w.pool.sBytes = (w.live.map PoolBlock.size).sum
  paged : w.pool.sBytesPaged = (w.live.map PoolBlock.pagedBytes).sum
  nonpag : w.pool.sBytesNonpag = (w.live.map PoolBlock.nonpagBytes).sum
  count : (w.pool.sFrees + w.live.length) % 2 ^ 64 = w.pool.sAllocs
  frees : w.pool.sFrees < 2 ^ 64

/-! ## Headers -/

section Headers

variable {m m' : Mem} {b : PoolBlock} {h tag size poolType : Nat}

theorem hdr_congr (hagree : Mem.Agree m m' h (h + poolHdr)) : hdrSize m' h = hdrSize m h ∧
    hdrMagic m' h = hdrMagic m h ∧ hdrPoolType m' h = hdrPoolType m h := by
  simp only [poolHdr] at hagree
  exact ⟨Mem.read_congr (hagree.mono (by omega) (by omega)).symm,
    Mem.read_congr (hagree.mono (by omega) (by omega)).symm,
    Mem.read_congr (hagree.mono (by omega) (by omega)).symm⟩

theorem PoolBlock.Stamped.congr (hb : b.Stamped m) (hptr : poolHdr ≤ b.ptr)
    (hagree : Mem.Agree m m' (b.ptr - poolHdr) b.ptr) : b.Stamped m' := by
  obtain ⟨hsize, hmagic, htype⟩ := hdr_congr (h := b.ptr - poolHdr)
    (hagree.mono le_rfl (by rw [Nat.sub_add_cancel hptr]))
  exact ⟨hsize.trans hb.size, hmagic.trans hb.magic, htype.trans hb.poolType⟩

theorem writeHdr_outside {i : Nat} (hi : i < h ∨ h + poolHdr ≤ i) :
    writeHdr m h tag size poolType i = m i := by
  simp only [poolHdr] at hi
  simp (disch := omega) only [writeHdr, Mem.write_outside]

theorem writeHdr_stamped (hsize : size < 2 ^ 64) :
    PoolBlock.Stamped ⟨h + poolHdr, size, poolType % 256⟩ (writeHdr m h tag size poolType) := by
  have hsize' : size < 256 ^ 8 := hsize
  have hbyte : poolType % 256 < 256 ^ 1 := Nat.mod_lt _ (by decide)
  constructor <;> simp only [Nat.add_sub_cancel, hdrSize, hdrMagic, hdrPoolType, writeHdr, Mem.rd64, Mem.rd16]
  · simp (disch := omega) only [Mem.read_write_of_disjoint, Mem.read_write_of_lt]
  · simp (disch := omega) only [Mem.read_write_of_disjoint]
    exact Mem.read_write_of_lt _ (by decide)
  · simp (disch := omega) only [Mem.read_write_of_disjoint, Mem.read_write_of_lt]

/-- The two bytes of the magic word. -/
theorem hdrMagic_of_zero {q : Nat} (hq : poolHdr ≤ q) (hlo : m (q - 4) = 0) (hhi : m (q - 3) = 0) :
    hdrMagic m (q - poolHdr) = 0 := by
  simp only [poolHdr] at hq ⊢
  have hlo' : q - 16 + 12 = q - 4 := by omega
  have hhi' : q - 4 + 1 = q - 3 := by omega
  simp only [hdrMagic, Mem.rd16, Mem.read, hlo', hhi', hlo, hhi]
  rfl

end Headers

/-! ## Memory under the calls -/

section Held

variable {w : PoolWorld} {held : List Alloc} {b : PoolBlock} {a : Alloc} {q n : Nat}

theorem PoolHeld.ptr_le (hw : PoolHeld w held) (hb : b ∈ w.live) : poolHdr ≤ b.ptr := by
  obtain ⟨a, -, hptr, -⟩ := hw.block b hb
  rw [hptr]
  exact Nat.le_add_left _ _

/-- A freed pointer stays freed while the memory settles and no block in use is added. -/
theorem Gone.settles {m m' : Mem} {held' : List Alloc} (hq : Gone m held q) (hsettles : Settles m m')
    (hheld : ∀ a ∈ held', a ∈ held) : Gone m' held' q := by
  obtain ⟨hlo, hhi, hmod⟩ := hq.range
  simp only [poolHdr] at hlo
  refine ⟨hq.range, ⟨?_, ?_⟩, fun a ha => hq.apart a (hheld a ha)⟩
  · exact (hsettles (q - 4) (by omega)).elim (·.trans hq.magic.1) id
  · exact (hsettles (q - 3) (by omega)).elim (·.trans hq.magic.2) id

/-- Stores into one block in use. -/
theorem Gone.stored {m m' : Mem} (hq : Gone m held q) (ha : a ∈ held)
    (hkept : ∀ i, i < a.ptr ∨ a.ptr + a.granted ≤ i → m' i = m i) : Gone m' held q := by
  have hapart := hq.apart a ha
  obtain ⟨hlo, -⟩ := hq.range
  simp only [poolHdr] at hapart hlo
  refine ⟨hq.range, ⟨?_, ?_⟩, hq.apart⟩
  · rw [hkept (q - 4) (by omega)]
    exact hq.magic.1
  · rw [hkept (q - 3) (by omega)]
    exact hq.magic.2

/-- The pool with other memory. -/
def Pool.withMem (p : Pool) (m : Mem) : Pool := { p with heap := { p.heap with mem := m } }

/-- Stores into one block in use, but not into the header of a pool block. -/
theorem PoolHeld.stored {m : Mem} (hw : PoolHeld w held) (ha : a ∈ held)
    (hkept : ∀ i, i < a.ptr ∨ a.ptr + a.granted ≤ i → m i = w.pool.heap.mem i)
    (hhdr : ∀ b ∈ w.live, b.ptr = a.ptr + poolHdr →
      Mem.Agree w.pool.heap.mem m (b.ptr - poolHdr) b.ptr) :
    PoolHeld { w with pool := w.pool.withMem m } held where
  heap := (hw.heap.store ha hkept).1
  aligned := by
    change Aligned (Heap.blocks { w.pool.heap with mem := m })
    rw [hw.heap.store_blocks ha hkept]
    exact hw.aligned
  block b hb := by
    obtain ⟨c, hc, hptr, hsize, hstamped⟩ := hw.block b hb
    refine ⟨c, hc, hptr, hsize, hstamped.congr (hw.ptr_le hb) ?_⟩
    by_cases heq : c.ptr = a.ptr
    · exact hhdr b hb (by rw [hptr, heq])
    · have hsame := (hw.heap.store ha hkept).2 c hc heq
      refine hsame.mono ?_ ?_ <;> rw [hptr]
      · rw [Nat.add_sub_cancel]
      · omega
  others := hw.others
  distinct := hw.distinct
  gone q hq := (hw.gone q hq).stored ha hkept

/-- A block of the heap that no pool block begins joins the pool. -/
theorem PoolHeld.joined {p : Pool} {t : Nat} (hw : PoolHeld w (a :: held)) (hp : p.heap = w.pool.heap)
    (hothers : ∀ c ∈ w.others, c.ptr ≠ a.ptr) (hlive : ∀ b ∈ w.live, b.ptr ≠ a.ptr + poolHdr)
    (hsize : n + poolHdr ≤ a.granted)
    (hstamped : PoolBlock.Stamped ⟨a.ptr + poolHdr, n, t⟩ w.pool.heap.mem) :
    PoolHeld { w with pool := p, live := ⟨a.ptr + poolHdr, n, t⟩ :: w.live } (a :: held) where
  heap := hp ▸ hw.heap
  aligned := hp ▸ hw.aligned
  block b hb := by
    dsimp only
    rw [hp]
    rcases List.mem_cons.1 hb with rfl | hb
    · exact ⟨a, List.mem_cons_self, rfl, hsize, hstamped⟩
    · exact hw.block b hb
  others c hc := by
    refine ⟨(hw.others c hc).1, fun b hb => ?_⟩
    rcases List.mem_cons.1 hb with rfl | hb
    · exact fun h => hothers c hc (Nat.add_right_cancel h).symm
    · exact (hw.others c hc).2 b hb
  distinct := .cons (fun b hb h => hlive b hb h.symm) hw.distinct
  gone q hq := hp ▸ hw.gone q hq

/-- A freed pointer whose header the new block does not cover. -/
theorem Gone.handed {m m' : Mem} (hq : Gone m held q)
    (hsize : blockSize m' (a.ptr - blockHeader) = a.granted)
    (hover : ¬overHdr m' (a.ptr + poolHdr) q) : Gone m (a :: held) q := by
  refine ⟨hq.range, hq.magic, fun c hc => ?_⟩
  rcases List.mem_cons.1 hc with rfl | hc
  · unfold overHdr at hover
    rw [Nat.add_sub_cancel, hsize] at hover
    omega
  · exact hq.apart c hc

end Held

/-! ## Allocation -/

section Allocate

variable {w : PoolWorld} {held : List Alloc} {t n tag : Nat}

/-- A call that does not wrap returns null and changes nothing, or hands out the block behind a new
header. -/
theorem exAllocatePoolWithTag_spec (hw : PoolHeld w held) (hfits : n + poolHdr + 15 < 2 ^ 64) :
    exAllocatePoolWithTag w.pool t n tag = some (w.pool, 0) ∨
    ∃ a m, exAllocatePoolWithTag w.pool t n tag =
        some (w.pool.charge { w.pool.heap with mem := m } t n, a.ptr + poolHdr) ∧
      n + poolHdr ≤ a.granted ∧
      PoolHeld (w.handed (w.pool.charge { w.pool.heap with mem := m } t n) t n (a.ptr + poolHdr))
        (a :: held) := by
  unfold exAllocatePoolWithTag
  by_cases hn : n = 0
  · exact .inl (if_pos hn)
  rw [if_neg hn, Nat.mod_eq_of_lt (show n + poolHdr < 2 ^ 64 by omega)]
  rcases hw.heap.kmalloc hfits with hnull | ⟨m', a, hk, hne, hroom, hfresh, hholds, hkept⟩
  · refine .inl ?_
    rw [hnull]
    rfl
  · obtain ⟨haligned, hsettles⟩ := hw.heap.kmalloc_settles hw.aligned hk
    have hmem := List.mem_cons_self (a := a) (l := held)
    have hout : ∀ i, i < a.ptr ∨ a.ptr + a.granted ≤ i → writeHdr m' a.ptr tag n t i = m' i :=
      fun i hi => writeHdr_outside (by omega)
    have hsize : blockSize (writeHdr m' a.ptr tag n t) (a.ptr - blockHeader) = a.granted :=
      (hholds.store hmem hout).1.granted_eq hmem
    have hlive : ∀ b ∈ w.live, b.ptr ≠ a.ptr + poolHdr := by
      intro b hb heq
      obtain ⟨c, hc, hptr, -⟩ := hw.block b hb
      exact hfresh c hc (Nat.add_right_cancel (hptr.symm.trans heq))
    let w' : PoolWorld := { w with
      pool := w.pool.withMem m'
      freed := w.freed.filter fun q => ¬overHdr (writeHdr m' a.ptr tag n t) (a.ptr + poolHdr) q }
    have hstart : PoolHeld w' (a :: held) :=
      { heap := hholds
        aligned := haligned
        block := fun b hb => by
          obtain ⟨c, hc, hptr, hgr, hstamped⟩ := hw.block b hb
          refine ⟨c, List.mem_cons_of_mem _ hc, hptr, hgr, hstamped.congr (hw.ptr_le hb) ?_⟩
          refine (hkept c hc).mono ?_ ?_ <;> rw [hptr]
          · rw [Nat.add_sub_cancel]
          · omega
        others := fun c hc => ⟨List.mem_cons_of_mem _ (hw.others c hc).1, (hw.others c hc).2⟩
        distinct := hw.distinct
        gone := fun q hq => by
          obtain ⟨hq, hover⟩ := List.mem_filter.1 hq
          exact ((hw.gone q hq).settles hsettles fun c hc => hc).handed hsize (of_decide_eq_true hover) }
    have hwritten := hstart.stored hmem hout fun b hb heq => absurd heq (hlive b hb)
    refine .inr ⟨a, writeHdr m' a.ptr tag n t, ?_, hroom, hwritten.joined rfl ?_ hlive hroom
      (writeHdr_stamped (by omega))⟩
    · rw [hk, Option.map_some]
      exact congrArg some (if_neg hne)
    · exact fun c hc => hfresh c (hw.others c hc).1

end Allocate

/-! ## Freeing -/

section Free

variable {w : PoolWorld} {held : List Alloc} {b : PoolBlock} {q : Nat}

/-- Null, and what was freed already, is not freed. -/
theorem exFreePoolWithTag_none (tag : Nat) (hw : PoolHeld w held) (hq : q = 0 ∨ q ∈ w.freed) :
    exFreePoolWithTag w.pool q tag = some w.pool ∧ ∀ b ∈ w.live, b.ptr ≠ q := by
  rcases hq with rfl | hq
  · refine ⟨rfl, fun b hb heq => ?_⟩
    have hle := hw.ptr_le hb
    rw [heq] at hle
    exact absurd hle (by decide)
  · have hgone := hw.gone q hq
    obtain ⟨hlo, hhi, -⟩ := hgone.range
    have hzero := hdrMagic_of_zero hlo hgone.magic.1 hgone.magic.2
    have hmagic : poolMagic ≠ 0 := by decide
    refine ⟨?_, fun b hb heq => ?_⟩
    · have hne : q ≠ 0 := Nat.ne_of_gt (Nat.lt_of_lt_of_le (by decide) hlo)
      have hback : (q + 2 ^ 64 - poolHdr) % 2 ^ 64 = q - poolHdr := by
        simp only [poolHdr] at hlo ⊢
        omega
      unfold exFreePoolWithTag
      simp only [hne, if_false, hback, hzero]
      exact if_pos hmagic.symm
    · obtain ⟨a, -, -, -, hstamped⟩ := hw.block b hb
      have hset := hstamped.magic
      rw [heq, hzero] at hset
      exact hmagic hset.symm

/-- The pointer of a block whose magic is cleared, once the block is not in use. -/
theorem cleared_gone {h : Heap} {a : Alloc} {size : Nat} (hh : Mm.Holds h held) (ha : a ∈ held)
    (hptr : b.ptr = a.ptr + poolHdr) (hroom : size + poolHdr ≤ a.granted) (hmod : a.ptr % 8 = 0) :
    Gone (h.mem.write (a.ptr + 12) 2 0) (held.filter fun c => c.ptr != a.ptr) b.ptr := by
  obtain ⟨hlo, hhi⟩ := hh.bounds ha
  have hzero : ∀ i, a.ptr + 12 ≤ i → i < a.ptr + 12 + 2 → h.mem.write (a.ptr + 12) 2 0 i = 0 := by
    intro i hi hi'
    rw [Mem.write, Mem.blit_inside _ _ hi hi', Mem.le, Nat.zero_div]
    rfl
  simp only [poolHdr, heapBase, heapSize, blockHeader] at hptr hlo hhi hroom
  refine ⟨?_, ⟨hzero _ (by omega) (by omega), hzero _ (by omega) (by omega)⟩, fun c hc => ?_⟩
  · simp only [poolHdr]
    omega
  · obtain ⟨hc, hne⟩ := List.mem_filter.1 hc
    have hapart := hh.apart ha hc (Ne.symm (by simpa using hne))
    simp only [poolHdr]
    omega

/-- A live block is freed. -/
theorem exFreePoolWithTag_spec (tag : Nat) (hw : PoolHeld w held) (hb : b ∈ w.live) :
    ∃ heap held', exFreePoolWithTag w.pool b.ptr tag = some (w.pool.discharge heap b.poolType b.size) ∧
      PoolHeld (w.dropped (w.pool.discharge heap b.poolType b.size) b.ptr) held' := by
  obtain ⟨a, ha, hptr, hroom, hstamped⟩ := hw.block b hb
  obtain ⟨hlo, hhi⟩ := hw.heap.bounds ha
  have hmod := hw.heap.ptr_mod hw.aligned ha
  have hraw : b.ptr - poolHdr = a.ptr := by rw [hptr, Nat.add_sub_cancel]
  have hback : (b.ptr + 2 ^ 64 - poolHdr) % 2 ^ 64 = a.ptr := by
    simp only [poolHdr, heapBase, heapSize, blockHeader] at hptr hlo hhi hroom ⊢
    omega
  have hne : b.ptr ≠ 0 := by
    rw [hptr]
    exact Nat.succ_ne_zero _
  obtain ⟨hsize, hmagic, htype⟩ := hstamped
  rw [hraw] at hsize hmagic htype
  -- the magic goes first, and the block with it
  let w' : PoolWorld := { w with live := w.live.filter fun c => c.ptr != b.ptr }
  have hless : PoolHeld w' held :=
    { hw with
      block := fun c hc => hw.block c (List.mem_of_mem_filter hc)
      others := fun c hc => ⟨(hw.others c hc).1, fun d hd => (hw.others c hc).2 d (List.mem_of_mem_filter hd)⟩
      distinct := hw.distinct.filter _ }
  have hclear : PoolHeld { w' with pool := w.pool.withMem (w.pool.heap.mem.write (a.ptr + 12) 2 0) } held := by
    refine hless.stored ha (fun i hi => Mem.write_outside _ _ (by simp only [poolHdr] at hroom; omega)) ?_
    intro c hc heq
    obtain ⟨-, hc⟩ := List.mem_filter.1 hc
    rw [heq, ← hptr] at hc
    simp at hc
  obtain ⟨m', hk, hholds, hkept⟩ := hclear.heap.kfree ha
  obtain ⟨haligned, hsettles⟩ := hclear.heap.kfree_settles hclear.aligned ha hk
  refine ⟨{ w.pool.heap with mem := m' }, held.filter fun c => c.ptr != a.ptr, ?_, ?_⟩
  · unfold exFreePoolWithTag
    simp only [hne, if_false, hback, hmagic, not_true_eq_false, ne_eq, htype, hsize]
    exact congrArg (Option.map _) hk
  · have hother : ∀ c ∈ w'.live, c.ptr ≠ b.ptr := fun c hc => by
      simpa using (List.mem_filter.1 hc).2
    have hfilter : ∀ c ∈ held, c.ptr ≠ a.ptr → c ∈ held.filter fun c => c.ptr != a.ptr :=
      fun c hc hne => List.mem_filter.2 ⟨hc, by simpa using hne⟩
    exact
      { heap := hholds
        aligned := haligned
        block := fun c hc => by
          obtain ⟨d, hd, hdptr, hdroom, hdstamped⟩ := hclear.block c hc
          have hdne : d.ptr ≠ a.ptr := fun heq => hother c hc (by rw [hdptr, hptr, heq])
          refine ⟨d, hfilter d hd hdne, hdptr, hdroom, hdstamped.congr (hclear.ptr_le hc) ?_⟩
          refine (hkept d hd).mono ?_ ?_ <;> rw [hdptr]
          · rw [Nat.add_sub_cancel]
          · omega
        others := fun c hc => by
          obtain ⟨hcheld, hcnot⟩ := hw.others c hc
          refine ⟨hfilter c hcheld fun heq => hcnot b hb (by rw [hptr, heq]), (hclear.others c hc).2⟩
        distinct := hclear.distinct
        gone := fun q hq => by
          rcases List.mem_cons.1 hq with rfl | hq
          · refine .settles ?_ hsettles fun c hc => hc
            exact cleared_gone hw.heap ha hptr hroom hmod
          · exact (hclear.gone q hq).settles hsettles fun c hc => List.mem_of_mem_filter hc }

end Free

/-! ## Counters -/

section Counters

variable {w : PoolWorld} {held : List Alloc} {b : PoolBlock} {l : List PoolBlock} {t n : Nat}

/-- One block among blocks with different pointers. -/
theorem sum_drop (f : PoolBlock → Nat) (hd : l.Pairwise fun b c => b.ptr ≠ c.ptr) (hb : b ∈ l) :
    (l.map f).sum = f b + ((l.filter fun c => c.ptr != b.ptr).map f).sum := by
  induction l with
  | nil => cases hb
  | cons c l ih =>
    obtain ⟨hc, hl⟩ := List.pairwise_cons.1 hd
    rw [List.map_cons, List.sum_cons, List.filter_cons]
    rcases List.mem_cons.1 hb with rfl | hb
    · have hrest : (l.filter fun c => c.ptr != b.ptr) = l :=
        List.filter_eq_self.2 fun c hmem => by simpa using (hc c hmem).symm
      simp [hrest]
    · have hkeep : (c.ptr != b.ptr) = true := by simpa using hc b hb
      rw [if_pos hkeep, List.map_cons, List.sum_cons, ih hl hb]
      omega

theorem length_drop (hd : l.Pairwise fun b c => b.ptr ≠ c.ptr) (hb : b ∈ l) :
    l.length = (l.filter fun c => c.ptr != b.ptr).length + 1 := by
  have hsum := sum_drop (fun _ => 1) hd hb
  simp only [List.map_const', List.sum_replicate, smul_eq_mul, mul_one] at hsum
  omega

theorem PoolHeld.length_lt (hw : PoolHeld w held) : w.live.length < heapSize := by
  have hnodup : (w.live.map PoolBlock.ptr).Nodup := List.pairwise_map.2 hw.distinct
  have hsub : w.live.map PoolBlock.ptr ⊆ held.map fun a => a.ptr + poolHdr := by
    intro p hp
    obtain ⟨b, hb, rfl⟩ := List.mem_map.1 hp
    obtain ⟨a, ha, hptr, -⟩ := hw.block b hb
    exact List.mem_map.2 ⟨a, ha, hptr.symm⟩
  have hlength := hnodup.length_le_of_subset hsub
  rw [List.length_map, List.length_map] at hlength
  exact hlength.trans_lt hw.heap.length_lt

/-- What is out is far from 2^64 bytes. -/
theorem PoolHeld.sum_lt (hw : PoolHeld w held) : (w.live.map PoolBlock.size).sum < 2 ^ 64 := by
  have hsize : ∀ n ∈ w.live.map PoolBlock.size, n ≤ heapSize := by
    intro n hn
    obtain ⟨b, hb, rfl⟩ := List.mem_map.1 hn
    obtain ⟨a, ha, -, hroom, -⟩ := hw.block b hb
    obtain ⟨hlo, hhi⟩ := hw.heap.bounds ha
    omega
  have hsum := List.sum_le_card_nsmul _ _ hsize
  rw [List.length_map, smul_eq_mul] at hsum
  have hmul := Nat.mul_le_mul_right heapSize hw.length_lt.le
  exact (hsum.trans hmul).trans_lt (by decide)

theorem bytes_split (l : List PoolBlock) : (l.map PoolBlock.size).sum =
    (l.map PoolBlock.pagedBytes).sum + (l.map PoolBlock.nonpagBytes).sum := by
  induction l with
  | nil => rfl
  | cons b l ih =>
    have hb : b.size = b.pagedBytes + b.nonpagBytes := by
      unfold PoolBlock.pagedBytes PoolBlock.nonpagBytes
      split <;> omega
    simp only [List.map_cons, List.sum_cons]
    omega

theorem PoolCounts.charge (hc : PoolCounts w) {ptr : Nat} (heap : Heap)
    (hsum : n + (w.live.map PoolBlock.size).sum < 2 ^ 64) :
    PoolCounts (w.handed (w.pool.charge heap t n) t n ptr) := by
  obtain ⟨hbytes, hpaged, hnonpag, hcount, hfrees⟩ := hc
  have hsplit := bytes_split w.live
  constructor <;>
    simp only [PoolWorld.handed, Pool.charge, List.map_cons, List.sum_cons, List.length_cons,
      PoolBlock.pagedBytes, PoolBlock.nonpagBytes]
  · rw [hbytes, Nat.mod_eq_of_lt (by omega), Nat.add_comm]
  · rw [hpaged]
    split
    · rw [Nat.mod_eq_of_lt (by omega), Nat.add_comm]
    · rw [Nat.zero_add]
  · rw [hnonpag]
    split
    · rw [Nat.zero_add]
    · rw [Nat.mod_eq_of_lt (by omega), Nat.add_comm]
  · omega
  · exact hfrees

theorem PoolCounts.discharge (hc : PoolCounts w) (heap : Heap)
    (hd : w.live.Pairwise fun b c => b.ptr ≠ c.ptr) (hb : b ∈ w.live) :
    PoolCounts (w.dropped (w.pool.discharge heap b.poolType b.size) b.ptr) := by
  obtain ⟨hbytes, hpaged, hnonpag, hcount, hfrees⟩ := hc
  have htake : ∀ x y : Nat, takeBytes (x + y) x = y := by
    intro x y
    unfold takeBytes
    rw [if_pos (Nat.le_add_right x y), Nat.add_sub_cancel_left]
  have hpagedSum := sum_drop PoolBlock.pagedBytes hd hb
  have hnonpagSum := sum_drop PoolBlock.nonpagBytes hd hb
  constructor <;> simp only [PoolWorld.dropped, Pool.discharge]
  · rw [hbytes, sum_drop _ hd hb, htake]
  · rw [hpaged, hpagedSum]
    unfold PoolBlock.pagedBytes
    split
    · exact htake _ _
    · exact Nat.zero_add _
  · rw [hnonpag, hnonpagSum]
    unfold PoolBlock.nonpagBytes
    split
    · exact Nat.zero_add _
    · exact htake _ _
  · have hlength := length_drop hd hb
    omega
  · exact Nat.mod_lt _ (by decide)

end Counters

/-! ## Calls -/

def PoolInv (w : PoolWorld) : Prop := PoolCounts w ∧ ∃ held, PoolHeld w held

section Calls

variable {w : PoolWorld} {t n q : Nat}

/-- What is out after an allocation. -/
def PoolWorld.allocated (w : PoolWorld) (p : Pool) (t n ptr : Nat) : PoolWorld :=
  if ptr = 0 then { w with pool := p } else w.handed p t n ptr

theorem allocate_inv (tag : Nat) (hw : PoolInv w) (hfits : n + poolHdr + 15 < 2 ^ 64) :
    ∃ p ptr, exAllocatePoolWithTag w.pool t n tag = some (p, ptr) ∧ PoolInv (w.allocated p t n ptr) := by
  obtain ⟨hcounts, held, hheld⟩ := hw
  rcases exAllocatePoolWithTag_spec (t := t) hheld hfits with hnull | ⟨a, m, hrun, -, hnew⟩
  · exact ⟨w.pool, 0, hnull, hcounts, held, hheld⟩
  · refine ⟨_, _, hrun, ?_⟩
    unfold PoolWorld.allocated
    rw [if_neg (show a.ptr + poolHdr ≠ 0 from Nat.succ_ne_zero _)]
    have hsum := hnew.sum_lt
    exact ⟨hcounts.charge _ (by simpa [PoolWorld.handed] using hsum), _, hnew⟩

/-- Zeroes in the block just handed out. -/
theorem zeroed_inv {p : Pool} {ptr : Nat} (hw : PoolInv (w.handed p t n ptr)) :
    PoolInv (w.handed (p.withMem (p.heap.mem.blit ptr n fun _ => 0)) t n ptr) := by
  obtain ⟨hcounts, held, hheld⟩ := hw
  obtain ⟨a, ha, hptr, hroom, -⟩ := hheld.block ⟨ptr, n, t % 256⟩ List.mem_cons_self
  dsimp only at hptr hroom
  have hout : ∀ i, i < a.ptr ∨ a.ptr + a.granted ≤ i → p.heap.mem.blit ptr n (fun _ => 0) i = p.heap.mem i :=
    fun i hi => Mem.blit_outside _ _ (by omega)
  have hfilled := hheld.stored ha hout fun b hb heq =>
    (Mem.agree_blit _ _ (.inl (by rw [heq, ← hptr]))).symm
  have hsize : blockSize (p.heap.mem.blit ptr n fun _ => 0) (a.ptr - blockHeader) =
      blockSize p.heap.mem (a.ptr - blockHeader) :=
    (hfilled.heap.granted_eq ha).trans (hheld.heap.granted_eq ha).symm
  have hfreed : (w.handed (p.withMem (p.heap.mem.blit ptr n fun _ => 0)) t n ptr).freed =
      (w.handed p t n ptr).freed := by
    refine List.filter_congr fun q _ => ?_
    have hover : overHdr (p.heap.mem.blit ptr n fun _ => 0) ptr q ↔ overHdr p.heap.mem ptr q := by
      have hraw : ptr - poolHdr = a.ptr := by rw [hptr, Nat.add_sub_cancel]
      unfold overHdr
      rw [hraw, hsize]
    simp only [Pool.withMem, hover]
  have heq : w.handed (p.withMem (p.heap.mem.blit ptr n fun _ => 0)) t n ptr =
      { w.handed p t n ptr with pool := p.withMem (p.heap.mem.blit ptr n fun _ => 0) } := by
    have hfields : ∀ {x y : PoolWorld}, x.pool = y.pool → x.others = y.others → x.live = y.live →
        x.freed = y.freed → x = y := by
      rintro ⟨⟩ ⟨⟩ rfl rfl rfl rfl
      rfl
    exact hfields rfl rfl rfl hfreed
  rw [heq]
  exact ⟨⟨hcounts.bytes, hcounts.paged, hcounts.nonpag, hcounts.count, hcounts.frees⟩, held, hfilled⟩

theorem allocate2_inv (flags tag : Nat) (hw : PoolInv w) (hfits : n + poolHdr + 15 < 2 ^ 64) :
    ∃ p ptr, exAllocatePool2 w.pool flags n tag = some (p, ptr) ∧
      PoolInv (w.allocated p nonPagedPool n ptr) := by
  obtain ⟨p, ptr, hrun, hnew⟩ := allocate_inv (t := nonPagedPool) tag hw hfits
  unfold exAllocatePool2
  rw [hrun, Option.map_some]
  dsimp only
  split
  case isTrue hzero =>
    refine ⟨_, _, rfl, ?_⟩
    unfold PoolWorld.allocated at hnew ⊢
    rw [if_neg hzero.1] at hnew ⊢
    exact zeroed_inv hnew
  case isFalse => exact ⟨_, _, rfl, hnew⟩

/-- What is out after a pointer is freed. -/
def PoolWorld.released (w : PoolWorld) (p : Pool) (q : Nat) : PoolWorld :=
  if ∃ b ∈ w.live, b.ptr = q then w.dropped p q else { w with pool := p }

theorem free_inv (tag : Nat) (hw : PoolInv w) (hq : q = 0 ∨ (∃ b ∈ w.live, b.ptr = q) ∨ q ∈ w.freed) :
    ∃ p, exFreePoolWithTag w.pool q tag = some p ∧ PoolInv (w.released p q) := by
  obtain ⟨hcounts, held, hheld⟩ := hw
  unfold PoolWorld.released
  have hnone : q = 0 ∨ q ∈ w.freed → ∃ p, exFreePoolWithTag w.pool q tag = some p ∧
      PoolInv (if ∃ b ∈ w.live, b.ptr = q then w.dropped p q else { w with pool := p }) := by
    intro hq
    obtain ⟨hrun, hno⟩ := exFreePoolWithTag_none tag hheld hq
    refine ⟨w.pool, hrun, ?_⟩
    rw [if_neg fun ⟨b, hb, heq⟩ => hno b hb heq]
    exact ⟨hcounts, held, hheld⟩
  rcases hq with hzero | ⟨b, hb, rfl⟩ | hfreed
  · exact hnone (.inl hzero)
  · obtain ⟨heap, held', hrun, hheld'⟩ := exFreePoolWithTag_spec tag hheld hb
    refine ⟨_, hrun, ?_⟩
    rw [if_pos ⟨b, hb, rfl⟩]
    exact ⟨hcounts.discharge heap hheld.distinct hb, held', hheld'⟩
  · exact hnone (.inr hfreed)

theorem store_inv {i : Nat} {v : UInt8} (hw : PoolInv w) (hallowed : (PoolCall.store i v).Allowed w) :
    PoolInv { w with pool := w.pool.withMem (w.pool.heap.mem.write i 1 v.toNat) } := by
  obtain ⟨hcounts, held, hheld⟩ := hw
  refine ⟨⟨hcounts.bytes, hcounts.paged, hcounts.nonpag, hcounts.count, hcounts.frees⟩, held, ?_⟩
  rcases hallowed with ⟨b, hb, hlo, hhi⟩ | ⟨a, ha, hlo, hhi⟩
  · obtain ⟨a, ha, hptr, hroom, -⟩ := hheld.block b hb
    refine hheld.stored ha (fun j hj => Mem.write_outside _ _ (by omega)) fun c _ heq => ?_
    exact (Mem.agree_write _ _ (.inl (by omega))).symm
  · obtain ⟨haheld, hnot⟩ := hheld.others a ha
    exact hheld.stored haheld (fun j hj => Mem.write_outside _ _ (by omega))
      fun c hc heq => absurd heq (hnot c hc)

/-- Every call that is allowed and does not wrap returns and keeps the invariant. -/
theorem call_inv {c : PoolCall} (hw : PoolInv w) (hallowed : c.Allowed w) (hmeets : PoolMeets w c) :
    ∃ p ptr, c.run w.pool = some (p, ptr) ∧ PoolInv (w.after c p ptr) := by
  have hfree : ∀ (q tag : Nat), (q = 0 ∨ (∃ b ∈ w.live, b.ptr = q) ∨ q ∈ w.freed) →
      ∃ p ptr, (exFreePoolWithTag w.pool q tag).map (·, 0) = some (p, ptr) ∧
        PoolInv (w.released p q) := by
    intro q tag hq
    obtain ⟨p, hrun, hnew⟩ := free_inv tag hw hq
    exact ⟨p, 0, by rw [hrun]; rfl, hnew⟩
  cases c with
  | exAllocatePool t n => exact allocate_inv _ hw (hmeets t n rfl)
  | exAllocatePoolWithTag t n tag => exact allocate_inv _ hw (hmeets t n rfl)
  | exAllocatePoolUninitialized t n tag => exact allocate_inv _ hw (hmeets t n rfl)
  | exAllocatePool2 flags n tag => exact allocate2_inv flags tag hw (hmeets _ n rfl)
  | exAllocatePool3 flags n tag params => exact allocate2_inv flags tag hw (hmeets _ n rfl)
  | exFreePool q => exact hfree q 0 (hallowed.2 q rfl)
  | exFreePoolWithTag q tag => exact hfree q tag (hallowed.2 q rfl)
  | store i v => exact ⟨_, _, rfl, store_inv hw hallowed⟩

end Calls

/-! ## Whole runs -/

theorem PoolStart.inv {w : PoolWorld} (h : PoolStart w) : PoolInv w := by
  obtain ⟨⟨mem, hrun⟩, ⟨hlive, hfreed⟩, hallocs, hfrees, hbytes, hpaged, hnonpag⟩ := h
  obtain ⟨hholds, haligned⟩ := heapRun_aligned hrun
  refine ⟨⟨?_, ?_, ?_, ?_, ?_⟩, w.others, ⟨hholds, haligned, ?_, ?_, ?_, ?_⟩⟩
  · rw [hbytes, hlive]
    rfl
  · rw [hpaged, hlive]
    rfl
  · rw [hnonpag, hlive]
    rfl
  · rw [hallocs, hfrees, hlive]
    rfl
  · rw [hfrees]
    decide
  · simp [hlive]
  · exact fun a ha => ⟨ha, by simp [hlive]⟩
  · rw [hlive]
    exact .nil
  · simp [hfreed]

theorem PoolInv.sound {w : PoolWorld} (hw : PoolInv w) : PoolSound w := by
  obtain ⟨hcounts, held, hheld⟩ := hw
  constructor
  · intro b hb
    obtain ⟨a, ha, hptr, hroom, -⟩ := hheld.block b hb
    obtain ⟨hlo, hhi⟩ := hheld.heap.bounds ha
    omega
  · refine hheld.distinct.imp_of_mem fun {b c} hb hc hne => ?_
    obtain ⟨a, ha, hptr, hroom, -⟩ := hheld.block b hb
    obtain ⟨d, hd, hptr', hroom', -⟩ := hheld.block c hc
    have hapart := hheld.heap.apart ha hd (by omega)
    omega
  · intro b hb c hc
    obtain ⟨a, ha, hptr, hroom, -⟩ := hheld.block b hb
    obtain ⟨hcheld, hnot⟩ := hheld.others c hc
    have hapart := hheld.heap.apart ha hcheld fun heq => hnot b hb (by rw [hptr, heq])
    omega
  · intro b hb c hc
    obtain ⟨a, ha, hptr, hroom, -⟩ := hheld.block b hb
    obtain ⟨bs, hinv⟩ := hheld.heap
    have hheader := hinv.sound.headers a ha c hc
    omega
  · exact hcounts.bytes
  · rw [hcounts.bytes, hcounts.paged, hcounts.nonpag]
    exact bytes_split w.live
  · have hlength := hheld.length_lt
    have hcount := hcounts.count
    have hfrees := hcounts.frees
    simp only [heapSize] at hlength
    omega
  · exact fun q hq tag => (exFreePoolWithTag_none tag hheld (.inr hq)).1

/-- In every run of calls that do not wrap, the blocks lie apart, the counters are exact, what was
freed is not freed again, and the next call that does not wrap returns. -/
theorem pool_accounting (w₀ w : PoolWorld) (hstart : PoolStart w₀)
    (hrun : Reach (· = w₀) PoolStep PoolMeets w) :
    PoolSound w ∧ ∀ c : PoolCall, c.Allowed w → PoolMeets w c → ∃ p ptr, c.run w.pool = some (p, ptr) := by
  have hinv : PoolInv w := by
    refine hrun.invariant (fun w hw => hw ▸ hstart.inv) ?_
    rintro w c _ hw hmeets ⟨p, ptr, hallowed, hcall⟩
    obtain ⟨p', ptr', hcall', hnew⟩ := call_inv hw hallowed hmeets
    obtain ⟨rfl, rfl⟩ := Prod.mk.inj (Option.some.inj (hcall.symm.trans hcall'))
    exact hnew
  refine ⟨hinv.sound, fun c hallowed hmeets => ?_⟩
  obtain ⟨p, ptr, hcall, -⟩ := call_inv hinv hallowed hmeets
  exact ⟨p, ptr, hcall⟩

/-! ## From a fresh heap -/

def bootPool : PoolWorld := ⟨⟨heapInit fun _ => 0, 0, 0, 0, 0, 0⟩, [], [], []⟩

theorem bootPool_start : PoolStart bootPool where
  heap := ⟨fun _ => 0, .start rfl⟩
  nothing := ⟨rfl, rfl⟩
  counters := ⟨rfl, rfl, rfl, rfl, rfl⟩

theorem asks_allowed {w : PoolWorld} (t : Nat) {n : Nat} (hn : n < 2 ^ 64) (tag : Nat) :
    (PoolCall.exAllocatePoolWithTag t n tag).Allowed w :=
  ⟨fun _ _ h => by cases h; exact hn, fun _ h => by cases h⟩

theorem pool_accounting_hundred : ∃ p ptr, exAllocatePoolWithTag bootPool.pool 1 100 0 = some (p, ptr) ∧
    PoolSound (bootPool.after (.exAllocatePoolWithTag 1 100 0) p ptr) := by
  have hallowed : (PoolCall.exAllocatePoolWithTag 1 100 0).Allowed bootPool := asks_allowed 1 (by decide) 0
  have hmeets : PoolMeets bootPool (.exAllocatePoolWithTag 1 100 0) := fun _ _ h => by cases h; decide
  obtain ⟨p, ptr, hcall⟩ := (pool_accounting bootPool bootPool bootPool_start (.start rfl)).2 _ hallowed hmeets
  exact ⟨p, ptr, hcall, (pool_accounting bootPool _ bootPool_start
    (.step (.start rfl) hmeets (.call bootPool _ p ptr hallowed hcall))).1⟩

/-- The size wraps to zero behind the header, and a block without a byte is handed out. -/
theorem pool_unaccounted : ¬∀ w₀ w, PoolStart w₀ → Reach (· = w₀) PoolStep (fun _ _ => True) w →
    PoolSound w := by
  intro hall
  have hm : mallocList (roundUp16 0) initialBlocks = some ([⟨heapBase, 0, false⟩,
      ⟨heapBase + blockHeader, heapSize - blockHeader - 0 - blockHeader, true⟩],
      heapBase + blockHeader) := rfl
  have hk := (heapInit_inv fun _ => 0).kmalloc 0
  rw [hm] at hk
  obtain ⟨m', hk, -⟩ := hk
  have hcall : ∃ p, exAllocatePoolWithTag bootPool.pool 0 (2 ^ 64 - 16) 0 =
      some (p, heapBase + blockHeader + poolHdr) := by
    have hwrap : (2 ^ 64 - 16 + poolHdr) % 2 ^ 64 = 0 := by decide
    have hne : heapBase + blockHeader ≠ 0 := by decide
    unfold exAllocatePoolWithTag
    rw [if_neg (by decide), hwrap, show bootPool.pool.heap = heapInit fun _ => 0 from rfl, hk,
      Option.map_some]
    exact ⟨_, congrArg some (if_neg hne)⟩
  obtain ⟨p, hcall⟩ := hcall
  have hsound := hall bootPool _ bootPool_start (.step (.start rfl) trivial
    (.call bootPool (.exAllocatePoolWithTag 0 (2 ^ 64 - 16) 0) p _ (asks_allowed 0 (by decide) 0) hcall))
  have hinside := (hsound.inside ⟨heapBase + blockHeader + poolHdr, 2 ^ 64 - 16, 0⟩
    List.mem_cons_self).2
  exact absurd hinside (by decide)

end MeuOS.Ex
