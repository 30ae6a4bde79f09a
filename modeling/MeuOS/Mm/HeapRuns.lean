import MeuOS.Mm.Heap

/-! Whole runs of the heap: clients allocate, store into what they hold and free it.
`heapStep` pairs the heap with the allocations outstanding, and every property of a
run is read off the block list that `HeapInv` keeps for it. -/
namespace MeuOS.Mm

open MeuOS.Lib

/-- A block handed out and not freed since: its pointer, the size asked for, and the
payload it got. -/
structure Alloc where
  ptr : Nat
  requested : Nat
  granted : Nat

structure World where
  heap : Heap
  live : List Alloc

inductive HeapOp
  | kmalloc (n : Nat)
  | kfree (p : Nat)
  /-- A client stores a byte into a block it holds. -/
  | store (i : Nat) (v : UInt8)

/-- One call, or one store by a client. Callers free only what they hold. -/
def heapStep (w : World) : HeapOp → Option World
  | .kmalloc n =>
      if n < 2 ^ 64 then
        (kmalloc w.heap n).map fun r =>
          if r.2 = 0 then ⟨r.1, w.live⟩
          else ⟨r.1, ⟨r.2, n, blockSize r.1.mem (r.2 - blockHeader)⟩ :: w.live⟩
      else none
  | .kfree p =>
      if ∃ a ∈ w.live, a.ptr = p then
        (kfree w.heap p).map fun h => ⟨h, w.live.filter fun a => a.ptr != p⟩
      else none
  | .store i v =>
      if ∃ a ∈ w.live, a.ptr ≤ i ∧ i < a.ptr + a.granted then
        some { w with heap := { w.heap with mem := w.heap.mem.write i 1 v.toNat } }
      else none

/-- What `heap_init` leaves: one free block. -/
def initialBlocks : List Block := [⟨heapBase, heapSize - blockHeader, true⟩]

/-- The block list behind a world, and the allocations it stands for. -/
structure HeapInv (w : World) (bs : List Block) : Prop where
  head : w.heap.sHead = heapBase
  chain : Chain w.heap.mem w.heap.sHead bs
  tiles : Tiles heapBase (heapBase + heapSize) bs
  coalesced : Coalesced bs
  live_block : ∀ a ∈ w.live, ∃ b ∈ bs, b.free = false ∧ a.ptr = b.payload ∧ a.granted = b.size
  block_live : ∀ b ∈ bs, b.free = false → ∃ a ∈ w.live, a.ptr = b.payload
  ptr_inj : w.live.Pairwise fun a a' => a.ptr ≠ a'.ptr
  room : ∀ a ∈ w.live, a.requested ≤ a.granted

theorem HeapInv.length_lt {w : World} {bs : List Block} (h : HeapInv w bs) :
    bs.length < heapSize := by
  have := tiles_length h.tiles
  simp only [blockHeader, heapSize] at this ⊢
  omega

theorem HeapInv.blocks_eq {w : World} {bs : List Block} (h : HeapInv w bs) :
    w.heap.blocks = bs := walkBlocks_of_chain h.chain h.length_lt

/-- The three stores that build the initial header, before the size is filled in. -/
theorem initHeader_size (mem : Mem) {v : Nat} (h : v < 256 ^ 8) :
    blockSize (((mem.write heapBase 8 v).write (heapBase + 8) 4 1).write (heapBase + 16) 8 0)
      heapBase = v := by
  simp (disch := omega) only [blockSize, Mem.rd64, Mem.read_write_of_disjoint,
    Mem.read_write_of_lt _ h]

theorem heapInit_inv (mem : Mem) : HeapInv ⟨heapInit mem, []⟩ initialBlocks := by
  have hsize : blockSize (heapInit mem).mem heapBase = heapSize - blockHeader :=
    initHeader_size mem (by decide)
  have hfree : blockFree (heapInit mem).mem heapBase = true := by
    simp (disch := omega) only [heapInit, blockFree, Mem.rd32, Mem.read_write_of_disjoint,
      Mem.read_write_of_lt]
    rfl
  have hnext : blockNext (heapInit mem).mem heapBase = 0 := by
    simp (disch := omega) only [heapInit, blockNext, Mem.rd64, Mem.read_write_of_lt]
  have hne : heapBase ≠ 0 := by decide
  have hstop : heapBase + blockHeader + (heapSize - blockHeader) = heapBase + heapSize := by decide
  exact ⟨rfl, ⟨rfl, hne, hsize, hfree, hnext⟩, ⟨rfl, hstop⟩, .singleton _, by simp,
    by simp [initialBlocks], .nil, by simp⟩

/-! ## One step -/

theorem HeapInv.kmalloc {w : World} {bs : List Block} (h : HeapInv w bs) (n : Nat) :
    match mallocList (roundUp16 n) bs with
    | none => kmalloc w.heap n = some (w.heap, 0)
    | some (bs', q) => ∃ m', kmalloc w.heap n = some ({ w.heap with mem := m' }, q) ∧
        Chain m' w.heap.sHead bs' ∧ PayloadKept w.heap.mem m' bs' := by
  have hloop := kmallocLoop_refines (n := roundUp16 n) h.chain h.tiles (by decide) h.length_lt
  unfold Mm.kmalloc
  cases hm : mallocList (roundUp16 n) bs with
  | none =>
    simp only [hm] at hloop
    simp [hloop]
  | some r =>
    simp only [hm] at hloop
    obtain ⟨m', hrun, hchain, hkept⟩ := hloop
    exact ⟨m', by simp [hrun], hchain, hkept⟩

theorem HeapInv.kfree {w : World} {bs : List Block} (h : HeapInv w bs) {a : Alloc}
    (ha : a ∈ w.live) :
    ∃ m', kfree w.heap a.ptr = some { w.heap with mem := m' } ∧
      Chain m' w.heap.sHead (coalesceList (markFree a.ptr bs)) ∧ PayloadKept w.heap.mem m' bs := by
  obtain ⟨b, hb, -, hptr, -⟩ := h.live_block a ha
  have hne : a.ptr ≠ 0 := by
    rw [hptr]
    simp [Block.payload, blockHeader]
  have hlen : (markFree a.ptr bs).length < heapSize := by
    rw [markFree, List.length_map]
    exact h.length_lt
  have hmark := markFree_chain h.chain h.tiles ⟨b, hb, hptr.symm⟩
  obtain ⟨m', hloop, hchain, hkept⟩ := coalesceLoop_refines hmark (markFree_tiles h.tiles)
    (by decide) hlen
  refine ⟨m', by simp [Mm.kfree, hne, hloop], hchain, fun i hi => ?_⟩
  have haddr : a.ptr - blockHeader = b.addr := by rw [hptr, Block.payload, Nat.add_sub_cancel]
  rw [hkept i fun c hc => ?_]
  · refine Mem.write_outside _ _ ?_
    have hout := hi b hb
    rw [haddr]
    simp only [blockHeader] at hout
    omega
  · -- marking changes no address
    obtain ⟨c', hc', rfl⟩ := List.mem_map.1 hc
    have hout := hi c' hc'
    split <;> exact hout

/-- A request whose 16-byte rounding does not wrap gets at least what it asked for. -/
theorem le_roundUp16 {n : Nat} (h : n + 15 < 2 ^ 64) : n ≤ roundUp16 n := by
  unfold roundUp16
  omega

theorem kmalloc_inv {w w' : World} {bs : List Block} {n : Nat} (h : HeapInv w bs)
    (hfits : n + 15 < 2 ^ 64) (hstep : heapStep w (.kmalloc n) = some w') :
    ∃ bs', HeapInv w' bs' := by
  have hrun := h.kmalloc n
  have hn : n < 2 ^ 64 := by omega
  simp only [heapStep, if_pos hn] at hstep
  cases hm : mallocList (roundUp16 n) bs with
  | none =>
    simp only [hm] at hrun
    simp only [hrun, Option.map_some, if_pos, Option.some.injEq] at hstep
    exact ⟨bs, hstep ▸ h⟩
  | some r =>
    obtain ⟨bs', q⟩ := r
    simp only [hm] at hrun
    obtain ⟨m', hk, hchain, -⟩ := hrun
    obtain ⟨b, hb, granted, hfree, hle, rfl, hused⟩ := mallocList_used hm
    have hq : b.payload ≠ 0 := by simp [Block.payload, blockHeader]
    have hnew : ⟨b.addr, granted, false⟩ ∈ bs' := (hused _ rfl).mpr (.inl rfl)
    have hsize : blockSize m' (b.payload - blockHeader) = granted := by
      have := chain_mem hchain hnew
      simpa [Block.payload] using this
    simp only [hk, Option.map_some, if_neg hq, hsize, Option.some.injEq] at hstep
    subst hstep
    refine ⟨bs', h.head, hchain, mallocList_tiles h.tiles hm,
      mallocList_coalesced_tail h.coalesced hm, ?_, ?_, ?_, ?_⟩
    · intro a ha
      rcases List.mem_cons.mp ha with rfl | ha
      · exact ⟨_, hnew, rfl, rfl, rfl⟩
      · obtain ⟨c, hc, hcfree, hptr, hgr⟩ := h.live_block a ha
        exact ⟨c, (hused c hcfree).mpr (.inr hc), hcfree, hptr, hgr⟩
    · intro c hc hcfree
      rcases (hused c hcfree).mp hc with rfl | hc
      · exact ⟨_, List.mem_cons_self .., rfl⟩
      · obtain ⟨a, ha, hptr⟩ := h.block_live c hc hcfree
        exact ⟨a, List.mem_cons_of_mem _ ha, hptr⟩
    · refine .cons (fun a ha heq => ?_) h.ptr_inj
      -- the block handed out was free, so no live pointer can be its payload
      obtain ⟨c, hc, hcfree, hptr, -⟩ := h.live_block a ha
      have hsame : b = c := tiles_payload_inj h.tiles hb hc (heq.trans hptr)
      rw [← hsame, hfree] at hcfree
      cases hcfree
    · intro a ha
      rcases List.mem_cons.mp ha with rfl | ha
      · exact (le_roundUp16 hfits).trans hle
      · exact h.room a ha

theorem kfree_inv {w w' : World} {bs : List Block} {p : Nat} (h : HeapInv w bs)
    (hstep : heapStep w (.kfree p) = some w') : ∃ bs', HeapInv w' bs' := by
  simp only [heapStep] at hstep
  split at hstep
  case isFalse => cases hstep
  case isTrue hlive =>
    obtain ⟨a, ha, rfl⟩ := hlive
    obtain ⟨m', hk, hchain, -⟩ := h.kfree ha
    simp only [hk, Option.map_some, Option.some.injEq] at hstep
    subst hstep
    refine ⟨_, h.head, hchain, coalesceList_tiles (markFree_tiles h.tiles),
      coalesceList_coalesced _, ?_, ?_, h.ptr_inj.filter _, ?_⟩
    · intro c hc
      obtain ⟨hc, hne⟩ := List.mem_filter.mp hc
      obtain ⟨b, hb, hbfree, hptr, hgr⟩ := h.live_block c hc
      refine ⟨b, (coalesceList_used hbfree).mpr ((mem_markFree hbfree).mpr ⟨hb, ?_⟩), hbfree,
        hptr, hgr⟩
      rw [← hptr]
      simpa using hne
    · intro b hb hbfree
      obtain ⟨hb, hne⟩ := (mem_markFree hbfree).mp ((coalesceList_used hbfree).mp hb)
      obtain ⟨c, hc, hptr⟩ := h.block_live b hb hbfree
      exact ⟨c, List.mem_filter.mpr ⟨hc, by simpa [hptr] using hne⟩, hptr⟩
    · exact fun c hc => h.room c (List.mem_filter.mp hc).1

/-- Stores into a block in use are not to headers. -/
theorem HeapInv.headers_kept {w : World} {bs : List Block} {a : Alloc} {m : Mem} (h : HeapInv w bs)
    (ha : a ∈ w.live)
    (hkept : ∀ i, i < a.ptr ∨ a.ptr + a.granted ≤ i → m i = w.heap.mem i) :
    ∀ c ∈ bs, Mem.Agree w.heap.mem m c.addr (c.addr + blockHeader) := by
  obtain ⟨b, hb, -, hptr, hgr⟩ := h.live_block a ha
  rw [hptr, hgr] at hkept
  intro c hc i hlo hhi
  refine (hkept i ?_).symm
  have hsep := tiles_separate h.tiles hb hc
  simp only [Block.payload, Block.stop, blockHeader] at *
  rcases hsep with rfl | hsep <;> omega

/-- Stores into the payload of a live block touch no header. -/
theorem HeapInv.frame {w : World} {bs : List Block} {a : Alloc} {m : Mem} (h : HeapInv w bs)
    (ha : a ∈ w.live)
    (hkept : ∀ i, i < a.ptr ∨ a.ptr + a.granted ≤ i → m i = w.heap.mem i) :
    HeapInv { w with heap := { w.heap with mem := m } } bs :=
  { h with chain := chain_congr h.chain (h.headers_kept ha hkept) }

theorem store_inv {w w' : World} {bs : List Block} {i : Nat} {v : UInt8} (h : HeapInv w bs)
    (hstep : heapStep w (.store i v) = some w') : HeapInv w' bs := by
  simp only [heapStep] at hstep
  split at hstep
  case isFalse => cases hstep
  case isTrue hheld =>
    obtain ⟨a, ha, hlo, hhi⟩ := hheld
    cases hstep
    exact h.frame ha fun j hj => Mem.write_outside _ _ (by omega)

/-- The request a step makes can be rounded up to 16 bytes in a `size_t`. -/
def HeapOp.Rounds : HeapOp → Prop
  | .kmalloc n => n + 15 < 2 ^ 64
  | _ => True

theorem heapStep_inv {w w' : World} {bs : List Block} {op : HeapOp} (h : HeapInv w bs)
    (hop : op.Rounds) (hstep : heapStep w op = some w') : ∃ bs', HeapInv w' bs' := by
  cases op with
  | kmalloc n => exact kmalloc_inv h hop hstep
  | kfree p => exact kfree_inv h hstep
  | store i v => exact ⟨bs, store_inv h hstep⟩

/-! ## Whole runs -/

/-- Worlds reached from `heap_init` over `mem` by steps that meet `guard`. -/
def HeapRun (mem : Mem) (guard : HeapOp → Prop) : World → Prop :=
  Reach (fun w => w = ⟨heapInit mem, []⟩) (fun w op w' => heapStep w op = some w')
    fun _ op => guard op

/-- The representation invariant as the clients see it, on the list the headers spell. -/
structure HeapSound (w : World) : Prop where
  chain : Chain w.heap.mem w.heap.sHead w.heap.blocks
  tiles : Tiles heapBase (heapBase + heapSize) w.heap.blocks
  coalesced : Coalesced w.heap.blocks
  /-- A live block still is where and as large as it was handed out. -/
  kept : ∀ a ∈ w.live, ∃ b ∈ w.heap.blocks, b.free = false ∧ b.payload = a.ptr ∧
    b.size = a.granted
  disjoint : w.live.Pairwise fun a a' => a.ptr ≠ a'.ptr ∧
    (a.ptr + a.granted ≤ a'.ptr ∨ a'.ptr + a'.granted ≤ a.ptr)
  headers : ∀ a ∈ w.live, ∀ b ∈ w.heap.blocks, a.ptr + a.granted ≤ b.addr ∨ b.payload ≤ a.ptr
  room : ∀ a ∈ w.live, a.requested ≤ a.granted
  all_freed : w.live = [] → w.heap.blocks = initialBlocks
  kmalloc_null : ∀ n < 2 ^ 64, ∃ h p, kmalloc w.heap n = some (h, p) ∧
    (p = 0 → ∀ b ∈ w.heap.blocks, b.free = true → b.size < (n + 15) / 16 * 16)
  kfree_returns : ∀ a ∈ w.live, ∃ h, kfree w.heap a.ptr = some h

theorem HeapInv.kmalloc_null {w : World} {bs : List Block} (h : HeapInv w bs) (n : Nat) :
    ∃ h p, Mm.kmalloc w.heap n = some (h, p) ∧
      (p = 0 → ∀ b ∈ bs, b.free = true → b.size < (n + 15) / 16 * 16) := by
  have hrun := h.kmalloc n
  cases hm : mallocList (roundUp16 n) bs with
  | none =>
    simp only [hm] at hrun
    refine ⟨_, _, hrun, fun _ b hb hfree => ?_⟩
    have hsmall := mallocList_none.mp hm b hb hfree
    unfold roundUp16 at hsmall
    omega
  | some r =>
    simp only [hm] at hrun
    obtain ⟨m', hk, -⟩ := hrun
    obtain ⟨b, -, -, -, -, hq, -⟩ := mallocList_used hm
    refine ⟨_, _, hk, fun hnull => ?_⟩
    rw [hq] at hnull
    simp [Block.payload, blockHeader] at hnull

theorem HeapInv.sound {w : World} {bs : List Block} (h : HeapInv w bs) : HeapSound w := by
  have hblocks := h.blocks_eq
  refine ⟨?_, ?_, ?_, ?_, ?_, ?_, h.room, ?_, ?_, ?_⟩
  case refine_5 =>
    refine h.ptr_inj.imp_of_mem fun {a a'} ha ha' hne => ⟨hne, ?_⟩
    obtain ⟨b, hb, -, hptr, hgr⟩ := h.live_block a ha
    obtain ⟨b', hb', -, hptr', hgr'⟩ := h.live_block a' ha'
    have hsep := tiles_separate h.tiles hb hb'
    simp only [Block.payload, Block.stop] at *
    rcases hsep with rfl | hsep
    · exact absurd (hptr.trans hptr'.symm) hne
    · omega
  case refine_9 =>
    intro a ha
    obtain ⟨m', hk, -⟩ := h.kfree ha
    exact ⟨_, hk⟩
  all_goals rw [hblocks]
  · exact h.chain
  · exact h.tiles
  · exact h.coalesced
  · intro a ha
    obtain ⟨b, hb, hfree, hptr, hgr⟩ := h.live_block a ha
    exact ⟨b, hb, hfree, hptr.symm, hgr.symm⟩
  · intro a ha c hc
    obtain ⟨b, hb, -, hptr, hgr⟩ := h.live_block a ha
    have hsep := tiles_separate h.tiles hb hc
    simp only [Block.payload, Block.stop] at *
    rcases hsep with rfl | hsep <;> omega
  · intro hnone
    have hfree : ∀ b ∈ bs, b.free = true := by
      intro b hb
      cases hused : b.free with
      | true => rfl
      | false =>
        obtain ⟨a, ha, -⟩ := h.block_live b hb hused
        simp [hnone] at ha
    have hsingle := coalesced_all_free h.tiles (by decide) h.coalesced hfree
    rwa [Nat.add_sub_cancel_left] at hsingle
  · exact fun n _ => h.kmalloc_null n

theorem heapRun_inv {mem : Mem} {w : World} (h : HeapRun mem HeapOp.Rounds w) :
    ∃ bs, HeapInv w bs := by
  apply Reach.invariant h
  · rintro w rfl
    exact ⟨_, heapInit_inv mem⟩
  · rintro w op w' ⟨bs, hinv⟩ hop hstep
    exact heapStep_inv hinv hop hstep

/-- The first request on a fresh heap, whatever its size. -/
theorem heapRun_first (mem : Mem) (guard : HeapOp → Prop) {n : Nat} (hn : n < 2 ^ 64)
    (hguard : guard (.kmalloc n)) (hsmall : roundUp16 n + blockHeader + 16 ≤ heapSize - blockHeader) :
    ∃ w, HeapRun mem guard w ∧ w.live = [⟨heapBase + blockHeader, n, roundUp16 n⟩] := by
  have hm : mallocList (roundUp16 n) initialBlocks =
      some ([⟨heapBase, roundUp16 n, false⟩, ⟨heapBase + blockHeader + roundUp16 n,
        heapSize - blockHeader - roundUp16 n - blockHeader, true⟩], heapBase + blockHeader) := by
    have hfit : roundUp16 n ≤ heapSize - blockHeader := by omega
    rw [initialBlocks, mallocList, if_pos ⟨rfl, hfit⟩, if_pos hsmall]
    rfl
  have hrun := (heapInit_inv mem).kmalloc n
  simp only [hm] at hrun
  obtain ⟨m', hk, hchain, -⟩ := hrun
  have hfirst : (⟨heapBase, roundUp16 n, false⟩ : Block) ∈ [⟨heapBase, roundUp16 n, false⟩,
      ⟨heapBase + blockHeader + roundUp16 n, heapSize - blockHeader - roundUp16 n - blockHeader, true⟩] :=
    List.mem_cons_self
  have hsize := chain_mem hchain hfirst
  dsimp only at hsize
  have hne : heapBase + blockHeader ≠ 0 := by decide
  have hstep : heapStep ⟨heapInit mem, []⟩ (.kmalloc n) =
      some ⟨⟨m', heapBase⟩, [⟨heapBase + blockHeader, n, roundUp16 n⟩]⟩ := by
    simp only [heapStep, if_pos hn, hk, Option.map_some, if_neg hne, Nat.add_sub_cancel, hsize]
    rfl
  exact ⟨_, .step (.start rfl) hguard hstep, rfl⟩

end MeuOS.Mm
