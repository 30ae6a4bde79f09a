import MeuOS.Mm.HeapClient

/-! What the heap writes are headers of its blocks, at multiples of eight, with sizes and addresses
below 2^32: the upper half of a word keeps its bytes or gets zeros. -/
namespace MeuOS.Mm

open MeuOS.Lib

/-- The upper half of every word keeps its bytes or gets zeros. -/
def Settles (m m' : Mem) : Prop := ∀ i, 4 ≤ i % 8 → m' i = m i ∨ m' i = 0

theorem Settles.refl (m : Mem) : Settles m m := fun _ _ => .inl rfl

theorem Settles.trans {m m' m'' : Mem} (h : Settles m m') (h' : Settles m' m'') : Settles m m'' := by
  intro i hi
  rcases h' i hi with hkept | hzero
  · rw [hkept]
    exact h i hi
  · exact .inr hzero

theorem settles_write (m : Mem) {x n v : Nat} (hx : x % 8 = 0) (hv : v < 256 ^ 4) :
    Settles m (m.write x n v) := by
  intro i hi
  by_cases hin : x ≤ i ∧ i < x + n
  · refine .inr ?_
    have hfour : 4 ≤ i - x := by omega
    have hpow : 256 ^ 4 ≤ 256 ^ (i - x) := Nat.pow_le_pow_right (by decide) hfour
    rw [Mem.write, Mem.blit_inside _ _ hin.1 hin.2, Mem.le, Nat.div_eq_of_lt (by omega)]
    rfl
  · exact .inl (Mem.write_outside m v (by omega))

/-- Addresses and sizes are multiples of eight. -/
def Aligned (bs : List Block) : Prop := ∀ b ∈ bs, b.addr % 8 = 0 ∧ b.size % 8 = 0

section Lists

variable {b : Block} {bs bs' : List Block} {n q : Nat}

theorem aligned_cons : Aligned (b :: bs) ↔ (b.addr % 8 = 0 ∧ b.size % 8 = 0) ∧ Aligned bs := by
  simp only [Aligned, List.mem_cons, forall_eq_or_imp]

theorem Aligned.mallocList (h : Aligned bs) (hn : n % 8 = 0) (hm : mallocList n bs = some (bs', q)) :
    Aligned bs' := by
  induction bs generalizing bs' with
  | nil => cases hm
  | cons b bs ih =>
    obtain ⟨hb, hbs⟩ := aligned_cons.1 h
    rw [Mm.mallocList] at hm
    split at hm
    case isTrue hfit =>
      split at hm
      case isTrue hsplit =>
        cases hm
        simp only [blockHeader] at hsplit
        refine aligned_cons.2 ⟨⟨hb.1, hn⟩, aligned_cons.2 ⟨⟨?_, ?_⟩, hbs⟩⟩
        · simp only [Block.payload, blockHeader]
          omega
        · simp only [blockHeader]
          omega
      case isFalse =>
        cases hm
        exact aligned_cons.2 ⟨hb, hbs⟩
    case isFalse =>
      obtain ⟨r, hr, heq⟩ := Option.map_eq_some_iff.1 hm
      cases heq
      exact aligned_cons.2 ⟨hb, ih hbs hr⟩

theorem Aligned.markFree (h : Aligned bs) (q : Nat) : Aligned (markFree q bs) := by
  intro b hb
  obtain ⟨c, hc, rfl⟩ := List.mem_map.1 hb
  split
  · exact h c hc
  · exact h c hc

theorem Aligned.coalesceList (h : Aligned bs) : Aligned (coalesceList bs) := by
  induction bs using Mm.coalesceList.induct with
  | case1 => simpa [Mm.coalesceList] using h
  | case2 b => simpa [Mm.coalesceList] using h
  | case3 b c bs hboth ih =>
    obtain ⟨hb, hc, hbs⟩ := aligned_cons.1 h |>.imp_right aligned_cons.1
    rw [Mm.coalesceList, if_pos hboth]
    refine ih (aligned_cons.2 ⟨⟨hb.1, ?_⟩, hbs⟩)
    simp only [blockHeader]
    omega
  | case4 b c bs hnot ih =>
    obtain ⟨hb, hbs⟩ := aligned_cons.1 h
    rw [Mm.coalesceList, if_neg hnot]
    exact aligned_cons.2 ⟨hb, ih hbs⟩

theorem roundUp16_mod (n : Nat) : roundUp16 n % 8 = 0 := by
  unfold roundUp16
  omega

end Lists

section Loops

variable {m m' : Mem} {bs : List Block} {p lo hi fuel n q : Nat}

/-- A chain starts at its first block, or nowhere. -/
theorem chain_start_le (hc : Chain m p bs) (ht : Tiles lo hi bs) : p ≤ hi := by
  cases bs with
  | nil =>
    rw [show p = 0 from hc]
    exact Nat.zero_le _
  | cons b bs =>
    obtain ⟨-, hstop⟩ := tiles_bounds ht List.mem_cons_self
    simp only [Block.stop] at hstop
    rw [hc.1]
    omega

/-- A block that is split ends below 2^32, and so does the one behind it. -/
theorem splitBlock_settles {b size : Nat} (hb : b % 8 = 0) (hn : n % 8 = 0) (hsize : blockSize m b = size)
    (hnext : blockNext m b ≤ hi) (hroom : n + blockHeader + 16 ≤ size)
    (hhi : b + blockHeader + size ≤ hi ∧ hi < 256 ^ 4) : Settles m (splitBlock m b n) := by
  simp only [blockHeader] at hroom hhi
  have hkept : ∀ v, blockNext ((m.write (b + blockHeader + n) 8 v).write (b + blockHeader + n + 8) 4 1) b =
      blockNext m b := by
    intro v
    simp (disch := (simp only [blockHeader]; omega)) only [blockNext, Mem.rd64, Mem.read_write_of_disjoint]
  unfold splitBlock
  simp only [hsize, hkept]
  simp only [blockHeader]
  have hnew := settles_write m (x := b + 24 + n) (n := 8) (v := (size + 2 ^ 64 - n - 24) % 2 ^ 64)
    (by omega) (by omega)
  have hflag := hnew.trans (settles_write _ (x := b + 24 + n + 8) (n := 4) (v := 1) (by omega)
    (by decide))
  have hlink := hflag.trans (settles_write _ (x := b + 24 + n + 16) (n := 8) (v := blockNext m b)
    (by omega) (by omega))
  have hcut := hlink.trans (settles_write _ (x := b) (n := 8) (v := n) hb (by omega))
  exact hcut.trans (settles_write _ (by omega) (by omega))

theorem kmallocLoop_settles (hc : Chain m p bs) (ht : Tiles lo hi bs) (hhi : hi < 256 ^ 4)
    (ha : Aligned bs) (hn : n % 8 = 0) (hrun : kmallocLoop n fuel m p = some (m', q)) : Settles m m' := by
  induction fuel generalizing p lo bs with
  | zero => cases hrun
  | succ fuel ih =>
    rw [kmallocLoop] at hrun
    split at hrun
    case isTrue =>
      cases hrun
      exact .refl m
    case isFalse hne =>
      cases bs with
      | nil => exact absurd hc hne
      | cons b bs =>
        obtain ⟨rfl, -, hsize, hfree, hrest⟩ := hc
        obtain ⟨rfl, ht⟩ := ht
        obtain ⟨⟨haddr, hmod⟩, hbs⟩ := aligned_cons.1 ha
        have hstop := tiles_le ht
        have hnext := chain_start_le hrest ht
        simp only [Block.stop, blockHeader] at hstop
        split at hrun
        case isFalse => exact ih hrest ht hbs hrun
        case isTrue hfit =>
          cases hrun
          rw [hsize] at hfit
          have hflag : ∀ M : Mem, Settles M (M.write (b.addr + 8) 4 0) := fun M =>
            settles_write M (by omega) (by decide)
          refine .trans ?_ (hflag _)
          split
          case isFalse => exact .refl m
          case isTrue hsplit =>
            rw [hsize] at hsplit
            simp only [blockHeader] at hsplit
            have hroom : n + blockHeader + 16 ≤ b.size := by
              simp only [blockHeader]
              omega
            exact splitBlock_settles haddr hn hsize hnext hroom ⟨hstop, hhi⟩

theorem coalesceLoop_settles (hc : Chain m p bs) (ht : Tiles lo hi bs) (hhi : hi < 256 ^ 4)
    (ha : Aligned bs) (hrun : coalesceLoop fuel m p = some m') : Settles m m' := by
  induction fuel generalizing m p lo bs with
  | zero => cases hrun
  | succ fuel ih =>
    rw [coalesceLoop] at hrun
    split at hrun
    case isTrue =>
      cases hrun
      exact .refl _
    case isFalse hne =>
      cases bs with
      | nil => exact absurd hc hne
      | cons b bs =>
        have hc₀ := hc
        obtain ⟨rfl, -, -, hfree, hrest⟩ := hc
        obtain ⟨rfl, ht'⟩ := id ht
        split at hrun
        case isFalse => exact ih hrest ht' (aligned_cons.1 ha).2 hrun
        case isTrue hboth =>
          obtain ⟨hb, hnext, hfree'⟩ := hboth
          cases bs with
          | nil => exact absurd hrest hnext
          | cons c bs =>
            obtain ⟨hnext', -, -, hfreec, hrest⟩ := hrest
            rw [hnext'] at hfree'
            rw [hnext'] at hfreec hrest
            obtain ⟨hmerge, hchain, htiles⟩ := mergeNext_chain hc₀ ht (by omega)
              ⟨hfree.symm.trans hb, hfreec.symm.trans hfree'⟩
            obtain ⟨⟨haddr, hmod⟩, ⟨haddr', hmod'⟩, hbs⟩ := aligned_cons.1 ha |>.imp_right aligned_cons.1
            have hlast := chain_start_le hrest ht'.2
            obtain ⟨-, hstop⟩ := tiles_bounds htiles List.mem_cons_self
            simp only [Block.stop, blockHeader] at hstop
            refine .trans ?_ (ih hchain htiles (aligned_cons.2 ⟨⟨haddr, ?_⟩, hbs⟩) hrun)
            · rw [hmerge]
              refine .trans (settles_write _ haddr ?_) (settles_write _ ?_ ?_)
              · simp only [blockHeader]
                omega
              · omega
              · omega
            · simp only [blockHeader]
              omega

end Loops

section Client

variable {h h' : Heap} {live : List Alloc} {a : Alloc} {n q : Nat}

theorem Holds.kmalloc_settles (hh : Holds h live) (ha : Aligned h.blocks)
    (hrun : Mm.kmalloc h n = some (h', q)) : Aligned h'.blocks ∧ Settles h.mem h'.mem := by
  obtain ⟨bs, hinv⟩ := hh
  rw [hinv.blocks_eq] at ha
  have hblocks := hinv.kmalloc n
  refine ⟨?_, ?_⟩
  · cases hm : mallocList (roundUp16 n) bs with
    | none =>
      rw [hm] at hblocks
      obtain ⟨rfl, -⟩ := Prod.mk.inj (Option.some.inj (hblocks.symm.trans hrun))
      rw [hinv.blocks_eq]
      exact ha
    | some r =>
      obtain ⟨bs', p⟩ := r
      rw [hm] at hblocks
      obtain ⟨m', hk, hchain, -⟩ := hblocks
      obtain ⟨rfl, -⟩ := Prod.mk.inj (Option.some.inj (hk.symm.trans hrun))
      have hlength := tiles_length (mallocList_tiles hinv.tiles hm)
      have hlen : bs'.length < heapSize := by
        simp only [blockHeader, heapSize] at hlength ⊢
        omega
      rw [show Heap.blocks { h with mem := m' } = bs' from walkBlocks_of_chain hchain hlen]
      exact ha.mallocList (roundUp16_mod n) hm
  · obtain ⟨⟨m', p⟩, hloop, heq⟩ := Option.map_eq_some_iff.1 hrun
    cases heq
    exact kmallocLoop_settles hinv.chain hinv.tiles (by decide) ha (roundUp16_mod n) hloop

theorem Holds.kfree_settles (hh : Holds h live) (ha : Aligned h.blocks) (hlive : a ∈ live)
    (hrun : Mm.kfree h a.ptr = some h') : Aligned h'.blocks ∧ Settles h.mem h'.mem := by
  obtain ⟨bs, hinv⟩ := hh
  rw [hinv.blocks_eq] at ha
  obtain ⟨b, hb, -, hptr, -⟩ := hinv.live_block a hlive
  have hmark := markFree_chain hinv.chain hinv.tiles ⟨b, hb, hptr.symm⟩
  have haligned := ha.markFree a.ptr
  obtain ⟨m', hk, hchain, -⟩ := hinv.kfree hlive
  obtain rfl := Option.some.inj (hk.symm.trans hrun)
  refine ⟨?_, ?_⟩
  · have htiles := coalesceList_tiles (markFree_tiles (q := a.ptr) hinv.tiles)
    have hlength := tiles_length htiles
    have hlen : (coalesceList (markFree a.ptr bs)).length < heapSize := by
      simp only [blockHeader, heapSize] at hlength ⊢
      omega
    rw [show Heap.blocks { h with mem := m' } = _ from walkBlocks_of_chain hchain hlen]
    exact haligned.coalesceList
  · have hne : a.ptr ≠ 0 := by
      rw [hptr]
      simp [Block.payload, blockHeader]
    unfold Mm.kfree at hrun
    rw [if_neg hne] at hrun
    obtain ⟨m'', hloop, heq⟩ := Option.map_eq_some_iff.1 hrun
    cases heq
    refine .trans (settles_write h.mem ?_ (by decide))
      (coalesceLoop_settles hmark (markFree_tiles hinv.tiles) (by decide) haligned hloop)
    have haddr := (ha b hb).1
    rw [hptr, Block.payload, Nat.add_sub_cancel]
    omega

/-- Stores into a block in use leave the list of blocks as it is. -/
theorem Holds.store_blocks {m : Mem} (hh : Holds h live) (hlive : a ∈ live)
    (hkept : ∀ i, i < a.ptr ∨ a.ptr + a.granted ≤ i → m i = h.mem i) :
    Heap.blocks { h with mem := m } = h.blocks := by
  obtain ⟨bs, hinv⟩ := hh
  exact (hinv.frame hlive hkept).blocks_eq.trans hinv.blocks_eq.symm

theorem Holds.granted_eq (hh : Holds h live) (hlive : a ∈ live) :
    blockSize h.mem (a.ptr - blockHeader) = a.granted := by
  obtain ⟨bs, hinv⟩ := hh
  obtain ⟨b, hb, -, hptr, hgr⟩ := hinv.live_block a hlive
  rw [hptr, hgr, Block.payload, Nat.add_sub_cancel]
  exact chain_mem hinv.chain hb

theorem Holds.ptr_mod (hh : Holds h live) (ha : Aligned h.blocks) (hlive : a ∈ live) : a.ptr % 8 = 0 := by
  obtain ⟨bs, hinv⟩ := hh
  obtain ⟨b, hb, -, hptr, -⟩ := hinv.live_block a hlive
  rw [hinv.blocks_eq] at ha
  have haddr := (ha b hb).1
  rw [hptr, Block.payload, blockHeader]
  omega

theorem Holds.length_lt (hh : Holds h live) : live.length < heapSize := by
  obtain ⟨bs, hinv⟩ := hh
  have hnodup : (live.map Alloc.ptr).Nodup := List.pairwise_map.2 hinv.ptr_inj
  have hsub : live.map Alloc.ptr ⊆ bs.map Block.payload := by
    intro p hp
    obtain ⟨a, ha, rfl⟩ := List.mem_map.1 hp
    obtain ⟨b, hb, -, hptr, -⟩ := hinv.live_block a ha
    exact List.mem_map.2 ⟨b, hb, hptr.symm⟩
  have hlength := hnodup.length_le_of_subset hsub
  rw [List.length_map, List.length_map] at hlength
  exact hlength.trans_lt hinv.length_lt

end Client

theorem heapRun_aligned {mem : Mem} {w : World} (hrun : HeapRun mem HeapOp.Rounds w) :
    Holds w.heap w.live ∧ Aligned w.heap.blocks := by
  apply Reach.invariant hrun
  · rintro w rfl
    have hinv := heapInit_inv mem
    refine ⟨⟨_, hinv⟩, ?_⟩
    rw [hinv.blocks_eq]
    simp only [Aligned, initialBlocks, List.mem_singleton, forall_eq]
    exact ⟨by decide, by decide⟩
  · rintro w op w' ⟨hh, ha⟩ hop hstep
    have hholds : Holds w'.heap w'.live := by
      obtain ⟨bs, hinv⟩ := hh
      exact heapStep_inv hinv hop hstep
    refine ⟨hholds, ?_⟩
    cases op with
    | kmalloc n =>
      simp only [heapStep] at hstep
      split at hstep
      case isFalse => cases hstep
      case isTrue =>
        obtain ⟨r, hr, rfl⟩ := Option.map_eq_some_iff.1 hstep
        split
        · exact (hh.kmalloc_settles ha hr).1
        · exact (hh.kmalloc_settles ha hr).1
    | kfree p =>
      simp only [heapStep] at hstep
      split at hstep
      case isFalse => cases hstep
      case isTrue hlive =>
        obtain ⟨a, hlive, rfl⟩ := hlive
        obtain ⟨h', hr, rfl⟩ := Option.map_eq_some_iff.1 hstep
        exact (hh.kfree_settles ha hlive hr).1
    | store i v =>
      simp only [heapStep] at hstep
      split at hstep
      case isFalse => cases hstep
      case isTrue hheld =>
        obtain ⟨a, hlive, hlo, hhi⟩ := hheld
        cases hstep
        dsimp only
        rw [hh.store_blocks hlive fun j hj => Mem.write_outside _ _ (by omega)]
        exact ha

end MeuOS.Mm
