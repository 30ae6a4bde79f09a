import MeuOS.Mm.HeapRuns
import Mathlib.Data.List.Pairwise

/-! What the clients of the heap go by: a block in use keeps its bytes while others come and go. -/
namespace MeuOS.Mm

open MeuOS.Lib

/-- A sound heap with these blocks in use. -/
def Holds (h : Heap) (live : List Alloc) : Prop := ∃ bs, HeapInv ⟨h, live⟩ bs

/-- The bytes of the block are the same. -/
def Alloc.Kept (a : Alloc) (m m' : Mem) : Prop := Mem.Agree m m' a.ptr (a.ptr + a.granted)

section Client

variable {h : Heap} {live : List Alloc} {a c : Alloc}

theorem Holds.apart (hh : Holds h live) (ha : a ∈ live) (hc : c ∈ live) (hne : a.ptr ≠ c.ptr) :
    a.ptr + a.granted ≤ c.ptr ∨ c.ptr + c.granted ≤ a.ptr := by
  obtain ⟨bs, hinv⟩ := hh
  obtain ⟨b, hb, -, hptr, hgr⟩ := hinv.live_block a ha
  obtain ⟨b', hb', -, hptr', hgr'⟩ := hinv.live_block c hc
  have hsep := tiles_separate hinv.tiles hb hb'
  simp only [Block.payload, Block.stop] at *
  rcases hsep with rfl | hsep
  · exact absurd (hptr.trans hptr'.symm) hne
  · omega

theorem Holds.bounds (hh : Holds h live) (ha : a ∈ live) :
    heapBase + blockHeader ≤ a.ptr ∧ a.ptr + a.granted ≤ heapBase + heapSize := by
  obtain ⟨bs, hinv⟩ := hh
  obtain ⟨b, hb, -, hptr, hgr⟩ := hinv.live_block a ha
  have hbounds := tiles_bounds hinv.tiles hb
  simp only [Block.payload, Block.stop] at *
  omega

/-- Bytes outside all headers of a list that has the block in use. -/
theorem kept_of_payloadKept {w : World} {bs : List Block} {m m' : Mem} (hinv : HeapInv w bs)
    (hkept : PayloadKept m m' bs) (ha : a ∈ w.live) : a.Kept m m' := by
  obtain ⟨b, hb, -, hptr, hgr⟩ := hinv.live_block a ha
  intro i hlo hhi
  refine (hkept i fun c hc => ?_).symm
  have hsep := tiles_separate hinv.tiles hb hc
  simp only [Block.payload, Block.stop] at *
  rcases hsep with rfl | hsep <;> omega

/-- `kmalloc` fails and changes nothing, or adds a block. -/
theorem Holds.kmalloc {n : Nat} (hh : Holds h live) (hfits : n + 15 < 2 ^ 64) :
    Mm.kmalloc h n = some (h, 0) ∨ ∃ m' a, Mm.kmalloc h n = some ({ h with mem := m' }, a.ptr) ∧
      a.ptr ≠ 0 ∧ n ≤ a.granted ∧ (∀ c ∈ live, c.ptr ≠ a.ptr) ∧
      Holds { h with mem := m' } (a :: live) ∧ ∀ c ∈ live, c.Kept h.mem m' := by
  obtain ⟨bs, hinv⟩ := hh
  have hrun := hinv.kmalloc n
  have hn : n < 2 ^ 64 := by omega
  cases hm : mallocList (roundUp16 n) bs with
  | none =>
    rw [hm] at hrun
    exact .inl hrun
  | some r =>
    obtain ⟨bs', q⟩ := r
    rw [hm] at hrun
    obtain ⟨m', hk, -, hkept⟩ := hrun
    obtain ⟨b, -, -, -, -, hq, -⟩ := mallocList_used hm
    have hne : q ≠ 0 := by
      rw [hq]
      simp [Block.payload, blockHeader]
    have hstep : heapStep ⟨h, live⟩ (.kmalloc n) =
        some ⟨{ h with mem := m' }, ⟨q, n, blockSize m' (q - blockHeader)⟩ :: live⟩ := by
      simp only [heapStep, if_pos hn, hk, Option.map_some, if_neg hne]
    obtain ⟨bs'', hinv'⟩ := kmalloc_inv hinv hfits hstep
    -- the list behind the new headers is the one the headers spell
    have hchain' : bs'' = bs' := by
      have hblocks := hinv.kmalloc n
      rw [hm] at hblocks
      obtain ⟨m'', hk', hchain, -⟩ := hblocks
      rw [hk] at hk'
      cases hk'
      have hlen : bs'.length < heapSize := by
        have hlength := tiles_length (mallocList_tiles hinv.tiles hm)
        simp only [blockHeader, heapSize] at hlength ⊢
        omega
      exact (walkBlocks_of_chain hinv'.chain hinv'.length_lt).symm.trans
        (walkBlocks_of_chain hchain hlen)
    refine .inr ⟨m', ⟨q, n, blockSize m' (q - blockHeader)⟩, hk, hne, hinv'.room _ List.mem_cons_self,
      fun c hc => ((List.pairwise_cons.1 hinv'.ptr_inj).1 c hc).symm, ⟨bs'', hinv'⟩, fun c hc => ?_⟩
    exact kept_of_payloadKept hinv' (hchain' ▸ hkept) (List.mem_cons_of_mem _ hc)

/-- `kfree` of a block in use takes it away and leaves the others. -/
theorem Holds.kfree (hh : Holds h live) (ha : a ∈ live) :
    ∃ m', Mm.kfree h a.ptr = some { h with mem := m' } ∧
      Holds { h with mem := m' } (live.filter fun c => c.ptr != a.ptr) ∧
      ∀ c ∈ live, c.Kept h.mem m' := by
  obtain ⟨bs, hinv⟩ := hh
  obtain ⟨m', hk, -, hkept⟩ := hinv.kfree ha
  have hstep : heapStep ⟨h, live⟩ (.kfree a.ptr) =
      some ⟨{ h with mem := m' }, live.filter fun c => c.ptr != a.ptr⟩ := by
    have hheld : ∃ c ∈ live, c.ptr = a.ptr := ⟨a, ha, rfl⟩
    simp only [heapStep, if_pos hheld, hk, Option.map_some]
  obtain ⟨bs', hinv'⟩ := kfree_inv hinv hstep
  exact ⟨m', hk, ⟨bs', hinv'⟩, fun c hc => kept_of_payloadKept hinv hkept hc⟩

/-- Stores into a block in use. -/
theorem Holds.store {m : Mem} (hh : Holds h live) (ha : a ∈ live)
    (hkept : ∀ i, i < a.ptr ∨ a.ptr + a.granted ≤ i → m i = h.mem i) :
    Holds { h with mem := m } live ∧ ∀ c ∈ live, c.ptr ≠ a.ptr → c.Kept h.mem m := by
  refine ⟨?_, fun c hc hne i hlo hhi => ?_⟩
  · obtain ⟨bs, hinv⟩ := hh
    exact ⟨bs, hinv.frame ha hkept⟩
  · have hsep := hh.apart hc ha hne
    exact (hkept i (by omega)).symm

end Client

/-! `kmalloc` turn by turn: the search for a block, and the stores that take it. -/

/-- What `kmalloc` writes once it has found a block. -/
def takeBlock (m : Mem) (b n : Nat) : Mem :=
  let m := if (n + blockHeader + 16) % 2 ^ 64 ≤ blockSize m b then splitBlock m b n else m
  m.write (b + 8) 4 0

section

variable {w : World} {bs : List Block} {a : Alloc} {live : List Alloc} {m m' : Mem} {n b p : Nat}

theorem HeapInv.perm (h : HeapInv w bs) (hp : w.live.Perm live) : HeapInv { w with live := live } bs where
  head := h.head
  chain := h.chain
  tiles := h.tiles
  coalesced := h.coalesced
  live_block := fun a ha => h.live_block a (hp.mem_iff.mpr ha)
  block_live := fun b hb hfree => by
    obtain ⟨a, ha, hptr⟩ := h.block_live b hb hfree
    exact ⟨a, hp.mem_iff.mp ha, hptr⟩
  ptr_inj := hp.pairwise h.ptr_inj fun hne => hne.symm
  room := fun a ha => h.room a (hp.mem_iff.mpr ha)

theorem HeapInv.granted (h : HeapInv w bs) (ha : a ∈ w.live) :
    blockSize w.heap.mem (a.ptr - blockHeader) = a.granted := by
  obtain ⟨b, hb, -, hptr, hgr⟩ := h.live_block a ha
  rw [hptr, hgr, Block.payload, Nat.add_sub_cancel]
  exact chain_mem h.chain hb

/-- Where the loop of `kmalloc` is, the blocks before it do not do. -/
structure Searching (m : Mem) (n : Nat) (bs : List Block) (b : Nat) (suf : List Block) : Prop where
  passed : ∃ pre, bs = pre ++ suf ∧ ∀ c ∈ pre, ¬ (c.free = true ∧ n ≤ c.size)
  here : Chain m b suf

theorem chain_start {suf : List Block} (h : Chain m p suf) (h' : Chain m b suf) : p = b := by
  cases suf with
  | nil => exact Eq.trans h (Eq.symm h')
  | cons c suf => exact h.1.trans h'.1.symm

theorem kmallocLoop_skip {pre suf : List Block} (fuel : Nat) (h : Chain m p (pre ++ suf)) (hb : Chain m b suf)
    (hpassed : ∀ c ∈ pre, ¬ (c.free = true ∧ n ≤ c.size)) :
    kmallocLoop n (pre.length + fuel) m p = kmallocLoop n fuel m b := by
  induction pre generalizing p with
  | nil => rw [List.length_nil, Nat.zero_add, chain_start h hb]
  | cons c pre ih =>
    obtain ⟨rfl, hne, hsize, hfree, hrest⟩ := h
    rw [List.length_cons, show pre.length + 1 + fuel = pre.length + fuel + 1 by omega, kmallocLoop, if_neg hne, hfree,
      hsize, if_neg (hpassed c List.mem_cons_self)]
    exact ih hrest fun c hc => hpassed c (List.mem_cons_of_mem _ hc)

/-- A search that has come to a block that does ends as an undisturbed `kmalloc` does. -/
theorem kmalloc_take {c : Block} {suf : List Block} (h : HeapInv w bs) (hround : roundUp16 n = n)
    (hs : Searching w.heap.mem n bs b (c :: suf)) (hfree : c.free = true) (hsize : n ≤ c.size) :
    kmalloc w.heap n = some ({ w.heap with mem := takeBlock w.heap.mem b n }, b + blockHeader) := by
  obtain ⟨pre, rfl, hpassed⟩ := hs.passed
  obtain ⟨rfl, hne, hsz, hfr, -⟩ := hs.here
  have hlen := h.length_lt
  rw [List.length_append, List.length_cons] at hlen
  obtain ⟨fuel, hfuel⟩ : ∃ fuel, heapSize = pre.length + (fuel + 1) := ⟨heapSize - pre.length - 1, by omega⟩
  have hfit : blockFree w.heap.mem c.addr = true ∧ n ≤ blockSize w.heap.mem c.addr := by
    rw [hfr, hsz]
    exact ⟨hfree, hsize⟩
  unfold kmalloc
  rw [hround, hfuel, kmallocLoop_skip _ h.chain hs.here hpassed, kmallocLoop, if_neg hne, if_pos hfit]
  rfl

theorem Searching.start (h : HeapInv w bs) : Searching w.heap.mem n bs w.heap.sHead bs :=
  ⟨⟨[], rfl, nofun⟩, h.chain⟩

theorem Searching.next {c : Block} {suf : List Block} (h : Searching m n bs b (c :: suf))
    (hnot : ¬ (c.free = true ∧ n ≤ c.size)) : Searching m n bs (blockNext m b) suf := by
  obtain ⟨pre, rfl, hpassed⟩ := h.passed
  refine ⟨⟨pre ++ [c], by rw [List.append_assoc, List.singleton_append], fun d hd => ?_⟩, h.here.2.2.2.2⟩
  rcases List.mem_append.mp hd with hd | hd
  · exact hpassed d hd
  · exact List.mem_singleton.mp hd ▸ hnot

theorem Searching.frame {suf : List Block} (h : Searching m n bs b suf)
    (hagree : ∀ c ∈ bs, Mem.Agree m m' c.addr (c.addr + blockHeader)) : Searching m' n bs b suf := by
  refine ⟨h.passed, chain_congr h.here fun c hc => hagree c ?_⟩
  obtain ⟨pre, rfl, -⟩ := h.passed
  exact List.mem_append_right _ hc

end

end MeuOS.Mm
