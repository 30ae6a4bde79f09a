import MeuOS.Lib.Mem
import MeuOS.Lib.Run
import Mathlib.Data.List.Basic

/-! The kernel heap: a first-fit allocator whose block list lives in the memory it
manages. `block_t` is `{ size_t size; int free; block_t *next }`, 24 bytes, and
the payload follows its header. The pointer-level code refines a list of blocks,
and the representation invariant is stated on that list. -/
namespace MeuOS.Mm

open MeuOS.Lib

def heapBase : Nat := 0x2000000
def heapSize : Nat := 0x1000000

/-- `sizeof(block_t)`. -/
def blockHeader : Nat := 24

def blockSize (m : Mem) (b : Nat) : Nat := m.rd64 b
def blockFree (m : Mem) (b : Nat) : Bool := m.rd32 (b + 8) != 0
def blockNext (m : Mem) (b : Nat) : Nat := m.rd64 (b + 16)

structure Heap where
  mem : Mem
  sHead : Nat

def heapInit (mem : Mem) : Heap where
  mem := ((mem.write heapBase 8 (heapSize - blockHeader)).write (heapBase + 8) 4 1).write
    (heapBase + 16) 8 0
  sHead := heapBase

/-- `(n + 15) & ~15` in `size_t`: the sum wraps before the low bits are cleared. -/
def roundUp16 (n : Nat) : Nat := (n + 15) % 2 ^ 64 / 16 * 16

/-- The rest of `b` behind an `n`-byte payload becomes a free block of its own. -/
def splitBlock (m : Mem) (b n : Nat) : Mem :=
  let nb := b + blockHeader + n
  let m := m.write nb 8 ((blockSize m b + 2 ^ 64 - n - blockHeader) % 2 ^ 64)
  let m := m.write (nb + 8) 4 1
  let m := m.write (nb + 16) 8 (blockNext m b)
  let m := m.write b 8 n
  m.write (b + 16) 8 nb

/-- The search of `kmalloc`; `none` only when the fuel ends before the list does. -/
def kmallocLoop (n : Nat) : Nat → Mem → Nat → Option (Mem × Nat)
  | 0, _, _ => none
  | fuel + 1, m, b =>
      if b = 0 then some (m, 0)
      else if blockFree m b = true ∧ n ≤ blockSize m b then
        let m := if (n + blockHeader + 16) % 2 ^ 64 ≤ blockSize m b then splitBlock m b n else m
        some (m.write (b + 8) 4 0, b + blockHeader)
      else kmallocLoop n fuel m (blockNext m b)

def kmalloc (h : Heap) (n : Nat) : Option (Heap × Nat) :=
  (kmallocLoop (roundUp16 n) heapSize h.mem h.sHead).map fun r => ({ h with mem := r.1 }, r.2)

/-- `c` absorbs the block behind it. -/
def mergeNext (m : Mem) (c : Nat) : Mem :=
  let nx := blockNext m c
  let m := m.write c 8 ((blockSize m c + (blockHeader + blockSize m nx)) % 2 ^ 64)
  m.write (c + 16) 8 (blockNext m nx)

/-- The two nested loops of `kfree`: stay on `c` while it can absorb its successor,
then move on. -/
def coalesceLoop : Nat → Mem → Nat → Option Mem
  | 0, _, _ => none
  | fuel + 1, m, c =>
      if c = 0 then some m
      else if blockFree m c = true ∧ blockNext m c ≠ 0 ∧ blockFree m (blockNext m c) = true then
        coalesceLoop fuel (mergeNext m c) c
      else coalesceLoop fuel m (blockNext m c)

def kfree (h : Heap) (p : Nat) : Option Heap :=
  if p = 0 then some h
  else (coalesceLoop heapSize (h.mem.write (p - blockHeader + 8) 4 1) h.sHead).map
    fun m => { h with mem := m }

/-! ## The block list -/

structure Block where
  addr : Nat
  size : Nat
  free : Bool
  deriving DecidableEq, Repr

def Block.payload (b : Block) : Nat := b.addr + blockHeader
def Block.stop (b : Block) : Nat := b.addr + blockHeader + b.size

/-- The blocks a pointer chain passes through, in order. -/
def walkBlocks (m : Mem) : Nat → Nat → List Block
  | 0, _ => []
  | fuel + 1, p =>
      if p = 0 then [] else ⟨p, blockSize m p, blockFree m p⟩ :: walkBlocks m fuel (blockNext m p)

def Heap.blocks (h : Heap) : List Block := walkBlocks h.mem heapSize h.sHead

/-- The chain of headers starting at `p` spells out `bs`. -/
def Chain (m : Mem) : Nat → List Block → Prop
  | p, [] => p = 0
  | p, b :: bs => p = b.addr ∧ p ≠ 0 ∧ blockSize m p = b.size ∧ blockFree m p = b.free ∧
      Chain m (blockNext m p) bs

/-- The blocks fill `[lo, hi)`, each starting where the payload before it ends. -/
def Tiles : Nat → Nat → List Block → Prop
  | lo, hi, [] => lo = hi
  | lo, hi, b :: bs => b.addr = lo ∧ Tiles b.stop hi bs

/-- No two neighbours are both free. -/
def Coalesced (bs : List Block) : Prop := bs.IsChain fun b c => ¬(b.free = true ∧ c.free = true)

/-- First fit on the list. -/
def mallocList (n : Nat) : List Block → Option (List Block × Nat)
  | [] => none
  | b :: bs =>
      if b.free = true ∧ n ≤ b.size then
        if n + blockHeader + 16 ≤ b.size then
          some (⟨b.addr, n, false⟩ :: ⟨b.payload + n, b.size - n - blockHeader, true⟩ :: bs, b.payload)
        else some (⟨b.addr, b.size, false⟩ :: bs, b.payload)
      else (mallocList n bs).map fun r => (b :: r.1, r.2)

def coalesceList : List Block → List Block
  | [] => []
  | [b] => [b]
  | b :: c :: bs =>
      if b.free = true ∧ c.free = true then
        coalesceList (⟨b.addr, b.size + (blockHeader + c.size), true⟩ :: bs)
      else b :: coalesceList (c :: bs)
  termination_by l => l.length

def markFree (p : Nat) (bs : List Block) : List Block :=
  bs.map fun b => if b.payload = p then { b with free := true } else b

/-- A header is read from its own 24 bytes. -/
theorem header_congr {m m' : Mem} {p : Nat} (h : Mem.Agree m m' p (p + blockHeader)) :
    blockSize m' p = blockSize m p ∧ blockFree m' p = blockFree m p ∧
      blockNext m' p = blockNext m p := by
  simp only [blockHeader] at h
  have hword : m'.rd32 (p + 8) = m.rd32 (p + 8) :=
    Mem.read_congr (h.mono (by omega) (by omega)).symm
  refine ⟨Mem.read_congr (h.mono (by omega) (by omega)).symm, ?_,
    Mem.read_congr (h.mono (by omega) (by omega)).symm⟩
  rw [blockFree, blockFree, hword]

theorem chain_congr {m m' : Mem} {bs : List Block} {p : Nat} (h : Chain m p bs)
    (hagree : ∀ b ∈ bs, Mem.Agree m m' b.addr (b.addr + blockHeader)) : Chain m' p bs := by
  induction bs generalizing p with
  | nil => exact h
  | cons b bs ih =>
    obtain ⟨rfl, hne, hsize, hfree, hrest⟩ := h
    obtain ⟨hsize', hfree', hnext'⟩ := header_congr (hagree b (List.mem_cons_self ..))
    refine ⟨rfl, hne, hsize'.trans hsize, hfree'.trans hfree, ?_⟩
    rw [hnext']
    exact ih hrest fun c hc => hagree c (List.mem_cons_of_mem _ hc)

theorem chain_mem {m : Mem} {bs : List Block} {p : Nat} (h : Chain m p bs) {b : Block}
    (hb : b ∈ bs) : blockSize m b.addr = b.size := by
  induction bs generalizing p with
  | nil => cases hb
  | cons c bs ih =>
    obtain ⟨rfl, -, hsize, -, hrest⟩ := h
    cases hb with
    | head => exact hsize
    | tail _ hb => exact ih hrest hb

theorem tiles_le {bs : List Block} {lo hi : Nat} (h : Tiles lo hi bs) : lo ≤ hi := by
  induction bs generalizing lo with
  | nil => exact Nat.le_of_eq h
  | cons b bs ih =>
    obtain ⟨rfl, hrest⟩ := h
    have := ih hrest
    simp only [Block.stop] at this
    omega

theorem tiles_bounds {bs : List Block} {lo hi : Nat} (h : Tiles lo hi bs) {b : Block}
    (hb : b ∈ bs) : lo ≤ b.addr ∧ b.stop ≤ hi := by
  induction bs generalizing lo with
  | nil => cases hb
  | cons c bs ih =>
    obtain ⟨rfl, hrest⟩ := h
    rcases List.mem_cons.mp hb with rfl | hb
    · exact ⟨Nat.le_refl _, tiles_le hrest⟩
    · have := ih hrest hb
      simp only [Block.stop] at this ⊢
      omega

theorem tiles_length {bs : List Block} {lo hi : Nat} (h : Tiles lo hi bs) :
    lo + blockHeader * bs.length ≤ hi := by
  induction bs generalizing lo with
  | nil => simpa using tiles_le h
  | cons b bs ih =>
    obtain ⟨rfl, hrest⟩ := h
    have := ih hrest
    simp only [Block.stop, blockHeader, List.length_cons] at this ⊢
    omega

/-- Two blocks of the tiling are the same or one lies wholly before the other. -/
theorem tiles_separate {bs : List Block} {lo hi : Nat} (h : Tiles lo hi bs) {b c : Block}
    (hb : b ∈ bs) (hc : c ∈ bs) : b = c ∨ b.stop ≤ c.addr ∨ c.stop ≤ b.addr := by
  induction bs generalizing lo with
  | nil => cases hb
  | cons d bs ih =>
    obtain ⟨rfl, hrest⟩ := h
    rcases List.mem_cons.mp hb with hb' | hb' <;> rcases List.mem_cons.mp hc with hc' | hc'
    · exact .inl (hb'.trans hc'.symm)
    · exact .inr (.inl (hb' ▸ (tiles_bounds hrest hc').1))
    · exact .inr (.inr (hc' ▸ (tiles_bounds hrest hb').1))
    · exact ih hrest hb' hc'

theorem tiles_payload_inj {bs : List Block} {lo hi : Nat} (h : Tiles lo hi bs) {b c : Block}
    (hb : b ∈ bs) (hc : c ∈ bs) (hpay : b.payload = c.payload) : b = c := by
  have hsep := tiles_separate h hb hc
  simp only [Block.stop, Block.payload, blockHeader] at hsep hpay
  exact hsep.resolve_right (by omega)

theorem walkBlocks_of_chain {m : Mem} {bs : List Block} {p fuel : Nat} (h : Chain m p bs)
    (hfuel : bs.length < fuel) : walkBlocks m fuel p = bs := by
  induction bs generalizing p fuel with
  | nil =>
    obtain ⟨fuel, rfl⟩ : ∃ k, fuel = k + 1 := ⟨fuel - 1, by omega⟩
    obtain rfl : p = 0 := h
    simp [walkBlocks]
  | cons b bs ih =>
    obtain ⟨fuel, rfl⟩ : ∃ k, fuel = k + 1 := ⟨fuel - 1, by omega⟩
    obtain ⟨rfl, hne, hsize, hfree, hrest⟩ := h
    simp only [List.length_cons] at hfuel
    rw [walkBlocks, if_neg hne, ih hrest (by omega), hsize, hfree]

/-! ## `kmalloc` refines first fit on the list -/

theorem mallocList_tiles {n : Nat} {bs bs' : List Block} {lo hi q : Nat} (h : Tiles lo hi bs)
    (hm : mallocList n bs = some (bs', q)) : Tiles lo hi bs' := by
  induction bs generalizing lo bs' with
  | nil => cases hm
  | cons b bs ih =>
    obtain ⟨rfl, hrest⟩ := h
    simp only [mallocList] at hm
    split at hm
    · split at hm
      · cases hm
        refine ⟨rfl, rfl, ?_⟩
        convert hrest using 1
        simp only [Block.stop, Block.payload, blockHeader] at *
        omega
      · cases hm
        exact ⟨rfl, hrest⟩
    · obtain ⟨⟨bs₁, q₁⟩, hrec, heq⟩ := Option.map_eq_some_iff.mp hm
      cases heq
      exact ⟨rfl, ih hrest hrec⟩

/-- Bytes outside every header of `bs` are untouched. -/
def PayloadKept (m m' : Mem) (bs : List Block) : Prop :=
  ∀ i, (∀ b ∈ bs, i < b.addr ∨ b.addr + blockHeader ≤ i) → m' i = m i

theorem splitBlock_chain {m : Mem} {b : Block} {bs : List Block} {n hi : Nat}
    (hc : Chain m b.addr (b :: bs)) (ht : Tiles b.stop hi bs) (hi64 : hi < 2 ^ 64)
    (hroom : n + blockHeader + 16 ≤ b.size) :
    Chain ((splitBlock m b.addr n).write (b.addr + 8) 4 0) b.addr
        (⟨b.addr, n, false⟩ :: ⟨b.payload + n, b.size - n - blockHeader, true⟩ :: bs) := by
  obtain ⟨-, hne, hsize, hfree, hrest⟩ := hc
  have hstop := tiles_le ht
  simp only [Block.stop, blockHeader] at hstop hroom
  have hkeep : Mem.Agree m ((splitBlock m b.addr n).write (b.addr + 8) 4 0) b.stop hi := by
    intro i hlo _
    simp only [Block.stop, blockHeader] at hlo
    simp (disch := omega) only [splitBlock, blockHeader, Mem.write_outside]
  simp only [blockSize, Mem.rd64] at hsize
  refine ⟨rfl, hne, ?_, ?_, ?_, ?_, ?_, ?_, ?_⟩
  case refine_7 =>
    have hnext : blockNext ((splitBlock m b.addr n).write (b.addr + 8) 4 0)
        (blockNext ((splitBlock m b.addr n).write (b.addr + 8) 4 0) b.addr) =
          blockNext m b.addr := by
      have hlt := m.rd64_lt (b.addr + 16)
      simp (disch := omega) only [splitBlock, blockNext, blockHeader, Mem.rd64,
        Mem.read_write_of_disjoint, Mem.read_write_of_lt]
    rw [hnext]
    refine chain_congr hrest fun c hc => ?_
    have hcb := tiles_bounds ht hc
    exact hkeep.mono hcb.1 (by simp only [Block.stop] at hcb; omega)
  all_goals
    simp (disch := omega) only [splitBlock, blockSize, blockFree, blockNext, Block.payload,
      blockHeader, Mem.rd64, Mem.rd32, hsize, Mem.read_write_of_disjoint, Mem.read_write_of_lt]
  · rfl
  · omega
  · omega
  · rfl

theorem take_chain {m : Mem} {b : Block} {bs : List Block} {hi : Nat}
    (hc : Chain m b.addr (b :: bs)) (ht : Tiles b.stop hi bs) :
    Chain (m.write (b.addr + 8) 4 0) b.addr (⟨b.addr, b.size, false⟩ :: bs) := by
  obtain ⟨-, hne, hsize, hfree, hrest⟩ := hc
  simp only [blockSize, Mem.rd64] at hsize
  refine ⟨rfl, hne, ?_, ?_, ?_⟩
  case refine_3 =>
    have hnext : blockNext (m.write (b.addr + 8) 4 0) b.addr = blockNext m b.addr := by
      simp (disch := omega) only [blockNext, Mem.rd64, Mem.read_write_of_disjoint]
    rw [hnext]
    refine chain_congr hrest fun c hc => ?_
    have hcb := tiles_bounds ht hc
    simp only [Block.stop, blockHeader] at hcb
    exact (Mem.agree_write m 0 (by omega)).symm
  · simp (disch := omega) only [blockSize, Mem.rd64, Mem.read_write_of_disjoint, hsize]
  · simp (disch := omega) only [blockFree, Mem.rd32, Mem.read_write_of_lt]
    rfl

/-- A change confined to headers behind `b` keeps `b` at the head of the chain. -/
theorem chain_cons_of_tail {m m' : Mem} {b : Block} {bs bs' bs'' : List Block} {p lo hi : Nat}
    (hc : Chain m p (b :: bs)) (hc' : Chain m' (blockNext m p) bs') (ht : Tiles lo hi bs'')
    (hlo : b.stop ≤ lo) (hkept : PayloadKept m m' bs'') : Chain m' p (b :: bs') := by
  obtain ⟨rfl, hne, hsize, hfree, -⟩ := hc
  have hhead : Mem.Agree m m' b.addr (b.addr + blockHeader) := by
    intro i _ hi₂
    refine (hkept i fun c hc => .inl ?_).symm
    have := (tiles_bounds ht hc).1
    simp only [Block.stop] at hlo
    omega
  obtain ⟨hsize', hfree', hnext'⟩ := header_congr hhead
  refine ⟨rfl, hne, hsize'.trans hsize, hfree'.trans hfree, ?_⟩
  rw [hnext']
  exact hc'

theorem kmallocLoop_refines {n fuel : Nat} {bs : List Block} {m : Mem} {p lo hi : Nat}
    (hc : Chain m p bs) (ht : Tiles lo hi bs) (hi64 : hi + 16 ≤ 2 ^ 64)
    (hfuel : bs.length < fuel) :
    match mallocList n bs with
    | none => kmallocLoop n fuel m p = some (m, 0)
    | some (bs', q) => ∃ m', kmallocLoop n fuel m p = some (m', q) ∧ Chain m' p bs' ∧
        PayloadKept m m' bs' := by
  induction bs generalizing p lo fuel with
  | nil =>
    obtain ⟨fuel, rfl⟩ : ∃ k, fuel = k + 1 := ⟨fuel - 1, by omega⟩
    obtain rfl : p = 0 := hc
    simp [mallocList, kmallocLoop]
  | cons b bs ih =>
    obtain ⟨fuel, rfl⟩ : ∃ k, fuel = k + 1 := ⟨fuel - 1, by omega⟩
    have hc' := hc
    obtain ⟨rfl, hne, hsize, hfree, hrest⟩ := hc'
    obtain ⟨hlo, ht⟩ := ht
    have hstop := tiles_le ht
    simp only [Block.stop, blockHeader] at hstop
    simp only [List.length_cons] at hfuel
    rw [mallocList, kmallocLoop, if_neg hne, hfree, hsize]
    by_cases hfit : b.free = true ∧ n ≤ b.size
    · have hwrap : (n + blockHeader + 16) % 2 ^ 64 = n + blockHeader + 16 := by
        simp only [blockHeader]
        omega
      rw [if_pos hfit, if_pos hfit, hwrap]
      by_cases hsplit : n + blockHeader + 16 ≤ b.size
      · rw [if_pos hsplit, if_pos hsplit]
        refine ⟨_, rfl, splitBlock_chain hc ht (by omega) hsplit, fun i hi => ?_⟩
        have h₁ := hi _ (List.mem_cons_self ..)
        have h₂ := hi _ (List.mem_cons_of_mem _ (List.mem_cons_self ..))
        simp only [Block.payload, blockHeader] at h₁ h₂
        simp (disch := omega) only [splitBlock, blockHeader, Mem.write_outside]
      · rw [if_neg hsplit, if_neg hsplit]
        refine ⟨_, rfl, take_chain hc ht, fun i hi => ?_⟩
        have h₁ := hi _ (List.mem_cons_self ..)
        simp only [blockHeader] at h₁
        exact Mem.write_outside m 0 (by omega)
    · rw [if_neg hfit, if_neg hfit]
      have hrec := ih hrest ht (show bs.length < fuel by omega)
      cases hm : mallocList n bs with
      | none => simpa [hm] using hrec
      | some r =>
        obtain ⟨bs', q⟩ := r
        simp only [hm] at hrec
        obtain ⟨m', hloop, hc', hkept⟩ := hrec
        -- the search past `b` writes only headers of the blocks behind it
        exact ⟨m', hloop, chain_cons_of_tail hc hc' (mallocList_tiles ht hm) (Nat.le_refl _) hkept,
          fun i hi => hkept i fun c hc => hi c (List.mem_cons_of_mem _ hc)⟩

/-! ## `kfree` refines marking and coalescing on the list -/

theorem markFree_chain {m : Mem} {bs : List Block} {p lo hi q : Nat}
    (hc : Chain m p bs) (ht : Tiles lo hi bs) (hq : ∃ b ∈ bs, b.payload = q) :
    Chain (m.write (q - blockHeader + 8) 4 1) p (markFree q bs) := by
  obtain ⟨b₀, hb₀, rfl⟩ := hq
  have haddr : b₀.payload - blockHeader = b₀.addr := by simp [Block.payload]
  rw [haddr]
  clear haddr
  have key : ∀ {bs : List Block} {p : Nat}, Chain m p bs →
      (∀ b ∈ bs, b = b₀ ∨ b.stop ≤ b₀.addr ∨ b₀.stop ≤ b.addr) →
      Chain (m.write (b₀.addr + 8) 4 1) p (markFree b₀.payload bs) := by
    intro bs
    induction bs with
    | nil => exact fun h _ => h
    | cons b bs ih =>
      intro p h hsep
      obtain ⟨rfl, hne, hsize, hfree, hrest⟩ := h
      have hrec := ih hrest fun c hc => hsep c (List.mem_cons_of_mem _ hc)
      rcases hsep b (List.mem_cons_self ..) with rfl | hdisj
      · have hnext : blockNext (m.write (b.addr + 8) 4 1) b.addr = blockNext m b.addr := by
          simp (disch := omega) only [blockNext, Mem.rd64, Mem.read_write_of_disjoint]
        have hsize' : blockSize (m.write (b.addr + 8) 4 1) b.addr = b.size := by
          simp (disch := omega) only [blockSize, Mem.rd64, Mem.read_write_of_disjoint, ← hsize]
        have hfree' : blockFree (m.write (b.addr + 8) 4 1) b.addr = true := by
          simp (disch := omega) only [blockFree, Mem.rd32, Mem.read_write_of_lt]
          rfl
        rw [markFree, List.map_cons, if_pos rfl]
        refine ⟨rfl, hne, hsize', hfree', ?_⟩
        rw [hnext]
        exact hrec
      · simp only [Block.stop, blockHeader] at hdisj
        have hother : b.payload ≠ b₀.payload := by
          simp only [Block.payload, ne_eq]
          omega
        have hagree : Mem.Agree m (m.write (b₀.addr + 8) 4 1) b.addr (b.addr + blockHeader) :=
          (Mem.agree_write m 1 (by simp only [blockHeader]; omega)).symm
        obtain ⟨hsize', hfree', hnext'⟩ := header_congr hagree
        rw [markFree, List.map_cons, if_neg hother]
        refine ⟨rfl, hne, hsize'.trans hsize, hfree'.trans hfree, ?_⟩
        rw [hnext']
        exact hrec
  exact key hc fun b hb => tiles_separate ht hb hb₀

theorem markFree_tiles {bs : List Block} {lo hi q : Nat} (h : Tiles lo hi bs) :
    Tiles lo hi (markFree q bs) := by
  induction bs generalizing lo with
  | nil => exact h
  | cons b bs ih =>
    obtain ⟨rfl, hrest⟩ := h
    have hrec := ih hrest
    rw [markFree, List.map_cons]
    split <;> exact ⟨rfl, hrec⟩

theorem coalesceList_tiles {bs : List Block} {lo hi : Nat} (h : Tiles lo hi bs) :
    Tiles lo hi (coalesceList bs) := by
  induction bs using coalesceList.induct generalizing lo with
  | case1 => simpa [coalesceList] using h
  | case2 b => simpa [coalesceList] using h
  | case3 b c bs hboth ih =>
    obtain ⟨rfl, hc, hrest⟩ := h
    rw [coalesceList, if_pos hboth]
    refine ih ⟨rfl, ?_⟩
    convert hrest using 1
    simp only [Block.stop, blockHeader] at hc ⊢
    omega
  | case4 b c bs hnot ih =>
    obtain ⟨rfl, hrest⟩ := h
    rw [coalesceList, if_neg hnot]
    exact ⟨rfl, ih hrest⟩

theorem mergeNext_chain {m : Mem} {b c : Block} {bs : List Block} {hi : Nat}
    (hc : Chain m b.addr (b :: c :: bs)) (ht : Tiles b.addr hi (b :: c :: bs)) (hi64 : hi < 2 ^ 64)
    (hboth : b.free = true ∧ c.free = true) :
    mergeNext m b.addr = (m.write b.addr 8 (b.size + (blockHeader + c.size))).write (b.addr + 16) 8
        (blockNext m c.addr) ∧
      Chain (mergeNext m b.addr) b.addr (⟨b.addr, b.size + (blockHeader + c.size), true⟩ :: bs) ∧
      Tiles b.addr hi (⟨b.addr, b.size + (blockHeader + c.size), true⟩ :: bs) := by
  obtain ⟨-, hne, hsize, hfree, hnext, -, hsize', -, hrest⟩ := hc
  obtain ⟨-, hcb, ht⟩ := ht
  have hstop := tiles_le ht
  simp only [Block.stop, blockHeader] at hcb hstop
  have hsum : (blockSize m b.addr + (blockHeader + blockSize m c.addr)) % 2 ^ 64 =
      b.size + (blockHeader + c.size) := by
    rw [hsize, ← hnext, hsize']
    simp only [blockHeader]
    omega
  have hmerge : mergeNext m b.addr =
      (m.write b.addr 8 (b.size + (blockHeader + c.size))).write (b.addr + 16) 8
        (blockNext m c.addr) := by
    have hcn : blockNext (m.write b.addr 8 (b.size + (blockHeader + c.size))) c.addr =
        blockNext m c.addr := by
      simp (disch := omega) only [blockNext, Mem.rd64, Mem.read_write_of_disjoint]
    simp only [mergeNext, hnext, hsum, hcn]
  refine ⟨hmerge, ?_, rfl, by simpa [Block.stop, blockHeader, hcb, Nat.add_assoc] using ht⟩
  rw [hmerge]
  have hlt := m.rd64_lt (c.addr + 16)
  have hnextb : blockNext ((m.write b.addr 8 (b.size + (blockHeader + c.size))).write
      (b.addr + 16) 8 (blockNext m c.addr)) b.addr = blockNext m c.addr := by
    simp (disch := omega) only [blockNext, Mem.rd64, Mem.read_write_of_lt]
  refine ⟨rfl, hne, ?_, ?_, ?_⟩
  · rw [blockSize, Mem.rd64, Mem.read_write_of_disjoint _ _ (by omega),
      Mem.read_write_of_lt _ (by simp only [blockHeader]; omega)]
  · simp (disch := omega) only [blockFree, Mem.rd32, Mem.read_write_of_disjoint]
    exact hfree.trans hboth.1
  · rw [hnextb, ← hnext]
    refine chain_congr hrest fun d hd i hi₁ hi₂ => ?_
    have hdb := (tiles_bounds ht hd).1
    simp only [Block.stop, blockHeader] at hdb
    simp (disch := omega) only [Mem.write_outside]

theorem coalesceLoop_refines {bs : List Block} {m : Mem} {p lo hi fuel : Nat}
    (hc : Chain m p bs) (ht : Tiles lo hi bs) (hi64 : hi < 2 ^ 64) (hfuel : bs.length < fuel) :
    ∃ m', coalesceLoop fuel m p = some m' ∧ Chain m' p (coalesceList bs) ∧
      PayloadKept m m' bs := by
  induction bs using coalesceList.induct generalizing m p lo fuel with
  | case1 =>
    obtain ⟨fuel, rfl⟩ : ∃ k, fuel = k + 1 := ⟨fuel - 1, by omega⟩
    obtain rfl : p = 0 := hc
    exact ⟨m, by simp [coalesceLoop], by simp [coalesceList, Chain], fun _ _ => rfl⟩
  | case2 b =>
    obtain ⟨fuel, rfl⟩ : ∃ k, fuel = k + 2 := ⟨fuel - 2, by simp at hfuel; omega⟩
    have hc' := hc
    obtain ⟨rfl, hne, hsize, hfree, hnext⟩ := hc'
    change blockNext m b.addr = 0 at hnext
    exact ⟨m, by simp [coalesceLoop, hne, hnext], by simpa [coalesceList] using hc, fun _ _ => rfl⟩
  | case3 b c bs hboth ih =>
    obtain ⟨fuel, rfl⟩ : ∃ k, fuel = k + 1 := ⟨fuel - 1, by omega⟩
    have hc₀ := hc
    obtain ⟨rfl, hne, -, hfree, hnext, hne', -, hfree', -⟩ := hc
    obtain rfl := ht.1
    obtain ⟨hmerge, hchain, htiles⟩ := mergeNext_chain hc₀ ht hi64 hboth
    rw [coalesceList, if_pos hboth, coalesceLoop, if_neg hne, if_pos ⟨hfree.trans hboth.1, hne',
      hfree'.trans hboth.2⟩]
    simp only [List.length_cons] at hfuel
    obtain ⟨m', hloop, hc', hkept⟩ := ih hchain htiles
      (show (_ :: bs).length < fuel by simp only [List.length_cons]; omega)
    refine ⟨m', hloop, hc', fun i hi => ?_⟩
    have hib := hi b (List.mem_cons_self ..)
    rw [hkept i fun d hd => ?_, hmerge]
    · simp only [blockHeader] at hib
      simp (disch := omega) only [Mem.write_outside]
    · rcases List.mem_cons.mp hd with rfl | hd
      · exact hib
      · exact hi d (List.mem_cons_of_mem _ (List.mem_cons_of_mem _ hd))
  | case4 b c bs hnot ih =>
    obtain ⟨fuel, rfl⟩ : ∃ k, fuel = k + 1 := ⟨fuel - 1, by omega⟩
    have hc₀ := hc
    obtain ⟨rfl, hne, hsize, hfree, hrest⟩ := hc
    have hrest₀ := hrest
    obtain ⟨hnext, -, -, hfree', -⟩ := hrest
    obtain ⟨rfl, ht⟩ := ht
    simp only [List.length_cons] at hfuel
    obtain ⟨m', hloop, hc', hkept⟩ := ih hrest₀ ht
      (show (c :: bs).length < fuel by simp only [List.length_cons]; omega)
    rw [coalesceList, if_neg hnot, coalesceLoop, if_neg hne, if_neg ?_]
    · exact ⟨m', hloop, chain_cons_of_tail hc₀ hc' ht (Nat.le_refl _) hkept,
        fun i hi => hkept i fun d hd => hi d (List.mem_cons_of_mem _ hd)⟩
    · rintro ⟨hb, -, hcf⟩
      exact hnot ⟨hfree ▸ hb, hfree' ▸ hcf⟩


/-! ## What the list operations do to the blocks in use -/

theorem mallocList_none {n : Nat} {bs : List Block} :
    mallocList n bs = none ↔ ∀ b ∈ bs, b.free = true → b.size < n := by
  induction bs with
  | nil => simp [mallocList]
  | cons b bs ih =>
    rw [mallocList]
    by_cases hfit : b.free = true ∧ n ≤ b.size
    · rw [if_pos hfit]
      constructor
      · intro h
        split at h <;> cases h
      · intro h
        have := h b (List.mem_cons_self ..) hfit.1
        omega
    · rw [if_neg hfit, Option.map_eq_none_iff, ih]
      constructor
      · intro h c hc hfree
        rcases List.mem_cons.mp hc with rfl | hc
        · exact Nat.lt_of_not_le fun hle => hfit ⟨hfree, hle⟩
        · exact h c hc hfree
      · exact fun h c hc => h c (List.mem_cons_of_mem _ hc)

/-- The block handed out was free and has room; no other block in use appears, goes
or changes. -/
theorem mallocList_used {n : Nat} {bs bs' : List Block} {q : Nat}
    (h : mallocList n bs = some (bs', q)) :
    ∃ b ∈ bs, ∃ granted, b.free = true ∧ n ≤ granted ∧ q = b.payload ∧
      ∀ c : Block, c.free = false → (c ∈ bs' ↔ c = ⟨b.addr, granted, false⟩ ∨ c ∈ bs) := by
  induction bs generalizing bs' with
  | nil => cases h
  | cons b bs ih =>
    rw [mallocList] at h
    by_cases hfit : b.free = true ∧ n ≤ b.size
    · rw [if_pos hfit] at h
      have hb : ∀ c : Block, c.free = false → c ≠ b := by
        rintro c hc rfl
        simp [hc] at hfit
      by_cases hsplit : n + blockHeader + 16 ≤ b.size
      · rw [if_pos hsplit] at h
        cases h
        refine ⟨b, List.mem_cons_self .., n, hfit.1, Nat.le_refl _, rfl, fun c hc => ?_⟩
        have hne : c ≠ ⟨b.payload + n, b.size - n - blockHeader, true⟩ := by
          rintro rfl
          cases hc
        simp [hb c hc, hne]
      · rw [if_neg hsplit] at h
        cases h
        refine ⟨b, List.mem_cons_self .., b.size, hfit.1, hfit.2, rfl, fun c hc => ?_⟩
        simp [hb c hc]
    · rw [if_neg hfit] at h
      obtain ⟨⟨bs₁, q₁⟩, hrec, heq⟩ := Option.map_eq_some_iff.mp h
      cases heq
      obtain ⟨c, hc, granted, hfree, hle, hq, hused⟩ := ih hrec
      refine ⟨c, List.mem_cons_of_mem _ hc, granted, hfree, hle, hq, fun d hd => ?_⟩
      simp only [List.mem_cons, hused d hd]
      tauto

theorem mallocList_coalesced {n : Nat} {bs bs' : List Block} {q : Nat} {b : Block}
    (hc : Coalesced (b :: bs)) (h : mallocList n bs = some (bs', q)) : Coalesced (b :: bs') := by
  induction bs generalizing b bs' with
  | nil => cases h
  | cons c bs ih =>
    obtain ⟨hbc, hc⟩ := List.isChain_cons_cons.mp hc
    rw [mallocList] at h
    by_cases hfit : c.free = true ∧ n ≤ c.size
    · rw [if_pos hfit] at h
      by_cases hsplit : n + blockHeader + 16 ≤ c.size
      · rw [if_pos hsplit] at h
        cases h
        refine .cons_cons (by simp) (.cons_cons (by simp) ?_)
        cases bs with
        | nil => exact .singleton _
        | cons d bs =>
          obtain ⟨hcd, hrest⟩ := List.isChain_cons_cons.mp hc
          exact .cons_cons (fun hboth => hcd ⟨hfit.1, hboth.2⟩) hrest
      · rw [if_neg hsplit] at h
        cases h
        refine .cons_cons (by simp) ?_
        cases bs with
        | nil => exact .singleton _
        | cons d bs => exact .cons_cons (by simp) (List.isChain_cons_cons.mp hc).2
    · rw [if_neg hfit] at h
      obtain ⟨⟨bs₁, q₁⟩, hrec, heq⟩ := Option.map_eq_some_iff.mp h
      cases heq
      exact .cons_cons hbc (ih hc hrec)

theorem mallocList_coalesced_tail {n : Nat} {bs bs' : List Block} {q : Nat}
    (hc : Coalesced bs) (h : mallocList n bs = some (bs', q)) : Coalesced bs' := by
  have hguarded : Coalesced (⟨0, 0, false⟩ :: bs) := by
    cases bs with
    | nil => exact .singleton _
    | cons b bs => exact .cons_cons (by simp) hc
  have hcons := mallocList_coalesced hguarded h
  cases bs' with
  | nil => exact .nil
  | cons b bs' => exact (List.isChain_cons_cons.mp hcons).2

theorem coalesceList_used {bs : List Block} {c : Block} (hc : c.free = false) :
    c ∈ coalesceList bs ↔ c ∈ bs := by
  induction bs using coalesceList.induct with
  | case1 => simp [coalesceList]
  | case2 b => simp [coalesceList]
  | case3 b d bs hboth ih =>
    have hcb : c ≠ b := by rintro rfl; simp [hc] at hboth
    have hcd : c ≠ d := by rintro rfl; simp [hc] at hboth
    have hcm : c ≠ ⟨b.addr, b.size + (blockHeader + d.size), true⟩ := by rintro rfl; cases hc
    rw [coalesceList, if_pos hboth, ih]
    simp [hcb, hcd, hcm]
  | case4 b d bs hnot ih =>
    rw [coalesceList, if_neg hnot]
    simp only [List.mem_cons] at ih ⊢
    rw [ih]

theorem coalesceList_head (b : Block) (bs : List Block) :
    ∃ size rest, coalesceList (b :: bs) = ⟨b.addr, size, b.free⟩ :: rest := by
  induction bs generalizing b with
  | nil => exact ⟨b.size, [], by simp [coalesceList]⟩
  | cons c bs ih =>
    rw [coalesceList]
    split
    · rename_i hboth
      obtain ⟨size, rest, heq⟩ := ih ⟨b.addr, b.size + (blockHeader + c.size), true⟩
      exact ⟨size, rest, by rw [heq, hboth.1]⟩
    · exact ⟨b.size, _, rfl⟩

theorem coalesceList_coalesced (bs : List Block) : Coalesced (coalesceList bs) := by
  induction bs using coalesceList.induct with
  | case1 => simp [coalesceList, Coalesced]
  | case2 b => simp [coalesceList, Coalesced]
  | case3 b c bs hboth ih =>
    rw [coalesceList, if_pos hboth]
    exact ih
  | case4 b c bs hnot ih =>
    rw [coalesceList, if_neg hnot]
    obtain ⟨size, rest, heq⟩ := coalesceList_head c bs
    rw [heq] at ih ⊢
    exact .cons_cons hnot ih

theorem mem_markFree {bs : List Block} {p : Nat} {c : Block} (hc : c.free = false) :
    c ∈ markFree p bs ↔ c ∈ bs ∧ c.payload ≠ p := by
  simp only [markFree, List.mem_map]
  constructor
  · rintro ⟨b, hb, heq⟩
    split at heq
    · subst heq
      cases hc
    · rename_i hne
      exact heq ▸ ⟨hb, hne⟩
  · rintro ⟨hmem, hne⟩
    exact ⟨c, hmem, if_neg hne⟩

/-- A coalesced tiling without a block in use is one free block. -/
theorem coalesced_all_free {bs : List Block} {lo hi : Nat} (ht : Tiles lo hi bs) (hlt : lo < hi)
    (hc : Coalesced bs) (hfree : ∀ b ∈ bs, b.free = true) :
    bs = [⟨lo, hi - lo - blockHeader, true⟩] := by
  match bs, ht, hc, hfree with
  | [], ht, _, _ =>
    change lo = hi at ht
    omega
  | [b], ht, _, hfree =>
    obtain ⟨haddr, hstop⟩ := ht
    change b.addr + blockHeader + b.size = hi at hstop
    have hb := hfree b (List.mem_cons_self ..)
    obtain ⟨addr, size, free⟩ := b
    simp only at haddr hstop hb
    subst haddr hb
    simp only [List.cons.injEq, Block.mk.injEq, true_and, and_true]
    omega
  | b :: c :: bs, _, hc, hfree =>
    exact absurd ⟨hfree b (by simp), hfree c (by simp)⟩ (List.isChain_cons_cons.mp hc).1

end MeuOS.Mm
