import MeuOS.Io.Buffered

/-! What the builders leave in the heap, for every way their allocations can end. -/
namespace MeuOS.BufferedIo

open MeuOS.Lib MeuOS.Mm

/-- An IRP at `irp` in a heap that was `h` before, with a system buffer of `size` bytes that begins
with the first `inLen` of the input. There is none for a size of `0`. -/
structure BuiltIrp (h : Heap) (live : List Alloc) (size inLen : Nat) (input : Mem) (h' : Heap) (irp : Nat) :
    Prop where
  kept : ∀ c ∈ live, c.Kept h.mem h'.mem
  nonnull : irp ≠ 0
  empty : size = 0 → ∃ b : Alloc, irp = b.ptr ∧ Holds h' (b :: live) ∧ h'.mem.rd64 (systemBufferAt irp) = 0
  buffer : size ≠ 0 → ∃ a b : Alloc, irp = b.ptr ∧ h'.mem.rd64 (systemBufferAt irp) = a.ptr ∧ a.ptr ≠ 0 ∧
    size ≤ a.granted ∧ Holds h' (a :: b :: live) ∧ ∀ i < inLen, h'.mem (a.ptr + i) = input i

/-- What a builder may do: give up with the memory as it was, or build the IRP. -/
def Built (h : Heap) (live : List Alloc) (size inLen : Nat) (input : Mem) (r : Option (Heap × Nat)) : Prop :=
  r = some (h, 0) ∨ ∃ h' irp, r = some (h', irp) ∧ BuiltIrp h live size inLen input h' irp

/-- A heap with room for `n` bytes has room for `k` more. -/
def RoomBehind (h : Heap) (n k : Nat) : Prop :=
  ∀ h₁ p, kmalloc h n = some (h₁, p) → p ≠ 0 → ∀ h₂ q, kmalloc h₁ k = some (h₂, q) → q ≠ 0

section Steps

variable {h h₁ : Heap} {live : List Alloc} {a b : Alloc} {m : Mem}

/-- Where `kmalloc` puts a block is up to the list of blocks. -/
theorem kmalloc_place {h' : Heap} {live' : List Alloc} {bs : List Block} (hinv : HeapInv ⟨h, live⟩ bs)
    (hinv' : HeapInv ⟨h', live'⟩ bs) (n : Nat) : (kmalloc h n).map Prod.snd = (kmalloc h' n).map Prod.snd := by
  have hplace := hinv.kmalloc n
  have hplace' := hinv'.kmalloc n
  cases hm : mallocList (roundUp16 n) bs with
  | none =>
    simp only [hm] at hplace hplace'
    rw [hplace, hplace']
    rfl
  | some r =>
    simp only [hm] at hplace hplace'
    obtain ⟨m, hk, -⟩ := hplace
    obtain ⟨m', hk', -⟩ := hplace'
    rw [hk, hk']
    rfl

/-- The IRP's block with everything but a system buffer, in the heap that gave it out. -/
structure Ready (h₁ : Heap) (b : Alloc) (stackCount : Nat) (m : Mem) : Prop where
  kept : ∀ i, i < b.ptr ∨ b.ptr + b.granted ≤ i → m i = h₁.mem i
  systemBuffer : m.rd64 (systemBufferAt b.ptr) = 0
  location : m.rd64 (currentStackLocationAt b.ptr) =
    b.ptr + irpSize + (if stackCount = 0 then 1 else stackCount) * locationSize

theorem irpBytes_lt {stackCount : Nat} (hcount : stackCount < 256) : irpBytes stackCount + 15 < 2 ^ 64 := by
  unfold irpBytes irpSize locationSize
  split <;> omega

theorem irpBytes_pos (stackCount : Nat) : 0xC8 + 2 * 0x48 ≤ irpBytes stackCount := by
  unfold irpBytes irpSize locationSize
  split <;> omega

theorem initIrp_ready {stackCount : Nat} (hroom : irpBytes stackCount ≤ b.granted)
    (hend : b.ptr + b.granted < 2 ^ 64) : Ready ⟨m, h.sHead⟩ b stackCount (initIrp m b.ptr stackCount) := by
  have hpos := irpBytes_pos stackCount
  refine ⟨fun i hi => ?_, ?_, ?_⟩
  · simp only [initIrp, currentStackLocationAt]
    simp (disch := omega) only [Mem.write_outside, Mem.blit_outside]
  · simp only [initIrp, currentStackLocationAt, systemBufferAt, Mem.rd64]
    simp (disch := omega) only [Mem.read_write_of_disjoint]
    rw [Mem.read_of_le (v := 0), Nat.zero_mod]
    intro i hi
    rw [Mem.blit_inside _ _ (by omega) (by omega)]
    simp
  · refine Mem.read_write_of_lt _ ?_
    have hsz : irpBytes stackCount =
      irpSize + ((if stackCount = 0 then 1 else stackCount) + 1) * locationSize := rfl
    rw [Nat.add_mul] at hsz
    omega

/-- `io_alloc_irp` gives up with the heap as it was, or has its block. -/
theorem ioAllocIrp_cases (hh : Holds h live) {stackCount : Nat} (hcount : stackCount < 256) :
    (kmalloc h (irpBytes stackCount) = some (h, 0) ∧ ioAllocIrp h stackCount = some (h, 0)) ∨
      ∃ m₁ b, kmalloc h (irpBytes stackCount) = some (⟨m₁, h.sHead⟩, b.ptr) ∧
        ioAllocIrp h stackCount = some (⟨initIrp m₁ b.ptr stackCount, h.sHead⟩, b.ptr) ∧ b.ptr ≠ 0 ∧
        irpBytes stackCount ≤ b.granted ∧ Holds ⟨m₁, h.sHead⟩ (b :: live) ∧
        (∀ c ∈ live, c.ptr ≠ b.ptr ∧ c.Kept h.mem m₁) ∧
        Ready ⟨m₁, h.sHead⟩ b stackCount (initIrp m₁ b.ptr stackCount) := by
  rcases hh.kmalloc (irpBytes_lt hcount) with hfail | ⟨m₁, b, hsome, hne, hroom, hother, hholds, hkept⟩
  · refine Or.inl ⟨hfail, ?_⟩
    unfold ioAllocIrp
    simp [hfail]
  · refine Or.inr ⟨m₁, b, hsome, ?_, hne, hroom, hholds, fun c hc => ⟨hother c hc, hkept c hc⟩,
      initIrp_ready hroom ?_⟩
    · unfold ioAllocIrp
      simp [hsome, hne]
    · have hbounds := hholds.bounds List.mem_cons_self
      exact Nat.lt_of_le_of_lt hbounds.2 (by decide)

/-- Stores into the IRP's block, but not into the two pointers. -/
theorem Ready.write {stackCount : Nat} (hready : Ready h₁ b stackCount m) {p n : Nat} (v : Nat)
    (hp : b.ptr ≤ p ∧ p + n ≤ b.ptr + b.granted) (hbuffer : p + n ≤ b.ptr + 0x18 ∨ b.ptr + 0x20 ≤ p)
    (hlocation : p + n ≤ b.ptr + 0xB8 ∨ b.ptr + 0xC0 ≤ p) : Ready h₁ b stackCount (m.write p n v) := by
  refine ⟨fun i hi => ?_, ?_, ?_⟩
  · rw [Mem.write_outside _ _ (by omega)]
    exact hready.kept i hi
  · rw [Mem.rd64, Mem.read_write_of_disjoint _ _ (by unfold systemBufferAt; omega)]
    exact hready.systemBuffer
  · rw [Mem.rd64, Mem.read_write_of_disjoint _ _ (by unfold currentStackLocationAt; omega)]
    exact hready.location

theorem Ready.nextLocation (hready : Ready h₁ b 1 m) : ioGetNextIrpStackLocation m b.ptr = b.ptr + irpSize := by
  unfold ioGetNextIrpStackLocation
  rw [hready.location, if_neg Nat.one_ne_zero, Nat.one_mul, Nat.add_sub_cancel]

theorem Ready.fillNext (hready : Ready h₁ b 1 m) (hroom : irpBytes 1 ≤ b.granted) (major dev : Nat)
    (ps : Parameters) : Ready h₁ b 1 (fillNext m b.ptr major dev ps) := by
  have hsize : irpBytes 1 = 344 := rfl
  have hlocation : irpSize = 200 := rfl
  unfold BufferedIo.fillNext
  rw [hready.nextLocation]
  have hfilled : Ready h₁ b 1 ((m.write (b.ptr + irpSize) 1 major).write (b.ptr + irpSize + 0x28) 8 dev) := by
    refine (hready.write major ?_ ?_ ?_).write dev ?_ ?_ ?_ <;> omega
  cases ps with
  | none => exact hfilled
  | transfer len =>
    refine hfilled.write len ?_ ?_ ?_ <;> omega
  | deviceIoControl ioctl inLen outLen =>
    refine ((hfilled.write ioctl ?_ ?_ ?_).write inLen ?_ ?_ ?_).write outLen ?_ ?_ ?_ <;> omega

/-- The IRP's block is as good for the heap as it was when it was given out. -/
theorem Ready.holds {stackCount : Nat} (hready : Ready h₁ b stackCount m) (hh : Holds h₁ (b :: live)) :
    Holds { h₁ with mem := m } (b :: live) :=
  (hh.store List.mem_cons_self hready.kept).1

/-! ## The system buffer -/

/-- The IRP has this buffer, which begins with the first `inLen` of the input. -/
structure Attached (h : Heap) (live : List Alloc) (size inLen : Nat) (input : Mem) (a b : Alloc) (m : Mem) :
    Prop where
  holds : Holds ⟨m, h.sHead⟩ (a :: b :: live)
  kept : ∀ c ∈ live, c.Kept h.mem m
  systemBuffer : m.rd64 (systemBufferAt b.ptr) = a.ptr
  location : m.rd64 (currentStackLocationAt b.ptr) = b.ptr + irpSize + locationSize
  nonnull : a.ptr ≠ 0
  irp_ne : b.ptr ≠ 0
  room : size ≤ a.granted
  irpRoom : irpBytes 1 ≤ b.granted
  inLen_le : inLen ≤ size
  input : ∀ i < inLen, m (a.ptr + i) = input i

theorem copyIn_null {input : Mem} {irp n : Nat} (hnull : m.rd64 (systemBufferAt irp) = 0) (hn : 0 < n) :
    copyIn input irp n m = none := by
  induction n with
  | zero => exact absurd hn (Nat.lt_irrefl 0)
  | succ n ih =>
    unfold copyIn
    rcases Nat.eq_zero_or_pos n with rfl | hpos
    · simp [copyIn, hnull]
    · rw [ih hpos]
      rfl

theorem Attached.ne {size inLen : Nat} {input : Mem} (hatt : Attached h live size inLen input a b m) :
    a.ptr ≠ b.ptr := by
  obtain ⟨bs, hinv⟩ := hatt.holds
  exact (List.pairwise_cons.1 hinv.ptr_inj).1 b List.mem_cons_self

theorem Attached.apart {size inLen : Nat} {input : Mem} (hatt : Attached h live size inLen input a b m) :
    a.ptr + a.granted ≤ b.ptr ∨ b.ptr + b.granted ≤ a.ptr :=
  hatt.holds.apart List.mem_cons_self (List.mem_cons_of_mem _ List.mem_cons_self) hatt.ne

theorem Attached.other {size inLen : Nat} {input : Mem} (hatt : Attached h live size inLen input a b m)
    {c : Alloc} (hc : c ∈ live) : c.ptr ≠ a.ptr ∧ c.ptr ≠ b.ptr := by
  obtain ⟨bs, hinv⟩ := hatt.holds
  have hptr := List.pairwise_cons.1 hinv.ptr_inj
  exact ⟨(hptr.1 c (List.mem_cons_of_mem _ hc)).symm, ((List.pairwise_cons.1 hptr.2).1 c hc).symm⟩

theorem Kept.trans {c : Alloc} {m m' m'' : Mem} (h : c.Kept m m') (h' : c.Kept m' m'') : c.Kept m m'' :=
  Mem.Agree.trans h h'

/-- One byte more of the input. -/
theorem Attached.put {size inLen : Nat} {input : Mem} (hatt : Attached h live size inLen input a b m)
    (hlt : inLen < size) :
    Attached h live size (inLen + 1) input a b (m.put (a.ptr + inLen) (input inLen)) := by
  have hroom := hatt.room
  have hirp := hatt.irpRoom
  have hsize : irpBytes 1 = 344 := rfl
  have hapart := hatt.apart
  have hout : ∀ i, i < a.ptr ∨ a.ptr + a.granted ≤ i → m.put (a.ptr + inLen) (input inLen) i = m i :=
    fun i hi => Mem.put_other _ _ (by omega)
  obtain ⟨hholds, hkept⟩ := hatt.holds.store List.mem_cons_self hout
  refine ⟨hholds, fun c hc => Kept.trans (hatt.kept c hc)
    (hkept c (List.mem_cons_of_mem _ (List.mem_cons_of_mem _ hc)) (hatt.other hc).1), ?_, ?_, hatt.nonnull,
    hatt.irp_ne, hroom, hatt.irpRoom, hlt, ?_⟩
  · refine Eq.trans (Mem.rd64_congr fun i hlo hhi => hout i ?_) hatt.systemBuffer
    unfold systemBufferAt at hlo hhi
    omega
  · refine Eq.trans (Mem.rd64_congr fun i hlo hhi => hout i ?_) hatt.location
    unfold currentStackLocationAt at hlo hhi
    omega
  · intro i hi
    by_cases hlast : i = inLen
    · rw [hlast, Mem.put_same]
    · rw [Mem.put_other _ _ (by omega)]
      exact hatt.input i (by omega)

theorem Attached.copyIn {size : Nat} {input : Mem} (hatt : Attached h live size 0 input a b m) (n : Nat)
    (hn : n ≤ size) : ∃ m', copyIn input b.ptr n m = some m' ∧ Attached h live size n input a b m' := by
  induction n with
  | zero => exact ⟨m, rfl, hatt⟩
  | succ n ih =>
    obtain ⟨m', hcopied, hatt'⟩ := ih (Nat.le_of_succ_le hn)
    refine ⟨_, ?_, hatt'.put hn⟩
    unfold BufferedIo.copyIn
    rw [hcopied]
    simp [hatt'.systemBuffer, hatt'.nonnull]

/-- Stores into the IRP, but not into the pointer. -/
theorem Attached.write {size inLen : Nat} {input : Mem} (hatt : Attached h live size inLen input a b m)
    {p n : Nat} (v : Nat) (hp : b.ptr ≤ p ∧ p + n ≤ b.ptr + irpBytes 1)
    (hbuffer : p + n ≤ b.ptr + 0x18 ∨ b.ptr + 0x20 ≤ p) (hlocation : p + n ≤ b.ptr + 0xB8 ∨ b.ptr + 0xC0 ≤ p) :
    Attached h live size inLen input a b (m.write p n v) := by
  have hirp := hatt.irpRoom
  have hout : ∀ i, i < b.ptr ∨ b.ptr + b.granted ≤ i → m.write p n v i = m i :=
    fun i hi => Mem.write_outside _ _ (by omega)
  obtain ⟨hholds, hkept⟩ := hatt.holds.store (List.mem_cons_of_mem _ List.mem_cons_self) hout
  refine ⟨hholds, fun c hc => Kept.trans (hatt.kept c hc)
    (hkept c (List.mem_cons_of_mem _ (List.mem_cons_of_mem _ hc)) (hatt.other hc).2), ?_, ?_, hatt.nonnull,
    hatt.irp_ne, hatt.room, hirp, hatt.inLen_le, ?_⟩
  · rw [Mem.rd64, Mem.read_write_of_disjoint _ _ (by unfold systemBufferAt; omega)]
    exact hatt.systemBuffer
  · rw [Mem.rd64, Mem.read_write_of_disjoint _ _ (by unfold currentStackLocationAt; omega)]
    exact hatt.location
  · intro i hi
    have hroom := hatt.room
    have hle := hatt.inLen_le
    have hapart := hatt.apart
    rw [hout _ (by omega)]
    exact hatt.input i hi

/-- The second allocation fails, or gives a buffer, just as it would right behind the first. -/
theorem allocSystemBuffer_cases (hready : Ready h₁ b 1 m) (hh : Holds h₁ (b :: live))
    (hne : b.ptr ≠ 0) (hroom : irpBytes 1 ≤ b.granted) (hkept : ∀ c ∈ live, c.ptr ≠ b.ptr ∧ c.Kept h.mem h₁.mem)
    (hhead : h₁.sHead = h.sHead) {size : Nat} (hfits : size + 15 < 2 ^ 64) (input : Mem) :
    ((kmalloc h₁ size).map Prod.snd = some 0 ∧
        allocSystemBuffer ⟨m, h.sHead⟩ b.ptr size = some ⟨m.write (systemBufferAt b.ptr) 8 0, h.sHead⟩) ∨
      ∃ a m', (kmalloc h₁ size).map Prod.snd = some a.ptr ∧ a.ptr ≠ 0 ∧
        allocSystemBuffer ⟨m, h.sHead⟩ b.ptr size = some ⟨m', h.sHead⟩ ∧
        Attached h live size 0 input a b m' := by
  obtain ⟨bs, hinv⟩ := hh
  have hinv' : HeapInv ⟨⟨m, h.sHead⟩, b :: live⟩ bs := by
    rw [← hhead]
    exact hinv.frame List.mem_cons_self hready.kept
  have hplace := kmalloc_place hinv hinv' size
  have hholds : Holds ⟨m, h.sHead⟩ (b :: live) := ⟨bs, hinv'⟩
  have hkeptb := (Holds.store ⟨bs, hinv⟩ List.mem_cons_self hready.kept).2
  rcases hholds.kmalloc hfits with hfail | ⟨m', a, hsome, hnonnull, hbig, hother, hholds', hkept'⟩
  · refine Or.inl ⟨?_, ?_⟩
    · rw [hplace, hfail]
      rfl
    · unfold allocSystemBuffer
      rw [hfail]
      rfl
  · refine Or.inr ⟨a, m'.write (systemBufferAt b.ptr) 8 a.ptr, ?_, hnonnull, ?_, ?_⟩
    · rw [hplace, hsome]
      rfl
    · unfold allocSystemBuffer
      rw [hsome]
      rfl
    · have hout : ∀ i, i < b.ptr ∨ b.ptr + b.granted ≤ i → m'.write (systemBufferAt b.ptr) 8 a.ptr i = m' i := by
        have hsize : irpBytes 1 = 344 := rfl
        exact fun i hi => Mem.write_outside _ _ (by unfold systemBufferAt; omega)
      obtain ⟨hholds'', hkept''⟩ := hholds'.store (List.mem_cons_of_mem _ List.mem_cons_self) hout
      refine ⟨hholds'', fun c hc => ?_, ?_, ?_, hnonnull, hne, hbig, hroom, Nat.zero_le _,
        fun i hi => absurd hi (Nat.not_lt_zero i)⟩
      · have hmem : c ∈ b :: live := List.mem_cons_of_mem _ hc
        exact Kept.trans (Kept.trans (hkept c hc).2 (hkeptb c hmem (hkept c hc).1))
          (Kept.trans (hkept' c hmem) (hkept'' c (List.mem_cons_of_mem _ hmem) (hkept c hc).1))
      · have hbounds := hholds'.bounds List.mem_cons_self
        exact Mem.read_write_of_lt _ (Nat.lt_of_le_of_lt (Nat.le_add_right a.ptr a.granted)
          (Nat.lt_of_le_of_lt hbounds.2 (by decide)))
      · have hsize : irpBytes 1 = 344 := rfl
        rw [Mem.rd64, Mem.read_write_of_disjoint _ _ (by unfold systemBufferAt currentStackLocationAt; omega)]
        refine Eq.trans (Mem.read_congr fun i hlo hhi => (hkept' b List.mem_cons_self i ?_ ?_).symm)
          hready.location
        all_goals
          unfold currentStackLocationAt at hlo hhi
          omega

theorem roomBehind_iff {n k p q : Nat} (hfirst : kmalloc h n = some (h₁, p)) (hp : p ≠ 0)
    (hsecond : (kmalloc h₁ k).map Prod.snd = some q) : RoomBehind h n k ↔ q ≠ 0 := by
  obtain ⟨⟨h₂, q'⟩, hk, rfl⟩ := Option.map_eq_some_iff.1 hsecond
  constructor
  · exact fun hroom => hroom h₁ p hfirst hp h₂ q' hk
  · intro hq h₁' p' hfirst' _ h₂' q'' hk'
    rw [hfirst] at hfirst'
    obtain ⟨rfl, rfl⟩ := Prod.mk.inj (Option.some.inj hfirst')
    rw [hk] at hk'
    obtain ⟨rfl, rfl⟩ := Prod.mk.inj (Option.some.inj hk')
    exact hq

/-- The IRP with its next location filled in. -/
structure Filled (h : Heap) (live : List Alloc) (b : Alloc) (m : Mem) : Prop where
  holds : Holds ⟨m, h.sHead⟩ (b :: live)
  kept : ∀ c ∈ live, c.Kept h.mem m
  systemBuffer : m.rd64 (systemBufferAt b.ptr) = 0
  location : m.rd64 (currentStackLocationAt b.ptr) = b.ptr + irpSize + locationSize
  irp_ne : b.ptr ≠ 0
  irpRoom : irpBytes 1 ≤ b.granted

/-- The ways the two allocations of a builder can end. -/
theorem twoAllocations (hh : Holds h live) {size : Nat} (hfits : size + 15 < 2 ^ 64) (input : Mem)
    (major dev : Nat) (ps : Parameters) :
    (ioAllocIrp h 1 = some (h, 0) ∧ RoomBehind h (irpBytes 1) size) ∨
      ∃ m₀ b m, ioAllocIrp h 1 = some (⟨m₀, h.sHead⟩, b.ptr) ∧ fillNext m₀ b.ptr major dev ps = m ∧
        Filled h live b m ∧
          ((¬RoomBehind h (irpBytes 1) size ∧
              allocSystemBuffer ⟨m, h.sHead⟩ b.ptr size = some ⟨m.write (systemBufferAt b.ptr) 8 0, h.sHead⟩) ∨
            (RoomBehind h (irpBytes 1) size ∧ ∃ a m',
              allocSystemBuffer ⟨m, h.sHead⟩ b.ptr size = some ⟨m', h.sHead⟩ ∧
              Attached h live size 0 input a b m')) := by
  rcases ioAllocIrp_cases hh (show 1 < 256 by decide) with
    ⟨hfail, halloc⟩ | ⟨m₁, b, hsome, halloc, hne, hroom, hholds, hkept, hready⟩
  · refine Or.inl ⟨halloc, fun h₁ p hk hp => ?_⟩
    rw [hfail] at hk
    exact absurd (Prod.mk.inj (Option.some.inj hk)).2.symm hp
  · have hfilled := hready.fillNext hroom major dev ps
    have hkeptb := (hholds.store List.mem_cons_self hfilled.kept).2
    refine Or.inr ⟨_, b, _, halloc, rfl, ⟨hfilled.holds hholds, fun c hc => ?_, hfilled.systemBuffer, ?_, hne, hroom⟩,
      ?_⟩
    · exact Kept.trans (hkept c hc).2 (hkeptb c (List.mem_cons_of_mem _ hc) (hkept c hc).1)
    · rw [hfilled.location, if_neg Nat.one_ne_zero, Nat.one_mul]
    · rcases allocSystemBuffer_cases hfilled hholds hne hroom hkept rfl hfits input with
        ⟨hnull, hbuffer⟩ | ⟨a, m', hsome', hnonnull, hbuffer, hatt⟩
      · exact Or.inl ⟨fun hbehind => (roomBehind_iff hsome hne hnull).1 hbehind rfl, hbuffer⟩
      · exact Or.inr ⟨(roomBehind_iff hsome hne hsome').2 hnonnull, a, m', hbuffer, hatt⟩

theorem Filled.write (hfilled : Filled h live b m) {p n : Nat} (v : Nat)
    (hp : b.ptr ≤ p ∧ p + n ≤ b.ptr + irpBytes 1) (hbuffer : p + n ≤ b.ptr + 0x18 ∨ b.ptr + 0x20 ≤ p)
    (hlocation : p + n ≤ b.ptr + 0xB8 ∨ b.ptr + 0xC0 ≤ p) : Filled h live b (m.write p n v) := by
  have hirp := hfilled.irpRoom
  have hout : ∀ i, i < b.ptr ∨ b.ptr + b.granted ≤ i → m.write p n v i = m i :=
    fun i hi => Mem.write_outside _ _ (by omega)
  obtain ⟨hholds, hkept⟩ := hfilled.holds.store List.mem_cons_self hout
  refine ⟨hholds, fun c hc => ?_, ?_, ?_, hfilled.irp_ne, hirp⟩
  · have hne : c.ptr ≠ b.ptr := by
      obtain ⟨bs, hinv⟩ := hfilled.holds
      exact ((List.pairwise_cons.1 hinv.ptr_inj).1 c hc).symm
    exact Kept.trans (hfilled.kept c hc) (hkept c (List.mem_cons_of_mem _ hc) hne)
  · rw [Mem.rd64, Mem.read_write_of_disjoint _ _ (by unfold systemBufferAt; omega)]
    exact hfilled.systemBuffer
  · rw [Mem.rd64, Mem.read_write_of_disjoint _ _ (by unfold currentStackLocationAt; omega)]
    exact hfilled.location

/-- How a builder ends. It is stuck where it stores through a null pointer. -/
inductive Outcome (h : Heap) (live : List Alloc) (size inLen : Nat) (input : Mem) : Option (Heap × Nat) → Prop
  | gaveUp (hroom : RoomBehind h (irpBytes 1) size) : Outcome h live size inLen input (some (h, 0))
  | plain {b : Alloc} {m : Mem} (hsize : size = 0) (hfilled : Filled h live b m) :
      Outcome h live size inLen input (some (⟨m, h.sHead⟩, b.ptr))
  | stuck (hsize : size ≠ 0) (hfull : ¬RoomBehind h (irpBytes 1) size) : Outcome h live size inLen input none
  | bare {b : Alloc} {m : Mem} (hsize : size ≠ 0) (hfull : ¬RoomBehind h (irpBytes 1) size) (hirp : b.ptr ≠ 0)
      (hnull : m.rd64 (systemBufferAt b.ptr) = 0)
      (hlocation : m.rd64 (currentStackLocationAt b.ptr) = b.ptr + irpSize + locationSize) :
      Outcome h live size inLen input (some (⟨m, h.sHead⟩, b.ptr))
  | attached {a b : Alloc} {m : Mem} (hsize : size ≠ 0) (hroom : RoomBehind h (irpBytes 1) size)
      (hatt : Attached h live size inLen input a b m) :
      Outcome h live size inLen input (some (⟨m, h.sHead⟩, b.ptr))

/-- An IRP without its system buffer is not what a builder may return. -/
theorem Outcome.built_iff {size inLen : Nat} {input : Mem} {r : Option (Heap × Nat)}
    (houtcome : Outcome h live size inLen input r) :
    Built h live size inLen input r ↔ size = 0 ∨ RoomBehind h (irpBytes 1) size := by
  cases houtcome with
  | gaveUp hroom => exact iff_of_true (Or.inl rfl) (Or.inr hroom)
  | @plain b m hsize hfilled =>
    refine iff_of_true (Or.inr ⟨_, _, rfl, hfilled.kept, hfilled.irp_ne, fun _ => ?_, fun h => absurd hsize h⟩)
      (Or.inl hsize)
    exact ⟨b, rfl, hfilled.holds, hfilled.systemBuffer⟩
  | stuck hsize hfull =>
    refine iff_of_false ?_ fun h => h.elim hsize hfull
    rintro (hgave | ⟨h', irp, heq, -⟩)
    · cases hgave
    · cases heq
  | @bare b m hsize hfull hirp hnull _ =>
    refine iff_of_false ?_ fun h => h.elim hsize hfull
    rintro (hgave | ⟨h', irp', heq, hbuilt⟩)
    · exact hirp (Prod.mk.inj (Option.some.inj hgave)).2
    · obtain ⟨rfl, rfl⟩ := Prod.mk.inj (Option.some.inj heq)
      obtain ⟨a, b', -, hbuffer, hne, -⟩ := hbuilt.buffer hsize
      exact hne (hbuffer.symm.trans hnull)
  | @attached a b m hsize hroom hatt =>
    refine iff_of_true (Or.inr ⟨_, _, rfl, hatt.kept, hatt.irp_ne, fun h => absurd h hsize, fun _ => ?_⟩)
      (Or.inr hroom)
    exact ⟨a, b, rfl, hatt.systemBuffer, hatt.nonnull, hatt.room, hatt.holds, hatt.input⟩

/-- The IRP where the second allocation gave a null pointer. -/
theorem Filled.bare (hfilled : Filled h live b m) :
    (m.write (systemBufferAt b.ptr) 8 0).rd64 (systemBufferAt b.ptr) = 0 ∧
      (m.write (systemBufferAt b.ptr) 8 0).rd64 (currentStackLocationAt b.ptr) = b.ptr + irpSize + locationSize := by
  refine ⟨Mem.read_write_of_lt _ (by decide), ?_⟩
  rw [Mem.rd64, Mem.read_write_of_disjoint _ _ (by unfold systemBufferAt currentStackLocationAt; omega)]
  exact hfilled.location

/-- Setting `UserBuffer` changes neither pointer. -/
theorem userBuffer_reads (irp v : Nat) :
    (m.write (irp + 0x70) 8 v).rd64 (systemBufferAt irp) = m.rd64 (systemBufferAt irp) ∧
      (m.write (irp + 0x70) 8 v).rd64 (currentStackLocationAt irp) = m.rd64 (currentStackLocationAt irp) := by
  unfold systemBufferAt currentStackLocationAt
  exact ⟨Mem.read_write_of_disjoint _ _ (by omega), Mem.read_write_of_disjoint _ _ (by omega)⟩

end Steps

section Builders

variable {h : Heap} {live : List Alloc}

theorem ioBuildRequest_outcome (hh : Holds h live) (major dev : Nat) :
    Outcome h live 0 0 (fun _ => 0) (ioBuildRequest h major dev) := by
  unfold ioBuildRequest
  rcases twoAllocations hh (show 0 + 15 < 2 ^ 64 by decide) (fun _ => 0) major dev .none with
    ⟨halloc, hroom⟩ | ⟨m₀, b, m, halloc, hm, hfilled, -⟩
  · rw [halloc]
    exact .gaveUp hroom
  · rw [halloc]
    simp only [Option.bind_eq_bind, Option.bind_some, if_neg hfilled.irp_ne, hm]
    exact .plain rfl hfilled

theorem ioBuildRead_outcome (hh : Holds h live) (dev buf : Nat) {len : Nat} (hlen : len < 2 ^ 32) :
    Outcome h live len 0 (fun _ => 0) (ioBuildRead h dev buf len) := by
  have hsize : irpBytes 1 = 344 := rfl
  unfold ioBuildRead
  rcases twoAllocations hh (show len + 15 < 2 ^ 64 by omega) (fun _ => 0) majorRead dev (.transfer len) with
    ⟨halloc, hroom⟩ | ⟨m₀, b, m, halloc, hm, hfilled, hsecond⟩
  · rw [halloc]
    exact .gaveUp hroom
  · rw [halloc]
    simp only [Option.bind_eq_bind, Option.bind_some, if_neg hfilled.irp_ne, hm, storeUserBuffer]
    by_cases hzero : len = 0
    · rw [if_neg (not_not.2 hzero)]
      exact .plain hzero (hfilled.write buf (by omega) (by omega) (by omega))
    · rw [if_pos hzero]
      rcases hsecond with ⟨hfull, hbuffer⟩ | ⟨hroom, a, m', hbuffer, hatt⟩
      · rw [hbuffer]
        obtain ⟨hnull, hlocation⟩ := hfilled.bare
        obtain ⟨hsame, hsame'⟩ := @userBuffer_reads (m.write (systemBufferAt b.ptr) 8 0) b.ptr buf
        exact .bare hzero hfull hfilled.irp_ne (hsame.trans hnull) (hsame'.trans hlocation)
      · rw [hbuffer]
        exact .attached hzero hroom (hatt.write buf (by omega) (by omega) (by omega))

theorem ioBuildWrite_outcome (hh : Holds h live) (dev buf : Nat) (input : Mem) {len : Nat} (hlen : len < 2 ^ 32) :
    Outcome h live len (if buf = 0 then 0 else len) input (ioBuildWrite h dev buf input len) := by
  unfold ioBuildWrite
  rcases twoAllocations hh (show len + 15 < 2 ^ 64 by omega) input majorWrite dev (.transfer len) with
    ⟨halloc, hroom⟩ | ⟨m₀, b, m, halloc, hm, hfilled, hsecond⟩
  · rw [halloc]
    exact .gaveUp hroom
  · rw [halloc]
    simp only [Option.bind_eq_bind, Option.bind_some, if_neg hfilled.irp_ne, hm]
    by_cases hzero : len = 0
    · rw [if_neg (not_not.2 hzero)]
      exact .plain hzero hfilled
    · rw [if_pos hzero]
      rcases hsecond with ⟨hfull, hbuffer⟩ | ⟨hroom, a, m', hbuffer, hatt⟩
      · rw [hbuffer]
        obtain ⟨hnull, hlocation⟩ := hfilled.bare
        simp only [Option.bind_some, hnull, ne_eq, not_true, false_and, if_false]
        exact .bare hzero hfull hfilled.irp_ne hnull hlocation
      · rw [hbuffer]
        by_cases hbuf : buf = 0
        · simp only [Option.bind_some, hbuf, ne_eq, not_true, and_false, if_false, if_true]
          exact .attached hzero hroom hatt
        · obtain ⟨m'', hcopied, hatt'⟩ := hatt.copyIn len (Nat.le_refl len)
          have hset : m'.rd64 (systemBufferAt b.ptr) ≠ 0 := by
            rw [hatt.systemBuffer]
            exact hatt.nonnull
          simp only [Option.bind_some, ne_eq, hbuf, hset, not_false_eq_true, and_self, if_true, if_false,
            hcopied]
          exact .attached hzero hroom hatt'

theorem ioBuildIoctl_outcome (hh : Holds h live) (ioctl dev : Nat) (input : Mem) (outBuf : Nat) {inLen outLen : Nat}
    (hin : inLen < 2 ^ 32) (hout : outLen < 2 ^ 32) :
    Outcome h live (max inLen outLen) inLen input (ioBuildIoctl h ioctl dev input inLen outBuf outLen) := by
  have hmax : (if inLen > outLen then inLen else outLen) = max inLen outLen := by
    split <;> omega
  have hsize : irpBytes 1 = 344 := rfl
  unfold ioBuildIoctl
  simp only [hmax]
  rcases twoAllocations hh (show max inLen outLen + 15 < 2 ^ 64 by omega) input majorDeviceControl dev
    (.deviceIoControl ioctl inLen outLen) with ⟨halloc, hroom⟩ | ⟨m₀, b, m, halloc, hm, hfilled, hsecond⟩
  · rw [halloc]
    exact .gaveUp hroom
  · rw [halloc]
    simp only [Option.bind_eq_bind, Option.bind_some, if_neg hfilled.irp_ne, hm, storeUserBuffer]
    by_cases hzero : max inLen outLen = 0
    · rw [if_neg (not_not.2 hzero)]
      exact .plain hzero (hfilled.write outBuf (by omega) (by omega) (by omega))
    · rw [if_pos hzero]
      rcases hsecond with ⟨hfull, hbuffer⟩ | ⟨hroom, a, m', hbuffer, hatt⟩
      · rw [hbuffer]
        obtain ⟨hnull, hlocation⟩ := hfilled.bare
        rcases Nat.eq_zero_or_pos inLen with rfl | hpos
        · obtain ⟨hsame, hsame'⟩ := @userBuffer_reads (m.write (systemBufferAt b.ptr) 8 0) b.ptr outBuf
          exact .bare hzero hfull hfilled.irp_ne (hsame.trans hnull) (hsame'.trans hlocation)
        · -- the copy goes through the null pointer
          simp only [Option.bind_some, copyIn_null hnull hpos, Option.bind_none]
          exact .stuck hzero hfull
      · obtain ⟨m'', hcopied, hatt'⟩ := hatt.copyIn inLen (Nat.le_max_left inLen outLen)
        rw [hbuffer]
        simp only [Option.bind_some, hcopied]
        exact .attached hzero hroom (hatt'.write outBuf (by omega) (by omega) (by omega))

end Builders

end MeuOS.BufferedIo
