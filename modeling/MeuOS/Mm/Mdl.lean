import MeuOS.Lib.Mem

/-! Memory descriptor lists: a header of 0x30 bytes and one page frame number for each page of
the buffer behind it. The kernel maps this range one to one, so the number is that of the
virtual page. -/
namespace MeuOS.Mm

open MeuOS.Lib

def mdlHeader : Nat := 0x30
def mdlMappedToSystemVa : Nat := 0x0001
def mdlPagesLocked : Nat := 0x0002
def mdlSourceIsNonpagedPool : Nat := 0x0004
def mdlAllocatedFixedSize : Nat := 0x0008
def mdlWriteOperation : Nat := 0x0080

/-- `ADDRESS_AND_SIZE_TO_SPAN_PAGES`: 64-bit sums, cut to a `ULONG`. -/
def addressAndSizeToSpanPages (addr size : Nat) : Nat :=
  (addr % 4096 + size + 4095) % 2 ^ 64 / 4096 % 2 ^ 32

/-- `(SHORT)` of what two bytes hold. -/
def short (n : Nat) : Int := if n % 65536 < 32768 then n % 65536 else n % 65536 - 65536

/-- The loop of `mdl_fill_pfns_identity`, its turns 0 to `n - 1`. -/
def fillPfns (m : Mem) (mdl va : Nat) : Nat → Mem
  | 0 => m
  | i + 1 => (fillPfns m mdl va i).write (mdl + mdlHeader + 8 * i) 8 ((va + i * 4096) % 2 ^ 64 / 4096)

def mdlFillPfnsIdentity (m : Mem) (mdl : Nat) : Mem :=
  let startVa := m.rd64 (mdl + 0x20)
  let nPages := addressAndSizeToSpanPages ((startVa + m.rd32 (mdl + 0x2C)) % 2 ^ 64) (m.rd32 (mdl + 0x28))
  fillPfns m mdl startVa nPages

/-- What `IoAllocateMdl` leaves: the memory, the MDL, and the bytes it has asked the pool for. -/
structure IoMdl where
  mem : Mem
  mdl : Nat
  allocated : Nat

/-- `IoAllocateMdl_k`; `pool` is what `ExAllocatePoolWithTag` answers for a size. -/
def ioAllocateMdl (m : Mem) (pool : Nat → Nat) (virtualAddress length : Nat) : IoMdl :=
  if length = 0 then ⟨m, 0, 0⟩
  else
    let nPages := addressAndSizeToSpanPages virtualAddress length
    let nPages := if nPages = 0 then 1 else nPages
    let total := mdlHeader + nPages * 8
    let mdl := pool total
    if mdl = 0 then ⟨m, 0, total⟩
    else
      let m := m.blit mdl total fun _ => 0
      let m := m.write mdl 8 0
      let m := m.write (mdl + 0x08) 2 total
      let m := m.write (mdl + 0x0A) 2 mdlAllocatedFixedSize
      let m := m.write (mdl + 0x10) 8 0
      let m := m.write (mdl + 0x18) 8 0
      let m := m.write (mdl + 0x20) 8 (virtualAddress / 4096 * 4096)
      let m := m.write (mdl + 0x28) 4 length
      let m := m.write (mdl + 0x2C) 4 (virtualAddress % 4096)
      ⟨mdlFillPfnsIdentity m mdl, mdl, total⟩

def mmSizeOfMdl (base length : Nat) : Nat :=
  let nPages := addressAndSizeToSpanPages base length
  let nPages := if nPages = 0 then 1 else nPages
  mdlHeader + nPages * 8

def setFlags (m : Mem) (mdl flags : Nat) : Mem := m.write (mdl + 0x0A) 2 (m.rd16 (mdl + 0x0A) ||| flags)

def clearFlags (m : Mem) (mdl flags : Nat) : Mem :=
  m.write (mdl + 0x0A) 2 (m.rd16 (mdl + 0x0A) &&& (0xFFFF ^^^ flags))

inductive LockOperation
  | ioReadAccess
  | ioWriteAccess
  | ioModifyAccess
  deriving DecidableEq

def mmProbeAndLockPages (m : Mem) (mdl : Nat) (operation : LockOperation) : Mem :=
  let m := setFlags m mdl mdlPagesLocked
  let m := if operation = .ioWriteAccess ∨ operation = .ioModifyAccess then
      setFlags m mdl mdlWriteOperation
    else m
  mdlFillPfnsIdentity m mdl

def mmMapLockedPagesSpecifyCache (m : Mem) (mdl : Nat) : Mem :=
  let va := (m.rd64 (mdl + 0x20) + m.rd32 (mdl + 0x2C)) % 2 ^ 64
  setFlags (m.write (mdl + 0x18) 8 va) mdl mdlMappedToSystemVa

def mmUnlockPages (m : Mem) (mdl : Nat) : Mem :=
  clearFlags (clearFlags m mdl mdlPagesLocked) mdl mdlWriteOperation

def mmUnmapLockedPages (m : Mem) (mdl : Nat) : Mem :=
  (clearFlags m mdl mdlMappedToSystemVa).write (mdl + 0x18) 8 0

def mmBuildMdlForNonPagedPool (m : Mem) (mdl : Nat) : Mem :=
  let m := setFlags m mdl mdlSourceIsNonpagedPool
  let m := m.write (mdl + 0x18) 8 ((m.rd64 (mdl + 0x20) + m.rd32 (mdl + 0x2C)) % 2 ^ 64)
  let m := setFlags m mdl mdlMappedToSystemVa
  mdlFillPfnsIdentity m mdl

inductive MdlCall
  | probeAndLock (operation : LockOperation)
  | buildForNonPagedPool
  | mapLockedPages
  | unlockPages
  | unmapLockedPages

def MdlCall.run (mdl : Nat) (m : Mem) : MdlCall → Mem
  | .probeAndLock operation => mmProbeAndLockPages m mdl operation
  | .buildForNonPagedPool => mmBuildMdlForNonPagedPool m mdl
  | .mapLockedPages => mmMapLockedPagesSpecifyCache m mdl
  | .unlockPages => mmUnlockPages m mdl
  | .unmapLockedPages => mmUnmapLockedPages m mdl

/-- The number of the `i`-th page of a buffer. -/
def pageNumber (va i : Nat) : Nat := (va / 4096 * 4096 + i * 4096) % 2 ^ 64 / 4096

/-- The header describes the buffer, and entry `i` of the array is its `i`-th page. -/
structure MdlDescribes (m : Mem) (mdl va len n : Nat) : Prop where
  startVa : m.rd64 (mdl + 0x20) % 4096 = 0
  address : (m.rd64 (mdl + 0x20) + m.rd32 (mdl + 0x2C)) % 2 ^ 64 = va
  byteCount : m.rd32 (mdl + 0x28) = len
  pfns : ∀ i, i < n → m.rd64 (mdl + mdlHeader + 8 * i) = pageNumber va i

/-- What a caller of `IoAllocateMdl` is promised, whatever calls it makes with the MDL. -/
structure MdlSound (m : Mem) (r : IoMdl) (va len : Nat) : Prop where
  size : mmSizeOfMdl va len = r.allocated
  sizeField : short (r.mem.rd16 (r.mdl + 0x08)) = r.allocated
  entries : ∃ n, r.allocated = mdlHeader + 8 * n ∧
    (∀ page, (∃ k, k < len ∧ (va + k) % 2 ^ 64 / 4096 = page) ↔ ∃ i, i < n ∧ pageNumber va i = page) ∧
    (∀ i j, i < n → j < n → pageNumber va i = pageNumber va j → i = j) ∧
    ∀ calls : List MdlCall, MdlDescribes (calls.foldl (MdlCall.run r.mdl) r.mem) r.mdl va len n
  inside : ∀ (calls : List MdlCall) a, a < r.mdl ∨ r.mdl + r.allocated ≤ a →
    calls.foldl (MdlCall.run r.mdl) r.mem a = m a

/-! ## The array -/

variable {m m' : Mem} {mdl va len n i : Nat}

theorem fillPfns_outside (m : Mem) (mdl va n : Nat) {a : Nat}
    (h : a < mdl + mdlHeader ∨ mdl + mdlHeader + 8 * n ≤ a) : fillPfns m mdl va n a = m a := by
  induction n with
  | zero => rfl
  | succ n ih =>
    rw [fillPfns, Mem.write_outside _ _ (by omega)]
    exact ih (by omega)

theorem fillPfns_entry (m : Mem) (mdl va : Nat) (hi : i < n) :
    (fillPfns m mdl va n).rd64 (mdl + mdlHeader + 8 * i) = (va + i * 4096) % 2 ^ 64 / 4096 := by
  induction n with
  | zero => omega
  | succ n ih =>
    rw [fillPfns]
    by_cases hin : i = n
    · subst hin
      exact Mem.read_write_of_lt _ (by omega)
    · exact (Mem.read_write_of_disjoint _ _ (by omega)).trans (ih (by omega))

/-! ## The header -/

/-- The fields that say which buffer the MDL is for. -/
structure MdlHeader (m : Mem) (mdl va len : Nat) : Prop where
  startVa : m.rd64 (mdl + 0x20) = va / 4096 * 4096
  byteOffset : m.rd32 (mdl + 0x2C) = va % 4096
  byteCount : m.rd32 (mdl + 0x28) = len

theorem MdlHeader.congr (h : MdlHeader m mdl va len)
    (hagree : Mem.Agree m m' (mdl + 0x20) (mdl + mdlHeader)) : MdlHeader m' mdl va len := by
  unfold mdlHeader at hagree
  refine ⟨?_, ?_, ?_⟩
  · rw [← h.startVa]
    exact (Mem.read_congr (hagree.mono (by omega) (by omega))).symm
  · rw [← h.byteOffset]
    exact (Mem.read_congr (hagree.mono (by omega) (by omega))).symm
  · rw [← h.byteCount]
    exact (Mem.read_congr (hagree.mono (by omega) (by omega))).symm

theorem mdlFillPfnsIdentity_eq (h : MdlHeader m mdl va len) (hva : va < 2 ^ 64) :
    mdlFillPfnsIdentity m mdl =
      fillPfns m mdl (va / 4096 * 4096) (addressAndSizeToSpanPages va len) := by
  have haddr : (va / 4096 * 4096 + va % 4096) % 2 ^ 64 = va := by omega
  unfold mdlFillPfnsIdentity
  simp only [h.startVa, h.byteOffset, h.byteCount, haddr]

/-- An MDL, with its array as long as the span of its buffer. -/
structure MdlFilled (m : Mem) (mdl va len : Nat) : Prop where
  header : MdlHeader m mdl va len
  pfns : ∀ i, i < addressAndSizeToSpanPages va len →
    m.rd64 (mdl + mdlHeader + 8 * i) = pageNumber va i

theorem MdlHeader.fill (h : MdlHeader m mdl va len) (hva : va < 2 ^ 64) :
    MdlFilled (mdlFillPfnsIdentity m mdl) mdl va len := by
  rw [mdlFillPfnsIdentity_eq h hva]
  refine ⟨h.congr fun a hlo hhi => (fillPfns_outside m mdl _ _ (.inl hhi)).symm, fun i hi => ?_⟩
  exact fillPfns_entry m mdl _ hi

theorem MdlFilled.describes (h : MdlFilled m mdl va len) (hva : va < 2 ^ 64) :
    MdlDescribes m mdl va len (addressAndSizeToSpanPages va len) := by
  refine ⟨?_, ?_, h.header.byteCount, h.pfns⟩
  · rw [h.header.startVa]
    exact Nat.mul_mod_left _ _
  · rw [h.header.startVa, h.header.byteOffset]
    omega

/-- A change of the header before `StartVa`. -/
theorem MdlFilled.congr (h : MdlFilled m mdl va len)
    (hagree : ∀ a, mdl + 0x20 ≤ a → m a = m' a) : MdlFilled m' mdl va len := by
  refine ⟨h.header.congr fun a hlo _ => hagree a hlo, fun i hi => ?_⟩
  rw [← h.pfns i hi]
  refine (Mem.read_congr fun a hlo _ => hagree a ?_).symm
  unfold mdlHeader at hlo
  omega

/-! ## Calls with an MDL -/

/-- Only `MdlFlags`, `Process` and `MappedSystemVa` may differ. -/
def HeaderEdit (mdl : Nat) (m m' : Mem) : Prop := ∀ a, a < mdl + 0x0A ∨ mdl + 0x20 ≤ a → m' a = m a

theorem HeaderEdit.trans {m'' : Mem} (h : HeaderEdit mdl m m') (h' : HeaderEdit mdl m' m'') :
    HeaderEdit mdl m m'' :=
  fun a ha => (h' a ha).trans (h a ha)

theorem headerEdit_flags (m : Mem) (mdl v : Nat) : HeaderEdit mdl m (m.write (mdl + 0x0A) 2 v) :=
  fun _ ha => Mem.write_outside m v (by omega)

theorem headerEdit_mapped (m : Mem) (mdl v : Nat) : HeaderEdit mdl m (m.write (mdl + 0x18) 8 v) :=
  fun _ ha => Mem.write_outside m v (by omega)

/-- A call keeps the description and stays in the allocation. -/
structure KeepsMdl (m m' : Mem) (mdl va len : Nat) : Prop where
  filled : MdlFilled m' mdl va len
  inside : ∀ a, a < mdl ∨ mdl + mdlHeader + 8 * addressAndSizeToSpanPages va len ≤ a → m' a = m a
  size : m'.rd16 (mdl + 0x08) = m.rd16 (mdl + 0x08)

theorem HeaderEdit.size (h : HeaderEdit mdl m m') : m'.rd16 (mdl + 0x08) = m.rd16 (mdl + 0x08) :=
  (Mem.read_congr fun a _ hhi => (h a (by omega)).symm).symm

theorem MdlFilled.edit (h : MdlFilled m mdl va len) (he : HeaderEdit mdl m m') : KeepsMdl m m' mdl va len := by
  refine ⟨h.congr fun a hlo => (he a (.inr hlo)).symm, fun a ha => he a ?_, he.size⟩
  unfold mdlHeader at ha
  omega

/-- Filling the array again behind an edit of the header. -/
theorem MdlFilled.refill (h : MdlFilled m mdl va len) (hva : va < 2 ^ 64) (he : HeaderEdit mdl m m') :
    KeepsMdl m (mdlFillPfnsIdentity m' mdl) mdl va len := by
  have hedit := h.edit he
  have houtside : ∀ a, a < mdl + mdlHeader ∨
      mdl + mdlHeader + 8 * addressAndSizeToSpanPages va len ≤ a →
      mdlFillPfnsIdentity m' mdl a = m' a := by
    rw [mdlFillPfnsIdentity_eq hedit.filled.header hva]
    exact fun a ha => fillPfns_outside _ _ _ _ ha
  refine ⟨hedit.filled.header.fill hva, fun a ha => ?_, ?_⟩
  · refine (houtside a ?_).trans (hedit.inside a ha)
    omega
  · refine Eq.trans ?_ hedit.size
    refine (Mem.read_congr fun a _ hhi => (houtside a (.inl ?_)).symm).symm
    unfold mdlHeader
    omega

theorem MdlFilled.call (h : MdlFilled m mdl va len) (hva : va < 2 ^ 64) (c : MdlCall) :
    KeepsMdl m (c.run mdl m) mdl va len := by
  cases c with
  | probeAndLock operation =>
    refine h.refill hva ?_
    split
    · exact (headerEdit_flags m mdl _).trans (headerEdit_flags _ mdl _)
    · exact headerEdit_flags m mdl _
  | buildForNonPagedPool =>
    exact h.refill hva (((headerEdit_flags m mdl _).trans (headerEdit_mapped _ mdl _)).trans
      (headerEdit_flags _ mdl _))
  | mapLockedPages => exact h.edit ((headerEdit_mapped m mdl _).trans (headerEdit_flags _ mdl _))
  | unlockPages => exact h.edit ((headerEdit_flags m mdl _).trans (headerEdit_flags _ mdl _))
  | unmapLockedPages => exact h.edit ((headerEdit_flags m mdl _).trans (headerEdit_mapped _ mdl _))

theorem MdlFilled.calls (h : MdlFilled m mdl va len) (hva : va < 2 ^ 64) (calls : List MdlCall) :
    KeepsMdl m (calls.foldl (MdlCall.run mdl) m) mdl va len := by
  induction calls generalizing m with
  | nil => exact ⟨h, fun _ _ => rfl, rfl⟩
  | cons c calls ih =>
    have hfirst := h.call hva c
    have hrest := ih hfirst.filled
    exact ⟨hrest.filled, fun a ha => (hrest.inside a ha).trans (hfirst.inside a ha),
      hrest.size.trans hfirst.size⟩

/-! ## The pages of a buffer -/

/-- For a length that is a `ULONG` no sum of the macro wraps. -/
theorem span_eq (hlen : len < 2 ^ 32) :
    addressAndSizeToSpanPages va len = (va % 4096 + len + 4095) / 4096 := by
  unfold addressAndSizeToSpanPages
  omega

theorem pageNumber_eq (va i : Nat) : pageNumber va i = (va / 4096 + i) % 2 ^ 52 := by
  unfold pageNumber
  omega

/-- The pages that a buffer has a byte in are the ones that are counted. -/
theorem pages_touched (hpos : 0 < len) (hlen : len < 2 ^ 32) (page : Nat) :
    (∃ k, k < len ∧ (va + k) % 2 ^ 64 / 4096 = page) ↔
      ∃ i, i < addressAndSizeToSpanPages va len ∧ pageNumber va i = page := by
  rw [span_eq hlen]
  constructor
  · rintro ⟨k, hk, rfl⟩
    refine ⟨(va % 4096 + k) / 4096, by omega, ?_⟩
    rw [pageNumber_eq]
    omega
  · rintro ⟨i, hi, rfl⟩
    refine ⟨i * 4096 - va % 4096, ?_, ?_⟩
    · omega
    · rw [pageNumber_eq]
      omega

theorem pageNumber_inj (hlen : len < 2 ^ 32) {i j : Nat} (hi : i < addressAndSizeToSpanPages va len)
    (hj : j < addressAndSizeToSpanPages va len) (h : pageNumber va i = pageNumber va j) : i = j := by
  rw [span_eq hlen] at hi hj
  rw [pageNumber_eq, pageNumber_eq] at h
  omega

theorem span_pos (hpos : 0 < len) (hlen : len < 2 ^ 32) : 0 < addressAndSizeToSpanPages va len := by
  rw [span_eq hlen]
  omega

/-! ## Allocation -/

/-- What `IoAllocateMdl` writes before the array. -/
def newMdl (m : Mem) (mdl total va len : Nat) : Mem :=
  let m := m.blit mdl total fun _ => 0
  let m := m.write mdl 8 0
  let m := m.write (mdl + 0x08) 2 total
  let m := m.write (mdl + 0x0A) 2 mdlAllocatedFixedSize
  let m := m.write (mdl + 0x10) 8 0
  let m := m.write (mdl + 0x18) 8 0
  let m := m.write (mdl + 0x20) 8 (va / 4096 * 4096)
  let m := m.write (mdl + 0x28) 4 len
  m.write (mdl + 0x2C) 4 (va % 4096)

theorem newMdl_header (m : Mem) (mdl total : Nat) (hva : va < 2 ^ 64) (hlen : len < 2 ^ 32) :
    MdlHeader (newMdl m mdl total va len) mdl va len := by
  refine ⟨?_, ?_, ?_⟩ <;>
  · unfold newMdl
    simp (disch := omega) only [Mem.rd64, Mem.rd32, Mem.read_write_of_disjoint, Mem.read_write_of_lt]

theorem newMdl_size (m : Mem) (mdl total va len : Nat) :
    (newMdl m mdl total va len).rd16 (mdl + 0x08) = total % 65536 := by
  unfold newMdl
  simp (disch := omega) only [Mem.rd16, Mem.read_write_of_disjoint, Mem.read_write_same]
  rfl

theorem newMdl_inside (m : Mem) (mdl : Nat) {total : Nat} (va len : Nat) (htotal : mdlHeader ≤ total)
    {a : Nat} (ha : a < mdl ∨ mdl + total ≤ a) : newMdl m mdl total va len a = m a := by
  unfold mdlHeader at htotal
  unfold newMdl
  simp (disch := omega) only [Mem.write_outside, Mem.blit_outside]

theorem ioAllocateMdl_eq (m : Mem) (pool : Nat → Nat) (hpos : 0 < len)
    (hpool : pool (mmSizeOfMdl va len) ≠ 0) :
    ioAllocateMdl m pool va len =
      ⟨mdlFillPfnsIdentity (newMdl m (pool (mmSizeOfMdl va len)) (mmSizeOfMdl va len) va len)
        (pool (mmSizeOfMdl va len)), pool (mmSizeOfMdl va len), mmSizeOfMdl va len⟩ := by
  unfold ioAllocateMdl
  rw [if_neg hpos.ne']
  exact if_neg hpool

theorem ioAllocateMdl_null (m : Mem) (pool : Nat → Nat) (va : Nat)
    (h : len = 0 ∨ pool (mmSizeOfMdl va len) = 0) : (ioAllocateMdl m pool va len).mdl = 0 := by
  unfold ioAllocateMdl
  by_cases hzero : len = 0
  · rw [if_pos hzero]
  · rw [if_neg hzero]
    exact congrArg IoMdl.mdl (if_pos (h.resolve_left hzero))

theorem mmSizeOfMdl_eq (hpos : 0 < len) (hlen : len < 2 ^ 32) :
    mmSizeOfMdl va len = mdlHeader + 8 * addressAndSizeToSpanPages va len := by
  unfold mmSizeOfMdl
  simp only [if_neg (span_pos hpos hlen).ne', Nat.mul_comm]

/-- All that is promised of a new MDL but its `Size`. -/
theorem ioAllocateMdl_sound_iff (m : Mem) (pool : Nat → Nat) (hva : va < 2 ^ 64) (hpos : 0 < len)
    (hlen : len < 2 ^ 32) (hpool : pool (mmSizeOfMdl va len) ≠ 0) :
    MdlSound m (ioAllocateMdl m pool va len) va len ↔
      short (mmSizeOfMdl va len % 65536) = mmSizeOfMdl va len := by
  have htotal : mmSizeOfMdl va len = _ := mmSizeOfMdl_eq hpos hlen
  rw [ioAllocateMdl_eq m pool hpos hpool]
  generalize pool (mmSizeOfMdl va len) = mdl
  have hnew := newMdl_header m mdl (mmSizeOfMdl va len) hva hlen
  have hfill := hnew.fill hva
  have houtside := fun a ha => fillPfns_outside (newMdl m mdl (mmSizeOfMdl va len) va len) mdl
    (va / 4096 * 4096) (addressAndSizeToSpanPages va len) (a := a) ha
  rw [← mdlFillPfnsIdentity_eq hnew hva] at houtside
  have hsize : (mdlFillPfnsIdentity (newMdl m mdl (mmSizeOfMdl va len) va len) mdl).rd16 (mdl + 0x08) =
      mmSizeOfMdl va len % 65536 := by
    rw [← newMdl_size m mdl (mmSizeOfMdl va len) va len]
    refine (Mem.read_congr fun a _ hhi => (houtside a (.inl ?_)).symm).symm
    unfold mdlHeader
    omega
  constructor
  · intro h
    have hfield := h.sizeField
    rwa [hsize] at hfield
  · intro hshort
    refine ⟨rfl, by rw [hsize]; exact hshort, ⟨_, htotal, pages_touched hpos hlen,
      fun i j hi hj => pageNumber_inj hlen hi hj,
      fun calls => (hfill.calls hva calls).filled.describes hva⟩, fun calls a ha => ?_⟩
    have ha' : a < mdl ∨ mdl + mmSizeOfMdl va len ≤ a := ha
    have hend : a < mdl ∨ mdl + mdlHeader + 8 * addressAndSizeToSpanPages va len ≤ a := by omega
    refine ((hfill.calls hva calls).inside a hend).trans ((houtside a ?_).trans ?_)
    · omega
    · exact newMdl_inside m mdl va len (by omega) ha'

theorem short_eq_iff (n : Nat) : short (n % 65536) = n ↔ n < 32768 := by
  unfold short
  split <;> omega

/-- An MDL is what its callers take it for as long as its size fits the `SHORT` field. -/
theorem mdl_sound_iff (m : Mem) (pool : Nat → Nat) (va len : Nat) (hva : va < 2 ^ 64)
    (hlen : len < 2 ^ 32) :
    ((ioAllocateMdl m pool va len).mdl ≠ 0 → MdlSound m (ioAllocateMdl m pool va len) va len) ↔
      len = 0 ∨ pool (mmSizeOfMdl va len) = 0 ∨ va % 4096 + len ≤ 4089 * 4096 := by
  by_cases hnull : len = 0 ∨ pool (mmSizeOfMdl va len) = 0
  · exact iff_of_true (fun hne => absurd (ioAllocateMdl_null m pool va hnull) hne)
      (or_assoc.1 (.inl hnull))
  · obtain ⟨hzero, hpool⟩ := not_or.1 hnull
    have hpos : 0 < len := Nat.pos_of_ne_zero hzero
    have hmdl : (ioAllocateMdl m pool va len).mdl ≠ 0 := by
      rw [ioAllocateMdl_eq m pool hpos hpool]
      exact hpool
    have hfits : mmSizeOfMdl va len < 32768 ↔ va % 4096 + len ≤ 4089 * 4096 := by
      rw [mmSizeOfMdl_eq hpos hlen, span_eq hlen]
      unfold mdlHeader
      omega
    rw [ioAllocateMdl_sound_iff m pool hva hpos hlen hpool, short_eq_iff, hfits]
    simp only [hmdl, hzero, hpool, not_false_eq_true, forall_const, ne_eq, false_or]

theorem mdl_sound_iff_page : MdlSound (fun _ => 0xCC)
    (ioAllocateMdl (fun _ => 0xCC) (fun _ => 0x2000040) 0x2345678 0x1000) 0x2345678 0x1000 :=
  (mdl_sound_iff (fun _ => 0xCC) (fun _ => 0x2000040) 0x2345678 0x1000 (by decide) (by decide)).2
    (.inr (.inr (by decide))) (by decide)

/-- The MDL of 16 MiB says in `Size` that it is less than nothing long. -/
theorem mdl_size_wraps : ¬∀ (m : Mem) (pool : Nat → Nat) (va len : Nat), va < 2 ^ 64 → len < 2 ^ 32 →
    (ioAllocateMdl m pool va len).mdl ≠ 0 → MdlSound m (ioAllocateMdl m pool va len) va len := by
  intro hall
  have hpos : 0 < 0x1000000 := by decide
  have hlen : 0x1000000 < 2 ^ 32 := by decide
  have hsound := hall (fun _ => 0) (fun _ => 0x2000040) 0x4000000 0x1000000 (by decide) hlen
  rw [ioAllocateMdl_sound_iff _ _ (by decide) hpos hlen (by decide)] at hsound
  exact absurd (hsound (by rw [ioAllocateMdl_eq _ _ hpos (by decide)]; decide)) (by decide)

end MeuOS.Mm
