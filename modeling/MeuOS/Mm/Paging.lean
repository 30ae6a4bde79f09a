import MeuOS.Lib.Tables
import MeuOS.Mm.Pmm

/-! The four-level page tables behind `cr3`: the walk of the processor, and the loops that
map and unmap a range of 4 KiB pages. A table is the page its address names, 512 entries
read and written at their physical address. -/
namespace MeuOS.Mm

open MeuOS.Lib

def ptMask : BitVec 64 := 0x000FFFFFFFFFF000
def pgPresent : BitVec 64 := 0x1
def pgRw : BitVec 64 := 0x2
def pgUser : BitVec 64 := 0x4
def pgLarge : BitVec 64 := 0x80

structure Paging where
  mem : Tables (Fin 512) (BitVec 64)
  pmm : Pmm
  cr3 : BitVec 64

/-- `pt_addr`, as a page number. -/
def ptAddr (entry : BitVec 64) : Nat := (entry &&& ptMask).toNat / frame

def present (entry : BitVec 64) : Bool := entry &&& pgPresent != 0
def large (entry : BitVec 64) : Bool := entry &&& pgLarge != 0

instance entriesNeZero : NeZero 512 := ⟨by decide⟩

/-- `(v >> shift) & 0x1FF`. -/
def tableIdx (v shift : Nat) : Fin 512 := Fin.ofNat 512 (v / 2 ^ shift)

/-- `ensure_table`; the null pointer is page 0. -/
def ensureTable (s : Paging) (parent : Nat) (idx : Fin 512) (flags : BitVec 64) :
    Option (Nat × Paging) :=
  if present (s.mem parent idx) then some (ptAddr (s.mem parent idx), s)
  else
    (pmmAllocFrame s.pmm).bind fun (pmm, f) =>
      if f = 0 then some (0, { s with pmm := pmm })
      else
        let mem := (s.mem.clear (f / frame) 0).write parent idx (BitVec.ofNat 64 f ||| flags)
        some (ptAddr (mem parent idx), { s with mem := mem, pmm := pmm })

/-- One turn of the loop of `mm_map_phys_range`; 0 is its `return 0`. -/
def mapPage (s : Paging) (v p : Nat) (tblFlags pteFlags : BitVec 64) : Option (Nat × Paging) :=
  (ensureTable s (ptAddr s.cr3) (tableIdx v 39) tblFlags).bind fun (pdpt, s) =>
    if pdpt = 0 then some (0, s) else
    (ensureTable s pdpt (tableIdx v 30) tblFlags).bind fun (pd, s) =>
      if pd = 0 then some (0, s) else
      if large (s.mem pd (tableIdx v 21)) then some (0, s) else
      (ensureTable s pd (tableIdx v 21) tblFlags).bind fun (pt, s) =>
        if pt = 0 then some (0, s) else
        let pte := (BitVec.ofNat 64 p &&& ptMask) ||| pteFlags
        some (1, { s with mem := s.mem.write pt (tableIdx v 12) pte })

def mapPhysLoop (stop : Nat) (tblFlags pteFlags : BitVec 64) :
    Nat → Nat → Nat → Paging → Option (Nat × Paging)
  | 0, _, _, _ => none
  | fuel + 1, v, p, s =>
      if v < stop then
        (mapPage s v p tblFlags pteFlags).bind fun (r, s) =>
          if r = 0 then some (0, s)
          else mapPhysLoop stop tblFlags pteFlags fuel ((v + 0x1000) % 2 ^ 64)
            ((p + 0x1000) % 2 ^ 64) s
      else some (1, s)

def tblFlags : BitVec 64 := pgPresent ||| pgRw ||| pgUser

/-- `(virt + size + 0xFFF) & ~0xFFF`. -/
def rangeEnd (virt size : Nat) : Nat := (virt + size + 0xFFF) % 2 ^ 64 / frame * frame

def mmMapPhysRange (s : Paging) (virt phys size : Nat) (flags : BitVec 64) :
    Option (Nat × Paging) :=
  if size = 0 then some (0, s)
  else
    let v0 := virt / frame * frame
    let p0 := phys / frame * frame
    let stop := rangeEnd virt size
    mapPhysLoop stop tblFlags (flags ||| pgPresent ||| pgRw ||| pgUser)
      ((stop - v0) / frame + 1) v0 p0 s

/-- One turn of the loop of `mm_unmap_range`; 0 is its `return 0`. -/
def unmapPage (s : Paging) (v : Nat) : Nat × Paging :=
  let pml4e := s.mem (ptAddr s.cr3) (tableIdx v 39)
  if !present pml4e then (1, s) else
  let pdpte := s.mem (ptAddr pml4e) (tableIdx v 30)
  if !present pdpte then (1, s) else
  let pde := s.mem (ptAddr pdpte) (tableIdx v 21)
  if large pde then (0, s) else
  if !present pde then (1, s) else
  (1, { s with mem := s.mem.write (ptAddr pde) (tableIdx v 12) 0 })

def unmapLoop (stop : Nat) : Nat → Nat → Paging → Option (Nat × Paging)
  | 0, _, _ => none
  | fuel + 1, v, s =>
      if v < stop then
        match unmapPage s v with
        | (0, s) => some (0, s)
        | (_, s) => unmapLoop stop fuel ((v + 0x1000) % 2 ^ 64) s
      else some (1, s)

def mmUnmapRange (s : Paging) (virt size : Nat) : Option (Nat × Paging) :=
  if size = 0 then some (0, s)
  else
    let v0 := virt / frame * frame
    let stop := rangeEnd virt size
    unmapLoop stop ((stop - v0) / frame + 1) v0 s

/-! ## The walk of the processor -/

/-- What an entry says with `left` levels below it: the last one maps a 4 KiB page, bit 7
makes it a 2 MiB or a 1 GiB page in the two above. -/
def slot (left : Nat) (entry : BitVec 64) : Slot :=
  if !present entry then .empty
  else if left = 0 ∨ left < 3 ∧ large entry then .leaf
  else .table (ptAddr entry)

def path (va : Nat) : List (Fin 512) :=
  [tableIdx va 39, tableIdx va 30, tableIdx va 21, tableIdx va 12]

/-- Bits 63 to 47 of the address are equal. -/
def Canonical (va : Nat) : Prop := va < 2 ^ 47 ∨ 2 ^ 64 - 2 ^ 47 ≤ va ∧ va < 2 ^ 64

instance (va : Nat) : Decidable (Canonical va) := inferInstanceAs (Decidable (_ ∨ _))

/-- The physical page, the bits of the entry that ended the walk other than its address, and
the levels the walk left out. -/
structure Translation where
  page : Nat
  flags : BitVec 64
  left : Nat
deriving DecidableEq

def translation (va : Nat) (entry : BitVec 64) (left : Nat) : Translation where
  page := ptAddr entry / 512 ^ left * 512 ^ left + va / frame % 512 ^ left
  flags := entry &&& ~~~ptMask
  left := left

def Paging.entry (s : Paging) (va : Nat) : Option (BitVec 64 × Nat) :=
  Tables.lookup slot s.mem (ptAddr s.cr3) (path va)

def walk (s : Paging) (va : Nat) : Option Translation :=
  if Canonical va then (s.entry va).map fun (entry, left) => translation va entry left else none

/-! ## Entries -/

theorem present_eq (e : BitVec 64) : present e = e.getLsbD 0 := by
  have hbit : e &&& pgPresent = if e.getLsbD 0 then BitVec.twoPow 64 0 else 0#64 :=
    BitVec.and_twoPow e 0
  unfold present
  rw [hbit]
  cases e.getLsbD 0 <;> rfl

theorem large_eq (e : BitVec 64) : large e = e.getLsbD 7 := by
  have hbit : e &&& pgLarge = if e.getLsbD 7 then BitVec.twoPow 64 7 else 0#64 :=
    BitVec.and_twoPow e 7
  unfold large
  rw [hbit]
  cases e.getLsbD 7 <;> rfl

theorem testBit_ptMask (i : Nat) :
    ptMask.toNat.testBit i = (decide (12 ≤ i) && decide (i < 52)) := by
  have hmask : ptMask.toNat = (2 ^ 40 - 1) * 2 ^ 12 := rfl
  rw [hmask, Nat.testBit_mul_two_pow, Nat.testBit_two_pow_sub_one]
  by_cases hi : 12 ≤ i
  · simp only [hi, decide_true, Bool.true_and, decide_eq_decide]
    omega
  · simp only [hi, decide_false, Bool.false_and]

theorem ptAddr_eq (e : BitVec 64) : ptAddr e = e.toNat / 2 ^ 12 % 2 ^ 40 := by
  unfold ptAddr
  apply Nat.eq_of_testBit_eq
  intro i
  change ((e &&& ptMask).toNat / 2 ^ 12).testBit i = _
  rw [BitVec.toNat_and, Nat.testBit_div_two_pow, Nat.testBit_and, testBit_ptMask,
    Nat.testBit_mod_two_pow, Nat.testBit_div_two_pow]
  have hlow : 12 ≤ i + 12 := Nat.le_add_left _ _
  have hhigh : i + 12 < 52 ↔ i < 40 := by omega
  simp only [hlow, hhigh, decide_true, Bool.true_and, Bool.and_comm]

theorem ptAddr_or (a b : BitVec 64) : ptAddr (a ||| b) = ptAddr a ||| ptAddr b := by
  simp only [ptAddr_eq, BitVec.toNat_or, Nat.or_div_two_pow, Nat.or_mod_two_pow]

theorem ptAddr_and_ptMask (e : BitVec 64) : ptAddr (e &&& ptMask) = ptAddr e := by
  unfold ptAddr
  rw [BitVec.and_assoc, BitVec.and_self]

theorem ptAddr_ofNat (q : Nat) : ptAddr (BitVec.ofNat 64 (q * frame)) = q % 2 ^ 40 := by
  rw [ptAddr_eq, BitVec.toNat_ofNat]
  unfold frame
  omega

theorem slot_zero (left : Nat) : slot left 0 = .empty := rfl

theorem slot_three {e : BitVec 64} (h : present e = true) : slot 3 e = .table (ptAddr e) := by
  unfold slot
  simp [h]

/-- The flags of an entry for a table: no bit of an address, and not those of a large page. -/
structure LinkFlags (flags : BitVec 64) : Prop where
  present : Mm.present flags = true
  small : large flags = false
  plain : ptAddr flags = 0

theorem tblFlags_link : LinkFlags tblFlags := ⟨rfl, rfl, by decide⟩

section Link

variable {flags : BitVec 64} {f : Nat} (h : LinkFlags flags) (hf : f < maxFrames)
include h

theorem present_link : present (BitVec.ofNat 64 (f * frame) ||| flags) = true := by
  have hflags := h.present
  rw [present_eq] at hflags
  rw [present_eq, BitVec.getLsbD_or, hflags, Bool.or_true]

theorem large_link : large (BitVec.ofNat 64 (f * frame) ||| flags) = false := by
  have hflags := h.small
  rw [large_eq] at hflags
  have hbit : (f * frame).testBit 7 = false := by
    change (f * 2 ^ 12).testBit 7 = false
    rw [Nat.testBit_mul_two_pow]
    rfl
  rw [large_eq, BitVec.getLsbD_or, BitVec.getLsbD_ofNat, hbit, hflags]
  rfl

include hf

theorem ptAddr_link : ptAddr (BitVec.ofNat 64 (f * frame) ||| flags) = f := by
  rw [maxFrames_eq] at hf
  rw [ptAddr_or, ptAddr_ofNat, h.plain, Nat.or_zero]
  omega

/-- The entry `ensure_table` writes for a page it has just been given. -/
theorem slot_link {left : Nat} (hleft : 0 < left) :
    slot left (BitVec.ofNat 64 (f * frame) ||| flags) = .table f := by
  unfold slot
  simp [present_link h, large_link h, ptAddr_link h hf, hleft.ne']

end Link

end MeuOS.Mm
