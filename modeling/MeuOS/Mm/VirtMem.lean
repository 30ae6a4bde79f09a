import MeuOS.Mm.PmmRuns
import Mathlib.Algebra.Order.BigOperators.Group.List

/-! `MmAllocateVirtualMemory` and `MmFreeVirtualMemory` on memory that is mapped one to one, and
the regions a client holds. No record of a region is kept: a release goes by the base and the
size that it is given. -/
namespace MeuOS.Mm

open MeuOS.Lib

def memRelease : Nat := 0x8000
def statusInsufficientResources : Nat := 0xC000009A

structure VirtMem where
  pmm : Pmm
  mem : Mem
  sVmAllocs : Nat
  sVmFrees : Nat
  sVmBytes : Nat

/-- The status and what `*BaseAddress` and `*RegionSize` hold afterwards. -/
structure VmReply where
  status : Nat
  baseAddress : Option Nat
  regionSize : Option Nat
  deriving DecidableEq

/-- `MmAllocateVirtualMemory_k`; a null pointer argument is `none`. -/
def mmAllocateVirtualMemory (s : VirtMem) (baseAddress regionSize : Option Nat) :
    Option (VmReply × VirtMem) :=
  match baseAddress, regionSize with
  | some base, some req =>
      if req = 0 then some (⟨statusInvalidParameter, some base, some req⟩, s)
      else
        let aligned := roundUpPages req
        (pmmAllocContiguous s.pmm (aligned / frame)).bind fun (pmm, phys) =>
          if phys = 0 then
            some (⟨statusInsufficientResources, some base, some req⟩, { s with pmm := pmm })
          else
            some (⟨statusSuccess, some phys, some aligned⟩,
              { s with pmm := pmm, mem := s.mem.blit phys aligned fun _ => 0,
                       sVmAllocs := (s.sVmAllocs + 1) % 2 ^ 64,
                       sVmBytes := (s.sVmBytes + aligned) % 2 ^ 64 })
  | _, _ => some (⟨statusInvalidParameter, baseAddress, regionSize⟩, s)

/-- The counters of `MmFreeVirtualMemory_k`, beside the frames that `mmFreeVirtualMemory` frees. -/
def VirtMem.free (s : VirtMem) (baseAddress regionSize : Option Nat) (freeType : Nat) : Nat × VirtMem :=
  let (status, pmm) := mmFreeVirtualMemory s.pmm baseAddress regionSize freeType
  match baseAddress, regionSize with
  | some base, some size =>
      if base = 0 ∨ freeType &&& memDecommit ≠ 0 then (status, { s with pmm := pmm })
      else
        let aligned := roundUpPages (if size = 0 then frame else size)
        (status, { s with pmm := pmm, sVmFrees := (s.sVmFrees + 1) % 2 ^ 64,
                          sVmBytes := if aligned ≤ s.sVmBytes then s.sVmBytes - aligned else 0 })
  | _, _ => (status, { s with pmm := pmm })

/-! ## Regions -/

structure Region where
  base : Nat
  size : Nat
  deriving DecidableEq

/-- The frames of the pages that the region has a byte in. -/
def Region.Touches (r : Region) (f : Nat) : Prop := ∃ i, r.base ≤ i ∧ i < r.base + r.size ∧ i / frame = f

structure Region.Aligned (r : Region) : Prop where
  base : r.base % frame = 0
  size : r.size % frame = 0
  pos : 0 < r.size

/-- The first frame of a region of whole pages. -/
def Region.first (r : Region) : Nat := r.base / frame

def Region.pages (r : Region) : Nat := r.size / frame

theorem Region.Aligned.size_eq {r : Region} (h : r.Aligned) : r.size = r.pages * frame := by
  have hsize := h.size
  unfold Region.pages frame at *
  omega

theorem Region.Aligned.base_eq {r : Region} (h : r.Aligned) : r.base = r.first * frame := by
  have hbase := h.base
  unfold Region.first frame at *
  omega

theorem Region.Aligned.pages_pos {r : Region} (h : r.Aligned) : 0 < r.pages := by
  have hpos := h.pos
  rw [h.size_eq] at hpos
  exact Nat.pos_of_mul_pos_right hpos

theorem Region.touches_iff {r : Region} (hpos : 0 < r.size) (f : Nat) :
    r.Touches f ↔ r.base / frame ≤ f ∧ f ≤ (r.base + r.size - 1) / frame := by
  constructor
  · rintro ⟨i, hlo, hhi, rfl⟩
    exact ⟨Nat.div_le_div_right hlo, Nat.div_le_div_right (by omega)⟩
  · rintro ⟨hlo, hhi⟩
    refine ⟨max r.base (f * frame), Nat.le_max_left _ _, ?_, ?_⟩ <;>
    · unfold frame at *
      omega

theorem Region.Aligned.touches_iff {r : Region} (h : r.Aligned) (f : Nat) :
    r.Touches f ↔ r.first ≤ f ∧ f < r.first + r.pages := by
  have hbase := h.base_eq
  have hsize := h.size_eq
  have hpages := h.pages_pos
  rw [Region.touches_iff h.pos, ← Region.first]
  refine and_congr_right fun _ => ?_
  generalize r.first = a at *
  generalize r.pages = n at *
  rw [hbase, hsize]
  unfold frame
  omega

/-- The client holds the regions in `live`. -/
structure VmWorld where
  vm : VirtMem
  live : List Region

inductive VmOp
  | allocate (baseAddress regionSize : Nat)
  /-- `MEM_RELEASE` with this `RegionSize`. -/
  | release (r : Region) (regionSize : Nat)
  /-- The memory is written, by whom ever. -/
  | write (mem : Mem)

/-- What the reply to an allocation adds to the regions of the client. -/
def VmReply.region (r : VmReply) : List Region :=
  match r with
  | ⟨status, some base, some size⟩ => if status = statusSuccess then [⟨base, size⟩] else []
  | _ => []

inductive VmStep : VmWorld → VmOp → VmWorld → Prop
  | allocate (w : VmWorld) (base req : Nat) (hreq : req < 2 ^ 64) (reply : VmReply) (vm : VirtMem)
      (hcall : mmAllocateVirtualMemory w.vm (some base) (some req) = some (reply, vm)) :
      VmStep w (.allocate base req) ⟨vm, reply.region ++ w.live⟩
  | release (w : VmWorld) (r : Region) (size : Nat) (hr : r ∈ w.live) (hsize : size = 0 ∨ size = r.size) :
      VmStep w (.release r size) ⟨(w.vm.free (some r.base) (some size) memRelease).2, w.live.erase r⟩
  | write (w : VmWorld) (mem : Mem) : VmStep w (.write mem) { w with vm := { w.vm with mem := mem } }

/-- Before the first region: an allocator in any state that its counter and its map agree in. -/
structure VmStart (w : VmWorld) : Prop where
  counted : w.vm.pmm.Counted
  bytes : w.vm.sVmBytes = 0
  live : w.live = []

/-- A `RegionSize` of 0 is given for regions of one page only. -/
def VmMeets (_ : VmWorld) : VmOp → Prop
  | .release r size => size = r.size ∨ r.size = frame
  | _ => True

/-- A release whose two roundings go over every page that the range touches. -/
def FreesTouched (base size : Nat) : Prop :=
  ∀ p : Pmm, ∀ f, f < maxFrames → (⟨base, size⟩ : Region).Touches f →
    Bitmap.test (mmFreeVirtualMemory p (some base) (some size) memRelease).2.bitmap f = false

/-- The range is empty or above the map, or no sum wraps and its length, rounded up, does not
stop short of its last page in the map. -/
def ReleaseFits (base size : Nat) : Prop :=
  size = 0 ∨ maxFrames ≤ base / frame ∨
    (size + (frame - 1) < 2 ^ 64 ∧
      base / frame * frame + (size + (frame - 1)) / frame * frame < 2 ^ 64 ∧
      (base % frame + size ≤ (size + (frame - 1)) / frame * frame ∨
        maxFrames ≤ base / frame + (size + (frame - 1)) / frame))

/-- What a client of virtual memory is promised, in a run that started from `w₀`. -/
structure VmSound (w₀ w : VmWorld) : Prop where
  disjoint : w.live.Pairwise fun r q => r.base + r.size ≤ q.base ∨ q.base + q.size ≤ r.base
  aligned : ∀ r ∈ w.live, r.Aligned
  allocate : ∀ base req, req < 2 ^ 64 →
    ∃ reply vm, mmAllocateVirtualMemory w.vm (some base) (some req) = some (reply, vm) ∧
      ∀ r ∈ reply.region, req ≤ r.size ∧ ∀ i, r.base ≤ i → i < r.base + r.size → vm.mem i = 0
  release : ∀ r ∈ w.live, ∀ size, (size = 0 ∨ size = r.size) → VmMeets w (.release r size) →
    ∀ f, Bitmap.test (w.vm.free (some r.base) (some size) memRelease).2.pmm.bitmap f = true ↔
      Bitmap.test w.vm.pmm.bitmap f = true ∧ ¬r.Touches f
  bytes : w.vm.sVmBytes = (w.live.map Region.size).sum
  drained : w.live = [] → w.vm.pmm = w₀.vm.pmm

end MeuOS.Mm
