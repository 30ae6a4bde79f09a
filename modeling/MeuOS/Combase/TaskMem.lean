import MeuOS.Lib.Bump

/-! The task memory of COM: one static array, which objects, the buffers of streams and strings come from too.
Nothing is given back. -/
namespace MeuOS.Combase

open MeuOS.Lib Bump

/-- `sizeof(g_comheap)`. -/
def comHeapSize : Nat := 0x200000

section

variable (base gComOff : Nat)

/-- The pointer and `g_comoff`; a block without bytes is refused. -/
def arenaAlloc (cb : Nat) : Nat × Nat := bump comHeapSize (· == 0) base gComOff cb

def coTaskMemAlloc (cb : Nat) : Nat × Nat := arenaAlloc base gComOff cb

/-- The old block is not looked at. -/
def coTaskMemRealloc (_p cb : Nat) : Nat × Nat := arenaAlloc base gComOff cb

end

inductive TaskCall
  | alloc (cb : Nat)
  /-- A null pointer is `none`. -/
  | realloc (p : Option Block) (cb : Nat)

def TaskCall.serve (base : Nat) (c : TaskCall) (off : Nat) (m : Mem) : Nat × Nat × Mem :=
  match c with
  | .alloc cb => let (p, off) := coTaskMemAlloc base off cb; (p, off, m)
  | .realloc p cb => let (q, off) := coTaskMemRealloc base off ((p.map Block.lo).getD 0) cb; (q, off, m)

def TaskCall.ask : TaskCall → Request
  | .alloc cb => ⟨cb, false, none⟩
  | .realloc p cb => ⟨cb, false, p⟩

/-- The size is of 64 bits; the call is refused, or no size wraps around and a reallocation has nothing to keep. -/
def TaskCall.Meets (off : Nat) (c : TaskCall) : Prop :=
  c.ask.bytes < 2 ^ 64 ∧ Bump.Meets comHeapSize (· == 0) off c.ask

abbrev taskHeap (a : Arena comHeapSize) : Allocator Nat TaskCall :=
  arenaAllocator a (TaskCall.serve a.base) TaskCall.ask

theorem taskHeap_sound (a : Arena comHeapSize) : (taskHeap a).Sound fun off c => c.Meets off := by
  refine arena_sound fun c off m h16 _ h => ?_
  obtain ⟨hsized, hmeets⟩ := h
  cases c with
  | alloc cb => exact serves_plain (r := ⟨cb, false, none⟩) h16 hsized rfl hmeets
  | realloc p cb => exact serves_plain (r := ⟨cb, false, p⟩) h16 hsized rfl hmeets

end MeuOS.Combase
