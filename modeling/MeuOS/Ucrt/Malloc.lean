import MeuOS.Lib.Bump

/-! The heap of the C runtime: one static array, and `free` does nothing. -/
namespace MeuOS.Ucrt

open MeuOS.Lib Bump

/-- `sizeof(g_heap)`. -/
def gHeapSize : Nat := 0x20000

section

variable (base gHeapOff : Nat)

/-- The pointer and `g_heap_off`. -/
def malloc (n : Nat) : Nat × Nat := bump gHeapSize (fun _ => false) base gHeapOff n

def calloc (m : Mem) (a b : Nat) : Nat × Nat × Mem :=
  let n := a * b % 2 ^ 64
  let (p, off) := malloc base gHeapOff n
  (p, off, if p ≠ 0 then m.fillUp p n 0 else m)

/-- The old block is not looked at. -/
def realloc (_p n : Nat) : Nat × Nat := malloc base gHeapOff n

end

inductive MallocCall
  | malloc (n : Nat)
  | calloc (a b : Nat)
  /-- A null pointer is `none`. -/
  | realloc (p : Option Block) (n : Nat)

def MallocCall.serve (base : Nat) (c : MallocCall) (off : Nat) (m : Mem) : Nat × Nat × Mem :=
  match c with
  | .malloc n => let (p, off) := Ucrt.malloc base off n; (p, off, m)
  | .calloc a b => Ucrt.calloc base off m a b
  | .realloc p n => let (q, off) := Ucrt.realloc base off ((p.map Block.lo).getD 0) n; (q, off, m)

def MallocCall.ask : MallocCall → Request
  | .malloc n => ⟨n, false, none⟩
  | .calloc a b => ⟨a * b, true, none⟩
  | .realloc p n => ⟨n, false, p⟩

/-- The arguments are of 64 bits. -/
def MallocCall.Sized : MallocCall → Prop
  | .malloc n => n < 2 ^ 64
  | .calloc a b => a < 2 ^ 64 ∧ b < 2 ^ 64
  | .realloc _ n => n < 2 ^ 64

abbrev ucrtHeap (a : Arena gHeapSize) : Allocator Nat MallocCall :=
  arenaAllocator a (MallocCall.serve a.base) MallocCall.ask

/-- The call is refused for lack of room, or no size wraps around and a reallocation has nothing to keep. -/
def MallocCall.Meets (off : Nat) (c : MallocCall) : Prop :=
  c.Sized ∧ Bump.Meets gHeapSize (fun _ => false) off c.ask

variable (a : Arena gHeapSize) {off : Nat} {m : Mem}

theorem calloc_serves {x y : Nat} (h16 : off % 16 = 0)
    (h : Bump.Meets gHeapSize (fun _ => false) off ⟨x * y, true, none⟩) :
    Serves a ⟨x * y, true, none⟩ off m (calloc a.base off m x y) := by
  have hpos := a.pos
  have hbump := serves_bump (a := a) h16 rfl h
  dsimp only at hbump
  unfold calloc malloc
  dsimp only
  rcases hbump with hnull | ⟨off', hgiven, hfits, hkept, hn⟩
  · rw [hnull]
    exact .inl rfl
  · rw [hgiven, hn, if_pos (show a.base + off ≠ 0 by omega)]
    exact .inr ⟨off', _, rfl, hfits, hkept, fun i hi => Mem.fillUp_outside (.inl hi),
      fun _ i hi => Mem.fillUp_inside hi⟩

theorem malloc_serves (c : MallocCall) (off : Nat) (m : Mem) (h16 : off % 16 = 0) (h : c.Meets off) :
    Serves a c.ask off m (c.serve a.base off m) := by
  obtain ⟨hsized, hmeets⟩ := h
  cases c with
  | malloc n => exact serves_plain (r := ⟨n, false, none⟩) h16 hsized rfl hmeets
  | calloc x y => exact calloc_serves a h16 hmeets
  | realloc p n => exact serves_plain (r := ⟨n, false, p⟩) h16 hsized rfl hmeets

theorem ucrtHeap_sound : (ucrtHeap a).Sound fun off c => c.Meets off :=
  arena_sound fun c off m h16 _ h => malloc_serves a c off m h16 h

end MeuOS.Ucrt
