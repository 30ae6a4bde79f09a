import MeuOS.Lib.Mem
import Mathlib.Algebra.Order.BigOperators.Group.Finset
import Mathlib.Order.Interval.Finset.Nat

/-! The object manager. An `OBJECT_HEADER` is 80 bytes in front of the body it
describes, `{ Type, RefCount, HandleCount, Reserved, Name[64] }`, and the handle table
maps an index to a body. Every access to a header goes through memory, so what a call
does to a block that is no object can be stated too. -/
namespace MeuOS.Ob

open MeuOS.Lib

/-- `sizeof(OBJECT_HEADER)`. -/
def objectHeader : Nat := 80
def maxNamed : Nat := 64
def maxHandles : Nat := 256
def maxObjects : Nat := 256

def obTypeNone : Nat := 0

structure ObState where
  mem : Mem
  /-- `s_handles`: index to body, 0 for a free slot. -/
  sHandles : Nat → Nat
  sNamed : List Nat
  sAll : List Nat

def typeAt (b : Nat) : Nat := b - objectHeader
def refCountAt (b : Nat) : Nat := b - objectHeader + 4
def handleCountAt (b : Nat) : Nat := b - objectHeader + 8
def nameAt (b : Nat) : Nat := b - objectHeader + 16

def objType (m : Mem) (b : Nat) : Nat := m.rd32 (typeAt b)
def refCount (m : Mem) (b : Nat) : Int := int32 (m.rd32 (refCountAt b))
def handleCount (m : Mem) (b : Nat) : Int := int32 (m.rd32 (handleCountAt b))

/-- `++` and `--` on an `int32_t` in memory; `d` is 1 or its two's complement. -/
def addInt32 (m : Mem) (a d : Nat) : Mem := m.write a 4 ((m.rd32 a + d) % 4294967296)

def incr (m : Mem) (a : Nat) : Mem := addInt32 m a 1
def decr (m : Mem) (a : Nat) : Mem := addInt32 m a 4294967295

def obInit (s : ObState) : ObState :=
  { s with sNamed := [], sAll := [], sHandles := fun i => if i < maxHandles then 0 else s.sHandles i }

/-- The bytes `ObCreateObject` copies into `Name`: at most 63, then a terminator. -/
def writeName (m : Mem) (b : Nat) (name : List UInt8) : Mem :=
  let copied := name.take 63
  (m.blit (nameAt b) copied.length fun i => copied.getD i 0).write (nameAt b + copied.length) 1 0

/-- `ObCreateObject`, with `kmalloc`'s answer as an argument. -/
def obCreateObject (s : ObState) (hdr type bodySize : Nat) (name : Option (List UInt8)) :
    ObState × Nat :=
  if hdr = 0 then (s, 0)
  else
    let body := hdr + objectHeader
    let m := s.mem.write (typeAt body) 4 type
    let m := m.write (refCountAt body) 4 1
    let m := m.write (handleCountAt body) 4 0
    let m := m.write (hdr + 12) 4 0
    let m := writeName m body (name.getD [])
    let m := m.blit body bodySize fun _ => 0
    let named := (name.getD []) ≠ [] ∧ s.sNamed.length < maxNamed
    ({ s with mem := m,
              sNamed := if named then s.sNamed ++ [body] else s.sNamed,
              sAll := if s.sAll.length < maxObjects then s.sAll ++ [body] else s.sAll }, body)

def obReferenceObject (s : ObState) (b : Nat) : ObState :=
  if b = 0 then s else { s with mem := incr s.mem (refCountAt b) }

def obDereferenceObject (s : ObState) (b : Nat) : ObState :=
  if b = 0 then s else { s with mem := decr s.mem (refCountAt b) }

/-- The lowest free index from `i` on, with `left` to try. -/
def freeSlotLoop (t : Nat → Nat) : Nat → Nat → Option Nat
  | 0, _ => none
  | left + 1, i => if t i = 0 then some i else freeSlotLoop t left (i + 1)

def obCreateHandle (s : ObState) (b : Nat) : ObState × Nat :=
  match freeSlotLoop s.sHandles (maxHandles - 1) 1 with
  | some i =>
      (obReferenceObject { s with sHandles := Function.update s.sHandles i b,
                                  mem := incr s.mem (handleCountAt b) } b, i * 4)
  | none => (s, 0)

/-- `int i = (int)(v / 4)` and the range test: the slot a handle value designates. -/
def handleSlot (v : Nat) : Option Nat :=
  let i := int32 (v / 4)
  if v = 0 ∨ i ≤ 0 ∨ (maxHandles : Int) ≤ i then none else some i.toNat

/-- The occupied slot behind a handle value, with the body in it. -/
def handleEntry (s : ObState) (v : Nat) : Option (Nat × Nat) :=
  (handleSlot v).bind fun i => if s.sHandles i = 0 then none else some (i, s.sHandles i)

def obHandleToObject (s : ObState) (v type : Nat) : Nat :=
  match handleEntry s v with
  | some (_, b) => if type ≠ obTypeNone ∧ objType s.mem b ≠ type then 0 else b
  | none => 0

def obCloseHandle (s : ObState) (v : Nat) : ObState :=
  match handleEntry s v with
  | some (i, b) =>
      obDereferenceObject { s with sHandles := Function.update s.sHandles i 0,
                                   mem := decr s.mem (handleCountAt b) } b
  | none => s

/-! ## `PsCreateSystemThread` mints thread ids -/

/-- `PsCreateSystemThread_k` up to the inline call of the routine: the new counter,
the status and the value stored through `ThreadHandle`. -/
def psCreateSystemThread (sTid startRoutine : Nat) : Nat × Nat × Option Nat :=
  if startRoutine = 0 then (sTid, 0xC000000D, none)
  else
    let tid := (sTid + 1) % 2 ^ 32
    (tid, 0, some tid)

/-! ## Slots -/

theorem freeSlotLoop_some {t : Nat → Nat} {left i j : Nat} (h : freeSlotLoop t left i = some j) :
    i ≤ j ∧ j < i + left ∧ t j = 0 := by
  induction left generalizing i with
  | zero => cases h
  | succ left ih =>
    unfold freeSlotLoop at h
    split at h
    case isTrue hfree =>
      cases h
      exact ⟨Nat.le_refl _, by omega, hfree⟩
    case isFalse =>
      obtain ⟨hle, hlt, hfree⟩ := ih h
      exact ⟨by omega, by omega, hfree⟩

theorem freeSlotLoop_none {t : Nat → Nat} {left i : Nat} :
    freeSlotLoop t left i = none ↔ ∀ j, i ≤ j → j < i + left → t j ≠ 0 := by
  induction left generalizing i with
  | zero => simp only [freeSlotLoop, true_iff]; omega
  | succ left ih =>
    unfold freeSlotLoop
    split
    case isTrue hfree =>
      simp only [reduceCtorEq, false_iff]
      exact fun h => h i (Nat.le_refl _) (by omega) hfree
    case isFalse hused =>
      rw [ih]
      constructor
      · intro h j hle hlt
        rcases Nat.eq_or_lt_of_le hle with rfl | hlt'
        · exact hused
        · exact h j hlt' (by omega)
      · exact fun h j hle hlt => h j (by omega) (by omega)

theorem handleSlot_eq_some {v i : Nat} :
    handleSlot v = some i ↔ int32 (v / 4) = i ∧ 1 ≤ i ∧ i < maxHandles := by
  have hzero : int32 (0 / 4) = 0 := by decide
  unfold handleSlot
  simp only
  split
  case isTrue hout =>
    simp only [reduceCtorEq, false_iff]
    rintro ⟨hi, hlo, hhi⟩
    rcases hout with rfl | hout
    · omega
    · omega
  case isFalse hin =>
    rw [Option.some.injEq]
    omega

/-- Encoding then decoding gives the index back. -/
theorem handleSlot_mul_four {i : Nat} (hlo : 1 ≤ i) (hhi : i < maxHandles) :
    handleSlot (i * 4) = some i := by
  have hsmall : i < 256 := hhi
  rw [handleSlot_eq_some, Nat.mul_div_cancel i (by decide), int32_of_lt (by omega)]
  exact ⟨rfl, hlo, hhi⟩

theorem obHandleToObject_mul_four {s : ObState} {i k : Nat} (hlo : 1 ≤ i) (hhi : i < maxHandles)
    (hentry : s.sHandles i = k) (hk : k ≠ 0) (type : Nat) :
    obHandleToObject s (i * 4) type =
      if type ≠ obTypeNone ∧ objType s.mem k ≠ type then 0 else k := by
  have hslot : handleEntry s (i * 4) = some (i, k) := by
    simp [handleEntry, handleSlot_mul_four hlo hhi, hentry, hk]
  simp only [obHandleToObject, hslot]

/-! ## Counters in memory -/

theorem addInt32_outside (m : Mem) {a d i : Nat} (h : i < a ∨ a + 4 ≤ i) :
    addInt32 m a d i = m i :=
  Mem.write_outside m _ h

theorem rd32_addInt32_of_disjoint (m : Mem) {a d o : Nat} (h : o + 4 ≤ a ∨ a + 4 ≤ o) :
    (addInt32 m a d).rd32 o = m.rd32 o :=
  Mem.read_write_of_disjoint m _ h

theorem int32_incr {m : Mem} {a : Nat} (h : int32 (m.rd32 a) < 2147483647) :
    int32 ((incr m a).rd32 a) = int32 (m.rd32 a) + 1 := by
  unfold incr addInt32
  rw [Mem.rd32_write m a (Nat.mod_lt _ (by decide)), int32_succ h]

theorem int32_decr {m : Mem} {a : Nat} (h : -2147483648 < int32 (m.rd32 a)) :
    int32 ((decr m a).rd32 a) = int32 (m.rd32 a) - 1 := by
  unfold decr addInt32
  rw [Mem.rd32_write m a (Nat.mod_lt _ (by decide)), int32_pred h]

end MeuOS.Ob
