import MeuOS.Lib.Mem
import Mathlib.Data.List.Basic

/-! Strings that end in a zero byte: the characters a caller means, and the same characters
in memory. -/
namespace MeuOS.Lib

/-- The characters in front of the terminator. -/
structure CString where
  chars : List UInt8
  terminated : 0 ∉ chars

/-- A string constant of the source. -/
def ascii (s : String) : List UInt8 := s.toList.map fun c => c.toNat.toUInt8

namespace Mem

/-- `l` and a terminator, at `a`. -/
def Str (m : Mem) (a : Nat) (l : List UInt8) : Prop := ∀ i ≤ l.length, m (a + i) = l.getD i 0

variable {m m' : Mem} {a : Nat} {c : UInt8} {l : List UInt8}

theorem str_nil : m.Str a [] ↔ m a = 0 := by
  constructor
  · exact fun h => h 0 (Nat.le_refl _)
  · intro h i hi
    obtain rfl := Nat.le_zero.1 hi
    exact h

theorem str_cons : m.Str a (c :: l) ↔ m a = c ∧ m.Str (a + 1) l := by
  constructor
  · refine fun h => ⟨h 0 (Nat.zero_le _), fun i hi => ?_⟩
    have hnext := h (i + 1) (Nat.succ_le_succ hi)
    rwa [List.getD_cons_succ, show a + (i + 1) = a + 1 + i by omega] at hnext
  · rintro ⟨hfirst, hrest⟩ i hi
    cases i with
    | zero => exact hfirst
    | succ i =>
      rw [List.getD_cons_succ, show a + (i + 1) = a + 1 + i by omega]
      exact hrest i (Nat.le_of_succ_le_succ hi)

theorem Str.congr (h : m.Str a l) (hsame : Agree m m' a (a + l.length + 1)) : m'.Str a l :=
  fun i hi => (hsame (a + i) (Nat.le_add_right ..) (by omega)).symm.trans (h i hi)

/-- Copying the characters and then the terminator. -/
theorem str_copy (m : Mem) (a : Nat) (l : List UInt8) :
    ((m.blit a l.length fun i => l.getD i 0).write (a + l.length) 1 0).Str a l := by
  intro i hi
  rcases Nat.lt_or_eq_of_le hi with hlt | rfl
  · rw [write_outside _ _ (.inl (by omega)), blit_inside _ _ (by omega) (by omega),
      Nat.add_sub_cancel_left]
  · unfold write
    rw [blit_inside _ _ (Nat.le_refl _) (by omega), Nat.sub_self, List.getD_eq_getElem?_getD,
      List.getElem?_eq_none (Nat.le_refl _)]
    rfl

end Mem

end MeuOS.Lib
