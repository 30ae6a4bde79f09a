import Mathlib.Algebra.Ring.Int.Defs

/-! Arithmetic of 32-bit signed integers: a sum is cut to the range of the type. -/
namespace MeuOS.Lib

/-- What is left of a sum or a product in 32 bits. -/
def wrap32 (n : Int) : Int := (n + 2 ^ 31) % 2 ^ 32 - 2 ^ 31

def IsInt32 (n : Int) : Prop := -2 ^ 31 ≤ n ∧ n < 2 ^ 31

instance (n : Int) : Decidable (IsInt32 n) := inferInstanceAs (Decidable (_ ∧ _))

theorem wrap32_eq_iff {n : Int} : wrap32 n = n ↔ IsInt32 n := by
  unfold IsInt32 wrap32
  omega

theorem IsInt32.wrap32_eq {n : Int} (h : IsInt32 n) : wrap32 n = n := wrap32_eq_iff.2 h

/-- A sum of two numbers of the type that are not negative comes out right or negative. -/
theorem wrap32_of_nonneg {n : Int} (hn : 0 ≤ n) (hlt : n < 2 ^ 32) :
    wrap32 n = if n < 2 ^ 31 then n else n - 2 ^ 32 := by
  unfold wrap32
  split <;> omega

end MeuOS.Lib
