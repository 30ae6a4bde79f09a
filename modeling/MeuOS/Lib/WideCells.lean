import Mathlib.Data.List.GetD
import Mathlib.Logic.Function.Basic

/-! An array of wide characters that knows how far it was written to, and the loops that copy to it. -/
namespace MeuOS.Lib

/-- The cells of an array, and one more than the highest place that was written to. -/
structure WideCells where
  cells : Nat → UInt16
  top : Nat

def WideCells.put (d : WideCells) (i : Nat) (c : UInt16) : WideCells where
  cells := Function.update d.cells i c
  top := max d.top (i + 1)

/-- `for (; s[i] && guard; i++) d[l+i] = s[i]`. -/
def copyWhile (guard : Nat → Bool) (d : WideCells) (l i : Nat) : List UInt16 → WideCells × Nat
  | [] => (d, i)
  | c :: cs => if guard i then copyWhile guard (d.put (l + i) c) l (i + 1) cs else (d, i)

/-- `for (i = 0; i < n; i++) d[l+i] = f(i)`. -/
def WideCells.fill (b : WideCells) (l : Nat) (f : Nat → UInt16) : Nat → WideCells
  | 0 => b
  | n + 1 => (b.fill l f n).put (l + n) (f n)

section Copy

variable {guard : Nat → Bool} {lim l i n : Nat} {s : List UInt16}

/-- The loop stops at the end of the source or at the limit, whichever is first. -/
theorem copyWhile_eq {b : WideCells} (hguard : ∀ i, guard i = decide (i < lim)) :
    (copyWhile guard b l i s).2 = i + min s.length (lim - i) ∧
    (∀ j, (copyWhile guard b l i s).1.cells j =
      if l + i ≤ j ∧ j < l + i + min s.length (lim - i) then s.getD (j - (l + i)) 0 else b.cells j) ∧
    (copyWhile guard b l i s).1.top ≤ max b.top (l + i + min s.length (lim - i)) := by
  induction s generalizing b i with
  | nil =>
    rw [List.length_nil, Nat.zero_min]
    refine ⟨rfl, fun j => ?_, Nat.le_max_left ..⟩
    rw [if_neg (by omega)]
    rfl
  | cons c s ih =>
    unfold copyWhile
    rw [hguard, List.length_cons]
    by_cases hlt : i < lim
    · rw [if_pos (decide_eq_true hlt)]
      obtain ⟨hend, hcells, htop⟩ := ih (b := b.put (l + i) c) (i := i + 1)
      have hmin : min (s.length + 1) (lim - i) = min s.length (lim - (i + 1)) + 1 := by omega
      refine ⟨by rw [hend]; omega, fun j => ?_, ?_⟩
      · rw [hcells, hmin]
        by_cases hj : j = l + i
        · subst hj
          rw [if_neg (by omega), if_pos (by omega), Nat.sub_self]
          exact Function.update_self ..
        · have hput : (b.put (l + i) c).cells j = b.cells j := Function.update_of_ne hj ..
          rw [hput]
          by_cases hin : l + (i + 1) ≤ j ∧ j < l + (i + 1) + min s.length (lim - (i + 1))
          · rw [if_pos hin, if_pos (by omega), show j - (l + i) = j - (l + (i + 1)) + 1 by omega,
              List.getD_cons_succ]
          · rw [if_neg hin, if_neg (by omega)]
      · refine Nat.le_trans htop ?_
        unfold WideCells.put
        dsimp only
        omega
    · rw [if_neg (by simpa using hlt), show min (s.length + 1) (lim - i) = 0 by omega]
      refine ⟨rfl, fun j => ?_, Nat.le_max_left ..⟩
      rw [if_neg (by omega)]

theorem fill_eq (b : WideCells) (l : Nat) (f : Nat → UInt16) (n : Nat) :
    (∀ j, (b.fill l f n).cells j = if l ≤ j ∧ j < l + n then f (j - l) else b.cells j) ∧
    (b.fill l f n).top ≤ max b.top (l + n) := by
  induction n with
  | zero =>
    refine ⟨fun j => ?_, Nat.le_max_left ..⟩
    rw [if_neg (by omega)]
    rfl
  | succ n ih =>
    refine ⟨fun j => ?_, ?_⟩
    · unfold WideCells.fill WideCells.put
      dsimp only
      by_cases hj : j = l + n
      · subst hj
        rw [Function.update_self, if_pos (by omega), Nat.add_sub_cancel_left]
      · rw [Function.update_of_ne hj, ih.1]
        by_cases hin : l ≤ j ∧ j < l + n
        · rw [if_pos hin, if_pos (by omega)]
        · rw [if_neg hin, if_neg (by omega)]
    · have htop := ih.2
      unfold WideCells.fill WideCells.put
      dsimp only
      omega

end Copy

end MeuOS.Lib
