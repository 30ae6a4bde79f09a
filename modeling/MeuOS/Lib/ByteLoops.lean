import MeuOS.Lib.Mem

/-! Loops that store one byte after the other, upwards. -/
namespace MeuOS.Lib.Mem

/-- `for (i = 0; i < n; i++) d[i] = …`, where a byte is worked out from the memory as it is then. -/
def storeUp (byte : Mem → Nat → UInt8) (d : Nat) : Nat → Mem → Mem
  | 0, m => m
  | n + 1, m =>
      let m := storeUp byte d n m
      m.put (d + n) (byte m n)

def fillUp (m : Mem) (d n : Nat) (v : UInt8) : Mem := storeUp (fun _ _ => v) d n m

/-- `for (i = 0; i < n; i++) d[i] = s[i];` -/
def copyUp (m : Mem) (d s n : Nat) : Mem := storeUp (fun m i => m (s + i)) d n m

variable {byte : Mem → Nat → UInt8} {m : Mem} {d s n i : Nat} {v : UInt8}

theorem storeUp_outside (h : i < d ∨ d + n ≤ i) : storeUp byte d n m i = m i := by
  induction n with
  | zero => rfl
  | succ n ih =>
    unfold storeUp
    rw [put_other _ _ (by omega)]
    exact ih (by omega)

/-- A byte is worked out from the memory with all bytes before it stored. -/
theorem storeUp_at (hi : i < n) : storeUp byte d n m (d + i) = byte (storeUp byte d i m) i := by
  induction n with
  | zero => omega
  | succ n ih =>
    rw [storeUp]
    rcases Nat.lt_succ_iff_lt_or_eq.mp hi with hlt | rfl
    · rw [put_other _ _ (by omega)]
      exact ih hlt
    · rw [put_same]

theorem fillUp_outside (h : i < d ∨ d + n ≤ i) : fillUp m d n v i = m i := storeUp_outside h

theorem fillUp_inside (hi : i < n) : fillUp m d n v (d + i) = v := storeUp_at hi

theorem copyUp_outside (h : i < d ∨ d + n ≤ i) : copyUp m d s n i = m i := storeUp_outside h

theorem copyUp_sameAt (h : s + n ≤ d ∨ d ≤ s) : SameAt m s (copyUp m d s n) d n :=
  fun _ hi => (storeUp_at hi).trans (storeUp_outside (by omega))

theorem agree_fillUp {lo hi : Nat} (h : hi ≤ d ∨ d + n ≤ lo) : Agree (fillUp m d n v) m lo hi :=
  fun _ _ _ => fillUp_outside (by omega)

end MeuOS.Lib.Mem
