import Mathlib.Data.List.Basic

/-! Counting loops over a body that may fail. -/
namespace MeuOS.Lib

variable {σ α : Type}

/-- `for (i = lo; i < hi; i++)`. -/
def forUp (lo hi : Int) (body : σ → Int → Option σ) (s : σ) : Option σ :=
  (List.range (hi - lo).toNat).foldlM (fun s (i : Nat) => body s (lo + i)) s

/-- `for (i = n - 1; i >= 0; i--)`. -/
def forDown (n : Int) (body : σ → Int → Option σ) (s : σ) : Option σ :=
  (List.range n.toNat).reverse.foldlM (fun s (i : Nat) => body s i) s

variable {lo hi n : Int} {body : σ → Int → Option σ} {s : σ}

/-- What every turn keeps, and takes on to the next number. -/
theorem forUp_invariant (P : Int → σ → Prop) (hle : lo ≤ hi) (hstart : P lo s)
    (hstep : ∀ i s, lo ≤ i → i < hi → P i s → ∃ s', body s i = some s' ∧ P (i + 1) s') :
    ∃ s', forUp lo hi body s = some s' ∧ P hi s' := by
  have hturns : ∀ k : Nat, k ≤ (hi - lo).toNat → ∃ s',
      (List.range k).foldlM (fun s (i : Nat) => body s (lo + i)) s = some s' ∧ P (lo + k) s' := by
    intro k hk
    induction k with
    | zero => exact ⟨s, rfl, by simpa using hstart⟩
    | succ k ih =>
      obtain ⟨s₁, hrun, hkept⟩ := ih (by omega)
      obtain ⟨s₂, hturn, hkept'⟩ := hstep (lo + k) s₁ (by omega) (by omega) hkept
      refine ⟨s₂, ?_, ?_⟩
      · rw [List.range_succ, List.foldlM_append, hrun]
        simpa using hturn
      · rwa [show lo + ((k + 1 : Nat) : Int) = lo + k + 1 by omega]
  obtain ⟨s', hrun, hkept⟩ := hturns _ (Nat.le_refl _)
  rw [show lo + ((hi - lo).toNat : Int) = hi by omega] at hkept
  exact ⟨s', hrun, hkept⟩

/-! ## Loops within loops -/

/-- A loop whose turns are walks through lists. -/
theorem foldlM_foldlM (step : σ → α → Option σ) (turn : Nat → List α) (l : List Nat) (s : σ) :
    l.foldlM (fun s i => (turn i).foldlM step s) s = (l.flatMap turn).foldlM step s := by
  induction l generalizing s with
  | nil => rfl
  | cons i l ih =>
    rw [List.foldlM_cons, List.flatMap_cons, List.foldlM_append]
    exact congrArg _ (funext ih)

end MeuOS.Lib
