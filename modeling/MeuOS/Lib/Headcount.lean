import Mathlib.Data.Finset.Card

/-! How many of an unbounded population are in one of some phases, and how that number
changes when one of them moves on. -/
namespace MeuOS.Lib

variable {τ φ : Type} [DecidableEq τ] {f : τ → φ} {P : φ → Bool} {n : Nat}

/-- `n` of them are in a phase that meets `P`. -/
def Headcount (f : τ → φ) (P : φ → Bool) (n : Nat) : Prop :=
  ∃ F : Finset τ, (∀ t, t ∈ F ↔ P (f t) = true) ∧ F.card = n

omit [DecidableEq τ] in
theorem headcount_zero (h : ∀ t, P (f t) = false) : Headcount f P 0 :=
  ⟨∅, fun t => by simp [h t], rfl⟩

namespace Headcount

omit [DecidableEq τ] in
theorem pos (h : Headcount f P n) {t : τ} (ht : P (f t) = true) : 0 < n := by
  obtain ⟨F, hF, rfl⟩ := h
  exact Finset.card_pos.2 ⟨t, (hF t).2 ht⟩

omit [DecidableEq τ] in
theorem exists_of_pos (h : Headcount f P n) (hn : 0 < n) : ∃ t, P (f t) = true := by
  obtain ⟨F, hF, rfl⟩ := h
  obtain ⟨t, ht⟩ := Finset.card_pos.1 hn
  exact ⟨t, (hF t).1 ht⟩

omit [DecidableEq τ] in
theorem unique (h : Headcount f P n) (hn : n ≤ 1) {t u : τ} (ht : P (f t) = true)
    (hu : P (f u) = true) : t = u := by
  obtain ⟨F, hF, rfl⟩ := h
  exact Finset.card_le_one.1 hn t ((hF t).2 ht) u ((hF u).2 hu)

/-- One of them moves on. -/
theorem update (h : Headcount f P n) (t : τ) (x : φ) :
    ∃ m, Headcount (Function.update f t x) P m ∧ m + (P (f t)).toNat = n + (P x).toNat := by
  obtain ⟨F, hF, rfl⟩ := h
  have hout : (F.erase t).card + (P (f t)).toNat = F.card := by
    cases hold : P (f t) with
    | true => exact Finset.card_erase_add_one ((hF t).2 hold)
    | false => rw [Finset.erase_eq_of_notMem (by simp [hF t, hold])]; rfl
  cases hnew : P x with
  | true =>
    refine ⟨(insert t (F.erase t)).card, ⟨_, fun u => ?_, rfl⟩, ?_⟩
    · by_cases heq : u = t
      · subst heq
        simp [hnew]
      · simp [heq, hF u]
    · rw [Finset.card_insert_of_notMem (by simp), Bool.toNat_true]
      omega
  | false =>
    refine ⟨(F.erase t).card, ⟨_, fun u => ?_, rfl⟩, hout⟩
    by_cases heq : u = t
    · subst heq
      simp [hnew]
    · simp [heq, hF u]

end Headcount

end MeuOS.Lib
