import Mathlib.Data.Nat.ModEq
import Mathlib.Data.List.Basic

/-! A ring of `q` slots that a writer and a reader go through with counters of their own. The
counters run freely and are cut to `w` values, so that a slot is what is left of a counter after
both cuts; that comes down to one cut if `q` divides `w`. -/
namespace MeuOS.Lib

variable {α : Type} {w q : Nat}

/-- Two places less than a whole round apart are in different slots. -/
theorem slot_injective (hdvd : q ∣ w) {i j : Nat} (hij : i ≤ j) (hround : j < i + q)
    (h : i % w % q = j % w % q) : i = j := by
  rw [Nat.mod_mod_of_dvd _ hdvd, Nat.mod_mod_of_dvd _ hdvd] at h
  have hmod : (j - i) % q = 0 := by
    have hcongr : i ≡ j [MOD q] := h
    exact Nat.mod_eq_zero_of_dvd ((Nat.modEq_iff_dvd' hij).1 hcongr)
  rw [Nat.mod_eq_of_lt (by omega)] at hmod
  omega

/-- `hist` is all that was ever written, of which the reader has had the first `done`. The slots
hold the rest, at most a round. -/
structure FreeRing (w q : Nat) (ring : Nat → α) (hist : List α) (done reader writer : Nat) : Prop where
  done_le : done ≤ hist.length
  round : hist.length ≤ done + q
  reader_eq : reader = done % w
  writer_eq : writer = hist.length % w
  held : ∀ k (h : k < hist.length), done ≤ k → ring (k % w % q) = hist[k]

namespace FreeRing

variable {ring : Nat → α} {hist : List α} {done reader writer : Nat}

theorem empty_iff (h : FreeRing w q ring hist done reader writer) (hlt : q < w) :
    reader = writer ↔ done = hist.length := by
  rw [h.reader_eq, h.writer_eq]
  refine ⟨fun heq => ?_, fun heq => by rw [heq]⟩
  have hround := h.round
  have hle := h.done_le
  have hmod : (hist.length - done) % w = 0 := by
    have hcongr : done ≡ hist.length [MOD w] := heq
    exact Nat.mod_eq_zero_of_dvd ((Nat.modEq_iff_dvd' hle).1 hcongr)
  rw [Nat.mod_eq_of_lt (by omega)] at hmod
  omega

/-- The slot the reader is at. -/
theorem front (h : FreeRing w q ring hist done reader writer) (hsome : done < hist.length) :
    ring (reader % q) = hist[done] := by
  rw [h.reader_eq]
  exact h.held done hsome (Nat.le_refl done)

theorem pop (h : FreeRing w q ring hist done reader writer) (hsome : done < hist.length) :
    FreeRing w q ring hist (done + 1) ((reader + 1) % w) writer := by
  have hround := h.round
  refine ⟨hsome, by omega, ?_, h.writer_eq, fun k hk hdone => h.held k hk (by omega)⟩
  rw [h.reader_eq, Nat.mod_add_mod]

/-- The slot the writer is at holds nothing that is still to be read. -/
theorem push (h : FreeRing w q ring hist done reader writer) (hdvd : q ∣ w)
    (hroom : hist.length < done + q) (x : α) :
    FreeRing w q (Function.update ring (writer % q) x) (hist ++ [x]) done reader ((writer + 1) % w) := by
  have hle := h.done_le
  refine ⟨?_, ?_, h.reader_eq, ?_, fun k hk hdone => ?_⟩
  · rw [List.length_append]
    omega
  · rw [List.length_append, List.length_singleton]
    omega
  · rw [List.length_append, List.length_singleton, h.writer_eq, Nat.mod_add_mod]
  · rw [h.writer_eq]
    rw [List.length_append, List.length_singleton] at hk
    by_cases hlast : k = hist.length
    · subst hlast
      rw [Function.update_self, List.getElem_append_right (Nat.le_refl _)]
      simp
    · have hne : k % w % q ≠ hist.length % w % q := fun heq =>
        hlast (slot_injective hdvd (by omega) (by omega) heq)
      rw [Function.update_of_ne hne, List.getElem_append_left (by omega)]
      exact h.held k (by omega) hdone

end FreeRing

end MeuOS.Lib
