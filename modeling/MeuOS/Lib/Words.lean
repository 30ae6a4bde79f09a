import MeuOS.Lib.Mem
import Mathlib.Data.List.Basic

/-! Words of eight bytes behind one another, the way a stack that grows down holds them. -/
namespace MeuOS.Lib

def Mem.word (m : Mem) (p : Nat) : BitVec 64 := BitVec.ofNat 64 (m.read p 8)

def Mem.putWord (m : Mem) (p : Nat) (w : BitVec 64) : Mem := m.write p 8 w.toNat

theorem word_putWord_same (m : Mem) (p : Nat) (w : BitVec 64) : (m.putWord p w).word p = w := by
  unfold Mem.word Mem.putWord
  rw [Mem.read_write_of_lt m w.isLt, BitVec.ofNat_toNat, BitVec.setWidth_eq]

theorem word_putWord_of_disjoint (m : Mem) {p q : Nat} (w : BitVec 64) (h : p + 8 ≤ q ∨ q + 8 ≤ p) :
    (m.putWord p w).word q = m.word q := by
  unfold Mem.word Mem.putWord
  rw [Mem.read_write_of_disjoint m _ (by omega)]

theorem word_congr {m m' : Mem} {p : Nat} (h : Mem.Agree m m' p (p + 8)) : m.word p = m'.word p := by
  unfold Mem.word
  rw [Mem.read_congr h]

/-- The words are in memory from `p` on. -/
def Words (m : Mem) (p : Nat) (ws : List (BitVec 64)) : Prop :=
  ∀ i (h : i < ws.length), m.word (p + 8 * i) = ws[i]

section Words

variable {m m' : Mem} {p : Nat} {w : BitVec 64} {ws ws' : List (BitVec 64)}

theorem words_nil : Words m p [] := fun _ h => absurd h (Nat.not_lt_zero _)

theorem words_cons : Words m p (w :: ws) ↔ m.word p = w ∧ Words m (p + 8) ws := by
  constructor
  · intro h
    refine ⟨h 0 (Nat.succ_pos _), fun i hi => ?_⟩
    have hnext := h (i + 1) (Nat.succ_lt_succ hi)
    rwa [show p + 8 * (i + 1) = p + 8 + 8 * i by omega] at hnext
  · rintro ⟨hfirst, hrest⟩ i hi
    cases i with
    | zero => exact hfirst
    | succ i =>
      rw [show p + 8 * (i + 1) = p + 8 + 8 * i by omega]
      exact hrest i (Nat.lt_of_succ_lt_succ hi)

theorem words_append : Words m p (ws ++ ws') ↔ Words m p ws ∧ Words m (p + 8 * ws.length) ws' := by
  induction ws generalizing p with
  | nil => simp [words_nil]
  | cons w ws ih =>
    rw [List.cons_append, words_cons, words_cons, ih, and_assoc, List.length_cons,
      show p + 8 + 8 * ws.length = p + 8 * (ws.length + 1) by omega]

theorem Words.congr (h : Words m p ws) (hagree : Mem.Agree m m' p (p + 8 * ws.length)) : Words m' p ws :=
  fun i hi => (word_congr (hagree.mono (by omega) (by omega))).symm.trans (h i hi)

theorem Words.putWord {i : Nat} (h : Words m p ws) (w : BitVec 64) :
    Words (m.putWord (p + 8 * i) w) p (ws.set i w) := by
  intro j hj
  rw [List.length_set] at hj
  rw [List.getElem_set]
  split
  next heq =>
    subst heq
    exact word_putWord_same m _ w
  next hne =>
    rw [word_putWord_of_disjoint m w (by omega)]
    exact h j hj

end Words

/-! ## Pushing -/

/-- The words pushed one after the other onto a stack whose top is `top`. -/
def pushWords (m : Mem) (top : Nat) : List (BitVec 64) → Mem
  | [] => m
  | w :: ws => pushWords (m.putWord (top - 8) w) (top - 8) ws

/-- The last word pushed lies lowest. -/
theorem words_pushWords {m : Mem} {top : Nat} {ws below : List (BitVec 64)} (hroom : 8 * ws.length ≤ top)
    (hbelow : Words m top below) :
    Words (pushWords m top ws) (top - 8 * ws.length) (ws.reverse ++ below) := by
  induction ws generalizing m top below with
  | nil => exact hbelow
  | cons w ws ih =>
    rw [List.length_cons] at hroom
    have hpushed : Words (m.putWord (top - 8) w) (top - 8) (w :: below) := by
      refine words_cons.2 ⟨word_putWord_same m _ w, ?_⟩
      rw [Nat.sub_add_cancel (by omega)]
      refine hbelow.congr fun i hlo hhi => ?_
      exact (Mem.write_outside m _ (by omega)).symm
    have hrest := ih (by omega) hpushed
    rw [pushWords, List.reverse_cons, List.append_assoc, List.length_cons,
      show top - 8 * (ws.length + 1) = top - 8 - 8 * ws.length by omega]
    exact hrest

theorem pushWords_outside {m : Mem} {top i : Nat} {ws : List (BitVec 64)} (hroom : 8 * ws.length ≤ top)
    (hi : i < top - 8 * ws.length ∨ top ≤ i) : pushWords m top ws i = m i := by
  induction ws generalizing m top with
  | nil => rfl
  | cons w ws ih =>
    rw [List.length_cons] at hroom hi
    rw [pushWords, ih (by omega) (by omega)]
    exact Mem.write_outside m _ (by omega)

end MeuOS.Lib
