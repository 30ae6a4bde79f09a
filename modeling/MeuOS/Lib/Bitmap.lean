import MeuOS.Lib.Mem
import Mathlib.Tactic.IntervalCases
import Mathlib.Data.Nat.Bitwise
import Mathlib.Order.Interval.Finset.Nat

/-! Bit maps stored eight to a byte, bit `f % 8` of byte `f / 8` standing for member
`f`. The three primitives are the usual C expressions; every proof about a map goes
through `test_set`, `test_clear` and the finite set of clear members. -/
namespace MeuOS.Lib.Bitmap

open Mem

/-- `(uint8_t)(1u << (f % 8))`. -/
def mask (f : Nat) : UInt8 := 1 <<< UInt8.ofNat (f % 8)

def test (m : Mem) (f : Nat) : Bool := m (f / 8) &&& mask f != 0

def set (m : Mem) (f : Nat) : Mem := Function.update m (f / 8) (m (f / 8) ||| mask f)

def clear (m : Mem) (f : Nat) : Mem := Function.update m (f / 8) (m (f / 8) &&& ~~~mask f)

/-- `set` over `[f, f + n)`, lowest member first. -/
def setRange (m : Mem) (f : Nat) : Nat → Mem
  | 0 => m
  | n + 1 => set (setRange m f n) (f + n)

theorem testBit_mask (f i : Nat) : (mask f).toNat.testBit i = decide (i = f % 8) := by
  have hlt : f % 8 < 8 := Nat.mod_lt _ (by decide)
  have hmask : (mask f).toNat = 2 ^ (f % 8) := by
    interval_cases h : f % 8 <;> simp [mask, h]
  rw [hmask, Nat.testBit_two_pow]
  exact decide_eq_decide.mpr eq_comm

theorem test_eq_testBit (m : Mem) (f : Nat) : test m f = (m (f / 8)).toNat.testBit (f % 8) := by
  have hand : (m (f / 8) &&& mask f).toNat = (m (f / 8)).toNat &&& (mask f).toNat :=
    UInt8.toNat_and ..
  cases hbit : (m (f / 8)).toNat.testBit (f % 8) with
  | true =>
    have hset : (m (f / 8) &&& mask f).toNat.testBit (f % 8) = true := by
      rw [hand, Nat.testBit_and, testBit_mask, hbit]
      simp
    simp only [test, bne_iff_ne, ne_eq]
    intro hzero
    simp [hzero] at hset
  | false =>
    have hzero : m (f / 8) &&& mask f = 0 := by
      apply UInt8.toNat_inj.mp
      apply Nat.eq_of_testBit_eq
      intro i
      rw [hand, Nat.testBit_and, testBit_mask]
      by_cases hi : i = f % 8
      · simp [hi, hbit]
      · simp [hi]
    simp [test, hzero]

/-- A map is what its bits say. -/
theorem ext {m m' : Mem} (h : ∀ f, test m f = test m' f) : m = m' := by
  funext b
  apply UInt8.toNat_inj.mp
  apply Nat.eq_of_testBit_eq
  intro i
  by_cases hi : i < 8
  · have hbit := h (8 * b + i)
    rw [test_eq_testBit, test_eq_testBit] at hbit
    have hbyte : (8 * b + i) / 8 = b := by omega
    have hmod : (8 * b + i) % 8 = i := by omega
    rwa [hbyte, hmod] at hbit
  · have hhigh : ∀ c : UInt8, c.toNat.testBit i = false := fun c =>
      Nat.testBit_lt_two_pow (c.toNat_lt.trans_le (Nat.pow_le_pow_right (by decide) (by omega)))
    rw [hhigh, hhigh]

theorem test_set (m : Mem) (g f : Nat) : test (set m g) f = (f == g || test m f) := by
  rw [test_eq_testBit, test_eq_testBit, set]
  by_cases hbyte : f / 8 = g / 8
  · rw [hbyte, Function.update_self, UInt8.toNat_or, Nat.testBit_or, testBit_mask, Bool.or_comm]
    congr 1
    rw [Bool.eq_iff_iff, decide_eq_true_iff, beq_iff_eq]
    omega
  · have hne : f ≠ g := fun h => hbyte (h ▸ rfl)
    simp [Function.update_of_ne hbyte, hne]

theorem test_clear (m : Mem) (g f : Nat) : test (clear m g) f = (f != g && test m f) := by
  rw [test_eq_testBit, test_eq_testBit, clear]
  by_cases hbyte : f / 8 = g / 8
  · have hnot : (~~~mask g).toNat.testBit (f % 8) = (f != g) := by
      have hlt : f % 8 < 8 := Nat.mod_lt _ (by decide)
      rw [UInt8.toNat_not, show UInt8.size - 1 - (mask g).toNat = 2 ^ 8 - ((mask g).toNat + 1) by
        simp only [UInt8.size]; omega, Nat.testBit_two_pow_sub_succ (mask g).toNat_lt, testBit_mask]
      simp only [hlt, decide_true, Bool.true_and]
      rw [Bool.eq_iff_iff]
      simp only [Bool.not_eq_true', decide_eq_false_iff_not, bne_iff_ne, ne_eq]
      omega
    rw [hbyte, Function.update_self, UInt8.toNat_and, Nat.testBit_and, hnot, Bool.and_comm]
  · have hne : f ≠ g := fun h => hbyte (h ▸ rfl)
    simp [Function.update_of_ne hbyte, hne]

theorem test_setRange (m : Mem) (g n f : Nat) :
    test (setRange m g n) f = (decide (g ≤ f ∧ f < g + n) || test m f) := by
  induction n with
  | zero =>
    rw [setRange, decide_eq_false (by omega), Bool.false_or]
  | succ n ih =>
    rw [setRange, test_set, ih, ← Bool.or_assoc]
    congr 1
    rw [Bool.eq_iff_iff]
    simp only [Bool.or_eq_true, beq_iff_eq, decide_eq_true_eq]
    omega

/-! ## The clear members of an interval -/

def clears (m : Mem) (lo hi : Nat) : Finset Nat := (Finset.Ico lo hi).filter fun f => test m f = false

@[simp] theorem mem_clears {m : Mem} {lo hi f : Nat} :
    f ∈ clears m lo hi ↔ (lo ≤ f ∧ f < hi) ∧ test m f = false := by
  simp [clears]

theorem clears_setRange (m : Mem) {g n lo hi : Nat} :
    clears (setRange m g n) lo hi = clears m lo hi \ Finset.Ico g (g + n) := by
  ext f
  simp only [mem_clears, test_setRange, Finset.mem_sdiff, Finset.mem_Ico, Bool.or_eq_false_iff,
    decide_eq_false_iff_not]
  tauto

theorem card_clears_setRange {m : Mem} {g n lo hi : Nat}
    (h : ∀ f, g ≤ f → f < g + n → f ∈ clears m lo hi) :
    (clears (setRange m g n) lo hi).card + n = (clears m lo hi).card := by
  have hsub : Finset.Ico g (g + n) ⊆ clears m lo hi := by
    intro f hf
    obtain ⟨hge, hlt⟩ := Finset.mem_Ico.mp hf
    exact h f hge hlt
  have hcard := Finset.card_sdiff_add_card_eq_card hsub
  rwa [Nat.card_Ico, Nat.add_sub_cancel_left, ← clears_setRange] at hcard

theorem card_clears_clear {m : Mem} {g lo hi : Nat} (hlo : lo ≤ g) (hhi : g < hi)
    (h : test m g = true) : (clears (clear m g) lo hi).card = (clears m lo hi).card + 1 := by
  have hnew : clears (clear m g) lo hi = insert g (clears m lo hi) := by
    ext f
    simp only [mem_clears, test_clear, Finset.mem_insert, Bool.and_eq_false_iff, bne_eq_false_iff_eq]
    constructor
    · rintro ⟨hin, heq | hclear⟩
      · exact .inl heq
      · exact .inr ⟨hin, hclear⟩
    · rintro (rfl | ⟨hin, hclear⟩)
      · exact ⟨⟨hlo, hhi⟩, .inl rfl⟩
      · exact ⟨hin, .inr hclear⟩
  rw [hnew, Finset.card_insert_of_notMem (by simp [h])]

theorem card_clears_le (m : Mem) (lo hi : Nat) : (clears m lo hi).card ≤ hi - lo := by
  have hle := Finset.card_filter_le (Finset.Ico lo hi) fun f => test m f = false
  rwa [Nat.card_Ico] at hle

end MeuOS.Lib.Bitmap
