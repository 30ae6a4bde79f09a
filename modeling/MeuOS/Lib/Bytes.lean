import MeuOS.Lib.Mem
import Mathlib.Data.Nat.Digits.Lemmas

/-! Lists of bytes laid out in memory: a list in pieces is its pieces one behind the other, and a
word read from the list is the number its bytes are the digits of. -/
namespace MeuOS.Lib

/-- The bytes are in memory from `p` on. -/
def Laid (m : Mem) (p : Nat) (bytes : List UInt8) : Prop :=
  ∀ i (h : i < bytes.length), m (p + i) = bytes[i]

section Laid

variable {m : Mem} {p : Nat} {bytes bytes' : List UInt8}

theorem laid_append : Laid m p (bytes ++ bytes') ↔ Laid m p bytes ∧ Laid m (p + bytes.length) bytes' := by
  constructor
  · intro h
    constructor
    · intro i hi
      rw [h i (by rw [List.length_append]; omega), List.getElem_append_left hi]
    · intro i hi
      rw [Nat.add_assoc, h (bytes.length + i) (by rw [List.length_append]; omega),
        List.getElem_append_right (Nat.le_add_right _ _)]
      simp only [Nat.add_sub_cancel_left]
  · rintro ⟨hleft, hright⟩ i hi
    rw [List.length_append] at hi
    by_cases hfirst : i < bytes.length
    · rw [hleft i hfirst, List.getElem_append_left hfirst]
    · rw [List.getElem_append_right (not_lt.1 hfirst), ← hright _ (by omega), Nat.add_assoc,
        Nat.add_sub_cancel' (not_lt.1 hfirst)]

theorem laid_cons {b : UInt8} : Laid m p (b :: bytes) ↔ m p = b ∧ Laid m (p + 1) bytes := by
  rw [← List.singleton_append, laid_append]
  refine and_congr_left fun _ => ⟨fun h => h 0 Nat.one_pos, fun h i hi => ?_⟩
  obtain rfl : i = 0 := Nat.lt_one_iff.1 hi
  exact h

/-- A word that was laid out byte by byte. -/
theorem Laid.read (h : Laid m p bytes) : m.read p bytes.length = Nat.ofDigits 256 (bytes.map UInt8.toNat) := by
  induction bytes generalizing p with
  | nil => rfl
  | cons b rest ih =>
    obtain ⟨hfirst, hrest⟩ := laid_cons.1 h
    rw [List.length_cons, Mem.read, List.map_cons, Nat.ofDigits_cons, ih hrest, hfirst]

end Laid

/-! ## Digits -/

/-- The bytes of a number, as few as will do. -/
def leDigits (n : Nat) : List UInt8 := (Nat.digits 256 n).map UInt8.ofNat

theorem toNat_leDigits (n : Nat) : (leDigits n).map UInt8.toNat = Nat.digits 256 n := by
  unfold leDigits
  rw [List.map_map]
  conv_rhs => rw [← List.map_id (Nat.digits 256 n)]
  refine List.map_congr_left fun d hd => ?_
  have hlt : d < 256 := Nat.digits_lt_base (by decide) hd
  simp only [Function.comp_apply, UInt8.toNat_ofNat', id_eq]
  omega

theorem length_leDigits (n : Nat) : (leDigits n).length = (Nat.digits 256 n).length := List.length_map _

theorem lt_pow_leDigits (n : Nat) : n < 256 ^ (leDigits n).length := by
  rw [length_leDigits]
  exact Nat.lt_base_pow_length_digits (by decide)

theorem Laid.read_leDigits {m : Mem} {p n : Nat} (h : Laid m p (leDigits n)) :
    m.read p (leDigits n).length = n := by
  rw [h.read, toNat_leDigits, Nat.ofDigits_digits]

/-- The last byte of a word says in which half of its range it is. -/
theorem top_byte_lt_iff (m : Mem) (p n : Nat) :
    (m (p + n)).toNat < 128 ↔ 2 * m.read p (n + 1) < 256 ^ (n + 1) := by
  induction n generalizing p with
  | zero =>
    simp only [Mem.read, Nat.mul_zero, Nat.add_zero, pow_one, Nat.zero_add]
    omega
  | succ n ih =>
    have hbyte : (m p).toNat < 256 := (m p).toNat_lt
    rw [show p + (n + 1) = p + 1 + n by omega, ih, Mem.read.eq_2 m p (n + 1), pow_succ 256 (n + 1)]
    have heven : 256 ^ (n + 1) = 2 * (128 * 256 ^ n) := by
      rw [pow_succ]
      ring
    omega

end MeuOS.Lib
