import Mathlib.Data.List.Basic

/-! Boxes of one width in a row. Each item that shows gets the next box, until one would cross
the limit. -/
namespace MeuOS.Lib

variable {α : Type}

/-- The items that get a box, each with its left edge. -/
def boxRow (shown : α → Bool) (width step limit : Int) : List α → Int → List (α × Int)
  | [], _ => []
  | a :: l, at_ =>
      if !shown a then boxRow shown width step limit l at_
      else if limit < at_ + width then []
      else (a, at_) :: boxRow shown width step limit l (at_ + step)

/-- The first item whose box is over `x`. -/
def boxAt (shown : α → Bool) (width step limit x : Int) (l : List α) (at_ : Int) : Option α :=
  ((boxRow shown width step limit l at_).find? fun b => b.2 ≤ x ∧ x < b.2 + width).map (·.1)

/-- Item `k` of those that show has a box, and it is over `x`. -/
def Covers (width step limit at_ x : Int) (k : Nat) : Prop :=
  at_ + step * k + width ≤ limit ∧ at_ + step * k ≤ x ∧ x < at_ + step * k + width

variable {shown : α → Bool} {width step limit at_ x : Int} {l : List α} {a : α}

theorem mem_boxRow (hstep : 0 ≤ step) (b : Int) : (a, b) ∈ boxRow shown width step limit l at_ ↔
    ∃ k : Nat, (l.filter shown)[k]? = some a ∧ b = at_ + step * k ∧ b + width ≤ limit := by
  induction l generalizing at_ with
  | nil => simp [boxRow]
  | cons c l ih =>
    unfold boxRow
    by_cases hc : shown c = true
    · rw [if_neg (by simp [hc]), List.filter_cons_of_pos hc]
      split
      · rename_i hfull
        refine ⟨nofun, fun ⟨k, _, hb, hroom⟩ => ?_⟩
        have hk : 0 ≤ step * (k : Int) := Int.mul_nonneg hstep (Int.natCast_nonneg k)
        omega
      · rename_i hroom
        rw [List.mem_cons, ih]
        constructor
        · rintro (hfirst | ⟨k, hk, hb, hlimit⟩)
          · cases hfirst
            exact ⟨0, rfl, by simp, by omega⟩
          · refine ⟨k + 1, by simpa using hk, ?_, hlimit⟩
            rw [hb, Int.natCast_add, Int.mul_add]
            omega
        · rintro ⟨k, hk, hb, hlimit⟩
          cases k with
          | zero =>
            rw [List.getElem?_cons_zero, Option.some.injEq] at hk
            exact .inl (by rw [hk, hb]; simp)
          | succ k =>
            refine .inr ⟨k, by simpa using hk, ?_, hlimit⟩
            rw [hb, Int.natCast_add, Int.mul_add]
            omega
    · rw [if_pos (by simp [hc]), List.filter_cons_of_neg hc]
      exact ih

/-- Boxes that do not overlap. -/
theorem Covers.unique (hpos : 0 < step) (hwide : width ≤ step) {j k : Nat}
    (hj : Covers width step limit at_ x j) (hk : Covers width step limit at_ x k) : j = k := by
  obtain ⟨-, hj₁, hj₂⟩ := hj
  obtain ⟨-, hk₁, hk₂⟩ := hk
  have hclose : step * (j : Int) < step * (k + 1 : Int) ∧ step * (k : Int) < step * (j + 1 : Int) := by
    rw [Int.mul_add, Int.mul_add]
    omega
  have hjk := Int.lt_of_mul_lt_mul_left hclose.1 (Int.le_of_lt hpos)
  have hkj := Int.lt_of_mul_lt_mul_left hclose.2 (Int.le_of_lt hpos)
  omega

theorem boxAt_eq_some (hpos : 0 < step) (hwide : width ≤ step) :
    boxAt shown width step limit x l at_ = some a ↔
      ∃ k, (l.filter shown)[k]? = some a ∧ Covers width step limit at_ x k := by
  constructor
  · intro h
    obtain ⟨⟨c, b⟩, hfound, rfl⟩ := Option.map_eq_some_iff.mp h
    obtain ⟨k, hk, rfl, hroom⟩ := (mem_boxRow (Int.le_of_lt hpos) b).mp (List.mem_of_find?_eq_some hfound)
    have hover := List.find?_some hfound
    simp only [decide_eq_true_eq] at hover
    exact ⟨k, hk, hroom, hover⟩
  · rintro ⟨k, hk, hcovers⟩
    have hmem : (a, at_ + step * k) ∈ boxRow shown width step limit l at_ :=
      (mem_boxRow (Int.le_of_lt hpos) _).mpr ⟨k, hk, rfl, hcovers.1⟩
    unfold boxAt
    cases hfind : (boxRow shown width step limit l at_).find? fun b => b.2 ≤ x ∧ x < b.2 + width with
    | none =>
      have hnot := List.find?_eq_none.mp hfind _ hmem
      exact absurd hcovers.2 (by simpa using hnot)
    | some c =>
      obtain ⟨j, hj, hb, hroom⟩ :=
        (mem_boxRow (Int.le_of_lt hpos) c.2).mp (List.mem_of_find?_eq_some hfind)
      have hover := List.find?_some hfind
      simp only [decide_eq_true_eq] at hover
      rw [hb] at hover hroom
      rw [Covers.unique hpos hwide ⟨hroom, hover⟩ hcovers, hk] at hj
      exact hj.symm

theorem boxAt_eq_none (hpos : 0 < step) (hwide : width ≤ step) :
    boxAt shown width step limit x l at_ = none ↔
      ∀ k < (l.filter shown).length, ¬Covers width step limit at_ x k := by
  constructor
  · intro h k hk hcovers
    have hsome := (boxAt_eq_some hpos hwide).mpr ⟨k, List.getElem?_eq_getElem hk, hcovers⟩
    rw [h] at hsome
    cases hsome
  · intro h
    cases hbox : boxAt shown width step limit x l at_ with
    | none => rfl
    | some a =>
      obtain ⟨k, hk, hcovers⟩ := (boxAt_eq_some hpos hwide).mp hbox
      exact absurd hcovers (h k (List.getElem?_eq_some_iff.mp hk).1)

end MeuOS.Lib
