import MeuOS.Lib.Slots

/-! A table of slots as a finite map. An element is looked up by its key from the first slot on,
stored over the one with the same key or into a free slot, and deleted by freeing its slot. -/
namespace MeuOS.Lib

variable {α κ : Type} [DecidableEq κ] {key : α → κ} {n i : Nat} {t : Nat → Option α} {x y : α} {k : κ}

def slotOf (key : α → κ) (n : Nat) (t : Nat → Option α) (k : κ) : Option Nat :=
  firstHeld n t fun x => decide (key x = k)

def lookupKey (key : α → κ) (n : Nat) (t : Nat → Option α) (k : κ) : Option α :=
  (slotOf key n t k).bind t

/-- No two slots hold one key. -/
def OneSlot (key : α → κ) (n : Nat) (t : Nat → Option α) : Prop :=
  ∀ i j x y, i < n → j < n → t i = some x → t j = some y → key x = key y → i = j

theorem slotOf_some (h : slotOf key n t k = some i) : i < n ∧ ∃ x, t i = some x ∧ key x = k := by
  obtain ⟨hi, x, hx, hkey⟩ := firstHeld_some h
  exact ⟨hi, x, hx, of_decide_eq_true hkey⟩

theorem slotOf_none (h : slotOf key n t k = none) (hi : i < n) (hx : t i = some x) : key x ≠ k :=
  of_decide_eq_false (firstHeld_none (p := fun x => decide (key x = k)) h hi hx)

theorem lookupKey_eq_none_iff : lookupKey key n t k = none ↔ slotOf key n t k = none := by
  unfold lookupKey
  cases h : slotOf key n t k with
  | none => simp
  | some i =>
    obtain ⟨-, x, hx, -⟩ := slotOf_some h
    simp [hx]

theorem lookupKey_eq_some_iff (hone : OneSlot key n t) :
    lookupKey key n t k = some x ↔ ∃ i < n, t i = some x ∧ key x = k := by
  constructor
  · intro h
    obtain ⟨i, hslot, hx⟩ := Option.bind_eq_some_iff.1 h
    obtain ⟨hi, y, hy, hkey⟩ := slotOf_some hslot
    rw [hx] at hy
    cases hy
    exact ⟨i, hi, hx, hkey⟩
  · rintro ⟨i, hi, hx, hkey⟩
    cases hslot : slotOf key n t k with
    | none => exact absurd hkey (slotOf_none hslot hi hx)
    | some j =>
      obtain ⟨hj, y, hy, hkey'⟩ := slotOf_some hslot
      have hji : j = i := hone j i y x hj hi hy hx (hkey'.trans hkey.symm)
      unfold lookupKey
      rw [hslot, Option.bind_some, hji, hx]

/-- A slot that may be given an element with a key: no other slot holds that key, and what it
holds itself has no other key. -/
structure Takes (key : α → κ) (n : Nat) (t : Nat → Option α) (k : κ) (i : Nat) : Prop where
  slot : i < n
  others : ∀ j x, j < n → t j = some x → key x = k → j = i
  own : ∀ x, t i = some x → key x = k

theorem takes_slotOf (hone : OneSlot key n t) (h : slotOf key n t k = some i) : Takes key n t k i := by
  obtain ⟨hi, x, hx, hkey⟩ := slotOf_some h
  refine ⟨hi, fun j y hj hy hkey' => hone j i y x hj hi hy hx (hkey'.trans hkey.symm), fun y hy => ?_⟩
  rw [hx] at hy
  cases hy
  exact hkey

theorem takes_firstFree (hnew : slotOf key n t k = none) (h : firstFree n t = some i) :
    Takes key n t k i := by
  obtain ⟨hi, hfree⟩ := firstFree_some h
  refine ⟨hi, fun j x hj hx hkey => absurd hkey (slotOf_none hnew hj hx), fun x hx => ?_⟩
  rw [hfree] at hx
  cases hx

omit [DecidableEq κ] in
theorem Takes.oneSlot (h : Takes key n t (key y) i) (hone : OneSlot key n t) :
    OneSlot key n (Function.update t i (some y)) := by
  intro a b u v ha hb hu hv heq
  by_cases hai : a = i
  · by_cases hbi : b = i
    · exact hai.trans hbi.symm
    · rw [hai, Function.update_self] at hu
      rw [Function.update_of_ne hbi] at hv
      cases hu
      exact hai.trans (h.others b v hb hv heq.symm).symm
  · rw [Function.update_of_ne hai] at hu
    by_cases hbi : b = i
    · rw [hbi, Function.update_self] at hv
      cases hv
      exact absurd (h.others a u ha hu heq) hai
    · rw [Function.update_of_ne hbi] at hv
      exact hone a b u v ha hb hu hv heq

theorem Takes.lookupKey_put (h : Takes key n t (key y) i) (hone : OneSlot key n t) (k : κ) :
    lookupKey key n (Function.update t i (some y)) k =
      if k = key y then some y else lookupKey key n t k := by
  apply Option.ext
  intro x
  rw [lookupKey_eq_some_iff (h.oneSlot hone)]
  by_cases hk : k = key y
  · rw [if_pos hk]
    constructor
    · rintro ⟨j, hj, hx, hkey⟩
      by_cases hji : j = i
      · rw [hji, Function.update_self] at hx
        exact hx
      · rw [Function.update_of_ne hji] at hx
        exact absurd (h.others j x hj hx (hkey.trans hk)) hji
    · intro hx
      cases hx
      exact ⟨i, h.slot, Function.update_self .., hk.symm⟩
  · rw [if_neg hk, lookupKey_eq_some_iff hone]
    constructor
    · rintro ⟨j, hj, hx, hkey⟩
      by_cases hji : j = i
      · rw [hji, Function.update_self] at hx
        cases hx
        exact absurd hkey.symm hk
      · rw [Function.update_of_ne hji] at hx
        exact ⟨j, hj, hx, hkey⟩
    · rintro ⟨j, hj, hx, hkey⟩
      have hji : j ≠ i := by
        rintro rfl
        exact hk (hkey.symm.trans (h.own x hx))
      exact ⟨j, hj, (Function.update_of_ne hji ..).trans hx, hkey⟩

omit [DecidableEq κ] in
theorem OneSlot.clear (hone : OneSlot key n t) (i : Nat) : OneSlot key n (Function.update t i none) := by
  have hkept : ∀ j x, Function.update t i none j = some x → t j = some x := by
    intro j x hx
    by_cases hji : j = i
    · rw [hji, Function.update_self] at hx
      cases hx
    · rwa [Function.update_of_ne hji] at hx
  exact fun a b u v ha hb hu hv => hone a b u v ha hb (hkept a u hu) (hkept b v hv)

theorem OneSlot.lookupKey_clear (hone : OneSlot key n t) (hslot : slotOf key n t k = some i) (k' : κ) :
    lookupKey key n (Function.update t i none) k' = if k' = k then none else lookupKey key n t k' := by
  obtain ⟨hi, y, hy, rfl⟩ := slotOf_some hslot
  apply Option.ext
  intro x
  rw [lookupKey_eq_some_iff (hone.clear i)]
  by_cases hk : k' = key y
  · rw [if_pos hk]
    refine ⟨?_, nofun⟩
    rintro ⟨j, hj, hx, hkey⟩
    by_cases hji : j = i
    · rw [hji, Function.update_self] at hx
      cases hx
    · rw [Function.update_of_ne hji] at hx
      exact absurd (hone j i x y hj hi hx hy (hkey.trans hk)) hji
  · rw [if_neg hk, lookupKey_eq_some_iff hone]
    constructor
    · rintro ⟨j, hj, hx, hkey⟩
      by_cases hji : j = i
      · rw [hji, Function.update_self] at hx
        cases hx
      · exact ⟨j, hj, (Function.update_of_ne hji ..).symm.trans hx, hkey⟩
    · rintro ⟨j, hj, hx, hkey⟩
      have hji : j ≠ i := by
        rintro rfl
        rw [hx] at hy
        cases hy
        exact hk hkey.symm
      exact ⟨j, hj, (Function.update_of_ne hji ..).trans hx, hkey⟩

omit [DecidableEq κ] in
theorem oneSlot_empty : OneSlot key n fun _ => none := nofun

end MeuOS.Lib
