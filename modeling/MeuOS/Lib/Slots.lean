import Mathlib.Data.Multiset.MapFold

/-! A table of `n` slots, each free or holding an element. What it holds, in the order of
the slots, changes by one element when a free slot is taken and when a used one is freed. -/
namespace MeuOS.Lib

variable {α : Type} {n i : Nat} {t : Nat → Option α} {x : α}

/-- The first free slot. -/
def firstFree (n : Nat) (t : Nat → Option α) : Option Nat :=
  (List.range n).find? fun i => (t i).isNone

/-- The first slot whose element satisfies `p`. -/
def firstHeld (n : Nat) (t : Nat → Option α) (p : α → Bool) : Option Nat :=
  (List.range n).find? fun i => (t i).any p

/-- The used slots with their elements, in order. -/
def held (n : Nat) (t : Nat → Option α) : List (Nat × α) :=
  (List.range n).filterMap fun i => (t i).map fun x => (i, x)

/-- Looking through the places of a list is looking through the list. -/
theorem find?_places {l : List α} {p : α → Bool} {q : Nat → Bool}
    (hq : ∀ i x, l[i]? = some x → q i = p x) :
    l.find? p = ((List.range l.length).find? q).bind fun i => l[i]? := by
  induction l generalizing q with
  | nil => rfl
  | cons x l ih =>
    have hx : q 0 = p x := hq 0 x rfl
    have hrest := ih (q := fun i => q (i + 1)) fun i y hy => hq (i + 1) y hy
    rw [List.length_cons, List.range_succ_eq_map]
    by_cases hp : p x = true
    · rw [List.find?_cons_of_pos hp, List.find?_cons_of_pos (hx.trans hp)]
      rfl
    · rw [List.find?_cons_of_neg hp, List.find?_cons_of_neg (hx ▸ hp), hrest, List.find?_map]
      cases hfind : (List.range l.length).find? fun i => q (i + 1) with
      | none =>
        have hnone : (List.range l.length).find? (q ∘ Nat.succ) = none := hfind
        rw [hnone]
        rfl
      | some i =>
        have hsome : (List.range l.length).find? (q ∘ Nat.succ) = some i := hfind
        rw [hsome]
        rfl

/-- Where no two entries satisfy `p`, the first that does is any that does. -/
theorem findIdx?_pairwise {l : List α} {p : α → Bool} (hl : l.Pairwise fun x y => ¬(p x = true ∧ p y = true)) :
    l.findIdx? p = some i ↔ ∃ x, l[i]? = some x ∧ p x = true := by
  rw [List.findIdx?_eq_some_iff_getElem]
  constructor
  · rintro ⟨hi, hp, -⟩
    exact ⟨l[i], List.getElem?_eq_getElem hi, hp⟩
  · rintro ⟨x, hx, hp⟩
    obtain ⟨hi, rfl⟩ := List.getElem?_eq_some_iff.mp hx
    refine ⟨hi, hp, fun j hji hpj => ?_⟩
    exact List.pairwise_iff_getElem.mp hl j i (hji.trans hi) hi hji ⟨hpj, hp⟩

theorem firstFree_some (h : firstFree n t = some i) : i < n ∧ t i = none := by
  have hfree := List.find?_some h
  exact ⟨List.mem_range.mp (List.mem_of_find?_eq_some h), by simpa using hfree⟩

theorem firstHeld_some {p : α → Bool} (h : firstHeld n t p = some i) :
    i < n ∧ ∃ x, t i = some x ∧ p x = true := by
  have hany := List.find?_some h
  have hmem := List.mem_range.mp (List.mem_of_find?_eq_some h)
  cases hx : t i with
  | none => simp [hx] at hany
  | some x =>
    rw [hx] at hany
    exact ⟨hmem, x, rfl, hany⟩

theorem firstHeld_none {p : α → Bool} (h : firstHeld n t p = none) (hi : i < n) (hx : t i = some x) :
    p x = false := by
  have hnot := List.find?_eq_none.mp h i (List.mem_range.mpr hi)
  rw [hx] at hnot
  simpa using hnot

theorem mem_held {e : Nat × α} : e ∈ held n t ↔ e.1 < n ∧ t e.1 = some e.2 := by
  obtain ⟨i, x⟩ := e
  unfold held
  rw [List.mem_filterMap]
  constructor
  · rintro ⟨j, hj, hmap⟩
    obtain ⟨y, hy, heq⟩ := Option.map_eq_some_iff.mp hmap
    cases heq
    exact ⟨List.mem_range.mp hj, hy⟩
  · rintro ⟨hi, hx⟩
    exact ⟨i, List.mem_range.mpr hi, by rw [hx]; rfl⟩

theorem held_succ (n : Nat) (t : Nat → Option α) :
    held (n + 1) t = held n t ++ ((t n).map fun x => (n, x)).toList := by
  unfold held
  rw [List.range_succ, List.filterMap_append]
  cases h : t n <;> simp [h]

theorem held_congr {t' : Nat → Option α} (h : ∀ j < n, t' j = t j) : held n t' = held n t := by
  unfold held
  apply List.filterMap_congr
  intro j hj
  rw [h j (List.mem_range.mp hj)]

/-- The slots come in order, each once. -/
theorem held_sorted (n : Nat) (t : Nat → Option α) : ((held n t).map Prod.fst).Pairwise (· < ·) := by
  induction n with
  | zero => exact .nil
  | succ n ih =>
    rw [held_succ, List.map_append, List.pairwise_append]
    refine ⟨ih, ?_, ?_⟩
    · cases t n with
      | none => exact .nil
      | some x => exact List.pairwise_singleton ..
    · intro i hi j hj
      obtain ⟨e, he, rfl⟩ := List.mem_map.mp hi
      have hlt := (mem_held.mp he).1
      cases hx : t n with
      | none => simp [hx] at hj
      | some x =>
        simp [hx] at hj
        omega

/-- A slot that was free is taken. -/
theorem held_take (hi : i < n) (hfree : t i = none) (x : α) :
    (held n (Function.update t i (some x)) : Multiset (Nat × α)) = (i, x) ::ₘ (held n t : Multiset _) := by
  induction n with
  | zero => omega
  | succ n ih =>
    rw [held_succ, held_succ]
    by_cases hlast : i = n
    · subst hlast
      have hrest : held i (Function.update t i (some x)) = held i t :=
        held_congr fun j hj => Function.update_of_ne (Nat.ne_of_lt hj) ..
      rw [hrest, Function.update_self, hfree]
      simp [← Multiset.coe_add, Multiset.add_comm, Multiset.singleton_add]
    · rw [← Multiset.coe_add, ← Multiset.coe_add, ih (by omega),
        Function.update_of_ne (fun h => hlast h.symm), Multiset.cons_add]

/-- A slot that was used is freed. -/
theorem held_free (hi : i < n) (hx : t i = some x) :
    (held n t : Multiset (Nat × α)) = (i, x) ::ₘ (held n (Function.update t i none) : Multiset _) := by
  have htake := held_take (t := Function.update t i none) hi (Function.update_self ..) x
  rw [Function.update_idem, ← hx, Function.update_eq_self] at htake
  exact htake

/-- How many of the first `n` flags are set, when one of them is stored. -/
theorem countP_update {f : Nat → Bool} (hi : i < n) (b : Bool) :
    (List.range n).countP (Function.update f i b) + (f i).toNat =
      (List.range n).countP f + b.toNat := by
  induction n with
  | zero => omega
  | succ n ih =>
    rw [List.range_succ, List.countP_append, List.countP_append, List.countP_singleton,
      List.countP_singleton]
    by_cases hlast : i = n
    · subst hlast
      have hrest : (List.range i).countP (Function.update f i b) = (List.range i).countP f := by
        apply List.countP_congr
        intro j hj
        rw [Function.update_of_ne (Nat.ne_of_lt (List.mem_range.mp hj))]
      rw [hrest, Function.update_self]
      cases b <;> cases f i <;> simp
    · rw [Function.update_of_ne (fun h => hlast h.symm)]
      have := ih (by omega)
      omega

/-- Freeing a free slot changes nothing. -/
theorem update_free (hfree : t i = none) : Function.update t i none = t := by
  rw [← hfree]
  exact Function.update_eq_self ..

end MeuOS.Lib
