import Mathlib.Data.List.Pairwise

/-! The painter's order. Items are painted pass by pass, each in the pass of its height; what was
painted last over a point is what shows there, and that is the highest item over it. -/
namespace MeuOS.Lib

variable {α : Type}

/-- The items painted in the passes `1` to `passes`, in order. -/
def paintOrder (shown : α → Bool) (height : α → Int) (passes : Nat) (l : List α) : List α :=
  (List.range passes).flatMap fun (k : Nat) => l.filter fun a => shown a && height a == (k : Int) + 1

/-- What shows at a point that `covers` tells about. -/
def onTop (covers : α → Bool) (painted : List α) : Option α := (painted.filter covers).getLast?

/-- A highest item of those that pass a test. -/
def Highest (height : α → Int) (p : α → Prop) (a : α) : Prop := p a ∧ ∀ b, p b → height b ≤ height a

variable {shown covers : α → Bool} {height : α → Int} {passes : Nat} {l : List α} {a : α}

theorem mem_paintOrder : a ∈ paintOrder shown height passes l ↔
    a ∈ l ∧ shown a = true ∧ 1 ≤ height a ∧ height a ≤ passes := by
  unfold paintOrder
  simp only [List.mem_flatMap, List.mem_range, List.mem_filter, Bool.and_eq_true, beq_iff_eq]
  constructor
  · rintro ⟨k, hk, hmem, hshown, hheight⟩
    exact ⟨hmem, hshown, by omega, by omega⟩
  · rintro ⟨hmem, hshown, hlow, hhigh⟩
    exact ⟨(height a - 1).toNat, by omega, hmem, hshown, by omega⟩

/-- Higher items are painted later. -/
theorem paintOrder_pairwise (passes : Nat) :
    (paintOrder shown height passes l).Pairwise fun a b => height a ≤ height b := by
  unfold paintOrder
  rw [List.pairwise_flatMap]
  have hpass : ∀ (k : Nat) a, a ∈ (l.filter fun a => shown a && height a == (k : Int) + 1) →
      height a = k + 1 := fun k a ha => by
    simp only [List.mem_filter, Bool.and_eq_true, beq_iff_eq] at ha
    exact ha.2.2
  refine ⟨fun k _ => List.pairwise_of_forall_mem_list fun a ha b hb => ?_,
    List.pairwise_lt_range.imp fun {j k} hjk a ha b hb => ?_⟩
  · exact Int.le_of_eq ((hpass k a ha).trans (hpass k b hb).symm)
  · rw [hpass j a ha, hpass k b hb]
    omega

/-- The last of a sorted list is a highest. -/
theorem highest_of_getLast? (hsorted : l.Pairwise fun a b => height a ≤ height b)
    (hlast : l.getLast? = some a) : Highest height (· ∈ l) a := by
  obtain ⟨front, rfl⟩ := List.getLast?_eq_some_iff.mp hlast
  rw [List.pairwise_append] at hsorted
  refine ⟨List.mem_append_right _ (List.mem_singleton_self a), fun b hb => ?_⟩
  rcases List.mem_append.mp hb with hb | hb
  · exact hsorted.2.2 b hb a (List.mem_singleton_self a)
  · exact Int.le_of_eq (congrArg height (List.mem_singleton.mp hb))

theorem Highest.unique {p : α → Prop} (hinj : ∀ a b, p a → p b → height a = height b → a = b) {b : α}
    (ha : Highest height p a) (hb : Highest height p b) : a = b :=
  hinj a b ha.1 hb.1 (Int.le_antisymm (hb.2 a ha.1) (ha.2 b hb.1))

/-- What shows over a point is the highest item there, when no two have the same height. -/
theorem onTop_eq_some
    (hinj : ∀ a ∈ l, ∀ b ∈ l, shown a = true → shown b = true → height a = height b → a = b)
    (hpasses : ∀ a ∈ l, shown a = true → 1 ≤ height a ∧ height a ≤ passes) :
    onTop covers (paintOrder shown height passes l) = some a ↔
      Highest height (fun b => b ∈ l ∧ shown b = true ∧ covers b = true) a := by
  have hmem : ∀ b, b ∈ (paintOrder shown height passes l).filter covers ↔
      b ∈ l ∧ shown b = true ∧ covers b = true := fun b => by
    rw [List.mem_filter, mem_paintOrder]
    exact ⟨fun h => ⟨h.1.1, h.1.2.1, h.2⟩, fun h => ⟨⟨h.1, h.2.1, hpasses b h.1 h.2.1⟩, h.2.2⟩⟩
  have hlast : ∀ b, onTop covers (paintOrder shown height passes l) = some b →
      Highest height (fun b => b ∈ l ∧ shown b = true ∧ covers b = true) b := fun b hb => by
    have hhigh := highest_of_getLast? ((paintOrder_pairwise passes).filter covers) hb
    exact ⟨(hmem b).mp hhigh.1, fun c hc => hhigh.2 c ((hmem c).mpr hc)⟩
  refine ⟨hlast a, fun ha => ?_⟩
  cases htop : onTop covers (paintOrder shown height passes l) with
  | none =>
    have hempty := List.getLast?_eq_none_iff.mp htop
    have hin := (hmem a).mpr ha.1
    rw [hempty] at hin
    cases hin
  | some b =>
    rw [(hlast b htop).unique (fun c d hc hd => hinj c hc.1 d hd.1 hc.2.1 hd.2.1) ha]

end MeuOS.Lib
