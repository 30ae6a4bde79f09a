import Mathlib.Order.Interval.Finset.Nat

/-! Lists threaded through records: each record names the next, 0 ends the list. -/
namespace MeuOS.Lib

/-- From `p` the links lead through `l`, in order. -/
def Linked (link : Nat → Nat) : Nat → List Nat → Prop
  | p, [] => p = 0
  | p, q :: l => p = q ∧ q ≠ 0 ∧ Linked link (link q) l

variable {link link' : Nat → Nat} {p q : Nat} {l l' : List Nat}

theorem Linked.congr (h : Linked link p l) (hsame : ∀ q ∈ l, link' q = link q) : Linked link' p l := by
  induction l generalizing p with
  | nil => exact h
  | cons q l ih =>
    obtain ⟨hp, hne, hrest⟩ := h
    refine ⟨hp, hne, ?_⟩
    rw [hsame q List.mem_cons_self]
    exact ih hrest fun q' hq' => hsame q' (List.mem_cons_of_mem _ hq')

theorem Linked.unique (h : Linked link p l) (h' : Linked link p l') : l = l' := by
  induction l generalizing p l' with
  | nil =>
    cases l' with
    | nil => rfl
    | cons q l' => exact absurd (h'.1.symm.trans h) h'.2.1
  | cons q l ih =>
    cases l' with
    | nil => exact absurd (h.1.symm.trans h') h.2.1
    | cons q' l' =>
      obtain ⟨rfl, -, hrest⟩ := h
      obtain ⟨rfl, -, hrest'⟩ := h'
      rw [ih hrest hrest']

theorem Linked.suffix {pre : List Nat} (h : Linked link p (pre ++ q :: l)) :
    Linked link q (q :: l) := by
  induction pre generalizing p with
  | nil => exact ⟨rfl, h.2.1, h.2.2⟩
  | cons _ pre ih => exact ih h.2.2

theorem Linked.nodup (h : Linked link p l) : l.Nodup := by
  induction l generalizing p with
  | nil => exact .nil
  | cons q l ih =>
    refine List.nodup_cons.2 ⟨fun hq => ?_, ih h.2.2⟩
    -- a record that came again would be followed by all that followed it before
    obtain ⟨pre, post, rfl⟩ := List.append_of_mem hq
    have hagain := (show Linked link q (q :: (pre ++ q :: post)) from ⟨rfl, h.2.1, h.2.2⟩).unique
      (h.2.2.suffix)
    have hlength := congrArg List.length hagain
    simp only [List.length_cons, List.length_append] at hlength
    omega

theorem length_le_of_nodup {lo hi : Nat} (h : l.Nodup) (hbounds : ∀ q ∈ l, lo ≤ q ∧ q < hi) :
    l.length ≤ hi - lo := by
  have hsubset : l.toFinset ⊆ Finset.Ico lo hi := fun q hq =>
    Finset.mem_Ico.2 (hbounds q (List.mem_toFinset.1 hq))
  have hcard := Finset.card_le_card hsubset
  rwa [List.toFinset_card_of_nodup h, Nat.card_Ico] at hcard

end MeuOS.Lib
