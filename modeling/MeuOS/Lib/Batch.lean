import Mathlib.Data.List.Basic

/-! A batch of bounded size: the first entries of a list that match, and what is left. -/
namespace MeuOS.Lib

variable {α : Type} {q r : α → Bool} {l : List α} {a : α} {m : Nat}

/-- The first `m` entries that match, and the list without them. -/
def takeUpTo (q : α → Bool) : Nat → List α → List α × List α
  | _, [] => ([], [])
  | 0, l => ([], l)
  | m + 1, a :: l =>
      if q a then (a :: (takeUpTo q m l).1, (takeUpTo q m l).2)
      else ((takeUpTo q (m + 1) l).1, a :: (takeUpTo q (m + 1) l).2)

@[simp] theorem takeUpTo_nil : takeUpTo q m [] = ([], []) := by
  cases m <;> rfl

@[simp] theorem takeUpTo_zero : takeUpTo q 0 l = ([], l) := by
  cases l <;> rfl

theorem takeUpTo_match (h : q a = true) :
    takeUpTo q (m + 1) (a :: l) = (a :: (takeUpTo q m l).1, (takeUpTo q m l).2) :=
  if_pos h

theorem takeUpTo_pass (h : q a = false) :
    takeUpTo q m (a :: l) = ((takeUpTo q m l).1, a :: (takeUpTo q m l).2) := by
  cases m with
  | zero => simp
  | succ m => exact if_neg (by simp [h])

theorem takeUpTo_congr (h : ∀ a ∈ l, q a = r a) : takeUpTo q m l = takeUpTo r m l := by
  induction l generalizing m with
  | nil => simp
  | cons a l ih =>
    have hrest : ∀ m, takeUpTo q m l = takeUpTo r m l :=
      fun m => ih fun b hb => h b (List.mem_cons_of_mem a hb)
    have hfirst : q a = r a := h a List.mem_cons_self
    cases m with
    | zero => simp
    | succ m =>
      unfold takeUpTo
      rw [hfirst, hrest m, hrest (m + 1)]

/-- What is taken are the first matches. -/
theorem takeUpTo_fst : (takeUpTo q m l).1 = (l.filter q).take m := by
  induction l generalizing m with
  | nil => simp
  | cons a l ih =>
    cases m with
    | zero => simp
    | succ m =>
      cases hq : q a with
      | true => rw [takeUpTo_match hq, List.filter_cons_of_pos hq, ih, List.take_succ_cons]
      | false => rw [takeUpTo_pass hq, List.filter_cons_of_neg (by simp [hq]), ih]

/-- What matches and is left are the others. -/
theorem takeUpTo_snd : (takeUpTo q m l).2.filter q = (l.filter q).drop m := by
  induction l generalizing m with
  | nil => simp
  | cons a l ih =>
    cases m with
    | zero => simp
    | succ m =>
      cases hq : q a with
      | true => rw [takeUpTo_match hq, List.filter_cons_of_pos hq, ih, List.drop_succ_cons]
      | false =>
        rw [takeUpTo_pass hq, List.filter_cons_of_neg (by simp [hq]),
          List.filter_cons_of_neg (by simp [hq]), ih]

/-- What does not match is left as it is. -/
theorem takeUpTo_other (h : ∀ a, r a = true → q a = false) :
    (takeUpTo q m l).2.filter r = l.filter r := by
  induction l generalizing m with
  | nil => simp
  | cons a l ih =>
    cases m with
    | zero => simp
    | succ m =>
      cases hq : q a with
      | true =>
        have hr : ¬r a = true := fun hr => by
          rw [h a hr] at hq
          cases hq
        rw [takeUpTo_match hq, List.filter_cons_of_neg hr, ih]
      | false =>
        rw [takeUpTo_pass hq]
        by_cases hr : r a = true
        · rw [List.filter_cons_of_pos hr, List.filter_cons_of_pos hr, ih]
        · rw [List.filter_cons_of_neg hr, List.filter_cons_of_neg hr, ih]

theorem takeUpTo_snd_sublist : (takeUpTo q m l).2.Sublist l := by
  induction l generalizing m with
  | nil => simp
  | cons a l ih =>
    cases m with
    | zero => simp
    | succ m =>
      cases hq : q a with
      | true =>
        rw [takeUpTo_match hq]
        exact ih.cons a
      | false =>
        rw [takeUpTo_pass hq]
        exact ih.cons_cons a

/-- Every entry is taken or left. -/
theorem mem_takeUpTo : a ∈ l ↔ a ∈ (takeUpTo q m l).1 ∨ a ∈ (takeUpTo q m l).2 := by
  induction l generalizing m with
  | nil => simp
  | cons b l ih =>
    cases m with
    | zero => simp
    | succ m =>
      cases hq : q b with
      | true =>
        rw [takeUpTo_match hq, List.mem_cons, List.mem_cons, ih]
        tauto
      | false =>
        rw [takeUpTo_pass hq, List.mem_cons, List.mem_cons, ih]
        tauto

theorem takeUpTo_apart (h : l.Nodup) (ha : a ∈ (takeUpTo q m l).1) : a ∉ (takeUpTo q m l).2 := by
  induction l generalizing m with
  | nil => simp at ha
  | cons b l ih =>
    rw [List.nodup_cons] at h
    cases m with
    | zero => simp at ha
    | succ m =>
      cases hq : q b with
      | true =>
        rw [takeUpTo_match hq] at ha ⊢
        rcases List.mem_cons.1 ha with rfl | ha
        · exact fun hleft => h.1 (takeUpTo_snd_sublist.subset hleft)
        · exact ih h.2 ha
      | false =>
        rw [takeUpTo_pass hq] at ha ⊢
        intro hleft
        rcases List.mem_cons.1 hleft with rfl | hleft
        · exact h.1 (mem_takeUpTo.2 (.inl ha))
        · exact ih h.2 ha hleft

end MeuOS.Lib
