import Mathlib.Data.List.Induction
import Mathlib.Tactic.Linarith
import Mathlib.Tactic.Ring

/-! Copying cell by cell within one memory. A list of moves, each from one address to another, is the
copy of everything at once if no cell is read or written again after it was written. -/
namespace MeuOS.Lib

variable {α β : Type} {m : Nat → α} {l : List (Nat × Nat)} {p : Nat × Nat}

/-- What is at the first address goes to the second. -/
def moveOne (m : Nat → α) (p : Nat × Nat) : Nat → α := Function.update m p.2 (m p.1)

def moves (m : Nat → α) (l : List (Nat × Nat)) : Nat → α := l.foldl moveOne m

theorem moves_other {b : Nat} (h : ∀ p ∈ l, p.2 ≠ b) : moves m l b = m b := by
  induction l generalizing m with
  | nil => rfl
  | cons p l ih =>
    refine (ih fun q hq => h q (List.mem_cons_of_mem p hq)).trans ?_
    exact Function.update_of_ne (h p List.mem_cons_self).symm _ _

/-- Earlier moves spoil neither what a later one reads nor what it leaves. -/
def InOrder (l : List (Nat × Nat)) : Prop := l.Pairwise fun p q => p.2 ≠ q.1 ∧ p.2 ≠ q.2

theorem moves_at (h : InOrder l) (hp : p ∈ l) : moves m l p.2 = m p.1 := by
  induction l generalizing m with
  | nil => cases hp
  | cons q l ih =>
    obtain ⟨hfirst, hrest⟩ := List.pairwise_cons.1 h
    rcases List.mem_cons.1 hp with rfl | hmem
    · refine (moves_other fun q hq => (hfirst q hq).2.symm).trans ?_
      exact Function.update_self ..
    · refine (ih hrest hmem).trans ?_
      exact Function.update_of_ne (hfirst p hmem).1.symm _ _

/-- Going up through the addresses while moving down. -/
theorem inOrder_up {d : Int} (hsorted : l.Pairwise fun p q => p.1 < q.1)
    (hshift : ∀ p ∈ l, (p.2 : Int) = p.1 + d) (hd : d ≤ 0) : InOrder l := by
  refine hsorted.imp_of_mem fun {p q} hp hq hlt => ?_
  have hp' := hshift p hp
  have hq' := hshift q hq
  omega

/-- Going down through them while moving up. -/
theorem inOrder_down {d : Int} (hsorted : l.Pairwise fun p q => p.1 < q.1)
    (hshift : ∀ p ∈ l, (p.2 : Int) = p.1 + d) (hd : 0 ≤ d) : InOrder l.reverse := by
  refine List.pairwise_reverse.2 (hsorted.imp_of_mem fun {p q} hp hq hlt => ?_)
  have hp' := hshift p hp
  have hq' := hshift q hq
  omega

theorem moves_self (h : ∀ p ∈ l, p.1 = p.2) : moves m l = m := by
  induction l generalizing m with
  | nil => rfl
  | cons p l ih =>
    have hone : moveOne m p = m := by
      rw [moveOne, h p List.mem_cons_self]
      exact Function.update_eq_self ..
    refine (congrArg (fun m => moves m l) hone).trans (ih fun q hq => h q (List.mem_cons_of_mem p hq))

/-! ## Where a cell's content comes from -/

theorem moves_map (f : α → β) (m : Nat → α) (l : List (Nat × Nat)) :
    moves (fun i => f (m i)) l = fun i => f (moves m l i) := by
  induction l generalizing m with
  | nil => rfl
  | cons p l ih =>
    have hone : moveOne (fun i => f (m i)) p = fun i => f (moveOne m p i) := by
      funext i
      by_cases hi : i = p.2
      · simp [moveOne, hi]
      · simp [moveOne, hi]
    exact (congrArg (fun m => moves m l) hone).trans (ih (moveOne m p))

theorem moves_snoc (m : Nat → α) (l : List (Nat × Nat)) (p : Nat × Nat) :
    moves m (l ++ [p]) = moveOne (moves m l) p :=
  List.foldl_append

/-- Every move goes the same way, so nothing comes back to where it was. -/
theorem origin_shift {d : Int} (hshift : ∀ p ∈ l, (p.2 : Int) = p.1 + d) (b : Nat) :
    ∃ k : Nat, ((moves id l b : Nat) : Int) = b - k * d := by
  induction l using List.reverseRecOn generalizing b with
  | nil => exact ⟨0, by simp [moves]⟩
  | append_singleton l p ih =>
    have ih' := ih fun q hq => hshift q (List.mem_append_left _ hq)
    rw [moves_snoc]
    by_cases hb : b = p.2
    · obtain ⟨k, hk⟩ := ih' p.1
      have hp := hshift p (List.mem_append_right _ (List.mem_singleton.2 rfl))
      refine ⟨k + 1, ?_⟩
      rw [hb, moveOne, Function.update_self, hk]
      push_cast
      rw [hp]
      ring
    · obtain ⟨k, hk⟩ := ih' b
      refine ⟨k, ?_⟩
      rw [moveOne, Function.update_of_ne hb, hk]

/-- Moves by a distance other than zero change some memory. -/
theorem moves_ne {d : Int} (hd : d ≠ 0) (hshift : ∀ p ∈ l, (p.2 : Int) = p.1 + d) (hl : l ≠ []) {x y : α}
    (hxy : x ≠ y) : ∃ m : Nat → α, moves m l ≠ m := by
  obtain ⟨l', p, rfl⟩ : ∃ l' p, l = l' ++ [p] := ⟨_, _, (List.dropLast_concat_getLast hl).symm⟩
  have hp := hshift p (List.mem_append_right _ (List.mem_singleton.2 rfl))
  obtain ⟨k, hk⟩ := origin_shift (fun q hq => hshift q (List.mem_append_left _ hq)) p.1
  have hmoved : moves id (l' ++ [p]) p.2 ≠ p.2 := by
    rw [moves_snoc, moveOne, Function.update_self]
    intro heq
    rw [heq, hp] at hk
    have hzero : ((k : Int) + 1) * d = 0 := by linarith
    rcases Int.mul_eq_zero.1 hzero with hk | hd'
    · omega
    · exact hd hd'
  refine ⟨fun i => if i = p.2 then x else y, fun heq => ?_⟩
  have hcell := congrFun heq p.2
  have hmap := congrFun (moves_map (fun i => if i = p.2 then x else y) id (l' ++ [p])) p.2
  simp only [id] at hmap
  rw [hmap, if_neg hmoved, if_pos rfl] at hcell
  exact hxy hcell.symm

end MeuOS.Lib
