import Mathlib.Data.List.Basic
import Mathlib.Data.Nat.ModEq

/-! A queue in a circular buffer of `cap` slots: where the next element is taken, where the
next one goes, and how many there are. -/
namespace MeuOS.Lib

structure Fifo (α : Type) where
  slots : Nat → α
  head : Nat
  tail : Nat
  count : Nat

namespace Fifo

variable {α : Type} {cap : Nat} {q : Fifo α}

/-- The elements, the next one to be taken first. -/
def contents (cap : Nat) (q : Fifo α) : List α :=
  (List.range q.count).map fun k => q.slots ((q.head + k) % cap)

def push (cap : Nat) (x : α) (q : Fifo α) : Fifo α :=
  { slots := Function.update q.slots q.tail x
    head := q.head
    tail := (q.tail + 1) % cap
    count := q.count + 1 }

def drop (cap : Nat) (q : Fifo α) : Fifo α :=
  { q with head := (q.head + 1) % cap, count := q.count - 1 }

/-- The three numbers agree. -/
structure Sound (cap : Nat) (q : Fifo α) : Prop where
  head_lt : q.head < cap
  tail_eq : q.tail = (q.head + q.count) % cap
  count_le : q.count ≤ cap

theorem length_contents (cap : Nat) (q : Fifo α) : (q.contents cap).length = q.count := by
  unfold contents
  rw [List.length_map, List.length_range]

theorem push_sound (hq : q.Sound cap) (hroom : q.count < cap) (x : α) : (q.push cap x).Sound cap := by
  refine ⟨hq.head_lt, ?_, hroom⟩
  change (q.tail + 1) % cap = (q.head + (q.count + 1)) % cap
  rw [hq.tail_eq, Nat.mod_add_mod, Nat.add_assoc]

theorem drop_sound (hq : q.Sound cap) (hsome : 0 < q.count) : (q.drop cap).Sound cap := by
  have hlt := hq.head_lt
  have hle := hq.count_le
  refine ⟨Nat.mod_lt _ (by omega), ?_, ?_⟩
  · change q.tail = ((q.head + 1) % cap + (q.count - 1)) % cap
    rw [hq.tail_eq, Nat.mod_add_mod, show q.head + 1 + (q.count - 1) = q.head + q.count by omega]
  · change q.count - 1 ≤ cap
    omega

/-- The slot behind the last element holds none of them. -/
theorem push_contents (hq : q.Sound cap) (hroom : q.count < cap) (x : α) :
    (q.push cap x).contents cap = q.contents cap ++ [x] := by
  unfold contents
  change (List.range (q.count + 1)).map
    (fun k => Function.update q.slots q.tail x ((q.head + k) % cap)) = _
  rw [List.range_succ, List.map_append, List.map_singleton, ← hq.tail_eq, Function.update_self]
  congr 1
  apply List.map_congr_left
  intro k hk
  have hlt := List.mem_range.mp hk
  have hhead := hq.head_lt
  apply Function.update_of_ne
  rw [hq.tail_eq]
  intro heq
  -- two offsets less than the capacity apart
  have hmod := (Nat.ModEq.add_left_cancel' q.head (show q.head + k ≡ q.head + q.count [MOD cap] from heq))
  rw [Nat.ModEq, Nat.mod_eq_of_lt (by omega), Nat.mod_eq_of_lt hroom] at hmod
  omega

theorem drop_contents (hsome : 0 < q.count) :
    q.contents cap = q.slots (q.head % cap) :: (q.drop cap).contents cap := by
  unfold contents
  change _ = _ :: (List.range (q.count - 1)).map (fun k => q.slots (((q.head + 1) % cap + k) % cap))
  obtain ⟨n, hn⟩ : ∃ n, q.count = n + 1 := ⟨q.count - 1, by omega⟩
  rw [hn, List.range_succ_eq_map, List.map_cons, List.map_map]
  congr 1
  apply List.map_congr_left
  intro k _
  simp only [Function.comp_apply]
  rw [Nat.mod_add_mod, show q.head + 1 + k = q.head + (k + 1) by omega]

end Fifo

end MeuOS.Lib
