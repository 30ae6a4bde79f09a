import Mathlib.Data.List.Basic
import Mathlib.Data.Nat.Basic
import Mathlib.Order.Basic

/-! Tables of entries walked index by index: an entry is empty, ends the walk, or names the
table the next index is looked up in. Where no two walks lead to one table, a write changes
the translations that go through the written entry and no others, and hanging an empty table
under an empty entry changes none. -/
namespace MeuOS.Lib

abbrev Tables (ι ε : Type) := Nat → ι → ε

inductive Slot
  | empty
  | leaf
  | table (t : Nat)
deriving DecidableEq

namespace Tables

variable {ι ε : Type}

def write [DecidableEq ι] (M : Tables ι ε) (t : Nat) (i : ι) (e : ε) : Tables ι ε :=
  Function.update M t (Function.update (M t) i e)

def clear (M : Tables ι ε) (t : Nat) (e : ε) : Tables ι ε := Function.update M t fun _ => e

section Walk

-- What an entry says, given the number of indices still to come.
variable (slot : Nat → ε → Slot)

/-- The entry that ends the walk along a path, with the number of indices it leaves. -/
def lookup (M : Tables ι ε) : Nat → List ι → Option (ε × Nat)
  | _, [] => none
  | t, i :: rest =>
      match slot rest.length (M t i) with
      | .empty => none
      | .leaf => some (M t i, rest.length)
      | .table u => lookup M u rest

/-- The table a walk of `n` indices from `t` has come to behind the given ones. -/
def reach (M : Tables ι ε) : Nat → Nat → List ι → Option Nat
  | _, t, [] => some t
  | 0, _, _ :: _ => none
  | n + 1, t, i :: rest =>
      match slot n (M t i) with
      | .table u => reach M n u rest
      | _ => none

/-- No table is reached along two paths. -/
def Tree (M : Tables ι ε) (n root : Nat) : Prop :=
  ∀ c d t, c.length < n → d.length < n → reach slot M n root c = some t →
    reach slot M n root d = some t → c = d

/-- The entries read along a path are the same in both. -/
def Agree (M M' : Tables ι ε) (n t : Nat) (path : List ι) : Prop :=
  ∀ c j d u, path = c ++ j :: d → reach slot M n t c = some u → M' u j = M u j

end Walk

variable {slot : Nat → ε → Slot} {M M' : Tables ι ε} {n t u root : Nat} {i : ι} {c d : List ι}

@[simp] theorem reach_nil : reach slot M n t [] = some t := by
  cases n <;> rfl

theorem reach_append (c d : List ι) (n t : Nat) :
    reach slot M n t (c ++ d) =
      (reach slot M n t c).bind fun u => reach slot M (n - c.length) u d := by
  induction c generalizing n t with
  | nil => rw [List.nil_append, reach_nil, Option.bind_some, List.length_nil, Nat.sub_zero]
  | cons i c ih =>
    cases n with
    | zero => rfl
    | succ n =>
      simp only [List.cons_append, reach, List.length_cons, Nat.add_sub_add_right]
      cases slot n (M t i) with
      | empty => rfl
      | leaf => rfl
      | table u => exact ih n u

theorem reach_snoc (hc : reach slot M n t c = some u) (hlen : c.length < n) :
    reach slot M n t (c ++ [i]) =
      match slot (n - c.length - 1) (M u i) with
      | .table v => some v
      | _ => none := by
  rw [reach_append, hc, Option.bind_some]
  obtain ⟨k, hk⟩ : ∃ k, n - c.length = k + 1 := ⟨n - c.length - 1, by omega⟩
  rw [hk]
  simp only [reach, reach_nil, Nat.add_sub_cancel]

theorem lookup_append (hc : reach slot M n t c = some u) (hlen : n = c.length + d.length) :
    lookup slot M t (c ++ d) = lookup slot M u d := by
  induction c generalizing n t with
  | nil =>
    rw [reach_nil] at hc
    cases hc
    rfl
  | cons i c ih =>
    subst hlen
    rw [List.length_cons, Nat.add_right_comm] at hc
    simp only [List.cons_append, lookup, List.length_append]
    simp only [reach] at hc
    cases hslot : slot (c.length + d.length) (M t i) with
    | empty =>
      rw [hslot] at hc
      cases hc
    | leaf =>
      rw [hslot] at hc
      cases hc
    | table v =>
      rw [hslot] at hc
      exact ih hc rfl

/-! ## Frames -/

theorem Agree.tail {m : Nat} (h : Agree slot M M' (m + 1) t (i :: d))
    (hslot : slot m (M t i) = .table u) : Agree slot M M' m u d := by
  intro c j e v hpath hc
  apply h (i :: c) j e v (congrArg (i :: ·) hpath)
  simp only [reach, hslot]
  exact hc

theorem Agree.lookup (h : Agree slot M M' n t d) (hlen : d.length = n) :
    lookup slot M' t d = lookup slot M t d := by
  induction d generalizing n t with
  | nil => rfl
  | cons i d ih =>
    subst hlen
    have hhead : M' t i = M t i := h [] i d t rfl reach_nil
    simp only [Tables.lookup, hhead]
    cases hslot : slot d.length (M t i) with
    | empty => rfl
    | leaf => rfl
    | table u => exact ih (h.tail hslot) rfl

theorem Agree.reach (h : Agree slot M M' n t d) :
    reach slot M' n t d = reach slot M n t d := by
  induction d generalizing n t with
  | nil => rw [reach_nil, reach_nil]
  | cons i d ih =>
    cases n with
    | zero => rfl
    | succ n =>
      have hhead : M' t i = M t i := h [] i d t rfl reach_nil
      simp only [Tables.reach, hhead]
      cases hslot : slot n (M t i) with
      | empty => rfl
      | leaf => rfl
      | table u => exact ih (h.tail hslot)

/-- A table nothing leads to is on no path. -/
theorem agree_clear {f : Nat} (e : ε)
    (hfresh : ∀ c : List ι, c.length < n → reach slot M n t c ≠ some f) (hlen : d.length ≤ n) :
    Agree slot M (clear M f e) n t d := by
  intro c j rest u hpath hc
  have hne : u ≠ f := by
    intro heq
    apply hfresh c
    · rw [hpath, List.length_append, List.length_cons] at hlen
      omega
    · rw [hc, heq]
  exact congrFun (Function.update_of_ne hne _ _) j

theorem Tree.of_reach (h : Tree slot M n root)
    (heq : ∀ c : List ι, c.length < n → reach slot M' n root c = reach slot M n root c) :
    Tree slot M' n root := by
  intro c d t hc hd hct hdt
  rw [heq c hc] at hct
  rw [heq d hd] at hdt
  exact h c d t hc hd hct hdt

/-! ## A new table under an empty entry -/

/-- `f` is reached by no walk, `e` names it, and `z` is an empty entry at every level. -/
structure Grows (slot : Nat → ε → Slot) (M : Tables ι ε) (n root : Nat) (c : List ι) (u : Nat) (i : ι)
    (f : Nat) (z e : ε) : Prop where
  tree : Tree slot M n root
  parent : reach slot M n root c = some u
  inner : c.length + 1 < n
  absent : slot (n - c.length - 1) (M u i) = .empty
  fresh : ∀ d : List ι, d.length < n → reach slot M n root d ≠ some f
  zero : ∀ k, slot k z = .empty
  names : slot (n - c.length - 1) e = .table f

namespace Grows

variable {f : Nat} {z e : ε} (g : Grows slot M n root c u i f z e)
include g

theorem ne : u ≠ f := by
  intro heq
  have hinner := g.inner
  exact g.fresh c (by omega) (heq ▸ g.parent)

theorem reach_clear (hd : d.length ≤ n) :
    reach slot (clear M f z) n root d = reach slot M n root d :=
  (agree_clear z g.fresh hd).reach

theorem tree_clear : Tree slot (clear M f z) n root :=
  g.tree.of_reach fun _ hd => g.reach_clear hd.le

theorem parent_clear : reach slot (clear M f z) n root c = some u := by
  have hinner := g.inner
  rw [g.reach_clear (by omega), g.parent]

end Grows

section Write

variable [DecidableEq ι]

theorem write_self (M : Tables ι ε) (t : Nat) (i : ι) (e : ε) : write M t i e t i = e := by
  unfold write
  rw [Function.update_self, Function.update_self]

theorem write_of_ne (M : Tables ι ε) (i : ι) (e : ε) (h : u ≠ t) : write M t i e u = M u :=
  Function.update_of_ne h _ _

/-- The paths that do not go through the written entry. -/
theorem Tree.agree_write (h : Tree slot M n root) (hc : reach slot M n root c = some u)
    (hlen : c.length < n) (e : ε) (hoff : ¬c ++ [i] <+: d) (hd : d.length ≤ n) :
    Agree slot M (write M u i e) n root d := by
  intro c' j rest v hpath hc'
  by_cases hv : v = u
  · have hshort : c'.length < n := by
      rw [hpath, List.length_append, List.length_cons] at hd
      omega
    have hsame : c' = c := h c' c u hshort hlen (hv ▸ hc') hc
    have hj : j ≠ i := by
      intro hji
      apply hoff
      rw [hpath, hsame, hji]
      exact ⟨rest, by rw [List.append_assoc]; rfl⟩
    unfold write
    rw [hv, Function.update_self, Function.update_of_ne hj]
  · rw [write_of_ne M i e hv]

/-! ## Entries of the last tables -/

section Last

variable (h : Tree slot M n root) (hc : reach slot M n root c = some u) (hlast : c.length + 1 = n)
  (e : ε)
include h hc hlast

theorem Tree.reach_writeLast (hd : d.length < n) :
    reach slot (write M u i e) n root d = reach slot M n root d := by
  apply Agree.reach
  apply h.agree_write hc (by omega)
  · intro hpre
    have := hpre.length_le
    rw [List.length_append, List.length_singleton] at this
    omega
  · exact hd.le

theorem Tree.writeLast : Tree slot (write M u i e) n root :=
  h.of_reach fun _ hd => h.reach_writeLast hc hlast e hd

theorem Tree.agree_writeLast (hd : d.length = n) (hne : d ≠ c ++ [i]) :
    Agree slot M (write M u i e) n root d := by
  apply h.agree_write hc (by omega) e _ hd.le
  intro hpre
  apply hne
  apply (hpre.eq_of_length _).symm
  rw [List.length_append, List.length_singleton]
  omega

end Last

namespace Grows

variable {f : Nat} {z e : ε} (g : Grows slot M n root c u i f z e)
include g

theorem agree (hoff : ¬c ++ [i] <+: d) (hd : d.length ≤ n) :
    Agree slot (clear M f z) (write (clear M f z) u i e) n root d := by
  have hinner := g.inner
  exact g.tree_clear.agree_write g.parent_clear (by omega) e hoff hd

theorem reach_off (hoff : ¬c ++ [i] <+: d) (hd : d.length ≤ n) :
    reach slot (write (clear M f z) u i e) n root d = reach slot M n root d :=
  (g.agree hoff hd).reach.trans (g.reach_clear hd)

theorem reach_parent : reach slot (write (clear M f z) u i e) n root c = some u := by
  have hinner := g.inner
  rw [g.reach_off _ (by omega), g.parent]
  intro hpre
  have := hpre.length_le
  rw [List.length_append, List.length_singleton] at this
  omega

theorem reach_new : reach slot (write (clear M f z) u i e) n root (c ++ [i]) = some f := by
  have hinner := g.inner
  rw [reach_snoc g.reach_parent (by omega), write_self, g.names]

theorem new_empty (j : ι) : write (clear M f z) u i e f j = z := by
  rw [write_of_ne _ i e g.ne.symm]
  unfold clear
  rw [Function.update_self]

/-- Only the new table is reached in a new way. -/
theorem reach_cases {v : Nat} (hd : d.length < n)
    (hv : reach slot (write (clear M f z) u i e) n root d = some v) :
    d = c ++ [i] ∧ v = f ∨ reach slot M n root d = some v := by
  by_cases hoff : c ++ [i] <+: d
  · obtain ⟨rest, rfl⟩ := hoff
    rw [reach_append, g.reach_new, Option.bind_some] at hv
    cases rest with
    | nil =>
      refine .inl ⟨List.append_nil _, ?_⟩
      rw [reach_nil] at hv
      exact (Option.some.inj hv).symm
    | cons j rest =>
      exfalso
      cases hk : n - (c ++ [i]).length with
      | zero =>
        rw [hk] at hv
        cases hv
      | succ k =>
        rw [hk] at hv
        simp only [reach, g.new_empty, g.zero] at hv
        cases hv
  · rw [g.reach_off hoff hd.le] at hv
    exact .inr hv

theorem tree_grown : Tree slot (write (clear M f z) u i e) n root := by
  intro c' d' v hc hd hcv hdv
  rcases g.reach_cases hc hcv with ⟨rfl, rfl⟩ | hold
  · rcases g.reach_cases hd hdv with ⟨rfl, -⟩ | hold'
    · rfl
    · exact absurd hold' (g.fresh d' hd)
  · rcases g.reach_cases hd hdv with ⟨-, rfl⟩ | hold'
    · exact absurd hold (g.fresh c' hc)
    · exact g.tree c' d' v hc hd hold hold'

/-- The new table translates nothing, as the entry it hangs under did. -/
theorem lookup_grown (hd : d.length = n) :
    lookup slot (write (clear M f z) u i e) root d = lookup slot M root d := by
  have hinner := g.inner
  by_cases hoff : c ++ [i] <+: d
  · obtain ⟨rest, rfl⟩ := hoff
    rw [List.length_append, List.length_append, List.length_singleton] at hd
    have hlen : n = (c ++ [i]).length + rest.length := by
      rw [List.length_append, List.length_singleton]
      omega
    have hlevel : rest.length = n - c.length - 1 := by omega
    rw [lookup_append g.reach_new hlen, List.append_assoc,
      lookup_append g.parent (by rw [List.length_append, List.length_singleton]; omega)]
    simp only [List.singleton_append, lookup, hlevel, g.absent]
    cases rest with
    | nil => rfl
    | cons j rest => simp only [lookup, g.new_empty, g.zero]
  · exact ((g.agree hoff hd.le).lookup hd).trans ((agree_clear z g.fresh hd.le).lookup hd)

end Grows

end Write

end Tables

end MeuOS.Lib
