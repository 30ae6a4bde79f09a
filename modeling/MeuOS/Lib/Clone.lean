import MeuOS.Lib.Tables

/-! Two walks in one set of tables. A copy of a table in which one entry names another table is
walked like the original as long as the walks behind that entry are alike; and writes to tables
that a walk does not come to are not seen by it. -/
namespace MeuOS.Lib

namespace Tables

variable {ι ε φ : Type}

def copy (M : Tables ι ε) (dst src : Nat) : Tables ι ε := Function.update M dst (M src)

section Survey

variable (slot : Nat → ε → Slot) (seen : ε → φ)

/-- What is seen of the entries a walk goes through, with the entry that ends it and the number
of indices it leaves. -/
def survey (M : Tables ι ε) : Nat → List ι → Option (List φ × ε × Nat)
  | _, [] => none
  | t, i :: rest =>
      match slot rest.length (M t i) with
      | .empty => none
      | .leaf => some ([], M t i, rest.length)
      | .table u => (survey M u rest).map fun r => (seen (M t i) :: r.1, r.2)

/-- No walk from the root comes to one of the tables. -/
def Apart (M : Tables ι ε) (n root : Nat) (tables : List Nat) : Prop :=
  ∀ c t, c.length < n → reach slot M n root c = some t → t ∉ tables

end Survey

variable {slot : Nat → ε → Slot} {seen : ε → φ} {M M' : Tables ι ε} {n t u v root : Nat} {i : ι}
  {c d : List ι} {tables : List Nat}

theorem reach_cons (hslot : slot n (M t i) = .table u) (c : List ι) :
    reach slot M (n + 1) t (i :: c) = reach slot M n u c := by
  simp only [reach, hslot]

theorem reach_cons_none (hslot : ∀ u, slot n (M t i) ≠ .table u) (c : List ι) :
    reach slot M (n + 1) t (i :: c) = none := by
  unfold reach
  cases hentry : slot n (M t i) with
  | empty => rfl
  | leaf => rfl
  | table u => exact absurd hentry (hslot u)

theorem survey_lookup (M : Tables ι ε) (t : Nat) (d : List ι) :
    (survey slot seen M t d).map Prod.snd = lookup slot M t d := by
  induction d generalizing t with
  | nil => rfl
  | cons i d ih =>
    simp only [survey, lookup]
    cases slot d.length (M t i) with
    | empty => rfl
    | leaf => rfl
    | table u =>
      dsimp only
      rw [← ih u]
      exact Option.map_map ..

theorem Agree.survey (h : Agree slot M M' n t d) (hlen : d.length = n) :
    survey slot seen M' t d = survey slot seen M t d := by
  induction d generalizing n t with
  | nil => rfl
  | cons i d ih =>
    subst hlen
    have hhead : M' t i = M t i := h [] i d t rfl reach_nil
    simp only [Tables.survey, hhead]
    cases hslot : slot d.length (M t i) with
    | empty => rfl
    | leaf => rfl
    | table u =>
      dsimp only
      rw [ih (h.tail hslot) rfl]

theorem agree_of_reached (h : ∀ c u, c.length < n → reach slot M n t c = some u → M' u = M u)
    (hlen : d.length ≤ n) : Agree slot M M' n t d := by
  intro c j rest u hpath hc
  refine congrFun (h c u ?_ hc) j
  rw [hpath, List.length_append, List.length_cons] at hlen
  omega

/-! ## Writes elsewhere -/

section Elsewhere

variable (h : Apart slot M n root tables) (hsame : ∀ u, u ∉ tables → M' u = M u)
include h hsame

theorem Apart.survey (hlen : d.length = n) :
    survey slot seen M' root d = survey slot seen M root d :=
  (agree_of_reached (fun c u hc hu => hsame u (h c u hc hu)) hlen.le).survey hlen

theorem Apart.reach (hlen : c.length ≤ n) : reach slot M' n root c = reach slot M n root c :=
  (agree_of_reached (fun c u hc hu => hsame u (h c u hc hu)) hlen).reach

theorem Apart.kept : Apart slot M' n root tables := by
  intro c t hc ht
  rw [h.reach hsame hc.le] at ht
  exact h c t hc ht

end Elsewhere

/-! ## A copy of a table -/

theorem survey_copy (h : M v = M u) (d : List ι) : survey slot seen M v d = survey slot seen M u d := by
  cases d with
  | nil => rfl
  | cons j d => simp only [survey, h]

theorem reach_copy {w : Nat} (h : M v = M u) (hw : reach slot M n v c = some w) :
    c = [] ∧ w = v ∨ c ≠ [] ∧ reach slot M n u c = some w := by
  cases c with
  | nil => exact .inl ⟨rfl, (Option.some.inj (reach_nil.symm.trans hw)).symm⟩
  | cons j d =>
    refine .inr ⟨List.cons_ne_nil _ _, ?_⟩
    cases n with
    | zero => cases hw
    | succ n =>
      simp only [reach, h] at hw ⊢
      exact hw

/-! ## A copy with one entry changed -/

/-- `v` is `u` with `v'` in the place of `u'`. -/
structure Repointed (slot : Nat → ε → Slot) (seen : ε → φ) (M : Tables ι ε) (n u v : Nat) (i : ι)
    (u' v' : Nat) : Prop where
  others : ∀ j, j ≠ i → M v j = M u j
  old : slot n (M u i) = .table u'
  new : slot n (M v i) = .table v'
  alike : seen (M v i) = seen (M u i)

namespace Repointed

variable {u' v' : Nat} (h : Repointed slot seen M n u v i u' v')
include h

theorem survey (hbehind : ∀ d : List ι, d.length = n →
    Tables.survey slot seen M v' d = Tables.survey slot seen M u' d) (hlen : d.length = n + 1) :
    Tables.survey slot seen M v d = Tables.survey slot seen M u d := by
  cases d with
  | nil => cases hlen
  | cons j d =>
    have hd : d.length = n := Nat.succ_inj.1 hlen
    simp only [Tables.survey]
    by_cases hj : j = i
    · rw [hj, hd, h.old, h.new, h.alike]
      dsimp only
      rw [hbehind d hd]
    · rw [h.others j hj]

/-- The walks through the changed entry go on in `v'`, the others as from `u`. -/
theorem reach_cases {w : Nat} (hw : reach slot M (n + 1) v c = some w) :
    c = [] ∧ w = v ∨ (∃ d, c = i :: d ∧ reach slot M n v' d = some w) ∨
      (∃ j d, c = j :: d ∧ j ≠ i) ∧ reach slot M (n + 1) u c = some w := by
  cases c with
  | nil => exact .inl ⟨rfl, (Option.some.inj (reach_nil.symm.trans hw)).symm⟩
  | cons j d =>
    simp only [reach] at hw ⊢
    by_cases hj : j = i
    · rw [hj, h.new] at hw
      exact .inr (.inl ⟨d, by rw [hj], hw⟩)
    · rw [h.others j hj] at hw
      exact .inr (.inr ⟨⟨j, d, rfl, hj⟩, hw⟩)

/-- The walk from the original through the same entry. -/
theorem reach_old (d : List ι) : reach slot M (n + 1) u (i :: d) = reach slot M n u' d :=
  reach_cons h.old d

end Repointed

end Tables

end MeuOS.Lib
