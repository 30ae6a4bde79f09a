import MeuOS.Lib.Clone

/-! The entries a walk goes through on its way. A table hung under an empty entry lengthens the
trails through that entry by one and leaves the others, and what is seen along every path, as
they were. -/
namespace MeuOS.Lib

namespace Tables

variable {ι ε φ : Type}

/-- The entries along a path that name the next table, with room for `n` indices. -/
def trail (slot : Nat → ε → Slot) (M : Tables ι ε) : Nat → Nat → List ι → List ε
  | n + 1, t, i :: rest =>
      match slot n (M t i) with
      | .table u => M t i :: trail slot M n u rest
      | _ => []
  | _, _, _ => []

variable {slot : Nat → ε → Slot} {seen : ε → φ} {M M' : Tables ι ε} {n t u root : Nat} {i : ι}
  {c d : List ι}

theorem trail_append (hc : reach slot M n t c = some u) (d : List ι) :
    trail slot M n t (c ++ d) = trail slot M n t c ++ trail slot M (n - c.length) u d := by
  induction c generalizing n t with
  | nil =>
    rw [reach_nil] at hc
    cases hc
    cases n <;> rfl
  | cons i c ih =>
    cases n with
    | zero => cases hc
    | succ n =>
      simp only [reach] at hc
      simp only [List.cons_append, trail, List.length_cons, Nat.add_sub_add_right]
      cases hslot : slot n (M t i) with
      | empty =>
        rw [hslot] at hc
        cases hc
      | leaf =>
        rw [hslot] at hc
        cases hc
      | table v =>
        rw [hslot] at hc
        dsimp only
        rw [ih hc, List.cons_append]

theorem length_trail (hc : reach slot M n t c = some u) : (trail slot M n t c).length = c.length := by
  induction c generalizing n t with
  | nil => cases n <;> rfl
  | cons i c ih =>
    cases n with
    | zero => cases hc
    | succ n =>
      simp only [reach] at hc
      simp only [trail]
      cases hslot : slot n (M t i) with
      | empty =>
        rw [hslot] at hc
        cases hc
      | leaf =>
        rw [hslot] at hc
        cases hc
      | table v =>
        rw [hslot] at hc
        dsimp only
        rw [List.length_cons, ih hc, List.length_cons]

/-- Walks go where the slots lead. -/
theorem reach_congr (h : ∀ k u j, slot k (M' u j) = slot k (M u j)) (n t : Nat) (c : List ι) :
    reach slot M' n t c = reach slot M n t c := by
  induction c generalizing n t with
  | nil => rw [reach_nil, reach_nil]
  | cons i c ih =>
    cases n with
    | zero => rfl
    | succ n =>
      simp only [reach, h]
      cases slot n (M t i) with
      | empty => rfl
      | leaf => rfl
      | table u => exact ih n u

/-- A trail stops at an entry that names no table. -/
theorem trail_stop (h : ∀ v, slot n (M u i) ≠ .table v) (d : List ι) :
    trail slot M (n + 1) u (i :: d) = [] := by
  unfold trail
  cases hslot : slot n (M u i) with
  | empty => rfl
  | leaf => rfl
  | table v => exact absurd hslot (h v)

theorem Agree.trail (h : Agree slot M M' n t d) : trail slot M' n t d = trail slot M n t d := by
  induction d generalizing n t with
  | nil => cases n <;> rfl
  | cons i d ih =>
    cases n with
    | zero => rfl
    | succ n =>
      have hhead : M' t i = M t i := h [] i d t rfl reach_nil
      simp only [Tables.trail, hhead]
      cases hslot : slot n (M t i) with
      | empty => rfl
      | leaf => rfl
      | table u =>
        dsimp only
        rw [ih (h.tail hslot)]

/-- What is seen above the entry that ends a walk is its trail. -/
theorem survey_append (hc : reach slot M n t c = some u) (hlen : n = c.length + d.length) :
    survey slot seen M t (c ++ d) =
      (survey slot seen M u d).map fun r => ((trail slot M n t c).map seen ++ r.1, r.2) := by
  induction c generalizing n t with
  | nil =>
    rw [reach_nil] at hc
    cases hc
    cases n <;> exact Option.map_id'.symm
  | cons i c ih =>
    subst hlen
    rw [List.length_cons, Nat.add_right_comm] at hc ⊢
    simp only [reach] at hc
    simp only [List.cons_append, survey, List.length_append, trail]
    cases hslot : slot (c.length + d.length) (M t i) with
    | empty =>
      rw [hslot] at hc
      cases hc
    | leaf =>
      rw [hslot] at hc
      cases hc
    | table v =>
      rw [hslot] at hc
      dsimp only
      rw [ih hc rfl, Option.map_map]
      rfl

/-- What is seen along a path in two sets of tables whose entries lead alike. -/
theorem survey_related {R : ε → ε → Prop} (hslot : ∀ k u j, slot k (M' u j) = slot k (M u j))
    (hR : ∀ c j rest u, d = c ++ j :: rest → reach slot M n t c = some u → R (M u j) (M' u j))
    (hlen : d.length = n) :
    (survey slot seen M t d = none ∧ survey slot seen M' t d = none) ∨
    ∃ above above' e e' left, survey slot seen M t d = some (above, e, left) ∧
      survey slot seen M' t d = some (above', e', left) ∧ R e e' ∧
      List.Forall₂ (fun x y => ∃ u v, R u v ∧ x = seen u ∧ y = seen v) above above' := by
  induction d generalizing n t with
  | nil => exact .inl ⟨rfl, rfl⟩
  | cons i d ih =>
    subst hlen
    have hhead : R (M t i) (M' t i) := hR [] i d t rfl reach_nil
    simp only [survey, hslot]
    cases htarget : slot d.length (M t i) with
    | empty => exact .inl ⟨rfl, rfl⟩
    | leaf => exact .inr ⟨[], [], _, _, _, rfl, rfl, hhead, .nil⟩
    | table u =>
      dsimp only
      rcases ih (n := d.length) (t := u) (fun c j rest v hpath hc => hR (i :: c) j rest v
          (congrArg (i :: ·) hpath) ((reach_cons htarget c).trans hc)) rfl with
        ⟨hnone, hnone'⟩ | ⟨above, above', e, e', left, hsome, hsome', hend, habove⟩
      · rw [hnone, hnone']
        exact .inl ⟨rfl, rfl⟩
      · rw [hsome, hsome']
        exact .inr ⟨_, _, _, _, _, rfl, rfl, hend, .cons ⟨_, _, hhead, rfl, rfl⟩ habove⟩

theorem survey_of_lookup_none (h : lookup slot M t d = none) : survey slot seen M t d = none := by
  have hmap : (survey slot seen M t d).map Prod.snd = none := (survey_lookup M t d).trans h
  exact Option.map_eq_none_iff.1 hmap

/-! ## Entries of the last tables -/

section Last

variable [DecidableEq ι] (h : Tree slot M n root) (hc : reach slot M n root c = some u)
  (hlast : c.length + 1 = n) (e : ε)
include h hc hlast

theorem Tree.survey_writeLast_of_ne (hd : d.length = n) (hne : d ≠ c ++ [i]) :
    survey slot seen (write M u i e) root d = survey slot seen M root d :=
  (h.agree_writeLast hc hlast e hd hne).survey hd

theorem Tree.survey_writeLast_self :
    survey slot seen (write M u i e) root (c ++ [i]) =
      match slot 0 e with
      | .leaf => some ((trail slot M n root c).map seen, e, 0)
      | _ => none := by
  have hshort : ¬c ++ [i] <+: c := by
    intro hpre
    have := hpre.length_le
    rw [List.length_append, List.length_singleton] at this
    omega
  have hreach : reach slot (write M u i e) n root c = some u := by
    rw [h.reach_writeLast hc hlast e (by omega), hc]
  have htrail : trail slot (write M u i e) n root c = trail slot M n root c :=
    (h.agree_write hc (by omega) e hshort (by omega)).trail
  rw [survey_append hreach (show n = c.length + [i].length from hlast.symm), htrail]
  simp only [survey, List.length_nil, write_self]
  cases slot 0 e with
  | empty => rfl
  | leaf => exact congrArg (fun l => some (l, e, 0)) (List.append_nil _)
  | table v => rfl

end Last

/-! ## A new table under an empty entry -/

namespace Grows

variable {f : Nat} {z e : ε} (g : Grows slot M n root c u i f z e)
include g

theorem lookup_through (hd : d.length = n) (hon : c ++ [i] <+: d) : lookup slot M root d = none := by
  have hinner := g.inner
  obtain ⟨rest, rfl⟩ := hon
  rw [List.length_append, List.length_append, List.length_singleton] at hd
  have hlevel : rest.length = n - c.length - 1 := by omega
  rw [List.append_assoc,
    lookup_append g.parent (by rw [List.length_append, List.length_singleton]; omega)]
  simp only [List.singleton_append, lookup, hlevel, g.absent]

variable [DecidableEq ι]

theorem survey_grown (hd : d.length = n) :
    survey slot seen (write (clear M f z) u i e) root d = survey slot seen M root d := by
  by_cases hon : c ++ [i] <+: d
  · have hnone := g.lookup_through hd hon
    rw [survey_of_lookup_none hnone, survey_of_lookup_none ((g.lookup_grown hd).trans hnone)]
  · exact ((g.agree hon hd.le).survey hd).trans ((agree_clear z g.fresh hd.le).survey hd)

/-- No table is lost. -/
theorem reach_mono {v : Nat} (hd : d.length < n) (hv : reach slot M n root d = some v) :
    reach slot (write (clear M f z) u i e) n root d = some v := by
  by_cases hon : c ++ [i] <+: d
  · exfalso
    have hinner := g.inner
    obtain ⟨rest, rfl⟩ := hon
    rw [reach_append, reach_snoc g.parent (by omega), g.absent] at hv
    cases hv
  · rw [g.reach_off hon hd.le, hv]

theorem trail_off (hoff : ¬c ++ [i] <+: d) (hd : d.length ≤ n) :
    trail slot (write (clear M f z) u i e) n root d = trail slot M n root d :=
  (g.agree hoff hd).trail.trans (agree_clear z g.fresh hd).trail

theorem trail_grown (d : List ι) :
    trail slot (write (clear M f z) u i e) n root (c ++ i :: d) =
      trail slot M n root (c ++ i :: d) ++ [e] := by
  have hinner := g.inner
  obtain ⟨k, hk⟩ : ∃ k, n - c.length = k + 1 := ⟨n - c.length - 1, by omega⟩
  have habsent := g.absent
  have hnames := g.names
  have hshort : ¬c ++ [i] <+: c := by
    intro hpre
    have := hpre.length_le
    rw [List.length_append, List.length_singleton] at this
    omega
  rw [trail_append g.reach_parent, trail_append g.parent, hk, g.trail_off hshort (by omega)]
  rw [hk, Nat.add_sub_cancel] at habsent hnames
  have hold : trail slot M (k + 1) u (i :: d) = [] :=
    trail_stop (fun v hv => by rw [habsent] at hv; cases hv) d
  have hnew : trail slot (write (clear M f z) u i e) k f d = [] := by
    cases k with
    | zero => rfl
    | succ k =>
      cases d with
      | nil => rfl
      | cons j d => exact trail_stop (fun v hv => by rw [g.new_empty, g.zero] at hv; cases hv) d
  rw [hold, List.append_nil]
  simp only [trail, write_self, hnames, hnew]

end Grows

end Tables

end MeuOS.Lib
