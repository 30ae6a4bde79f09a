import Mathlib.Data.List.Nodup

/-! Elements linked upwards, each to at most one other, in stacks that share none: putting one
stack on another and cutting one in two. -/
namespace MeuOS.Lib

variable {α : Type} {up up' : α → Option α}

/-- Every element of the list is linked to the next one, and the last to none. -/
def Leads (up : α → Option α) : List α → Prop
  | [] => False
  | [t] => up t = none
  | d :: u :: l => up d = some u ∧ Leads up (u :: l)

/-- A whole stack, the lowest element first: everything linked into it is in it. -/
structure Stack (up : α → Option α) (l : List α) : Prop where
  leads : Leads up l
  nodup : l.Nodup
  closed : ∀ d u, up d = some u → u ∈ l → d ∈ l

section Links

variable {a b l : List α} {d t u x : α}

theorem Leads.of_append (h : Leads up (a ++ d :: b)) : Leads up (d :: b) := by
  induction a with
  | nil => exact h
  | cons x a ih =>
    refine ih ?_
    cases a with
    | nil => exact h.2
    | cons y a => exact h.2

theorem Leads.link (h : Leads up (a ++ d :: u :: b)) : up d = some u := h.of_append.1

theorem Leads.top (h : Leads up (a ++ [t])) : up t = none := h.of_append

theorem Leads.congr (h : Leads up l) (hsame : ∀ d ∈ l, up' d = up d) : Leads up' l := by
  induction l with
  | nil => exact h
  | cons d l ih =>
    cases l with
    | nil => exact (hsame d List.mem_cons_self).trans h
    | cons u l =>
      exact ⟨(hsame d List.mem_cons_self).trans h.1, ih h.2 fun x hx => hsame x (List.mem_cons_of_mem _ hx)⟩

/-- Two lists joined by one link. -/
theorem Leads.join (ha : Leads up (a ++ [t])) (hb : Leads up' (u :: b)) (hlink : up' t = some u)
    (hsame : ∀ d ∈ a, up' d = up d) : Leads up' (a ++ t :: u :: b) := by
  induction a with
  | nil => exact ⟨hlink, hb⟩
  | cons d a ih =>
    have hd := hsame d List.mem_cons_self
    have hrest := fun x hx => hsame x (List.mem_cons_of_mem d hx)
    cases a with
    | nil => exact ⟨hd.trans ha.1, hlink, hb⟩
    | cons y a => exact ⟨hd.trans ha.1, ih ha.2 hrest⟩

/-- The lower part of a list whose link to the rest is gone. -/
theorem Leads.lower (h : Leads up (a ++ d :: b)) (hend : up' d = none)
    (hsame : ∀ x ∈ a, up' x = up x) : Leads up' (a ++ [d]) := by
  induction a with
  | nil => exact hend
  | cons x a ih =>
    have hx := hsame x List.mem_cons_self
    have hrest := fun y hy => hsame y (List.mem_cons_of_mem x hy)
    cases a with
    | nil => exact ⟨hx.trans h.1, hend⟩
    | cons y a => exact ⟨hx.trans h.1, ih h.2 hrest⟩

theorem Leads.eq_of_head (ha : Leads up (x :: a)) (hb : Leads up (x :: b)) : a = b := by
  induction a generalizing b x with
  | nil =>
    cases b with
    | nil => rfl
    | cons y b => exact absurd (hb.1.symm.trans ha) (Option.some_ne_none y)
  | cons y a ih =>
    cases b with
    | nil => exact absurd (ha.1.symm.trans hb) (Option.some_ne_none y)
    | cons z b =>
      obtain rfl := Option.some.inj (ha.1.symm.trans hb.1)
      rw [ih ha.2 hb.2]

/-- Links out of a list end above its first element. -/
theorem Leads.up_mem_tail (h : Leads up (x :: l)) (hd : d ∈ x :: l) (hu : up d = some u) : u ∈ l := by
  induction l generalizing x with
  | nil =>
    obtain rfl := List.mem_singleton.1 hd
    exact absurd (hu.symm.trans h) (Option.some_ne_none u)
  | cons y l ih =>
    rcases List.mem_cons.1 hd with rfl | hd
    · obtain rfl := Option.some.inj (hu.symm.trans h.1)
      exact List.mem_cons_self
    · exact List.mem_cons_of_mem _ (ih h.2 hd)

theorem Leads.eq_of_up (h : Leads up l) (hnodup : l.Nodup) (hd : d ∈ l) (hx : x ∈ l)
    (hud : up d = some u) (hux : up x = some u) : d = x := by
  induction l with
  | nil => exact absurd hd List.not_mem_nil
  | cons y l ih =>
    cases l with
    | nil => exact absurd (h.up_mem_tail hd hud) List.not_mem_nil
    | cons z l =>
      have hz := (List.nodup_cons.1 (List.nodup_cons.1 hnodup).2).1
      rcases List.mem_cons.1 hd with rfl | hdl
      · rcases List.mem_cons.1 hx with rfl | hxl
        · rfl
        · obtain rfl := Option.some.inj (hud.symm.trans h.1)
          exact absurd (h.2.up_mem_tail hxl hux) hz
      · rcases List.mem_cons.1 hx with rfl | hxl
        · obtain rfl := Option.some.inj (hux.symm.trans h.1)
          exact absurd (h.2.up_mem_tail hdl hud) hz
        · exact ih h.2 (List.nodup_cons.1 hnodup).2 hdl hxl

/-- Links out of the lower part end at the element above it at the highest. -/
theorem Leads.up_mem_lower (h : Leads up (a ++ d :: b)) (hx : x ∈ a) (hu : up x = some u) :
    u ∈ a ++ [d] := by
  induction a with
  | nil => exact absurd hx List.not_mem_nil
  | cons y a ih =>
    rcases List.mem_cons.1 hx with rfl | hx
    · cases a with
      | nil =>
        obtain rfl := Option.some.inj (hu.symm.trans h.1)
        exact List.mem_cons_of_mem _ List.mem_cons_self
      | cons z a =>
        obtain rfl := Option.some.inj (hu.symm.trans h.1)
        exact List.mem_cons_of_mem _ List.mem_cons_self
    · refine List.mem_cons_of_mem _ (ih ?_ hx)
      cases a with
      | nil => exact absurd hx List.not_mem_nil
      | cons z a => exact h.2

/-- What is under an element of a stack is in that stack. -/
theorem Leads.lower_mem (h : Leads up (a ++ x :: b)) (hclosed : ∀ d u, up d = some u → u ∈ l → d ∈ l)
    (hx : x ∈ l) : ∀ d ∈ a, d ∈ l := by
  induction a with
  | nil => exact fun d hd => absurd hd List.not_mem_nil
  | cons y a ih =>
    intro d hd
    cases a with
    | nil =>
      obtain rfl := List.mem_singleton.1 hd
      exact hclosed d x h.1 hx
    | cons z a =>
      have hrest := ih h.2
      rcases List.mem_cons.1 hd with rfl | hd
      · exact hclosed d z h.1 (hrest z List.mem_cons_self)
      · exact hrest d hd

end Links

namespace Stack

variable {a b l l' : List α} {d s t u x : α}

/-- Stacks that share an element are the same. -/
theorem subset (h : Stack up l) (h' : Stack up l') (hx : x ∈ l) (hx' : x ∈ l') : ∀ y ∈ l, y ∈ l' := by
  obtain ⟨a, b, rfl⟩ := List.append_of_mem hx
  obtain ⟨a', b', rfl⟩ := List.append_of_mem hx'
  obtain rfl := h.leads.of_append.eq_of_head h'.leads.of_append
  intro y hy
  rcases List.mem_append.1 hy with hy | hy
  · exact h.leads.lower_mem h'.closed hx' y hy
  · exact List.mem_append_right _ hy

/-- Links into a stack come from one element each. -/
theorem lower_unique (h : Stack up l) (hu : u ∈ l) (hd : up d = some u) (hx : up x = some u) : d = x :=
  h.leads.eq_of_up h.nodup (h.closed d u hd hu) (h.closed x u hx hu) hd hx

/-- An element nothing is linked to is the lowest of its stack. -/
theorem of_bottom (h : Stack up l) (hs : s ∈ l) (hdown : ∀ d, up d ≠ some s) : ∃ b, l = s :: b := by
  obtain ⟨a, b, rfl⟩ := List.append_of_mem hs
  rcases List.eq_nil_or_concat a with rfl | ⟨a, d, rfl⟩
  · exact ⟨b, rfl⟩
  · rw [List.concat_eq_append, List.append_assoc] at h
    exact absurd h.leads.link (hdown d)

theorem bottom (h : Stack up (s :: b)) (d : α) : up d ≠ some s := fun hd =>
  (List.nodup_cons.1 h.nodup).1 (h.leads.up_mem_tail (h.closed d s hd List.mem_cons_self) hd)

theorem of_top (h : Stack up l) (ht : t ∈ l) (hup : up t = none) : ∃ a, l = a ++ [t] := by
  obtain ⟨a, b, rfl⟩ := List.append_of_mem ht
  cases b with
  | nil => exact ⟨a, rfl⟩
  | cons u b => exact absurd (h.leads.link.symm.trans hup) (Option.some_ne_none u)

section Move

variable [DecidableEq α]

/-- A stack that a new link does not touch. -/
theorem untouched (h : Stack up l) (ht : t ∉ l) {v : Option α} (hv : ∀ u ∈ v, u ∉ l) :
    Stack (Function.update up t v) l := by
  refine ⟨h.leads.congr fun d hd => Function.update_of_ne (ne_of_mem_of_not_mem hd ht) .., h.nodup, ?_⟩
  intro d u hd hu
  by_cases hdt : d = t
  · rw [hdt, Function.update_self] at hd
    exact absurd hu (hv u hd)
  · rw [Function.update_of_ne hdt] at hd
    exact h.closed d u hd hu

/-- A stack with lowest element `s` put on another one. -/
theorem attach (ht : Stack up (a ++ [t])) (hs : Stack up (s :: b)) (hapart : ∀ d ∈ a ++ [t], d ∉ s :: b) :
    Stack (Function.update up t (some s)) (a ++ t :: s :: b) := by
  have hta : t ∉ a := fun hmem =>
    (List.nodup_append.1 ht.nodup).2.2 t hmem t List.mem_cons_self rfl
  have htb : t ∉ s :: b := hapart t (List.mem_append_right _ List.mem_cons_self)
  have hmem : ∀ d, d ∈ a ++ t :: s :: b ↔ d ∈ a ++ [t] ∨ d ∈ s :: b := fun d => by
    rw [← List.mem_append, List.append_assoc]
    rfl
  refine ⟨ht.leads.join (hs.leads.congr fun d hd => ?_) (Function.update_self ..) fun d hd => ?_, ?_, ?_⟩
  · exact Function.update_of_ne (ne_of_mem_of_not_mem hd htb) ..
  · exact Function.update_of_ne (ne_of_mem_of_not_mem hd hta) ..
  · rw [show a ++ t :: s :: b = (a ++ [t]) ++ (s :: b) by rw [List.append_assoc]; rfl,
      List.nodup_append]
    exact ⟨ht.nodup, hs.nodup, fun d hd d' hd' heq => hapart d hd (heq ▸ hd')⟩
  · intro d u hd hu
    rw [hmem] at hu ⊢
    by_cases hdt : d = t
    · exact .inl (hdt ▸ List.mem_append_right _ List.mem_cons_self)
    · rw [Function.update_of_ne hdt] at hd
      exact hu.imp (ht.closed d u hd) (hs.closed d u hd)

/-- A stack cut above `d`. -/
theorem cut (h : Stack up (a ++ d :: u :: b)) :
    Stack (Function.update up d none) (a ++ [d]) ∧ Stack (Function.update up d none) (u :: b) := by
  obtain ⟨hnodup₁, hnodup₂, hapart⟩ := List.nodup_append.1 h.nodup
  have hda : ∀ x ∈ a, x ≠ d := fun x hx => hapart x hx d List.mem_cons_self
  have hdb : ∀ x ∈ u :: b, x ≠ d := fun x hx heq => (List.nodup_cons.1 hnodup₂).1 (heq ▸ hx)
  have hsplit : ∀ x ∈ a ++ d :: u :: b, x ∈ a ∨ x = d ∨ x ∈ u :: b := fun x hx =>
    (List.mem_append.1 hx).imp_right List.mem_cons.1
  have hlow : ∀ x ∈ a ++ [d], x ∉ u :: b := by
    intro x hx hxb
    rcases List.mem_append.1 hx with hx | hx
    · exact hapart x hx x (List.mem_cons_of_mem _ hxb) rfl
    · exact hdb x hxb (List.mem_singleton.1 hx)
  refine ⟨⟨h.leads.lower (Function.update_self ..) fun x hx => Function.update_of_ne (hda x hx) .., ?_, ?_⟩,
    ⟨h.leads.of_append.2.congr fun x hx => Function.update_of_ne (hdb x hx) ..,
      (List.nodup_cons.1 hnodup₂).2, ?_⟩⟩
  · refine List.nodup_append.2 ⟨hnodup₁, List.nodup_singleton d, fun x hx y hy => ?_⟩
    rw [List.mem_singleton.1 hy]
    exact hda x hx
  · intro x y hxy hy
    have hxd : x ≠ d := fun heq => by simp [heq] at hxy
    rw [Function.update_of_ne hxd] at hxy
    have hy' : y ∈ a ++ d :: u :: b := by
      rw [show a ++ d :: u :: b = (a ++ [d]) ++ (u :: b) by rw [List.append_assoc]; rfl]
      exact List.mem_append_left _ hy
    rcases hsplit x (h.closed x y hxy hy') with hx | hx | hx
    · exact List.mem_append_left _ hx
    · exact absurd hx hxd
    · exact absurd (List.mem_cons_of_mem _ (h.leads.of_append.2.up_mem_tail hx hxy)) (hlow y hy)
  · intro x y hxy hy
    have hxd : x ≠ d := fun heq => by simp [heq] at hxy
    rw [Function.update_of_ne hxd] at hxy
    rcases hsplit x (h.closed x y hxy (List.mem_append_right _ (List.mem_cons_of_mem _ hy))) with hx | hx | hx
    · exact absurd hy (hlow y (h.leads.up_mem_lower hx hxy))
    · exact absurd hx hxd
    · exact hx

end Move

end Stack

/-! ## All elements in stacks -/

def Stacked (up : α → Option α) : Prop := ∀ d, ∃ l, Stack up l ∧ d ∈ l

def SameStack (up : α → Option α) (d t : α) : Prop := ∃ l, Stack up l ∧ d ∈ l ∧ t ∈ l

namespace Stacked

variable {d s t u x : α}

theorem lower_unique (h : Stacked up) (hd : up d = some u) (hx : up x = some u) : d = x := by
  obtain ⟨l, hl, hu⟩ := h u
  exact hl.lower_unique hu hd hx

variable [DecidableEq α]

/-- A whole stack goes on top of another one. -/
theorem attach (h : Stacked up) (ht : up t = none) (hs : ∀ d, up d ≠ some s)
    (hother : ¬ SameStack up s t) : Stacked (Function.update up t (some s)) := by
  obtain ⟨lt, hlt, htl⟩ := h t
  obtain ⟨ls, hls, hsl⟩ := h s
  have hapart : ∀ d ∈ lt, d ∉ ls := fun d hd hd' =>
    hother ⟨ls, hls, hsl, hlt.subset hls hd hd' t htl⟩
  obtain ⟨a, rfl⟩ := hlt.of_top htl ht
  obtain ⟨b, rfl⟩ := hls.of_bottom hsl hs
  have hjoined := hlt.attach hls hapart
  intro x
  by_cases hx : x ∈ a ++ t :: s :: b
  · exact ⟨_, hjoined, hx⟩
  · obtain ⟨lx, hlx, hxl⟩ := h x
    have hout : ∀ y ∈ lx, y ∉ a ++ [t] ∧ y ∉ s :: b := by
      refine fun y hy => ⟨fun hmem => hx ?_, fun hmem => hx ?_⟩
      · rw [show a ++ t :: s :: b = (a ++ [t]) ++ (s :: b) by rw [List.append_assoc]; rfl]
        exact List.mem_append_left _ (hlx.subset hlt hy hmem x hxl)
      · exact List.mem_append_right _ (List.mem_cons_of_mem _ (hlx.subset hls hy hmem x hxl))
    refine ⟨lx, hlx.untouched (fun hmem => (hout t hmem).1 (List.mem_append_right _ List.mem_cons_self)) ?_, hxl⟩
    intro u hu hmem
    obtain rfl := Option.some.inj hu
    exact (hout _ hmem).2 List.mem_cons_self

theorem cut (h : Stacked up) (d : α) : Stacked (Function.update up d none) := by
  intro x
  obtain ⟨l, hl, hd⟩ := h d
  obtain ⟨lx, hlx, hxl⟩ := h x
  by_cases hdx : d ∈ lx
  · obtain ⟨a, b, rfl⟩ := List.append_of_mem hdx
    cases b with
    | nil =>
      have hsame : Function.update up d none = up := by
        rw [← hlx.leads.top]
        exact Function.update_eq_self ..
      rw [hsame]
      exact ⟨_, hlx, hxl⟩
    | cons u b =>
      obtain ⟨hlow, hhigh⟩ := hlx.cut
      rw [show a ++ d :: u :: b = (a ++ [d]) ++ (u :: b) by rw [List.append_assoc]; rfl] at hxl
      exact (List.mem_append.1 hxl).elim (fun hmem => ⟨_, hlow, hmem⟩) fun hmem => ⟨_, hhigh, hmem⟩
  · exact ⟨lx, hlx.untouched hdx fun _ hu => absurd hu (Option.not_mem_none _), hxl⟩

end Stacked

/-- An element without links is a stack of its own. -/
theorem stack_singleton {t : α} (hup : up t = none) (hdown : ∀ d, up d ≠ some t) : Stack up [t] :=
  ⟨hup, List.nodup_singleton t, fun d u hd hu => absurd (List.mem_singleton.1 hu ▸ hd) (hdown d)⟩

/-- It shares that stack with nothing. -/
theorem not_sameStack {d t : α} (hup : up t = none) (hdown : ∀ d, up d ≠ some t) (hne : d ≠ t) :
    ¬ SameStack up d t := by
  rintro ⟨l, hl, hd, ht⟩
  exact hne (List.mem_singleton.1 (hl.subset (stack_singleton hup hdown) ht List.mem_cons_self d hd))

end MeuOS.Lib
