import Mathlib.Data.List.Nodup

/-! Circular doubly linked lists with a sentinel, at the level of their links. A null
link is `none`, and following it is a fault. -/
namespace MeuOS.Lib

structure Links (ν : Type) where
  next : ν → Option ν
  prev : ν → Option ν

namespace Links

variable {ν : Type} [DecidableEq ν]

def setNext (L : Links ν) (a : ν) (b : Option ν) : Links ν :=
  { L with next := Function.update L.next a b }

def setPrev (L : Links ν) (a : ν) (b : Option ν) : Links ν :=
  { L with prev := Function.update L.prev a b }

/-- A sentinel that points to itself. -/
def initHead (L : Links ν) (head : ν) : Links ν :=
  (L.setNext head (some head)).setPrev head (some head)

def insertTail (L : Links ν) (head entry : ν) : Option (Links ν) :=
  let L := (L.setPrev entry (L.prev head)).setNext entry (some head)
  (L.prev head).map fun last => (L.setNext last (some entry)).setPrev head (some entry)

/-- Take an entry out of whatever list it is in. -/
def unlink (L : Links ν) (e : ν) : Option (Links ν) :=
  (L.prev e).bind fun p =>
    let L := L.setNext p (L.next e)
    (L.next e).map fun n =>
      let L := L.setPrev n (L.prev e)
      (L.setNext e none).setPrev e none

/-- Join what is on both sides of an entry, whose own links stay. -/
def detach (L : Links ν) (e : ν) : Option (Links ν) :=
  (L.prev e).bind fun p =>
    let L := L.setNext p (L.next e)
    (L.next e).map fun n => L.setPrev n (L.prev e)

/-- The first entry, if there is one, and the list without it. -/
def popHead (L : Links ν) (head : ν) : Option (Option ν × Links ν) :=
  (L.next head).bind fun e =>
    if e = head then some (none, L) else (L.unlink e).map fun L => (some e, L)

/-! ## Segments -/

/-- The links lead from `a` through `l` to `b` and back. -/
def Seg (L : Links ν) : ν → List ν → ν → Prop
  | a, [], b => L.next a = some b ∧ L.prev b = some a
  | a, x :: l, b => L.next a = some x ∧ L.prev x = some a ∧ Seg L x l b

variable {L L' : Links ν} {a b c p e head : ν} {l l₁ l₂ : List ν}

omit [DecidableEq ν] in
theorem seg_append : L.Seg a (l₁ ++ e :: l₂) b ↔ L.Seg a l₁ e ∧ L.Seg e l₂ b := by
  induction l₁ generalizing a with
  | nil => simp only [List.nil_append, Seg, and_assoc]
  | cons x l₁ ih => simp only [List.cons_append, Seg, ih, and_assoc]

omit [DecidableEq ν] in
theorem Seg.congr (h : L.Seg a l b) (hnext : ∀ x ∈ a :: l, L'.next x = L.next x)
    (hprev : ∀ x ∈ b :: l, L'.prev x = L.prev x) : L'.Seg a l b := by
  induction l generalizing a with
  | nil =>
    exact ⟨(hnext a (by simp)).trans h.1, (hprev b (by simp)).trans h.2⟩
  | cons x l ih =>
    refine ⟨(hnext a (by simp)).trans h.1, (hprev x (by simp)).trans h.2.1, ih h.2.2 ?_ ?_⟩
    · intro y hy
      exact hnext y (List.mem_cons_of_mem a hy)
    · intro y hy
      apply hprev
      simp only [List.mem_cons] at hy ⊢
      tauto

omit [DecidableEq ν] in
/-- What precedes the end of a segment is its last node. -/
theorem Seg.prev_mem (h : L.Seg a l b) : ∃ p ∈ a :: l, L.prev b = some p := by
  induction l generalizing a with
  | nil => exact ⟨a, by simp, h.2⟩
  | cons x l ih =>
    obtain ⟨p, hp, hprev⟩ := ih h.2.2
    exact ⟨p, List.mem_cons_of_mem a hp, hprev⟩

omit [DecidableEq ν] in
/-- The last node of a segment made to lead to `c` instead. -/
theorem Seg.retarget (h : L.Seg a l b) (hnodup : (a :: l).Nodup) (hlast : L.prev b = some p)
    (hnext : ∀ x ∈ a :: l, x ≠ p → L'.next x = L.next x) (hprev : ∀ x ∈ l, L'.prev x = L.prev x)
    (hp : L'.next p = some c) (hc : L'.prev c = some p) : L'.Seg a l c := by
  induction l generalizing a with
  | nil =>
    obtain rfl : a = p := Option.some.inj (h.2.symm.trans hlast)
    exact ⟨hp, hc⟩
  | cons x l ih =>
    obtain ⟨p', hmem, hlast'⟩ := h.2.2.prev_mem
    obtain rfl : p' = p := Option.some.inj (hlast'.symm.trans hlast)
    have hne : a ≠ p' := by
      rintro rfl
      exact (List.nodup_cons.1 hnodup).1 hmem
    refine ⟨(hnext a (by simp) hne).trans h.1, (hprev x (by simp)).trans h.2.1,
      ih h.2.2 (List.nodup_cons.1 hnodup).2 ?_ ?_⟩
    · intro y hy
      exact hnext y (List.mem_cons_of_mem a hy)
    · intro y hy
      exact hprev y (List.mem_cons_of_mem x hy)

omit [DecidableEq ν] in
theorem Seg.unique (h : L.Seg a l₁ b) (h' : L.Seg a l₂ b) (hb : b ∉ l₁) (hb' : b ∉ l₂) :
    l₁ = l₂ := by
  induction l₁ generalizing a l₂ with
  | nil =>
    cases l₂ with
    | nil => rfl
    | cons y l₂ =>
      obtain rfl : b = y := Option.some.inj (h.1.symm.trans h'.1)
      exact absurd List.mem_cons_self hb'
  | cons x l₁ ih =>
    cases l₂ with
    | nil =>
      obtain rfl : x = b := Option.some.inj (h.1.symm.trans h'.1)
      exact absurd List.mem_cons_self hb
    | cons y l₂ =>
      obtain rfl : x = y := Option.some.inj (h.1.symm.trans h'.1)
      rw [ih h.2.2 h'.2.2 (fun hm => hb (List.mem_cons_of_mem x hm))
        fun hm => hb' (List.mem_cons_of_mem x hm)]

/-! ## Rings -/

/-- `head` is the sentinel of a well-formed circular list of the entries `l`. -/
structure Ring (L : Links ν) (head : ν) (l : List ν) : Prop where
  nodup : (head :: l).Nodup
  seg : L.Seg head l head

omit [DecidableEq ν] in
theorem Ring.congr (h : L.Ring head l) (hnext : ∀ x ∈ head :: l, L'.next x = L.next x)
    (hprev : ∀ x ∈ head :: l, L'.prev x = L.prev x) : L'.Ring head l :=
  ⟨h.nodup, h.seg.congr hnext hprev⟩

omit [DecidableEq ν] in
theorem Ring.unique (h : L.Ring head l₁) (h' : L.Ring head l₂) : l₁ = l₂ :=
  h.seg.unique h'.seg (List.nodup_cons.1 h.nodup).1 (List.nodup_cons.1 h'.nodup).1

theorem ring_initHead (L : Links ν) (head : ν) : (L.initHead head).Ring head [] := by
  refine ⟨List.nodup_singleton head, ?_, ?_⟩
  · simp [initHead, setNext, setPrev]
  · simp [initHead, setNext, setPrev]

theorem initHead_outside (L : Links ν) {head x : ν} (h : x ≠ head) :
    (L.initHead head).next x = L.next x ∧ (L.initHead head).prev x = L.prev x := by
  simp [initHead, setNext, setPrev, Function.update_of_ne h]

theorem Ring.insertTail (h : L.Ring head l) (hentry : e ∉ head :: l) :
    ∃ L', L.insertTail head e = some L' ∧ L'.Ring head (l ++ [e]) ∧
      ∀ x, x ∉ head :: l → x ≠ e → L'.next x = L.next x ∧ L'.prev x = L.prev x := by
  obtain ⟨last, hmem, hlast⟩ := h.seg.prev_mem
  have hhead : head ≠ e := fun heq => hentry (heq ▸ List.mem_cons_self)
  have hlaste : last ≠ e := fun heq => hentry (heq ▸ hmem)
  have hnotin : head ∉ l := (List.nodup_cons.1 h.nodup).1
  have hrun : L.insertTail head e = some
      ⟨Function.update (Function.update L.next e (some head)) last (some e),
        Function.update (Function.update L.prev e (some last)) head (some e)⟩ := by
    simp only [Links.insertTail, setNext, setPrev, Function.update_of_ne hhead, hlast,
      Option.map_some]
  refine ⟨_, hrun, ⟨?_, seg_append.2 ⟨?_, ?_, ?_⟩⟩, ?_⟩
  · rw [← List.cons_append, List.nodup_append]
    exact ⟨h.nodup, List.nodup_singleton e, fun x hx y hy => by
      rw [List.mem_singleton.1 hy]
      exact fun heq => hentry (heq ▸ hx)⟩
  · apply h.seg.retarget h.nodup hlast
    · intro x hx hne
      have hxe : x ≠ e := fun heq => hentry (heq ▸ hx)
      simp [hne, hxe]
    · intro x hx
      have hxe : x ≠ e := fun heq => hentry (heq ▸ List.mem_cons_of_mem _ hx)
      have hxh : x ≠ head := fun heq => hnotin (heq ▸ hx)
      simp [hxe, hxh]
    · simp
    · simp [hhead.symm]
  · simp [hlaste.symm]
  · simp
  · intro x hx hxe
    have hxh : x ≠ head := fun heq => hx (heq ▸ List.mem_cons_self)
    have hxl : x ≠ last := fun heq => hx (heq ▸ hmem)
    simp [hxe, hxh, hxl]

theorem Ring.unlink (h : L.Ring head (l₁ ++ e :: l₂)) :
    ∃ L', L.unlink e = some L' ∧ L'.Ring head (l₁ ++ l₂) ∧
      ∀ x, x ∉ head :: (l₁ ++ e :: l₂) → L'.next x = L.next x ∧ L'.prev x = L.prev x := by
  obtain ⟨hbefore, hafter⟩ := seg_append.1 h.seg
  obtain ⟨p, hp, hprev⟩ := hbefore.prev_mem
  have hnodup : (head :: (l₁ ++ l₂)).Nodup :=
    h.nodup.sublist (((List.sublist_cons_self e l₂).append_left l₁).cons_cons head)
  have hmid : (head :: l₁ ++ e :: l₂).Nodup := h.nodup
  rw [List.nodup_append] at hmid
  obtain ⟨hfirst, hrest, hdisj⟩ := hmid
  have hne : ∀ x ∈ head :: l₁, x ≠ e := fun x hx => hdisj x hx e List.mem_cons_self
  have he : e ∉ l₂ := (List.nodup_cons.1 hrest).1
  have hpe : p ≠ e := hne p hp
  have hrun : ∀ n, L.next e = some n → L.unlink e = some
      ⟨Function.update (Function.update L.next p (some n)) e none,
        Function.update (Function.update L.prev n (some p)) e none⟩ := by
    intro n hnext
    simp only [Links.unlink, hprev, Option.bind_some, setNext, setPrev,
      Function.update_of_ne hpe.symm, hnext, Option.map_some]
  cases l₂ with
  | nil =>
    refine ⟨_, hrun head hafter.1, ⟨hnodup, ?_⟩, ?_⟩
    · rw [List.append_nil]
      apply hbefore.retarget hfirst hprev
      · intro x hx hxp
        simp [hne x hx, hxp]
      · intro x hx
        have hxh : x ≠ head := fun heq => (List.nodup_cons.1 hfirst).1 (heq ▸ hx)
        simp [hne x (List.mem_cons_of_mem _ hx), hxh]
      · simp [hpe]
      · simp [hne head List.mem_cons_self]
    · intro x hx
      simp only [List.mem_cons, List.mem_append, not_or] at hx
      have hxp : x ≠ p := by
        rintro rfl
        simp only [List.mem_cons] at hp
        tauto
      simp [hx.1, hx.2.2.1, hxp]
  | cons n l₂ =>
    obtain ⟨hnext, -, hseg⟩ := hafter
    have hen : e ≠ n := fun heq => he (heq ▸ List.mem_cons_self)
    have hout : ∀ x ∈ head :: l₁, x ≠ n := fun x hx =>
      hdisj x hx n (List.mem_cons_of_mem _ List.mem_cons_self)
    have hpn : p ≠ n := hout p hp
    refine ⟨_, hrun n hnext, ⟨hnodup, seg_append.2 ⟨?_, ?_⟩⟩, ?_⟩
    · apply hbefore.retarget hfirst hprev
      · intro x hx hxp
        simp [hne x hx, hxp]
      · intro x hx
        simp [hne x (List.mem_cons_of_mem _ hx), hout x (List.mem_cons_of_mem _ hx)]
      · simp [hpe]
      · simp [hen.symm]
    · apply hseg.congr
      · intro x hx
        have hxe : x ≠ e := fun heq => he (heq ▸ hx)
        have hxp : x ≠ p := fun heq => hdisj p hp x (List.mem_cons_of_mem _ hx) heq.symm
        simp [hxe, hxp]
      · intro x hx
        have hnl : n ∉ l₂ := (List.nodup_cons.1 (List.nodup_cons.1 hrest).2).1
        rcases List.mem_cons.1 hx with rfl | hmem
        · simp [hne x List.mem_cons_self, hout x List.mem_cons_self]
        · have hxe : x ≠ e := fun heq => he (heq ▸ List.mem_cons_of_mem _ hmem)
          have hxn : x ≠ n := fun heq => hnl (heq ▸ hmem)
          simp [hxe, hxn]
    · intro x hx
      simp only [List.mem_cons, List.mem_append, not_or] at hx
      have hxp : x ≠ p := by
        rintro rfl
        simp only [List.mem_cons] at hp
        tauto
      simp [hx.2.2.1, hx.2.2.2.1, hxp]

theorem unlink_eq (L : Links ν) (e : ν) :
    L.unlink e = (L.detach e).map fun L => (L.setNext e none).setPrev e none := by
  unfold unlink detach
  rw [Option.map_bind]
  simp only [Function.comp_def, Option.map_map]

theorem Ring.detach (h : L.Ring head (l₁ ++ e :: l₂)) :
    ∃ L', L.detach e = some L' ∧ L'.Ring head (l₁ ++ l₂) ∧
      ∀ x, x ∉ head :: (l₁ ++ e :: l₂) → L'.next x = L.next x ∧ L'.prev x = L.prev x := by
  obtain ⟨L', hunlink, hring, hframe⟩ := h.unlink
  rw [unlink_eq] at hunlink
  obtain ⟨L₁, hdetach, rfl⟩ := Option.map_eq_some_iff.1 hunlink
  have hother : ∀ x, x ≠ e → ((L₁.setNext e none).setPrev e none).next x = L₁.next x ∧
      ((L₁.setNext e none).setPrev e none).prev x = L₁.prev x := fun x hx =>
    ⟨Function.update_of_ne hx .., Function.update_of_ne hx ..⟩
  have hout : ∀ x ∈ head :: (l₁ ++ l₂), x ≠ e := by
    have hnodup := h.nodup
    rw [← List.cons_append] at hnodup
    have hmid := (List.nodup_middle.1 hnodup)
    rintro x hx rfl
    exact (List.nodup_cons.1 hmid).1 hx
  refine ⟨L₁, hdetach, hring.congr (fun x hx => ((hother x (hout x hx)).1).symm)
    fun x hx => ((hother x (hout x hx)).2).symm, fun x hx => ?_⟩
  have hne : x ≠ e := by
    rintro rfl
    simp at hx
  exact ⟨(hother x hne).1.symm.trans (hframe x hx).1, (hother x hne).2.symm.trans (hframe x hx).2⟩

omit [DecidableEq ν] in
theorem Ring.next_head (h : L.Ring head l) : L.next head = some (l.headD head) := by
  cases l with
  | nil => exact h.seg.1
  | cons x l => exact h.seg.1

omit [DecidableEq ν] in
theorem Ring.next_entry (h : L.Ring head (l₁ ++ e :: l₂)) : L.next e = some (l₂.headD head) := by
  obtain ⟨-, hafter⟩ := seg_append.1 h.seg
  cases l₂ with
  | nil => exact hafter.1
  | cons x l => exact hafter.1

theorem Ring.popHead_nil (h : L.Ring head []) : L.popHead head = some (none, L) := by
  simp [Links.popHead, h.next_head]

theorem Ring.popHead_cons (h : L.Ring head (e :: l)) :
    ∃ L', L.popHead head = some (some e, L') ∧ L'.Ring head l ∧
      ∀ x, x ∉ head :: e :: l → L'.next x = L.next x ∧ L'.prev x = L.prev x := by
  obtain ⟨L', hunlink, hring, hframe⟩ := Ring.unlink (show L.Ring head ([] ++ e :: l) from h)
  have hne : e ≠ head := fun heq => (List.nodup_cons.1 h.nodup).1 (heq ▸ List.mem_cons_self)
  exact ⟨L', by simp [Links.popHead, h.next_head, hne, hunlink], hring, hframe⟩

end Links

end MeuOS.Lib
