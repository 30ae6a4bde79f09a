import Mathlib.Data.Multiset.Filter
import MeuOS.Ex.Callbacks
import MeuOS.Lib.Run

/-! Histories of registrations. A registration is what a successful call made, and is live
until it is taken back; the tables hold the live ones, and nothing else, as long as no call
is given a token that has come to name a slot of somebody else's. -/
namespace MeuOS.Ex

open MeuOS.Lib

inductive Family
  | ps (k : PsKind)
  | ob
  | cm
  | ex
deriving DecidableEq

/-- A registration: its place in the history, and what the call was given and returned. -/
structure Reg where
  serial : Nat
  family : Family
  token : Nat
  routine : Nat
  context : Nat
deriving DecidableEq

/-- The slot a handle or a cookie names. -/
def Reg.slot (r : Reg) : Nat := r.token % 16

structure CbWorld where
  cb : Callbacks
  issued : List Reg
  live : List Reg

inductive CbCall
  | register (f : Family) (routine context : Nat)
  | unregister (r : Reg)

/-- The call that registers, with the token a success gives: the routine itself stands for
a `Ps*` registration. -/
def register (f : Family) (routine context : Nat) (cb : Callbacks) : Option Nat × Callbacks :=
  let byRoutine (r : Nat × Callbacks) : Option Nat × Callbacks :=
    (if r.1 = statusSuccess then some routine else none, r.2)
  match f with
  | .ps .process => byRoutine (psSetCreateProcessNotifyRoutine routine false cb)
  | .ps .processEx => byRoutine (psSetCreateProcessNotifyRoutineEx routine false cb)
  | .ps .thread => byRoutine (psSetCreateThreadNotifyRoutine routine cb)
  | .ps .image => byRoutine (psSetLoadImageNotifyRoutine routine cb)
  | .ob => (obRegisterCallbacks routine true cb).2
  | .cm => (cmRegisterCallback routine context true cb).2
  | .ex =>
      let r := exRegisterCallback routine context cb
      (if r.1 = 0 then none else some r.1, r.2)

/-- The call that unregisters, and whether it reports no failure. -/
def unregister (f : Family) (token : Nat) (cb : Callbacks) : Bool × Callbacks :=
  let reported (r : Nat × Callbacks) : Bool × Callbacks := (r.1 = statusSuccess, r.2)
  match f with
  | .ps .process => reported (psSetCreateProcessNotifyRoutine token true cb)
  | .ps .processEx => reported (psSetCreateProcessNotifyRoutineEx token true cb)
  | .ps .thread => reported (psRemoveCreateThreadNotifyRoutine token cb)
  | .ps .image => reported (psRemoveLoadImageNotifyRoutine token cb)
  | .ob => (true, obUnRegisterCallbacks token cb)
  | .cm => reported (cmUnRegisterCallback token cb)
  | .ex => (true, exUnregisterCallback token cb)

/-- The registration a token still stands for. Registrations of one routine are as good as
each other; a handle or a cookie stands for the one it was returned for. -/
def target (live : List Reg) (r : Reg) : Option Reg :=
  match r.family with
  | .ps _ => live.find? fun q => q.family = r.family ∧ q.token = r.token
  | _ => if r ∈ live then some r else none

def cbStep (w : CbWorld) : CbCall → CbWorld
  | .register f routine context =>
      match register f routine context w.cb with
      | (none, cb) => { w with cb := cb }
      | (some token, cb) =>
          let r : Reg := ⟨w.issued.length, f, token, routine, context⟩
          ⟨cb, r :: w.issued, r :: w.live⟩
  | .unregister r =>
      { w with
        cb := (unregister r.family r.token w.cb).2
        live := match target w.live r with
          | some q => w.live.erase q
          | none => w.live }

/-- Only tokens that were returned are passed. -/
def Passed (w : CbWorld) : CbCall → Prop
  | .register _ _ _ => True
  | .unregister r => r ∈ w.issued

/-- The live registrations of some families. -/
def liveIn (live : List Reg) (p : Family → Bool) : Multiset Reg :=
  (live : Multiset Reg).filter fun r => p r.family = true

/-- The tables hold the live registrations. -/
structure Represents (cb : Callbacks) (live : List Reg) : Prop where
  ps : ∀ k, ((held cbMax (cb.ps k) : Multiset (Nat × Nat)).map Prod.snd) =
    (liveIn live (· = .ps k)).map Reg.routine
  ob : (held cbMax cb.sOb : Multiset (Nat × Nat)) =
    (liveIn live (· = .ob)).map fun r => (r.slot, r.routine)
  cm : (held cbMax cb.sCm : Multiset (Nat × Nat × Nat)) =
    (liveIn live fun f => f = .cm ∨ f = .ex).map fun r => (r.slot, r.routine, r.context)

/-- What a call ought to do: a registration adds itself if it succeeds, a live token removes
its registration and succeeds, a dead one removes nothing. -/
def Meets (w : CbWorld) (c : CbCall) : Prop :=
  Represents (cbStep w c).cb (cbStep w c).live ∧
    match c with
    | .register _ _ _ => True
    | .unregister r =>
        (target w.live r).isSome → (unregister r.family r.token w.cb).1 = true

/-- No cookie of a live `CmRegisterCallback`, and no dead handle or registration whose slot
has been taken again. -/
def Sound (w : CbWorld) : CbCall → Prop
  | .register _ _ _ => True
  | .unregister r =>
      match r.family with
      | .ps _ => True
      | .ob => r ∈ w.live ∨ w.cb.sOb r.slot = none
      | .cm => r ∉ w.live
      | .ex => r ∈ w.live ∨ w.cb.sCm r.slot = none

/-! ## Tokens -/

theorem obToken_decode {i : Nat} (hi : i < 16) : (0xCB000000 ||| i) / 2 ^ 24 = 0xCB ∧
    (0xCB000000 ||| i) % 2 ^ 24 = i ∧ (0xCB000000 ||| i) % 16 = i ∧ (0xCB000000 ||| i) ≠ 0 := by
  have hall : ∀ j < 16, (0xCB000000 ||| j) / 2 ^ 24 = 0xCB ∧ (0xCB000000 ||| j) % 2 ^ 24 = j ∧
      (0xCB000000 ||| j) % 16 = j ∧ (0xCB000000 ||| j) ≠ 0 := by decide
  exact hall i hi

/-- The cookie has one digit less than the test looks for. -/
theorem cmToken_decode {i : Nat} (hi : i < 16) :
    (0xCAF1000 ||| i) / 2 ^ 16 = 0xCAF ∧ (0xCAF1000 ||| i) % 16 = i := by
  have hall : ∀ j < 16, (0xCAF1000 ||| j) / 2 ^ 16 = 0xCAF ∧ (0xCAF1000 ||| j) % 16 = j := by decide
  exact hall i hi

theorem exToken_decode {i : Nat} (hi : i < 16) : (0xE0000000 ||| i) / 2 ^ 28 = 0xE ∧
    (0xE0000000 ||| i) % 2 ^ 24 = i ∧ (0xE0000000 ||| i) % 16 = i ∧ (0xE0000000 ||| i) ≠ 0 := by
  have hall : ∀ j < 16, (0xE0000000 ||| j) / 2 ^ 28 = 0xE ∧ (0xE0000000 ||| j) % 2 ^ 24 = j ∧
      (0xE0000000 ||| j) % 16 = j ∧ (0xE0000000 ||| j) ≠ 0 := by decide
  exact hall i hi

/-- What is known of a registration by its family. -/
def Issued (r : Reg) : Prop :=
  match r.family with
  | .ps _ => r.token = r.routine ∧ r.routine ≠ 0
  | .ob => r.slot < 16 ∧ r.token = 0xCB000000 ||| r.slot ∧ r.routine ≠ 0
  | .cm => r.slot < 16 ∧ r.token = 0xCAF1000 ||| r.slot ∧ r.routine ≠ 0
  | .ex => r.slot < 16 ∧ r.token = 0xE0000000 ||| r.slot

structure CbInv (w : CbWorld) : Prop where
  issued : ∀ r ∈ w.issued, Issued r
  live : ∀ r ∈ w.live, r ∈ w.issued
  serial : ∀ r ∈ w.issued, r.serial < w.issued.length
  nodup : w.live.Nodup
  tables : Represents w.cb w.live

/-! ## The live registrations -/

section Live

variable {live : List Reg} {p : Family → Bool} {r : Reg}

theorem liveIn_cons_of_mem (h : p r.family = true) : liveIn (r :: live) p = r ::ₘ liveIn live p := by
  unfold liveIn
  rw [← Multiset.cons_coe, Multiset.filter_cons_of_pos (p := fun r : Reg => p r.family = true) _ h]

theorem liveIn_cons_of_not (h : p r.family = false) : liveIn (r :: live) p = liveIn live p := by
  unfold liveIn
  rw [← Multiset.cons_coe, Multiset.filter_cons_of_neg _ (by rw [h]; exact Bool.false_ne_true)]

theorem mem_liveIn : r ∈ liveIn live p ↔ r ∈ live ∧ p r.family = true := by
  unfold liveIn
  rw [Multiset.mem_filter, Multiset.mem_coe]

/-- Taking a registration out of the live ones. -/
theorem liveIn_erase (hr : r ∈ live) : liveIn (r :: live.erase r) p = liveIn live p := by
  unfold liveIn
  rw [Multiset.coe_eq_coe.mpr (List.perm_cons_erase hr).symm]

end Live

section Tables

variable {cb : Callbacks} {live : List Reg} {r : Reg} {i : Nat}

theorem Represents.addPs (h : Represents cb live) {k : PsKind} (hr : r.family = .ps k) (hi : i < cbMax)
    (hfree : cb.ps k i = none) :
    Represents (cb.setPs k i (some r.routine)) (r :: live) := by
  refine ⟨fun k' => ?_, ?_, ?_⟩
  · by_cases hk : k' = k
    · subst hk
      rw [liveIn_cons_of_mem (by simp [hr]), Multiset.map_cons, ← h.ps k', cb.setPs_same,
        held_take hi hfree, Multiset.map_cons]
    · rw [liveIn_cons_of_not (by simp [hr, Ne.symm hk]), ← h.ps k', cb.setPs_other _ _ hk]
  · rw [liveIn_cons_of_not (by simp [hr])]
    exact h.ob
  · rw [liveIn_cons_of_not (by simp [hr])]
    exact h.cm

theorem Represents.addOb (h : Represents cb live) (hr : r.family = .ob) (hi : r.slot < cbMax)
    (hfree : cb.sOb r.slot = none) :
    Represents { cb with sOb := Function.update cb.sOb r.slot (some r.routine) } (r :: live) := by
  refine ⟨fun k => ?_, ?_, ?_⟩
  · rw [liveIn_cons_of_not (by simp [hr])]
    exact h.ps k
  · rw [liveIn_cons_of_mem (by simp [hr]), Multiset.map_cons, ← h.ob]
    exact held_take hi hfree _
  · rw [liveIn_cons_of_not (by simp [hr])]
    exact h.cm

theorem Represents.addCm (h : Represents cb live) (hr : r.family = .cm ∨ r.family = .ex)
    (hi : r.slot < cbMax) (hfree : cb.sCm r.slot = none) :
    Represents { cb with sCm := Function.update cb.sCm r.slot (some (r.routine, r.context)) }
      (r :: live) := by
  have hnot : ∀ k, r.family ≠ .ps k := fun k heq => by
    rw [heq] at hr
    simp at hr
  have hnob : r.family ≠ .ob := fun heq => by
    rw [heq] at hr
    simp at hr
  refine ⟨fun k => ?_, ?_, ?_⟩
  · rw [liveIn_cons_of_not (by simp [hnot k])]
    exact h.ps k
  · rw [liveIn_cons_of_not (by simp [hnob])]
    exact h.ob
  · rw [liveIn_cons_of_mem (by simpa using hr), Multiset.map_cons, ← h.cm]
    exact held_take hi hfree _

theorem Represents.removePs (h : Represents cb live) {k : PsKind} (hmem : r ∈ live)
    (hr : r.family = .ps k) (hi : i < cbMax) (hx : cb.ps k i = some r.routine) :
    Represents (cb.setPs k i none) (live.erase r) := by
  refine ⟨fun k' => ?_, ?_, ?_⟩
  · by_cases hk : k' = k
    · subst hk
      have hheld := h.ps k'
      rw [held_free hi hx, ← liveIn_erase hmem, liveIn_cons_of_mem (by simp [hr]), Multiset.map_cons,
        Multiset.map_cons] at hheld
      rw [cb.setPs_same]
      exact (Multiset.cons_inj_right _).mp hheld
    · have hheld := h.ps k'
      rw [← liveIn_erase hmem, liveIn_cons_of_not (by simp [hr, Ne.symm hk])] at hheld
      rw [cb.setPs_other _ _ hk]
      exact hheld
  · have hheld := h.ob
    rw [← liveIn_erase hmem, liveIn_cons_of_not (by simp [hr])] at hheld
    exact hheld
  · have hheld := h.cm
    rw [← liveIn_erase hmem, liveIn_cons_of_not (by simp [hr])] at hheld
    exact hheld

theorem Represents.removeOb (h : Represents cb live) (hmem : r ∈ live) (hr : r.family = .ob) :
    Represents { cb with sOb := Function.update cb.sOb r.slot none } (live.erase r) := by
  have hin : (r.slot, r.routine) ∈ held cbMax cb.sOb := by
    rw [← Multiset.mem_coe, h.ob]
    exact Multiset.mem_map_of_mem _ (mem_liveIn.mpr ⟨hmem, by simp [hr]⟩)
  obtain ⟨hi, hx⟩ := mem_held.mp hin
  refine ⟨fun k => ?_, ?_, ?_⟩
  · have hheld := h.ps k
    rw [← liveIn_erase hmem, liveIn_cons_of_not (by simp [hr])] at hheld
    exact hheld
  · have hheld := h.ob
    rw [held_free hi hx, ← liveIn_erase hmem, liveIn_cons_of_mem (by simp [hr]),
      Multiset.map_cons] at hheld
    exact (Multiset.cons_inj_right _).mp hheld
  · have hheld := h.cm
    rw [← liveIn_erase hmem, liveIn_cons_of_not (by simp [hr])] at hheld
    exact hheld

theorem Represents.removeCm (h : Represents cb live) (hmem : r ∈ live) (hr : r.family = .ex) :
    Represents { cb with sCm := Function.update cb.sCm r.slot none } (live.erase r) := by
  have hin : (r.slot, r.routine, r.context) ∈ held cbMax cb.sCm := by
    rw [← Multiset.mem_coe, h.cm]
    exact Multiset.mem_map_of_mem _ (mem_liveIn.mpr ⟨hmem, by simp [hr]⟩)
  obtain ⟨hi, hx⟩ := mem_held.mp hin
  refine ⟨fun k => ?_, ?_, ?_⟩
  · have hheld := h.ps k
    rw [← liveIn_erase hmem, liveIn_cons_of_not (by simp [hr])] at hheld
    exact hheld
  · have hheld := h.ob
    rw [← liveIn_erase hmem, liveIn_cons_of_not (by simp [hr])] at hheld
    exact hheld
  · have hheld := h.cm
    rw [held_free hi hx, ← liveIn_erase hmem, liveIn_cons_of_mem (by simp [hr]),
      Multiset.map_cons] at hheld
    exact (Multiset.cons_inj_right _).mp hheld

/-- A table that lost an element holds something else. -/
theorem held_lost {α : Type} {t : Nat → Option α} {x : α} (hi : i < cbMax) (hx : t i = some x) :
    (held cbMax (Function.update t i none) : Multiset (Nat × α)) ≠ held cbMax t := by
  intro heq
  have hcard := congrArg Multiset.card heq
  rw [held_free hi hx, Multiset.card_cons] at hcard
  omega

end Tables

/-! ## One call -/

section Calls

variable {cb : Callbacks} {live : List Reg} {w : CbWorld} {r : Reg}

/-- What a registering call does: nothing, or it takes a slot for the registration. -/
def Adds (f : Family) (routine context serial : Nat) (live : List Reg) (cb : Callbacks)
    (result : Option Nat × Callbacks) : Prop :=
  result = (none, cb) ∨ ∃ token, result.1 = some token ∧
    Issued ⟨serial, f, token, routine, context⟩ ∧
    Represents result.2 (⟨serial, f, token, routine, context⟩ :: live)

theorem psAdd_adds (h : Represents cb live) (k : PsKind) {n : Nat} (hn : n ≠ 0) (context serial : Nat) :
    Adds (.ps k) n context serial live cb
      (if (psAdd k n cb).1 = statusSuccess then some n else none, (psAdd k n cb).2) := by
  unfold psAdd
  cases hfree : firstFree cbMax (cb.ps k) with
  | none => exact .inl rfl
  | some i =>
    obtain ⟨hi, hslot⟩ := firstFree_some hfree
    exact .inr ⟨n, rfl, ⟨rfl, hn⟩, h.addPs (r := ⟨serial, .ps k, n, n, context⟩) rfl hi hslot⟩

theorem register_adds (h : Represents cb live) (f : Family) (routine context serial : Nat) :
    Adds f routine context serial live cb (register f routine context cb) := by
  have hps : ∀ k, Adds (.ps k) routine context serial live cb
      (if (if routine = 0 then (statusInvalidParameter, cb) else psAdd k routine cb).1 = statusSuccess
        then some routine else none,
        (if routine = 0 then (statusInvalidParameter, cb) else psAdd k routine cb).2) := by
    intro k
    by_cases hn : routine = 0
    · simp only [if_pos hn]
      exact .inl rfl
    · simp only [if_neg hn]
      exact psAdd_adds h k hn context serial
  cases f with
  | ps k => cases k <;> exact hps _
  | ob =>
    unfold register obRegisterCallbacks
    by_cases hn : routine = 0
    · rw [if_pos (.inl hn)]
      exact .inl rfl
    · rw [if_neg (by simpa using hn)]
      cases hfree : firstFree cbMax cb.sOb with
      | none => exact .inl rfl
      | some i =>
        obtain ⟨hi, hslot⟩ := firstFree_some hfree
        obtain ⟨-, -, hmod, -⟩ := obToken_decode hi
        let r : Reg := ⟨serial, .ob, 0xCB000000 ||| i, routine, context⟩
        have hr : r.slot = i := hmod
        have hlt : r.slot < 16 := by
          rw [hr]
          exact hi
        have htok : r.token = 0xCB000000 ||| r.slot := by rw [hr]
        refine .inr ⟨_, rfl, (⟨hlt, htok, hn⟩ : Issued r), ?_⟩
        have hadd := h.addOb (r := r) rfl (hr ▸ hi) (hr ▸ hslot)
        rw [hr] at hadd
        exact hadd
  | cm =>
    unfold register cmRegisterCallback
    by_cases hn : routine = 0
    · rw [if_pos (.inl hn)]
      exact .inl rfl
    · rw [if_neg (by simpa using hn)]
      cases hfree : firstFree cbMax cb.sCm with
      | none => exact .inl rfl
      | some i =>
        obtain ⟨hi, hslot⟩ := firstFree_some hfree
        let r : Reg := ⟨serial, .cm, 0xCAF1000 ||| i, routine, context⟩
        have hr : r.slot = i := (cmToken_decode hi).2
        have hlt : r.slot < 16 := by
          rw [hr]
          exact hi
        have htok : r.token = 0xCAF1000 ||| r.slot := by rw [hr]
        refine .inr ⟨_, rfl, (⟨hlt, htok, hn⟩ : Issued r), ?_⟩
        have hadd := h.addCm (r := r) (.inl rfl) (hr ▸ hi) (hr ▸ hslot)
        rw [hr] at hadd
        exact hadd
  | ex =>
    unfold register exRegisterCallback
    cases hfree : firstFree cbMax cb.sCm with
    | none => exact .inl rfl
    | some i =>
      obtain ⟨hi, hslot⟩ := firstFree_some hfree
      obtain ⟨-, -, hmod, hpos⟩ := exToken_decode hi
      let r : Reg := ⟨serial, .ex, 0xE0000000 ||| i, routine, context⟩
      have hr : r.slot = i := hmod
      have hlt : r.slot < 16 := by
        rw [hr]
        exact hi
      have htok : r.token = 0xE0000000 ||| r.slot := by rw [hr]
      refine .inr ⟨0xE0000000 ||| i, if_neg hpos, (⟨hlt, htok⟩ : Issued r), ?_⟩
      have hadd := h.addCm (r := r) (.inr rfl) (hr ▸ hi) (hr ▸ hslot)
      rw [hr] at hadd
      exact hadd

theorem psRemove_spec (h : Represents cb live) (hissued : ∀ q ∈ live, Issued q) (k : PsKind) (n : Nat) :
    match live.find? fun q => q.family = .ps k ∧ q.token = n with
    | some q => (psRemove k n cb).1 = statusSuccess ∧ Represents (psRemove k n cb).2 (live.erase q)
    | none => (psRemove k n cb).2 = cb := by
  have hmem : n ∈ (held cbMax (cb.ps k) : Multiset (Nat × Nat)).map Prod.snd ↔
      ∃ q ∈ live, q.family = .ps k ∧ q.token = n := by
    rw [h.ps k, Multiset.mem_map]
    constructor
    · rintro ⟨q, hq, hroutine⟩
      obtain ⟨hlive, hfam⟩ := mem_liveIn.mp hq
      have hfam' : q.family = .ps k := by simpa using hfam
      have hiss := hissued q hlive
      unfold Issued at hiss
      rw [hfam'] at hiss
      exact ⟨q, hlive, hfam', hiss.1.trans hroutine⟩
    · rintro ⟨q, hlive, hfam, htok⟩
      have hiss := hissued q hlive
      unfold Issued at hiss
      rw [hfam] at hiss
      exact ⟨q, mem_liveIn.mpr ⟨hlive, by simpa using hfam⟩, hiss.1.symm.trans htok⟩
  cases hfind : live.find? fun q => q.family = .ps k ∧ q.token = n with
  | none =>
    have hfirst : firstHeld cbMax (cb.ps k) (fun fn => fn = n) = none := by
      cases hfirst : firstHeld cbMax (cb.ps k) fun fn => fn = n with
      | none => rfl
      | some i =>
        obtain ⟨hi, x, hx, hp⟩ := firstHeld_some hfirst
        have hxn : x = n := by simpa using hp
        obtain ⟨q, hq, hfam, htok⟩ := hmem.mp (Multiset.mem_map.mpr
          ⟨(i, x), Multiset.mem_coe.mpr (mem_held.mpr ⟨hi, hx⟩), hxn⟩)
        have hnone := List.find?_eq_none.mp hfind q hq
        simp [hfam, htok] at hnone
    simp only [psRemove, hfirst]
  | some q =>
    have hq := List.mem_of_find?_eq_some hfind
    have hprop := List.find?_some hfind
    simp only [decide_eq_true_eq] at hprop
    have hiss := hissued q hq
    unfold Issued at hiss
    rw [hprop.1] at hiss
    obtain ⟨e, he, hen⟩ := Multiset.mem_map.mp (hmem.mpr ⟨q, hq, hprop⟩)
    obtain ⟨hei, hex⟩ := mem_held.mp (Multiset.mem_coe.mp he)
    cases hfirst : firstHeld cbMax (cb.ps k) fun fn => fn = n with
    | none =>
      have hfalse := firstHeld_none hfirst hei hex
      simp [hen] at hfalse
    | some i =>
      obtain ⟨hi, x, hx, hp⟩ := firstHeld_some hfirst
      have hxq : x = q.routine := by
        have hxn : x = n := by simpa using hp
        rw [hxn, ← hprop.2, hiss.1]
      rw [hxq] at hx
      simp only [psRemove, hfirst]
      exact ⟨trivial, h.removePs hq hprop.1 hi hx⟩

theorem unregister_ps (k : PsKind) {n : Nat} (hn : n ≠ 0) (cb : Callbacks) :
    unregister (.ps k) n cb = (decide ((psRemove k n cb).1 = statusSuccess), (psRemove k n cb).2) := by
  cases k with
  | process =>
    unfold unregister psSetCreateProcessNotifyRoutine
    simp only [if_neg hn, if_true]
  | processEx =>
    unfold unregister psSetCreateProcessNotifyRoutineEx
    simp only [if_neg hn, if_true]
  | thread => rfl
  | image => rfl

theorem unregister_ob {i : Nat} (hi : i < 16) (cb : Callbacks) :
    unregister .ob (0xCB000000 ||| i) cb = (true, { cb with sOb := Function.update cb.sOb i none }) := by
  obtain ⟨hdiv, hmod, -, hpos⟩ := obToken_decode hi
  unfold unregister obUnRegisterCallbacks
  rw [if_neg fun hbad => hbad.elim hpos fun hne => hne hdiv]
  simp only [hmod]
  rw [if_pos (show i < cbMax from hi)]

theorem unregister_cm {i : Nat} (hi : i < 16) (cb : Callbacks) :
    unregister .cm (0xCAF1000 ||| i) cb = (false, cb) := by
  have hdiv := (cmToken_decode hi).1
  unfold unregister cmUnRegisterCallback
  rw [if_pos (by rw [hdiv]; decide)]
  rfl

theorem unregister_ex {i : Nat} (hi : i < 16) (cb : Callbacks) :
    unregister .ex (0xE0000000 ||| i) cb = (true, { cb with sCm := Function.update cb.sCm i none }) := by
  obtain ⟨hdiv, hmod, -, -⟩ := exToken_decode hi
  unfold unregister exUnregisterCallback
  rw [if_neg fun hne => hne hdiv]
  simp only [hmod]
  rw [if_pos (show i < cbMax from hi)]

theorem target_ps {k : PsKind} (hr : r.family = .ps k) :
    target live r = live.find? fun q => q.family = .ps k ∧ q.token = r.token := by
  unfold target
  rw [hr]

theorem target_handle (hr : r.family = .ob ∨ r.family = .cm ∨ r.family = .ex) :
    target live r = if r ∈ live then some r else none := by
  unfold target
  rcases hr with hr | hr | hr <;> rw [hr]

/-- A live registration that is taken back, or a dead one that is not to be found. -/
theorem Represents.freeOb (h : Represents cb live) (hr : r.family = .ob) (hi : r.slot < 16) :
    Represents { cb with sOb := Function.update cb.sOb r.slot none }
      (if r ∈ live then live.erase r else live) ↔ r ∈ live ∨ cb.sOb r.slot = none := by
  by_cases hlive : r ∈ live
  · rw [if_pos hlive]
    exact iff_of_true (h.removeOb hlive hr) (.inl hlive)
  · rw [if_neg hlive]
    constructor
    · intro hafter
      cases hx : cb.sOb r.slot with
      | none => exact .inr rfl
      | some x => exact absurd (hafter.ob.trans h.ob.symm) (held_lost hi hx)
    · intro hfree
      rw [update_free (hfree.resolve_left hlive)]
      exact h

theorem Represents.freeCm (h : Represents cb live) (hr : r.family = .ex) (hi : r.slot < 16) :
    Represents { cb with sCm := Function.update cb.sCm r.slot none }
      (if r ∈ live then live.erase r else live) ↔ r ∈ live ∨ cb.sCm r.slot = none := by
  by_cases hlive : r ∈ live
  · rw [if_pos hlive]
    exact iff_of_true (h.removeCm hlive hr) (.inl hlive)
  · rw [if_neg hlive]
    constructor
    · intro hafter
      cases hx : cb.sCm r.slot with
      | none => exact .inr rfl
      | some x => exact absurd (hafter.cm.trans h.cm.symm) (held_lost hi hx)
    · intro hfree
      rw [update_free (hfree.resolve_left hlive)]
      exact h

/-- What is live after an unregistering call. -/
def liveAfter (live : List Reg) (r : Reg) : List Reg :=
  match target live r with
  | some q => live.erase q
  | none => live

theorem liveAfter_handle (hr : r.family = .ob ∨ r.family = .cm ∨ r.family = .ex) :
    liveAfter live r = if r ∈ live then live.erase r else live := by
  unfold liveAfter
  rw [target_handle hr]
  by_cases hlive : r ∈ live
  · rw [if_pos hlive, if_pos hlive]
  · rw [if_neg hlive, if_neg hlive]

theorem unregister_meets (hinv : CbInv w) (hr : r ∈ w.issued) :
    Meets w (.unregister r) ↔ Sound w (.unregister r) := by
  have hiss := hinv.issued r hr
  unfold Issued at hiss
  change Represents (unregister r.family r.token w.cb).2 (liveAfter w.live r) ∧
    ((target w.live r).isSome → (unregister r.family r.token w.cb).1 = true) ↔ _
  unfold Sound
  cases hfam : r.family with
  | ps k =>
    simp only [hfam] at hiss ⊢
    have hspec := psRemove_spec hinv.tables (fun q hq => hinv.issued q (hinv.live q hq)) k r.token
    have hn : r.token ≠ 0 := by
      rw [hiss.1]
      exact hiss.2
    rw [unregister_ps k hn]
    refine iff_of_true ?_ trivial
    unfold liveAfter
    rw [target_ps hfam]
    cases hfind : w.live.find? fun q => q.family = .ps k ∧ q.token = r.token with
    | none =>
      simp only [hfind] at hspec
      rw [hspec]
      exact ⟨hinv.tables, nofun⟩
    | some q =>
      simp only [hfind] at hspec
      exact ⟨hspec.2, fun _ => decide_eq_true hspec.1⟩
  | ob =>
    simp only [hfam] at hiss ⊢
    rw [hiss.2.1, unregister_ob hiss.1, liveAfter_handle (.inl hfam), ← hinv.tables.freeOb hfam hiss.1]
    exact and_iff_left fun _ => rfl
  | cm =>
    simp only [hfam] at hiss ⊢
    rw [hiss.2.1, unregister_cm hiss.1, liveAfter_handle (.inr (.inl hfam)),
      target_handle (.inr (.inl hfam))]
    by_cases hlive : r ∈ w.live
    · simp [hlive]
    · simpa [hlive] using hinv.tables
  | ex =>
    simp only [hfam] at hiss ⊢
    rw [hiss.2, unregister_ex hiss.1, liveAfter_handle (.inr (.inr hfam)),
      ← hinv.tables.freeCm hfam hiss.1]
    exact and_iff_left fun _ => rfl

theorem cbStep_refused {f : Family} {routine context : Nat} {cb' : Callbacks}
    (h : register f routine context w.cb = (none, cb')) :
    cbStep w (.register f routine context) = { w with cb := cb' } := by
  simp only [cbStep, h]

theorem cbStep_added {f : Family} {routine context token : Nat} {cb' : Callbacks}
    (h : register f routine context w.cb = (some token, cb')) :
    cbStep w (.register f routine context) =
      ⟨cb', ⟨w.issued.length, f, token, routine, context⟩ :: w.issued,
        ⟨w.issued.length, f, token, routine, context⟩ :: w.live⟩ := by
  simp only [cbStep, h]

theorem call_meets (hinv : CbInv w) {c : CbCall} (hc : Passed w c) : Meets w c ↔ Sound w c := by
  cases c with
  | register f routine context =>
    refine iff_of_true ⟨?_, trivial⟩ trivial
    obtain hnone | ⟨token, htok, -, hrep⟩ :=
      register_adds hinv.tables f routine context w.issued.length
    · rw [cbStep_refused hnone]
      exact hinv.tables
    · rcases hreg : register f routine context w.cb with ⟨_ | tok, cb'⟩
      · rw [hreg] at htok
        cases htok
      · rw [hreg] at htok hrep
        cases htok
        rw [cbStep_added hreg]
        exact hrep
  | unregister r => exact unregister_meets hinv hc

theorem cbStep_inv (hinv : CbInv w) {c : CbCall} (hc : Passed w c) (hsound : Sound w c) :
    CbInv (cbStep w c) := by
  have htables := ((call_meets hinv hc).2 hsound).1
  cases c with
  | register f routine context =>
    have hadds := register_adds hinv.tables f routine context w.issued.length
    rcases hreg : register f routine context w.cb with ⟨_ | token, cb'⟩
    · rw [cbStep_refused hreg] at htables ⊢
      exact { hinv with tables := htables }
    · rw [cbStep_added hreg] at htables ⊢
      rw [hreg] at hadds
      obtain hnone | ⟨token', htok, hissued, -⟩ := hadds
      · cases hnone
      · cases htok
        refine ⟨fun q hq => ?_, fun q hq => ?_, fun q hq => ?_, ?_, htables⟩
        · rcases List.mem_cons.mp hq with rfl | hq
          · exact hissued
          · exact hinv.issued q hq
        · rcases List.mem_cons.mp hq with rfl | hq
          · exact List.mem_cons_self ..
          · exact List.mem_cons_of_mem _ (hinv.live q hq)
        · rw [List.length_cons]
          rcases List.mem_cons.mp hq with rfl | hq
          · exact Nat.lt_succ_self _
          · exact Nat.lt_succ_of_lt (hinv.serial q hq)
        · refine List.nodup_cons.mpr ⟨fun hmem => ?_, hinv.nodup⟩
          exact Nat.lt_irrefl _ (hinv.serial _ (hinv.live _ hmem))
  | unregister r =>
    have hlive : (cbStep w (.unregister r)).live = liveAfter w.live r := rfl
    refine ⟨hinv.issued, fun q hq => ?_, hinv.serial, ?_, htables⟩
    · rw [hlive] at hq
      unfold liveAfter at hq
      cases htarget : target w.live r with
      | none =>
        simp only [htarget] at hq
        exact hinv.live q hq
      | some p =>
        simp only [htarget] at hq
        exact hinv.live q (List.mem_of_mem_erase hq)
    · rw [hlive]
      unfold liveAfter
      cases target w.live r with
      | none => exact hinv.nodup
      | some p => exact hinv.nodup.erase p

end Calls

/-! ## Counts and events -/

/-- The routines of the live registrations of one family. -/
def liveRoutines (live : List Reg) (f : Family) : Multiset Nat :=
  (liveIn live (· = f)).map Reg.routine

/-- The number of live registrations of one family. -/
def liveCount (live : List Reg) (f : Family) : Nat := Multiset.card (liveIn live (· = f))

/-- The routines invoked are the live ones, each once per registration, in slot order. -/
def InvokesLive (t : Nat → Option Nat) (invoked : List Nat) (routines : Multiset Nat) : Prop :=
  (invoked : Multiset Nat) = routines ∧
    ∃ slots : List Nat, slots.Pairwise (· < ·) ∧ invoked.map some = slots.map t

/-- The counters; that of the registry also counts the slots `ExRegisterCallback` took. -/
structure Counts (w : CbWorld) : Prop where
  process : callbacksCountProcess w.cb =
    liveCount w.live (.ps .process) + liveCount w.live (.ps .processEx)
  thread : callbacksCountThread w.cb = liveCount w.live (.ps .thread)
  image : callbacksCountImage w.cb = liveCount w.live (.ps .image)
  ob : callbacksCountOb w.cb = liveCount w.live .ob
  cm : callbacksCountCm w.cb = liveCount w.live .cm ↔ liveCount w.live .ex = 0

/-- The events; that of the registry also invokes what `ExRegisterCallback` was given. -/
structure Fires (w : CbWorld) : Prop where
  process : ∀ parentPid pid create, ∃ first rest,
    (callbacksFireProcessCreate parentPid pid create w.cb).map Prod.fst = first ++ rest ∧
      InvokesLive (w.cb.ps .process) first (liveRoutines w.live (.ps .process)) ∧
      InvokesLive (w.cb.ps .processEx) rest (liveRoutines w.live (.ps .processEx))
  thread : ∀ pid tid create, InvokesLive (w.cb.ps .thread)
    ((callbacksFireThreadCreate pid tid create w.cb).map Prod.fst) (liveRoutines w.live (.ps .thread))
  image : ∀ pid, InvokesLive (w.cb.ps .image)
    ((callbacksFireImageLoad pid w.cb).map Prod.fst) (liveRoutines w.live (.ps .image))
  registry : ∀ op, InvokesLive (fun i => (w.cb.sCm i).map Prod.fst)
      ((callbacksFireRegistryOp op w.cb).map Prod.fst) (liveRoutines w.live .cm) ↔
    ∀ r ∈ w.live, r.family = .ex → r.routine = 0

section Observed

variable {w : CbWorld}

/-- The slots of a table that pass a test, and what is in them. -/
theorem held_inOrder {α : Type} (t : Nat → Option α) (g : α → Nat) (p : Nat → Bool) :
    ∃ slots : List Nat, slots.Pairwise (· < ·) ∧
      ((((held cbMax t).map Prod.snd).map g).filter p).map some =
        slots.map fun i => (t i).map g := by
  refine ⟨((held cbMax t).filter fun e => p (g e.2)).map Prod.fst,
    List.Pairwise.sublist (List.filter_sublist.map Prod.fst) (held_sorted cbMax t), ?_⟩
  rw [List.map_map, List.filter_map, List.map_map, List.map_map]
  apply List.map_congr_left
  intro e he
  have hslot := (mem_held.mp (List.mem_filter.mp he).1).2
  simp only [Function.comp_apply, hslot, Option.map_some]

/-- The routines a registry operation invokes. -/
theorem registry_routines (op : Nat) (cb : Callbacks) :
    (callbacksFireRegistryOp op cb).map Prod.fst =
      (((held cbMax cb.sCm).map Prod.snd).map Prod.fst).filter (· ≠ 0) := by
  unfold callbacksFireRegistryOp
  rw [List.map_map, List.filter_map (f := Prod.fst)]
  rfl

theorem routines_invoke (hinv : CbInv w) (k : PsKind) :
    InvokesLive (w.cb.ps k) (routines (w.cb.ps k)) (liveRoutines w.live (.ps k)) := by
  have hpos : ∀ n ∈ (held cbMax (w.cb.ps k)).map Prod.snd, (decide (n ≠ 0)) = true := by
    intro n hn
    have hmem : n ∈ liveRoutines w.live (.ps k) := by
      unfold liveRoutines
      rw [← hinv.tables.ps k, Multiset.map_coe, Multiset.mem_coe]
      exact hn
    obtain ⟨r, hr, rfl⟩ := Multiset.mem_map.mp hmem
    obtain ⟨hlive, hfam⟩ := mem_liveIn.mp hr
    have hiss := hinv.issued r (hinv.live r hlive)
    have hfam' : r.family = .ps k := by simpa using hfam
    unfold Issued at hiss
    rw [hfam'] at hiss
    exact decide_eq_true hiss.2
  obtain ⟨slots, hsorted, hslots⟩ := held_inOrder (w.cb.ps k) id (fun n => decide (n ≠ 0))
  simp only [List.map_id, Option.map_id, id_eq] at hslots
  refine ⟨?_, slots, hsorted, hslots⟩
  unfold routines
  rw [List.filter_eq_self.mpr hpos, ← Multiset.map_coe]
  exact hinv.tables.ps k

theorem count_ps (hinv : CbInv w) (k : PsKind) :
    (held cbMax (w.cb.ps k)).length = liveCount w.live (.ps k) := by
  have hcard := congrArg Multiset.card (hinv.tables.ps k)
  rw [Multiset.card_map, Multiset.card_map, Multiset.coe_card] at hcard
  exact hcard

/-- The table of the registry is shared. -/
theorem liveIn_shared (live : List Reg) :
    liveIn live (fun f => f = .cm ∨ f = .ex) = liveIn live (· = .cm) + liveIn live (· = .ex) := by
  have hboth : (live : Multiset Reg).filter (fun r => r.family = .cm ∧ r.family = .ex) = 0 := by
    apply Multiset.filter_eq_nil.mpr
    rintro r - ⟨hcm, hex⟩
    rw [hcm] at hex
    cases hex
  unfold liveIn
  simp only [decide_eq_true_eq]
  rw [Multiset.filter_add_filter, hboth, Multiset.add_zero]

theorem counts (hinv : CbInv w) : Counts w where
  process := by
    unfold callbacksCountProcess
    rw [count_ps hinv, count_ps hinv]
  thread := count_ps hinv .thread
  image := count_ps hinv .image
  ob := by
    have hcard := congrArg Multiset.card hinv.tables.ob
    rw [Multiset.card_map, Multiset.coe_card] at hcard
    exact hcard
  cm := by
    have hcard := congrArg Multiset.card hinv.tables.cm
    rw [Multiset.card_map, Multiset.coe_card, liveIn_shared, Multiset.card_add] at hcard
    unfold callbacksCountCm liveCount
    omega

theorem registry_invokes (hinv : CbInv w) (op : Nat) :
    ((callbacksFireRegistryOp op w.cb).map Prod.fst : Multiset Nat) =
      liveRoutines w.live .cm + (liveRoutines w.live .ex).filter (· ≠ 0) := by
  have hcm : (liveRoutines w.live .cm).filter (· ≠ 0) = liveRoutines w.live .cm := by
    apply Multiset.filter_eq_self.mpr
    intro n hn
    obtain ⟨r, hr, rfl⟩ := Multiset.mem_map.mp hn
    obtain ⟨hlive, hfam⟩ := mem_liveIn.mp hr
    have hiss := hinv.issued r (hinv.live r hlive)
    have hfam' : r.family = .cm := by simpa using hfam
    unfold Issued at hiss
    rw [hfam'] at hiss
    exact hiss.2.2
  have hheld : (((held cbMax w.cb.sCm).map Prod.snd).map Prod.fst : Multiset Nat) =
      liveRoutines w.live .cm + liveRoutines w.live .ex := by
    have hmap := congrArg (Multiset.map fun e => e.2.1) hinv.tables.cm
    rw [liveIn_shared, Multiset.map_map, Multiset.map_add, Multiset.map_coe] at hmap
    rw [List.map_map]
    exact hmap
  rw [registry_routines, ← Multiset.filter_coe, hheld, Multiset.filter_add, hcm]

theorem fires (hinv : CbInv w) : Fires w where
  process := by
    intro parentPid pid create
    refine ⟨_, _, ?_, routines_invoke hinv .process, routines_invoke hinv .processEx⟩
    unfold callbacksFireProcessCreate
    rw [List.map_append, List.map_map, List.map_map]
    exact congrArg₂ (· ++ ·) (List.map_id _) (List.map_id _)
  thread := by
    intro pid tid create
    unfold callbacksFireThreadCreate
    rw [List.map_map]
    exact (List.map_id (routines (w.cb.ps .thread))).symm ▸ routines_invoke hinv .thread
  image := by
    intro pid
    unfold callbacksFireImageLoad
    rw [List.map_map]
    exact (List.map_id (routines (w.cb.ps .image))).symm ▸ routines_invoke hinv .image
  registry := by
    intro op
    have hinvoked := registry_invokes hinv op
    have hnone : (liveRoutines w.live .ex).filter (· ≠ 0) = 0 ↔
        ∀ r ∈ w.live, r.family = .ex → r.routine = 0 := by
      rw [Multiset.filter_eq_nil]
      constructor
      · intro h r hlive hfam
        have hmem : r.routine ∈ liveRoutines w.live .ex :=
          Multiset.mem_map_of_mem _ (mem_liveIn.mpr ⟨hlive, by simpa using hfam⟩)
        exact not_not.mp (h _ hmem)
      · intro h n hn
        obtain ⟨r, hr, rfl⟩ := Multiset.mem_map.mp hn
        obtain ⟨hlive, hfam⟩ := mem_liveIn.mp hr
        exact not_not.mpr (h r hlive (by simpa using hfam))
    obtain ⟨slots, hsorted, hslots⟩ := held_inOrder w.cb.sCm Prod.fst (fun n => decide (n ≠ 0))
    rw [← hnone]
    constructor
    · intro h
      have hsame := hinvoked.symm.trans h.1
      exact Multiset.add_right_inj.mp (hsame.trans (Multiset.add_zero _).symm)
    · intro h
      refine ⟨by rw [hinvoked, h, Multiset.add_zero], slots, hsorted, ?_⟩
      rw [registry_routines]
      exact hslots

end Observed

/-! ## Whole histories -/

/-- No callback is registered. -/
def cbStart : CbWorld := ⟨callbacksInit, [], []⟩

/-- Histories whose calls all meet `guard`. -/
def CbReach (guard : CbWorld → CbCall → Prop) : CbWorld → Prop :=
  Reach (· = cbStart) (fun w c w' => Passed w c ∧ w' = cbStep w c) guard

theorem cbStart_inv : CbInv cbStart := by
  have hps : ∀ k, held cbMax (callbacksInit.ps k) = [] := fun _ => rfl
  refine ⟨nofun, nofun, nofun, .nil, ⟨fun k => ?_, rfl, rfl⟩⟩
  change ((held cbMax (callbacksInit.ps k) : Multiset (Nat × Nat)).map Prod.snd) = _
  rw [hps k]
  rfl

theorem cbReach_inv {w : CbWorld} (hrun : CbReach Sound w) : CbInv w := by
  apply hrun.invariant
  · rintro _ rfl
    exact cbStart_inv
  · rintro w c _ hinv hsound ⟨hpassed, rfl⟩
    exact cbStep_inv hinv hpassed hsound

/-- While every call is sound the tables are the multiset of live registrations, and a call
keeps to it exactly when it is sound itself. -/
theorem callbacks_refined {w : CbWorld} (hrun : CbReach Sound w) :
    Represents w.cb w.live ∧ (∀ c, Passed w c → (Meets w c ↔ Sound w c)) ∧ Counts w ∧ Fires w := by
  have hinv := cbReach_inv hrun
  exact ⟨hinv.tables, fun c hc => call_meets hinv hc, counts hinv, fires hinv⟩

/-- One callback of the registry is registered. -/
def oneCookie : CbWorld := cbStep cbStart (.register .cm 4096 7)

theorem oneCookie_reached (guard : CbWorld → CbCall → Prop)
    (h : guard cbStart (.register .cm 4096 7)) : CbReach guard oneCookie :=
  .step (.start rfl) h ⟨trivial, rfl⟩

theorem callbacks_refined_one : CbReach Sound oneCookie ∧
    Represents oneCookie.cb oneCookie.live ∧
      (∀ c, Passed oneCookie c → (Meets oneCookie c ↔ Sound oneCookie c)) ∧
      Counts oneCookie ∧ Fires oneCookie :=
  ⟨oneCookie_reached _ trivial, callbacks_refined (oneCookie_reached _ trivial)⟩

/-- `CmUnRegisterCallback` refuses the cookie `CmRegisterCallback` returned. -/
theorem liveCookie_refused : CbReach (fun _ _ => True) oneCookie ∧
    cmRegisterCallback 4096 7 true cbStart.cb = (statusSuccess, some 0xCAF1000, oneCookie.cb) ∧
    cmUnRegisterCallback 0xCAF1000 oneCookie.cb = (statusInvalidParameter, oneCookie.cb) ∧
    ∃ r ∈ oneCookie.live, r.token = 0xCAF1000 ∧ ¬Meets oneCookie (.unregister r) := by
  refine ⟨oneCookie_reached _ trivial, rfl, rfl, ⟨0, .cm, 0xCAF1000, 4096, 7⟩, .head _, rfl, ?_⟩
  rintro ⟨-, hsucceeds⟩
  exact absurd (hsucceeds rfl) (by decide)

end MeuOS.Ex
