import MeuOS.Lib.Mem
import MeuOS.Lib.Run
import MeuOS.Lib.Slots
import MeuOS.Lib.Stacks

/-! Device stacks: `AttachedDevice` leads up, a table of 64 entries leads down, and `StackSize`
is set when a device is attached. -/
namespace MeuOS.Io

open MeuOS.Lib

def iostackMax : Nat := 64

/-- `sLower` holds the device and the one below it, none where `used` is 0. -/
structure DeviceStacks where
  attachedDevice : Nat → Option Nat
  stackSize : Nat → Int
  sLower : Nat → Option (Nat × Nat)

def entryOf (t : Nat → Option (Nat × Nat)) (dev : Nat) : Option Nat :=
  firstHeld iostackMax t fun e => e.1 == dev

def iostackSetLower (t : Nat → Option (Nat × Nat)) (dev lower : Nat) : Nat → Option (Nat × Nat) :=
  match entryOf t dev with
  | some i => Function.update t i (some (dev, lower))
  | none =>
      match firstFree iostackMax t with
      | some i => Function.update t i (some (dev, lower))
      | none => t

def iostackGetLower (t : Nat → Option (Nat × Nat)) (dev : Nat) : Option Nat :=
  (entryOf t dev).bind fun i => (t i).map Prod.snd

def iostackClearLower (t : Nat → Option (Nat × Nat)) (dev : Nat) : Nat → Option (Nat × Nat) :=
  match entryOf t dev with
  | some i => Function.update t i none
  | none => t

/-- `none` only when the fuel ends first. -/
def ioTop (attached : Nat → Option Nat) : Nat → Nat → Option Nat
  | 0, _ => none
  | fuel + 1, dev =>
      match attached dev with
      | some upper => ioTop attached fuel upper
      | none => some dev

/-- `legacy` is what `ke_legacy_active` answers; a null pointer is `none`. -/
def ioGetAttachedDevice (legacy : Bool) (fuel : Nat) (s : DeviceStacks) (dev : Option Nat) :
    Option (Option Nat) :=
  match legacy, dev with
  | false, some d => (ioTop s.attachedDevice fuel d).map some
  | _, _ => some none

def ioAttachDeviceToDeviceStack (legacy : Bool) (fuel : Nat) (s : DeviceStacks)
    (source target : Option Nat) : Option (DeviceStacks × Option Nat) :=
  match legacy, source, target with
  | false, some source, some target =>
      (ioTop s.attachedDevice fuel target).map fun top =>
        ({ attachedDevice := Function.update s.attachedDevice top (some source)
           stackSize := Function.update s.stackSize source (schar (s.stackSize top + 1))
           sLower := iostackSetLower s.sLower source top }, some top)
  | _, _, _ => some (s, none)

def ioDetachDevice (legacy : Bool) (s : DeviceStacks) (target : Option Nat) : DeviceStacks :=
  match legacy, target with
  | false, some target =>
      { s with
        attachedDevice := Function.update s.attachedDevice target none
        sLower := match s.attachedDevice target with
          | some top => iostackClearLower s.sLower top
          | none => s.sLower }
  | _, _ => s

def ioGetLowerDeviceObject (legacy : Bool) (s : DeviceStacks) (dev : Nat) : Option Nat :=
  if legacy then none else iostackGetLower s.sLower dev

/-! ## Runs -/

/-- Beside the system: the devices that were detached from one below them, whether an attachment
found no room in the table, and whether a device was attached that carried others or went on
top of a stack as deep as `StackSize` can tell. -/
structure StackWorld where
  io : DeviceStacks
  detached : List Nat
  full : Bool
  overloaded : Bool

inductive StackOp
  | attach (legacy : Bool) (source target : Option Nat)
  | detach (legacy : Bool) (target : Option Nat)

def noRoom (t : Nat → Option (Nat × Nat)) (dev : Nat) : Bool :=
  (entryOf t dev).isNone && (firstFree iostackMax t).isNone

def stackStep (fuel : Nat) (w : StackWorld) : StackOp → Option StackWorld
  | .attach legacy source target =>
      (ioAttachDeviceToDeviceStack legacy fuel w.io source target).map fun r =>
        match source, r.2 with
        | some source, some top =>
            { io := r.1
              detached := w.detached
              full := w.full || noRoom w.io.sLower source
              overloaded := w.overloaded || (w.io.attachedDevice source).isSome ||
                decide (127 ≤ w.io.stackSize top) }
        | _, _ => { w with io := r.1 }
  | .detach legacy target =>
      some { w with
        io := ioDetachDevice legacy w.io target
        detached := match legacy, target.bind w.io.attachedDevice with
          | false, some upper => upper :: w.detached
          | _, _ => w.detached }

/-- Devices as `io_create_device` leaves them. -/
def StackStart (w : StackWorld) : Prop :=
  (∀ d, w.io.attachedDevice d = none) ∧ (∀ d, w.io.stackSize d = 1) ∧ (∀ i, w.io.sLower i = none) ∧
    w.detached = [] ∧ w.full = false ∧ w.overloaded = false

def StackStep (w : StackWorld) (op : StackOp) (w' : StackWorld) : Prop :=
  ∃ fuel, stackStep fuel w op = some w'

/-- The convention among callers: `Source` is in another stack than `Target`. -/
def OtherStack (w : StackWorld) : StackOp → Prop
  | .attach false (some source) (some target) => ¬ SameStack w.io.attachedDevice source target
  | _ => True

/-- `Source` is attached to no device either. -/
def Unattached (w : StackWorld) (op : StackOp) : Prop :=
  OtherStack w op ∧
    match op with
    | .attach false (some source) (some _) => ∀ d, w.io.attachedDevice d ≠ some source
    | _ => True

/-! ## The top -/

section Top

variable {attached : Nat → Option Nat} {fuel d t : Nat} {b l : List Nat}

theorem ioTop_some (h : ioTop attached fuel d = some t) :
    attached t = none ∧ ∀ l, Stack attached l → d ∈ l → t ∈ l := by
  induction fuel generalizing d with
  | zero => cases h
  | succ fuel ih =>
    unfold ioTop at h
    cases hup : attached d with
    | none =>
      rw [hup] at h
      obtain rfl := Option.some.inj h
      exact ⟨hup, fun l _ hd => hd⟩
    | some u =>
      rw [hup] at h
      obtain ⟨htop, hmem⟩ := ih h
      refine ⟨htop, fun l hl hd => hmem l hl ?_⟩
      cases l with
      | nil => exact absurd hd List.not_mem_nil
      | cons x l => exact List.mem_cons_of_mem _ (hl.leads.up_mem_tail hd hup)

theorem ioTop_of_leads (h : Leads attached (d :: b)) :
    ioTop attached (b.length + 1) d = (d :: b).getLast? := by
  induction b generalizing d with
  | nil =>
    unfold ioTop
    rw [show attached d = none from h]
    rfl
  | cons u b ih =>
    unfold ioTop
    rw [h.1]
    exact (ih h.2).trans (List.getLast?_cons_cons).symm

end Top

/-! ## The table -/

section Table

variable {t : Nat → Option (Nat × Nat)} {i dev lower : Nat} {e : Nat × Nat}

theorem entryOf_some (h : entryOf t dev = some i) : i < iostackMax ∧ ∃ lower, t i = some (dev, lower) := by
  obtain ⟨hi, ⟨dev', lower⟩, hslot, hdev⟩ := firstHeld_some h
  obtain rfl := beq_iff_eq.1 hdev
  exact ⟨hi, lower, hslot⟩

theorem entryOf_none (h : entryOf t dev = none) (hi : i < iostackMax) (hslot : t i = some e) : e.1 ≠ dev :=
  fun heq => by simpa [heq] using firstHeld_none h hi hslot

/-- The used entries say what is linked, each device once. -/
structure Entries (t : Nat → Option (Nat × Nat)) (attached : Nat → Option Nat) : Prop where
  link : ∀ i < iostackMax, ∀ e, t i = some e → attached e.2 = some e.1
  once : ∀ i < iostackMax, ∀ j < iostackMax, ∀ e e', t i = some e → t j = some e' → e.1 = e'.1 → i = j

theorem iostackGetLower_some (h : iostackGetLower t dev = some lower) :
    ∃ i < iostackMax, t i = some (dev, lower) := by
  obtain ⟨i, hi, hmap⟩ := Option.bind_eq_some_iff.1 h
  obtain ⟨hlt, lower', hslot⟩ := entryOf_some hi
  rw [hslot] at hmap
  obtain rfl := Option.some.inj hmap
  exact ⟨i, hlt, hslot⟩

theorem Entries.getLower {attached : Nat → Option Nat} (h : Entries t attached) (hi : i < iostackMax)
    (hslot : t i = some (dev, lower)) : iostackGetLower t dev = some lower := by
  unfold iostackGetLower
  cases hentry : entryOf t dev with
  | none => exact absurd rfl (entryOf_none hentry hi hslot)
  | some j =>
    obtain ⟨hj, lower', hslot'⟩ := entryOf_some hentry
    obtain rfl := h.once i hi j hj _ _ hslot hslot' rfl
    rw [Option.bind_some, hslot]
    rfl

section Change

variable {attached : Nat → Option Nat} {d u top source : Nat}

theorem Entries.attach (h : Entries t attached) (htop : attached top = none)
    (hs : ∀ d, attached d ≠ some source) :
    Entries (iostackSetLower t source top) (Function.update attached top (some source)) ∧
      (noRoom t source = false →
        ∃ i < iostackMax, iostackSetLower t source top i = some (source, top)) ∧
      ∀ i < iostackMax, ∀ e, t i = some e → iostackSetLower t source top i = some e := by
  have hnew : entryOf t source = none := by
    refine Option.eq_none_iff_forall_ne_some.2 fun i hi => ?_
    obtain ⟨hlt, lower, hslot⟩ := entryOf_some hi
    exact hs lower (h.link i hlt _ hslot)
  have hold : ∀ i < iostackMax, ∀ e, t i = some e →
      Function.update attached top (some source) e.2 = some e.1 := by
    intro i hi e hslot
    have hlink := h.link i hi e hslot
    rw [Function.update_of_ne fun heq => by simp [heq, htop] at hlink]
    exact hlink
  unfold iostackSetLower noRoom
  rw [hnew]
  cases hfree : firstFree iostackMax t with
  | none =>
    dsimp only
    exact ⟨⟨hold, h.once⟩, fun hroom => absurd hroom (by decide), fun _ _ _ hslot => hslot⟩
  | some k =>
    dsimp only
    obtain ⟨hk, hkfree⟩ := firstFree_some hfree
    have hkeep : ∀ i < iostackMax, ∀ e, t i = some e →
        Function.update t k (some (source, top)) i = some e := by
      intro i _ e hslot
      rw [Function.update_of_ne fun heq => by simp [heq, hkfree] at hslot]
      exact hslot
    refine ⟨⟨fun i hi e hslot => ?_, fun i hi j hj e e' hslot hslot' hdev => ?_⟩,
      fun _ => ⟨k, hk, Function.update_self ..⟩, hkeep⟩
    · by_cases hik : i = k
      · rw [hik, Function.update_self] at hslot
        obtain rfl := Option.some.inj hslot
        exact Function.update_self ..
      · rw [Function.update_of_ne hik] at hslot
        exact hold i hi e hslot
    · -- no old entry is about the new device
      have hother : ∀ i < iostackMax, ∀ e, t i = some e → e.1 ≠ source := fun i hi e hslot heq =>
        hs e.2 (heq ▸ h.link i hi e hslot)
      by_cases hik : i = k
      · by_cases hjk : j = k
        · rw [hik, hjk]
        · rw [hik, Function.update_self] at hslot
          rw [Function.update_of_ne hjk] at hslot'
          obtain rfl := Option.some.inj hslot
          exact absurd hdev.symm (hother j hj e' hslot')
      · rw [Function.update_of_ne hik] at hslot
        by_cases hjk : j = k
        · rw [hjk, Function.update_self] at hslot'
          obtain rfl := Option.some.inj hslot'
          exact absurd hdev (hother i hi e hslot)
        · rw [Function.update_of_ne hjk] at hslot'
          exact h.once i hi j hj e e' hslot hslot' hdev

theorem Entries.detach (h : Entries t attached)
    (hd : attached d = some u) :
    Entries (iostackClearLower t u) (Function.update attached d none) ∧
      ∀ i < iostackMax, ∀ e, t i = some e → e.1 ≠ u → iostackClearLower t u i = some e := by
  -- an entry whose link goes is the one about the detached device
  have hlink : ∀ i < iostackMax, ∀ e, t i = some e → e.1 ≠ u →
      Function.update attached d none e.2 = some e.1 := by
    intro i hi e hslot hne
    have hold := h.link i hi e hslot
    have hother : e.2 ≠ d := by
      rintro rfl
      exact hne (Option.some.inj (hold.symm.trans hd))
    rw [Function.update_of_ne hother]
    exact hold
  unfold iostackClearLower
  cases hentry : entryOf t u with
  | none =>
    dsimp only
    exact ⟨⟨fun i hi e hslot => hlink i hi e hslot (entryOf_none hentry hi hslot), h.once⟩,
      fun _ _ _ hslot _ => hslot⟩
  | some k =>
    dsimp only
    obtain ⟨hk, lower, hkslot⟩ := entryOf_some hentry
    have hcleared : ∀ i e, Function.update t k none i = some e → i ≠ k ∧ t i = some e := by
      intro i e hslot
      by_cases hik : i = k
      · rw [hik, Function.update_self] at hslot
        cases hslot
      · rw [Function.update_of_ne hik] at hslot
        exact ⟨hik, hslot⟩
    refine ⟨⟨fun i hi e hslot => ?_, fun i hi j hj e e' hslot hslot' hdev => ?_⟩,
      fun i hi e hslot hne => ?_⟩
    · obtain ⟨hik, hslot⟩ := hcleared i e hslot
      exact hlink i hi e hslot fun heq => hik (h.once i hi k hk _ _ hslot hkslot heq)
    · exact h.once i hi j hj e e' (hcleared i e hslot).2 (hcleared j e' hslot').2 hdev
    · rw [Function.update_of_ne]
      · exact hslot
      · rintro rfl
        exact hne (congrArg Prod.fst (Option.some.inj (hslot.symm.trans hkslot)))

end Change

end Table

/-! ## Every run -/

/-- What `StackSize` counts. -/
structure Sized (w : StackWorld) : Prop where
  link : ∀ d u, w.io.attachedDevice d = some u → w.io.stackSize u = w.io.stackSize d + 1
  bottom : ∀ b, (∀ d, w.io.attachedDevice d ≠ some b) → b ∉ w.detached → w.io.stackSize b = 1
  bounds : ∀ d, 1 ≤ w.io.stackSize d ∧ w.io.stackSize d ≤ 127

structure StackInv (w : StackWorld) : Prop where
  stacked : Lib.Stacked w.io.attachedDevice
  entries : Entries w.io.sLower w.io.attachedDevice
  listed : w.full = false → ∀ d u, w.io.attachedDevice d = some u →
    ∃ i < iostackMax, w.io.sLower i = some (u, d)
  sized : w.overloaded = false → Sized w

section Step

variable {w w' : StackWorld} {legacy : Bool} {source target : Option Nat}

theorem stackInv_start (h : StackStart w) : StackInv w := by
  obtain ⟨hattached, hsize, hlower, -, -, -⟩ := h
  refine ⟨fun d => ⟨[d], stack_singleton (hattached d) fun x => ?_, List.mem_cons_self⟩,
    ⟨fun i _ e hslot => ?_, fun i _ j _ e e' hslot => ?_⟩, fun _ d u hd => ?_,
    fun _ => ⟨fun d u hd => ?_, fun b _ _ => hsize b, fun d => ?_⟩⟩
  · rw [hattached x]
    exact (Option.some_ne_none d).symm
  · exact absurd (hslot.symm.trans (hlower i)) (Option.some_ne_none e)
  · exact absurd (hslot.symm.trans (hlower i)) (Option.some_ne_none e)
  · exact absurd (hd.symm.trans (hattached d)) (Option.some_ne_none u)
  · exact absurd (hd.symm.trans (hattached d)) (Option.some_ne_none u)
  · rw [hsize d]
    decide

/-- An attachment that returns a device put `source` on top of the target's stack. -/
theorem attach_cases (h : Lib.Stacked w.io.attachedDevice)
    (hguard : Unattached w (.attach legacy source target))
    (hstep : StackStep w (.attach legacy source target) w') :
    w' = w ∨ ∃ s t top, w.io.attachedDevice top = none ∧ (∀ d, w.io.attachedDevice d ≠ some s) ∧
      (∃ l, Stack w.io.attachedDevice l ∧ t ∈ l ∧ top ∈ l) ∧
      ¬ SameStack w.io.attachedDevice s top ∧
      w' = { io :=
               { attachedDevice := Function.update w.io.attachedDevice top (some s)
                 stackSize := Function.update w.io.stackSize s (schar (w.io.stackSize top + 1))
                 sLower := iostackSetLower w.io.sLower s top }
             detached := w.detached
             full := w.full || noRoom w.io.sLower s
             overloaded := w.overloaded || (w.io.attachedDevice s).isSome ||
               decide (127 ≤ w.io.stackSize top) } := by
  obtain ⟨fuel, hstep⟩ := hstep
  obtain ⟨⟨io, answer⟩, hcall, rfl⟩ := Option.map_eq_some_iff.1 hstep
  unfold ioAttachDeviceToDeviceStack at hcall
  split at hcall
  · rename_i s t
    obtain ⟨top, htop, heq⟩ := Option.map_eq_some_iff.1 hcall
    obtain ⟨rfl, rfl⟩ := Prod.mk.inj heq
    obtain ⟨hend, hmem⟩ := ioTop_some htop
    obtain ⟨l, hl, ht⟩ := h t
    refine .inr ⟨s, t, top, hend, hguard.2, ⟨l, hl, ht, hmem l hl ht⟩, ?_, rfl⟩
    rintro ⟨l', hl', hs, htop'⟩
    exact hguard.1 ⟨l', hl', hs, hl.subset hl' (hmem l hl ht) htop' t ht⟩
  · obtain ⟨rfl, rfl⟩ := Prod.mk.inj (Option.some.inj hcall)
    cases source with
    | none => exact .inl rfl
    | some s => exact .inl rfl

theorem attach_inv (h : StackInv w) (hguard : Unattached w (.attach legacy source target))
    (hstep : StackStep w (.attach legacy source target) w') : StackInv w' := by
  rcases attach_cases h.stacked hguard hstep with rfl | ⟨s, t, top, htop, hs, -, hother, rfl⟩
  · exact h
  obtain ⟨hentries, hroom, hkeep⟩ := h.entries.attach htop hs
  have hlinks : ∀ d u, Function.update w.io.attachedDevice top (some s) d = some u →
      d = top ∧ u = s ∨ w.io.attachedDevice d = some u := by
    intro d u hd
    by_cases hdt : d = top
    · rw [hdt, Function.update_self] at hd
      exact .inl ⟨hdt, (Option.some.inj hd).symm⟩
    · rw [Function.update_of_ne hdt] at hd
      exact .inr hd
  refine ⟨h.stacked.attach htop hs hother, hentries, fun hfull d u hd => ?_, fun hover => ?_⟩
  · obtain ⟨hfull, hnoRoom⟩ := Bool.or_eq_false_iff.1 hfull
    rcases hlinks d u hd with ⟨rfl, rfl⟩ | hd
    · exact hroom hnoRoom
    · obtain ⟨i, hi, hslot⟩ := h.listed hfull d u hd
      exact ⟨i, hi, hkeep i hi _ hslot⟩
  · obtain ⟨hover, hdeep⟩ := Bool.or_eq_false_iff.1 hover
    obtain ⟨hover, hbare⟩ := Bool.or_eq_false_iff.1 hover
    obtain ⟨hlink, hbottom, hbounds⟩ := h.sized hover
    have hfits : w.io.stackSize top < 127 := not_le.1 (of_decide_eq_false hdeep)
    have hsize : schar (w.io.stackSize top + 1) = w.io.stackSize top + 1 := by
      have hpos := (hbounds top).1
      unfold schar
      rw [Int.emod_eq_of_lt (by omega) (by omega), if_pos (by omega)]
    have hne : top ≠ s := by
      obtain ⟨l, hl, hmem⟩ := h.stacked s
      exact fun heq => hother ⟨l, hl, hmem, heq ▸ hmem⟩
    rw [hsize]
    refine ⟨fun d u hd => ?_, fun b hb hloose => ?_, fun d => ?_⟩
    · change Function.update w.io.stackSize s (w.io.stackSize top + 1) u =
        Function.update w.io.stackSize s (w.io.stackSize top + 1) d + 1
      rcases hlinks d u hd with ⟨rfl, rfl⟩ | hd
      · rw [Function.update_self, Function.update_of_ne hne]
      · have hds : d ≠ s := fun heq => by simp [← heq, hd] at hbare
        have hus : u ≠ s := fun heq => hs d (heq ▸ hd)
        rw [Function.update_of_ne hus, Function.update_of_ne hds]
        exact hlink d u hd
    · have hbs : b ≠ s := fun heq => hb top (heq ▸ Function.update_self ..)
      refine (Function.update_of_ne hbs ..).trans (hbottom b (fun d hd => hb d ?_) hloose)
      have hdt : d ≠ top := fun heq => by simp [heq, htop] at hd
      exact (Function.update_of_ne hdt ..).trans hd
    · change 1 ≤ Function.update w.io.stackSize s (w.io.stackSize top + 1) d ∧
        Function.update w.io.stackSize s (w.io.stackSize top + 1) d ≤ 127
      by_cases hds : d = s
      · have hpos := (hbounds top).1
        rw [hds, Function.update_self]
        omega
      · rw [Function.update_of_ne hds]
        exact hbounds d

theorem detach_inv (h : StackInv w) (hstep : StackStep w (.detach legacy target) w') : StackInv w' := by
  obtain ⟨fuel, hstep⟩ := hstep
  obtain rfl := Option.some.inj hstep
  cases legacy with
  | true => exact h
  | false =>
    cases target with
    | none => exact h
    | some d =>
      have hlinks : ∀ x u, Function.update w.io.attachedDevice d none x = some u →
          x ≠ d ∧ w.io.attachedDevice x = some u := by
        intro x u hx
        by_cases hxd : x = d
        · rw [hxd, Function.update_self] at hx
          cases hx
        · rw [Function.update_of_ne hxd] at hx
          exact ⟨hxd, hx⟩
      cases hup : w.io.attachedDevice d with
      | none =>
        have hsame : Function.update w.io.attachedDevice d none = w.io.attachedDevice := by
          rw [← hup]
          exact Function.update_eq_self ..
        simpa only [ioDetachDevice, Option.bind_some, hup, hsame] using h
      | some u =>
        obtain ⟨hentries, hkeep⟩ := h.entries.detach hup
        simp only [ioDetachDevice, Option.bind_some, hup]
        refine ⟨h.stacked.cut d, hentries, fun hfull x y hx => ?_, fun hover => ?_⟩
        · obtain ⟨hxd, hx⟩ := hlinks x y hx
          obtain ⟨i, hi, hslot⟩ := h.listed hfull x y hx
          exact ⟨i, hi, hkeep i hi _ hslot fun heq => hxd (h.stacked.lower_unique hx
            (hup.trans (congrArg some heq.symm)))⟩
        · obtain ⟨hlink, hbottom, hbounds⟩ := h.sized hover
          refine ⟨fun x y hx => hlink x y (hlinks x y hx).2, fun b hb hloose => ?_, hbounds⟩
          obtain ⟨hbu, hloose⟩ := not_or.1 (mt List.mem_cons.2 hloose)
          refine hbottom b (fun x hx => hb x ?_) hloose
          have hxd : x ≠ d := by
            rintro rfl
            exact hbu (Option.some.inj (hx.symm.trans hup))
          exact (Function.update_of_ne hxd ..).trans hx

end Step

theorem stackReach_inv {w : StackWorld} (h : Reach StackStart StackStep Unattached w) : StackInv w := by
  apply h.invariant
  · exact fun w hw => stackInv_start hw
  · intro w op w' hw hguard hstep
    cases op with
    | attach legacy source target => exact attach_inv hw hguard hstep
    | detach legacy target => exact detach_inv hw hstep

/-- Sizes grow by one a device. -/
theorem stackSize_eq {w : StackWorld} (h : Sized w) {a b : List Nat} {d t : Nat}
    (hl : Leads w.io.attachedDevice (d :: a ++ t :: b)) :
    w.io.stackSize t = w.io.stackSize d + (a.length + 1) := by
  induction a generalizing d with
  | nil => exact h.link d t hl.1
  | cons u a ih =>
    have hlink := h.link d u hl.1
    have hrest := ih hl.2
    rw [List.length_cons]
    omega

/-- Every device is in one finite stack, whose top `IoGetAttachedDevice` returns; the table leads
down; and `StackSize` counts from the lowest device, which has 1 if it was never detached. -/
theorem device_stacks {w : StackWorld} (h : Reach StackStart StackStep Unattached w) :
    (∀ d, ∃ below above, Stack w.io.attachedDevice (below ++ d :: above) ∧
      ioGetAttachedDevice false (above.length + 1) w.io (some d) = some (d :: above).getLast? ∧
      (w.overloaded = false →
        1 + (below.length : Int) ≤ w.io.stackSize d ∧
        w.io.stackSize d = w.io.stackSize (below.headD d) + below.length ∧
        (below.headD d ∉ w.detached → w.io.stackSize d = 1 + below.length))) ∧
      (∀ u d, ioGetLowerDeviceObject false w.io u = some d → w.io.attachedDevice d = some u) ∧
      (w.full = false →
        ∀ u d, w.io.attachedDevice d = some u → ioGetLowerDeviceObject false w.io u = some d) ∧
      ∀ u d d', w.io.attachedDevice d = some u → w.io.attachedDevice d' = some u → d = d' := by
  obtain ⟨hstacked, hentries, hlisted, hsized⟩ := stackReach_inv h
  refine ⟨fun d => ?_, fun u d hlower => ?_, fun hfull u d hd => ?_,
    fun u d d' hd hd' => hstacked.lower_unique hd hd'⟩
  · obtain ⟨l, hl, hd⟩ := hstacked d
    obtain ⟨below, above, rfl⟩ := List.append_of_mem hd
    refine ⟨below, above, hl, ?_, fun hover => ?_⟩
    · change (ioTop w.io.attachedDevice (above.length + 1) d).map some = _
      rw [ioTop_of_leads hl.leads.of_append, List.getLast?_eq_some_getLast (List.cons_ne_nil d above)]
      rfl
    · have hs := hsized hover
      have hsize : w.io.stackSize d = w.io.stackSize (below.headD d) + below.length := by
        cases below with
        | nil => exact (add_zero _).symm
        | cons b below => exact stackSize_eq hs hl.leads
      refine ⟨?_, hsize, fun hloose => ?_⟩
      · have hpos := (hs.bounds (below.headD d)).1
        omega
      · obtain ⟨rest, hrest⟩ : ∃ rest, below ++ d :: above = below.headD d :: rest := by
          cases below with
          | nil => exact ⟨above, rfl⟩
          | cons b below => exact ⟨below ++ d :: above, rfl⟩
        rw [hsize, hs.bottom (below.headD d) (hrest ▸ hl).bottom hloose]
  · obtain ⟨i, hi, hslot⟩ := iostackGetLower_some hlower
    exact hentries.link i hi _ hslot
  · obtain ⟨i, hi, hslot⟩ := hlisted hfull d u hd
    exact hentries.getLower hi hslot

/-! ## What the conditions are for -/

/-- Devices nothing was done with. -/
def newDevices : StackWorld := ⟨⟨fun _ => none, fun _ => 1, fun _ => none⟩, [], false, false⟩

def attached (w : StackWorld) (source top : Nat) : StackWorld :=
  { io :=
      { attachedDevice := Function.update w.io.attachedDevice top (some source)
        stackSize := Function.update w.io.stackSize source (schar (w.io.stackSize top + 1))
        sLower := iostackSetLower w.io.sLower source top }
    detached := w.detached
    full := w.full || noRoom w.io.sLower source
    overloaded := w.overloaded || (w.io.attachedDevice source).isSome ||
      decide (127 ≤ w.io.stackSize top) }

section Runs

variable {guard : StackWorld → StackOp → Prop} {w : StackWorld} {source top : Nat}

theorem newDevices_start : StackStart newDevices :=
  ⟨fun _ => rfl, fun _ => rfl, fun _ => rfl, rfl, rfl, rfl⟩

theorem attached_step (htop : w.io.attachedDevice top = none) :
    StackStep w (.attach false (some source) (some top)) (attached w source top) := by
  refine ⟨1, ?_⟩
  unfold stackStep ioAttachDeviceToDeviceStack ioTop
  simp only [htop, Option.map_some]
  rfl

/-- One device on another. -/
theorem attached_reach (hne : source ≠ top) :
    Reach StackStart StackStep Unattached (attached newDevices source top) := by
  refine .step (a := .attach false (some source) (some top)) (.start newDevices_start)
    ⟨?_, fun d => ?_⟩ (attached_step rfl)
  · exact not_sameStack rfl (fun d => (Option.some_ne_none top).symm) hne
  · exact (Option.some_ne_none source).symm

theorem attached_other {d u : Nat} (hd : u ≠ source) :
    (attached newDevices source top).io.attachedDevice d ≠ some u := by
  change Function.update (fun _ => none) top (some source) d ≠ some u
  by_cases hdt : d = top
  · rw [hdt, Function.update_self]
    exact fun heq => hd (Option.some.inj heq).symm
  · rw [Function.update_of_ne hdt]
    exact (Option.some_ne_none u).symm

theorem device_stacks_two :
    ioGetLowerDeviceObject false (attached newDevices 2 1).io 2 = some 1 :=
  (device_stacks (attached_reach (by decide))).2.2.1 rfl 2 1 rfl

/-- A detached device keeps its size, one attached twice is above two devices, and one under
which a stack is slid has too few locations. -/
theorem stack_size_not_kept :
    (∃ w, Reach StackStart StackStep OtherStack w ∧ (∀ d, w.io.attachedDevice d ≠ some 2) ∧
      w.io.stackSize 2 = 2) ∧
    (∃ w, Reach StackStart StackStep OtherStack w ∧ w.io.attachedDevice 1 = some 3 ∧
      w.io.attachedDevice 2 = some 3) ∧
    ∃ w, Reach StackStart StackStep OtherStack w ∧ w.io.attachedDevice 1 = some 2 ∧
      w.io.attachedDevice 2 = some 3 ∧ w.io.stackSize 3 = 2 := by
  have hreach : ∀ s t, s ≠ t → Reach StackStart StackStep OtherStack (attached newDevices s t) :=
    fun s t hne => (attached_reach hne).mono fun _ _ hguard => hguard.1
  refine ⟨⟨_, .step (a := .detach false (some 1)) (hreach 2 1 (by decide)) trivial ⟨0, rfl⟩, ?_, rfl⟩,
    ⟨_, .step (a := .attach false (some 3) (some 2)) (hreach 3 1 (by decide)) ?_ (attached_step rfl),
      rfl, rfl⟩,
    _, .step (a := .attach false (some 2) (some 1)) (hreach 3 2 (by decide)) ?_ (attached_step rfl),
      rfl, rfl, rfl⟩
  · intro d
    change Function.update (Function.update (fun _ => none) 1 (some 2)) 1 none d ≠ some 2
    rw [Function.update_idem]
    by_cases hd : d = 1
    · rw [hd, Function.update_self]
      exact (Option.some_ne_none 2).symm
    · rw [Function.update_of_ne hd]
      exact (Option.some_ne_none 2).symm
  · exact not_sameStack rfl (fun d => attached_other (by decide)) (by decide)
  · exact not_sameStack rfl (fun d => attached_other (by decide)) (by decide)

end Runs

end MeuOS.Io
