import MeuOS.Ke.KInterrupt
import Mathlib.Data.List.Nodup

/-! Which interrupts reach which drivers. A history keeps, next to the tables, what every driver
asked for when it connected; the interrupts a vector delivers are those of the drivers connected to
it as long as no two of them share a vector or an input. -/
namespace MeuOS.Ke

open MeuOS.Lib

/-- What was asked for by a connect that returned success. -/
structure Connection where
  vector : Nat
  irql : Nat
  serviceRoutine : Nat
  serviceContext : Nat
  spinLock : InterruptLock
  deriving DecidableEq, Repr

/-- `live` holds the connections whose disconnect has not come yet. -/
structure InterruptHistory where
  sys : InterruptModel
  live : InterruptObject → Option Connection

/-- What drivers call. -/
inductive DriverCall
  | halGetInterruptVector (busInterruptLevel : Nat)
  | ioConnectInterrupt (out : Bool) (args : InterruptArgs)
  | ioDisconnectInterrupt (ki : Option InterruptObject)
  | keInitializeInterrupt (ki : Option InterruptObject) (args : InterruptArgs)
  | keConnectInterrupt (ki : Option InterruptObject)
  | keDisconnectInterrupt (ki : Option InterruptObject)
  deriving Repr

def InterruptArgs.connection (args : InterruptArgs) (o : InterruptObject) : Connection :=
  ⟨args.vector, args.dirql, args.serviceRoutine, args.serviceContext, args.lock o⟩

def KInterrupt.connection (ki : KInterrupt) : Connection :=
  ⟨ki.vector, ki.irql, ki.serviceRoutine, ki.serviceContext, ki.spinLock⟩

namespace InterruptHistory

def call (h : InterruptHistory) : DriverCall → InterruptHistory
  | .halGetInterruptVector level => { h with sys := (halGetInterruptVector level h.sys).2 }
  | .ioConnectInterrupt out args =>
    match ioConnectInterrupt out args h.sys with
    | (none, sys) => { h with sys }
    | (some o, sys) => { sys, live := Function.update h.live o (some (args.connection o)) }
  | .ioDisconnectInterrupt none => h
  | .ioDisconnectInterrupt (some o) =>
    { sys := ioDisconnectInterrupt (some o) h.sys, live := Function.update h.live o none }
  | .keInitializeInterrupt ki args => { h with sys := keInitializeInterrupt ki args h.sys }
  | .keConnectInterrupt none => h
  | .keConnectInterrupt (some o) =>
    { sys := (keConnectInterrupt (some o) h.sys).2
      live := Function.update h.live o (some (h.sys.object o).connection) }
  | .keDisconnectInterrupt none => h
  | .keDisconnectInterrupt (some o) =>
    { sys := (keDisconnectInterrupt (some o) h.sys).2, live := Function.update h.live o none }

/-- `o` is connected to `v`. -/
def ConnectedTo (h : InterruptHistory) (o : InterruptObject) (v : Nat) : Prop :=
  ∃ c ∈ h.live o, c.vector = v

/-- The routine of `o` with its own context, at its level and with its lock held. -/
def serve (h : InterruptHistory) (o : InterruptObject) : List ServiceAction :=
  match h.live o with
  | none => []
  | some c => [.raiseIrql c.irql, .acquire c.spinLock, .service c.serviceRoutine o c.serviceContext,
      .release c.spinLock, .lowerIrql]

/-- An interrupt runs the routines of the objects connected to its vector, each once. -/
def Serves (h : InterruptHistory) (v : Nat) : Prop :=
  ∃ os : List InterruptObject, os.Nodup ∧ (∀ o, o ∈ os ↔ h.ConnectedTo o v) ∧
    services h.sys v = os.flatMap h.serve

/-- An object is connected to `v`, which `HalGetInterruptVector` gave for input `e`. -/
def Driven (h : InterruptHistory) (e v : Nat) : Prop :=
  (∃ gsi ∈ h.sys.vecGsi v, gsi % 128 = e) ∧ ∃ o, h.ConnectedTo o v

/-- Keyboard and mouse have no interrupt objects; an input is open and sends any other vector
exactly while an object is connected to it. -/
def InputsFollow (h : InterruptHistory) : Prop :=
  ∀ regs ∈ h.sys.ioapic, ∀ e < 120, ∀ v, v ≠ apicVectorKbd → v ≠ apicVectorMouse →
    (Routed regs e v ↔ h.Driven e v)

end InterruptHistory

/-- The tables are empty, and no input but the keyboard's and the mouse's is open. -/
structure InterruptBoot (h : InterruptHistory) : Prop where
  live : ∀ o, h.live o = none
  table : ∀ v, h.sys.table v = none
  poolN : h.sys.poolN = 0
  vecGsi : ∀ v, h.sys.vecGsi v = none
  nextVec : h.sys.nextVec = 0x40
  masked : ∀ regs ∈ h.sys.ioapic, ∀ e < 120, ∀ v, Routed regs e v → v = apicVectorKbd ∨ v = apicVectorMouse

/-! ## Where drivers get in each other's way -/

/-- An object a driver can have a pointer to. -/
def InterruptModel.Allocated (s : InterruptModel) : InterruptObject → Prop
  | .pool i => i < s.poolN
  | .storage _ => True

/-- Input `e` is the one `HalGetInterruptVector` gave to `v`. -/
def InterruptModel.InputOf (s : InterruptModel) (e v : Nat) : Prop :=
  s.ioapic.isSome ∧ ∃ gsi ∈ s.vecGsi v, gsi % 128 = e

namespace InterruptHistory

/-- No object is connected to `v`. -/
def Unused (h : InterruptHistory) (v : Nat) : Prop := ∀ o, ¬ h.ConnectedTo o v

/-- No object is connected to a vector that the input of `gsi` belongs to. -/
def Quiet (h : InterruptHistory) (gsi : Nat) : Prop :=
  ∀ v, h.sys.InputOf (gsi % 128) v → h.Unused v

/-- The calls that get in nobody's way: `HalGetInterruptVector` hands out an input no connected
object uses; an object connects to a vector that reaches the dispatcher and that no other object
uses, alone on its input, and by `KeConnectInterrupt` only where there is no input to open; a
disconnect is of a connected object, by `KeDisconnectInterrupt` only where there is no input to
close, or closes nothing that is used. -/
def Alone (h : InterruptHistory) : DriverCall → Prop
  | .halGetInterruptVector level =>
    h.sys.nextVec ≤ 0x6F → h.sys.ioapic.isSome → h.Unused h.sys.nextVec ∧ h.Quiet (level % 256)
  | .ioConnectInterrupt out args =>
    (ioConnectInterrupt out args h.sys).1.isSome →
      Deliverable args.vector ∧ args.serviceRoutine ≠ 0 ∧ h.Unused args.vector ∧
        ∀ gsi ∈ h.sys.vecGsi args.vector, h.Quiet gsi
  | .ioDisconnectInterrupt (some o) =>
    h.sys.Allocated o ∧ ((h.live o).isNone →
      h.Unused ((h.sys.object o).vector % 256) ∧ ∀ gsi ∈ (h.sys.object o).gsi, h.Quiet gsi)
  | .keInitializeInterrupt (some o) _ => h.sys.Allocated o ∧ h.live o = none
  | .keConnectInterrupt (some o) =>
    h.sys.Allocated o ∧ ((h.live o).isNone →
      Deliverable (h.sys.object o).vector ∧ (h.sys.object o).serviceRoutine ≠ 0 ∧
        h.Unused (h.sys.object o).vector ∧
        (h.sys.ioapic.isSome → (h.sys.object o).gsi = none ∧ h.sys.vecGsi (h.sys.object o).vector = none))
  | .keDisconnectInterrupt (some o) =>
    h.sys.Allocated o ∧ ((h.live o).isSome → h.sys.ioapic.isSome →
        h.sys.vecGsi (h.sys.object o).vector = none) ∧
      ((h.live o).isNone → h.Unused ((h.sys.object o).vector % 256))
  | _ => True

/-! ## The invariant -/

/-- What was asked for is in the object. -/
structure Kept (h : InterruptHistory) (o : InterruptObject) (c : Connection) : Prop where
  fields : (h.sys.object o).connection = c
  connected : (h.sys.object o).connected = true
  routine : c.serviceRoutine ≠ 0
  deliverable : Deliverable c.vector
  allocated : h.sys.Allocated o

structure Consistent (h : InterruptHistory) : Prop where
  kept : ∀ o, ∀ c ∈ h.live o, h.Kept o c
  slot : ∀ v < 256, ∀ o, h.sys.table v = some o ↔ h.ConnectedTo o v
  gsi : h.sys.ioapic.isSome → ∀ o, ∀ c ∈ h.live o, (h.sys.object o).gsi = h.sys.vecGsi c.vector
  inputs : h.InputsFollow
  nextVec : 0x40 ≤ h.sys.nextVec ∧ h.sys.nextVec ≤ 0x70
  handedOut : ∀ v, ∀ gsi ∈ h.sys.vecGsi v, 0x40 ≤ v ∧ v < h.sys.nextVec

theorem consistent_boot {h : InterruptHistory} (hboot : InterruptBoot h) : h.Consistent where
  kept o c hc := by
    rw [hboot.live] at hc
    cases hc
  slot v _ o := by
    unfold ConnectedTo
    rw [hboot.table, hboot.live]
    simp
  gsi _ o c hc := by
    rw [hboot.live] at hc
    cases hc
  inputs regs hregs e he v hkbd hmouse := by
    have hclosed : ¬ Routed regs e v := fun hv => (hboot.masked regs hregs e he v hv).elim hkbd hmouse
    unfold Driven
    rw [hboot.vecGsi]
    simp [hclosed]
  nextVec := by
    rw [hboot.nextVec]
    decide
  handedOut v gsi hgsi := by
    rw [hboot.vecGsi] at hgsi
    cases hgsi

variable {h : InterruptHistory}

theorem Consistent.vector_lt (hc : h.Consistent) {o : InterruptObject} {v : Nat} (ho : h.ConnectedTo o v) :
    v < 256 := by
  obtain ⟨c, hlive, rfl⟩ := ho
  have := (hc.kept o c hlive).deliverable.2.1
  omega

theorem Consistent.vector_eq (hc : h.Consistent) {o : InterruptObject} {v : Nat} (ho : h.ConnectedTo o v) :
    (h.sys.object o).vector = v := by
  obtain ⟨c, hlive, rfl⟩ := ho
  exact congrArg Connection.vector (hc.kept o c hlive).fields

/-- A vector has one object. -/
theorem Consistent.connected_unique (hc : h.Consistent) {o o' : InterruptObject} {v : Nat}
    (ho : h.ConnectedTo o v) (ho' : h.ConnectedTo o' v) : o = o' := by
  have hv := hc.vector_lt ho
  exact Option.some.inj (((hc.slot v hv o).2 ho).symm.trans ((hc.slot v hv o').2 ho'))

theorem Consistent.serves (hc : h.Consistent) (v : Nat) : h.Serves v := by
  unfold Serves
  rw [services_eq]
  by_cases hconn : ∃ o, h.ConnectedTo o v
  · obtain ⟨o, ho⟩ := hconn
    have hv := hc.vector_lt ho
    have hslot := (hc.slot v hv o).2 ho
    refine ⟨[o], List.nodup_singleton o, fun o' => ?_, ?_⟩
    · rw [List.mem_singleton]
      exact ⟨fun heq => heq ▸ ho, fun ho' => hc.connected_unique ho' ho⟩
    · obtain ⟨c, hlive, rfl⟩ := ho
      have hkept := hc.kept o c hlive
      obtain rfl := hkept.fields
      have hroutine : (h.sys.object o).serviceRoutine ≠ 0 := hkept.routine
      rw [if_pos hkept.deliverable, List.flatMap_singleton]
      unfold keInterruptDispatch serve
      rw [if_neg (by omega), Nat.mod_eq_of_lt hv, hslot, hlive]
      simp only [hkept.connected, hroutine, Bool.not_true, Bool.false_eq_true, or_self, if_false,
        Option.getD_some]
      rfl
  · refine ⟨[], List.nodup_nil, fun o => ?_, ?_⟩
    · exact iff_of_false List.not_mem_nil fun ho => hconn ⟨o, ho⟩
    · by_cases hdeliv : Deliverable v
      · have hv : v < 256 := by
          have := hdeliv.2.1
          omega
        have hslot : h.sys.table v = none :=
          Option.eq_none_iff_forall_ne_some.2 fun o ho => hconn ⟨o, (hc.slot v hv o).1 ho⟩
        rw [if_pos hdeliv]
        unfold keInterruptDispatch
        rw [if_neg (by omega), Nat.mod_eq_of_lt hv, hslot]
        rfl
      · rw [if_neg hdeliv]
        rfl

/-! ## The calls -/

/-- The connections after those of one object changed. -/
theorem connectedTo_update {sys : InterruptModel} {o o' : InterruptObject} {x : Option Connection} {v : Nat} :
    ConnectedTo ⟨sys, Function.update h.live o x⟩ o' v ↔
      if o' = o then ∃ c ∈ x, c.vector = v else h.ConnectedTo o' v := by
  unfold ConnectedTo
  by_cases ho : o' = o
  · subst ho
    simp only [Function.update_self, if_true]
  · simp only [Function.update_of_ne ho, if_neg ho]

/-- An object of another vector or input neither adds to what drives `e` nor takes from it. -/
theorem driven_update {sys : InterruptModel} {o : InterruptObject} {x : Option Connection} {e v : Nat}
    (hvec : sys.vecGsi = h.sys.vecGsi)
    (hold : ∀ c ∈ h.live o, ∀ gsi ∈ h.sys.vecGsi c.vector, gsi % 128 ≠ e)
    (hnew : ∀ c ∈ x, ∀ gsi ∈ h.sys.vecGsi c.vector, gsi % 128 ≠ e) :
    Driven ⟨sys, Function.update h.live o x⟩ e v ↔ h.Driven e v := by
  unfold Driven
  simp only [connectedTo_update, hvec]
  constructor
  · rintro ⟨⟨gsi, hgsi, he⟩, o', ho'⟩
    refine ⟨⟨gsi, hgsi, he⟩, o', ?_⟩
    split_ifs at ho' with ho
    · obtain ⟨c, hc, rfl⟩ := ho'
      exact absurd he (hnew c hc gsi hgsi)
    · exact ho'
  · rintro ⟨⟨gsi, hgsi, he⟩, o', ho'⟩
    refine ⟨⟨gsi, hgsi, he⟩, o', ?_⟩
    rw [if_neg]
    · exact ho'
    · rintro rfl
      obtain ⟨c, hc, rfl⟩ := ho'
      exact hold c hc gsi hgsi he

theorem Consistent.inputs_keep (hc : h.Consistent) {h' : InterruptHistory}
    (hioapic : h'.sys.ioapic = h.sys.ioapic)
    (hdriven : h.sys.ioapic.isSome → ∀ e v, h'.Driven e v ↔ h.Driven e v) : h'.InputsFollow := by
  intro regs hregs e he v hkbd hmouse
  rw [hioapic] at hregs
  rw [hdriven (Option.isSome_of_mem hregs)]
  exact hc.inputs regs hregs e he v hkbd hmouse

/-- Programming an input changes what drives that input. -/
theorem Consistent.inputs_program (hc : h.Consistent) {h' : InterruptHistory} {gsi apicId : Nat}
    {masked : Bool} (vector : Nat) (hvector : vector < 256)
    (hioapic : h'.sys.ioapic = (ioapicSetIrqEx gsi vector apicId true true masked h.sys).ioapic)
    (hown : h.sys.ioapic.isSome → gsi % 128 < 120 → ∀ v,
      (vector = v ∧ masked = false) ↔ h'.Driven (gsi % 128) v)
    (hother : h.sys.ioapic.isSome → ∀ e ≠ gsi % 128, ∀ v, h'.Driven e v ↔ h.Driven e v) :
    h'.InputsFollow := by
  intro regs' hregs' e he v hkbd hmouse
  rw [hioapic] at hregs'
  obtain ⟨regs, hregs, rfl⟩ := Option.map_eq_some_iff.1 hregs'
  have hmapped : h.sys.ioapic.isSome := Option.isSome_of_mem hregs
  rw [routed_update he hvector]
  by_cases hentry : gsi % 128 = e
  · subst hentry
    rw [if_pos rfl]
    exact hown hmapped he v
  · rw [if_neg hentry, hother hmapped e (Ne.symm hentry)]
    exact hc.inputs regs hregs e he v hkbd hmouse

/-- Two connected vectors have two inputs. -/
theorem Consistent.driven_unique (hc : h.Consistent) {e v v' : Nat} (hmapped : h.sys.ioapic.isSome)
    (he : e < 120) (hv : h.Driven e v) (hv' : h.Driven e v') : v = v' := by
  obtain ⟨regs, hregs⟩ := Option.isSome_iff_exists.1 hmapped
  have hroute : ∀ w, h.Driven e w → regs (0x10 + e * 2) % 256 = w := by
    intro w hw
    obtain ⟨gsi, hgsi, -⟩ := hw.1
    have hrange := (hc.handedOut w gsi hgsi).1
    refine ((hc.inputs regs hregs e he w ?_ ?_).2 hw).1
    · unfold apicVectorKbd
      omega
    · unfold apicVectorMouse
      omega
  exact (hroute v hv).symm.trans (hroute v' hv')

/-- A connect: the object holds what was asked for, and nobody else has the vector. -/
theorem Consistent.connect (hc : h.Consistent) {sys : InterruptModel} {o : InterruptObject} {c : Connection}
    (hlive : ∀ c' ∈ h.live o, c' = c) (hdeliv : Deliverable c.vector) (hroutine : c.serviceRoutine ≠ 0)
    (halone : ∀ o' ≠ o, ¬ h.ConnectedTo o' c.vector) (hfields : (sys.object o).connection = c)
    (hon : (sys.object o).connected = true) (hobject : ∀ o' ≠ o, sys.object o' = h.sys.object o')
    (htable : sys.table = Function.update h.sys.table c.vector (some o)) (hvec : sys.vecGsi = h.sys.vecGsi)
    (hnext : sys.nextVec = h.sys.nextVec) (hself : sys.Allocated o)
    (halloc : ∀ o', h.sys.Allocated o' → sys.Allocated o')
    (hgsi : sys.ioapic.isSome → (sys.object o).gsi = h.sys.vecGsi c.vector)
    (hmapped : sys.ioapic.isSome → h.sys.ioapic.isSome)
    (hinputs : InputsFollow ⟨sys, Function.update h.live o (some c)⟩) :
    Consistent ⟨sys, Function.update h.live o (some c)⟩ where
  kept o' c' hc' := by
    change Function.update h.live o (some c) o' = some c' at hc'
    by_cases ho : o' = o
    · subst ho
      rw [Function.update_self] at hc'
      obtain rfl := Option.some.inj hc'
      exact ⟨hfields, hon, hroutine, hdeliv, hself⟩
    · have hold := hc.kept o' c' ((Function.update_of_ne ho _ _).symm.trans hc')
      exact ⟨(congrArg _ (hobject o' ho)).trans hold.fields,
        (congrArg _ (hobject o' ho)).trans hold.connected, hold.routine, hold.deliverable,
        halloc o' hold.allocated⟩
  slot v hv o' := by
    rw [connectedTo_update, htable]
    by_cases hvec : v = c.vector
    · subst hvec
      rw [Function.update_self]
      by_cases ho : o' = o
      · subst ho
        rw [if_pos rfl]
        exact iff_of_true rfl ⟨c, rfl, rfl⟩
      · rw [if_neg ho]
        exact iff_of_false (fun heq => ho (Option.some.inj heq).symm) (halone o' ho)
    · rw [Function.update_of_ne hvec, hc.slot v hv o']
      by_cases ho : o' = o
      · subst ho
        rw [if_pos rfl]
        refine iff_of_false ?_ ?_
        · rintro ⟨c', hc', rfl⟩
          exact hvec (congrArg Connection.vector (hlive c' hc'))
        · rintro ⟨c', hc', rfl⟩
          exact hvec (congrArg Connection.vector (Option.some.inj hc').symm)
      · rw [if_neg ho]
  gsi hsome o' c' hc' := by
    change Function.update h.live o (some c) o' = some c' at hc'
    by_cases ho : o' = o
    · subst ho
      rw [Function.update_self] at hc'
      obtain rfl := Option.some.inj hc'
      rw [hgsi hsome, hvec]
    · rw [hobject o' ho, hvec]
      exact hc.gsi (hmapped hsome) o' c' ((Function.update_of_ne ho _ _).symm.trans hc')
  inputs := hinputs
  nextVec := by
    rw [hnext]
    exact hc.nextVec
  handedOut v gsi hgsi := by
    rw [hvec] at hgsi
    rw [hnext]
    exact hc.handedOut v gsi hgsi

/-- A disconnect clears a slot that no other object has. -/
theorem Consistent.disconnect (hc : h.Consistent) {sys : InterruptModel} {o : InterruptObject}
    (halone : ∀ o' ≠ o, ¬ h.ConnectedTo o' ((h.sys.object o).vector % 256))
    (hobject : ∀ o' ≠ o, sys.object o' = h.sys.object o')
    (htable : sys.table = Function.update h.sys.table ((h.sys.object o).vector % 256) none)
    (hvec : sys.vecGsi = h.sys.vecGsi) (hnext : sys.nextVec = h.sys.nextVec)
    (halloc : ∀ o', h.sys.Allocated o' → sys.Allocated o')
    (hmapped : sys.ioapic.isSome → h.sys.ioapic.isSome)
    (hinputs : InputsFollow ⟨sys, Function.update h.live o none⟩) :
    Consistent ⟨sys, Function.update h.live o none⟩ := by
  have hother : ∀ o', ∀ c ∈ Function.update h.live o none o', o' ≠ o ∧ h.live o' = some c := by
    intro o' c hc'
    by_cases ho : o' = o
    · subst ho
      cases (Function.update_self _ _ _).symm.trans hc'
    · exact ⟨ho, (Function.update_of_ne ho _ _).symm.trans hc'⟩
  refine ⟨fun o' c hc' => ?_, fun v hv o' => ?_, fun hsome o' c hc' => ?_, hinputs, ?_, fun v gsi hgsi => ?_⟩
  · obtain ⟨ho, hlive⟩ := hother o' c hc'
    have hold := hc.kept o' c hlive
    exact ⟨(congrArg _ (hobject o' ho)).trans hold.fields,
      (congrArg _ (hobject o' ho)).trans hold.connected, hold.routine, hold.deliverable,
      halloc o' hold.allocated⟩
  · rw [connectedTo_update, htable]
    by_cases hslot : v = (h.sys.object o).vector % 256
    · subst hslot
      rw [Function.update_self]
      refine iff_of_false nofun ?_
      split_ifs with ho
      · rintro ⟨c, hc', -⟩
        cases hc'
      · exact halone o' ho
    · rw [Function.update_of_ne hslot, hc.slot v hv o']
      by_cases ho : o' = o
      · subst ho
        rw [if_pos rfl]
        refine iff_of_false (fun hconn => hslot ?_) ?_
        · rw [hc.vector_eq hconn, Nat.mod_eq_of_lt hv]
        · rintro ⟨c, hc', -⟩
          cases hc'
      · rw [if_neg ho]
  · obtain ⟨ho, hlive⟩ := hother o' c hc'
    rw [hobject o' ho, hvec]
    exact hc.gsi (hmapped hsome) o' c hlive
  · rw [hnext]
    exact hc.nextVec
  · rw [hvec] at hgsi
    rw [hnext]
    exact hc.handedOut v gsi hgsi

theorem Consistent.halGetInterruptVector (hc : h.Consistent) {level : Nat}
    (hguard : h.Alone (.halGetInterruptVector level)) :
    (h.call (.halGetInterruptVector level)).Consistent := by
  unfold call Ke.halGetInterruptVector allocVector
  by_cases hfull : 0x6F < h.sys.nextVec
  · rw [if_pos hfull]
    exact hc
  rw [if_neg hfull]
  have hfree : ∀ gsi, gsi ∉ h.sys.vecGsi h.sys.nextVec := fun gsi hgsi =>
    absurd (hc.handedOut _ gsi hgsi).2 (lt_irrefl _)
  have hguard' := hguard (not_lt.1 hfull)
  refine ⟨fun o c hlive => ?_, hc.slot, fun hsome o c hlive => ?_, ?_, ?_, fun v gsi hgsi => ?_⟩
  · have hold := hc.kept o c hlive
    exact ⟨hold.fields, hold.connected, hold.routine, hold.deliverable, hold.allocated⟩
  · have hmapped : h.sys.ioapic.isSome := (Option.isSome_map ..).symm.trans hsome
    have hne : c.vector ≠ h.sys.nextVec := fun heq => (hguard' hmapped).1 o ⟨c, hlive, heq⟩
    exact (hc.gsi hmapped o c hlive).trans (Function.update_of_ne hne _ _).symm
  · refine hc.inputs_program h.sys.nextVec (by omega) rfl (fun hmapped he v => ?_) fun hmapped e he v => ?_
    · refine iff_of_false (fun hboth => Bool.noConfusion hboth.2) ?_
      rintro ⟨⟨gsi, hgsi, hentry⟩, o, ho⟩
      by_cases hv : v = h.sys.nextVec
      · subst hv
        exact (hguard' hmapped).1 o ho
      · refine (hguard' hmapped).2 v ⟨hmapped, gsi, ?_, hentry⟩ o ho
        exact (Function.update_of_ne hv _ _).symm.trans hgsi
    · unfold Driven
      refine and_congr_left fun _ => ?_
      change (∃ gsi ∈ Function.update h.sys.vecGsi h.sys.nextVec (some (level % 256)) v, gsi % 128 = e) ↔ _
      by_cases hv : v = h.sys.nextVec
      · subst hv
        rw [Function.update_self]
        refine iff_of_false ?_ ?_
        · rintro ⟨gsi, ⟨⟩, hentry⟩
          exact he hentry.symm
        · rintro ⟨gsi, hgsi, -⟩
          exact hfree gsi hgsi
      · rw [Function.update_of_ne hv]
  · have hrange := hc.nextVec
    exact ⟨Nat.le_succ_of_le hrange.1, by change h.sys.nextVec + 1 ≤ 0x70; omega⟩
  · change 0x40 ≤ v ∧ v < h.sys.nextVec + 1
    by_cases hv : v = h.sys.nextVec
    · subst hv
      exact ⟨hc.nextVec.1, Nat.lt_succ_self _⟩
    · have hold := hc.handedOut v gsi ((Function.update_of_ne hv _ _).symm.trans hgsi)
      exact ⟨hold.1, Nat.lt_succ_of_lt hold.2⟩

theorem allocated_succ {s s' : InterruptModel} (hpool : s'.poolN = s.poolN + 1) (o : InterruptObject)
    (ho : s.Allocated o) : s'.Allocated o := by
  cases o with
  | pool i =>
    change i < s'.poolN
    rw [hpool]
    exact Nat.lt_succ_of_lt ho
  | storage a => trivial

theorem Consistent.ioConnectInterrupt (hc : h.Consistent) {out : Bool} {args : InterruptArgs}
    (hguard : h.Alone (.ioConnectInterrupt out args)) :
    (h.call (.ioConnectInterrupt out args)).Consistent := by
  simp only [Alone] at hguard
  simp only [call]
  generalize hcall : Ke.ioConnectInterrupt out args h.sys = r at hguard ⊢
  unfold Ke.ioConnectInterrupt at hcall
  by_cases hrefused : !out ∨ 255 < args.vector ∨ poolSize ≤ h.sys.poolN
  · rw [if_pos hrefused] at hcall
    subst hcall
    exact hc
  rw [if_neg hrefused] at hcall
  have hfresh : ∀ c, c ∉ h.live (.pool h.sys.poolN) := fun c hlive =>
    absurd (hc.kept _ c hlive).allocated (lt_irrefl _)
  have hvector : args.vector < 256 := by
    have := not_or.1 (not_or.1 hrefused).2
    omega
  cases hgsi : h.sys.vecGsi args.vector with
  | none =>
    rw [hgsi] at hcall
    subst hcall
    obtain ⟨hdeliv, hroutine, hunused, -⟩ := hguard rfl
    have hnone : ∀ c ∈ some (args.connection (.pool h.sys.poolN)), ∀ gsi, gsi ∉ h.sys.vecGsi c.vector := by
      rintro c ⟨⟩ gsi hg
      cases hgsi.symm.trans hg
    refine hc.connect (fun c hlive => absurd hlive (hfresh c)) hdeliv hroutine (fun o' _ => hunused o') ?_ ?_
      (fun o' ho => Function.update_of_ne ho _ _) rfl rfl rfl (Nat.lt_succ_self _) (allocated_succ rfl) ?_
      id (hc.inputs_keep rfl fun _ e v => driven_update rfl (fun c hlive => absurd hlive (hfresh c))
        fun c hc' gsi hg => absurd hg (hnone c hc' gsi))
    · exact (congrArg KInterrupt.connection (Function.update_self _ _ _)).trans rfl
    · exact (congrArg KInterrupt.connected (Function.update_self _ _ _)).trans rfl
    · intro _
      exact (congrArg KInterrupt.gsi (Function.update_self _ _ _)).trans hgsi.symm
  | some g =>
    rw [hgsi] at hcall
    subst hcall
    obtain ⟨hdeliv, hroutine, hunused, hquiet⟩ := hguard rfl
    have hg : g % 256 % 128 = g % 128 := Nat.mod_mod_of_dvd g (by decide)
    refine hc.connect (fun c hlive => absurd hlive (hfresh c)) hdeliv hroutine (fun o' _ => hunused o') ?_ ?_
      (fun o' ho => Function.update_of_ne ho _ _) rfl rfl rfl (Nat.lt_succ_self _) (allocated_succ rfl) ?_
      (fun hsome => (Option.isSome_map ..).symm.trans hsome)
      (hc.inputs_program (args.vector % 256) (Nat.mod_lt _ (by decide)) rfl
        (fun hmapped he v => ?_) fun hmapped e he v => ?_)
    · exact (congrArg KInterrupt.connection (Function.update_self _ _ _)).trans rfl
    · exact (congrArg KInterrupt.connected (Function.update_self _ _ _)).trans rfl
    · intro _
      exact (congrArg KInterrupt.gsi (Function.update_self _ _ _)).trans hgsi.symm
    · rw [Nat.mod_eq_of_lt hvector, hg, and_iff_left rfl]
      unfold Driven
      simp only [connectedTo_update]
      constructor
      · rintro rfl
        exact ⟨⟨g, hgsi, rfl⟩, .pool h.sys.poolN, by
          rw [if_pos rfl]
          exact ⟨_, rfl, rfl⟩⟩
      · rintro ⟨⟨gsi, hgsi', hentry⟩, o', ho'⟩
        split_ifs at ho' with ho
        · obtain ⟨c, hc', rfl⟩ := ho'
          cases hc'
          rfl
        · exact absurd ho' (hquiet g hgsi v ⟨hmapped, gsi, hgsi', hentry⟩ o')
    · refine driven_update rfl (fun c hlive => absurd hlive (hfresh c)) ?_
      rintro c ⟨⟩ gsi hg'
      obtain rfl := Option.some.inj (hgsi.symm.trans hg')
      rw [← hg]
      exact Ne.symm he

/-- The slot of an object that disconnects belongs to nobody else. -/
theorem Consistent.slot_alone (hc : h.Consistent) {o : InterruptObject}
    (hunused : (h.live o).isNone → h.Unused ((h.sys.object o).vector % 256)) :
    ∀ o' ≠ o, ¬ h.ConnectedTo o' ((h.sys.object o).vector % 256) := by
  intro o' hne ho'
  cases hlive : h.live o with
  | none => exact hunused (by rw [hlive]; rfl) o' ho'
  | some c =>
    have ho : h.ConnectedTo o c.vector := ⟨c, hlive, rfl⟩
    rw [hc.vector_eq ho, Nat.mod_eq_of_lt (hc.vector_lt ho)] at ho'
    exact hne (hc.connected_unique ho' ho)

theorem setConnected_of_ne {s : InterruptModel} {o o' : InterruptObject} (ho : o' ≠ o) (on : Bool) :
    (setConnected o on s).object o' = s.object o' :=
  Function.update_of_ne ho _ _

theorem Consistent.keDisconnectInterrupt (hc : h.Consistent) {o : InterruptObject}
    (hguard : h.Alone (.keDisconnectInterrupt (some o))) :
    (h.call (.keDisconnectInterrupt (some o))).Consistent := by
  obtain ⟨-, hinput, hunused⟩ := hguard
  refine hc.disconnect (hc.slot_alone hunused) (fun o' ho => setConnected_of_ne ho _) rfl rfl rfl
    (fun _ => id) id (hc.inputs_keep rfl fun hmapped e v => driven_update rfl (fun c hlive gsi hgsi => ?_) ?_)
  · have hnone := hinput (Option.isSome_of_mem hlive) hmapped
    rw [hc.vector_eq ⟨c, hlive, rfl⟩] at hnone
    cases hnone.symm.trans hgsi
  · rintro c ⟨⟩

theorem Consistent.ioDisconnectInterrupt (hc : h.Consistent) {o : InterruptObject}
    (hguard : h.Alone (.ioDisconnectInterrupt (some o))) :
    (h.call (.ioDisconnectInterrupt (some o))).Consistent := by
  obtain ⟨-, hfree⟩ := hguard
  have halone := hc.slot_alone fun hnone => (hfree hnone).1
  have hown : h.sys.ioapic.isSome → ∀ c ∈ h.live o, ∀ gsi ∈ h.sys.vecGsi c.vector, (h.sys.object o).gsi = some gsi :=
    fun hmapped c hlive gsi hgsi => (hc.gsi hmapped o c hlive).trans hgsi
  have hnew : ∀ e, ∀ c ∈ (none : Option Connection), ∀ gsi ∈ h.sys.vecGsi c.vector, gsi % 128 ≠ e := by
    rintro e c ⟨⟩
  simp only [call, Ke.ioDisconnectInterrupt]
  cases hgsi : (h.sys.object o).gsi with
  | none =>
    refine hc.disconnect halone (fun o' ho => setConnected_of_ne ho _) rfl rfl rfl (fun _ => id) id
      (hc.inputs_keep rfl fun hmapped e v => driven_update rfl (fun c hlive gsi hg => ?_) (hnew e))
    cases hgsi.symm.trans (hown hmapped c hlive gsi hg)
  | some g =>
    have hg : g % 256 % 128 = g % 128 := Nat.mod_mod_of_dvd g (by decide)
    refine hc.disconnect halone (fun o' ho => setConnected_of_ne ho _) rfl rfl rfl (fun _ => id)
      (fun hsome => (Option.isSome_map ..).symm.trans hsome)
      (hc.inputs_program ((h.sys.object o).vector % 256) (Nat.mod_lt _ (by decide)) rfl
        (fun hmapped he v => ?_) fun hmapped e he v => driven_update rfl (fun c hlive gsi hg' => ?_) (hnew e))
    · refine iff_of_false (fun hboth => Bool.noConfusion hboth.2) ?_
      rw [hg] at he ⊢
      rintro ⟨⟨gsi, hgsi', hentry⟩, o', ho'⟩
      rw [connectedTo_update] at ho'
      split_ifs at ho' with ho
      · obtain ⟨c, hnone, -⟩ := ho'
        cases hnone
      cases hlive : h.live o with
      | none =>
        exact (hfree (by rw [hlive]; rfl)).2 g hgsi v ⟨hmapped, gsi, hgsi', hentry⟩ o' ho'
      | some c =>
        have hconn : h.ConnectedTo o c.vector := ⟨c, hlive, rfl⟩
        have hdriven : h.Driven (g % 128) c.vector :=
          ⟨⟨g, (hc.gsi hmapped o c hlive).symm.trans hgsi, rfl⟩, o, hconn⟩
        obtain rfl := hc.driven_unique hmapped he ⟨⟨gsi, hgsi', hentry⟩, o', ho'⟩ hdriven
        exact ho (hc.connected_unique ho' hconn)
    · obtain rfl := Option.some.inj (hgsi.symm.trans (hown hmapped c hlive gsi hg'))
      rw [← hg]
      exact Ne.symm he

theorem Consistent.keInitializeInterrupt (hc : h.Consistent) {o : InterruptObject} {args : InterruptArgs}
    (hguard : h.Alone (.keInitializeInterrupt (some o) args)) :
    (h.call (.keInitializeInterrupt (some o) args)).Consistent := by
  obtain ⟨-, hdead⟩ := hguard
  have hobject : ∀ o', ∀ c ∈ h.live o', ∀ x, Function.update h.sys.object o x o' = h.sys.object o' := by
    intro o' c hlive x
    refine Function.update_of_ne ?_ _ _
    rintro rfl
    cases hdead.symm.trans hlive
  refine ⟨fun o' c hlive => ?_, hc.slot, fun hmapped o' c hlive => ?_, hc.inputs, hc.nextVec, hc.handedOut⟩
  · have hold := hc.kept o' c hlive
    exact ⟨(congrArg _ (hobject o' c hlive _)).trans hold.fields,
      (congrArg _ (hobject o' c hlive _)).trans hold.connected, hold.routine, hold.deliverable, hold.allocated⟩
  · exact (congrArg _ (hobject o' c hlive _)).trans (hc.gsi hmapped o' c hlive)

theorem Consistent.keConnectInterrupt (hc : h.Consistent) {o : InterruptObject}
    (hguard : h.Alone (.keConnectInterrupt (some o))) :
    (h.call (.keConnectInterrupt (some o))).Consistent := by
  obtain ⟨halloc, hfresh⟩ := hguard
  have hself : (setConnected o true h.sys).object o = { h.sys.object o with connected := true } :=
    Function.update_self _ _ _
  cases hlive : h.live o with
  | none =>
    obtain ⟨hdeliv, hroutine, hunused, hinput⟩ := hfresh (by rw [hlive]; rfl)
    have hindex : (h.sys.object o).vector % 256 = (h.sys.object o).vector :=
      Nat.mod_eq_of_lt (Nat.lt_succ_of_le hdeliv.2.1)
    refine hc.connect (fun c hc' => ?_) hdeliv hroutine (fun o' _ => hunused o')
      ((congrArg KInterrupt.connection hself).trans rfl) ((congrArg KInterrupt.connected hself).trans rfl)
      (fun o' ho => setConnected_of_ne ho _) ?_ rfl rfl halloc (fun _ => id) (fun hmapped => ?_) id
      (hc.inputs_keep rfl fun hmapped e v => driven_update rfl (fun c hc' => ?_) fun c hc' gsi hgsi => ?_)
    · cases hlive.symm.trans hc'
    · exact congrArg (fun v => Function.update h.sys.table v (some o)) hindex
    · obtain ⟨hobject, hvec⟩ := hinput hmapped
      exact (congrArg KInterrupt.gsi hself).trans (hobject.trans hvec.symm)
    · cases hlive.symm.trans hc'
    · obtain rfl := Option.some.inj hc'
      cases (hinput hmapped).2.symm.trans hgsi
  | some c =>
    -- the object is connected already
    have hkept := hc.kept o c hlive
    obtain rfl := hkept.fields
    have hconn : h.ConnectedTo o (h.sys.object o).vector := ⟨_, hlive, rfl⟩
    have hindex : (h.sys.object o).vector % 256 = (h.sys.object o).vector :=
      Nat.mod_eq_of_lt (hc.vector_lt hconn)
    refine hc.connect (fun c hc' => Option.some.inj (hc'.symm.trans hlive)) hkept.deliverable hkept.routine
      (fun o' hne ho' => hne (hc.connected_unique ho' hconn))
      ((congrArg KInterrupt.connection hself).trans rfl) ((congrArg KInterrupt.connected hself).trans rfl)
      (fun o' ho => setConnected_of_ne ho _) ?_ rfl rfl halloc (fun _ => id)
      (fun hmapped => (congrArg KInterrupt.gsi hself).trans (hc.gsi hmapped o _ hlive)) id
      (hc.inputs_keep rfl fun _ e v => ?_)
    · exact congrArg (fun v => Function.update h.sys.table v (some o)) hindex
    · rw [← hlive, Function.update_eq_self]
      rfl

theorem Consistent.call (hc : h.Consistent) {a : DriverCall} (hguard : h.Alone a) : (h.call a).Consistent := by
  cases a with
  | halGetInterruptVector level => exact hc.halGetInterruptVector hguard
  | ioConnectInterrupt out args => exact hc.ioConnectInterrupt hguard
  | ioDisconnectInterrupt ki =>
    cases ki with
    | none => exact hc
    | some o => exact hc.ioDisconnectInterrupt hguard
  | keInitializeInterrupt ki args =>
    cases ki with
    | none => exact hc
    | some o => exact hc.keInitializeInterrupt hguard
  | keConnectInterrupt ki =>
    cases ki with
    | none => exact hc
    | some o => exact hc.keConnectInterrupt hguard
  | keDisconnectInterrupt ki =>
    cases ki with
    | none => exact hc
    | some o => exact hc.keDisconnectInterrupt hguard

end InterruptHistory

/-! ## Runs -/

/-- What every state should be like. -/
def InterruptHistory.Delivers (h : InterruptHistory) : Prop := (∀ v, h.Serves v) ∧ h.InputsFollow

def driverStep (h : InterruptHistory) (a : DriverCall) (h' : InterruptHistory) : Prop := h' = h.call a

/-- Every interrupt reaches the drivers connected to it, where no call gets in another's way. -/
theorem interrupts_delivered {h : InterruptHistory}
    (hreach : Reach InterruptBoot driverStep InterruptHistory.Alone h) : h.Delivers := by
  have hc : h.Consistent := by
    refine hreach.invariant (fun _ hboot => InterruptHistory.consistent_boot hboot) ?_
    rintro s a _ hs hguard rfl
    exact hs.call hguard
  exact ⟨hc.serves, hc.inputs⟩

/-- After `apic_init`: only the keyboard and the mouse are open. -/
def apicRegs : Nat → Nat := fun r =>
  if r = 0x12 then apicVectorKbd else if r = 0x28 then apicVectorMouse else 2 ^ 16

def bootHistory : InterruptHistory where
  sys :=
    { object := fun o => ⟨0, 0, .actual o, 0, 0, 0, none, false⟩
      table := fun _ => none
      poolN := 0
      vecGsi := fun _ => none
      nextVec := 0x40
      ioapic := some apicRegs
      bspId := 0 }
  live := fun _ => none

theorem bootHistory_boot : InterruptBoot bootHistory where
  live _ := rfl
  table _ := rfl
  poolN := rfl
  vecGsi _ := rfl
  nextVec := rfl
  masked := by
    rintro _ ⟨⟩ e he v ⟨hvector, hopen⟩
    unfold apicRegs at hvector hopen
    split_ifs at hvector hopen with hkbd hmouse
    · exact .inl hvector.symm
    · exact .inr hvector.symm
    · cases hopen.symm.trans (show (2 ^ 16).testBit 16 = true by decide)

/-- A driver's request for a vector, at device level, with a lock of its own object. -/
def serviceArgs (routine context vector : Nat) : InterruptArgs := ⟨routine, context, none, vector, 0, 0⟩

namespace InterruptHistory

theorem unused_update {h : InterruptHistory} {sys : InterruptModel} {o : InterruptObject} {x : Option Connection}
    {v : Nat} (hx : ∀ c ∈ x, c.vector ≠ v) (hunused : h.Unused v) :
    Unused ⟨sys, Function.update h.live o x⟩ v := by
  intro o' ho'
  rw [connectedTo_update] at ho'
  split_ifs at ho' with ho
  · obtain ⟨c, hc, hv⟩ := ho'
    exact hx c hc hv
  · exact hunused o' ho'

/-- One driver is given vector 0x40 for input 11, the other one connects to vector 0x70. -/
def twoDrivers : InterruptHistory :=
  ((bootHistory.call (.halGetInterruptVector 11)).call (.ioConnectInterrupt true (serviceArgs 1 0xA 0x40))).call
    (.ioConnectInterrupt true (serviceArgs 2 0xB 0x70))

/-- Both drivers ask for vector 0x70, and the first one disconnects. -/
def sharedVector : InterruptHistory :=
  ((bootHistory.call (.ioConnectInterrupt true (serviceArgs 1 0xA 0x70))).call
    (.ioConnectInterrupt true (serviceArgs 2 0xB 0x70))).call (.ioDisconnectInterrupt (some (.pool 0)))

end InterruptHistory

theorem interrupts_delivered_two : InterruptHistory.twoDrivers.Delivers := by
  have hunused : ∀ v, bootHistory.Unused v := by
    rintro v o ⟨c, ⟨⟩, -⟩
  refine interrupts_delivered (.step (.step (.step (.start bootHistory_boot) ?_ rfl) ?_ rfl) ?_ rfl)
  · exact fun _ _ => ⟨hunused _, fun v _ => hunused v⟩
  · exact fun _ => ⟨by decide, by decide, hunused _, fun _ _ v _ => hunused v⟩
  · refine fun _ => ⟨by decide, by decide, ?_, ?_⟩
    · refine InterruptHistory.unused_update ?_ (hunused _)
      rintro c ⟨⟩
      decide
    · rintro gsi hgsi
      cases hgsi

theorem interrupts_not_shared :
    ¬ ∀ h, Reach InterruptBoot driverStep (fun _ _ => True) h → h.Delivers := by
  intro hall
  have hreach : Reach InterruptBoot driverStep (fun _ _ => True) InterruptHistory.sharedVector :=
    .step (.step (.step (.start bootHistory_boot) trivial rfl) trivial rfl) trivial rfl
  obtain ⟨os, -, hmem, hserves⟩ := (hall _ hreach).1 0x70
  have hsecond : InterruptObject.pool 1 ∈ os := (hmem _).2 ⟨_, rfl, rfl⟩
  have hnone : services InterruptHistory.sharedVector.sys 0x70 = [] := by decide
  rw [hnone] at hserves
  have hempty := List.flatMap_eq_nil_iff.1 hserves.symm _ hsecond
  cases hempty

end MeuOS.Ke
