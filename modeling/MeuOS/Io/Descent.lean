import MeuOS.Io.Irp
import Mathlib.Data.List.Basic

/-! The way of an IRP down a stack of drivers. The stack becomes a list of frames, lowest
first: what each location in use holds, and whether its own driver put it there. -/
namespace MeuOS.Io

open MeuOS.Lib

/-- A stack location in use: its routine, the device of the level above it, and whether
that level registered the routine itself. -/
structure Frame where
  control : Nat
  routine : Nat
  context : Nat
  above : Nat
  own : Bool

def Frame.ofRegistration (r : Registration) (device : Nat) : Frame :=
  ⟨r.control, r.routine, r.context, device, true⟩

def Frame.fires (f : Frame) (status : Int) (cancel : Bool) : Bool :=
  invokes status cancel f.control && f.routine != 0

def Frame.invocation (f : Frame) : Event := .invoke f.routine f.above f.context

/-- The frames, lowest first, after one more level. -/
def Choice.push (device : Nat) (fs : List Frame) : Choice → List Frame
  | .copy => (fs.head?.map fun f => { f with above := device, own := false }).toList ++ fs
  | .copySet r => Frame.ofRegistration r device :: fs
  | .skip => fs

def pushLevels (fs : List Frame) (ls : List Level) : List Frame :=
  ls.foldl (fun fs l => l.choice.push l.device fs) fs

def topFrame (originator : Option Registration) : Frame :=
  match originator with
  | some r => Frame.ofRegistration r 0
  | none => ⟨0, 0, 0, 0, false⟩

def Request.frames (q : Request) : List Frame := pushLevels [topFrame q.originator] q.levels

/-- What the walk does on the frames from location `i` up. -/
def frameEvents (status : Int) (cancel : Bool) : Nat → List Frame → List Event
  | _, [] => []
  | i, f :: fs =>
      .visit i :: (if f.fires status cancel = true then [f.invocation] else []) ++
        frameEvents status cancel (i + 1) fs

theorem frameEvents_append (status : Int) (cancel : Bool) (i : Nat) (fs gs : List Frame) :
    frameEvents status cancel i (fs ++ gs) =
      frameEvents status cancel i fs ++ frameEvents status cancel (i + fs.length) gs := by
  induction fs generalizing i with
  | nil => rfl
  | cons f fs ih =>
    simp only [List.cons_append, frameEvents, ih, List.length_cons, List.append_assoc]
    rw [Nat.add_right_comm, Nat.add_assoc]

theorem invokeBits_test : ∀ s e c : Bool,
    (invokeBits s e c &&& slInvokeOnSuccess != 0) = s ∧
    (invokeBits s e c &&& slInvokeOnError != 0) = e ∧
    (invokeBits s e c &&& slInvokeOnCancel != 0) = c := by
  decide

theorem ofRegistration_fires (r : Registration) (device : Nat) (status : Int) (cancel : Bool) :
    (Frame.ofRegistration r device).fires status cancel = r.fires status cancel := by
  obtain ⟨hs, he, hc⟩ := invokeBits_test r.onSuccess r.onError r.onCancel
  simp only [Frame.fires, Frame.ofRegistration, Registration.fires, invokes, Registration.control,
    hs, he, hc]
  exact Bool.and_comm ..

/-! ## The way down -/

/-- The locations from `i` up hold the frames. -/
def Holds (locations : Nat → StackLocation) : Nat → List Frame → Prop
  | _, [] => True
  | i, f :: fs => (locations i).control = f.control ∧ (locations i).completionRoutine = f.routine ∧
      (locations i).context = f.context ∧
      (if fs = [] then f.above = 0 else (locations (i + 1)).deviceObject = f.above) ∧
      Holds locations (i + 1) fs

theorem Holds.cons {locations : Nat → StackLocation} {i j : Nat} {f : Frame} {fs : List Frame}
    (hj : i + 1 = j) (hfs : fs ≠ []) (hcontrol : (locations i).control = f.control)
    (hroutine : (locations i).completionRoutine = f.routine)
    (hcontext : (locations i).context = f.context)
    (habove : (locations j).deviceObject = f.above) (hrest : Holds locations j fs) :
    Holds locations i (f :: fs) := by
  subst hj
  exact ⟨hcontrol, hroutine, hcontext, by rwa [if_neg hfs], hrest⟩

theorem Holds.congr {locations locations' : Nat → StackLocation} {i : Nat} {fs : List Frame}
    (h : Holds locations i fs) (hsame : ∀ j, i < j → locations' j = locations j)
    (hhead : (locations' i).control = (locations i).control ∧
      (locations' i).completionRoutine = (locations i).completionRoutine ∧
      (locations' i).context = (locations i).context) : Holds locations' i fs := by
  induction fs generalizing i with
  | nil => trivial
  | cons f fs ih =>
    obtain ⟨hc, hr, hx, hdev, hrest⟩ := h
    have hnext := hsame (i + 1) (Nat.lt_succ_self i)
    refine ⟨hhead.1.trans hc, hhead.2.1.trans hr, hhead.2.2.trans hx, ?_, ?_⟩
    · rwa [hnext]
    · exact ih hrest (fun j hj => hsame j (by omega)) (by simp [hnext])

theorem holds_above {locations locations' : Nat → StackLocation} {i : Nat} {fs : List Frame}
    (h : Holds locations i fs) (hsame : ∀ j, i ≤ j → locations' j = locations j) :
    Holds locations' i fs :=
  h.congr (fun j hj => hsame j (Nat.le_of_lt hj)) (by simp [hsame i (Nat.le_refl i)])

/-- An IRP on its way through the drivers. `current` ties the counter to the pointer. -/
structure Stacked (irp : Irp) (sc : Nat) (q : Request) : Prop where
  stackCount : irp.stackCount = schar sc
  allocated : irp.allocated = sc + 1
  current : irp.currentLocation = schar (irp.currentStackLocation + 1)
  userIosb : irp.userIosb = q.userIosb
  userEvent : irp.userEvent = q.userEvent

/-- Ready for the next `IoCallDriver`: the location below the current one is filled in. -/
structure Ready (irp : Irp) (sc : Nat) (q : Request) (fs : List Frame) : Prop
    extends Stacked irp sc q where
  depth : irp.currentStackLocation + fs.length = sc + 1
  holds : Holds irp.locations (irp.currentStackLocation - 1) fs

/-- Inside the dispatch of `device`. -/
structure Called (irp : Irp) (sc : Nat) (q : Request) (fs : List Frame) (device : Nat) : Prop
    extends Stacked irp sc q where
  depth : irp.currentStackLocation + fs.length = sc
  holds : Holds irp.locations irp.currentStackLocation fs
  device_eq : (irp.locations irp.currentStackLocation).deviceObject = device

theorem ioCallDriver_eq {irp : Irp} (h : irp.currentStackLocation ≠ 0) (device : Nat) :
    ioCallDriver irp device = some
      { irp with
        currentLocation := schar (irp.currentLocation - 1)
        currentStackLocation := irp.currentStackLocation - 1
        locations := Function.update irp.locations (irp.currentStackLocation - 1)
          { irp.locations (irp.currentStackLocation - 1) with deviceObject := device } } := by
  unfold ioCallDriver ioSetNextIrpStackLocation
  rw [if_neg h]
  rfl

theorem copy_eq {irp : Irp} (h : irp.currentStackLocation ≠ 0) :
    Choice.copy.apply irp = some
      { irp with locations := Function.update irp.locations (irp.currentStackLocation - 1)
                   (irp.locations irp.currentStackLocation) } :=
  if_neg h

theorem copySet_eq {irp : Irp} (h : irp.currentStackLocation ≠ 0) (r : Registration) :
    (Choice.copySet r).apply irp = some
      { irp with
        locations := Function.update irp.locations (irp.currentStackLocation - 1)
          ⟨r.control, (irp.locations irp.currentStackLocation).deviceObject, r.routine, r.context⟩ } := by
  unfold Choice.apply ioCopyCurrentIrpStackLocationToNext ioSetCompletionRoutine
  simp [h, Irp.setLocation]

theorem Ready.call {irp : Irp} {sc : Nat} {q : Request} {fs : List Frame} (h : Ready irp sc q fs)
    (device : Nat) (hfit : fs.length ≤ sc) :
    ∃ irp', ioCallDriver irp device = some irp' ∧ Called irp' sc q fs device := by
  have hdepth := h.depth
  have hpos : irp.currentStackLocation ≠ 0 := by omega
  refine ⟨_, ioCallDriver_eq hpos device,
    ⟨h.stackCount, h.allocated, ?_, h.userIosb, h.userEvent⟩, ?_, ?_, ?_⟩
  · have hcast : (irp.currentStackLocation : Int) + 1 + -1 =
        (irp.currentStackLocation - 1 : Nat) + 1 := by omega
    simp only [h.current, sub_eq_add_neg, schar_schar_add, hcast]
  · simp only
    omega
  · apply h.holds.congr
    · intro j hj
      exact Function.update_of_ne (by omega) ..
    · simp
  · simp

theorem Called.push {irp : Irp} {sc : Nat} {q : Request} {fs : List Frame} {device : Nat}
    (h : Called irp sc q fs device) (hfs : fs ≠ []) (c : Choice)
    (hfit : (c.push device fs).length ≤ sc) :
    ∃ irp', c.apply irp = some irp' ∧ Ready irp' sc q (c.push device fs) := by
  have hdepth := h.depth
  obtain ⟨f, gs, rfl⟩ := List.exists_cons_of_ne_nil hfs
  cases c with
  | skip =>
    refine ⟨_, rfl, ⟨h.stackCount, h.allocated, ?_, h.userIosb, h.userEvent⟩, ?_, h.holds⟩
    · simp only [ioSkipCurrentIrpStackLocation, h.current, schar_schar_add]
      rfl
    · simp only [ioSkipCurrentIrpStackLocation, Choice.push]
      omega
  | copy =>
    simp only [Choice.push, List.head?_cons, Option.map_some, Option.toList_some,
      List.singleton_append, List.length_cons] at hfit hdepth ⊢
    have hpos : irp.currentStackLocation ≠ 0 := by omega
    have hlow : irp.currentStackLocation - 1 + 1 = irp.currentStackLocation := by omega
    refine ⟨_, copy_eq hpos,
      ⟨h.stackCount, h.allocated, h.current, h.userIosb, h.userEvent⟩, ?_, ?_⟩
    · simp only [List.length_cons]
      omega
    · obtain ⟨hc, hr, hx, -, -⟩ := h.holds
      have hother : ∀ j, irp.currentStackLocation ≤ j →
          Function.update irp.locations (irp.currentStackLocation - 1)
            (irp.locations irp.currentStackLocation) j = irp.locations j := by
        intro j hj
        exact Function.update_of_ne (by omega) ..
      apply Holds.cons hlow (List.cons_ne_nil f gs)
      · simpa using hc
      · simpa using hr
      · simpa using hx
      · exact (congrArg _ (hother _ (Nat.le_refl _))).trans h.device_eq
      · exact holds_above h.holds hother
  | copySet r =>
    simp only [Choice.push, List.length_cons] at hfit hdepth ⊢
    have hpos : irp.currentStackLocation ≠ 0 := by omega
    have hlow : irp.currentStackLocation - 1 + 1 = irp.currentStackLocation := by omega
    refine ⟨_, copySet_eq hpos r,
      ⟨h.stackCount, h.allocated, h.current, h.userIosb, h.userEvent⟩, ?_, ?_⟩
    · simp only [List.length_cons]
      omega
    · have hother : ∀ j, irp.currentStackLocation ≤ j →
          Function.update irp.locations (irp.currentStackLocation - 1)
            ⟨r.control, (irp.locations irp.currentStackLocation).deviceObject, r.routine,
              r.context⟩ j = irp.locations j := by
        intro j hj
        exact Function.update_of_ne (by omega) ..
      apply Holds.cons hlow (List.cons_ne_nil f gs)
      · simp [Frame.ofRegistration]
      · simp [Frame.ofRegistration]
      · simp [Frame.ofRegistration]
      · exact (congrArg _ (hother _ (Nat.le_refl _))).trans h.device_eq
      · exact holds_above h.holds hother

theorem push_ne_nil {fs : List Frame} (h : fs ≠ []) (device : Nat) (c : Choice) :
    c.push device fs ≠ [] := by
  cases c <;> simp [Choice.push, h]

theorem push_length {fs : List Frame} (h : fs ≠ []) (l : Level) :
    (l.choice.push l.device fs).length = fs.length + if l.usesLocation = true then 1 else 0 := by
  obtain ⟨f, gs, rfl⟩ := List.exists_cons_of_ne_nil h
  unfold Level.usesLocation
  cases l.choice <;> simp [Choice.push]

theorem pushLevels_length {fs : List Frame} (h : fs ≠ []) (ls : List Level) :
    (pushLevels fs ls).length = fs.length + (ls.filter Level.usesLocation).length := by
  induction ls generalizing fs with
  | nil => rfl
  | cons l ls ih =>
    rw [pushLevels, List.foldl_cons, ← pushLevels, ih (push_ne_nil h l.device l.choice),
      push_length h, List.filter_cons]
    split
    · simp only [List.length_cons]
      omega
    · omega

/-- The drivers hand the IRP down; every level finds its location. -/
theorem Ready.descend {irp : Irp} {sc : Nat} {q : Request} {fs : List Frame} (h : Ready irp sc q fs)
    (hfs : fs ≠ []) (bottom : Nat) (ls : List Level) (hfit : (pushLevels fs ls).length ≤ sc) :
    ∃ irp', Io.descend bottom irp ls = some irp' ∧ Called irp' sc q (pushLevels fs ls) bottom := by
  induction ls generalizing irp fs with
  | nil => exact h.call bottom hfit
  | cons l ls ih =>
    have hlen := pushLevels_length hfs (l :: ls)
    have hpush := pushLevels_length (push_ne_nil hfs l.device l.choice) ls
    have hstep : pushLevels fs (l :: ls) = pushLevels (l.choice.push l.device fs) ls := rfl
    rw [hstep] at hfit hlen ⊢
    obtain ⟨irp₁, hcall, hcalled⟩ := h.call l.device (by omega)
    obtain ⟨irp₂, hchoice, hready⟩ := hcalled.push hfs l.choice (by omega)
    obtain ⟨irp₃, hrest, hdone⟩ := ih hready (push_ne_nil hfs l.device l.choice) hfit
    exact ⟨irp₃, by rw [Io.descend, hcall, Option.bind_some, hchoice, Option.bind_some, hrest], hdone⟩

theorem ioAllocIrp_ready (q : Request) :
    Ready (ioAllocIrp q.stackSize q.userIosb q.userEvent) q.stackCount q [topFrame none] := by
  have hsc : (if q.stackSize = 0 then 1 else q.stackSize) = q.stackCount := by rfl
  unfold ioAllocIrp
  simp only [hsc]
  refine ⟨⟨by simp only, by simp only, by simp only, by simp only, by simp only⟩, by simp only; rfl, ?_⟩
  simp [Holds, topFrame]

theorem Request.start_ready (q : Request) :
    ∃ irp, q.start = some irp ∧ Ready irp q.stackCount q [topFrame q.originator] := by
  have hready := ioAllocIrp_ready q
  have hpos : q.stackCount ≠ 0 := by
    unfold Request.stackCount
    split <;> omega
  unfold Request.start
  generalize ioAllocIrp q.stackSize q.userIosb q.userEvent = irp at hready
  cases q.originator with
  | none => exact ⟨_, rfl, hready⟩
  | some r =>
    have hcsl : irp.currentStackLocation ≠ 0 := by
      have hdepth := hready.depth
      simp only [List.length_singleton] at hdepth
      omega
    refine ⟨_, if_neg hcsl, ⟨hready.stackCount, hready.allocated, hready.current, hready.userIosb,
      hready.userEvent⟩, hready.depth, ?_⟩
    simp [Holds, topFrame, Frame.ofRegistration, Irp.setLocation]

end MeuOS.Io
