import MeuOS.Lib.Mem

/-! IRPs and their stack locations. The locations are an array behind the IRP; the
pointer `Tail.CurrentStackLocation` is modelled by its index in that array and the
`signed char` counters by `schar`. An access outside the array is `none`. What a
driver's dispatch does is a choice per level, what its completion routine returns an
argument of the walk. -/
namespace MeuOS.Io

open MeuOS.Lib

def slPendingReturned : Nat := 0x01
def slInvokeOnCancel : Nat := 0x20
def slInvokeOnSuccess : Nat := 0x40
def slInvokeOnError : Nat := 0x80

/-- `IO_STACK_LOCATION`, less the parameters of the request. -/
structure StackLocation where
  control : Nat
  deviceObject : Nat
  completionRoutine : Nat
  context : Nat
  deriving DecidableEq, Repr

structure Irp where
  stackCount : Int
  currentLocation : Int
  currentStackLocation : Nat
  /-- Number of stack locations allocated behind the IRP. -/
  allocated : Nat
  locations : Nat → StackLocation
  status : Int
  cancel : Bool
  pendingReturned : Nat
  userIosb : Nat
  userEvent : Nat

def ntSuccess (status : Int) : Bool := 0 ≤ status

/-- `io_alloc_irp`, its `kmalloc` having succeeded. -/
def ioAllocIrp (stackCount userIosb userEvent : Nat) : Irp :=
  let sc := if stackCount = 0 then 1 else stackCount
  { stackCount := schar sc
    currentLocation := schar (sc + 1)
    currentStackLocation := sc
    allocated := sc + 1
    locations := fun _ => ⟨0, 0, 0, 0⟩
    status := 0
    cancel := false
    pendingReturned := 0
    userIosb := userIosb
    userEvent := userEvent }

def Irp.setLocation (irp : Irp) (i : Nat) (l : StackLocation) : Irp :=
  { irp with locations := Function.update irp.locations i l }

def ioSkipCurrentIrpStackLocation (irp : Irp) : Irp :=
  { irp with currentLocation := schar (irp.currentLocation + 1)
             currentStackLocation := irp.currentStackLocation + 1 }

/-- `IoSetNextIrpStackLocation`; there is nothing below the first location. -/
def ioSetNextIrpStackLocation (irp : Irp) : Option Irp :=
  if irp.currentStackLocation = 0 then none
  else some { irp with currentLocation := schar (irp.currentLocation - 1)
                       currentStackLocation := irp.currentStackLocation - 1 }

def ioCopyCurrentIrpStackLocationToNext (irp : Irp) : Option Irp :=
  if irp.currentStackLocation = 0 then none
  else some (irp.setLocation (irp.currentStackLocation - 1)
    (irp.locations irp.currentStackLocation))

/-- The arguments of `IoSetCompletionRoutine`. -/
structure Registration where
  routine : Nat
  context : Nat
  onSuccess : Bool
  onError : Bool
  onCancel : Bool
  deriving DecidableEq, Repr

/-- The `Control` byte that asks for the given outcomes. -/
def invokeBits (onSuccess onError onCancel : Bool) : Nat :=
  let c := 0
  let c := if onSuccess then c ||| slInvokeOnSuccess else c
  let c := if onError then c ||| slInvokeOnError else c
  if onCancel then c ||| slInvokeOnCancel else c

def Registration.control (r : Registration) : Nat := invokeBits r.onSuccess r.onError r.onCancel

def ioSetCompletionRoutine (irp : Irp) (r : Registration) : Option Irp :=
  if irp.currentStackLocation = 0 then none
  else
    let i := irp.currentStackLocation - 1
    some (irp.setLocation i { irp.locations i with control := r.control
                                                   completionRoutine := r.routine
                                                   context := r.context })

/-- `IoCallDriver` up to the dispatch it calls. -/
def ioCallDriver (irp : Irp) (device : Nat) : Option Irp :=
  (ioSetNextIrpStackLocation irp).map fun irp =>
    irp.setLocation irp.currentStackLocation
      { irp.locations irp.currentStackLocation with deviceObject := device }

/-! ## The completion walk -/

/-- What a walk does that somebody can see: it reaches a location, calls a routine with a
device and a context, fills `UserIosb`, signals `UserEvent`. -/
inductive Event
  | visit (location : Nat)
  | invoke (routine device context : Nat)
  | iosb (status : Int)
  | event
  deriving DecidableEq, Repr

/-- The test on `Control`, with the outcome in `IoStatus.Status` and `Cancel`. -/
def invokes (status : Int) (cancel : Bool) (control : Nat) : Bool :=
  (ntSuccess status && control &&& slInvokeOnSuccess != 0) ||
    (!ntSuccess status && control &&& slInvokeOnError != 0) ||
    (cancel && control &&& slInvokeOnCancel != 0)

/-- What follows the loop of `IoCompleteRequest_k`. -/
def Irp.finish (irp : Irp) : List Event :=
  (if irp.userIosb = 0 then [] else [.iosb irp.status]) ++
    if irp.userEvent = 0 then [] else [.event]

/-- The increments in the head of the loop. -/
def Irp.ascend (irp : Irp) : Irp :=
  { irp with currentLocation := schar (irp.currentLocation + 1)
             currentStackLocation := irp.currentStackLocation + 1 }

/-- The `DeviceObject` a routine is called with. -/
def Irp.callbackDevice (irp : Irp) : Option Nat :=
  if irp.currentLocation = schar (irp.stackCount + 1) then some 0
  else if irp.currentStackLocation < irp.allocated then
    some (irp.locations irp.currentStackLocation).deviceObject
  else none

/-- The IRP after the walk, what it did, and whether a routine asked for more processing.
`mpr` tells of which locations the routine returns `STATUS_MORE_PROCESSING_REQUIRED`. -/
abbrev Walk := Irp × List Event × Bool

def Walk.after (es : List Event) (r : Walk) : Walk := (r.1, es ++ r.2.1, r.2.2)

/-- The loop of `IoCompleteRequest_k` with its cursor `sp`. The fuel covers the
locations there are, and the cursor never goes back. -/
def ioCompleteLoop (mpr : Nat → Bool) : Nat → Irp → Nat → Option Walk
  | 0, _, _ => none
  | fuel + 1, irp, sp =>
      if irp.currentLocation ≤ schar (irp.stackCount + 1) then
        if sp < irp.allocated then
          let l := irp.locations sp
          let irp := { irp with pendingReturned := l.control &&& slPendingReturned }
          if invokes irp.status irp.cancel l.control = true ∧ l.completionRoutine ≠ 0 then
            irp.callbackDevice.bind fun device =>
              let es := [.visit sp, .invoke l.completionRoutine device l.context]
              if mpr sp then some (irp, es, true)
              else (ioCompleteLoop mpr fuel irp.ascend (sp + 1)).map (Walk.after es)
          else (ioCompleteLoop mpr fuel irp.ascend (sp + 1)).map (Walk.after [.visit sp])
        else none
      else some (irp, irp.finish, false)

def ioCompleteRequest (mpr : Nat → Bool) (irp : Irp) : Option Walk :=
  ioCompleteLoop mpr (irp.allocated + 1) irp.ascend irp.currentStackLocation

/-- Complete the IRP, and again each time a routine has kept it. -/
def completeAndResume (mpr : Nat → Bool) : Nat → Irp → Option (List Event)
  | 0, _ => none
  | fuel + 1, irp =>
      (ioCompleteRequest mpr irp).bind fun (irp, es, kept) =>
        if kept then (completeAndResume mpr fuel irp).map (es ++ ·) else some es

/-! ## A request through a stack of drivers -/

/-- What a dispatch does before it calls the next driver. -/
inductive Choice
  | copy
  | copySet (r : Registration)
  | skip

structure Level where
  device : Nat
  choice : Choice

/-- A whole request: the originator allocates the IRP and may register a routine of its
own, the drivers pass it down in order, and `bottom` completes it. -/
structure Request where
  stackSize : Nat
  originator : Option Registration
  levels : List Level
  bottom : Nat
  status : Int
  cancel : Bool
  userIosb : Nat
  userEvent : Nat
  mpr : Nat → Bool

def Choice.apply (irp : Irp) : Choice → Option Irp
  | .copy => ioCopyCurrentIrpStackLocationToNext irp
  | .copySet r => (ioCopyCurrentIrpStackLocationToNext irp).bind (ioSetCompletionRoutine · r)
  | .skip => some (ioSkipCurrentIrpStackLocation irp)

/-- `IoCallDriver` on each device in turn. -/
def descend (bottom : Nat) : Irp → List Level → Option Irp
  | irp, [] => ioCallDriver irp bottom
  | irp, l :: ls =>
      (ioCallDriver irp l.device).bind fun irp =>
        (l.choice.apply irp).bind fun irp => descend bottom irp ls

def Request.start (q : Request) : Option Irp :=
  let irp := ioAllocIrp q.stackSize q.userIosb q.userEvent
  match q.originator with
  | some r => ioSetCompletionRoutine irp r
  | none => some irp

/-- Everything the completion of the request does, `none` when it leaves the array. -/
def Request.run (q : Request) : Option (List Event) :=
  (q.start.bind fun irp => descend q.bottom irp q.levels).bind fun irp =>
    completeAndResume q.mpr (irp.allocated + 1)
      { irp with status := q.status, cancel := q.cancel }

/-! ## What the drivers were promised -/

/-- The outcome calls for a routine registered like this. -/
def Registration.fires (r : Registration) (status : Int) (cancel : Bool) : Bool :=
  r.routine != 0 && ((ntSuccess status && r.onSuccess) || (!ntSuccess status && r.onError) ||
    (cancel && r.onCancel))

/-- What a level registers, with its own device. -/
def Level.registration (l : Level) : Option (Registration × Nat) :=
  match l.choice with
  | .copySet r => some (r, l.device)
  | _ => none

/-- The registrations of a request from the top of the stack down, each with the device of
the driver that made it, 0 for the originator. -/
def Request.registrations (q : Request) : List (Registration × Nat) :=
  (q.originator.map fun r => (r, 0)).toList ++ q.levels.filterMap Level.registration

/-- Bottom-up, each registration that fires, once. -/
def Request.expected (q : Request) : List Event :=
  (q.registrations.reverse.filter fun p => p.1.fires q.status q.cancel).map fun p =>
    .invoke p.1.routine p.2 p.1.context

def Request.stackCount (q : Request) : Nat := if q.stackSize = 0 then 1 else q.stackSize

def Level.usesLocation (l : Level) : Bool :=
  match l.choice with
  | .skip => false
  | _ => true

/-- Stack locations the drivers use. -/
def Request.used (q : Request) : Nat := (q.levels.filter Level.usesLocation).length + 1

def Event.isInvoke : Event → Bool
  | .invoke .. => true
  | _ => false

def Event.isVisit : Event → Bool
  | .visit _ => true
  | _ => false

@[simp] theorem isInvoke_visit (i : Nat) : (Event.visit i).isInvoke = false := rfl
@[simp] theorem isInvoke_invoke (r d c : Nat) : (Event.invoke r d c).isInvoke = true := rfl
@[simp] theorem isVisit_visit (i : Nat) : (Event.visit i).isVisit = true := rfl
@[simp] theorem isVisit_invoke (r d c : Nat) : (Event.invoke r d c).isVisit = false := rfl

/-- The deliveries to the originator. -/
def Request.deliveries (q : Request) : List Event :=
  (if q.userIosb = 0 then [] else [.iosb q.status]) ++ if q.userEvent = 0 then [] else [.event]

/-- The completion of the request does what it should: it visits every location in use,
calls the routines that were registered for the outcome and no other, and then
delivers, once. -/
def Request.Delivered (q : Request) : Prop :=
  ∃ walk, q.run = some (walk ++ q.deliveries) ∧
    (∀ e ∈ walk, e.isVisit = true ∨ e.isInvoke = true) ∧
    walk.filter Event.isInvoke = q.expected ∧
    walk.filter Event.isVisit = (List.range' (q.stackCount - q.used) q.used).map .visit

end MeuOS.Io
