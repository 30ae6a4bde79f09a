import MeuOS.Win32.Shell

/-! The event queue of virtio-input. All buffers are available to the device from the start; it fills
one for each event and puts it into the used ring, and polling hands it back. -/
namespace MeuOS.Input

open MeuOS.Lib MeuOS.Win32

/-- `VQ_SIZE`. -/
def vqSize : Nat := 64

def virtqDescFWrite : Nat := 2

/-- `sizeof(struct virtio_input_event)`. -/
def eventSize : Nat := 8

/-- `struct vq_desc`. -/
structure VqDesc where
  addr : Nat
  len : Nat
  flags : Nat
  next : Nat

/-- `struct vq_used_elem`. -/
structure VqUsedElem where
  id : Nat
  len : Nat
deriving DecidableEq

/-- `struct virtio_input_event`. -/
structure InputEvent where
  type : Nat
  code : Nat
  value : Nat
deriving DecidableEq

def evSyn : Nat := 0
def evKey : Nat := 1
def evAbs : Nat := 3
def synReport : Nat := 0
def absX : Nat := 0
def absY : Nat := 1
def btnLeft : Nat := 0x110
def btnRight : Nat := 0x111
def btnMiddle : Nat := 0x112
def vtabAbsMax : Int := 32767

/-- The queue, which the driver and the device share but for `s_last_used`. -/
structure EventQueue where
  qsize : Nat
  lastUsed : Nat
  desc : Nat → VqDesc
  availIdx : Nat
  availRing : Nat → Nat
  usedIdx : Nat
  usedRing : Nat → VqUsedElem
  evbuf : Nat → InputEvent

/-- What has been collected since the last report, and the window manager. -/
structure Tablet where
  absX : Int
  absY : Int
  havePos : Bool
  buttons : Nat
  wm : Wm

/-- `none` where the device has no queue or there is no memory; the four pages are `0` then. -/
def eventqSetup (devQsize descPhys availPhys usedPhys evbPhys : Nat) : Option EventQueue :=
  if devQsize = 0 then none
  else
    let qsize := if vqSize < devQsize then vqSize else devQsize
    if descPhys = 0 ∨ availPhys = 0 ∨ usedPhys = 0 ∨ evbPhys = 0 then none
    else
      some
        { qsize := qsize
          lastUsed := 0
          desc := fun i => if i < qsize then ⟨evbPhys + i * eventSize, eventSize, virtqDescFWrite, 0⟩
            else ⟨0, 0, 0, 0⟩
          availIdx := qsize
          availRing := fun i => if i < qsize then i else 0
          usedIdx := 0
          usedRing := fun _ => ⟨0, 0⟩
          evbuf := fun _ => ⟨0, 0, 0⟩ }

/-! ## Events -/

/-- A coordinate of the tablet as one of the screen. -/
def toScreen (abs : Int) (size : Int) : Int :=
  wrap32 ((abs * ((if size ≤ 1 then 2 else size) - 1)).tdiv vtabAbsMax)

def commitState (scr : Screen) (s : Tablet) : Tablet :=
  let px := if s.havePos then toScreen s.absX scr.width else s.wm.cursor.1
  let py := if s.havePos then toScreen s.absY scr.height else s.wm.cursor.2
  { s with wm := win32kOnMouseAbs scr px py s.buttons s.wm }

/-- The bit of a button. -/
def buttonBit (code : Nat) : Option Nat :=
  if code = btnLeft then some 0
  else if code = btnRight then some 1
  else if code = btnMiddle then some 2
  else none

def setButton (buttons bit : Nat) (down : Bool) : Nat :=
  if down then buttons ||| 2 ^ bit
  else if buttons.testBit bit then buttons - 2 ^ bit else buttons

def handleEvent (scr : Screen) (s : Tablet) (e : InputEvent) : Tablet :=
  if e.type = evAbs then
    if e.code = absX then { s with absX := wrap32 e.value, havePos := true }
    else if e.code = absY then { s with absY := wrap32 e.value, havePos := true }
    else s
  else if e.type = evKey then
    match buttonBit e.code with
    | some bit => { s with buttons := setButton s.buttons bit (e.value ≠ 0) }
    | none => s
  else if e.type = evSyn then
    if e.code = synReport then commitState scr s else s
  else s

/-! ## Polling -/

/-- One turn of the loop of `virtio_input_poll`: the queue, and the event that is handled. -/
def pollTurn (q : EventQueue) : Option (EventQueue × Option InputEvent) :=
  if q.lastUsed = q.usedIdx then none
  else
    let elem := q.usedRing (q.lastUsed % q.qsize)
    let q := { q with lastUsed := (q.lastUsed + 1) % 2 ^ 16 }
    let handled := if elem.id < q.qsize ∧ eventSize ≤ elem.len then some (q.evbuf elem.id) else none
    if elem.id < q.qsize then
      some
        ({ q with
            availRing := Function.update q.availRing (q.availIdx % q.qsize) elem.id
            availIdx := (q.availIdx + 1) % 2 ^ 16 },
          handled)
    else some (q, handled)

/-- The turns of a whole call, `n` of them at most, and the events in the order they are handled. -/
def pollTurns : Nat → EventQueue → EventQueue × List InputEvent
  | 0, q => (q, [])
  | n + 1, q =>
      match pollTurn q with
      | none => (q, [])
      | some (q, handled) =>
          let rest := pollTurns n q
          (rest.1, handled.toList ++ rest.2)

/-- A call that the device does not interfere with. -/
def virtioInputPoll (scr : Screen) (q : EventQueue) (s : Tablet) : EventQueue × Tablet :=
  let r := pollTurns ((q.usedIdx + 2 ^ 16 - q.lastUsed) % 2 ^ 16) q
  (r.1, r.2.foldl (handleEvent scr) s)

end MeuOS.Input
