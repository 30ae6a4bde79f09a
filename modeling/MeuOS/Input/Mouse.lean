import MeuOS.Lib.Feed
import MeuOS.Win32.Shell

/-! The i8042, its mouse and its keyboard. Both devices share one data port, and each interrupt
routine takes a byte only if the status says that it is its own. -/
namespace MeuOS.Input

open MeuOS.Lib MeuOS.Win32

/-- The output buffer: whether a byte is in it, and from which device. -/
structure I8042 where
  outputFull : Bool
  auxData : Bool
  data : UInt8

/-- Reading port 0x60. -/
def I8042.read (p : I8042) : I8042 := { p with outputFull := false }

def mouseBtnLeft : Nat := 1
def mouseBtnRight : Nat := 2
def mouseBtnMiddle : Nat := 4

/-- The arguments of `win32k_on_mouse_event`. -/
structure MouseEvent where
  dx : Int
  dy : Int
  buttons : Nat
deriving DecidableEq

/-- `s_phase`, `s_pkt`, `s_buttons` and `s_irq_count`. -/
structure Mouse where
  phase : Nat
  pkt : Nat → UInt8
  buttons : Nat
  irqCount : Nat

/-- A motion byte with its sign, as an `int16_t`. -/
def extendSign (negative : Bool) (b : UInt8) : Int :=
  let d := BitVec.ofNat 16 b.toNat
  (if negative then d ||| 0xFF00#16 else d).toInt

def bitSet (b mask : UInt8) : Bool := b &&& mask ≠ 0

/-- A packet of three bytes. -/
def decodePacket (b0 b1 b2 : UInt8) : Option MouseEvent :=
  let dx := extendSign (bitSet b0 0x10) b1
  let dy := extendSign (bitSet b0 0x20) b2
  if bitSet b0 0xC0 then none
  else
    some
      { dx := dx
        dy := -dy
        buttons := (if bitSet b0 0x01 then mouseBtnLeft else 0) |||
          (if bitSet b0 0x02 then mouseBtnRight else 0) |||
          (if bitSet b0 0x04 then mouseBtnMiddle else 0) }

/-- What `mouse_irq` makes of a byte. -/
def mouseByte (s : Mouse) (b : UInt8) : Mouse × Option MouseEvent :=
  let s := { s with pkt := Function.update s.pkt s.phase b }
  if s.phase = 0 ∧ bitSet b 0x08 = false then (s, none)
  else
    let s := { s with phase := s.phase + 1 }
    if s.phase < 3 then (s, none)
    else
      let s := { s with phase := 0, irqCount := (s.irqCount + 1) % 2 ^ 64 }
      match decodePacket (s.pkt 0) (s.pkt 1) (s.pkt 2) with
      | none => (s, none)
      | some e => ({ s with buttons := e.buttons }, some e)

/-- The byte that `mouse_irq` takes. -/
def mouseTakes (p : I8042) : Option UInt8 :=
  if p.outputFull = false then none else if p.auxData = false then none else some p.data

/-! ## The keyboard -/

/-- `map`, up to its last entry that is not zero. -/
def keyMap : List UInt8 :=
  [0, 27, 49, 50, 51, 52, 53, 54, 55, 56, 57, 48, 45, 61, 8,
    9, 113, 119, 101, 114, 116, 121, 117, 105, 111, 112, 91, 93, 10,
    0, 97, 115, 100, 102, 103, 104, 106, 107, 108, 59, 39, 96,
    0, 92, 122, 120, 99, 118, 98, 110, 109, 44, 46, 47, 0,
    42, 0, 32]

/-- `KBD_BUF`. -/
def kbdBuf : Nat := 256

/-- `s_kbuf`, `s_head` and `s_tail`. -/
structure Stdin where
  buf : Nat → UInt8
  head : Nat
  tail : Nat

def kbdStdinPush (s : Stdin) (c : UInt8) : Stdin :=
  let next := (s.head + 1) % kbdBuf
  if next = s.tail then s else { s with buf := Function.update s.buf s.head c, head := next }

/-! ## The interrupt routines -/

structure Ps2 where
  port : I8042
  mouse : Mouse
  /-- `s_x` and `s_y`. -/
  at_ : Int × Int
  stdin : Stdin
  wm : Wm

/-- The event that is posted, if any. -/
def mouseIrq (scr : Screen) (s : Ps2) : Ps2 × Option MouseEvent :=
  match mouseTakes s.port with
  | none => (s, none)
  | some b =>
      let r := mouseByte s.mouse b
      let s := { s with port := s.port.read, mouse := r.1 }
      match r.2 with
      | none => (s, none)
      | some e =>
          let wm := win32kOnMouseEvent scr e.dx e.dy e.buttons s.wm
          ({ s with wm := wm, at_ := wm.cursor }, some e)

def keyboardIrq (s : Ps2) : Ps2 :=
  if s.port.auxData then s
  else
    let sc := s.port.data
    let s := { s with port := s.port.read }
    if bitSet sc 0x80 then s
    else
      let c := keyMap.getD sc.toNat 0
      if 0 < s.wm.desk.nwin then { s with wm := win32kOnKey c.toNat sc.toNat s.wm }
      else if c = 0 then s else { s with stdin := kbdStdinPush s.stdin c }

end MeuOS.Input
