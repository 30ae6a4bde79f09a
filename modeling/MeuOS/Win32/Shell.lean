import MeuOS.Win32.Windows

/-! The desktop shell and the mouse. The shell sees a mouse event first: a drag, the Start
button, the task bar, the menu and the buttons in a window's caption; what it leaves goes
to the window under the cursor. -/
namespace MeuOS.Win32

open MeuOS.Lib

def shTaskbarH10 : Int := 48
def shStartBtnW : Int := 48
def shAppBtnW : Int := 160
def shClockW : Int := 92
def shMenuW : Int := 320
def shMenuH : Int := 460
def shTitleH : Int := 28
def shBtnW : Int := 46
def shBtnH : Int := 28

def shellSlotOf (d : Desk) (id : Nat) : Option Nat := wndFromId d id

def Rect.contains (r : Rect) (x y : Int) : Bool :=
  decide (r.x ≤ x ∧ x < r.x + r.w ∧ r.y ≤ y ∧ y < r.y + r.h)

/-- `if (s_was_active) win32k_compose();` -/
def composeIfActive (scr : Screen) (s : Wm) : Wm := if s.wasActive then win32kCompose scr s else s

/-- A button that has just gone down, or up. -/
def edgeDown (buttons prev bit : Nat) : Bool := buttons.testBit bit && !prev.testBit bit
def edgeUp (buttons prev bit : Nat) : Bool := prev.testBit bit && !buttons.testBit bit

def setRect (d : Desk) (i : Nat) (r : Rect) : Desk := d.setWin i { d.wins i with rect := r }

/-- A drag moves its window along, as long as it is there. -/
def shellDrag (scr : Screen) (x y : Int) (up : Bool) (s : Wm) : Option Wm :=
  if s.shell.dragHwnd = 0 then none
  else
    (shellSlotOf s.desk s.shell.dragHwnd).map fun i =>
      let r := (s.desk.wins i).rect
      let wx := x - s.shell.dragOffset.1
      let wy := y - s.shell.dragOffset.2
      let wx := if wx < 0 then 0 else wx
      let wy := if wy < 0 then 0 else wy
      let wx := if scr.width - 40 < wx then scr.width - 40 else wx
      let wy := if scr.height - shTaskbarH10 - 4 < wy then scr.height - shTaskbarH10 - 4 else wy
      { s with
        desk := setRect s.desk i { r with x := wx, y := wy }
        shell := { s.shell with dragHwnd := if up then 0 else s.shell.dragHwnd } }

/-- The window whose task bar button is at `x`; there is a button for every visible one
that there is room for. -/
def taskbarHit (d : Desk) (x maxX : Int) : List Nat → Int → Option Nat
  | [], _ => none
  | i :: slots, bx =>
      if !((d.wins i).normal && (d.wins i).visible) then taskbarHit d x maxX slots bx
      else if maxX < bx + shAppBtnW then none
      else if bx ≤ x ∧ x < bx + shAppBtnW then some i
      else taskbarHit d x maxX slots (bx + shAppBtnW + 2)

/-- A task bar button restores a minimised window, minimises the focused one and otherwise
gives the focus. -/
def taskbarClick (i : Nat) (s : Wm) : Wm :=
  let id := (s.desk.wins i).id
  if s.shell.minimized i then
    { s with
      shell := { s.shell with minimized := Function.update s.shell.minimized i false }
      desk := { s.desk with focusId := id } }
  else if id = s.desk.focusId then
    { s with shell := { s.shell with minimized := Function.update s.shell.minimized i true } }
  else { s with desk := { s.desk with focusId := id } }

/-- The window whose caption or body the shell sees under the cursor. -/
def shellHit (s : Wm) (x y : Int) : Option Nat :=
  topmost s.desk fun i => (s.desk.wins i).normal && (s.desk.wins i).visible &&
    !s.shell.minimized i && (s.desk.wins i).rect.contains x y

inductive CaptionPart
  | close
  | max
  | min
  | title
  | body
deriving DecidableEq

def captionPart (r : Rect) (x y : Int) : CaptionPart :=
  let xClose := r.x + r.w - shBtnW - 1
  let xMax := xClose - shBtnW
  let xMin := xMax - shBtnW
  if xClose ≤ x ∧ x < xClose + shBtnW ∧ r.y ≤ y ∧ y < r.y + shBtnH then .close
  else if xMax ≤ x ∧ x < xMax + shBtnW ∧ r.y ≤ y ∧ y < r.y + shBtnH then .max
  else if xMin ≤ x ∧ x < xMin + shBtnW ∧ r.y ≤ y ∧ y < r.y + shBtnH then .min
  else if r.y ≤ y ∧ y < r.y + shTitleH then .title
  else .body

/-- The left button goes down on a window. -/
def captionDown (scr : Screen) (x y : Int) (i : Nat) (s : Wm) : Option Wm :=
  let w := s.desk.wins i
  match captionPart w.rect x y with
  | .close => some (composeIfActive scr { s with shell := { s.shell with pendingClose := some i } })
  | .max => some (composeIfActive scr { s with shell := { s.shell with pendingMax := some i } })
  | .min => some (composeIfActive scr { s with shell := { s.shell with pendingMin := some i } })
  | .title =>
      some (composeIfActive scr
        { s with
          shell := { s.shell with dragHwnd := w.id, dragOffset := (x - w.rect.x, y - w.rect.y) }
          desk := { s.desk with focusId := w.id } })
  | .body => none

/-- The maximise toggle. -/
def toggleMax (scr : Screen) (i : Nat) (s : Wm) : Wm :=
  if s.shell.maximized i then
    { s with
      desk := setRect s.desk i (s.shell.saved i)
      shell := { s.shell with maximized := Function.update s.shell.maximized i false } }
  else
    { s with
      desk := setRect s.desk i ⟨0, 0, scr.width, scr.height - shTaskbarH10⟩
      shell := { s.shell with
        maximized := Function.update s.shell.maximized i true
        saved := Function.update s.shell.saved i (s.desk.wins i).rect } }

/-- The left button goes up on a window. -/
def captionUp (scr : Screen) (x y : Int) (i : Nat) (s : Wm) : Option Wm :=
  let w := s.desk.wins i
  match captionPart w.rect x y with
  | .close =>
      if s.shell.pendingClose = some i then
        let s := s.queuePost w.id wmClose 0 0
        some (composeIfActive scr { s with shell := { s.shell with pendingClose := none } })
      else none
  | .min =>
      if s.shell.pendingMin = some i then
        some (composeIfActive scr
          { s with
            shell := { s.shell with
              minimized := Function.update s.shell.minimized i true, pendingMin := none }
            desk := { s.desk with focusId := if s.desk.focusId = w.id then 0 else s.desk.focusId } })
      else none
  | .max =>
      if s.shell.pendingMax = some i then
        let s := toggleMax scr i s
        some (composeIfActive scr { s with shell := { s.shell with pendingMax := none } })
      else none
  | _ => none

/-- The buttons in the captions; what is left over ends every press when the button goes
up. -/
def shellCaption (scr : Screen) (x y : Int) (down up : Bool) (s : Wm) : Bool × Wm :=
  let acted : Option Wm := (shellHit s x y).bind fun i =>
    if down then captionDown scr x y i s
    else if up then captionUp scr x y i s
    else none
  match acted with
  | some s => (true, s)
  | none =>
      (false, if up then
        { s with shell := { s.shell with pendingClose := none, pendingMax := none, pendingMin := none } }
      else s)

def inTaskbar (scr : Screen) (y : Int) : Bool := decide (scr.height - shTaskbarH10 ≤ y)

/-- The window whose task bar button is clicked. -/
def taskbarButton (scr : Screen) (x y : Int) (down : Bool) (d : Desk) : Option Nat :=
  if inTaskbar scr y && decide (shStartBtnW ≤ x) && down then
    taskbarHit d x (scr.width - shClockW - 4) (List.range maxWindows) (shStartBtnW + 4)
  else none

/-- A point off the menu and the Start button. -/
def outsideMenu (scr : Screen) (x y : Int) : Bool :=
  let my := scr.height - shTaskbarH10 - shMenuH
  let my := if my < 0 then 0 else my
  !decide (0 ≤ x ∧ x < shMenuW ∧ my ≤ y ∧ y < my + shMenuH) &&
    !(inTaskbar scr y && decide (x < shStartBtnW))

/-- Start button, task bar and menu. -/
def shellBars (scr : Screen) (x y : Int) (down : Bool) (s : Wm) : Option Wm :=
  if inTaskbar scr y && decide (x < shStartBtnW) && down then
    some (composeIfActive scr
      { s with shell := { s.shell with startMenuOpen := !s.shell.startMenuOpen } })
  else
    match taskbarButton scr x y down s.desk with
    | some i => some (composeIfActive scr (taskbarClick i s))
    | none =>
        if s.shell.startMenuOpen && down && outsideMenu scr x y then
          some (composeIfActive scr { s with shell := { s.shell with startMenuOpen := false } })
        else none

/-- Whether the shell consumed the event. -/
def win32kShellOnMouse (scr : Screen) (x y : Int) (buttons prev : Nat) (s : Wm) : Bool × Wm :=
  let down := edgeDown buttons prev 0
  let up := edgeUp buttons prev 0
  match shellDrag scr x y up s with
  | some s => (true, s)
  | none =>
      let s : Wm := { s with shell := { s.shell with dragHwnd := 0 } }
      match shellBars scr x y down s with
      | some s => (true, s)
      | none => shellCaption scr x y down up s

/-! ## The mouse -/

def hitTest (d : Desk) (x y : Int) : Option Nat :=
  topmost d fun i => (d.wins i).used && (d.wins i).visible && (d.wins i).rect.contains x y

def packLparamPoint (x y : Int) : Nat := (y % 2 ^ 16).toNat * 2 ^ 16 + (x % 2 ^ 16).toNat

/-- The buttons as `MK_LBUTTON`, `MK_RBUTTON` and `MK_MBUTTON`. -/
def mkButtons (buttons : Nat) : Nat :=
  (if buttons.testBit 0 then 1 else 0) + (if buttons.testBit 1 then 2 else 0) +
    if buttons.testBit 2 then 16 else 0

/-- What a changed button posts to the window in slot `i`. -/
def postButton (buttons bit down up i : Nat) (s : Wm) : Wm :=
  if buttons.testBit bit == s.cursorButtons.testBit bit then s
  else
    let w := s.desk.wins i
    s.queuePost w.id (if buttons.testBit bit then down else up) 0
      (packLparamPoint (s.cursor.1 - w.rect.x) (s.cursor.2 - w.rect.y))

/-- A left click also gives the focus. -/
def focusClicked (buttons i : Nat) (s : Wm) : Wm :=
  if edgeDown buttons s.cursorButtons 0 && !(s.desk.wins i).desktop then
    { s with desk := { s.desk with focusId := (s.desk.wins i).id } }
  else s

/-- The messages of a mouse event for the window in slot `i`. -/
def postMouse (buttons i : Nat) (s : Wm) : Wm :=
  let w := s.desk.wins i
  let s := s.queuePost w.id wmMousemove (mkButtons buttons)
    (packLparamPoint (s.cursor.1 - w.rect.x) (s.cursor.2 - w.rect.y))
  let s := focusClicked buttons i (postButton buttons 0 wmLbuttondown wmLbuttonup i s)
  postButton buttons 2 wmMbuttondown wmMbuttonup i
    (postButton buttons 1 wmRbuttondown wmRbuttonup i s)

/-- The window under the cursor gets the messages. -/
def postToHit (buttons : Nat) (s : Wm) : Wm :=
  match hitTest s.desk s.cursor.1 s.cursor.2 with
  | some i => postMouse buttons i s
  | none => s

def win32kRouteMouse (scr : Screen) (buttons : Nat) (s : Wm) : Wm :=
  match win32kShellOnMouse scr s.cursor.1 s.cursor.2 buttons s.cursorButtons s with
  | (true, s) => { s with cursorButtons := buttons }
  | (false, s) =>
      let changed := buttons ≠ s.cursorButtons
      let s : Wm := { postToHit buttons s with cursorButtons := buttons }
      if changed then composeIfActive scr s else s

/-- Without a GPU the cursor is drawn by composing. -/
def win32kCursorRepaint (scr : Screen) (s : Wm) : Wm :=
  if scr.gpu then s else composeIfActive scr s

def clampTo (scr : Screen) (x y : Int) : Int × Int :=
  let x := if x < 0 then 0 else x
  let y := if y < 0 then 0 else y
  (if scr.width ≤ x then scr.width - 1 else x, if scr.height ≤ y then scr.height - 1 else y)

def win32kOnMouseAbs (scr : Screen) (x y : Int) (buttons : Nat) (s : Wm) : Wm :=
  win32kCursorRepaint scr
    (win32kRouteMouse scr buttons { s with cursor := clampTo scr x y, cursorInitialized := true })

def win32kOnMouseEvent (scr : Screen) (dx dy : Int) (buttons : Nat) (s : Wm) : Wm :=
  let at_ := if s.cursorInitialized then s.cursor else (scr.width / 2, scr.height / 2)
  win32kCursorRepaint scr
    (win32kRouteMouse scr buttons
      { s with cursor := clampTo scr (at_.1 + dx) (at_.2 + dy), cursorInitialized := true })

def win32kSetCursor (scr : Screen) (x y : Int) (s : Wm) : Wm :=
  win32kCursorRepaint scr { s with cursor := clampTo scr x y, cursorInitialized := true }

end MeuOS.Win32
