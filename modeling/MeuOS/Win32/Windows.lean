import MeuOS.Lib.Fifo
import MeuOS.Lib.Int32

/-! The base of the window manager: the message queue, the windows and the services that
change them. A handle, a process and a pointer are numbers, drawing is left out, and what
is drawn on is a parameter. -/
namespace MeuOS.Win32

open MeuOS.Lib

/-- `MAX_WINDOWS`. -/
def maxWindows : Nat := 16

/-- `MSG_QUEUE_CAP`. -/
def msgQueueCap : Nat := 256

def wmCreate : Nat := 0x0001
def wmDestroy : Nat := 0x0002
def wmPaint : Nat := 0x000F
def wmClose : Nat := 0x0010
def wmQuit : Nat := 0x0012
def wmKeydown : Nat := 0x0100
def wmChar : Nat := 0x0102
def wmMousemove : Nat := 0x0200
def wmLbuttondown : Nat := 0x0201
def wmLbuttonup : Nat := 0x0202
def wmRbuttondown : Nat := 0x0204
def wmRbuttonup : Nat := 0x0205
def wmMbuttondown : Nat := 0x0207
def wmMbuttonup : Nat := 0x0208

/-- The backend: the GPU's frame buffer or mode 13h, and its resolution. -/
structure Screen where
  gpu : Bool
  width : Int
  height : Int

structure Rect where
  x : Int
  y : Int
  w : Int
  h : Int
deriving DecidableEq

/-- `W32_MSG`. -/
structure Msg where
  hwnd : Nat
  message : Nat
  wParam : Nat
  lParam : Nat
  time : Nat
  pt : Int × Int
deriving DecidableEq

/-- `WND`. -/
structure Wnd where
  used : Bool
  id : Nat
  rect : Rect
  visible : Bool
  z : Int
  flags : Nat
  owner : Nat

/-- `WNDF_DESKTOP` and `WNDF_CONSOLE`. -/
def Wnd.desktop (w : Wnd) : Bool := w.flags.testBit 0
def Wnd.console (w : Wnd) : Bool := w.flags.testBit 1

/-- A window the user can focus. -/
def Wnd.normal (w : Wnd) : Bool := w.used && !w.desktop

/-- The queue, the clock, and the messages `queue_post` was ever called with, the latest
first, which nothing reads. -/
structure Mail where
  queue : Fifo Msg
  ticks : Nat
  posted : List Msg

/-- `s_wins` and what goes with it. -/
structure Desk where
  wins : Nat → Wnd
  nwin : Int
  nextId : Nat
  nextZ : Int
  focusId : Nat

/-- What the shell keeps, the windows' part of it by slot. -/
structure Shell where
  startMenuOpen : Bool
  dragHwnd : Nat
  dragOffset : Int × Int
  minimized : Nat → Bool
  maximized : Nat → Bool
  saved : Nat → Rect
  pendingClose : Option Nat
  pendingMin : Option Nat
  pendingMax : Option Nat

structure Wm where
  desk : Desk
  shell : Shell
  mail : Mail
  wasActive : Bool
  injected : Bool
  composing : Bool
  idlePainted : Bool
  cursor : Int × Int
  cursorButtons : Nat
  cursorInitialized : Bool

/-! ## The message queue -/

def paintAlreadyQueued (q : Fifo Msg) (hwnd : Nat) : Bool :=
  (q.contents msgQueueCap).any fun m => m.message == wmPaint && m.hwnd == hwnd

def Mail.put (mail : Mail) (m : Msg) : Mail :=
  if msgQueueCap ≤ mail.queue.count then mail
  else if m.message = wmPaint ∧ paintAlreadyQueued mail.queue m.hwnd then mail
  else { mail with queue := mail.queue.push msgQueueCap m }

def Mail.queuePost (mail : Mail) (hwnd msg wParam lParam : Nat) : Mail :=
  let m : Msg := ⟨hwnd, msg, wParam, lParam, mail.ticks % 2 ^ 32, (0, 0)⟩
  { mail.put m with posted := m :: mail.posted }

def Mail.queuePop (mail : Mail) : Option Msg × Mail :=
  if mail.queue.count = 0 then (none, mail)
  else (some (mail.queue.slots mail.queue.head), { mail with queue := mail.queue.drop msgQueueCap })

def Wm.queuePost (s : Wm) (hwnd msg wParam lParam : Nat) : Wm :=
  { s with mail := s.mail.queuePost hwnd msg wParam lParam }

/-! ## Windows -/

def Desk.setWin (d : Desk) (i : Nat) (w : Wnd) : Desk :=
  { d with wins := Function.update d.wins i w }

/-- The slot of a window. -/
def wndFromId (d : Desk) (id : Nat) : Option Nat :=
  if id = 0 then none
  else (List.range maxWindows).find? fun i => (d.wins i).used && (d.wins i).id == id

def wndFromHandle (d : Desk) (h : Nat) : Option Nat := wndFromId d (h % 2 ^ 32)

def higher (d : Desk) (p : Nat → Bool) (best : Int × Option Nat) (i : Nat) : Int × Option Nat :=
  if p i && decide (best.1 < (d.wins i).z) then ((d.wins i).z, some i) else best

/-- The slot of the window with the greatest z among those that pass a test; a window comes
before a later one of the same z. -/
def topmost (d : Desk) (p : Nat → Bool) : Option Nat :=
  ((List.range maxWindows).foldl (higher d p) (-1, none)).2

theorem wndFromId_some {d : Desk} {id i : Nat} (h : wndFromId d id = some i) :
    i < maxWindows ∧ (d.wins i).used = true ∧ (d.wins i).id = id ∧ id ≠ 0 := by
  unfold wndFromId at h
  split at h
  · cases h
  · have htest := List.find?_some h
    rw [Bool.and_eq_true, beq_iff_eq] at htest
    exact ⟨List.mem_range.mp (List.mem_of_find?_eq_some h), htest.1, htest.2, ‹_›⟩

theorem foldl_higher (d : Desk) (p : Nat → Bool) (l : List Nat) (best : Int × Option Nat) :
    (l.foldl (higher d p) best = best ∧ ∀ i ∈ l, p i = true → (d.wins i).z ≤ best.1) ∨
      ∃ i ∈ l, (l.foldl (higher d p) best).2 = some i ∧ p i = true := by
  induction l generalizing best with
  | nil => exact .inl ⟨rfl, nofun⟩
  | cons i l ih =>
    rw [List.foldl_cons]
    rcases ih (higher d p best i) with ⟨hsame, hle⟩ | ⟨j, hj, hfound⟩
    · rw [hsame]
      unfold higher at hle ⊢
      split at hle
      · rename_i htest
        rw [if_pos htest]
        rw [Bool.and_eq_true] at htest
        exact .inr ⟨i, List.mem_cons_self .., rfl, htest.1⟩
      · rename_i htest
        rw [if_neg htest]
        refine .inl ⟨rfl, fun j hj hp => ?_⟩
        rcases List.mem_cons.mp hj with rfl | hj
        · rw [Bool.and_eq_true, decide_eq_true_eq] at htest
          exact Int.not_lt.mp fun hlt => htest ⟨hp, hlt⟩
        · exact hle j hj hp
    · exact .inr ⟨j, List.mem_cons_of_mem _ hj, hfound⟩

theorem topmost_some {d : Desk} {p : Nat → Bool} {i : Nat} (h : topmost d p = some i) :
    i < maxWindows ∧ p i = true := by
  unfold topmost at h
  obtain ⟨hsame, -⟩ | ⟨j, hj, hfound, hp⟩ := foldl_higher d p (List.range maxWindows) (-1, none)
  · rw [hsame] at h
    cases h
  · rw [hfound] at h
    cases h
    exact ⟨List.mem_range.mp hj, hp⟩

theorem topmost_none {d : Desk} {p : Nat → Bool} (h : topmost d p = none) {i : Nat}
    (hi : i < maxWindows) (hp : p i = true) : (d.wins i).z ≤ -1 := by
  unfold topmost at h
  obtain ⟨-, hle⟩ | ⟨j, -, hfound, -⟩ := foldl_higher d p (List.range maxWindows) (-1, none)
  · exact hle i (List.mem_range.mpr hi) hp
  · rw [hfound] at h
    cases h

def invalidateSlot (d : Desk) (mail : Mail) (i : Nat) : Mail :=
  if (d.wins i).normal && (d.wins i).visible then mail.queuePost (d.wins i).id wmPaint 0 0 else mail

def win32kInvalidateAll (d : Desk) (mail : Mail) : Mail :=
  (List.range maxWindows).foldl (invalidateSlot d) mail

/-- `win32k_compose`, which gives way to another one that is drawing. -/
def win32kCompose (scr : Screen) (s : Wm) : Wm :=
  if s.composing then s
  else
    { s with
      wasActive := true
      mail := if scr.gpu then win32kInvalidateAll s.desk s.mail else s.mail }

/-- `W32_CREATE`. -/
structure Create where
  rect : Rect
  flags : Nat

/-- Where a window is put: within the desktop, or all over it. -/
def Create.place (scr : Screen) (c : Create) : Rect :=
  if c.flags.testBit 0 then ⟨0, 0, scr.width, scr.height⟩
  else
    let w := if 0 < c.rect.w then c.rect.w else 120
    let h := if 0 < c.rect.h then c.rect.h else 80
    let w := if scr.width < w then scr.width else w
    let h := if scr.height < h then scr.height else h
    let x := if c.rect.x < 0 then 0 else c.rect.x
    let y := if c.rect.y < 0 then 0 else c.rect.y
    { x := if scr.width < wrap32 (x + w) then scr.width - w else x
      y := if scr.height < wrap32 (y + h) then scr.height - h else y
      w := w
      h := h }

/-- The slot a new window gets. -/
def freeSlot (d : Desk) : Option Nat := (List.range maxWindows).find? fun i => !(d.wins i).used

theorem freeSlot_some {d : Desk} {i : Nat} (h : freeSlot d = some i) :
    i < maxWindows ∧ (d.wins i).used = false := by
  have htest := List.find?_some h
  exact ⟨List.mem_range.mp (List.mem_of_find?_eq_some h), by simpa using htest⟩

def ntUserCreateWindowEx (scr : Screen) (c : Create) (owner : Nat) (s : Wm) : Nat × Wm :=
  match freeSlot s.desk with
  | none => (0, s)
  | some i =>
      let id := s.desk.nextId
      let w : Wnd :=
        { used := true
          id := id
          rect := c.place scr
          visible := false
          z := s.desk.nextZ
          flags := c.flags
          owner := owner }
      let desk : Desk :=
        { wins := Function.update s.desk.wins i w
          nwin := s.desk.nwin + 1
          nextId := (id + 1) % 2 ^ 32
          nextZ := s.desk.nextZ + 1
          focusId := if w.desktop then s.desk.focusId else id }
      (id, ({ s with desk := desk } : Wm).queuePost id wmCreate 0 0)

def injectKey (hwnd : Nat) (s : Wm) (c : Nat) : Wm :=
  (s.queuePost hwnd wmKeydown c 0).queuePost hwnd wmChar c 0

def win32kInjectDemoInput (text : List Nat) (s : Wm) : Wm :=
  if s.desk.focusId = 0 then s
  else (text.foldl (injectKey s.desk.focusId) s).queuePost 0 wmQuit 0 0

/-- A window that has become visible. -/
def showVisible (scr : Screen) (hwnd : Nat) (w : Wnd) (s : Wm) : Wm :=
  let s := (win32kCompose scr s).queuePost hwnd wmPaint 0 0
  if !s.injected && !(w.desktop || w.console) then
    win32kInjectDemoInput [0x48, 0x69] { s with injected := true }
  else s

def ntUserShowWindow (scr : Screen) (hwnd : Nat) (cmdShow : Int) (s : Wm) : Nat × Wm :=
  match wndFromHandle s.desk hwnd with
  | none => (0, s)
  | some i =>
      let w := { s.desk.wins i with visible := decide (cmdShow ≠ 0) }
      let s : Wm := { s with desk := s.desk.setWin i w }
      (1, if w.visible then showVisible scr hwnd w s else s)

def ntUserSetFocus (scr : Screen) (hwnd : Nat) (s : Wm) : Nat × Wm :=
  match wndFromHandle s.desk hwnd with
  | none => (0, s)
  | some i =>
      let w := s.desk.wins i
      if w.desktop then (0, s)
      else if s.desk.focusId = w.id then (1, s)
      else (1, win32kCompose scr { s with desk := { s.desk with focusId := w.id } })

/-- What a keystroke posts. -/
def postKeystroke (hwnd ascii scancode : Nat) (s : Wm) : Wm :=
  let s := s.queuePost hwnd wmKeydown scancode 0
  if ascii = 0 then s else s.queuePost hwnd wmChar ascii 0

def ntUserPostKey (hwnd ascii scancode : Nat) (s : Wm) : Nat × Wm :=
  match wndFromHandle s.desk hwnd with
  | none => (0, s)
  | some _ => (1, postKeystroke hwnd ascii scancode s)

/-- The focus after window `id` has gone. -/
def Desk.refocus (d : Desk) (id : Nat) : Desk :=
  if d.focusId = id then
    { d with focusId := match topmost d fun i => (d.wins i).normal with
        | some i => (d.wins i).id
        | none => 0 }
  else d

def ntUserDestroyWindow (scr : Screen) (hwnd : Nat) (s : Wm) : Nat × Wm :=
  match wndFromHandle s.desk hwnd with
  | none => (0, s)
  | some i =>
      let w := s.desk.wins i
      let s := s.queuePost hwnd wmDestroy 0 0
      let desk := s.desk.setWin i { w with used := false }
      let desk := { desk with nwin := desk.nwin - 1 }
      (1, win32kCompose scr { s with desk := desk.refocus w.id })

/-- One slot of `win32k_reap_process_windows`. -/
def Desk.reapSlot (eproc : Nat) (d : Desk) (i : Nat) : Desk :=
  if (d.wins i).used && (d.wins i).owner == eproc then
    { d with
      wins := Function.update d.wins i { d.wins i with used := false }
      nwin := d.nwin - 1
      focusId := if d.focusId = (d.wins i).id then 0 else d.focusId }
  else d

def win32kReapProcessWindows (eproc : Nat) (s : Wm) : Wm :=
  if eproc = 0 then s
  else { s with desk := (List.range maxWindows).foldl (Desk.reapSlot eproc) s.desk }

def ntUserInvalidate (hwnd : Nat) (s : Wm) : Nat × Wm :=
  match wndFromHandle s.desk hwnd with
  | none => (0, s)
  | some _ => (1, s.queuePost hwnd wmPaint 0 0)

def ntUserPostMessage (hwnd msg wParam lParam : Nat) (s : Wm) : Nat × Wm :=
  (1, s.queuePost hwnd msg wParam lParam)

/-- The exit code is an `int`. -/
def ntUserPostQuitMessage (exitCode : Int) (s : Wm) : Nat × Wm :=
  (1, s.queuePost 0 wmQuit (exitCode % 2 ^ 32).toNat 0)

/-- One turn of the loop of `NtUserGetMessage`: what it returns, with the message taken
from the queue, or nothing when it goes on to wait. -/
def ntUserGetMessage (scr : Screen) (s : Wm) : Option (Nat × Option Msg) × Wm :=
  match s.mail.queuePop with
  | (some m, mail) => (some (if m.message = wmQuit then 0 else 1, some m), { s with mail := mail })
  | (none, _) =>
      if s.desk.nwin ≤ 0 then (some (0, none), s)
      else if scr.gpu && !s.idlePainted then (none, win32kCompose scr { s with idlePainted := true })
      else (none, s)

def win32kOnKey (ascii scancode : Nat) (s : Wm) : Wm :=
  if s.desk.focusId = 0 then s else postKeystroke s.desk.focusId ascii scancode s

end MeuOS.Win32
