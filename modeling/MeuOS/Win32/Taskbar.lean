import MeuOS.Lib.BoxRow
import MeuOS.Win32.Placed
import MeuOS.Win32.WindowOwners

/-! The task bar: what `shell_taskbar_tc` fills for its buttons, and which of them a press of the
left button is for. -/
namespace MeuOS.Win32

open MeuOS.Lib

def shTrayW : Int := 150
def uiTaskbar : Nat := 0x00202124
def uiAccent : Nat := 0x000078D7
def uiAccentLt : Nat := 0x002B88E0
def uiStartTile : Nat := 0x0037A0EB

/-- `w32k_rgb_rect`. -/
structure Fill where
  rect : Rect
  color : Nat

/-- A button and what is filled for it, its text left out. -/
structure TaskbarButton where
  rect : Rect
  fills : List Fill

def shellLogo4Tc (bx top boxW : Int) : List Fill :=
  let tile := 9
  let gap := 3
  let ox := bx + (boxW - (2 * tile + gap)) / 2
  let oy := top + (shTaskbarH10 - (2 * tile + gap)) / 2
  [⟨⟨ox, oy, tile, tile⟩, uiStartTile⟩, ⟨⟨ox + tile + gap, oy, tile, tile⟩, uiStartTile⟩,
    ⟨⟨ox, oy + tile + gap, tile, tile⟩, uiStartTile⟩,
    ⟨⟨ox + tile + gap, oy + tile + gap, tile, tile⟩, uiStartTile⟩]

def taskbarTop (scr : Screen) : Int := scr.height - shTaskbarH10

def startButton (scr : Screen) (s : Wm) : TaskbarButton :=
  let rect : Rect := ⟨0, taskbarTop scr, shStartBtnW, shTaskbarH10⟩
  { rect := rect
    fills := (if s.shell.startMenuOpen then [⟨rect, 0x002E3136⟩] else []) ++
      shellLogo4Tc 0 (taskbarTop scr) shStartBtnW }

/-- The button of the window in slot `i`. -/
def appButton (scr : Screen) (s : Wm) (i : Nat) (bx : Int) : TaskbarButton :=
  let ty := taskbarTop scr
  let active := (s.desk.wins i).id == s.desk.focusId && !s.shell.minimized i
  let rect : Rect := ⟨bx, ty + 3, shAppBtnW, shTaskbarH10 - 3⟩
  { rect := rect
    fills := [⟨rect, if active then 0x002D2F34 else uiTaskbar⟩] ++
      (if active then [⟨⟨bx, ty + shTaskbarH10 - 3, shAppBtnW, 3⟩, uiAccent⟩]
        else if !s.shell.minimized i then
          [⟨⟨bx + 6, ty + shTaskbarH10 - 3, shAppBtnW - 12, 2⟩, 0x00555A61⟩]
        else []) ++
      [⟨⟨bx + 10, ty + shTaskbarH10 / 2 - 6, 12, 12⟩, uiAccentLt⟩] }

def appButtons (scr : Screen) (s : Wm) (maxX : Int) : List Nat → Int → List (Nat × TaskbarButton)
  | [], _ => []
  | i :: slots, bx =>
      if !((s.desk.wins i).normal && (s.desk.wins i).visible) then appButtons scr s maxX slots bx
      else if maxX < bx + shAppBtnW then []
      else (i, appButton scr s i bx) :: appButtons scr s maxX slots (bx + shAppBtnW + 4)

/-- The Start button, and the windows' by slot. -/
def shellTaskbarTc (scr : Screen) (s : Wm) : TaskbarButton × List (Nat × TaskbarButton) :=
  (startButton scr s,
    appButtons scr s (scr.width - shClockW - shTrayW - 8) (List.range maxWindows) (shStartBtnW + 8))

/-! ## What a press is for -/

inductive PressTarget
  | start
  | button (i : Nat)
  | menu
  | caption (i : Nat)
  | nothing
deriving DecidableEq

/-- The window whose caption takes the press, when no open menu does. -/
def captionPressed (scr : Screen) (x y : Int) (s : Wm) : Option Nat :=
  if s.shell.startMenuOpen && outsideMenu scr x y then none
  else (shellHit s x y).filter fun i => captionPart (s.desk.wins i).rect x y ≠ .body

def pressTarget (scr : Screen) (x y : Int) (s : Wm) : PressTarget :=
  if inTaskbar scr y && decide (x < shStartBtnW) then .start
  else
    match taskbarButton scr x y true s.desk with
    | some i => .button i
    | none =>
        if s.shell.startMenuOpen && outsideMenu scr x y then .menu
        else
          match captionPressed scr x y s with
          | some i => .caption i
          | none => .nothing

/-- The window a press acts on. -/
def PressTarget.window : PressTarget → Option Nat
  | .button i => some i
  | .caption i => some i
  | _ => none

def PressTarget.outcome (scr : Screen) (x y : Int) (s : Wm) : PressTarget → Bool × Wm
  | .start =>
      (true, composeIfActive scr
        { s with shell := { s.shell with startMenuOpen := !s.shell.startMenuOpen } })
  | .button i => (true, composeIfActive scr (taskbarClick i s))
  | .menu => (true, composeIfActive scr { s with shell := { s.shell with startMenuOpen := false } })
  | .caption i => (true, (captionDown scr x y i s).getD s)
  | .nothing => (false, s)

/-- A window is dragged only while the left button is down. -/
def DragHeld (s : Wm) : Prop := s.shell.dragHwnd ≠ 0 → s.cursorButtons.testBit 0 = true

/-- The press is for what is painted at its point. -/
structure PressedAsPainted (scr : Screen) (x y : Int) (s : Wm) : Prop where
  start : pressTarget scr x y s = .start ↔ (shellTaskbarTc scr s).1.rect.contains x y = true
  window : ∀ i, (pressTarget scr x y s).window = some i ↔
    ∃ b, (i, b) ∈ (shellTaskbarTc scr s).2 ∧ b.rect.contains x y = true

/-- The windows with a button in the task bar, by slot. -/
def taskbarWindows (d : Desk) : List Nat :=
  (List.range maxWindows).filter fun i => (d.wins i).normal && (d.wins i).visible

/-- Where the button of the window that comes after `k` others is painted. -/
def PaintedBox (scr : Screen) (x y : Int) (k : Nat) : Prop :=
  216 + 164 * k ≤ scr.width - 250 ∧ 56 + 164 * k ≤ x ∧ x < 216 + 164 * k ∧ scr.height - 45 ≤ y

/-- Where it is pressed. -/
def PressBox (scr : Screen) (x : Int) (k : Nat) : Prop :=
  212 + 162 * k ≤ scr.width - 96 ∧ 52 + 162 * k ≤ x ∧ x < 212 + 162 * k

/-- The press is on the Start button, in both boxes of one window, or in no box that takes a
press while the caption under it is that of the window painted there, if any. -/
def PressRight (scr : Screen) (x y : Int) (s : Wm) : Prop :=
  x < shStartBtnW ∨
    (∃ k < (taskbarWindows s.desk).length, PaintedBox scr x y k ∧ PressBox scr x k) ∨
    ((∀ k < (taskbarWindows s.desk).length, ¬PressBox scr x k) ∧
      ∀ i, captionPressed scr x y s = some i ↔
        ∃ k, (taskbarWindows s.desk)[k]? = some i ∧ PaintedBox scr x y k)

section Painted

variable {scr : Screen} {s : Wm} {x y : Int} {i : Nat}

theorem appButtons_eq (maxX : Int) (l : List Nat) (bx : Int) : appButtons scr s maxX l bx =
    (boxRow (fun i => (s.desk.wins i).normal && (s.desk.wins i).visible) shAppBtnW (shAppBtnW + 4) maxX
      l bx).map fun b => (b.1, appButton scr s b.1 b.2) := by
  induction l generalizing bx with
  | nil => rfl
  | cons i l ih =>
    unfold appButtons boxRow
    split
    · exact ih bx
    · split
      · rfl
      · rw [ih, List.map_cons, Int.add_assoc]

theorem taskbarHit_eq (d : Desk) (maxX : Int) (l : List Nat) (bx : Int) : taskbarHit d x maxX l bx =
    boxAt (fun i => (d.wins i).normal && (d.wins i).visible) shAppBtnW (shAppBtnW + 2) maxX x l bx := by
  induction l generalizing bx with
  | nil => rfl
  | cons i l ih =>
    unfold taskbarHit boxAt boxRow
    split
    · exact ih bx
    · split
      · rfl
      · rw [List.find?_cons]
        split
        · rename_i hover
          rw [decide_eq_true hover]
          rfl
        · rename_i hover
          rw [decide_eq_false hover, ih, Int.add_assoc]
          rfl

theorem mem_taskbarWindows {d : Desk} {k : Nat} (h : (taskbarWindows d)[k]? = some i) :
    k < (taskbarWindows d).length :=
  (List.getElem?_eq_some_iff.mp h).1

theorem taskbarWindows_inj {d : Desk} {j k : Nat} (hj : (taskbarWindows d)[j]? = some i)
    (hk : (taskbarWindows d)[k]? = some i) : j = k := by
  have hnodup : (taskbarWindows d).Nodup := List.nodup_range.filter _
  exact (List.getElem?_inj (mem_taskbarWindows hj) hnodup).mp (hj.trans hk.symm)

theorem Rect.contains_iff (r : Rect) : r.contains x y = true ↔
    r.x ≤ x ∧ x < r.x + r.w ∧ r.y ≤ y ∧ y < r.y + r.h := decide_eq_true_iff

/-- The buttons are painted in their boxes. -/
theorem painted_iff (hy : y < scr.height) :
    (∃ b, (i, b) ∈ (shellTaskbarTc scr s).2 ∧ b.rect.contains x y = true) ↔
      ∃ k, (taskbarWindows s.desk)[k]? = some i ∧ PaintedBox scr x y k := by
  have hbox : ∀ at_ : Int, (appButton scr s i at_).rect.contains x y = true ↔
      at_ ≤ x ∧ x < at_ + 160 ∧ scr.height - 45 ≤ y := fun at_ => by
    rw [Rect.contains_iff]
    simp only [appButton, taskbarTop, shAppBtnW, shTaskbarH10]
    omega
  unfold shellTaskbarTc
  rw [appButtons_eq]
  constructor
  · rintro ⟨b, hb, hover⟩
    obtain ⟨⟨j, at_⟩, hmem, heq⟩ := List.mem_map.mp hb
    cases heq
    obtain ⟨k, hk, hat, hroom⟩ := (mem_boxRow (by decide) at_).mp hmem
    refine ⟨k, hk, ?_⟩
    have hwhere := (hbox at_).mp hover
    simp only [shAppBtnW, shStartBtnW, shClockW, shTrayW] at hat hroom
    unfold PaintedBox
    omega
  · rintro ⟨k, hk, hroom, hleft, hright, htop⟩
    refine ⟨appButton scr s i (56 + 164 * k), List.mem_map.mpr ⟨(i, 56 + 164 * k), ?_, rfl⟩, ?_⟩
    · refine (mem_boxRow (by decide) _).mpr ⟨k, hk, ?_, ?_⟩
      · simp only [shAppBtnW, shStartBtnW]
        omega
      · simp only [shAppBtnW, shClockW, shTrayW]
        omega
    · rw [hbox]
      omega

theorem covers_iff (k : Nat) : Covers shAppBtnW (shAppBtnW + 2) (scr.width - shClockW - 4)
    (shStartBtnW + 4) x k ↔ PressBox scr x k := by
  simp only [Covers, PressBox, shAppBtnW, shStartBtnW, shClockW]
  omega

theorem taskbarButton_eq (hx : shStartBtnW ≤ x) (hy : taskbarTop scr ≤ y) (d : Desk) :
    taskbarButton scr x y true d =
      boxAt (fun i => (d.wins i).normal && (d.wins i).visible) shAppBtnW (shAppBtnW + 2)
        (scr.width - shClockW - 4) x (List.range maxWindows) (shStartBtnW + 4) := by
  unfold taskbarButton inTaskbar
  rw [decide_eq_true hx, decide_eq_true (show scr.height - shTaskbarH10 ≤ y from hy)]
  exact taskbarHit_eq d _ _ _

theorem taskbarButton_some (hx : shStartBtnW ≤ x) (hy : taskbarTop scr ≤ y) {d : Desk} :
    taskbarButton scr x y true d = some i ↔
      ∃ k, (taskbarWindows d)[k]? = some i ∧ PressBox scr x k := by
  rw [taskbarButton_eq hx hy, boxAt_eq_some (by decide) (by decide)]
  simp only [covers_iff]
  rfl

theorem taskbarButton_none (hx : shStartBtnW ≤ x) (hy : taskbarTop scr ≤ y) {d : Desk} :
    taskbarButton scr x y true d = none ↔ ∀ k < (taskbarWindows d).length, ¬PressBox scr x k := by
  rw [taskbarButton_eq hx hy, boxAt_eq_none (by decide) (by decide)]
  simp only [covers_iff]
  rfl

end Painted

/-! ## What the shell does with a press -/

section Pressed

variable {scr : Screen} {s s' : Wm} {x y : Int} {i : Nat} {buttons : Nat}

theorem edgeUp_of_down {prev : Nat} (h : edgeDown buttons prev 0 = true) : edgeUp buttons prev 0 = false := by
  obtain ⟨hnow, -⟩ := edgeDown_iff.mp h
  simp [edgeUp, hnow]

theorem captionDown_none : captionDown scr x y i s = none ↔
    captionPart (s.desk.wins i).rect x y = .body := by
  unfold captionDown
  dsimp only
  split <;> simp_all

theorem shellBars_press (scr : Screen) (x y : Int) (s : Wm) : shellBars scr x y true s =
    match pressTarget scr x y s with
    | .start | .button _ | .menu => some ((pressTarget scr x y s).outcome scr x y s).2
    | _ => none := by
  unfold shellBars pressTarget
  rw [Bool.and_true, Bool.and_true]
  by_cases hstart : (inTaskbar scr y && decide (x < shStartBtnW)) = true
  · rw [if_pos hstart, if_pos hstart]
    rfl
  · rw [if_neg hstart, if_neg hstart]
    cases taskbarButton scr x y true s.desk with
    | some i => rfl
    | none =>
      by_cases hmenu : (s.shell.startMenuOpen && outsideMenu scr x y) = true
      · dsimp only
        rw [if_pos hmenu, if_pos hmenu]
        rfl
      · dsimp only
        rw [if_neg hmenu, if_neg hmenu]
        cases captionPressed scr x y s <;> rfl

/-- What the bars leave is the caption's, if anything's, and no open menu is in the way. -/
theorem pressTarget_left
    (h : (∃ i, pressTarget scr x y s = .caption i) ∨ pressTarget scr x y s = .nothing) :
    (s.shell.startMenuOpen && outsideMenu scr x y) = false ∧
      captionPressed scr x y s = (pressTarget scr x y s).window := by
  unfold pressTarget at h ⊢
  split at h
  · rcases h with ⟨i, h⟩ | h <;> cases h
  · rename_i hstart
    rw [if_neg hstart]
    cases hbutton : taskbarButton scr x y true s.desk with
    | some i =>
      rw [hbutton] at h
      rcases h with ⟨i, h⟩ | h <;> cases h
    | none =>
      rw [hbutton] at h
      dsimp only at h ⊢
      split at h
      · rcases h with ⟨i, h⟩ | h <;> cases h
      · rename_i hopen
        rw [if_neg hopen]
        refine ⟨by simpa using hopen, ?_⟩
        cases captionPressed scr x y s <;> rfl

theorem shellCaption_press (hopen : (s.shell.startMenuOpen && outsideMenu scr x y) = false) :
    shellCaption scr x y true false s =
      match captionPressed scr x y s with
      | some i => PressTarget.outcome scr x y s (.caption i)
      | none => (false, s) := by
  have hcaption : captionPressed scr x y s =
      (shellHit s x y).filter fun i => captionPart (s.desk.wins i).rect x y ≠ .body := by
    unfold captionPressed
    rw [hopen]
    rfl
  unfold shellCaption
  rw [hcaption]
  cases shellHit s x y with
  | none => rfl
  | some i =>
    rw [Option.bind_some, if_pos rfl]
    by_cases hbody : captionPart (s.desk.wins i).rect x y = .body
    · rw [captionDown_none.mpr hbody, Option.filter_some_neg (by simp [hbody])]
      rfl
    · rw [Option.filter_some_pos (by simp [hbody])]
      change _ = (true, (captionDown scr x y i s).getD s)
      cases hdown : captionDown scr x y i s with
      | none => exact absurd (captionDown_none.mp hdown) hbody
      | some s' => rfl

/-- What a press does is what its target says. -/
theorem shellOnMouse_press (hheld : DragHeld s) (hdown : edgeDown buttons s.cursorButtons 0 = true) :
    win32kShellOnMouse scr x y buttons s.cursorButtons s =
      (pressTarget scr x y s).outcome scr x y s := by
  have hdrag : s.shell.dragHwnd = 0 := by
    by_contra hne
    have hwas := hheld hne
    rw [(edgeDown_iff.mp hdown).2] at hwas
    cases hwas
  have hnone : shellDrag scr x y false s = none := by
    unfold shellDrag
    rw [if_pos hdrag]
  have hsame : ({ s with shell := { s.shell with dragHwnd := 0 } } : Wm) = s := by
    have heta : s = { s with shell := { s.shell with dragHwnd := s.shell.dragHwnd } } := rfl
    conv_rhs => rw [heta, hdrag]
  unfold win32kShellOnMouse
  rw [hdown, edgeUp_of_down hdown]
  dsimp only
  rw [hnone]
  dsimp only
  rw [hsame, shellBars_press]
  cases htarget : pressTarget scr x y s with
  | start => rfl
  | button i => rfl
  | menu => rfl
  | caption i =>
    obtain ⟨hopen, hcaption⟩ := pressTarget_left (.inl ⟨i, htarget⟩)
    change shellCaption scr x y true false s = _
    rw [shellCaption_press hopen, hcaption, htarget]
    rfl
  | nothing =>
    obtain ⟨hopen, hcaption⟩ := pressTarget_left (.inr htarget)
    change shellCaption scr x y true false s = _
    rw [shellCaption_press hopen, hcaption, htarget]
    rfl

/-! Only a press begins to drag -/

theorem ShellMove.dragHeld (h : ShellMove (edgeDown buttons s.cursorButtons 0)
    (edgeUp buttons s.cursorButtons 0) s s') (hbuttons : s'.cursorButtons = buttons) (hheld : DragHeld s) :
    DragHeld s' := by
  intro hne
  rw [hbuttons]
  cases h with
  | drag hdrag _ _ hdrag' =>
    have hwas := hheld hdrag
    by_contra hup
    rw [Bool.not_eq_true] at hup
    rw [hdrag', if_pos (by simp [edgeUp, hwas, hup])] at hne
    exact hne rfl
  | grab hdown => exact (edgeDown_iff.mp hdown).1
  | bar _ _ _ _ hdrag' | press _ _ _ _ _ hdrag' | close _ _ _ _ hdrag' | pass _ _ hdrag' =>
    exact absurd hdrag' hne
  | min _ _ _ _ _ _ _ _ _ hdrag' => exact absurd hdrag' hne
  | max _ _ _ _ _ _ _ _ _ _ hdrag' => exact absurd hdrag' hne

/-- Whatever the windows are, only the mouse reaches the shell. -/
theorem wmStep_quiet {op : WmOp} (h : op.buttons = none) : Quiet s (wmStep scr s op) := by
  have hcompose : ∀ s', Quiet s s' → Quiet s (win32kCompose scr s') := fun s' hq => by
    obtain ⟨-, hshell, hbuttons⟩ := compose_frame scr s'
    exact ⟨hshell.trans hq.shell, hbuttons.trans hq.buttons⟩
  cases op with
  | createWindow c owner =>
    change Quiet s (ntUserCreateWindowEx scr c owner s).2
    unfold ntUserCreateWindowEx
    split <;> exact ⟨rfl, rfl⟩
  | showWindow hwnd cmdShow =>
    change Quiet s (ntUserShowWindow scr hwnd cmdShow s).2
    unfold ntUserShowWindow
    split
    · exact ⟨rfl, rfl⟩
    · dsimp only
      split
      · have hframe := (showVisible_frame scr hwnd · ·)
        exact ⟨(hframe _ _).2.1, (hframe _ _).2.2⟩
      · exact ⟨rfl, rfl⟩
  | setFocus hwnd =>
    change Quiet s (ntUserSetFocus scr hwnd s).2
    unfold ntUserSetFocus
    split
    · exact ⟨rfl, rfl⟩
    · dsimp only
      split
      · exact ⟨rfl, rfl⟩
      · split
        · exact ⟨rfl, rfl⟩
        · exact hcompose _ ⟨rfl, rfl⟩
  | destroyWindow hwnd =>
    change Quiet s (ntUserDestroyWindow scr hwnd s).2
    unfold ntUserDestroyWindow
    split
    · exact ⟨rfl, rfl⟩
    · exact hcompose _ ⟨rfl, rfl⟩
  | reap eproc =>
    change Quiet s (win32kReapProcessWindows eproc s)
    unfold win32kReapProcessWindows
    split <;> exact ⟨rfl, rfl⟩
  | mouseAbs | mouseEvent => cases h
  | postKey hwnd ascii scancode => exact .of_frame (postKey_frame hwnd ascii scancode s)
  | onKey ascii scancode => exact .of_frame (onKey_frame ascii scancode s)
  | invalidate hwnd => exact .of_frame (invalidate_frame hwnd s)
  | getMessage => exact .of_frame (getMessage_frame scr s)
  | setCursor x y => exact .of_frame (cursorRepaint_frame scr _)
  | postMessage | postQuit | drawing | tick => exact ⟨rfl, rfl⟩

theorem wmStep_dragHeld (scr : Screen) (op : WmOp) (hheld : DragHeld s) : DragHeld (wmStep scr s op) := by
  cases hop : op.buttons with
  | none =>
    obtain ⟨hshell, hbuttons⟩ := @wmStep_quiet scr s op hop
    unfold DragHeld
    rw [hshell, hbuttons]
    exact hheld
  | some buttons =>
    obtain ⟨-, hbuttons, hmove⟩ := mouse_move scr s hop
    exact hmove.dragHeld hbuttons hheld

theorem windowRun_dragHeld (scr : Screen) (ops : List WmOp) {w : WindowWorld} (hheld : DragHeld w.wm) :
    DragHeld (windowRun scr w ops).wm := by
  induction ops generalizing w with
  | nil => exact hheld
  | cons op ops ih => exact ih (wmStep_dragHeld scr op hheld)

end Pressed

/-! ## Pressed where it is painted -/

section Agreement

variable {scr : Screen} {s : Wm} {x y : Int}

theorem pressTarget_start (hy : taskbarTop scr ≤ y) : pressTarget scr x y s = .start ↔ x < shStartBtnW := by
  unfold pressTarget
  rw [show inTaskbar scr y = true from decide_eq_true hy, Bool.true_and]
  split
  · rename_i hx
    exact ⟨fun _ => of_decide_eq_true hx, fun _ => rfl⟩
  · rename_i hx
    refine ⟨fun htarget => ?_, fun hlt => absurd (decide_eq_true hlt) hx⟩
    split at htarget
    · cases htarget
    · split at htarget
      · cases htarget
      · split at htarget <;> cases htarget

theorem pressTarget_window (hx : shStartBtnW ≤ x) : (pressTarget scr x y s).window =
    (taskbarButton scr x y true s.desk).or (captionPressed scr x y s) := by
  unfold pressTarget
  rw [decide_eq_false (show ¬x < shStartBtnW by omega), Bool.and_false, if_neg Bool.false_ne_true]
  cases taskbarButton scr x y true s.desk with
  | some i => rfl
  | none =>
    dsimp only
    rw [Option.none_or]
    split
    · rename_i hopen
      unfold captionPressed
      rw [if_pos hopen]
      rfl
    · cases captionPressed scr x y s <;> rfl

theorem PaintedBox.unique {j k : Nat} (hj : PaintedBox scr x y j) (hk : PaintedBox scr x y k) : j = k := by
  unfold PaintedBox at hj hk
  omega

theorem PressBox.unique {j k : Nat} (hj : PressBox scr x j) (hk : PressBox scr x k) : j = k := by
  unfold PressBox at hj hk
  omega

/-- The windows are pressed as painted when they are told apart by the same boxes. -/
theorem windows_asPainted (hx : shStartBtnW ≤ x) (hy : taskbarTop scr ≤ y) :
    (∀ i, (taskbarButton scr x y true s.desk).or (captionPressed scr x y s) = some i ↔
      ∃ k, (taskbarWindows s.desk)[k]? = some i ∧ PaintedBox scr x y k) ↔ PressRight scr x y s := by
  have hstart : ¬x < shStartBtnW := by omega
  cases hbutton : taskbarButton scr x y true s.desk with
  | some a =>
    obtain ⟨k, hk, hpress⟩ := (taskbarButton_some hx hy).mp hbutton
    have hlt := mem_taskbarWindows hk
    rw [Option.some_or]
    constructor
    · intro hagree
      obtain ⟨j, hj, hpainted⟩ := (hagree a).mp rfl
      rw [taskbarWindows_inj hj hk] at hpainted
      exact .inr (.inl ⟨k, hlt, hpainted, hpress⟩)
    · rintro (hleft | ⟨j, -, hpainted, hpress'⟩ | ⟨hnone, -⟩) i
      · exact absurd hleft hstart
      · rw [hpress'.unique hpress] at hpainted
        constructor
        · intro heq
          exact ⟨k, hk.trans heq, hpainted⟩
        · rintro ⟨j, hj, hpainted'⟩
          rw [hpainted'.unique hpainted, hk] at hj
          exact hj
      · exact absurd hpress (hnone k hlt)
  | none =>
    have hnone := (taskbarButton_none hx hy).mp hbutton
    rw [Option.none_or]
    constructor
    · intro hagree
      exact .inr (.inr ⟨hnone, hagree⟩)
    · rintro (hleft | ⟨k, hk, -, hpress⟩ | ⟨-, hagree⟩)
      · exact absurd hleft hstart
      · exact absurd hpress (hnone k hk)
      · exact hagree

/-- Which presses in the task bar are for what is painted there. -/
theorem pressedAsPainted_iff (hx : 0 ≤ x) (hy : taskbarTop scr ≤ y ∧ y < scr.height) :
    PressedAsPainted scr x y s ↔ PressRight scr x y s := by
  have hstart : pressTarget scr x y s = .start ↔
      (shellTaskbarTc scr s).1.rect.contains x y = true := by
    have hrect : (shellTaskbarTc scr s).1.rect.contains x y = true ↔ x < shStartBtnW := by
      rw [Rect.contains_iff]
      obtain ⟨htop, hbottom⟩ := hy
      unfold taskbarTop at htop
      simp only [shellTaskbarTc, startButton, taskbarTop]
      omega
    rw [hrect, pressTarget_start hy.1]
  by_cases hleft : x < shStartBtnW
  · refine ⟨fun _ => .inl hleft, fun _ => ⟨hstart, fun i => ?_⟩⟩
    rw [(pressTarget_start hy.1).mpr hleft, painted_iff hy.2]
    refine ⟨nofun, fun ⟨k, _, hpainted⟩ => ?_⟩
    unfold PaintedBox at hpainted
    unfold shStartBtnW at hleft
    omega
  · rw [← windows_asPainted (by omega) hy.1]
    constructor
    · intro hpress i
      rw [← pressTarget_window (by omega), ← painted_iff hy.2]
      exact hpress.window i
    · intro hagree
      refine ⟨hstart, fun i => ?_⟩
      rw [pressTarget_window (by omega), painted_iff hy.2]
      exact hagree i

/-- In every history only a window under a held button is dragged. A press in the task bar then
does what its target says, and that is what is painted at the point exactly when the press is
right. -/
theorem taskbar_presses {buttons : Nat} (hheld : DragHeld s)
    (hdown : edgeDown buttons s.cursorButtons 0 = true) (hx : 0 ≤ x)
    (hy : taskbarTop scr ≤ y ∧ y < scr.height) :
    (∀ ops, DragHeld (windowRun scr windowStart ops).wm) ∧
    win32kShellOnMouse scr x y buttons s.cursorButtons s = (pressTarget scr x y s).outcome scr x y s ∧
    (PressedAsPainted scr x y s ↔ PressRight scr x y s) :=
  ⟨fun ops => windowRun_dragHeld scr ops fun hne => absurd rfl hne, shellOnMouse_press hheld hdown,
    pressedAsPainted_iff hx hy⟩

/-- A window is created and shown. -/
def oneShown : Wm :=
  (windowRun gpuScreen windowStart [.createWindow ⟨⟨10, 10, 250, 100⟩, 0⟩ 0, .showWindow 1 1]).wm

theorem taskbar_presses_inside : PressedAsPainted gpuScreen 60 730 oneShown := by
  have hheld : DragHeld oneShown := fun hne => absurd rfl hne
  refine (@taskbar_presses gpuScreen oneShown 60 730 1 hheld (by decide) (by decide) (by decide)).2.2.mpr
    (.inr (.inl ⟨0, by decide +kernel, ?_⟩))
  unfold PaintedBox PressBox
  decide

/-- Left of the window's button, where nothing is painted, a press minimises the window. -/
theorem press_beside_button :
    (¬∃ b, (0, b) ∈ (shellTaskbarTc gpuScreen oneShown).2 ∧ b.rect.contains 53 730 = true) ∧
    pressTarget gpuScreen 53 730 oneShown = .button 0 ∧
    (win32kShellOnMouse gpuScreen 53 730 1 oneShown.cursorButtons oneShown).2.shell.minimized 0 = true ∧
    ¬PressedAsPainted gpuScreen 53 730 oneShown := by
  have hnone : ¬∃ b, (0, b) ∈ (shellTaskbarTc gpuScreen oneShown).2 ∧ b.rect.contains 53 730 = true := by
    have hall : ((shellTaskbarTc gpuScreen oneShown).2.all fun b => !b.2.rect.contains 53 730) = true := by
      decide +kernel
    rintro ⟨b, hmem, hover⟩
    have hnot := List.all_eq_true.mp hall _ hmem
    simp [hover] at hnot
  have htarget : pressTarget gpuScreen 53 730 oneShown = .button 0 := by decide +kernel
  refine ⟨hnone, htarget, by decide +kernel, fun hpress => hnone ((hpress.window 0).mp ?_)⟩
  rw [htarget]
  rfl

end Agreement

end MeuOS.Win32
