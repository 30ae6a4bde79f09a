import MeuOS.Win32.Painted

/-! Mouse events in every history: where their messages go and who gets the focus. -/
namespace MeuOS.Win32

open MeuOS.Lib

/-- From `WM_MOUSEMOVE` to `WM_MBUTTONUP`. -/
def Msg.isMouse (m : Msg) : Bool := decide (wmMousemove ≤ m.message ∧ m.message ≤ wmMbuttonup)

/-- Where a mouse event takes the cursor. -/
def WmOp.pointer (scr : Screen) (s : Wm) : WmOp → Int × Int
  | .mouseAbs x y _ => clampTo scr x y
  | .mouseEvent dx dy _ =>
      let at_ := if s.cursorInitialized then s.cursor else (scr.width / 2, scr.height / 2)
      clampTo scr (at_.1 + dx) (at_.2 + dy)
  | _ => s.cursor

/-- The state a mouse event is routed in. -/
def pointed (scr : Screen) (s : Wm) (op : WmOp) : Wm :=
  { s with cursor := op.pointer scr s, cursorInitialized := true }

def shellTakes (scr : Screen) (s : Wm) (buttons : Nat) : Bool :=
  (win32kShellOnMouse scr s.cursor.1 s.cursor.2 buttons s.cursorButtons s).1

/-- The focus after an event for the window that was hit: a press gives it, to what is not the
desktop. -/
def focusAfter (s : Wm) (buttons : Nat) : Option Nat → Nat
  | some i =>
      if edgeDown buttons s.cursorButtons 0 && !(s.desk.wins i).desktop then (s.desk.wins i).id
      else s.desk.focusId
  | none => s.desk.focusId

/-- A mouse event is for the window that was hit, unless the shell takes it. -/
structure Received (scr : Screen) (s s' : Wm) (ms : List Msg) (buttons : Nat) (hit : Option Nat) : Prop where
  messages : ∀ m ∈ ms, m.isMouse = true → shellTakes scr s buttons = false ∧
    ∃ i, hit = some i ∧ m.hwnd = (s.desk.wins i).id
  moved : shellTakes scr s buttons = false → ∀ i, hit = some i →
    ∃ m ∈ ms, m.message = wmMousemove ∧ m.hwnd = (s.desk.wins i).id
  focused : shellTakes scr s buttons = false → s'.desk.focusId = focusAfter s buttons hit
  /-- A press that the shell takes gives it to the window it is for. -/
  taken : shellTakes scr s buttons = true → edgeDown buttons s.cursorButtons 0 = true →
    s'.desk.focusId = s.desk.focusId ∨
      ∃ i, s'.desk.focusId = (s.desk.wins i).id ∧
        (shellHit s s.cursor.1 s.cursor.2 = some i ∨
          pressTarget scr s.cursor.1 s.cursor.2 s = .button i)

section Routing

variable {scr : Screen} {s s' : Wm} {buttons i : Nat}

/-- What the shell leaves has the windows as they were. -/
theorem shellOnMouse_left {x y : Int}
    (h : win32kShellOnMouse scr x y buttons s.cursorButtons s = (false, s')) :
    s'.desk = s.desk ∧ s'.cursor = s.cursor ∧ s'.cursorButtons = s.cursorButtons := by
  unfold win32kShellOnMouse at h
  dsimp only at h
  split at h
  · cases h
  · split at h
    · cases h
    · unfold shellCaption at h
      dsimp only at h
      split at h
      · cases h
      · cases h
        split <;> exact ⟨rfl, rfl, rfl⟩

theorem shellMsg_not_mouse {m : Msg} (h : ShellMsg s m) : m.isMouse = false := by
  unfold Msg.isMouse
  rcases h with h | ⟨h, -⟩ <;> rw [h] <;> decide

theorem paint_not_mouse (m : Msg) (h : m.message = wmPaint) : m.isMouse = false := by
  unfold Msg.isMouse
  rw [h]
  decide

theorem postButton_hwnd {bit down up : Nat} (s : Wm) :
    Posts (·.hwnd = (s.desk.wins i).id) s (postButton buttons bit down up i s) := by
  unfold postButton
  split
  · exact .refl s
  · exact (queuePost_posts ..).mono fun _ hm => hm.1

/-- The first message to the window that was hit is the move. -/
theorem postMouse_asks (buttons i : Nat) (s : Wm) : ∃ m ms, m.message = wmMousemove ∧
    (∀ m' ∈ m :: ms, m'.hwnd = (s.desk.wins i).id) ∧
    (postMouse buttons i s).mail = s.mail.askAll (m :: ms) := by
  let m : Msg := ⟨(s.desk.wins i).id, wmMousemove, mkButtons buttons,
    packLparamPoint (s.cursor.1 - (s.desk.wins i).rect.x) (s.cursor.2 - (s.desk.wins i).rect.y),
    s.mail.ticks % 2 ^ 32, (0, 0)⟩
  let moved := s.queuePost m.hwnd m.message m.wParam m.lParam
  let left := postButton buttons 0 wmLbuttondown wmLbuttonup i moved
  let clicked := focusClicked buttons i left
  let right := postButton buttons 1 wmRbuttondown wmRbuttonup i clicked
  have hleft : left.desk = s.desk := (postButton_frame ..).1
  have hclicked : clicked.desk.wins = s.desk.wins := by
    rw [← hleft]
    change (focusClicked buttons i left).desk.wins = _
    unfold focusClicked
    split <;> rfl
  have hright : right.desk.wins = s.desk.wins := by
    rw [show right.desk = clicked.desk from (postButton_frame ..).1, hclicked]
  have hposts₁ : Posts (·.hwnd = (s.desk.wins i).id) moved left := postButton_hwnd moved
  have hposts₂ : Posts (·.hwnd = (s.desk.wins i).id) left clicked := .of_mail (focusClicked_mail ..)
  have hposts₃ : Posts (·.hwnd = (s.desk.wins i).id) clicked right := by
    rw [← hclicked]
    exact postButton_hwnd clicked
  have hposts₄ : Posts (·.hwnd = (s.desk.wins i).id) right (postMouse buttons i s) := by
    rw [← hright]
    exact postButton_hwnd right
  obtain ⟨ms, hms, hmail⟩ := hposts₁.trans (hposts₂.trans (hposts₃.trans hposts₄))
  refine ⟨m, ms, rfl, fun m' hm' => ?_, hmail⟩
  rcases List.mem_cons.mp hm' with rfl | hm'
  · rfl
  · exact hms m' hm'

theorem postMouse_focus (buttons i : Nat) (s : Wm) : (postMouse buttons i s).desk.focusId =
    if edgeDown buttons s.cursorButtons 0 && !(s.desk.wins i).desktop then (s.desk.wins i).id
    else s.desk.focusId := by
  let left := postButton buttons 0 wmLbuttondown wmLbuttonup i
    (s.queuePost (s.desk.wins i).id wmMousemove (mkButtons buttons)
      (packLparamPoint (s.cursor.1 - (s.desk.wins i).rect.x) (s.cursor.2 - (s.desk.wins i).rect.y)))
  have hleft : left.desk = s.desk ∧ left.cursorButtons = s.cursorButtons := by
    change (postButton _ _ _ _ _ _).desk = _ ∧ (postButton _ _ _ _ _ _).cursorButtons = _
    unfold postButton
    split <;> exact ⟨rfl, rfl⟩
  have hlast : (postMouse buttons i s).desk = (focusClicked buttons i left).desk :=
    (postButton_frame ..).1.trans (postButton_frame ..).1
  rw [hlast]
  unfold focusClicked
  rw [hleft.2, hleft.1]
  split
  · rfl
  · rw [hleft.1]

theorem postToHit_asks (buttons : Nat) (s : Wm) : ∃ ms,
    (postToHit buttons s).mail = s.mail.askAll ms ∧
    (∀ m ∈ ms, ∃ i, hitTest s.desk s.cursor.1 s.cursor.2 = some i ∧ m.hwnd = (s.desk.wins i).id) ∧
    ∀ i, hitTest s.desk s.cursor.1 s.cursor.2 = some i →
      ∃ m ∈ ms, m.message = wmMousemove ∧ m.hwnd = (s.desk.wins i).id := by
  unfold postToHit
  cases hitTest s.desk s.cursor.1 s.cursor.2 with
  | none => exact ⟨[], rfl, nofun, nofun⟩
  | some i =>
    obtain ⟨m, ms, hmove, hhwnd, hmail⟩ := postMouse_asks buttons i s
    refine ⟨m :: ms, hmail, fun m' hm' => ⟨i, rfl, hhwnd m' hm'⟩, fun j hj => ?_⟩
    cases hj
    exact ⟨m, List.mem_cons_self .., hmove, hhwnd m (List.mem_cons_self ..)⟩

theorem postToHit_focus (buttons : Nat) (s : Wm) : (postToHit buttons s).desk.focusId =
    focusAfter s buttons (hitTest s.desk s.cursor.1 s.cursor.2) := by
  unfold postToHit
  cases hitTest s.desk s.cursor.1 s.cursor.2 with
  | none => rfl
  | some i => exact postMouse_focus buttons i s

theorem captionPressed_some {x y : Int} (h : captionPressed scr x y s = some i) :
    shellHit s x y = some i := by
  unfold captionPressed at h
  split at h
  · cases h
  · exact (Option.filter_eq_some_iff.mp h).1

theorem captionDown_focus {x y : Int} (h : captionDown scr x y i s = some s') :
    s'.desk.focusId = s.desk.focusId ∨ s'.desk.focusId = (s.desk.wins i).id := by
  unfold captionDown at h
  dsimp only at h
  split at h <;> cases h
  case h_4 => exact .inr (by rw [(composeIfActive_frame ..).1])
  all_goals exact .inl (by rw [(composeIfActive_frame ..).1])

theorem taskbarClick_focus (i : Nat) (s : Wm) : (taskbarClick i s).desk.focusId = s.desk.focusId ∨
    (taskbarClick i s).desk.focusId = (s.desk.wins i).id := by
  unfold taskbarClick
  dsimp only
  split
  · exact .inr rfl
  · split
    · exact .inl rfl
    · exact .inr rfl

/-- The focus goes to the window a press is for. -/
theorem outcome_focus {x y : Int} : let s' := ((pressTarget scr x y s).outcome scr x y s).2
    s'.desk.focusId = s.desk.focusId ∨ ∃ i, s'.desk.focusId = (s.desk.wins i).id ∧
      (shellHit s x y = some i ∨ pressTarget scr x y s = .button i) := by
  dsimp only
  cases htarget : pressTarget scr x y s with
  | start | menu =>
    left
    unfold PressTarget.outcome
    dsimp only
    rw [(composeIfActive_frame ..).1]
  | nothing => exact .inl rfl
  | button i =>
    unfold PressTarget.outcome
    dsimp only
    rw [(composeIfActive_frame ..).1]
    exact (taskbarClick_focus i s).imp_right fun hid => ⟨i, hid, .inr rfl⟩
  | caption i =>
    have hpressed := (pressTarget_left (.inl ⟨i, htarget⟩)).2
    rw [htarget] at hpressed
    unfold PressTarget.outcome
    dsimp only
    cases hdown : captionDown scr x y i s with
    | none => exact .inl rfl
    | some s' =>
      have hhit := captionPressed_some hpressed
      exact (captionDown_focus hdown).imp_right fun hid => ⟨i, hid, .inl hhit⟩

theorem askAll_append (mail : Mail) (ms ms' : List Msg) :
    mail.askAll (ms ++ ms') = (mail.askAll ms).askAll ms' :=
  List.foldl_append ..

/-- A routed event is for the window that is hit. -/
theorem routeMouse_received (hheld : DragHeld s) : ∃ ms,
    (win32kRouteMouse scr buttons s).mail = s.mail.askAll ms ∧
    Received scr s (win32kRouteMouse scr buttons s) ms buttons (hitTest s.desk s.cursor.1 s.cursor.2) := by
  obtain ⟨ms₀, hshell, hmail₀⟩ :=
    @shellOnMouse_posts scr s s.cursor.1 s.cursor.2 buttons s.cursorButtons
  cases htakes : win32kShellOnMouse scr s.cursor.1 s.cursor.2 buttons s.cursorButtons s with
  | mk took s₁ =>
  rw [htakes] at hmail₀
  have hshellTakes : shellTakes scr s buttons = took := congrArg Prod.fst htakes
  unfold win32kRouteMouse
  rw [htakes]
  cases took with
  | true =>
    refine ⟨ms₀, hmail₀, ⟨fun m hm hmouse => ?_, fun hleft => ?_, fun hleft => ?_, fun _ hdown => ?_⟩⟩
    · rw [shellMsg_not_mouse (hshell m hm)] at hmouse
      cases hmouse
    · rw [hshellTakes] at hleft
      cases hleft
    · rw [hshellTakes] at hleft
      cases hleft
    · have hfocus := @outcome_focus scr s s.cursor.1 s.cursor.2
      rw [← shellOnMouse_press hheld hdown, htakes] at hfocus
      exact hfocus
  | false =>
    obtain ⟨hdesk, hcursor, hbuttons⟩ := shellOnMouse_left htakes
    obtain ⟨ms₁, hmail₁, hhit, hmoved⟩ := postToHit_asks buttons s₁
    have hfocus := postToHit_focus buttons s₁
    have hsame : focusAfter s₁ buttons = focusAfter s buttons := by
      unfold focusAfter
      rw [hdesk, hbuttons]
    rw [hsame, hdesk, hcursor] at hfocus
    rw [hdesk, hcursor] at hhit hmoved
    let posted : Wm := { postToHit buttons s₁ with cursorButtons := buttons }
    -- what is drawn after the messages only asks for paint
    have hdrawn : ∀ s', s' = posted ∨ s' = composeIfActive scr posted → ∃ ms₂,
        (∀ m ∈ ms₂, m.message = wmPaint) ∧ s'.mail = posted.mail.askAll ms₂ ∧
          s'.desk = posted.desk := fun s' hs' => by
      rcases hs' with rfl | rfl
      · exact ⟨[], nofun, rfl, rfl⟩
      · obtain ⟨ms₂, hpaint, hmail₂⟩ := composeIfActive_posts scr posted
        exact ⟨ms₂, hpaint, hmail₂, (composeIfActive_frame scr posted).1⟩
    dsimp only
    obtain ⟨ms₂, hpaint, hmail₂, hdesk₂⟩ := hdrawn
      (if buttons ≠ s₁.cursorButtons then composeIfActive scr posted else posted) (by split <;> simp)
    refine ⟨ms₀ ++ (ms₁ ++ ms₂), ?_, ⟨fun m hm hmouse => ⟨hshellTakes, ?_⟩, fun _ i hi => ?_, fun _ => ?_,
      fun htaken => ?_⟩⟩
    · rw [askAll_append, askAll_append, ← hmail₀]
      exact hmail₂.trans (congrArg (Mail.askAll · ms₂) hmail₁)
    · rcases List.mem_append.mp hm with hm | hm
      · rw [shellMsg_not_mouse (hshell m hm)] at hmouse
        cases hmouse
      · rcases List.mem_append.mp hm with hm | hm
        · exact hhit m hm
        · rw [paint_not_mouse m (hpaint m hm)] at hmouse
          cases hmouse
    · obtain ⟨m, hm, hmove⟩ := hmoved i hi
      exact ⟨m, List.mem_append_right _ (List.mem_append_left _ hm), hmove⟩
    · rw [← hfocus]
      exact congrArg Desk.focusId hdesk₂
    · rw [hshellTakes] at htaken
      cases htaken

theorem Received.quiet {ms : List Msg} {hit : Option Nat} (h : Received scr s s' ms buttons hit)
    {s'' : Wm} {ms' : List Msg} (hpaint : ∀ m ∈ ms', m.message = wmPaint) (hdesk : s''.desk = s'.desk) :
    Received scr s s'' (ms ++ ms') buttons hit := by
  refine ⟨fun m hm hmouse => ?_, fun hleft i hi => ?_, fun hleft => ?_, fun htakes hdown => ?_⟩
  · rcases List.mem_append.mp hm with hm | hm
    · exact h.messages m hm hmouse
    · rw [paint_not_mouse m (hpaint m hm)] at hmouse
      cases hmouse
  · obtain ⟨m, hm, hmove⟩ := h.moved hleft i hi
    exact ⟨m, List.mem_append_left _ hm, hmove⟩
  · rw [hdesk]
    exact h.focused hleft
  · rw [hdesk]
    exact h.taken htakes hdown

/-- A mouse event in a state whose drag is held. -/
theorem mouse_received {op : WmOp} (hheld : DragHeld s) (hop : op.buttons = some buttons) :
    Received scr (pointed scr s op) (wmStep scr s op) (asked scr s op) buttons
      (hitTest s.desk (op.pointer scr s).1 (op.pointer scr s).2) := by
  have hstep : wmStep scr s op =
      win32kCursorRepaint scr (win32kRouteMouse scr buttons (pointed scr s op)) := by
    cases op with
    | mouseAbs x y b => cases hop; rfl
    | mouseEvent dx dy b => cases hop; rfl
    | _ => cases hop
  obtain ⟨ms, hmail, hreceived⟩ := @routeMouse_received scr (pointed scr s op) buttons hheld
  obtain ⟨ms', hpaint, hmail'⟩ := @cursorRepaint_posts scr (win32kRouteMouse scr buttons (pointed scr s op))
  have hasked : asked scr s op = ms ++ ms' := by
    apply asked_of_askAll
    rw [askAll_append, hstep]
    exact hmail'.trans (congrArg (Mail.askAll · ms') hmail)
  rw [hasked, hstep]
  exact hreceived.quiet hpaint (cursorRepaint_frame ..).1

end Routing

/-! ## The windows keep their layers -/

/-- Windows may go, and the rest keep their z. -/
structure Thinned (d d' : Desk) : Prop where
  nextZ : d'.nextZ = d.nextZ
  left : ∀ i, (d'.wins i).used = true → (d.wins i).used = true ∧ (d'.wins i).z = (d.wins i).z

/-- `s_next_z` does not overflow. -/
def ZRoom (s : Wm) : WmOp → Prop
  | .createWindow _ _ => s.desk.nextZ < 2 ^ 31 - 1
  | _ => True

/-- What routing a mouse event rests on. -/
structure PointerInv (s : Wm) : Prop where
  layers : Layered s.desk
  held : DragHeld s

section Layers

variable {scr : Screen} {s : Wm} {d d' d'' : Desk} {i : Nat}

theorem Thinned.refl (d : Desk) : Thinned d d := ⟨rfl, fun _ h => ⟨h, rfl⟩⟩

theorem Thinned.trans (h : Thinned d d') (h' : Thinned d' d'') : Thinned d d'' := by
  refine ⟨h'.nextZ.trans h.nextZ, fun i hu => ?_⟩
  obtain ⟨hu', hz'⟩ := h'.left i hu
  obtain ⟨hu₀, hz⟩ := h.left i hu'
  exact ⟨hu₀, hz'.trans hz⟩

theorem KeepsWindows.thinned (h : KeepsWindows d d') : Thinned d d' :=
  ⟨h.nextZ, fun i hu => ⟨(h.used i) ▸ hu, h.z i⟩⟩

theorem Layered.thin (h : Layered d) (ht : Thinned d d') : Layered d' := by
  refine ⟨fun i hi hu => ?_, ht.nextZ ▸ h.next, fun i hi j hj hui huj hz => ?_⟩
  · obtain ⟨hu₀, hz⟩ := ht.left i hu
    rw [hz, ht.nextZ]
    exact h.pass i hi hu₀
  · obtain ⟨hui₀, hzi⟩ := ht.left i hui
    obtain ⟨huj₀, hzj⟩ := ht.left j huj
    exact h.apart i hi j hj hui₀ huj₀ (hzi.symm.trans (hz.trans hzj))

theorem clear_thinned (d : Desk) (i id : Nat) : Thinned d ((d.clear i).refocus id) := by
  have hwins : ((d.clear i).refocus id).wins = (d.clear i).wins ∧
      ((d.clear i).refocus id).nextZ = d.nextZ := by
    rw [refocus_eq]
    exact ⟨rfl, rfl⟩
  refine ⟨hwins.2, fun j hu => ?_⟩
  rw [hwins.1] at hu ⊢
  have hji : j ≠ i := fun heq => by
    rw [heq, clear_self] at hu
    cases hu
  rw [clear_win _ hji] at hu ⊢
  exact ⟨hu, rfl⟩

theorem reapSlot_thinned (eproc : Nat) (d : Desk) (i : Nat) : Thinned d (d.reapSlot eproc i) := by
  unfold Desk.reapSlot
  split
  · refine ⟨rfl, fun j hu => ?_⟩
    dsimp only at hu ⊢
    by_cases hji : j = i
    · subst hji
      rw [Function.update_self] at hu
      cases hu
    · rw [Function.update_of_ne hji] at hu ⊢
      exact ⟨hu, rfl⟩
  · exact .refl d

theorem foldl_reap_thinned (eproc : Nat) (l : List Nat) (d : Desk) :
    Thinned d (l.foldl (Desk.reapSlot eproc) d) := by
  induction l generalizing d with
  | nil => exact .refl d
  | cons i l ih => exact (reapSlot_thinned eproc d i).trans (ih _)

theorem compose_thinned {s' : Wm} (h : Thinned d s'.desk) : Thinned d (win32kCompose scr s').desk := by
  rw [(compose_frame scr s').1]
  exact h

/-- No operation but a creation puts a window anywhere. -/
theorem wmStep_thinned (scr : Screen) (s : Wm) {op : WmOp} (hop : op.newSlot s.desk = none) :
    Thinned s.desk (wmStep scr s op).desk := by
  have hsame : ∀ s' : Wm, s'.desk = s.desk → Thinned s.desk s'.desk := fun s' hs' => hs' ▸ .refl s.desk
  cases op with
  | createWindow c owner =>
    refine hsame _ ?_
    change (ntUserCreateWindowEx scr c owner s).2.desk = _
    unfold ntUserCreateWindowEx
    rw [show freeSlot s.desk = none from hop]
  | showWindow hwnd cmdShow =>
    change Thinned s.desk (ntUserShowWindow scr hwnd cmdShow s).2.desk
    unfold ntUserShowWindow
    split
    · exact .refl s.desk
    · rename_i i _
      have hshown : Thinned s.desk
          (s.desk.setWin i { s.desk.wins i with visible := decide (cmdShow ≠ 0) }) :=
        KeepsWindows.thinned (keeps_setWin rfl)
      dsimp only
      split
      · rw [(showVisible_frame ..).1]
        exact hshown
      · exact hshown
  | setFocus hwnd =>
    change Thinned s.desk (ntUserSetFocus scr hwnd s).2.desk
    unfold ntUserSetFocus
    split
    · exact .refl s.desk
    · dsimp only
      split
      · exact .refl s.desk
      · split
        · exact .refl s.desk
        · exact compose_thinned (keeps_focus _).thinned
  | destroyWindow hwnd =>
    change Thinned s.desk (ntUserDestroyWindow scr hwnd s).2.desk
    unfold ntUserDestroyWindow
    split
    · exact .refl s.desk
    · exact compose_thinned (clear_thinned ..)
  | reap eproc =>
    change Thinned s.desk (win32kReapProcessWindows eproc s).desk
    unfold win32kReapProcessWindows
    split
    · exact .refl s.desk
    · exact foldl_reap_thinned ..
  | mouseAbs x y buttons => exact (mouse_move scr s rfl).1.windows.thinned
  | mouseEvent dx dy buttons => exact (mouse_move scr s rfl).1.windows.thinned
  | postKey hwnd ascii scancode => exact hsame _ (postKey_frame hwnd ascii scancode s).1
  | onKey ascii scancode => exact hsame _ (onKey_frame ascii scancode s).1
  | invalidate hwnd => exact hsame _ (invalidate_frame hwnd s).1
  | getMessage => exact hsame _ (getMessage_frame scr s).1
  | setCursor x y => exact hsame _ (cursorRepaint_frame scr _).1
  | postMessage | postQuit | drawing | tick => exact .refl s.desk

/-- A new window is put on top. -/
theorem Layered.add (h : Layered d) (i : Nat) {w : Wnd} (hw : w.z = d.nextZ) (nwin : Int)
    (nextId focusId : Nat) :
    Layered ⟨Function.update d.wins i w, nwin, nextId, d.nextZ + 1, focusId⟩ := by
  have hnext := h.next
  have hnew : (Function.update d.wins i w i).z = d.nextZ := by rw [Function.update_self, hw]
  have hold : ∀ j < maxWindows, j ≠ i → (Function.update d.wins i w j).used = true →
      (d.wins j).used = true ∧ (Function.update d.wins i w j).z = (d.wins j).z ∧ 1 ≤ (d.wins j).z ∧
        (d.wins j).z < d.nextZ := fun j hj hji hu => by
    rw [Function.update_of_ne hji] at hu ⊢
    exact ⟨hu, rfl, h.pass j hj hu⟩
  refine ⟨fun j hj hu => ?_, ?_, fun j hj k hk huj huk hz => ?_⟩
  · dsimp only at hu ⊢
    by_cases hji : j = i
    · rw [hji, hnew]
      omega
    · obtain ⟨-, hz, hlow, hhigh⟩ := hold j hj hji hu
      omega
  · dsimp only
    omega
  · dsimp only at huj huk hz
    by_cases hji : j = i <;> by_cases hki : k = i
    · rw [hji, hki]
    · obtain ⟨-, hzk, -, hhigh⟩ := hold k hk hki huk
      rw [hji, hnew] at hz
      omega
    · obtain ⟨-, hzj, -, hhigh⟩ := hold j hj hji huj
      rw [hki, hnew] at hz
      omega
    · obtain ⟨huj', hzj, -⟩ := hold j hj hji huj
      obtain ⟨huk', hzk, -⟩ := hold k hk hki huk
      exact h.apart j hj k hk huj' huk' (by omega)

theorem wmStep_layered (scr : Screen) (op : WmOp) (h : Layered s.desk) : Layered (wmStep scr s op).desk := by
  cases hslot : op.newSlot s.desk with
  | none => exact h.thin (wmStep_thinned scr s hslot)
  | some i =>
    cases op with
    | createWindow c owner =>
      change Layered (ntUserCreateWindowEx scr c owner s).2.desk
      unfold ntUserCreateWindowEx
      rw [show freeSlot s.desk = some i from hslot]
      apply h.add i
      rfl
    | _ => cases hslot

theorem windowReach_pointer {guard : Wm → WmOp → Prop} {w : WindowWorld}
    (hrun : WindowReach scr guard w) : PointerInv w.wm := by
  apply hrun.invariant
  · rintro _ rfl
    exact ⟨⟨fun _ _ hu => absurd hu Bool.false_ne_true, by decide,
      fun _ _ _ _ hu => absurd hu Bool.false_ne_true⟩, fun hne => absurd rfl hne⟩
  · rintro w op _ hinv - rfl
    exact ⟨wmStep_layered scr op hinv.layers, wmStep_dragHeld scr op hinv.held⟩

end Layers

/-! ## Every mouse event -/

section Histories

variable {scr : Screen} {w : WindowWorld} {op : WmOp} {buttons : Nat}

/-- A desktop window, and a window that is minimised by its button. -/
def desktopAndMinimized : List WmOp :=
  [.createWindow ⟨⟨0, 0, 0, 0⟩, 1⟩ 0, .showWindow 1 1, .createWindow ⟨⟨10, 10, 250, 100⟩, 0⟩ 0,
    .showWindow 2 1, .mouseAbs 130 15 1, .mouseAbs 130 15 0]

theorem desktopAndMinimized_reach : WindowReach gpuScreen ZRoom
    (windowRun gpuScreen windowStart desktopAndMinimized) := by
  have hnext : ∀ {w : WindowWorld} (op : WmOp), WindowReach gpuScreen ZRoom w → ZRoom w.wm op →
      WindowReach gpuScreen ZRoom (windowStep gpuScreen w op) := fun op h hroom => .step h hroom rfl
  have hcreate : ∀ {w : WindowWorld} (c : Create), WindowReach gpuScreen ZRoom w →
      w.wm.desk.nextZ < 2 ^ 31 - 1 →
      WindowReach gpuScreen ZRoom (windowStep gpuScreen w (.createWindow c 0)) := fun c h hroom =>
    hnext (.createWindow c 0) h hroom
  have hfirst := hnext (.showWindow 1 1) (hcreate ⟨⟨0, 0, 0, 0⟩, 1⟩ (.start rfl) (by decide)) trivial
  have hsecond := hnext (.showWindow 2 1)
    (hcreate ⟨⟨10, 10, 250, 100⟩, 0⟩ hfirst (by decide +kernel)) trivial
  exact hnext (.mouseAbs 130 15 0) (hnext (.mouseAbs 130 15 1) hsecond trivial) trivial

end Histories

end MeuOS.Win32
