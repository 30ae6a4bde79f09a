import MeuOS.Lib.Run
import MeuOS.Win32.Shell

/-! Histories of the message queue. Next to the system stand the messages that were accepted
and the ones retrieved, and the windows whose last invalidation has not been delivered.
An unbounded queue that coalesces paint requests says what posting ought to do. -/
namespace MeuOS.Win32

open MeuOS.Lib

inductive WmOp
  | createWindow (c : Create) (owner : Nat)
  | showWindow (hwnd : Nat) (cmdShow : Int)
  | setFocus (hwnd : Nat)
  | destroyWindow (hwnd : Nat)
  | reap (eproc : Nat)
  | postKey (hwnd ascii scancode : Nat)
  | invalidate (hwnd : Nat)
  | postMessage (hwnd msg wParam lParam : Nat)
  | postQuit (exitCode : Int)
  | onKey (ascii scancode : Nat)
  | mouseAbs (x y : Int) (buttons : Nat)
  | mouseEvent (dx dy : Int) (buttons : Nat)
  | setCursor (x y : Int)
  | getMessage
  /-- Another thread enters the drawing, or leaves it. -/
  | drawing (on : Bool)
  | tick

def wmStep (scr : Screen) (s : Wm) : WmOp → Wm
  | .createWindow c owner => (ntUserCreateWindowEx scr c owner s).2
  | .showWindow hwnd cmdShow => (ntUserShowWindow scr hwnd cmdShow s).2
  | .setFocus hwnd => (ntUserSetFocus scr hwnd s).2
  | .destroyWindow hwnd => (ntUserDestroyWindow scr hwnd s).2
  | .reap eproc => win32kReapProcessWindows eproc s
  | .postKey hwnd ascii scancode => (ntUserPostKey hwnd ascii scancode s).2
  | .invalidate hwnd => (ntUserInvalidate hwnd s).2
  | .postMessage hwnd msg wParam lParam => (ntUserPostMessage hwnd msg wParam lParam s).2
  | .postQuit exitCode => (ntUserPostQuitMessage exitCode s).2
  | .onKey ascii scancode => win32kOnKey ascii scancode s
  | .mouseAbs x y buttons => win32kOnMouseAbs scr x y buttons s
  | .mouseEvent dx dy buttons => win32kOnMouseEvent scr dx dy buttons s
  | .setCursor x y => win32kSetCursor scr x y s
  | .getMessage => (ntUserGetMessage scr s).2
  | .drawing on => { s with composing := on }
  | .tick => { s with mail := { s.mail with ticks := s.mail.ticks + 1 } }

/-- What a posting call returns. -/
def reported (s : Wm) : WmOp → Option Nat
  | .postKey hwnd ascii scancode => some (ntUserPostKey hwnd ascii scancode s).1
  | .invalidate hwnd => some (ntUserInvalidate hwnd s).1
  | .postMessage hwnd msg wParam lParam => some (ntUserPostMessage hwnd msg wParam lParam s).1
  | .postQuit exitCode => some (ntUserPostQuitMessage exitCode s).1
  | _ => none

/-- The message a retrieval takes from the queue. -/
def taken (scr : Screen) (s : Wm) : WmOp → Option Msg
  | .getMessage => (ntUserGetMessage scr s).1.bind Prod.snd
  | _ => none

/-! ## What an operation posts -/

def Mail.ask (mail : Mail) (m : Msg) : Mail := { mail.put m with posted := m :: mail.posted }

def Mail.askAll (mail : Mail) (ms : List Msg) : Mail := ms.foldl Mail.ask mail

/-- All that happens to the queue is that messages which satisfy `p` are posted. -/
def Posts (p : Msg → Prop) (s s' : Wm) : Prop :=
  ∃ ms, (∀ m ∈ ms, p m) ∧ s'.mail = s.mail.askAll ms

section Posting

variable {p q : Msg → Prop} {scr : Screen} {s s' s'' : Wm}

theorem Posts.of_mail (h : s'.mail = s.mail) : Posts p s s' := ⟨[], nofun, h⟩

theorem Posts.refl (s : Wm) : Posts p s s := .of_mail rfl

theorem Posts.mono (h : Posts p s s') (hpq : ∀ m, p m → q m) : Posts q s s' := by
  obtain ⟨ms, hp, hms⟩ := h
  exact ⟨ms, fun m hm => hpq m (hp m hm), hms⟩

theorem Posts.trans (h : Posts p s s') (h' : Posts p s' s'') : Posts p s s'' := by
  obtain ⟨ms, hp, hms⟩ := h
  obtain ⟨ms', hp', hms'⟩ := h'
  refine ⟨ms ++ ms', fun m hm => (List.mem_append.mp hm).elim (hp m) (hp' m), ?_⟩
  rw [hms', hms]
  exact (List.foldl_append ..).symm

/-- A change of anything but the mail in front of what posts. -/
theorem Posts.after (h : Posts p s' s'') (hmail : s'.mail = s.mail) : Posts p s s'' :=
  (Posts.of_mail hmail).trans h

theorem queuePost_posts (s : Wm) (hwnd msg wParam lParam : Nat) :
    Posts (fun m => m.hwnd = hwnd ∧ m.message = msg) s (s.queuePost hwnd msg wParam lParam) := by
  refine ⟨[⟨hwnd, msg, wParam, lParam, s.mail.ticks % 2 ^ 32, (0, 0)⟩], fun m hm => ?_, rfl⟩
  cases List.mem_singleton.mp hm
  exact ⟨rfl, rfl⟩

theorem queuePost_any (s : Wm) (hwnd msg wParam lParam : Nat) :
    Posts (fun _ => True) s (s.queuePost hwnd msg wParam lParam) :=
  (queuePost_posts ..).mono fun _ _ => trivial

theorem invalidateAll_posts (s : Wm) :
    Posts (·.message = wmPaint) s { s with mail := win32kInvalidateAll s.desk s.mail } := by
  have hfold : ∀ (l : List Nat) (s : Wm) (d : Desk),
      Posts (·.message = wmPaint) s { s with mail := l.foldl (invalidateSlot d) s.mail } := by
    intro l
    induction l with
    | nil => exact fun s d => .refl s
    | cons i l ih =>
      intro s d
      have hslot : Posts (·.message = wmPaint) s { s with mail := invalidateSlot d s.mail i } := by
        unfold invalidateSlot
        split
        · exact (queuePost_posts s (d.wins i).id wmPaint 0 0).mono fun _ => And.right
        · exact .refl s
      exact hslot.trans (ih { s with mail := invalidateSlot d s.mail i } d)
  exact hfold _ s s.desk

theorem compose_posts (scr : Screen) (s : Wm) : Posts (·.message = wmPaint) s (win32kCompose scr s) := by
  unfold win32kCompose
  split
  · exact .refl s
  · by_cases hgpu : scr.gpu = true
    · simp only [hgpu, if_true]
      exact (invalidateAll_posts s).trans (.of_mail rfl)
    · simp only [hgpu, Bool.false_eq_true, if_false]
      exact .of_mail rfl

theorem compose_any (scr : Screen) (s : Wm) : Posts (fun _ => True) s (win32kCompose scr s) :=
  (compose_posts scr s).mono fun _ _ => trivial

theorem composeIfActive_posts (scr : Screen) (s : Wm) :
    Posts (·.message = wmPaint) s (composeIfActive scr s) := by
  unfold composeIfActive
  split
  · exact compose_posts scr s
  · exact .refl s

theorem injectDemoInput_posts (text : List Nat) (s : Wm) :
    Posts (fun _ => True) s (win32kInjectDemoInput text s) := by
  have hfold : ∀ (hwnd : Nat) (s : Wm), Posts (fun _ => True) s (text.foldl (injectKey hwnd) s) := by
    induction text with
    | nil => exact fun _ => .refl
    | cons c text ih =>
      intro hwnd s
      exact ((queuePost_any ..).trans (queuePost_any ..)).trans (ih hwnd _)
  unfold win32kInjectDemoInput
  split
  · exact .refl s
  · exact (hfold _ s).trans (queuePost_any ..)

theorem showVisible_posts (hwnd : Nat) (w : Wnd) :
    Posts (fun _ => True) s (showVisible scr hwnd w s) := by
  have hshown : Posts (fun _ => True) s ((win32kCompose scr s).queuePost hwnd wmPaint 0 0) :=
    (compose_any scr s).trans (queuePost_any ..)
  unfold showVisible
  dsimp only
  split
  · exact hshown.trans ((injectDemoInput_posts ..).after rfl)
  · exact hshown

theorem postKeystroke_posts (hwnd ascii scancode : Nat) (s : Wm) :
    Posts (fun _ => True) s (postKeystroke hwnd ascii scancode s) := by
  unfold postKeystroke
  split
  · exact queuePost_any ..
  · exact (queuePost_any ..).trans (queuePost_any ..)

theorem createWindow_posts (c : Create) (owner : Nat) :
    Posts (fun _ => True) s (ntUserCreateWindowEx scr c owner s).2 := by
  unfold ntUserCreateWindowEx
  split
  · exact .refl s
  · exact (queuePost_any ..).after rfl

theorem showWindow_posts (hwnd : Nat) (cmdShow : Int) :
    Posts (fun _ => True) s (ntUserShowWindow scr hwnd cmdShow s).2 := by
  unfold ntUserShowWindow
  split
  · exact .refl s
  · dsimp only
    split
    · exact (showVisible_posts hwnd _).after rfl
    · exact .of_mail rfl

theorem setFocus_posts (hwnd : Nat) : Posts (fun _ => True) s (ntUserSetFocus scr hwnd s).2 := by
  unfold ntUserSetFocus
  split
  · exact .refl s
  · dsimp only
    split
    · exact .refl s
    · split
      · exact .refl s
      · exact (compose_any scr _).after rfl

theorem destroyWindow_posts (hwnd : Nat) :
    Posts (fun _ => True) s (ntUserDestroyWindow scr hwnd s).2 := by
  unfold ntUserDestroyWindow
  split
  · exact .refl s
  · exact (queuePost_any s hwnd wmDestroy 0 0).trans ((compose_any scr _).after rfl)

theorem reap_posts (eproc : Nat) : Posts p s (win32kReapProcessWindows eproc s) := by
  unfold win32kReapProcessWindows
  split <;> exact .of_mail rfl

theorem postKey_posts (hwnd ascii scancode : Nat) :
    Posts (fun _ => True) s (ntUserPostKey hwnd ascii scancode s).2 := by
  unfold ntUserPostKey
  split
  · exact .refl s
  · exact postKeystroke_posts ..

theorem invalidate_posts (hwnd : Nat) : Posts (fun _ => True) s (ntUserInvalidate hwnd s).2 := by
  unfold ntUserInvalidate
  split
  · exact .refl s
  · exact queuePost_any ..

theorem onKey_posts (ascii scancode : Nat) : Posts (fun _ => True) s (win32kOnKey ascii scancode s) := by
  unfold win32kOnKey
  split
  · exact .refl s
  · exact postKeystroke_posts ..

/-! The mouse -/

theorem shellDrag_mail {x y : Int} {up : Bool} (h : shellDrag scr x y up s = some s') :
    s'.mail = s.mail := by
  unfold shellDrag at h
  split at h
  · cases h
  · obtain ⟨i, -, rfl⟩ := Option.map_eq_some_iff.mp h
    rfl

theorem taskbarClick_mail (i : Nat) (s : Wm) : (taskbarClick i s).mail = s.mail := by
  unfold taskbarClick
  dsimp only
  split
  · rfl
  · split <;> rfl

theorem toggleMax_mail (i : Nat) (s : Wm) : (toggleMax scr i s).mail = s.mail := by
  unfold toggleMax
  split <;> rfl

theorem shellBars_posts {x y : Int} {down : Bool} (h : shellBars scr x y down s = some s') :
    Posts (·.message = wmPaint) s s' := by
  unfold shellBars at h
  dsimp only at h
  split at h
  · cases h
    exact (composeIfActive_posts scr _).after rfl
  · split at h
    · cases h
      exact (composeIfActive_posts scr _).after (taskbarClick_mail ..)
    · split at h
      · cases h
        exact (composeIfActive_posts scr _).after rfl
      · cases h

theorem captionDown_posts {x y : Int} {i : Nat} (h : captionDown scr x y i s = some s') :
    Posts (·.message = wmPaint) s s' := by
  unfold captionDown at h
  dsimp only at h
  split at h <;> cases h
  all_goals exact (composeIfActive_posts scr _).after rfl

/-- The shell's own messages: paint requests, and the close of a window whose button was
pressed and let go. -/
def ShellMsg (s : Wm) (m : Msg) : Prop :=
  m.message = wmPaint ∨
    m.message = wmClose ∧ ∃ i < maxWindows, (s.desk.wins i).used = true ∧
      s.shell.pendingClose = some i ∧ m.hwnd = (s.desk.wins i).id

theorem shellHit_some {x y : Int} {i : Nat} (h : shellHit s x y = some i) :
    i < maxWindows ∧ (s.desk.wins i).normal = true := by
  obtain ⟨hi, htest⟩ := topmost_some h
  simp only [Bool.and_eq_true] at htest
  exact ⟨hi, htest.1.1.1⟩

theorem used_of_normal {w : Wnd} (h : w.normal = true) : w.used = true := by
  unfold Wnd.normal at h
  rw [Bool.and_eq_true] at h
  exact h.1

theorem captionUp_posts {x y : Int} {i : Nat} (hi : i < maxWindows) (hused : (s.desk.wins i).used = true)
    (h : captionUp scr x y i s = some s') : Posts (ShellMsg s) s s' := by
  unfold captionUp at h
  dsimp only at h
  split at h
  · split at h
    · rename_i harmed
      cases h
      refine Posts.trans ((queuePost_posts s (s.desk.wins i).id wmClose 0 0).mono fun m hm => ?_)
        (((composeIfActive_posts scr _).after rfl).mono fun _ => .inl)
      exact .inr ⟨hm.2, i, hi, hused, harmed, hm.1⟩
    · cases h
  · split at h
    · cases h
      exact ((composeIfActive_posts scr _).after rfl).mono fun _ => .inl
    · cases h
  · split at h
    · cases h
      have hdrawn := composeIfActive_posts scr
        { toggleMax scr i s with shell := { (toggleMax scr i s).shell with pendingMax := none } }
      exact (Posts.after hdrawn (toggleMax_mail i s)).mono fun _ => .inl
    · cases h
  · cases h

theorem shellCaption_posts (x y : Int) (down up : Bool) :
    Posts (ShellMsg s) s (shellCaption scr x y down up s).2 := by
  unfold shellCaption
  dsimp only
  split
  · rename_i hacted
    obtain ⟨i, hhit, hacted⟩ := Option.bind_eq_some_iff.mp hacted
    obtain ⟨hi, hnormal⟩ := shellHit_some hhit
    split at hacted
    · exact (captionDown_posts hacted).mono fun _ => .inl
    · split at hacted
      · exact captionUp_posts hi (used_of_normal hnormal) hacted
      · cases hacted
  · dsimp only
    split <;> exact .of_mail rfl

theorem shellOnMouse_posts (x y : Int) (buttons prev : Nat) :
    Posts (ShellMsg s) s (win32kShellOnMouse scr x y buttons prev s).2 := by
  unfold win32kShellOnMouse
  dsimp only
  split
  · rename_i hdrag
    exact .of_mail (shellDrag_mail hdrag)
  · split
    · rename_i hbars
      exact ((shellBars_posts hbars).mono fun _ => .inl).after rfl
    · exact Posts.after ((shellCaption_posts x y _ _).mono fun _ hm => hm) rfl

/-- What a mouse event posts. -/
def MouseMsg (s : Wm) (m : Msg) : Prop := ShellMsg s m ∨ m.message ≠ wmClose

theorem postButton_posts {buttons bit down up i : Nat} (hdown : down ≠ wmClose) (hup : up ≠ wmClose)
    (s : Wm) : Posts (·.message ≠ wmClose) s (postButton buttons bit down up i s) := by
  unfold postButton
  split
  · exact .refl s
  · refine (queuePost_posts ..).mono fun m hm => ?_
    rw [hm.2]
    split
    · exact hdown
    · exact hup

theorem focusClicked_mail (buttons i : Nat) (s : Wm) : (focusClicked buttons i s).mail = s.mail := by
  unfold focusClicked
  split <;> rfl

theorem postMouse_posts (buttons i : Nat) (s : Wm) :
    Posts (·.message ≠ wmClose) s (postMouse buttons i s) := by
  have hmove : ∀ m : Msg, m.hwnd = (s.desk.wins i).id ∧ m.message = wmMousemove → m.message ≠ wmClose := by
    intro m hm
    rw [hm.2]
    decide
  unfold postMouse
  exact ((queuePost_posts ..).mono hmove).trans ((postButton_posts (by decide) (by decide) _).trans
    ((Posts.of_mail (focusClicked_mail ..)).trans
      ((postButton_posts (by decide) (by decide) _).trans (postButton_posts (by decide) (by decide) _))))

theorem postToHit_posts (buttons : Nat) (s : Wm) :
    Posts (·.message ≠ wmClose) s (postToHit buttons s) := by
  unfold postToHit
  split
  · exact postMouse_posts ..
  · exact .refl s

theorem paint_ne_close (m : Msg) (h : m.message = wmPaint) : m.message ≠ wmClose := by
  rw [h]
  decide

theorem routeMouse_posts (scr : Screen) (buttons : Nat) (s : Wm) :
    Posts (MouseMsg s) s (win32kRouteMouse scr buttons s) := by
  have hshell : Posts (MouseMsg s) s
      (win32kShellOnMouse scr s.cursor.1 s.cursor.2 buttons s.cursorButtons s).2 :=
    (shellOnMouse_posts ..).mono fun _ => .inl
  unfold win32kRouteMouse
  split
  · rename_i heq
    rw [heq] at hshell
    exact hshell.trans (.of_mail rfl)
  · rename_i s₁ heq
    rw [heq] at hshell
    dsimp only
    have hrouted : Posts (MouseMsg s) s₁ (postToHit buttons s₁) :=
      (postToHit_posts buttons s₁).mono fun _ => .inr
    split
    · have hdrawn := (composeIfActive_posts scr
        { postToHit buttons s₁ with cursorButtons := buttons }).mono paint_ne_close
      exact hshell.trans (hrouted.trans ((hdrawn.after rfl).mono fun _ => .inr))
    · exact hshell.trans (hrouted.trans (.of_mail rfl))

theorem cursorRepaint_posts (s : Wm) : Posts (·.message = wmPaint) s (win32kCursorRepaint scr s) := by
  unfold win32kCursorRepaint
  split
  · exact .refl s
  · exact composeIfActive_posts scr s

/-- A mouse event, with the cursor already where it goes. -/
theorem mouse_posts (scr : Screen) (buttons : Nat) (s : Wm) :
    Posts (MouseMsg s) s (win32kCursorRepaint scr (win32kRouteMouse scr buttons s)) :=
  (routeMouse_posts scr buttons s).trans
    ((cursorRepaint_posts _).mono fun m hm => .inr (paint_ne_close m hm))

theorem mouseAbs_posts (x y : Int) (buttons : Nat) :
    Posts (MouseMsg s) s (win32kOnMouseAbs scr x y buttons s) := by
  unfold win32kOnMouseAbs
  exact Posts.after ((mouse_posts scr buttons _).mono fun _ hm => hm) rfl

theorem mouseEvent_posts (dx dy : Int) (buttons : Nat) :
    Posts (MouseMsg s) s (win32kOnMouseEvent scr dx dy buttons s) := by
  unfold win32kOnMouseEvent
  exact Posts.after ((mouse_posts scr buttons _).mono fun _ hm => hm) rfl

theorem setCursor_posts (x y : Int) : Posts (·.message = wmPaint) s (win32kSetCursor scr x y s) := by
  unfold win32kSetCursor
  exact (cursorRepaint_posts _).after rfl

/-- A turn of `NtUserGetMessage` that takes nothing. -/
theorem getMessage_posts (h : taken scr s .getMessage = none) :
    Posts (fun _ => True) s (ntUserGetMessage scr s).2 := by
  unfold taken at h
  unfold ntUserGetMessage at h ⊢
  split
  · rename_i heq
    rw [heq] at h
    cases h
  · split
    · exact .refl s
    · split
      · exact (compose_any scr _).after rfl
      · exact .refl s

theorem wmStep_posts {op : WmOp} (htaken : taken scr s op = none) (htick : op ≠ .tick) :
    Posts (fun _ => True) s (wmStep scr s op) := by
  cases op with
  | createWindow c owner => exact createWindow_posts c owner
  | showWindow hwnd cmdShow => exact showWindow_posts hwnd cmdShow
  | setFocus hwnd => exact setFocus_posts hwnd
  | destroyWindow hwnd => exact destroyWindow_posts hwnd
  | reap eproc => exact reap_posts eproc
  | postKey hwnd ascii scancode => exact postKey_posts hwnd ascii scancode
  | invalidate hwnd => exact invalidate_posts hwnd
  | postMessage hwnd msg wParam lParam => exact queuePost_any ..
  | postQuit exitCode => exact queuePost_any ..
  | onKey ascii scancode => exact onKey_posts ascii scancode
  | mouseAbs x y buttons => exact (mouseAbs_posts x y buttons).mono fun _ _ => trivial
  | mouseEvent dx dy buttons => exact (mouseEvent_posts dx dy buttons).mono fun _ _ => trivial
  | setCursor x y => exact (setCursor_posts x y).mono fun _ _ => trivial
  | getMessage => exact getMessage_posts htaken
  | drawing on => exact .of_mail rfl
  | tick => exact absurd rfl htick

end Posting

/-! ## The queue against one without a bound -/

def Msg.isPaint (m : Msg) : Bool := m.message == wmPaint

/-- A paint request for a handle joins the one that is pending. -/
def idealPost (l : List Msg) (m : Msg) : List Msg :=
  if m.isPaint && l.any (fun p => p.isPaint && p.hwnd == m.hwnd) then l else l ++ [m]

def idealPosts (l ms : List Msg) : List Msg := ms.foldl idealPost l

def Mail.pending (mail : Mail) : List Msg := mail.queue.contents msgQueueCap

/-- What posting a message adds to the queue. -/
def Mail.accepts (mail : Mail) (m : Msg) : List Msg :=
  if msgQueueCap ≤ mail.queue.count ∨ m.message = wmPaint ∧ paintAlreadyQueued mail.queue m.hwnd then []
  else [m]

def Mail.acceptsAll : Mail → List Msg → List Msg
  | _, [] => []
  | mail, m :: ms => mail.accepts m ++ (mail.ask m).acceptsAll ms

def OnePaint (l : List Msg) : Prop := ((l.filter Msg.isPaint).map Msg.hwnd).Nodup

section Ideal

variable {mail : Mail} {l ms : List Msg} {m : Msg}

theorem paintAlreadyQueued_eq (mail : Mail) (hwnd : Nat) : paintAlreadyQueued mail.queue hwnd =
    mail.pending.any fun p => p.isPaint && p.hwnd == hwnd := rfl

theorem length_pending (mail : Mail) : mail.pending.length = mail.queue.count :=
  Fifo.length_contents ..

theorem ask_queue (mail : Mail) (m : Msg) : (mail.ask m).queue = (mail.put m).queue := rfl

theorem ask_sound (hq : mail.queue.Sound msgQueueCap) (m : Msg) :
    (mail.ask m).queue.Sound msgQueueCap := by
  rw [ask_queue]
  unfold Mail.put
  split
  · exact hq
  · split
    · exact hq
    · exact Fifo.push_sound hq (by omega) m

theorem ask_pending (hq : mail.queue.Sound msgQueueCap) (m : Msg) :
    (mail.ask m).pending = mail.pending ++ mail.accepts m := by
  unfold Mail.pending
  rw [ask_queue]
  unfold Mail.put Mail.accepts
  by_cases hfull : msgQueueCap ≤ mail.queue.count
  · rw [if_pos hfull, if_pos (.inl hfull), List.append_nil]
  · rw [if_neg hfull]
    by_cases hdup : m.message = wmPaint ∧ paintAlreadyQueued mail.queue m.hwnd = true
    · rw [if_pos hdup, if_pos (.inr hdup), List.append_nil]
    · rw [if_neg hdup, if_neg (by simp only [hfull, hdup, or_self, not_false_eq_true])]
      exact Fifo.push_contents hq (by omega) m

theorem askAll_sound (hq : mail.queue.Sound msgQueueCap) (ms : List Msg) :
    (mail.askAll ms).queue.Sound msgQueueCap := by
  induction ms generalizing mail with
  | nil => exact hq
  | cons m ms ih => exact ih (ask_sound hq m)

theorem askAll_pending (hq : mail.queue.Sound msgQueueCap) (ms : List Msg) :
    (mail.askAll ms).pending = mail.pending ++ mail.acceptsAll ms := by
  induction ms generalizing mail with
  | nil => exact (List.append_nil _).symm
  | cons m ms ih =>
    calc (mail.askAll (m :: ms)).pending = (mail.ask m).pending ++ (mail.ask m).acceptsAll ms :=
          ih (ask_sound hq m)
      _ = mail.pending ++ mail.acceptsAll (m :: ms) := by
        rw [ask_pending hq, List.append_assoc]
        rfl

theorem askAll_posted (ms : List Msg) : (mail.askAll ms).posted = ms.reverse ++ mail.posted := by
  induction ms generalizing mail with
  | nil => rfl
  | cons m ms ih =>
    rw [List.reverse_cons, List.append_assoc]
    exact ih

theorem length_idealPosts (l ms : List Msg) : l.length ≤ (idealPosts l ms).length := by
  induction ms generalizing l with
  | nil => exact Nat.le_refl _
  | cons m ms ih =>
    have hstep : l.length ≤ (idealPost l m).length := by
      unfold idealPost
      split
      · exact Nat.le_refl _
      · rw [List.length_append]
        omega
    exact Nat.le_trans hstep (ih _)

/-- The queue does what one without a bound would as long as there is room. -/
theorem askAll_ideal (hq : mail.queue.Sound msgQueueCap) (ms : List Msg) :
    (mail.askAll ms).pending = idealPosts mail.pending ms ↔
      (idealPosts mail.pending ms).length ≤ msgQueueCap := by
  constructor
  · intro h
    rw [← h, length_pending]
    exact (askAll_sound hq ms).count_le
  · induction ms generalizing mail with
    | nil => exact fun _ => rfl
    | cons m ms ih =>
      intro hfits
      have hlen := length_pending mail
      have hideal : idealPost mail.pending m = (mail.ask m).pending := by
        rw [ask_pending hq]
        unfold idealPost Mail.accepts
        rw [← paintAlreadyQueued_eq]
        by_cases hdup : m.message = wmPaint ∧ paintAlreadyQueued mail.queue m.hwnd = true
        · have hjoins : (m.isPaint && paintAlreadyQueued mail.queue m.hwnd) = true := by
            simpa [Msg.isPaint] using hdup
          rw [if_pos hjoins, if_pos (.inr hdup), List.append_nil]
        · have hnot : ¬(m.isPaint && paintAlreadyQueued mail.queue m.hwnd) = true := by
            simpa [Msg.isPaint] using hdup
          -- without room the unbounded queue would be too long already
          have hgrow := length_idealPosts (idealPost mail.pending m) ms
          have hone : (idealPost mail.pending m).length = mail.pending.length + 1 := by
            unfold idealPost
            rw [← paintAlreadyQueued_eq, if_neg hnot, List.length_append, List.length_singleton]
          have hroom : ¬msgQueueCap ≤ mail.queue.count := by
            change (idealPosts (idealPost mail.pending m) ms).length ≤ msgQueueCap at hfits
            omega
          rw [if_neg hnot, if_neg (by simp only [hroom, hdup, or_self, not_false_eq_true])]
      change (idealPosts (idealPost mail.pending m) ms).length ≤ msgQueueCap at hfits
      change ((mail.ask m).askAll ms).pending = idealPosts (idealPost mail.pending m) ms
      rw [hideal] at hfits ⊢
      exact ih (ask_sound hq m) hfits

theorem accepts_onePaint (h : OnePaint mail.pending) (m : Msg) :
    OnePaint (mail.pending ++ mail.accepts m) := by
  unfold Mail.accepts
  split
  · rw [List.append_nil]
    exact h
  · rename_i hnew
    unfold OnePaint at h ⊢
    rw [List.filter_append, List.map_append, List.nodup_append]
    refine ⟨h, ?_, ?_⟩
    · by_cases hp : m.isPaint <;> simp [hp]
    · intro a ha b hb heq
      subst heq
      obtain ⟨p, hp, rfl⟩ := List.mem_map.mp ha
      obtain ⟨q, hq, hqa⟩ := List.mem_map.mp hb
      obtain ⟨hmem, hpaint⟩ := List.mem_filter.mp hp
      obtain ⟨hone, hmpaint⟩ := List.mem_filter.mp hq
      cases List.mem_singleton.mp hone
      apply hnew
      refine .inr ⟨by simpa [Msg.isPaint] using hmpaint, ?_⟩
      rw [paintAlreadyQueued_eq, List.any_eq_true]
      exact ⟨p, hmem, by simp [hpaint, hqa]⟩

theorem askAll_onePaint (hq : mail.queue.Sound msgQueueCap) (h : OnePaint mail.pending)
    (ms : List Msg) : OnePaint (mail.askAll ms).pending := by
  induction ms generalizing mail with
  | nil => exact h
  | cons m ms ih =>
    apply ih (ask_sound hq m)
    rw [ask_pending hq]
    exact accepts_onePaint h m

/-- What was pending stays so, and every paint request has one pending. -/
theorem mem_idealPosts (ms : List Msg) (hm : m ∈ l) : m ∈ idealPosts l ms := by
  induction ms generalizing l with
  | nil => exact hm
  | cons q ms ih =>
    apply ih
    unfold idealPost
    split
    · exact hm
    · exact List.mem_append_left _ hm

theorem idealPosts_paint (hm : m ∈ ms) (hpaint : m.isPaint = true) :
    ∃ p ∈ idealPosts l ms, p.isPaint = true ∧ p.hwnd = m.hwnd := by
  induction ms generalizing l with
  | nil => cases hm
  | cons q ms ih =>
    rcases List.mem_cons.mp hm with rfl | hm
    · have hnow : ∃ p ∈ idealPost l m, p.isPaint = true ∧ p.hwnd = m.hwnd := by
        unfold idealPost
        split
        · rename_i hdup
          rw [Bool.and_eq_true, List.any_eq_true] at hdup
          obtain ⟨-, p, hp, hsame⟩ := hdup
          rw [Bool.and_eq_true, beq_iff_eq] at hsame
          exact ⟨p, hp, hsame⟩
        · exact ⟨m, List.mem_append_right _ (List.mem_singleton_self m), hpaint, rfl⟩
      obtain ⟨p, hp, hsame⟩ := hnow
      exact ⟨p, mem_idealPosts ms hp, hsame⟩
    · exact ih hm

end Ideal

/-! ## Histories -/

/-- The window a message is for. -/
def Msg.window (m : Msg) : Nat := m.hwnd % 2 ^ 32

structure QueueWorld where
  wm : Wm
  accepted : List Msg
  retrieved : List Msg
  /-- The windows with an invalidation that has not been delivered. -/
  owed : List Nat

/-- The messages an operation gave to `queue_post`, in order. -/
def asked (scr : Screen) (s : Wm) (op : WmOp) : List Msg :=
  ((wmStep scr s op).mail.posted.take
    ((wmStep scr s op).mail.posted.length - s.mail.posted.length)).reverse

def paintWindows (ms : List Msg) : List Nat := (ms.filter Msg.isPaint).map Msg.window

def mailStep (scr : Screen) (w : QueueWorld) (op : WmOp) : QueueWorld :=
  { wm := wmStep scr w.wm op
    accepted := w.accepted ++ w.wm.mail.acceptsAll (asked scr w.wm op)
    retrieved := w.retrieved ++ (taken scr w.wm op).toList
    owed := (w.owed.filter fun h => h ∉ paintWindows (taken scr w.wm op).toList) ++
      paintWindows (asked scr w.wm op) }

def mailRun (scr : Screen) (w : QueueWorld) (ops : List WmOp) : QueueWorld := ops.foldl (mailStep scr) w

/-- All the messages of an operation are in the queue, or a paint request they joined is. -/
def Kept (scr : Screen) (s : Wm) (op : WmOp) : Prop :=
  (wmStep scr s op).mail.pending = idealPosts s.mail.pending (asked scr s op)

/-- There is room for the messages `queue_post` is given, those that join a pending paint
request not counted. -/
def Fits (scr : Screen) (s : Wm) (op : WmOp) : Prop :=
  (idealPosts s.mail.pending (asked scr s op)).length ≤ msgQueueCap

/-- There is room, and handles are the numbers of windows. -/
def Roomy (scr : Screen) (w : QueueWorld) (op : WmOp) : Prop :=
  Fits scr w.wm op ∧ ∀ m ∈ asked scr w.wm op, m.hwnd < 2 ^ 32

def WmOp.isGet : WmOp → Bool
  | .getMessage => true
  | _ => false

structure MailInv (w : QueueWorld) : Prop where
  sound : w.wm.mail.queue.Sound msgQueueCap
  order : w.accepted = w.retrieved ++ w.wm.mail.pending
  onePaint : OnePaint w.wm.mail.pending

structure RoomyInv (w : QueueWorld) : Prop where
  handles : ∀ m ∈ w.wm.mail.pending, m.hwnd < 2 ^ 32
  owed : ∀ h ∈ w.owed, ∃ m ∈ w.wm.mail.pending, m.isPaint = true ∧ m.window = h

section Histories

variable {scr : Screen} {s : Wm} {w : QueueWorld} {op : WmOp}

theorem asked_of_askAll (ms : List Msg) (h : (wmStep scr s op).mail = s.mail.askAll ms) :
    asked scr s op = ms := by
  unfold asked
  rw [h, askAll_posted, List.length_append, Nat.add_sub_cancel, List.take_left, List.reverse_reverse]

theorem getMessage_empty (h : s.mail.queue.count = 0) : taken scr s .getMessage = none := by
  change (ntUserGetMessage scr s).1.bind Prod.snd = none
  unfold ntUserGetMessage Mail.queuePop
  rw [if_pos h]
  dsimp only
  split
  · rfl
  · split <;> rfl

/-- The first message, and the queue without it. -/
theorem getMessage_first (scr : Screen) (h : 0 < s.mail.queue.count) :
    taken scr s .getMessage = some (s.mail.queue.slots s.mail.queue.head) ∧
      wmStep scr s .getMessage =
        { s with mail := { s.mail with queue := s.mail.queue.drop msgQueueCap } } := by
  change (ntUserGetMessage scr s).1.bind Prod.snd = _ ∧ (ntUserGetMessage scr s).2 = _
  unfold ntUserGetMessage Mail.queuePop
  rw [if_neg (by omega)]
  exact ⟨rfl, rfl⟩

/-- An operation posts, takes the first message, or lets time pass. -/
theorem wmStep_mail (scr : Screen) (s : Wm) (op : WmOp) :
    (taken scr s op = none ∧ (wmStep scr s op).mail = s.mail.askAll (asked scr s op)) ∨
    (op = .getMessage ∧ 0 < s.mail.queue.count ∧ asked scr s op = [] ∧
      taken scr s op = some (s.mail.queue.slots s.mail.queue.head) ∧
      (wmStep scr s op).mail = { s.mail with queue := s.mail.queue.drop msgQueueCap }) ∨
    (op = .tick ∧ taken scr s op = none ∧ asked scr s op = [] ∧
      (wmStep scr s op).mail.queue = s.mail.queue) := by
  by_cases htick : op = .tick
  · subst htick
    refine .inr (.inr ⟨rfl, rfl, ?_, rfl⟩)
    unfold asked wmStep
    rw [Nat.sub_self]
    rfl
  · cases htaken : taken scr s op with
    | none =>
      obtain ⟨ms, -, hms⟩ := wmStep_posts htaken htick
      refine .inl ⟨rfl, ?_⟩
      rw [asked_of_askAll ms hms]
      exact hms
    | some m =>
      cases op with
      | getMessage =>
        have hsome : 0 < s.mail.queue.count := by
          apply Nat.pos_of_ne_zero
          intro hempty
          rw [getMessage_empty hempty] at htaken
          cases htaken
        obtain ⟨hfirst, hstep⟩ := getMessage_first scr hsome
        refine .inr (.inl ⟨rfl, hsome, ?_, htaken.symm.trans hfirst, by rw [hstep]⟩)
        unfold asked
        rw [hstep, Nat.sub_self]
        rfl
      | _ => cases htaken

theorem pending_of_queue {mail mail' : Mail} (h : mail'.queue = mail.queue) :
    mail'.pending = mail.pending := by
  unfold Mail.pending
  rw [h]

/-- What an operation does to the pending messages. -/
theorem step_pending (hq : s.mail.queue.Sound msgQueueCap) (scr : Screen) (op : WmOp) :
    (wmStep scr s op).mail.queue.Sound msgQueueCap ∧
    s.mail.pending ++ s.mail.acceptsAll (asked scr s op) =
      (taken scr s op).toList ++ (wmStep scr s op).mail.pending := by
  obtain ⟨htaken, hmail⟩ | ⟨-, hsome, hasked, htaken, hmail⟩ | ⟨-, htaken, hasked, hqueue⟩ :=
    wmStep_mail scr s op
  · rw [hmail, htaken, askAll_pending hq]
    exact ⟨askAll_sound hq _, rfl⟩
  · rw [hmail, htaken, hasked]
    refine ⟨Fifo.drop_sound hq hsome, ?_⟩
    have hdrop : s.mail.pending = _ := Fifo.drop_contents hsome
    rw [Nat.mod_eq_of_lt hq.head_lt] at hdrop
    exact (List.append_nil _).trans hdrop
  · rw [hqueue, htaken, hasked, pending_of_queue hqueue]
    exact ⟨hq, List.append_nil _⟩

theorem mailStep_inv (hinv : MailInv w) (scr : Screen) (op : WmOp) : MailInv (mailStep scr w op) := by
  obtain ⟨hsound, hpending⟩ := step_pending hinv.sound scr op
  refine ⟨hsound, ?_, ?_⟩
  · change w.accepted ++ w.wm.mail.acceptsAll (asked scr w.wm op) =
      w.retrieved ++ (taken scr w.wm op).toList ++ (wmStep scr w.wm op).mail.pending
    rw [hinv.order, List.append_assoc, hpending, List.append_assoc]
  · change OnePaint (wmStep scr w.wm op).mail.pending
    obtain ⟨-, hmail⟩ | ⟨-, -, hasked, htaken, -⟩ | ⟨-, -, -, hqueue⟩ := wmStep_mail scr w.wm op
    · rw [hmail]
      exact askAll_onePaint hinv.sound hinv.onePaint _
    · rw [hasked, htaken] at hpending
      have hsub : (wmStep scr w.wm op).mail.pending.Sublist w.wm.mail.pending := by
        rw [← List.append_nil w.wm.mail.pending]
        exact hpending ▸ List.sublist_cons_self ..
      exact List.Nodup.sublist ((hsub.filter _).map _) hinv.onePaint
    · rw [pending_of_queue hqueue]
      exact hinv.onePaint

/-- Nothing is lost exactly when it fits. -/
theorem kept_iff (hq : s.mail.queue.Sound msgQueueCap) (htaken : taken scr s op = none) :
    Kept scr s op ↔ Fits scr s op := by
  unfold Kept Fits
  obtain ⟨-, hmail⟩ | ⟨-, -, -, hsome, -⟩ | ⟨-, -, hasked, hqueue⟩ := wmStep_mail scr s op
  · rw [hmail]
    exact askAll_ideal hq _
  · rw [htaken] at hsome
    cases hsome
  · rw [hasked, pending_of_queue hqueue]
    refine iff_of_true rfl ?_
    change s.mail.pending.length ≤ _
    rw [length_pending]
    exact hq.count_le

theorem mem_or_mem_of_idealPosts {l ms : List Msg} {m : Msg} (h : m ∈ idealPosts l ms) :
    m ∈ l ∨ m ∈ ms := by
  induction ms generalizing l with
  | nil => exact .inl h
  | cons q ms ih =>
    rcases ih h with hl | hms
    · unfold idealPost at hl
      split at hl
      · exact .inl hl
      · rcases List.mem_append.mp hl with hl | hq
        · exact .inl hl
        · exact .inr (List.mem_singleton.mp hq ▸ List.mem_cons_self ..)
    · exact .inr (List.mem_cons_of_mem _ hms)

theorem mem_paintWindows {ms : List Msg} {h : Nat} :
    h ∈ paintWindows ms ↔ ∃ m ∈ ms, m.isPaint = true ∧ m.window = h := by
  unfold paintWindows
  simp only [List.mem_map, List.mem_filter, and_assoc]

theorem mailStep_roomy (hinv : MailInv w) (hroomy : RoomyInv w) (hop : Roomy scr w op) :
    RoomyInv (mailStep scr w op) := by
  obtain ⟨hsound, hpending⟩ := step_pending hinv.sound scr op
  have howed : ∀ h, h ∈ (mailStep scr w op).owed →
      h ∈ w.owed ∧ h ∉ paintWindows (taken scr w.wm op).toList ∨
        h ∈ paintWindows (asked scr w.wm op) := by
    intro h hmem
    rcases List.mem_append.mp hmem with hold | hnew
    · exact .inl (by simpa using List.mem_filter.mp hold)
    · exact .inr hnew
  cases htaken : taken scr w.wm op with
  | none =>
    have hkept : (mailStep scr w op).wm.mail.pending =
        idealPosts w.wm.mail.pending (asked scr w.wm op) :=
      (kept_iff hinv.sound htaken).mpr hop.1
    refine ⟨fun m hm => ?_, fun h hmem => ?_⟩
    · rw [hkept] at hm
      rcases mem_or_mem_of_idealPosts hm with hm | hm
      · exact hroomy.handles m hm
      · exact hop.2 m hm
    · rw [hkept]
      rcases howed h hmem with ⟨hold, -⟩ | hnew
      · obtain ⟨m, hm, hpaint⟩ := hroomy.owed h hold
        exact ⟨m, mem_idealPosts _ hm, hpaint⟩
      · obtain ⟨m, hm, hpaint, hwin⟩ := mem_paintWindows.mp hnew
        obtain ⟨p, hp, hppaint, hsame⟩ := idealPosts_paint (l := w.wm.mail.pending) hm hpaint
        exact ⟨p, hp, hppaint, by rw [← hwin, Msg.window, Msg.window, hsame]⟩
  | some m =>
    have hasked : asked scr w.wm op = [] := by
      obtain ⟨hnone, -⟩ | ⟨-, -, hasked, -⟩ | ⟨-, hnone, -⟩ := wmStep_mail scr w.wm op
      · rw [htaken] at hnone
        cases hnone
      · exact hasked
      · rw [htaken] at hnone
        cases hnone
    rw [htaken, hasked] at hpending
    have hfirst : w.wm.mail.pending = m :: (mailStep scr w op).wm.mail.pending :=
      (List.append_nil _).symm.trans hpending
    refine ⟨fun q hq => hroomy.handles q (hfirst ▸ List.mem_cons_of_mem _ hq), fun h hmem => ?_⟩
    rcases howed h hmem with ⟨hold, hnot⟩ | hnew
    · obtain ⟨q, hq, hpaint, hwin⟩ := hroomy.owed h hold
      rw [hfirst] at hq
      rcases List.mem_cons.mp hq with rfl | hq
      · refine absurd (mem_paintWindows.mpr ⟨q, ?_, hpaint, hwin⟩) hnot
        rw [htaken]
        exact List.mem_singleton_self q
      · exact ⟨q, hq, hpaint, hwin⟩
    · rw [hasked] at hnew
      cases hnew

/-! What calls report -/

/-- Failure and nothing posted, or success and something posted. -/
def PostsOrFails (s : Wm) (r : Nat × Wm) : Prop :=
  (r.1 = 0 ∧ r.2.mail = s.mail) ∨ (r.1 = 1 ∧ ∃ m ms, r.2.mail = s.mail.askAll (m :: ms))

theorem queuePost_asks (s : Wm) (hwnd msg wParam lParam : Nat) :
    ∃ m ms, (s.queuePost hwnd msg wParam lParam).mail = s.mail.askAll (m :: ms) :=
  ⟨⟨hwnd, msg, wParam, lParam, s.mail.ticks % 2 ^ 32, (0, 0)⟩, [], rfl⟩

theorem invalidate_postsOrFails (s : Wm) (hwnd : Nat) : PostsOrFails s (ntUserInvalidate hwnd s) := by
  unfold ntUserInvalidate
  split
  · exact .inl ⟨rfl, rfl⟩
  · exact .inr ⟨rfl, queuePost_asks ..⟩

theorem postKey_postsOrFails (s : Wm) (hwnd ascii scancode : Nat) :
    PostsOrFails s (ntUserPostKey hwnd ascii scancode s) := by
  unfold ntUserPostKey
  split
  · exact .inl ⟨rfl, rfl⟩
  · refine .inr ⟨rfl, ?_⟩
    unfold postKeystroke
    dsimp only
    split
    · exact queuePost_asks ..
    · obtain ⟨m, ms, hdown⟩ := queuePost_asks s hwnd wmKeydown scancode 0
      obtain ⟨m', ms', hchar⟩ := queuePost_asks (s.queuePost hwnd wmKeydown scancode 0) hwnd wmChar ascii 0
      refine ⟨m, ms ++ m' :: ms', ?_⟩
      rw [hchar, hdown]
      exact (List.foldl_append ..).symm

theorem reported_postsOrFails {r : Nat} (scr : Screen) (h : reported s op = some r) :
    PostsOrFails s (r, wmStep scr s op) := by
  cases op with
  | postMessage hwnd msg wParam lParam =>
    cases h
    exact .inr ⟨rfl, queuePost_asks ..⟩
  | postQuit exitCode =>
    cases h
    exact .inr ⟨rfl, queuePost_asks ..⟩
  | invalidate hwnd =>
    cases h
    exact invalidate_postsOrFails s hwnd
  | postKey hwnd ascii scancode =>
    cases h
    exact postKey_postsOrFails s hwnd ascii scancode
  | _ => cases h

/-- A posting call reports success when it calls `queue_post`. -/
theorem reported_iff {r : Nat} (scr : Screen) (h : reported s op = some r) : r ≠ 0 ↔ asked scr s op ≠ [] := by
  obtain ⟨hr, hmail⟩ | ⟨hr, m, ms, hmail⟩ := reported_postsOrFails scr h
  · rw [asked_of_askAll [] hmail]
    exact iff_of_false (fun hne => hne hr) (fun hne => hne rfl)
  · rw [asked_of_askAll (m :: ms) hmail]
    exact iff_of_true (by omega) (List.cons_ne_nil m ms)

theorem reported_taken {r : Nat} (scr : Screen) (h : reported s op = some r) : taken scr s op = none := by
  cases op with
  | getMessage => cases h
  | _ => rfl

/-- It is right to exactly when there is room. -/
theorem reported_truthful (hq : s.mail.queue.Sound msgQueueCap) {r : Nat}
    (h : reported s op = some r) :
    (r ≠ 0 ↔ asked scr s op ≠ [] ∧ Kept scr s op) ↔ Fits scr s op := by
  have hkept := kept_iff hq (reported_taken scr h)
  rw [reported_iff scr h, ← hkept]
  constructor
  · intro htruth
    by_cases hasked : asked scr s op = []
    · rw [hkept]
      unfold Fits
      rw [hasked]
      change s.mail.pending.length ≤ _
      rw [length_pending]
      exact hq.count_le
    · exact (htruth.mp hasked).2
  · exact fun hk => ⟨fun hne => ⟨hne, hk⟩, And.left⟩

/-! Retrieval -/

/-- An accepted message comes out once as many retrievals have been made as there were
messages in front of it and one more. -/
theorem mailRun_retrieves (hinv : MailInv w) (ops : List WmOp) {i : Nat} (hi : i < w.accepted.length)
    (hmany : i < w.retrieved.length + ops.countP WmOp.isGet) :
    (mailRun scr w ops).retrieved[i]? = w.accepted[i]? := by
  induction ops generalizing w with
  | nil =>
    rw [List.countP_nil, Nat.add_zero] at hmany
    change w.retrieved[i]? = w.accepted[i]?
    rw [hinv.order, List.getElem?_append_left hmany]
  | cons op ops ih =>
    have hgrown : (mailStep scr w op).accepted[i]? = w.accepted[i]? :=
      List.getElem?_append_left hi
    rw [← hgrown]
    apply ih (mailStep_inv hinv scr op)
    · change i < (w.accepted ++ _).length
      rw [List.length_append]
      omega
    · change i < (w.retrieved ++ (taken scr w.wm op).toList).length + _
      rw [List.length_append]
      rw [List.countP_cons] at hmany
      cases op with
      | getMessage =>
        change i < w.retrieved.length + (ops.countP WmOp.isGet + 1) at hmany
        by_cases hempty : w.wm.mail.queue.count = 0
        · have hlen := congrArg List.length hinv.order
          rw [List.length_append, length_pending, hempty] at hlen
          omega
        · rw [(getMessage_first scr (Nat.pos_of_ne_zero hempty)).1, Option.toList_some,
            List.length_singleton]
          omega
      | _ =>
        change i < w.retrieved.length + (ops.countP WmOp.isGet + 0) at hmany
        omega

end Histories

/-! ## Every history -/

/-- The window manager before the first window. -/
def wmInit : Wm :=
  { desk :=
      { wins := fun _ => ⟨false, 0, ⟨0, 0, 0, 0⟩, false, 0, 0, 0⟩
        nwin := 0
        nextId := 1
        nextZ := 1
        focusId := 0 }
    shell :=
      { startMenuOpen := false
        dragHwnd := 0
        dragOffset := (0, 0)
        minimized := fun _ => false
        maximized := fun _ => false
        saved := fun _ => ⟨0, 0, 0, 0⟩
        pendingClose := none
        pendingMin := none
        pendingMax := none }
    mail := ⟨⟨fun _ => ⟨0, 0, 0, 0, 0, (0, 0)⟩, 0, 0, 0⟩, 0, []⟩
    wasActive := false
    injected := false
    composing := false
    idlePainted := false
    cursor := (160, 100)
    cursorButtons := 0
    cursorInitialized := false }

def mailStart : QueueWorld := ⟨wmInit, [], [], []⟩

/-- Histories whose operations all meet `guard`. -/
def MailReach (scr : Screen) (guard : QueueWorld → WmOp → Prop) : QueueWorld → Prop :=
  Reach (· = mailStart) (fun w op w' => w' = mailStep scr w op) guard

section Runs

variable {scr : Screen} {w : QueueWorld}

theorem mailStart_inv : MailInv mailStart :=
  ⟨⟨by decide, rfl, by decide⟩, rfl, .nil⟩

theorem mailReach_inv {guard : QueueWorld → WmOp → Prop} (hrun : MailReach scr guard w) :
    MailInv w := by
  apply hrun.invariant
  · rintro _ rfl
    exact mailStart_inv
  · rintro w op _ hinv - rfl
    exact mailStep_inv hinv scr op

theorem mailReach_roomy (hrun : MailReach scr (Roomy scr) w) : RoomyInv w := by
  have hboth : MailInv w ∧ RoomyInv w := by
    apply hrun.invariant
    · rintro _ rfl
      exact ⟨mailStart_inv, nofun, nofun⟩
    · rintro w op _ ⟨hinv, hroomy⟩ hop rfl
      exact ⟨mailStep_inv hinv scr op, mailStep_roomy hinv hroomy hop⟩
  exact hboth.2

theorem mailRun_reach {guard : QueueWorld → WmOp → Prop} (h : MailReach scr guard w) (ops : List WmOp)
    (hguard : ∀ w op, guard w op) : MailReach scr guard (mailRun scr w ops) := by
  induction ops generalizing w with
  | nil => exact h
  | cons op ops ih => exact ih (.step h (hguard w op) rfl)

/-- The text screen, 256 messages for nobody, and a quit. -/
def modeScreen : Screen := ⟨false, 320, 200⟩

def fullQueue : QueueWorld :=
  mailRun modeScreen mailStart (List.replicate 256 (.postMessage 0 0 0 0))

theorem fullQueue_count : fullQueue.wm.mail.queue.count = 256 := by decide +kernel

/-- A quit is never coalesced. -/
theorem quit_fits_iff (s : Wm) (exitCode : Int) :
    Fits modeScreen s (.postQuit exitCode) ↔ s.mail.queue.count < msgQueueCap := by
  have hideal : ∀ l : List Msg, ∀ code time, idealPosts l [⟨0, wmQuit, code, 0, time, (0, 0)⟩] =
      l ++ [⟨0, wmQuit, code, 0, time, (0, 0)⟩] := fun _ _ _ => rfl
  unfold Fits
  rw [asked_of_askAll [⟨0, wmQuit, (exitCode % 2 ^ 32).toNat, 0, s.mail.ticks % 2 ^ 32, (0, 0)⟩] rfl,
    hideal, List.length_append, length_pending]
  exact Nat.succ_le_iff

theorem quit_full {s : Wm} (hq : s.mail.queue.Sound msgQueueCap) (h : s.mail.queue.count = 256) :
    reported s (.postQuit 0) = some 1 ∧
    (wmStep modeScreen s (.postQuit 0)).mail.queue = s.mail.queue ∧
    ¬Kept modeScreen s (.postQuit 0) := by
  refine ⟨rfl, ?_, ?_⟩
  · change (s.mail.put _).queue = _
    unfold Mail.put
    rw [if_pos (by rw [h]; decide)]
  · rw [kept_iff hq rfl, quit_fits_iff, h]
    decide

end Runs

end MeuOS.Win32
