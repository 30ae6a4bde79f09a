import MeuOS.Win32.WindowRuns

/-! Whose the shell's state is. The shell knows windows by slot; beside the system stand,
by window, the rectangle it had before it was maximised and the press of a caption button
it has seen. -/
namespace MeuOS.Win32

open MeuOS.Lib

structure WindowWorld where
  wm : Wm
  /-- The rectangle a maximised window had before. -/
  before : Nat → Option Rect
  /-- The window whose caption button is being pressed. -/
  pressed : CaptionPart → Option Nat

def windowStep (scr : Screen) (w : WindowWorld) (op : WmOp) : WindowWorld :=
  let wm := wmStep scr w.wm op
  { wm := wm
    before := fun id => (wndFromId wm.desk id).bind fun i =>
      if wm.shell.maximized i then
        if w.wm.shell.maximized i then w.before id else some (w.wm.desk.wins i).rect
      else none
    pressed := fun p => (armed wm.shell p).bind fun i =>
      if armed w.wm.shell p = some i then w.pressed p else some (wm.desk.wins i).id }

def windowRun (scr : Screen) (w : WindowWorld) (ops : List WmOp) : WindowWorld :=
  ops.foldl (windowStep scr) w

/-- A press lasts as long as the button is down, and there is one at a time. -/
structure PressInv (s : Wm) : Prop where
  down : ∀ p, armed s.shell p ≠ none → s.cursorButtons.testBit 0 = true
  noDrag : s.shell.dragHwnd ≠ 0 → ∀ p, armed s.shell p = none
  single : ∀ p q, armed s.shell p ≠ none → armed s.shell q ≠ none → p = q

/-- The shell's state of a slot is the state of the window in it. -/
structure WindowInv (w : WindowWorld) : Prop where
  desk : DeskInv w.wm.desk
  press : PressInv w.wm
  owned : ∀ i < maxWindows, (w.wm.desk.wins i).used = true → w.wm.shell.maximized i = true →
    w.before (w.wm.desk.wins i).id = some (w.wm.shell.saved i)
  pressed : ∀ p, ∀ i < maxWindows, armed w.wm.shell p = some i → (w.wm.desk.wins i).used = true →
    w.pressed p = some (w.wm.desk.wins i).id

section Steps

variable {scr : Screen} {s s' : Wm} {w : WindowWorld} {op : WmOp} {down up : Bool}

theorem edgeDown_iff {buttons prev bit : Nat} :
    edgeDown buttons prev bit = true ↔ buttons.testBit bit = true ∧ prev.testBit bit = false := by
  unfold edgeDown
  rw [Bool.and_eq_true, Bool.not_eq_true']

theorem edgeUp_iff {buttons prev bit : Nat} :
    edgeUp buttons prev bit = true ↔ prev.testBit bit = true ∧ buttons.testBit bit = false := by
  unfold edgeUp
  rw [Bool.and_eq_true, Bool.not_eq_true']

/-- While the button is up nothing is pressed. -/
theorem PressInv.none_of_down (h : PressInv s) (hup : s.cursorButtons.testBit 0 = false)
    (p : CaptionPart) : armed s.shell p = none := by
  by_contra hne
  rw [h.down p hne] at hup
  cases hup

theorem PressInv.of_clear (harmed : ∀ p, armed s.shell p = none) : PressInv s :=
  ⟨fun p hp => absurd (harmed p) hp, fun _ => harmed, fun p _ hp => absurd (harmed p) hp⟩

/-- The other buttons are not pressed when one is. -/
theorem PressInv.clear (h : PressInv s) {p : CaptionPart} (hpressed : armed s.shell p ≠ none)
    (harmed : ∀ q, armed s'.shell q = if q = p then none else armed s.shell q) : PressInv s' := by
  refine .of_clear fun q => ?_
  rw [harmed q]
  split
  · rfl
  · rename_i hqp
    by_contra hq
    exact hqp (h.single q p hq hpressed)

theorem press_mouse {buttons : Nat} (h : PressInv s) (hbuttons : s'.cursorButtons = buttons)
    (hmove : ShellMove (edgeDown buttons s.cursorButtons 0) (edgeUp buttons s.cursorButtons 0) s s') :
    PressInv s' := by
  cases hmove with
  | drag hdrag _ harmed _ => exact .of_clear fun p => (harmed p).trans (h.noDrag hdrag p)
  | bar hdown _ _ harmed _ =>
    exact .of_clear fun p => (harmed p).trans (h.none_of_down (edgeDown_iff.mp hdown).2 p)
  | grab hdown _ harmed =>
    exact .of_clear fun p => (harmed p).trans (h.none_of_down (edgeDown_iff.mp hdown).2 p)
  | press p i hdown _ harmed hdrag' =>
    obtain ⟨hnow, hbefore⟩ := edgeDown_iff.mp hdown
    have honly : ∀ q, armed s'.shell q ≠ none → q = p := fun q hq => by
      by_contra hqp
      rw [harmed q, if_neg hqp] at hq
      exact hq (h.none_of_down hbefore q)
    exact ⟨fun _ _ => hbuttons ▸ hnow, fun hne => absurd hdrag' hne,
      fun q r hq hr => (honly q hq).trans (honly r hr).symm⟩
  | close _ _ hpressed harmed _ => exact h.clear hpressed harmed
  | min i _ _ _ hpressed _ _ _ harmed _ => exact h.clear (hpressed ▸ nofun) harmed
  | max i _ _ _ hpressed _ _ _ _ harmed _ => exact h.clear (hpressed ▸ nofun) harmed
  | pass _ harmed hdrag' =>
    by_cases hup : edgeUp buttons s.cursorButtons 0 = true
    · exact .of_clear fun p => (harmed p).trans (if_pos hup)
    · have hsame : ∀ p, armed s'.shell p = armed s.shell p := fun p => (harmed p).trans (if_neg hup)
      refine ⟨fun p hp => ?_, fun hne => absurd hdrag' hne, fun p q hp hq => ?_⟩
      · rw [hsame] at hp
        have hbefore := h.down p hp
        rw [edgeUp_iff, hbefore] at hup
        rw [hbuttons]
        simpa using hup
      · rw [hsame] at hp hq
        exact h.single p q hp hq

theorem press_step (h : PressInv s) (hquiet : op.buttons = none → Quiet s (wmStep scr s op)) :
    PressInv (wmStep scr s op) := by
  cases hop : op.buttons with
  | none =>
    obtain ⟨hshell, hbuttons⟩ := hquiet hop
    refine ⟨?_, ?_, ?_⟩
    · rw [hshell, hbuttons]
      exact h.down
    · rw [hshell]
      exact h.noDrag
    · rw [hshell]
      exact h.single
  | some buttons =>
    obtain ⟨-, hbuttons, hmove⟩ := mouse_move scr s hop
    exact press_mouse h hbuttons hmove

/-- A window that is maximised was so before, or is where it was kept from. -/
theorem ShellMove.maximized (h : ShellMove down up s s') (i : Nat)
    (hmax : s'.shell.maximized i = true) :
    s.shell.maximized i = true ∧ s'.shell.saved i = s.shell.saved i ∨
      s.shell.maximized i = false ∧ s'.shell.saved i = (s.desk.wins i).rect := by
  have hframes : s'.shell.maximized = s.shell.maximized → s'.shell.saved = s.shell.saved →
      s.shell.maximized i = true ∧ s'.shell.saved i = s.shell.saved i := fun hm hs =>
    ⟨hm ▸ hmax, by rw [hs]⟩
  cases h with
  | drag _ hf => exact .inl (hframes hf.maximized hf.saved)
  | bar _ hm hs => exact .inl (hframes hm hs)
  | press _ _ _ hf => exact .inl (hframes hf.maximized hf.saved)
  | grab _ hf => exact .inl (hframes hf.maximized hf.saved)
  | close _ hf => exact .inl (hframes hf.maximized hf.saved)
  | min _ _ _ _ _ _ hm hs => exact .inl (hframes hm hs)
  | pass hf => exact .inl (hframes hf.maximized hf.saved)
  | max j _ _ _ _ _ hm hrestore hsave _ _ =>
    rw [hm] at hmax
    by_cases hij : i = j
    · subst hij
      rw [Function.update_self] at hmax
      have hno : s.shell.maximized i = false := by simpa using hmax
      refine .inr ⟨hno, ?_⟩
      rw [hsave hno, Function.update_self]
    · rw [Function.update_of_ne hij] at hmax
      refine .inl ⟨hmax, ?_⟩
      cases hj : s.shell.maximized j with
      | true => rw [(hrestore hj).1]
      | false => rw [hsave hj, Function.update_of_ne hij]

theorem step_maximized (hquiet : op.buttons = none → Quiet s (wmStep scr s op)) (i : Nat)
    (hmax : (wmStep scr s op).shell.maximized i = true) :
    s.shell.maximized i = true ∧ (wmStep scr s op).shell.saved i = s.shell.saved i ∨
      s.shell.maximized i = false ∧ (wmStep scr s op).shell.saved i = (s.desk.wins i).rect := by
  cases hop : op.buttons with
  | none =>
    rw [(hquiet hop).shell] at hmax ⊢
    exact .inl ⟨hmax, rfl⟩
  | some buttons => exact (mouse_move scr s hop).2.2.maximized i hmax

/-- The slot of a new window has nothing of the last one's. -/
theorem newSlot_clear (htidy : Tidy s op) {i : Nat} (hi : op.newSlot s.desk = some i) :
    op.buttons = none ∧ s.shell.minimized i = false ∧ s.shell.maximized i = false ∧
      ∀ p, armed s.shell p ≠ some i := by
  cases op with
  | createWindow c owner => exact ⟨rfl, htidy.2 i hi⟩
  | _ => cases hi

theorem windowStep_inv (h : WindowInv w) (htidy : Tidy w.wm op) :
    WindowInv (windowStep scr w op) := by
  obtain ⟨hdesk, hquiet⟩ := desk_step scr h.desk htidy
  refine ⟨hdesk.inv, press_step h.press hquiet, fun i hi hu hmax => ?_, fun p i hi harmed hu => ?_⟩
  · have hslot : wndFromId (wmStep scr w.wm op).desk ((wmStep scr w.wm op).desk.wins i).id = some i :=
      hdesk.inv.slot hi hu
    change (wndFromId (wmStep scr w.wm op).desk ((wmStep scr w.wm op).desk.wins i).id).bind _ =
      some ((wmStep scr w.wm op).shell.saved i)
    have hnow : (wmStep scr w.wm op).shell.maximized i = true := hmax
    rw [hslot, Option.bind_some, if_pos hnow]
    rcases step_maximized hquiet i hnow with ⟨hwas, hsaved⟩ | ⟨hnot, hsaved⟩
    · rw [if_pos hwas, hsaved]
      rcases hdesk.stays i hi hu with ⟨hold, hid⟩ | hnew
      · change w.before ((wmStep scr w.wm op).desk.wins i).id = _
        rw [hid]
        exact h.owned i hi hold hwas
      · rw [(newSlot_clear htidy hnew).2.2.1] at hwas
        cases hwas
    · rw [hnot, hsaved]
      rfl
  · change (armed (wmStep scr w.wm op).shell p).bind _ = some ((wmStep scr w.wm op).desk.wins i).id
    have hnow : armed (wmStep scr w.wm op).shell p = some i := harmed
    rw [hnow, Option.bind_some]
    split
    · rename_i hwas
      rcases hdesk.stays i hi hu with ⟨hold, hid⟩ | hnew
      · rw [hid]
        exact h.pressed p i hi hwas hold
      · exact absurd hwas ((newSlot_clear htidy hnew).2.2.2 p)
    · rfl

end Steps

/-! ## What an operation may do to a window -/

/-- The shell's part of an operation concerns the windows it is meant for. -/
structure StepRight (scr : Screen) (w : WindowWorld) (op : WmOp) : Prop where
  /-- The focus goes on when the focused window goes. -/
  focused : ∀ i < maxWindows, (w.wm.desk.wins i).used = true →
    (w.wm.desk.wins i).id = w.wm.desk.focusId → ((wmStep scr w.wm op).desk.wins i).used = false →
    (∃ j < maxWindows, ((wmStep scr w.wm op).desk.wins j).normal = true) →
    (wmStep scr w.wm op).desk.focusId ≠ 0
  /-- A new window is plain. -/
  plain : ∀ i < maxWindows, ((wmStep scr w.wm op).desk.wins i).used = true →
    (w.wm.desk.wins i).used = false →
    (wmStep scr w.wm op).shell.minimized i = false ∧ (wmStep scr w.wm op).shell.maximized i = false
  /-- Restoring gives the window the rectangle it had before. -/
  restored : ∀ i, w.wm.shell.maximized i = true → (wmStep scr w.wm op).shell.maximized i = false →
    w.before (w.wm.desk.wins i).id = some ((wmStep scr w.wm op).desk.wins i).rect
  /-- Only the window whose button was pressed is maximised or restored. -/
  maximized : ∀ i, (wmStep scr w.wm op).shell.maximized i ≠ w.wm.shell.maximized i →
    w.pressed .max = some (w.wm.desk.wins i).id
  /-- Only the window whose button was pressed is minimised, unless it is by a click that is
  on no caption button. -/
  minimized : ∀ i, (wmStep scr w.wm op).shell.minimized i ≠ w.wm.shell.minimized i →
    (∃ buttons, op.buttons = some buttons ∧ edgeDown buttons w.wm.cursorButtons 0 = true ∧
      ∀ p, armed (wmStep scr w.wm op).shell p = none) ∨
    w.pressed .min = some (w.wm.desk.wins i).id
  /-- Only the window whose button was pressed is asked to close. -/
  closed : op.buttons ≠ none → ∀ m ∈ asked scr w.wm op, m.message = wmClose →
    w.pressed .close = some m.hwnd

section Rights

variable {scr : Screen} {s s' : Wm} {w : WindowWorld} {op : WmOp} {down up : Bool}

/-- A window whose maximised state changes has its button pressed, and it is put back where
it was kept from. -/
theorem ShellMove.toggled (h : ShellMove down up s s') {i : Nat}
    (hchanged : s'.shell.maximized i ≠ s.shell.maximized i) :
    i < maxWindows ∧ (s.desk.wins i).used = true ∧ armed s.shell .max = some i ∧
      (s.shell.maximized i = true → (s'.desk.wins i).rect = s.shell.saved i) := by
  cases h with
  | max j _ hj hused hpressed _ hm hrestore _ _ _ =>
    by_cases hij : i = j
    · subst hij
      exact ⟨hj, hused, hpressed, fun hmax => (hrestore hmax).2⟩
    · rw [hm, Function.update_of_ne hij] at hchanged
      exact absurd rfl hchanged
  | drag _ hf | press _ _ _ hf | grab _ hf | close _ hf | pass hf =>
    rw [hf.maximized] at hchanged
    exact absurd rfl hchanged
  | bar _ hm | min _ _ _ _ _ _ hm =>
    rw [hm] at hchanged
    exact absurd rfl hchanged

theorem ShellMove.lowered (h : ShellMove down up s s') {i : Nat}
    (hchanged : s'.shell.minimized i ≠ s.shell.minimized i) :
    (down = true ∧ ∀ p, armed s'.shell p = armed s.shell p) ∨
      i < maxWindows ∧ (s.desk.wins i).used = true ∧ armed s.shell .min = some i := by
  cases h with
  | bar hdown _ _ harmed => exact .inl ⟨hdown, harmed⟩
  | min j _ hj hused hpressed hm =>
    by_cases hij : i = j
    · subst hij
      exact .inr ⟨hj, hused, hpressed⟩
    · rw [hm, Function.update_of_ne hij] at hchanged
      exact absurd rfl hchanged
  | drag _ hf | press _ _ _ hf | grab _ hf | close _ hf | pass hf =>
    rw [hf.minimized] at hchanged
    exact absurd rfl hchanged
  | max _ _ _ _ _ hm =>
    rw [hm] at hchanged
    exact absurd rfl hchanged

theorem mouse_asks {buttons : Nat} (h : op.buttons = some buttons) :
    ∀ m ∈ asked scr s op, MouseMsg s m := by
  have hposts : Posts (MouseMsg s) s (wmStep scr s op) := by
    cases op with
    | mouseAbs x y b => exact mouseAbs_posts x y b
    | mouseEvent dx dy b => exact mouseEvent_posts dx dy b
    | _ => cases h
  obtain ⟨ms, hp, hms⟩ := hposts
  rw [asked_of_askAll ms hms]
  exact hp

theorem stepRight (h : WindowInv w) (htidy : Tidy w.wm op) : StepRight scr w op := by
  obtain ⟨hdesk, hquiet⟩ := desk_step scr h.desk htidy
  have hmouse : ∀ buttons, op.buttons = some buttons →
      ShellMove (edgeDown buttons w.wm.cursorButtons 0) (edgeUp buttons w.wm.cursorButtons 0) w.wm
        (wmStep scr w.wm op) := fun buttons hb =>
    (mouse_move scr w.wm hb).2.2
  have htoggled : ∀ i, (wmStep scr w.wm op).shell.maximized i ≠ w.wm.shell.maximized i →
      i < maxWindows ∧ (w.wm.desk.wins i).used = true ∧ armed w.wm.shell .max = some i ∧
        (w.wm.shell.maximized i = true →
          ((wmStep scr w.wm op).desk.wins i).rect = w.wm.shell.saved i) := fun i hchanged => by
    cases hop : op.buttons with
    | none => exact absurd (by rw [(hquiet hop).shell]) hchanged
    | some buttons => exact (hmouse buttons hop).toggled hchanged
  refine ⟨hdesk.focused, fun i hi hu hfree => ?_, fun i hmax hrestored => ?_,
    fun i hchanged => ?_, fun i hchanged => ?_, fun hop m hm hclose => ?_⟩
  · rcases hdesk.stays i hi hu with ⟨hold, -⟩ | hnew
    · rw [hfree] at hold
      cases hold
    · obtain ⟨hop, hmin, hmax, -⟩ := newSlot_clear htidy hnew
      rw [(hquiet hop).shell]
      exact ⟨hmin, hmax⟩
  · obtain ⟨hi, hu, -, hrect⟩ := htoggled i (by rw [hmax, hrestored]; decide)
    rw [h.owned i hi hu hmax, hrect hmax]
  · obtain ⟨hi, hu, harmed, -⟩ := htoggled i hchanged
    exact h.pressed .max i hi harmed hu
  · cases hop : op.buttons with
    | none => exact absurd (by rw [(hquiet hop).shell]) hchanged
    | some buttons =>
      rcases (hmouse buttons hop).lowered hchanged with ⟨hdown, hsame⟩ | ⟨hi, hu, harmed⟩
      · refine .inl ⟨buttons, rfl, hdown, fun p => (hsame p).trans ?_⟩
        exact h.press.none_of_down (edgeDown_iff.mp hdown).2 p
      · exact .inr (h.pressed .min i hi harmed hu)
  · obtain ⟨buttons, hbuttons⟩ := Option.ne_none_iff_exists'.mp hop
    rcases mouse_asks hbuttons m hm with (hpaint | ⟨-, i, hi, hu, harmed, hid⟩) | hother
    · rw [hclose] at hpaint
      cases hpaint
    · rw [hid]
      exact h.pressed .close i hi harmed hu
    · exact absurd hclose hother

end Rights

/-! ## Every history -/

def windowStart : WindowWorld := ⟨wmInit, fun _ => none, fun _ => none⟩

/-- Histories whose operations are all tidy. -/
def WindowReach (scr : Screen) (guard : Wm → WmOp → Prop) : WindowWorld → Prop :=
  Reach (· = windowStart) (fun w op w' => w' = windowStep scr w op) fun w op => guard w.wm op

section Histories

variable {scr : Screen} {w : WindowWorld}

theorem windowStart_inv : WindowInv windowStart := by
  refine ⟨⟨by decide, fun i j _ _ hu => ?_, fun i _ hu => ?_, by decide, .inl rfl⟩,
    .of_clear fun p => by cases p <;> rfl, fun i _ hu => ?_, fun p i _ harmed => ?_⟩
  · cases hu
  · cases hu
  · cases hu
  · cases p <;> cases harmed

theorem windowReach_inv (hrun : WindowReach scr Tidy w) : WindowInv w := by
  apply hrun.invariant
  · rintro _ rfl
    exact windowStart_inv
  · rintro w op _ hinv htidy rfl
    exact windowStep_inv hinv htidy

/-- In a tidy history the windows are counted, told apart and focused as they should be, and
the shell does to a window only what was asked of that window. -/
theorem windows_consistent (hrun : WindowReach scr Tidy w) :
    (w.wm.desk.nwin = (List.range maxWindows).countP fun i => (w.wm.desk.wins i).used) ∧
    (∀ i j, i < maxWindows → j < maxWindows → (w.wm.desk.wins i).used = true →
      (w.wm.desk.wins j).used = true → (w.wm.desk.wins i).id = (w.wm.desk.wins j).id → i = j) ∧
    FocusOk w.wm.desk w.wm.desk.focusId ∧
    (∀ i < maxWindows, (w.wm.desk.wins i).used = true → w.wm.shell.maximized i = true →
      w.before (w.wm.desk.wins i).id = some (w.wm.shell.saved i)) ∧
    ∀ op, Tidy w.wm op → StepRight scr w op := by
  have hinv := windowReach_inv hrun
  exact ⟨hinv.desk.count, hinv.desk.distinct, hinv.desk.focus, hinv.owned,
    fun op htidy => stepRight hinv htidy⟩

theorem windows_consistent_start : WindowReach modeScreen Tidy windowStart ∧
    StepRight modeScreen windowStart (.createWindow ⟨⟨10, 10, 250, 100⟩, 0⟩ 0) := by
  have hstart : WindowReach modeScreen Tidy windowStart := .start rfl
  refine ⟨hstart, (windows_consistent hstart).2.2.2.2 _ ⟨by decide, fun i _ => ⟨rfl, rfl, ?_⟩⟩⟩
  intro p
  cases p <;> exact nofun

theorem windowRun_reach {guard : Wm → WmOp → Prop} (h : WindowReach scr guard w) (ops : List WmOp)
    (hguard : ∀ s op, guard s op) : WindowReach scr guard (windowRun scr w ops) := by
  induction ops generalizing w with
  | nil => exact h
  | cons op ops ih => exact ih (.step h (hguard w.wm op) rfl)

/-- A window is created, shown, minimised by its button and destroyed, and another created. -/
def reusedSlot : List WmOp :=
  [.createWindow ⟨⟨10, 10, 250, 100⟩, 0⟩ 0, .showWindow 1 1, .mouseAbs 130 15 1, .mouseAbs 130 15 0,
    .destroyWindow 1]

/-- The new window is minimised from the start. -/
theorem newWindow_minimized : WindowReach modeScreen (fun _ _ => True)
      (windowRun modeScreen windowStart reusedSlot) ∧
    ((windowRun modeScreen windowStart reusedSlot).wm.desk.wins 0).used = false ∧
    ((wmStep modeScreen (windowRun modeScreen windowStart reusedSlot).wm
      (.createWindow ⟨⟨10, 10, 250, 100⟩, 0⟩ 0)).desk.wins 0).used = true ∧
    (wmStep modeScreen (windowRun modeScreen windowStart reusedSlot).wm
      (.createWindow ⟨⟨10, 10, 250, 100⟩, 0⟩ 0)).shell.minimized 0 = true :=
  ⟨windowRun_reach (.start rfl) _ fun _ _ => trivial, by decide +kernel, by decide +kernel,
    by decide +kernel⟩

end Histories

end MeuOS.Win32
