import MeuOS.Lib.Slots
import MeuOS.Win32.QueueRuns

/-! Histories of the windows. The shell's state is kept by slot; beside the system stands
what it is about by window: the rectangle each maximised window had before, and the window
whose caption button is being pressed. -/
namespace MeuOS.Win32

open MeuOS.Lib

/-- A window without where it is and whether it shows. -/
def Wnd.core (w : Wnd) : Wnd := { w with rect := ⟨0, 0, 0, 0⟩, visible := false }

/-- No window comes, goes or changes its identity. -/
structure KeepsWindows (d d' : Desk) : Prop where
  nwin : d'.nwin = d.nwin
  nextId : d'.nextId = d.nextId
  nextZ : d'.nextZ = d.nextZ
  core : ∀ i, (d'.wins i).core = (d.wins i).core

/-- No focus, or a used window that is not the desktop. -/
def FocusOk (d : Desk) (id : Nat) : Prop :=
  id = 0 ∨ ∃ i < maxWindows, (d.wins i).normal = true ∧ (d.wins i).id = id

structure DeskInv (d : Desk) : Prop where
  count : d.nwin = (List.range maxWindows).countP fun i => (d.wins i).used
  distinct : ∀ i j, i < maxWindows → j < maxWindows → (d.wins i).used = true →
    (d.wins j).used = true → (d.wins i).id = (d.wins j).id → i = j
  fresh : ∀ i, i < maxWindows → (d.wins i).used = true →
    0 < (d.wins i).id ∧ (d.wins i).id < d.nextId ∧ 0 ≤ (d.wins i).z
  next : (d.nextId : Int) = d.nextZ ∧ 0 < d.nextId ∧ d.nextZ < 2 ^ 31
  focus : FocusOk d d.focusId

section Desks

variable {d d' : Desk} {i : Nat} {w : Wnd}

theorem KeepsWindows.refl (d : Desk) : KeepsWindows d d := ⟨rfl, rfl, rfl, fun _ => rfl⟩

theorem KeepsWindows.trans {d'' : Desk} (h : KeepsWindows d d') (h' : KeepsWindows d' d'') :
    KeepsWindows d d'' :=
  ⟨h'.nwin.trans h.nwin, h'.nextId.trans h.nextId, h'.nextZ.trans h.nextZ,
    fun i => (h'.core i).trans (h.core i)⟩

theorem KeepsWindows.used (h : KeepsWindows d d') (i : Nat) : (d'.wins i).used = (d.wins i).used := by
  have hcore := congrArg Wnd.used (h.core i)
  exact hcore

theorem KeepsWindows.id (h : KeepsWindows d d') (i : Nat) : (d'.wins i).id = (d.wins i).id := by
  have hcore := congrArg Wnd.id (h.core i)
  exact hcore

theorem KeepsWindows.z (h : KeepsWindows d d') (i : Nat) : (d'.wins i).z = (d.wins i).z := by
  have hcore := congrArg Wnd.z (h.core i)
  exact hcore

theorem KeepsWindows.normal (h : KeepsWindows d d') (i : Nat) :
    (d'.wins i).normal = (d.wins i).normal := by
  have hcore := congrArg Wnd.normal (h.core i)
  exact hcore

theorem KeepsWindows.focusOk (h : KeepsWindows d d') {id : Nat} (hf : FocusOk d id) :
    FocusOk d' id := by
  rcases hf with h0 | ⟨i, hi, hn, hid⟩
  · exact .inl h0
  · exact .inr ⟨i, hi, (h.normal i).trans hn, (h.id i).trans hid⟩

theorem keeps_setWin (hcore : w.core = (d.wins i).core) : KeepsWindows d (d.setWin i w) := by
  refine ⟨rfl, rfl, rfl, fun j => ?_⟩
  by_cases hj : j = i
  · subst hj
    change (Function.update d.wins j w j).core = _
    rw [Function.update_self, hcore]
  · change (Function.update d.wins i w j).core = _
    rw [Function.update_of_ne hj]

theorem keeps_focus (id : Nat) : KeepsWindows d { d with focusId := id } :=
  ⟨rfl, rfl, rfl, fun _ => rfl⟩

theorem DeskInv.keep (h : DeskInv d) (hk : KeepsWindows d d') (hf : FocusOk d d'.focusId) :
    DeskInv d' := by
  refine ⟨?_, fun i j hi hj hui huj hid => ?_, fun i hi hu => ?_, ?_, hk.focusOk hf⟩
  · rw [hk.nwin, h.count]
    simp only [hk.used]
  · rw [hk.used] at hui huj
    rw [hk.id, hk.id] at hid
    exact h.distinct i j hi hj hui huj hid
  · rw [hk.used] at hu
    rw [hk.id, hk.nextId, hk.z]
    exact h.fresh i hi hu
  · rw [hk.nextId, hk.nextZ]
    exact h.next

/-- The slot of a window that is there. -/
theorem DeskInv.slot (h : DeskInv d) (hi : i < maxWindows) (hu : (d.wins i).used = true) :
    wndFromId d (d.wins i).id = some i := by
  have hpos := (h.fresh i hi hu).1
  cases hfind : wndFromId d (d.wins i).id with
  | none =>
    unfold wndFromId at hfind
    rw [if_neg (by omega)] at hfind
    have hnot := List.find?_eq_none.mp hfind i (List.mem_range.mpr hi)
    simp [hu] at hnot
  | some j =>
    obtain ⟨hj, huj, hid, -⟩ := wndFromId_some hfind
    rw [h.distinct j i hj hi huj hu hid]

/-! Creation and destruction -/

theorem used_update (f : Nat → Wnd) (i : Nat) (w : Wnd) :
    (fun j => (Function.update f i w j).used) = Function.update (fun j => (f j).used) i w.used := by
  funext j
  by_cases hj : j = i
  · subst hj
    rw [Function.update_self, Function.update_self]
  · rw [Function.update_of_ne hj, Function.update_of_ne hj]

/-- A window put into a free slot. -/
theorem DeskInv.add (h : DeskInv d) (hi : i < maxWindows) (hfree : (d.wins i).used = false)
    (hw : w.used = true ∧ w.id = d.nextId ∧ w.z = d.nextZ) (hroom : d.nextZ < 2 ^ 31 - 1) :
    DeskInv { wins := Function.update d.wins i w, nwin := d.nwin + 1,
              nextId := (d.nextId + 1) % 2 ^ 32, nextZ := d.nextZ + 1,
              focusId := if w.desktop then d.focusId else d.nextId } := by
  obtain ⟨hnext, hpos, -⟩ := h.next
  have hwrap : (d.nextId + 1) % 2 ^ 32 = d.nextId + 1 := by omega
  have hother : ∀ j, j < maxWindows → (d.wins j).used = true → j ≠ i := fun j _ hu hji => by
    rw [hji, hfree] at hu
    cases hu
  refine ⟨?_, fun a b ha hb hua hub hid => ?_, fun j hj hu => ?_, ?_, ?_⟩
  · have hcount := countP_update (f := fun j => (d.wins j).used) hi w.used
    rw [hfree, hw.1] at hcount
    simp only [used_update, hw.1]
    rw [h.count]
    simp only [Bool.toNat_false, Bool.toNat_true] at hcount
    omega
  · dsimp only at hua hub hid
    by_cases hai : a = i <;> by_cases hbi : b = i
    · rw [hai, hbi]
    · rw [hai, Function.update_self, Function.update_of_ne hbi, hw.2.1] at hid
      rw [Function.update_of_ne hbi] at hub
      have := (h.fresh b hb hub).2.1
      omega
    · rw [hbi, Function.update_self, Function.update_of_ne hai, hw.2.1] at hid
      rw [Function.update_of_ne hai] at hua
      have := (h.fresh a ha hua).2.1
      omega
    · rw [Function.update_of_ne hai] at hua hid
      rw [Function.update_of_ne hbi] at hub hid
      exact h.distinct a b ha hb hua hub hid
  · dsimp only at hu ⊢
    rw [hwrap]
    by_cases hji : j = i
    · rw [hji, Function.update_self, hw.2.1, hw.2.2]
      omega
    · rw [Function.update_of_ne hji] at hu ⊢
      have := h.fresh j hj hu
      omega
  · dsimp only
    rw [hwrap]
    omega
  · by_cases hdesk : w.desktop = true
    · simp only [hdesk, if_true]
      rcases h.focus with h0 | ⟨j, hj, hn, hid⟩
      · exact .inl h0
      · have hji := hother j hj (used_of_normal hn)
        refine .inr ⟨j, hj, ?_, ?_⟩
        · change (Function.update d.wins i w j).normal = true
          rw [Function.update_of_ne hji]
          exact hn
        · change (Function.update d.wins i w j).id = _
          rw [Function.update_of_ne hji]
          exact hid
    · simp only [hdesk]
      refine .inr ⟨i, hi, ?_, ?_⟩
      · change (Function.update d.wins i w i).normal = true
        rw [Function.update_self]
        simp [Wnd.normal, hw.1, hdesk]
      · change (Function.update d.wins i w i).id = _
        rw [Function.update_self]
        exact hw.2.1

/-- A window taken out of its slot. -/
def Desk.clear (d : Desk) (i : Nat) : Desk :=
  { d with
    wins := Function.update d.wins i { d.wins i with used := false }
    nwin := d.nwin - 1 }

theorem clear_win (d : Desk) {i j : Nat} (h : j ≠ i) : (d.clear i).wins j = d.wins j :=
  Function.update_of_ne h ..

theorem clear_self (d : Desk) (i : Nat) : ((d.clear i).wins i).used = false := by
  change (Function.update d.wins i _ i).used = false
  rw [Function.update_self]

theorem FocusOk.clear {id : Nat} (hf : FocusOk d id) (hne : id ≠ (d.wins i).id) :
    FocusOk (d.clear i) id := by
  rcases hf with h0 | ⟨j, hj, hn, hid⟩
  · exact .inl h0
  · have hji : j ≠ i := fun heq => hne (by rw [← hid, heq])
    refine .inr ⟨j, hj, ?_, ?_⟩
    · rw [clear_win d hji]
      exact hn
    · rw [clear_win d hji]
      exact hid

theorem DeskInv.clear (h : DeskInv d) (hi : i < maxWindows) (hu : (d.wins i).used = true) {id : Nat}
    (hf : FocusOk (d.clear i) id) : DeskInv { d.clear i with focusId := id } := by
  have hother : ∀ j, ((d.clear i).wins j).used = true → j ≠ i := fun j huj hji => by
    rw [hji, clear_self] at huj
    cases huj
  refine ⟨?_, fun a b ha hb hua hub hid => ?_, fun j hj huj => ?_, h.next, hf⟩
  · have hcount := countP_update (f := fun j => (d.wins j).used) hi false
    rw [hu] at hcount
    have hflags : (fun j => ((d.clear i).wins j).used) =
        Function.update (fun j => (d.wins j).used) i false := used_update ..
    change d.nwin - 1 = ((List.range maxWindows).countP fun j => ((d.clear i).wins j).used : Nat)
    rw [hflags, h.count]
    simp only [Bool.toNat_false, Bool.toNat_true] at hcount
    omega
  · have hai := hother a hua
    have hbi := hother b hub
    dsimp only at hua hub hid
    rw [clear_win d hai] at hua hid
    rw [clear_win d hbi] at hub hid
    exact h.distinct a b ha hb hua hub hid
  · have hji := hother j huj
    dsimp only at huj ⊢
    rw [clear_win d hji] at huj ⊢
    exact h.fresh j hj huj

/-- The focus is looked for among the windows that are left. -/
theorem refocus_ok (hfresh : ∀ j < maxWindows, (d.wins j).used = true → 0 < (d.wins j).id ∧ 0 ≤ (d.wins j).z)
    (id : Nat) (hf : d.focusId ≠ id → FocusOk d d.focusId) :
    FocusOk d (d.refocus id).focusId ∧
      (d.focusId = id → (∃ j < maxWindows, (d.wins j).normal = true) → (d.refocus id).focusId ≠ 0) := by
  unfold Desk.refocus
  by_cases heq : d.focusId = id
  · rw [if_pos heq]
    cases htop : topmost d fun j => (d.wins j).normal with
    | none =>
      refine ⟨.inl rfl, fun _ ⟨j, hj, hn⟩ => ?_⟩
      have hle := topmost_none htop hj hn
      have hge := (hfresh j hj (used_of_normal hn)).2
      omega
    | some j =>
      obtain ⟨hj, hn⟩ := topmost_some htop
      exact ⟨.inr ⟨j, hj, hn, rfl⟩, fun _ _ => (hfresh j hj (used_of_normal hn)).1.ne'⟩
  · rw [if_neg heq]
    exact ⟨hf heq, fun h0 => absurd h0 heq⟩

/-- Only the focus changes. -/
theorem refocus_eq (d : Desk) (id : Nat) :
    d.refocus id = { d with focusId := (d.refocus id).focusId } := by
  unfold Desk.refocus
  split <;> rfl

/-! A process that goes takes its windows along -/

theorem reapSlot_eq (eproc : Nat) (d : Desk) (i : Nat) : d.reapSlot eproc i =
    if (d.wins i).used && (d.wins i).owner == eproc then
      { d.clear i with focusId := if d.focusId = (d.wins i).id then 0 else d.focusId }
    else d := rfl

theorem reapSlot_inv (h : DeskInv d) (hi : i < maxWindows) (eproc : Nat) :
    DeskInv (d.reapSlot eproc i) := by
  rw [reapSlot_eq]
  split
  · rename_i htest
    rw [Bool.and_eq_true] at htest
    apply h.clear hi htest.1
    by_cases heq : d.focusId = (d.wins i).id
    · rw [if_pos heq]
      exact .inl rfl
    · rw [if_neg heq]
      exact h.focus.clear heq
  · exact h

/-- Who is left, and the focus if its window is. -/
theorem reapSlot_left (eproc : Nat) (d : Desk) (i : Nat) :
    (∀ j, (((d.reapSlot eproc i).wins j).used = true ↔
        (d.wins j).used = true ∧ (j = i → (d.wins j).owner ≠ eproc)) ∧
      ((d.reapSlot eproc i).wins j).id = (d.wins j).id ∧
      ((d.reapSlot eproc i).wins j).owner = (d.wins j).owner ∧
      ((d.reapSlot eproc i).wins j).desktop = (d.wins j).desktop) ∧
    ((d.reapSlot eproc i).focusId = d.focusId ∨
      (d.wins i).used = true ∧ (d.wins i).owner = eproc ∧ (d.wins i).id = d.focusId) := by
  rw [reapSlot_eq]
  by_cases htest : ((d.wins i).used && (d.wins i).owner == eproc) = true
  · rw [if_pos htest]
    rw [Bool.and_eq_true, beq_iff_eq] at htest
    refine ⟨fun j => ?_, ?_⟩
    · by_cases hj : j = i
      · subst hj
        refine ⟨?_, ?_⟩
        · change ((d.clear j).wins j).used = true ↔ _
          rw [clear_self]
          simp [htest.2]
        · change (Function.update d.wins j _ j).id = _ ∧ (Function.update d.wins j _ j).owner = _ ∧
            (Function.update d.wins j _ j).desktop = _
          rw [Function.update_self]
          exact ⟨rfl, rfl, rfl⟩
      · change (((d.clear i).wins j).used = true ↔ _) ∧ ((d.clear i).wins j).id = _ ∧
          ((d.clear i).wins j).owner = _ ∧ ((d.clear i).wins j).desktop = _
        rw [clear_win d hj]
        exact ⟨by simp [hj], rfl, rfl, rfl⟩
    · by_cases heq : d.focusId = (d.wins i).id
      · exact .inr ⟨htest.1, htest.2, heq.symm⟩
      · exact .inl (if_neg heq)
  · rw [if_neg htest]
    rw [Bool.and_eq_true, beq_iff_eq] at htest
    refine ⟨fun j => ⟨⟨fun hu => ⟨hu, ?_⟩, And.left⟩, rfl, rfl, rfl⟩, .inl rfl⟩
    rintro rfl howner
    exact htest ⟨hu, howner⟩

theorem foldl_reap (h : DeskInv d) (eproc : Nat) {l : List Nat} (hl : ∀ i ∈ l, i < maxWindows) :
    DeskInv (l.foldl (Desk.reapSlot eproc) d) ∧
    (∀ j, (((l.foldl (Desk.reapSlot eproc) d).wins j).used = true ↔
        (d.wins j).used = true ∧ (j ∈ l → (d.wins j).owner ≠ eproc)) ∧
      ((l.foldl (Desk.reapSlot eproc) d).wins j).id = (d.wins j).id ∧
      ((l.foldl (Desk.reapSlot eproc) d).wins j).desktop = (d.wins j).desktop) ∧
    ((l.foldl (Desk.reapSlot eproc) d).focusId = d.focusId ∨
      ∃ i ∈ l, (d.wins i).used = true ∧ (d.wins i).owner = eproc ∧ (d.wins i).id = d.focusId) := by
  induction l generalizing d with
  | nil => exact ⟨h, fun j => ⟨by simp, rfl, rfl⟩, .inl rfl⟩
  | cons i l ih =>
    obtain ⟨hleft, hfocus⟩ := reapSlot_left eproc d i
    obtain ⟨hinv, hrest, hlast⟩ := ih (reapSlot_inv h (hl i (List.mem_cons_self ..)) eproc)
      fun j hj => hl j (List.mem_cons_of_mem _ hj)
    refine ⟨hinv, fun j => ?_, ?_⟩
    · obtain ⟨hused, hid, howner, hdesk⟩ := hleft j
      obtain ⟨hused', hid', hdesk'⟩ := hrest j
      rw [howner] at hused'
      refine ⟨?_, hid'.trans hid, hdesk'.trans hdesk⟩
      rw [List.foldl_cons, hused', hused, List.mem_cons, and_assoc]
      constructor
      · rintro ⟨hu, hi, hl⟩
        exact ⟨hu, fun hmem => hmem.elim hi hl⟩
      · rintro ⟨hu, hmem⟩
        exact ⟨hu, fun hi => hmem (.inl hi), fun hl => hmem (.inr hl)⟩
    · rcases hfocus with hsame | ⟨hu, howner, hid⟩
      · rcases hlast with hkept | ⟨k, hk, hku, hko, hkid⟩
        · exact .inl (hkept.trans hsame)
        · obtain ⟨hused, hid, howner, -⟩ := hleft k
          exact .inr ⟨k, List.mem_cons_of_mem _ hk, (hused.mp hku).1, howner ▸ hko,
            by rw [← hid, hkid, hsame]⟩
      · exact .inr ⟨i, List.mem_cons_self .., hu, howner, hid⟩

end Desks

/-! ## What a mouse event can do -/

/-- The slot whose button is pressed. -/
def armed (sh : Shell) : CaptionPart → Option Nat
  | .close => sh.pendingClose
  | .max => sh.pendingMax
  | .min => sh.pendingMin
  | _ => none

/-- The shell's state of the windows. -/
structure SameFrames (sh sh' : Shell) : Prop where
  minimized : sh'.minimized = sh.minimized
  maximized : sh'.maximized = sh.maximized
  saved : sh'.saved = sh.saved

/-- What a mouse event does to the shell, by what the left button does. -/
inductive ShellMove (down up : Bool) (s s' : Wm) : Prop
  | drag (hdrag : s.shell.dragHwnd ≠ 0) (hframes : SameFrames s.shell s'.shell)
      (harmed : ∀ p, armed s'.shell p = armed s.shell p)
      (hdrag' : s'.shell.dragHwnd = if up then 0 else s.shell.dragHwnd)
  | bar (hdown : down = true) (hmax : s'.shell.maximized = s.shell.maximized)
      (hsaved : s'.shell.saved = s.shell.saved) (harmed : ∀ p, armed s'.shell p = armed s.shell p)
      (hdrag' : s'.shell.dragHwnd = 0)
  | press (p : CaptionPart) (i : Nat) (hdown : down = true) (hframes : SameFrames s.shell s'.shell)
      (harmed : ∀ q, armed s'.shell q = if q = p then some i else armed s.shell q)
      (hdrag' : s'.shell.dragHwnd = 0)
  | grab (hdown : down = true) (hframes : SameFrames s.shell s'.shell)
      (harmed : ∀ p, armed s'.shell p = armed s.shell p)
  | close (hup : up = true) (hframes : SameFrames s.shell s'.shell)
      (hpressed : armed s.shell .close ≠ none)
      (harmed : ∀ q, armed s'.shell q = if q = .close then none else armed s.shell q)
      (hdrag' : s'.shell.dragHwnd = 0)
  | min (i : Nat) (hup : up = true) (hi : i < maxWindows) (hused : (s.desk.wins i).used = true)
      (hpressed : armed s.shell .min = some i)
      (hmin : s'.shell.minimized = Function.update s.shell.minimized i true)
      (hmax : s'.shell.maximized = s.shell.maximized) (hsaved : s'.shell.saved = s.shell.saved)
      (harmed : ∀ q, armed s'.shell q = if q = .min then none else armed s.shell q)
      (hdrag' : s'.shell.dragHwnd = 0)
  | max (i : Nat) (hup : up = true) (hi : i < maxWindows) (hused : (s.desk.wins i).used = true)
      (hpressed : armed s.shell .max = some i) (hmin : s'.shell.minimized = s.shell.minimized)
      (hmax : s'.shell.maximized = Function.update s.shell.maximized i (!s.shell.maximized i))
      (hrestore : s.shell.maximized i = true →
        s'.shell.saved = s.shell.saved ∧ (s'.desk.wins i).rect = s.shell.saved i)
      (hsave : s.shell.maximized i = false →
        s'.shell.saved = Function.update s.shell.saved i (s.desk.wins i).rect)
      (harmed : ∀ q, armed s'.shell q = if q = .max then none else armed s.shell q)
      (hdrag' : s'.shell.dragHwnd = 0)
  | pass (hframes : SameFrames s.shell s'.shell)
      (harmed : ∀ q, armed s'.shell q = if up then none else armed s.shell q)
      (hdrag' : s'.shell.dragHwnd = 0)

/-- The windows stay and the focus is a window's. -/
structure DeskMove (s s' : Wm) : Prop where
  windows : KeepsWindows s.desk s'.desk
  focus : FocusOk s.desk s.desk.focusId → FocusOk s.desk s'.desk.focusId

section Mouse

variable {scr : Screen} {s s' s'' : Wm} {x y : Int} {down up : Bool} {i : Nat}

theorem compose_frame (scr : Screen) (s : Wm) : (win32kCompose scr s).desk = s.desk ∧
    (win32kCompose scr s).shell = s.shell ∧ (win32kCompose scr s).cursorButtons = s.cursorButtons := by
  unfold win32kCompose
  split <;> exact ⟨rfl, rfl, rfl⟩

theorem composeIfActive_frame (scr : Screen) (s : Wm) : (composeIfActive scr s).desk = s.desk ∧
    (composeIfActive scr s).shell = s.shell ∧
    (composeIfActive scr s).cursorButtons = s.cursorButtons := by
  unfold composeIfActive
  split
  · exact compose_frame scr s
  · exact ⟨rfl, rfl, rfl⟩

theorem DeskMove.refl (s : Wm) : DeskMove s s := ⟨.refl _, id⟩

theorem DeskMove.of_desk (h : s'.desk = s.desk) : DeskMove s s' := by
  refine ⟨?_, ?_⟩
  · rw [h]
    exact .refl _
  · rw [h]
    exact id

theorem keeps_setRect (d : Desk) (i : Nat) (r : Rect) : KeepsWindows d (setRect d i r) :=
  keeps_setWin rfl

theorem focusOk_normal {d : Desk} (hi : i < maxWindows) (hn : (d.wins i).normal = true) :
    FocusOk d (d.wins i).id :=
  .inr ⟨i, hi, hn, rfl⟩

theorem taskbarHit_some {d : Desk} {x maxX : Int} {l : List Nat} {bx : Int}
    (h : taskbarHit d x maxX l bx = some i) : i ∈ l ∧ (d.wins i).normal = true := by
  induction l generalizing bx with
  | nil => cases h
  | cons j l ih =>
    unfold taskbarHit at h
    split at h
    · obtain ⟨hmem, hn⟩ := ih h
      exact ⟨List.mem_cons_of_mem _ hmem, hn⟩
    · rename_i hshown
      split at h
      · cases h
      · split at h
        · cases h
          simp only [Bool.not_eq_true', Bool.not_eq_false, Bool.and_eq_true] at hshown
          exact ⟨List.mem_cons_self .., hshown.1⟩
        · obtain ⟨hmem, hn⟩ := ih h
          exact ⟨List.mem_cons_of_mem _ hmem, hn⟩

theorem shellDrag_move (h : shellDrag scr x y up s = some s') :
    DeskMove s s' ∧ s'.cursorButtons = s.cursorButtons ∧ ShellMove down up s s' := by
  unfold shellDrag at h
  split at h
  · cases h
  · rename_i hdrag
    obtain ⟨i, -, rfl⟩ := Option.map_eq_some_iff.mp h
    refine ⟨⟨keeps_setRect .., id⟩, rfl, .drag hdrag ⟨rfl, rfl, rfl⟩ (fun p => ?_) rfl⟩
    cases p <;> rfl

/-- A state without a drag. -/
def noDrag (s : Wm) : Wm := { s with shell := { s.shell with dragHwnd := 0 } }

/-- What is seen of a state by the relation above. -/
theorem ShellMove.congr (h : ShellMove down up s s') (hwins : s''.desk.wins = s'.desk.wins)
    (hshell : s''.shell = s'.shell) :
    ShellMove down up s s'' := by
  cases h with
  | drag h1 h2 h3 h4 => exact .drag h1 (hshell ▸ h2) (hshell ▸ h3) (hshell ▸ h4)
  | bar h1 h2 h3 h4 h5 => exact .bar h1 (hshell ▸ h2) (hshell ▸ h3) (hshell ▸ h4) (hshell ▸ h5)
  | press p i h1 h2 h3 h4 => exact .press p i h1 (hshell ▸ h2) (hshell ▸ h3) (hshell ▸ h4)
  | grab h1 h2 h3 => exact .grab h1 (hshell ▸ h2) (hshell ▸ h3)
  | close h1 h2 h3 h4 h5 => exact .close h1 (hshell ▸ h2) h3 (hshell ▸ h4) (hshell ▸ h5)
  | min i h1 h2 h3 h4 h5 h6 h7 h8 h9 =>
    exact .min i h1 h2 h3 h4 (hshell ▸ h5) (hshell ▸ h6) (hshell ▸ h7) (hshell ▸ h8) (hshell ▸ h9)
  | max i h1 h2 h3 h4 h5 h6 h7 h8 h9 h10 =>
    refine .max i h1 h2 h3 h4 (hshell ▸ h5) (hshell ▸ h6) (fun hm => ?_) (hshell ▸ h8) (hshell ▸ h9)
      (hshell ▸ h10)
    rw [hshell, hwins]
    exact h7 hm
  | pass h1 h2 h3 => exact .pass (hshell ▸ h1) (hshell ▸ h2) (hshell ▸ h3)

/-- It does not matter where the cursor was. -/
theorem ShellMove.uncursor {at_ : Int × Int}
    (h : ShellMove down up { s with cursor := at_, cursorInitialized := true } s') :
    ShellMove down up s s' := by
  cases h with
  | drag h1 h2 h3 h4 => exact .drag h1 h2 h3 h4
  | bar h1 h2 h3 h4 h5 => exact .bar h1 h2 h3 h4 h5
  | press p i h1 h2 h3 h4 => exact .press p i h1 h2 h3 h4
  | grab h1 h2 h3 => exact .grab h1 h2 h3
  | close h1 h2 h3 h4 h5 => exact .close h1 h2 h3 h4 h5
  | min i h1 h2 h3 h4 h5 h6 h7 h8 h9 => exact .min i h1 h2 h3 h4 h5 h6 h7 h8 h9
  | max i h1 h2 h3 h4 h5 h6 h7 h8 h9 h10 => exact .max i h1 h2 h3 h4 h5 h6 h7 h8 h9 h10
  | pass h1 h2 h3 => exact .pass h1 h2 h3

/-- Composing changes neither windows nor shell. -/
theorem move_compose (h : DeskMove s s' ∧ s'.cursorButtons = s.cursorButtons ∧ ShellMove down up s s') :
    DeskMove s (composeIfActive scr s') ∧ (composeIfActive scr s').cursorButtons = s.cursorButtons ∧
      ShellMove down up s (composeIfActive scr s') := by
  obtain ⟨hdesk, hshell, hbuttons⟩ := composeIfActive_frame scr s'
  obtain ⟨hmove, hsame, hsh⟩ := h
  refine ⟨⟨?_, ?_⟩, hbuttons.trans hsame, hsh.congr (by rw [hdesk]) hshell⟩
  · rw [hdesk]
    exact hmove.windows
  · rw [hdesk]
    exact hmove.focus

theorem taskbarClick_move (hdown : down = true) (hi : i < maxWindows)
    (hn : (s.desk.wins i).normal = true) :
    DeskMove s (taskbarClick i (noDrag s)) ∧
      (taskbarClick i (noDrag s)).cursorButtons = s.cursorButtons ∧
      ShellMove down up s (taskbarClick i (noDrag s)) := by
  unfold taskbarClick
  dsimp only
  split
  · exact ⟨⟨keeps_focus _, fun _ => focusOk_normal hi hn⟩, rfl,
      .bar hdown rfl rfl (fun p => by cases p <;> rfl) rfl⟩
  · split
    · exact ⟨.of_desk rfl, rfl, .bar hdown rfl rfl (fun p => by cases p <;> rfl) rfl⟩
    · exact ⟨⟨keeps_focus _, fun _ => focusOk_normal hi hn⟩, rfl,
        .bar hdown rfl rfl (fun p => by cases p <;> rfl) rfl⟩

theorem shellBars_move (h : shellBars scr x y down (noDrag s) = some s') :
    DeskMove s s' ∧ s'.cursorButtons = s.cursorButtons ∧ ShellMove down up s s' := by
  unfold shellBars at h
  split at h
  · rename_i htest
    simp only [Bool.and_eq_true] at htest
    cases h
    exact move_compose ⟨.of_desk rfl, rfl, .bar htest.2 rfl rfl (fun p => by cases p <;> rfl) rfl⟩
  · split at h
    · rename_i i hhit
      cases h
      unfold taskbarButton at hhit
      split at hhit
      · rename_i htest
        simp only [Bool.and_eq_true] at htest
        obtain ⟨hmem, hn⟩ := taskbarHit_some hhit
        exact move_compose (taskbarClick_move htest.2 (List.mem_range.mp hmem) hn)
      · cases hhit
    · split at h
      · rename_i htest
        simp only [Bool.and_eq_true] at htest
        cases h
        exact move_compose ⟨.of_desk rfl, rfl,
          .bar htest.1.2 rfl rfl (fun p => by cases p <;> rfl) rfl⟩
      · cases h

theorem captionDown_move (hdown : down = true) (hi : i < maxWindows)
    (hn : (s.desk.wins i).normal = true) (h : captionDown scr x y i (noDrag s) = some s') :
    DeskMove s s' ∧ s'.cursorButtons = s.cursorButtons ∧ ShellMove down up s s' := by
  unfold captionDown at h
  dsimp only at h
  split at h <;> cases h
  · exact move_compose ⟨.of_desk rfl, rfl,
      .press .close i hdown ⟨rfl, rfl, rfl⟩ (fun p => by cases p <;> rfl) rfl⟩
  · exact move_compose ⟨.of_desk rfl, rfl,
      .press .max i hdown ⟨rfl, rfl, rfl⟩ (fun p => by cases p <;> rfl) rfl⟩
  · exact move_compose ⟨.of_desk rfl, rfl,
      .press .min i hdown ⟨rfl, rfl, rfl⟩ (fun p => by cases p <;> rfl) rfl⟩
  · exact move_compose ⟨⟨keeps_focus _, fun _ => focusOk_normal hi hn⟩, rfl,
      .grab hdown ⟨rfl, rfl, rfl⟩ fun p => by cases p <;> rfl⟩

theorem toggleMax_move (hup : up = true) (hi : i < maxWindows) (hu : (s.desk.wins i).used = true)
    (hpressed : armed s.shell .max = some i) :
    let t := toggleMax scr i (noDrag s)
    DeskMove s { t with shell := { t.shell with pendingMax := none } } ∧
      t.cursorButtons = s.cursorButtons ∧
      ShellMove down up s { t with shell := { t.shell with pendingMax := none } } := by
  dsimp only
  have hrect : ∀ r, ((setRect s.desk i r).wins i).rect = r := fun r => by
    change (Function.update s.desk.wins i _ i).rect = r
    rw [Function.update_self]
  unfold toggleMax
  by_cases hmax : (noDrag s).shell.maximized i = true
  · rw [if_pos hmax]
    have hyes : s.shell.maximized i = true := hmax
    refine ⟨⟨keeps_setRect .., id⟩, rfl, .max i hup hi hu hpressed rfl ?_ (fun _ => ⟨rfl, hrect _⟩)
      (fun hnot => ?_) (fun p => by cases p <;> rfl) rfl⟩
    · rw [hyes]
      rfl
    · rw [hyes] at hnot
      cases hnot
  · rw [if_neg hmax]
    have hno : s.shell.maximized i = false := eq_false_of_ne_true hmax
    refine ⟨⟨keeps_setRect .., id⟩, rfl, .max i hup hi hu hpressed rfl ?_ (fun hyes => absurd hyes hmax)
      (fun _ => rfl) (fun p => by cases p <;> rfl) rfl⟩
    rw [hno]
    rfl

theorem captionUp_move (hup : up = true) (hi : i < maxWindows) (hu : (s.desk.wins i).used = true)
    (h : captionUp scr x y i (noDrag s) = some s') :
    DeskMove s s' ∧ s'.cursorButtons = s.cursorButtons ∧ ShellMove down up s s' := by
  unfold captionUp at h
  dsimp only at h
  split at h
  · split at h
    · rename_i hpressed
      cases h
      refine move_compose ⟨.of_desk rfl, rfl, .close hup ⟨rfl, rfl, rfl⟩ ?_
        (fun p => by cases p <;> rfl) rfl⟩
      intro hnone
      exact absurd (hpressed.symm.trans hnone) nofun
    · cases h
  · split at h
    · rename_i hpressed
      cases h
      refine move_compose ⟨⟨keeps_focus _, fun hf => ?_⟩, rfl, .min i hup hi hu hpressed rfl rfl rfl
        (fun p => by cases p <;> rfl) rfl⟩
      dsimp only
      split
      · exact .inl rfl
      · exact hf
    · cases h
  · split at h
    · rename_i hpressed
      cases h
      exact move_compose (toggleMax_move hup hi hu hpressed)
    · cases h
  · cases h

theorem shellCaption_move : DeskMove s (shellCaption scr x y down up (noDrag s)).2 ∧
    (shellCaption scr x y down up (noDrag s)).2.cursorButtons = s.cursorButtons ∧
    ShellMove down up s (shellCaption scr x y down up (noDrag s)).2 := by
  unfold shellCaption
  dsimp only
  split
  · rename_i hacted
    obtain ⟨i, hhit, hacted⟩ := Option.bind_eq_some_iff.mp hacted
    obtain ⟨hi, hn⟩ := shellHit_some hhit
    split at hacted
    · exact captionDown_move ‹_› hi hn hacted
    · split at hacted
      · exact captionUp_move ‹_› hi (used_of_normal hn) hacted
      · cases hacted
  · cases up <;> exact ⟨.of_desk rfl, rfl, .pass ⟨rfl, rfl, rfl⟩ (fun p => by cases p <;> rfl) rfl⟩

theorem shellOnMouse_move (scr : Screen) (x y : Int) (buttons : Nat) (s : Wm) :
    DeskMove s (win32kShellOnMouse scr x y buttons s.cursorButtons s).2 ∧
    (win32kShellOnMouse scr x y buttons s.cursorButtons s).2.cursorButtons = s.cursorButtons ∧
    ShellMove (edgeDown buttons s.cursorButtons 0) (edgeUp buttons s.cursorButtons 0) s
      (win32kShellOnMouse scr x y buttons s.cursorButtons s).2 := by
  unfold win32kShellOnMouse
  dsimp only
  split
  · rename_i hdrag
    exact shellDrag_move hdrag
  · split
    · rename_i hbars
      exact shellBars_move hbars
    · exact shellCaption_move

theorem postButton_frame (buttons bit down up i : Nat) (s : Wm) :
    (postButton buttons bit down up i s).desk = s.desk ∧
      (postButton buttons bit down up i s).shell = s.shell := by
  unfold postButton
  split <;> exact ⟨rfl, rfl⟩

theorem focusClicked_frame (hi : i < maxWindows) (hu : (s.desk.wins i).used = true) (buttons : Nat) :
    DeskMove s (focusClicked buttons i s) ∧ (focusClicked buttons i s).desk.wins = s.desk.wins ∧
      (focusClicked buttons i s).shell = s.shell := by
  unfold focusClicked
  split
  · rename_i htest
    simp only [Bool.and_eq_true, Bool.not_eq_true'] at htest
    exact ⟨⟨keeps_focus _, fun _ => focusOk_normal hi (by simp [Wnd.normal, hu, htest.2])⟩, rfl, rfl⟩
  · exact ⟨.refl s, rfl, rfl⟩

theorem postToHit_frame (buttons : Nat) (s : Wm) :
    DeskMove s (postToHit buttons s) ∧ (postToHit buttons s).desk.wins = s.desk.wins ∧
      (postToHit buttons s).shell = s.shell := by
  unfold postToHit
  cases hhit : hitTest s.desk s.cursor.1 s.cursor.2 with
  | none => exact ⟨.refl s, rfl, rfl⟩
  | some i =>
    obtain ⟨hi, htest⟩ := topmost_some hhit
    simp only [Bool.and_eq_true] at htest
    -- the messages leave windows and shell alone, and only a click changes the focus
    let w := s.desk.wins i
    let moved := s.queuePost w.id wmMousemove (mkButtons buttons)
      (packLparamPoint (s.cursor.1 - w.rect.x) (s.cursor.2 - w.rect.y))
    let left := postButton buttons 0 wmLbuttondown wmLbuttonup i moved
    let clicked := focusClicked buttons i left
    let right := postButton buttons 1 wmRbuttondown wmRbuttonup i clicked
    have hleft : left.desk = s.desk ∧ left.shell = s.shell := postButton_frame ..
    obtain ⟨hmove, hwins, hshell⟩ :=
      focusClicked_frame (s := left) hi (hleft.1 ▸ htest.1.1) buttons
    have hright : right.desk = clicked.desk ∧ right.shell = clicked.shell := postButton_frame ..
    have hlast := postButton_frame buttons 2 wmMbuttondown wmMbuttonup i right
    have hdesk : (postMouse buttons i s).desk = clicked.desk := hlast.1.trans hright.1
    have hsh : (postMouse buttons i s).shell = s.shell :=
      hlast.2.trans (hright.2.trans (hshell.trans hleft.2))
    refine ⟨⟨?_, ?_⟩, ?_, hsh⟩
    · change KeepsWindows s.desk (postMouse buttons i s).desk
      rw [hdesk, ← hleft.1]
      exact hmove.windows
    · change _ → FocusOk s.desk (postMouse buttons i s).desk.focusId
      rw [hdesk, ← hleft.1]
      exact hmove.focus
    · change (postMouse buttons i s).desk.wins = _
      rw [hdesk, hwins, hleft.1]

/-- A routed mouse event. -/
theorem routeMouse_move (scr : Screen) (buttons : Nat) (s : Wm) :
    DeskMove s (win32kRouteMouse scr buttons s) ∧
    (win32kRouteMouse scr buttons s).cursorButtons = buttons ∧
    ShellMove (edgeDown buttons s.cursorButtons 0) (edgeUp buttons s.cursorButtons 0) s
      (win32kRouteMouse scr buttons s) := by
  obtain ⟨hmove, hsame, hshell⟩ := shellOnMouse_move scr s.cursor.1 s.cursor.2 buttons s
  unfold win32kRouteMouse
  split
  · rename_i heq
    rw [heq] at hmove hshell
    exact ⟨⟨hmove.windows, hmove.focus⟩, rfl, hshell.congr rfl rfl⟩
  · rename_i s₁ heq
    rw [heq] at hmove hshell
    dsimp only
    obtain ⟨hhit, hwins, hsh⟩ := postToHit_frame buttons s₁
    have hfocus : FocusOk s.desk s.desk.focusId → FocusOk s.desk (postToHit buttons s₁).desk.focusId := by
      intro hf
      rcases hhit.focus (hmove.windows.focusOk (hmove.focus hf)) with h0 | ⟨j, hj, hn, hid⟩
      · exact .inl h0
      · exact .inr ⟨j, hj, (hmove.windows.normal j).symm.trans hn, (hmove.windows.id j).symm.trans hid⟩
    have hkeeps : KeepsWindows s.desk (postToHit buttons s₁).desk := hmove.windows.trans hhit.windows
    split
    · obtain ⟨hdesk', hshell', hbuttons'⟩ :=
        composeIfActive_frame scr { postToHit buttons s₁ with cursorButtons := buttons }
      refine ⟨⟨?_, ?_⟩, hbuttons', hshell.congr ?_ (hshell'.trans hsh)⟩
      · rw [hdesk']
        exact hkeeps
      · rw [hdesk']
        exact hfocus
      · rw [hdesk']
        exact hwins
    · exact ⟨⟨hkeeps, hfocus⟩, rfl, hshell.congr hwins hsh⟩

theorem cursorRepaint_frame (scr : Screen) (s : Wm) : (win32kCursorRepaint scr s).desk = s.desk ∧
    (win32kCursorRepaint scr s).shell = s.shell ∧
    (win32kCursorRepaint scr s).cursorButtons = s.cursorButtons := by
  unfold win32kCursorRepaint
  split
  · exact ⟨rfl, rfl, rfl⟩
  · exact composeIfActive_frame scr s

end Mouse

/-! ## Operations -/

/-- The buttons of a mouse event. -/
def WmOp.buttons : WmOp → Option Nat
  | .mouseAbs _ _ buttons => some buttons
  | .mouseEvent _ _ buttons => some buttons
  | _ => none

/-- Less than 2^31 windows are created, a window is created in a slot whose last owner was
neither minimised nor maximised nor had its caption pressed, and a process that owns the
focused window and goes leaves no other process's window behind. -/
def Tidy (s : Wm) : WmOp → Prop
  | .createWindow _ _ => s.desk.nextZ < 2 ^ 31 - 1 ∧ ∀ i, freeSlot s.desk = some i →
      s.shell.minimized i = false ∧ s.shell.maximized i = false ∧ ∀ p, armed s.shell p ≠ some i
  | .reap eproc => ∀ i < maxWindows, (s.desk.wins i).used = true → (s.desk.wins i).id = s.desk.focusId →
      (s.desk.wins i).owner = eproc →
      ∀ j < maxWindows, (s.desk.wins j).normal = true → (s.desk.wins j).owner = eproc
  | _ => True

section Operations

variable {scr : Screen} {s : Wm} {op : WmOp}

theorem mouse_move (scr : Screen) (s : Wm) {buttons : Nat} (h : op.buttons = some buttons) :
    DeskMove s (wmStep scr s op) ∧ (wmStep scr s op).cursorButtons = buttons ∧
      ShellMove (edgeDown buttons s.cursorButtons 0) (edgeUp buttons s.cursorButtons 0) s
        (wmStep scr s op) := by
  have hrouted : ∀ at_, let s₀ : Wm := { s with cursor := at_, cursorInitialized := true }
      DeskMove s (win32kCursorRepaint scr (win32kRouteMouse scr buttons s₀)) ∧
      (win32kCursorRepaint scr (win32kRouteMouse scr buttons s₀)).cursorButtons = buttons ∧
      ShellMove (edgeDown buttons s.cursorButtons 0) (edgeUp buttons s.cursorButtons 0) s
        (win32kCursorRepaint scr (win32kRouteMouse scr buttons s₀)) := by
    intro at_
    dsimp only
    obtain ⟨hmove, hbuttons, hshell⟩ :=
      routeMouse_move scr buttons { s with cursor := at_, cursorInitialized := true }
    obtain ⟨hdesk', hshell', hbuttons'⟩ := cursorRepaint_frame scr
      (win32kRouteMouse scr buttons { s with cursor := at_, cursorInitialized := true })
    refine ⟨⟨?_, ?_⟩, hbuttons'.trans hbuttons, hshell.uncursor.congr (by rw [hdesk']) hshell'⟩
    · rw [hdesk']
      exact hmove.windows
    · rw [hdesk']
      exact hmove.focus
  cases op with
  | mouseAbs x y b =>
    cases h
    exact hrouted _
  | mouseEvent dx dy b =>
    cases h
    exact hrouted _
  | _ => cases h

/-! Everything but the mouse leaves the shell alone -/

theorem postKeystroke_frame (hwnd ascii scancode : Nat) (s : Wm) :
    (postKeystroke hwnd ascii scancode s).desk = s.desk ∧
      (postKeystroke hwnd ascii scancode s).shell = s.shell ∧
      (postKeystroke hwnd ascii scancode s).cursorButtons = s.cursorButtons := by
  unfold postKeystroke
  dsimp only
  split <;> exact ⟨rfl, rfl, rfl⟩

theorem injectDemoInput_frame (text : List Nat) (s : Wm) :
    (win32kInjectDemoInput text s).desk = s.desk ∧ (win32kInjectDemoInput text s).shell = s.shell ∧
      (win32kInjectDemoInput text s).cursorButtons = s.cursorButtons := by
  have hfold : ∀ (hwnd : Nat) (s : Wm), (text.foldl (injectKey hwnd) s).desk = s.desk ∧
      (text.foldl (injectKey hwnd) s).shell = s.shell ∧
      (text.foldl (injectKey hwnd) s).cursorButtons = s.cursorButtons := by
    induction text with
    | nil => exact fun _ _ => ⟨rfl, rfl, rfl⟩
    | cons c text ih => exact fun hwnd s => ih hwnd (injectKey hwnd s c)
  unfold win32kInjectDemoInput
  split
  · exact ⟨rfl, rfl, rfl⟩
  · exact hfold _ s

theorem showVisible_frame (scr : Screen) (hwnd : Nat) (w : Wnd) (s : Wm) :
    (showVisible scr hwnd w s).desk = s.desk ∧ (showVisible scr hwnd w s).shell = s.shell ∧
      (showVisible scr hwnd w s).cursorButtons = s.cursorButtons := by
  obtain ⟨hdesk, hshell, hbuttons⟩ := compose_frame scr s
  unfold showVisible
  dsimp only
  split
  · obtain ⟨hdesk', hshell', hbuttons'⟩ := injectDemoInput_frame [0x48, 0x69]
      { (win32kCompose scr s).queuePost hwnd wmPaint 0 0 with injected := true }
    exact ⟨hdesk'.trans hdesk, hshell'.trans hshell, hbuttons'.trans hbuttons⟩
  · exact ⟨hdesk, hshell, hbuttons⟩

/-- What an operation does to the windows; `slot` is where it may put a new one. -/
structure DeskStep (slot : Option Nat) (d d' : Desk) : Prop where
  inv : DeskInv d'
  stays : ∀ i < maxWindows, (d'.wins i).used = true →
    (d.wins i).used = true ∧ (d'.wins i).id = (d.wins i).id ∨ slot = some i
  focused : ∀ i < maxWindows, (d.wins i).used = true → (d.wins i).id = d.focusId →
    (d'.wins i).used = false → (∃ j < maxWindows, (d'.wins j).normal = true) → d'.focusId ≠ 0

/-- What the mouse has no part in. -/
structure Quiet (s s' : Wm) : Prop where
  shell : s'.shell = s.shell
  buttons : s'.cursorButtons = s.cursorButtons

theorem Quiet.of_frame {s' : Wm} (h : s'.desk = s.desk ∧ s'.shell = s.shell ∧
    s'.cursorButtons = s.cursorButtons) : Quiet s s' :=
  ⟨h.2.1, h.2.2⟩

theorem DeskStep.keep {slot : Option Nat} {d d' : Desk} (h : DeskInv d) (hk : KeepsWindows d d')
    (hf : FocusOk d d'.focusId) : DeskStep slot d d' := by
  refine ⟨h.keep hk hf, fun i _ hu => .inl ⟨?_, hk.id i⟩, fun i _ hu _ hu' => ?_⟩
  · rw [← hk.used]
    exact hu
  · rw [hk.used, hu] at hu'
    cases hu'

theorem DeskStep.same {slot : Option Nat} {d d' : Desk} (h : DeskInv d) (heq : d' = d) :
    DeskStep slot d d' := by
  subst heq
  exact .keep h (.refl d') h.focus

theorem createWindow_step (scr : Screen) (h : DeskInv s.desk) (c : Create) (owner : Nat)
    (hroom : s.desk.nextZ < 2 ^ 31 - 1) :
    DeskStep (freeSlot s.desk) s.desk (ntUserCreateWindowEx scr c owner s).2.desk ∧
      Quiet s (ntUserCreateWindowEx scr c owner s).2 := by
  unfold ntUserCreateWindowEx
  cases hslot : freeSlot s.desk with
  | none => exact ⟨.same h rfl, rfl, rfl⟩
  | some i =>
    obtain ⟨hi, hfree⟩ := freeSlot_some hslot
    refine ⟨⟨h.add hi hfree ⟨rfl, rfl, rfl⟩ hroom, fun j hj hu => ?_, fun j hj hu _ hu' => ?_⟩, rfl, rfl⟩
    · by_cases hji : j = i
      · exact .inr (hji ▸ rfl)
      · change (Function.update s.desk.wins i _ j).used = true at hu
        rw [Function.update_of_ne hji] at hu
        refine .inl ⟨hu, ?_⟩
        change (Function.update s.desk.wins i _ j).id = _
        rw [Function.update_of_ne hji]
    · have hji : j ≠ i := fun heq => by
        rw [heq, hfree] at hu
        cases hu
      change (Function.update s.desk.wins i _ j).used = false at hu'
      rw [Function.update_of_ne hji, hu] at hu'
      cases hu'

theorem showWindow_step (scr : Screen) (h : DeskInv s.desk) (hwnd : Nat) (cmdShow : Int) :
    DeskStep none s.desk (ntUserShowWindow scr hwnd cmdShow s).2.desk ∧
      Quiet s (ntUserShowWindow scr hwnd cmdShow s).2 := by
  unfold ntUserShowWindow
  split
  · exact ⟨.same h rfl, rfl, rfl⟩
  · rename_i i _
    dsimp only
    let shown : Wm := { s with
      desk := s.desk.setWin i { s.desk.wins i with visible := decide (cmdShow ≠ 0) } }
    have hkeeps : DeskStep none s.desk shown.desk := .keep h (keeps_setWin rfl) h.focus
    split
    · obtain ⟨hdesk, hshell, hbuttons⟩ := showVisible_frame scr hwnd
        { s.desk.wins i with visible := decide (cmdShow ≠ 0) } shown
      exact ⟨hdesk ▸ hkeeps, hshell, hbuttons⟩
    · exact ⟨hkeeps, rfl, rfl⟩

theorem setFocus_step (scr : Screen) (h : DeskInv s.desk) (hwnd : Nat) :
    DeskStep none s.desk (ntUserSetFocus scr hwnd s).2.desk ∧
      Quiet s (ntUserSetFocus scr hwnd s).2 := by
  unfold ntUserSetFocus
  split
  · exact ⟨.same h rfl, rfl, rfl⟩
  · rename_i i hi
    obtain ⟨hlt, hu, -, -⟩ := wndFromId_some hi
    dsimp only
    split
    · exact ⟨.same h rfl, rfl, rfl⟩
    · rename_i hdesk
      split
      · exact ⟨.same h rfl, rfl, rfl⟩
      · let focused : Wm := { s with desk := { s.desk with focusId := (s.desk.wins i).id } }
        have hkeeps : DeskStep none s.desk focused.desk :=
          .keep h (keeps_focus _) (focusOk_normal hlt (by simp [Wnd.normal, hu, hdesk]))
        obtain ⟨hsame, hquiet⟩ := compose_frame scr focused
        exact ⟨hsame ▸ hkeeps, hquiet.1, hquiet.2⟩

theorem destroyWindow_step (scr : Screen) (h : DeskInv s.desk) (hwnd : Nat) :
    DeskStep none s.desk (ntUserDestroyWindow scr hwnd s).2.desk ∧
      Quiet s (ntUserDestroyWindow scr hwnd s).2 := by
  unfold ntUserDestroyWindow
  split
  · exact ⟨.same h rfl, rfl, rfl⟩
  · rename_i i hi
    obtain ⟨hlt, hu, -, -⟩ := wndFromId_some hi
    dsimp only
    let left : Wm := { s.queuePost hwnd wmDestroy 0 0 with
      desk := (s.desk.clear i).refocus (s.desk.wins i).id }
    have hleft : ∀ j, ((s.desk.clear i).wins j).used = true → j ≠ i := fun j huj hji => by
      rw [hji, clear_self] at huj
      cases huj
    have hfresh : ∀ j < maxWindows, ((s.desk.clear i).wins j).used = true →
        0 < ((s.desk.clear i).wins j).id ∧ 0 ≤ ((s.desk.clear i).wins j).z := fun j hj huj => by
      have hji := hleft j huj
      rw [clear_win _ hji] at huj ⊢
      obtain ⟨hpos, -, hz⟩ := h.fresh j hj huj
      exact ⟨hpos, hz⟩
    obtain ⟨hok, hrefocused⟩ := refocus_ok hfresh (s.desk.wins i).id fun hne =>
      h.focus.clear hne
    have hwins : left.desk.wins = (s.desk.clear i).wins := by
      change ((s.desk.clear i).refocus (s.desk.wins i).id).wins = _
      rw [refocus_eq]
    have hinv : DeskInv left.desk := by
      have hcleared := h.clear hlt hu hok
      rw [← refocus_eq] at hcleared
      exact hcleared
    obtain ⟨hsame, hquiet⟩ := compose_frame scr left
    have hstep : DeskStep none s.desk left.desk := by
      refine ⟨hinv, fun j _ huj => ?_, fun j hj huj hid hgone hrest => ?_⟩
      · rw [hwins] at huj ⊢
        have hji := hleft j huj
        rw [clear_win _ hji] at huj ⊢
        exact .inl ⟨huj, rfl⟩
      · rw [hwins] at hgone hrest
        have hji : j = i := by
          by_contra hne
          rw [clear_win _ hne, huj] at hgone
          cases hgone
        rw [hji] at hid
        exact hrefocused hid.symm hrest
    exact ⟨hsame ▸ hstep, hquiet.1, hquiet.2⟩

theorem reap_step (h : DeskInv s.desk) (eproc : Nat) (htidy : Tidy s (.reap eproc)) :
    DeskStep none s.desk (win32kReapProcessWindows eproc s).desk ∧
      Quiet s (win32kReapProcessWindows eproc s) := by
  unfold win32kReapProcessWindows
  split
  · exact ⟨.same h rfl, rfl, rfl⟩
  · obtain ⟨hinv, hrest, -⟩ := foldl_reap h eproc (l := List.range maxWindows) fun i => List.mem_range.mp
    refine ⟨⟨hinv, fun i hi hu => .inl ⟨((hrest i).1.mp hu).1, (hrest i).2.1⟩,
      fun i hi hu hid hgone ⟨j, hj, hn⟩ => ?_⟩, rfl, rfl⟩
    -- the process owned the focused window, so a window that is left would be its own
    have howner : (s.desk.wins i).owner = eproc := by
      by_contra hne
      have hstill := (hrest i).1.mpr ⟨hu, fun _ => hne⟩
      rw [hstill] at hgone
      cases hgone
    obtain ⟨huj, hnot⟩ := (hrest j).1.mp (used_of_normal hn)
    have hnormal : (s.desk.wins j).normal = true := by
      unfold Wnd.normal at hn ⊢
      rw [(hrest j).2.2] at hn
      simp only [Bool.and_eq_true] at hn ⊢
      exact ⟨huj, hn.2⟩
    exact absurd (htidy i hi hu hid howner j hj hnormal) (hnot (List.mem_range.mpr hj))

theorem postKey_frame (hwnd ascii scancode : Nat) (s : Wm) :
    (ntUserPostKey hwnd ascii scancode s).2.desk = s.desk ∧
      (ntUserPostKey hwnd ascii scancode s).2.shell = s.shell ∧
      (ntUserPostKey hwnd ascii scancode s).2.cursorButtons = s.cursorButtons := by
  unfold ntUserPostKey
  split
  · exact ⟨rfl, rfl, rfl⟩
  · exact postKeystroke_frame ..

theorem onKey_frame (ascii scancode : Nat) (s : Wm) : (win32kOnKey ascii scancode s).desk = s.desk ∧
    (win32kOnKey ascii scancode s).shell = s.shell ∧
    (win32kOnKey ascii scancode s).cursorButtons = s.cursorButtons := by
  unfold win32kOnKey
  split
  · exact ⟨rfl, rfl, rfl⟩
  · exact postKeystroke_frame ..

theorem invalidate_frame (hwnd : Nat) (s : Wm) : (ntUserInvalidate hwnd s).2.desk = s.desk ∧
    (ntUserInvalidate hwnd s).2.shell = s.shell ∧
    (ntUserInvalidate hwnd s).2.cursorButtons = s.cursorButtons := by
  unfold ntUserInvalidate
  split <;> exact ⟨rfl, rfl, rfl⟩

theorem getMessage_frame (scr : Screen) (s : Wm) : (ntUserGetMessage scr s).2.desk = s.desk ∧
    (ntUserGetMessage scr s).2.shell = s.shell ∧
    (ntUserGetMessage scr s).2.cursorButtons = s.cursorButtons := by
  unfold ntUserGetMessage
  split
  · exact ⟨rfl, rfl, rfl⟩
  · split
    · exact ⟨rfl, rfl, rfl⟩
    · split
      · exact compose_frame scr _
      · exact ⟨rfl, rfl, rfl⟩

/-- The slot a window is created in. -/
def WmOp.newSlot (d : Desk) : WmOp → Option Nat
  | .createWindow _ _ => freeSlot d
  | _ => none

theorem desk_step (scr : Screen) (h : DeskInv s.desk) (htidy : Tidy s op) :
    DeskStep (op.newSlot s.desk) s.desk (wmStep scr s op).desk ∧
      (op.buttons = none → Quiet s (wmStep scr s op)) := by
  have hframe : ∀ s', s'.desk = s.desk ∧ s'.shell = s.shell ∧ s'.cursorButtons = s.cursorButtons →
      DeskStep none s.desk s'.desk ∧ (op.buttons = none → Quiet s s') :=
    fun s' hs' => ⟨.same h hs'.1, fun _ => .of_frame hs'⟩
  have hmouse : ∀ buttons, op.buttons = some buttons → DeskStep none s.desk (wmStep scr s op).desk :=
    fun buttons hbuttons =>
      have hmove := (mouse_move scr s hbuttons).1
      .keep h hmove.windows (hmove.focus h.focus)
  cases op with
  | createWindow c owner =>
    obtain ⟨hdesk, hquiet⟩ := createWindow_step scr h c owner htidy.1
    exact ⟨hdesk, fun _ => hquiet⟩
  | showWindow hwnd cmdShow =>
    obtain ⟨hdesk, hquiet⟩ := showWindow_step scr h hwnd cmdShow
    exact ⟨hdesk, fun _ => hquiet⟩
  | setFocus hwnd =>
    obtain ⟨hdesk, hquiet⟩ := setFocus_step scr h hwnd
    exact ⟨hdesk, fun _ => hquiet⟩
  | destroyWindow hwnd =>
    obtain ⟨hdesk, hquiet⟩ := destroyWindow_step scr h hwnd
    exact ⟨hdesk, fun _ => hquiet⟩
  | reap eproc =>
    obtain ⟨hdesk, hquiet⟩ := reap_step h eproc htidy
    exact ⟨hdesk, fun _ => hquiet⟩
  | mouseAbs x y buttons => exact ⟨hmouse buttons rfl, nofun⟩
  | mouseEvent dx dy buttons => exact ⟨hmouse buttons rfl, nofun⟩
  | postKey hwnd ascii scancode => exact hframe _ (postKey_frame hwnd ascii scancode s)
  | onKey ascii scancode => exact hframe _ (onKey_frame ascii scancode s)
  | invalidate hwnd => exact hframe _ (invalidate_frame hwnd s)
  | getMessage => exact hframe _ (getMessage_frame scr s)
  | setCursor x y => exact hframe _ (cursorRepaint_frame scr _)
  | postMessage | postQuit | drawing | tick => exact hframe _ ⟨rfl, rfl, rfl⟩

end Operations

end MeuOS.Win32
