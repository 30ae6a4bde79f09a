import MeuOS.Lib.Painter
import MeuOS.Win32.Taskbar

/-! What the compositor paints, and which window the mouse reaches. The windows are painted by
z, pass by pass; the hit tests look for the greatest z. -/
namespace MeuOS.Win32

open MeuOS.Lib

/-- The client area and the caption, as `shell_window_tc` fills them; the shadow falls outside
the window, and the rest is drawn over these two. -/
def Rect.windowAreas (r : Rect) : List Rect :=
  (if shTitleH < r.h then [⟨r.x, r.y + shTitleH, r.w, r.h - shTitleH⟩] else []) ++
    [⟨r.x, r.y, r.w, shTitleH⟩]

def Rect.painted (r : Rect) (x y : Int) : Bool := r.windowAreas.any fun area => area.contains x y

/-- The windows of one pass of `win32k_shell_compose_full`. -/
def composePass (s : Wm) (pass : Int) : List Nat :=
  (List.range maxWindows).filter fun i =>
    let w := s.desk.wins i
    w.used && w.visible && w.z == pass && !w.desktop && !s.shell.minimized i

/-- The windows it paints, in order. -/
def composeWindows (s : Wm) : List Nat :=
  (List.range s.desk.nextZ.toNat).flatMap fun (pass : Nat) => composePass s (pass + 1)

/-- The window that was painted last at a point. -/
def paintedAt (s : Wm) (x y : Int) : Option Nat :=
  ((composeWindows s).filter fun i => (s.desk.wins i).rect.painted x y).getLast?

def composed (s : Wm) (i : Nat) : Bool :=
  (s.desk.wins i).normal && (s.desk.wins i).visible && !s.shell.minimized i

/-- The topmost of the desktop's own windows, which are not painted. -/
def desktopAt (d : Desk) (x y : Int) : Option Nat :=
  topmost d fun i => (d.wins i).used && (d.wins i).visible && (d.wins i).desktop &&
    (d.wins i).rect.contains x y

/-- The higher of two windows that may be there. -/
def Desk.upper (d : Desk) : Option Nat → Option Nat → Option Nat
  | some i, some j => if (d.wins i).z < (d.wins j).z then some j else some i
  | some i, none => some i
  | none, j => j

/-- The windows are told apart by their z, which is one that a pass is made for. -/
structure Layered (d : Desk) : Prop where
  pass : ∀ i < maxWindows, (d.wins i).used = true → 1 ≤ (d.wins i).z ∧ (d.wins i).z < d.nextZ
  next : 1 ≤ d.nextZ
  apart : ∀ i < maxWindows, ∀ j < maxWindows, (d.wins i).used = true → (d.wins j).used = true →
    (d.wins i).z = (d.wins j).z → i = j

/-! ## The walk over the windows -/

section Walk

variable {d : Desk} {p q : Nat → Bool} {i : Nat}

theorem foldl_higher_le (p : Nat → Bool) (l : List Nat) (best : Int × Option Nat) :
    best.1 ≤ (l.foldl (higher d p) best).1 ∧
      (∀ i ∈ l, p i = true → (d.wins i).z ≤ (l.foldl (higher d p) best).1) ∧
      (l.foldl (higher d p) best = best ∨
        ∃ i ∈ l, p i = true ∧ l.foldl (higher d p) best = ((d.wins i).z, some i)) := by
  induction l generalizing best with
  | nil => exact ⟨Int.le_refl _, nofun, .inl rfl⟩
  | cons i l ih =>
    rw [List.foldl_cons]
    obtain ⟨hle, hall, hfrom⟩ := ih (higher d p best i)
    have hfirst : best.1 ≤ (higher d p best i).1 ∧ (p i = true → (d.wins i).z ≤ (higher d p best i).1) ∧
        (higher d p best i = best ∨ p i = true ∧ higher d p best i = ((d.wins i).z, some i)) := by
      unfold higher
      split
      · rename_i htest
        rw [Bool.and_eq_true, decide_eq_true_eq] at htest
        exact ⟨Int.le_of_lt htest.2, fun _ => Int.le_refl _, .inr ⟨htest.1, rfl⟩⟩
      · rename_i htest
        rw [Bool.and_eq_true, decide_eq_true_eq] at htest
        exact ⟨Int.le_refl _, fun hp => Int.not_lt.mp fun hlt => htest ⟨hp, hlt⟩, .inl rfl⟩
    refine ⟨Int.le_trans hfirst.1 hle, fun j hj hp => ?_, ?_⟩
    · rcases List.mem_cons.mp hj with rfl | hj
      · exact Int.le_trans (hfirst.2.1 hp) hle
      · exact hall j hj hp
    · rcases hfrom with hsame | ⟨j, hj, hp, hfrom⟩
      · rw [hsame]
        exact hfirst.2.2.imp_right fun ⟨hp, heq⟩ => ⟨i, List.mem_cons_self .., hp, heq⟩
      · exact .inr ⟨j, List.mem_cons_of_mem _ hj, hp, hfrom⟩

/-- The walk finds the highest window, when no two have the same z. -/
theorem topmost_iff (hlayers : Layered d) (hused : ∀ i, p i = true → (d.wins i).used = true) :
    topmost d p = some i ↔ Highest (fun i => (d.wins i).z) (fun j => j < maxWindows ∧ p j = true) i := by
  obtain ⟨-, hall, hfrom⟩ := foldl_higher_le (d := d) p (List.range maxWindows) (-1, none)
  have hfound : ∀ j, topmost d p = some j →
      Highest (fun i => (d.wins i).z) (fun j => j < maxWindows ∧ p j = true) j := fun j hj => by
    unfold topmost at hj
    rcases hfrom with hsame | ⟨k, hk, hp, heq⟩
    · rw [hsame] at hj
      cases hj
    · rw [heq] at hj hall
      cases hj
      exact ⟨⟨List.mem_range.mp hk, hp⟩, fun m hm => hall m (List.mem_range.mpr hm.1) hm.2⟩
  refine ⟨hfound i, fun hi => ?_⟩
  cases htop : topmost d p with
  | none =>
    have hz := topmost_none htop hi.1.1 hi.1.2
    have hpass := (hlayers.pass i hi.1.1 (hused i hi.1.2)).1
    omega
  | some j =>
    rw [(hfound j htop).unique (fun a b ha hb hz =>
      hlayers.apart a ha.1 b hb.1 (hused a ha.2) (hused b hb.2) hz) hi]

theorem topmost_congr (h : ∀ i < maxWindows, p i = q i) : topmost d p = topmost d q := by
  unfold topmost
  congr 1
  apply List.foldl_ext
  intro best i hi
  unfold higher
  rw [h i (List.mem_range.mp hi)]

/-- The highest of two kinds is the higher of the highest of each. -/
theorem topmost_or (hlayers : Layered d) (hp : ∀ i, p i = true → (d.wins i).used = true)
    (hq : ∀ i, q i = true → (d.wins i).used = true) :
    topmost d (fun i => p i || q i) = d.upper (topmost d p) (topmost d q) := by
  have hor : ∀ i, (p i || q i) = true → (d.wins i).used = true := fun i h => by
    rcases Bool.or_eq_true_iff.mp h with h | h
    · exact hp i h
    · exact hq i h
  have hnone : ∀ {r : Nat → Bool}, (∀ i, r i = true → (d.wins i).used = true) → topmost d r = none →
      ∀ i < maxWindows, r i = false := fun hr htop i hi => by
    by_contra hne
    rw [Bool.not_eq_false] at hne
    have hz := topmost_none htop hi hne
    have hpass := (hlayers.pass i hi (hr i hne)).1
    omega
  cases htopp : topmost d p with
  | none =>
    have hsame : topmost d (fun i => p i || q i) = topmost d q :=
      topmost_congr fun i hi => by rw [hnone hp htopp i hi, Bool.false_or]
    exact hsame
  | some i =>
    obtain ⟨⟨hi, hpi⟩, hhighp⟩ := (topmost_iff hlayers hp).mp htopp
    cases htopq : topmost d q with
    | none =>
      have hsame : topmost d (fun i => p i || q i) = topmost d p :=
        topmost_congr fun i hi => by rw [hnone hq htopq i hi, Bool.or_false]
      exact hsame.trans htopp
    | some j =>
      obtain ⟨⟨hj, hqj⟩, hhighq⟩ := (topmost_iff hlayers hq).mp htopq
      unfold Desk.upper
      dsimp only
      split
      · rename_i hlt
        refine (topmost_iff hlayers hor).mpr ⟨⟨hj, by rw [hqj, Bool.or_true]⟩, fun k ⟨hk, hpq⟩ => ?_⟩
        rcases Bool.or_eq_true_iff.mp hpq with hpk | hqk
        · exact Int.le_trans (hhighp k ⟨hk, hpk⟩) (Int.le_of_lt hlt)
        · exact hhighq k ⟨hk, hqk⟩
      · rename_i hle
        refine (topmost_iff hlayers hor).mpr ⟨⟨hi, by rw [hpi, Bool.true_or]⟩, fun k ⟨hk, hpq⟩ => ?_⟩
        rcases Bool.or_eq_true_iff.mp hpq with hpk | hqk
        · exact hhighp k ⟨hk, hpk⟩
        · exact Int.le_trans (hhighq k ⟨hk, hqk⟩) (Int.not_lt.mp hle)

end Walk

section Point

variable {s : Wm} {x y : Int} {i : Nat}

theorem windowAreas_cover {r : Rect} (h : r.contains x y = true) : r.painted x y = true := by
  rw [Rect.contains_iff] at h
  unfold Rect.painted Rect.windowAreas
  simp only [List.any_append, List.any_cons, List.any_nil, Bool.or_false, Bool.or_eq_true,
    Rect.contains_iff]
  by_cases hbelow : r.y + shTitleH ≤ y
  · left
    rw [if_pos (by omega)]
    simp only [List.any_cons, List.any_nil, Bool.or_false, Rect.contains_iff]
    omega
  · right
    omega

theorem composeWindows_eq (s : Wm) : composeWindows s =
    paintOrder (composed s) (fun i => (s.desk.wins i).z) s.desk.nextZ.toNat (List.range maxWindows) := by
  unfold composeWindows paintOrder composePass
  congr
  funext pass
  apply List.filter_congr
  intro i _
  unfold composed Wnd.normal
  dsimp only
  generalize (s.desk.wins i).used = a
  generalize (s.desk.wins i).visible = b
  generalize (s.desk.wins i).desktop = c
  generalize s.shell.minimized i = e
  generalize ((s.desk.wins i).z == (pass : Int) + 1) = f
  revert a b c e f
  decide

theorem paintedAt_eq (hlayers : Layered s.desk) (x y : Int) : paintedAt s x y =
    topmost s.desk fun i => composed s i && (s.desk.wins i).rect.painted x y := by
  have hused : ∀ i, composed s i = true → (s.desk.wins i).used = true := fun i h => by
    unfold composed at h
    simp only [Bool.and_eq_true] at h
    exact used_of_normal h.1.1
  apply Option.ext
  intro i
  rw [topmost_iff hlayers fun i h => hused i (Bool.and_eq_true_iff.mp h).1]
  unfold paintedAt
  rw [composeWindows_eq]
  refine (onTop_eq_some (fun a ha b hb hsa hsb hz => ?_) fun a ha hsa => ?_).trans ?_
  · exact hlayers.apart a (List.mem_range.mp ha) b (List.mem_range.mp hb) (hused a hsa) (hused b hsb) hz
  · obtain ⟨hlow, hhigh⟩ := hlayers.pass a (List.mem_range.mp ha) (hused a hsa)
    omega
  · simp only [List.mem_range, Bool.and_eq_true]

/-- No painted window's caption hangs out of it at the point. -/
def NoOverhang (s : Wm) (x y : Int) : Prop :=
  ∀ i < maxWindows, composed s i = true → (s.desk.wins i).rect.painted x y = true →
    (s.desk.wins i).rect.contains x y = true

/-- No minimised window is at the point. -/
def NoneMinimized (s : Wm) (x y : Int) : Prop :=
  ∀ i < maxWindows, (s.desk.wins i).normal = true → (s.desk.wins i).visible = true →
    s.shell.minimized i = true → (s.desk.wins i).rect.contains x y = false

theorem painted_eq_contains (hshort : NoOverhang s x y) (hi : i < maxWindows) :
    (composed s i && (s.desk.wins i).rect.painted x y) =
      (composed s i && (s.desk.wins i).rect.contains x y) := by
  cases hcomposed : composed s i with
  | false => rfl
  | true =>
    rw [Bool.true_and, Bool.true_and, Bool.eq_iff_iff]
    exact ⟨hshort i hi hcomposed, windowAreas_cover⟩

/-- The shell's hit test finds what is painted. -/
theorem shellHit_eq (hlayers : Layered s.desk) (hshort : NoOverhang s x y) :
    shellHit s x y = paintedAt s x y := by
  rw [paintedAt_eq hlayers]
  exact topmost_congr fun i hi => (painted_eq_contains hshort hi).symm

/-- The other one also finds the desktop's own windows. -/
theorem hitTest_eq (hlayers : Layered s.desk) (hshort : NoOverhang s x y) (hmin : NoneMinimized s x y) :
    hitTest s.desk x y = s.desk.upper (paintedAt s x y) (desktopAt s.desk x y) := by
  have htest : ∀ i < maxWindows,
      ((s.desk.wins i).used && (s.desk.wins i).visible && (s.desk.wins i).rect.contains x y) =
        ((composed s i && (s.desk.wins i).rect.painted x y) ||
          ((s.desk.wins i).used && (s.desk.wins i).visible && (s.desk.wins i).desktop &&
            (s.desk.wins i).rect.contains x y)) := fun i hi => by
    rw [painted_eq_contains hshort hi]
    have hmin' := hmin i hi
    unfold composed Wnd.normal at *
    generalize (s.desk.wins i).used = a at *
    generalize (s.desk.wins i).visible = b at *
    generalize (s.desk.wins i).desktop = c at *
    generalize s.shell.minimized i = e at *
    generalize (s.desk.wins i).rect.contains x y = f at *
    revert a b c e f
    decide
  rw [paintedAt_eq hlayers]
  unfold desktopAt
  rw [← topmost_or hlayers]
  · exact topmost_congr htest
  · intro i h
    unfold composed at h
    simp only [Bool.and_eq_true] at h
    exact used_of_normal h.1.1.1
  · intro i h
    simp only [Bool.and_eq_true] at h
    exact h.1.1.1

end Point

end MeuOS.Win32
