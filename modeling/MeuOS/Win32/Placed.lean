import MeuOS.Win32.QueueRuns

/-! Where new windows are put: on the screen, as long as the edges that the clipping adds up
stay in 32 bits. -/
namespace MeuOS.Win32

open MeuOS.Lib

def Screen.Sized (scr : Screen) : Prop :=
  0 < scr.width ∧ scr.width < 2 ^ 31 ∧ 0 < scr.height ∧ scr.height < 2 ^ 31

instance (scr : Screen) : Decidable scr.Sized := inferInstanceAs (Decidable (_ ∧ _))

/-- The fields of `W32_CREATE` are of type `int`. -/
def Rect.Fields32 (r : Rect) : Prop := IsInt32 r.x ∧ IsInt32 r.y ∧ IsInt32 r.w ∧ IsInt32 r.h

instance (r : Rect) : Decidable r.Fields32 := inferInstanceAs (Decidable (_ ∧ _))

/-- Not empty and within the screen. -/
structure Rect.OnScreen (scr : Screen) (r : Rect) : Prop where
  wide : 0 < r.w
  high : 0 < r.h
  left : 0 ≤ r.x
  top : 0 ≤ r.y
  right : r.x + r.w ≤ scr.width
  bottom : r.y + r.h ≤ scr.height

/-- What a call asks for: a desktop window asks for all of the screen. -/
def Create.asked (scr : Screen) (c : Create) : Rect :=
  if c.flags.testBit 0 then ⟨0, 0, scr.width, scr.height⟩ else c.rect

/-- The size of a window on one axis, once it is clipped. -/
def clipSize (screen default_ size : Int) : Int :=
  if screen < (if 0 < size then size else default_) then screen
  else if 0 < size then size else default_

/-- Where it starts, the far edge being added up in 32 bits. -/
def clipPos (screen size pos : Int) : Int :=
  if screen < wrap32 ((if pos < 0 then 0 else pos) + size) then screen - size
  else if pos < 0 then 0 else pos

/-- The right and the bottom edge that are compared with the screen. -/
def Create.edges (scr : Screen) (c : Create) : Int × Int :=
  ((if c.rect.x < 0 then 0 else c.rect.x) + clipSize scr.width 120 c.rect.w,
    (if c.rect.y < 0 then 0 else c.rect.y) + clipSize scr.height 80 c.rect.h)

/-- The edges can be added up. -/
def Create.EdgesFit (scr : Screen) (c : Create) : Prop :=
  c.flags.testBit 0 = true ∨ (c.edges scr).1 < 2 ^ 31 ∧ (c.edges scr).2 < 2 ^ 31

/-- A window that was put where it should be. -/
structure Placed (scr : Screen) (c : Create) (r : Rect) : Prop where
  onScreen : r.OnScreen scr
  exact_ : c.flags.testBit 0 = false → IsInt32 (c.edges scr).1 ∧ IsInt32 (c.edges scr).2
  kept : (c.asked scr).OnScreen scr → r = c.asked scr

section Axis

variable {screen default_ size pos : Int}

theorem clipSize_bounds (size : Int) (hscreen : 0 < screen) (hdefault : 0 < default_) :
    0 < clipSize screen default_ size ∧ clipSize screen default_ size ≤ screen := by
  unfold clipSize
  split <;> split <;> omega

theorem clipSize_of_fits (hsize : 0 < size) (hle : size ≤ screen) :
    clipSize screen default_ size = size := by
  unfold clipSize
  rw [if_pos hsize, if_neg (Int.not_lt.2 hle)]

/-- The clipped interval lies on the screen unless the far edge wraps around. -/
theorem clipPos_inside_iff (hsize : 0 < size) (hle : size ≤ screen) (hscreen : screen < 2 ^ 31)
    (hpos : IsInt32 pos) :
    (0 ≤ clipPos screen size pos ∧ clipPos screen size pos + size ≤ screen) ↔
      (if pos < 0 then 0 else pos) + size < 2 ^ 31 := by
  have hstart : 0 ≤ (if pos < 0 then 0 else pos) ∧ (if pos < 0 then 0 else pos) < 2 ^ 31 := by
    unfold IsInt32 at hpos
    split <;> omega
  unfold clipPos
  generalize (if pos < 0 then 0 else pos) = start at hstart ⊢
  rw [wrap32_of_nonneg (by omega) (by omega)]
  by_cases hedge : start + size < 2 ^ 31
  · rw [if_pos hedge]
    split <;> omega
  · rw [if_neg hedge, if_neg (by omega)]
    omega

theorem clipPos_of_fits (hpos : 0 ≤ pos) (hsize : 0 < size) (hle : pos + size ≤ screen)
    (hscreen : screen < 2 ^ 31) : clipPos screen size pos = pos := by
  unfold clipPos
  rw [if_neg (Int.not_lt.2 hpos), IsInt32.wrap32_eq ⟨by omega, by omega⟩, if_neg (Int.not_lt.2 hle)]

end Axis

section Place

variable {scr : Screen} {c : Create}

theorem place_desktop (h : c.flags.testBit 0 = true) : c.place scr = ⟨0, 0, scr.width, scr.height⟩ :=
  if_pos h

theorem place_normal (h : c.flags.testBit 0 = false) :
    c.place scr =
      { x := clipPos scr.width (clipSize scr.width 120 c.rect.w) c.rect.x
        y := clipPos scr.height (clipSize scr.height 80 c.rect.h) c.rect.y
        w := clipSize scr.width 120 c.rect.w
        h := clipSize scr.height 80 c.rect.h } := by
  unfold Create.place
  rw [h]
  rfl

theorem place_onScreen_iff (hscr : scr.Sized) (hc : c.rect.Fields32) :
    (c.place scr).OnScreen scr ↔ c.EdgesFit scr := by
  obtain ⟨hwidth, hwidth', hheight, hheight'⟩ := hscr
  obtain ⟨hx, hy, -, -⟩ := hc
  cases hdesk : c.flags.testBit 0 with
  | true =>
    rw [place_desktop hdesk]
    refine ⟨fun _ => .inl hdesk, fun _ => ⟨hwidth, hheight, le_rfl, le_rfl, ?_, ?_⟩⟩
    · exact (Int.zero_add _).le
    · exact (Int.zero_add _).le
  | false =>
    obtain ⟨hw, hw'⟩ := clipSize_bounds c.rect.w hwidth (show (0 : Int) < 120 by decide)
    obtain ⟨hh, hh'⟩ := clipSize_bounds c.rect.h hheight (show (0 : Int) < 80 by decide)
    have hright := clipPos_inside_iff hw hw' hwidth' hx
    have hbottom := clipPos_inside_iff hh hh' hheight' hy
    rw [place_normal hdesk]
    constructor
    · intro h
      exact .inr ⟨hright.1 ⟨h.left, h.right⟩, hbottom.1 ⟨h.top, h.bottom⟩⟩
    · rintro (hd | ⟨hr, hb⟩)
      · rw [hdesk] at hd
        cases hd
      · exact ⟨hw, hh, (hright.2 hr).1, (hbottom.2 hb).1, (hright.2 hr).2, (hbottom.2 hb).2⟩

/-- A request that is on the screen already. -/
theorem place_kept (hscr : scr.Sized) (h : (c.asked scr).OnScreen scr) :
    c.place scr = c.asked scr := by
  cases hdesk : c.flags.testBit 0 with
  | true =>
    rw [place_desktop hdesk]
    exact (if_pos hdesk).symm
  | false =>
    have hasked : c.asked scr = c.rect := if_neg (by simp [hdesk])
    rw [hasked] at h ⊢
    obtain ⟨hw, hh, hx, hy, hright, hbottom⟩ := h
    rw [place_normal hdesk]
    rw [clipSize_of_fits hw (by omega), clipSize_of_fits hh (by omega),
      clipPos_of_fits hx hw hright hscr.2.1, clipPos_of_fits hy hh hbottom hscr.2.2.2]

theorem edges_isInt32 (hscr : scr.Sized) (hedges : c.EdgesFit scr)
    (hdesk : c.flags.testBit 0 = false) : IsInt32 (c.edges scr).1 ∧ IsInt32 (c.edges scr).2 := by
  have hw := (clipSize_bounds c.rect.w hscr.1 (show (0 : Int) < 120 by decide)).1
  have hh := (clipSize_bounds c.rect.h hscr.2.2.1 (show (0 : Int) < 80 by decide)).1
  rcases hedges with hd | ⟨hright, hbottom⟩
  · rw [hdesk] at hd
    cases hd
  · unfold Create.edges at hright hbottom ⊢
    refine ⟨⟨?_, hright⟩, ?_, hbottom⟩
    · dsimp only
      split <;> omega
    · dsimp only
      split <;> omega

theorem createWindow_rect (scr : Screen) (c : Create) (owner : Nat) {s : Wm} {i : Nat}
    (hslot : freeSlot s.desk = some i) :
    ((ntUserCreateWindowEx scr c owner s).2.desk.wins i).rect = c.place scr := by
  unfold ntUserCreateWindowEx
  rw [hslot]
  change (Function.update s.desk.wins i _ i).rect = _
  rw [Function.update_self]

end Place

/-- A new window is where it should be if and only if its edges can be added up, and otherwise
it is not on the screen. -/
theorem created_placed_iff {scr : Screen} {c : Create} {s : Wm} {i : Nat} (hscr : scr.Sized)
    (hc : c.rect.Fields32) (owner : Nat) (hslot : freeSlot s.desk = some i) :
    let r := ((ntUserCreateWindowEx scr c owner s).2.desk.wins i).rect
    (Placed scr c r ↔ c.EdgesFit scr) ∧ (r.OnScreen scr ↔ c.EdgesFit scr) := by
  dsimp only
  rw [createWindow_rect scr c owner hslot]
  have hiff := place_onScreen_iff (c := c) hscr hc
  refine ⟨⟨fun h => hiff.1 h.onScreen, fun h => ⟨hiff.2 h, ?_, place_kept hscr⟩⟩, hiff⟩
  exact edges_isInt32 hscr h

def gpuScreen : Screen := ⟨true, 1024, 768⟩

/-- A window of 200 by 100 pixels at (900, 40) is moved to the left. -/
theorem created_placed_iff_clipped :
    gpuScreen.Sized ∧ freeSlot wmInit.desk = some 0 ∧
      Placed gpuScreen ⟨⟨900, 40, 200, 100⟩, 0⟩
        ((ntUserCreateWindowEx gpuScreen ⟨⟨900, 40, 200, 100⟩, 0⟩ 1 wmInit).2.desk.wins 0).rect :=
  ⟨by decide, by decide,
    (created_placed_iff (by decide) (by decide) 1 (by decide)).1.2 (.inr (by decide))⟩

/-- One at the greatest x there is stays off the screen, though it asks for ten pixels only. -/
theorem created_off_screen :
    ¬ ((ntUserCreateWindowEx gpuScreen ⟨⟨2147483647, 0, 10, 10⟩, 0⟩ 1 wmInit).2.desk.wins 0).rect.OnScreen
      gpuScreen := by
  intro h
  have hright : (2147483647 : Int) + 10 ≤ 1024 := h.right
  omega

end MeuOS.Win32
