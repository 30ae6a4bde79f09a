import MeuOS.Display.Gpu

/-! Drawing rectangles: which pixels change, and to what. -/
namespace MeuOS.Display

open MeuOS.Lib

/-- Where a pixel of the screen is. -/
def Mode.pixel (md : Mode) (px py : Nat) : Nat := py * md.pitch + 4 * px

/-- The pixels of the screen in `inside` are shaded, and no other byte is changed. -/
structure Painted (md : Mode) (m m' : Mem) (inside : Nat → Nat → Prop) (shade : Nat → Nat → Nat) : Prop where
  shaded : ∀ px py, px < md.width → py < md.height → inside px py →
    m'.rd32 (md.pixel px py) = shade py (m.rd32 (md.pixel px py))
  others : ∀ i, (∀ px py, px < md.width → py < md.height → inside px py →
    i < md.pixel px py ∨ md.pixel px py + 4 ≤ i) → m' i = m i

/-- The pixels of a rectangle. -/
def InRect (x y w h : Int) (px py : Nat) : Prop := x ≤ px ∧ px < x + w ∧ y ≤ py ∧ py < y + h

section Pixels

variable {md : Mode} {m m' : Mem} {px py qx qy : Nat} {inside : Nat → Nat → Prop} {shade : Nat → Nat → Nat}

theorem row_end (hx : px < md.width) (hy : py < qy) : md.pixel px py + 4 ≤ qy * md.pitch := by
  have hwide := md.wide
  have hrows : (py + 1) * md.pitch ≤ qy * md.pitch := Nat.mul_le_mul_right _ hy
  rw [Nat.succ_mul] at hrows
  unfold Mode.pixel
  omega

theorem pixel_inside (hx : px < md.width) (hy : py < md.height) : md.pixel px py + 4 ≤ md.size :=
  row_end hx hy

theorem pixel_apart (hx : px < md.width) (hx' : qx < md.width) (hne : ¬(px = qx ∧ py = qy)) :
    md.pixel px py + 4 ≤ md.pixel qx qy ∨ md.pixel qx qy + 4 ≤ md.pixel px py := by
  rcases Nat.lt_trichotomy py qy with hlt | heq | hgt
  · exact Or.inl (Nat.le_trans (row_end hx hlt) (Nat.le_add_right _ _))
  · subst heq
    unfold Mode.pixel
    omega
  · exact Or.inr (Nat.le_trans (row_end hx' hgt) (Nat.le_add_right _ _))

theorem Painted.refl (hnone : ∀ px py, px < md.width → py < md.height → ¬inside px py) :
    Painted md m m inside shade :=
  ⟨fun px py hx hy hin => absurd hin (hnone px py hx hy), fun _ _ => rfl⟩

theorem Painted.congr {inside' : Nat → Nat → Prop} (h : Painted md m m' inside shade)
    (hsame : ∀ px py, px < md.width → py < md.height → (inside px py ↔ inside' px py)) :
    Painted md m m' inside' shade :=
  ⟨fun px py hx hy hin => h.shaded px py hx hy ((hsame px py hx hy).2 hin),
    fun i hi => h.others i fun px py hx hy hin => hi px py hx hy ((hsame px py hx hy).1 hin)⟩

/-- A pixel that has not been painted yet is as it was. -/
theorem Painted.kept (h : Painted md m m' inside shade) (hx : px < md.width) (hout : ¬inside px py) :
    m'.rd32 (md.pixel px py) = m.rd32 (md.pixel px py) := by
  refine Mem.rd32_congr fun i hlo hhi => h.others i fun qx qy hqx _ hin => ?_
  have hne : ¬(px = qx ∧ py = qy) := by
    rintro ⟨rfl, rfl⟩
    exact hout hin
  have hapart := pixel_apart hx hqx hne
  omega

/-- One pixel more. -/
theorem Painted.update (h : Painted md m m' inside shade) (hx : px < md.width) (hy : py < md.height)
    (hout : ¬inside px py) (hshade : ∀ py old, shade py old < 2 ^ 32) :
    ∃ m'', updatePixel md (shade py) m' (md.pixel px py) = some m'' ∧
      Painted md m m'' (fun qx qy => inside qx qy ∨ qx = px ∧ qy = py) shade := by
  refine ⟨_, if_pos (pixel_inside hx hy), fun qx qy hqx hqy hin => ?_, fun i hi => ?_⟩
  · by_cases hsame : qx = px ∧ qy = py
    · rw [hsame.1, hsame.2, Mem.rd32_write _ _ (hshade py _), h.kept hx hout]
    · have hold : inside qx qy := hin.resolve_right hsame
      rw [Mem.rd32, Mem.read_write_of_disjoint _ _ (pixel_apart hqx hx hsame)]
      exact h.shaded qx qy hqx hqy hold
  · rw [Mem.write_outside _ _ (hi px py hx hy (Or.inr ⟨rfl, rfl⟩))]
    exact h.others i fun qx qy hqx hqy hin => hi qx qy hqx hqy (Or.inl hin)

end Pixels

section Rectangles

variable {md : Mode} {m : Mem} {x y w h x0 x1 y0 y1 : Int} {shade : Int → Nat → Nat}

/-- A row of the screen does not wrap. -/
theorem row_eq {yy : Int} (hlt : yy < md.height) (xx : Int) :
    md.row yy + 4 * xx.toNat = md.pixel xx.toNat yy.toNat := by
  have hfits := md.fits
  have hle : yy.toNat * md.pitch ≤ md.height * md.pitch := Nat.mul_le_mul_right _ (by omega)
  unfold Mode.row Mode.pixel
  rw [Nat.mod_eq_of_lt (by omega)]

/-- The inner loop, after the rows above. -/
theorem drawRow {m₁ : Mem} {yy : Int} (hx0 : 0 ≤ x0) (hx : x0 ≤ x1) (hx1 : x1 ≤ md.width) (hy0 : 0 ≤ y0)
    (hlo : y0 ≤ yy) (hhi : yy < md.height) (hshade : ∀ yy old, shade yy old < 2 ^ 32)
    (hrows : Painted md m m₁ (fun px py => x0 ≤ px ∧ px < x1 ∧ y0 ≤ py ∧ py < yy) fun py => shade py) :
    ∃ m₂, forUp x0 x1 (fun m xx => updatePixel md (shade yy) m (md.row yy + 4 * xx.toNat)) m₁ = some m₂ ∧
      Painted md m m₂ (fun px py => x0 ≤ px ∧ px < x1 ∧ y0 ≤ py ∧ py < yy + 1) fun py => shade py := by
  have hturn : ∀ (xx : Int) (m₂ : Mem), x0 ≤ xx → xx < x1 →
      Painted md m m₂ (fun px py => (x0 ≤ px ∧ px < x1 ∧ y0 ≤ py ∧ py < yy) ∨ x0 ≤ px ∧ px < xx ∧ (py : Int) = yy)
        (fun py => shade py) →
      ∃ m₃, updatePixel md (shade yy) m₂ (md.row yy + 4 * xx.toNat) = some m₃ ∧
        Painted md m m₃ (fun px py => (x0 ≤ px ∧ px < x1 ∧ y0 ≤ py ∧ py < yy) ∨
          x0 ≤ px ∧ px < xx + 1 ∧ (py : Int) = yy) fun py => shade py := by
    intro xx m₂ hxlo hxhi hleft
    have hcolumn : xx.toNat < md.width := by omega
    have hline : yy.toNat < md.height := by omega
    obtain ⟨m₃, hupdate, hpainted⟩ := hleft.update hcolumn hline (by omega) fun py old => hshade py old
    rw [Int.toNat_of_nonneg (by omega)] at hupdate
    rw [row_eq hhi xx]
    exact ⟨m₃, hupdate, hpainted.congr fun px py _ _ => by omega⟩
  obtain ⟨m₂, hrun, hrow⟩ := forUp_invariant _ hx (hrows.congr fun px py _ _ => by omega) hturn
  exact ⟨m₂, hrun, hrow.congr fun px py _ _ => by omega⟩

/-- The two loops, over a rectangle within the screen. -/
theorem drawLoops (hx0 : 0 ≤ x0) (hx : x0 ≤ x1) (hx1 : x1 ≤ md.width) (hy0 : 0 ≤ y0) (hy : y0 ≤ y1)
    (hy1 : y1 ≤ md.height) (hshade : ∀ yy old, shade yy old < 2 ^ 32) :
    ∃ m', forUp y0 y1
        (fun m yy => forUp x0 x1 (fun m xx => updatePixel md (shade yy) m (md.row yy + 4 * xx.toNat)) m) m =
          some m' ∧
      Painted md m m' (fun px py => x0 ≤ px ∧ px < x1 ∧ y0 ≤ py ∧ py < y1) fun py => shade py := by
  refine forUp_invariant
    (fun yy m' => Painted md m m' (fun px py => x0 ≤ px ∧ px < x1 ∧ y0 ≤ py ∧ py < yy) fun py => shade py)
    hy (Painted.refl fun px py _ _ hin => by omega) fun yy m₁ hlo hhi hrows => ?_
  exact drawRow hx0 hx hx1 hy0 hlo (Int.lt_of_lt_of_le hhi hy1) hshade hrows

/-- An edge that does not fit in 32 bits comes out left of everything, or above it. -/
theorem wrapped_edge {a n : Int} (ha : IsInt32 a) (hn : IsInt32 n) (hbig : 2 ^ 31 ≤ a + n) :
    wrap32 (a + n) < 0 := by
  unfold IsInt32 at ha hn
  unfold wrap32
  omega

theorem edge_fits {a n : Int} (ha : IsInt32 a) (hn : 0 ≤ n) (hsmall : a + n < 2 ^ 31) : wrap32 (a + n) = a + n := by
  unfold IsInt32 at ha
  exact wrap32_eq_iff.2 ⟨by omega, hsmall⟩

theorem drawRect_wrapped (hx : IsInt32 x) (hy : IsInt32 y) (hw : IsInt32 w) (hh : IsInt32 h)
    (hbig : 2 ^ 31 ≤ x + w ∨ 2 ^ 31 ≤ y + h) : drawRect md m x y w h shade = some m := by
  unfold drawRect
  by_cases hempty : w ≤ 0 ∨ h ≤ 0
  · rw [if_pos hempty]
  · rw [if_neg hempty]
    dsimp only
    refine if_pos ?_
    rcases hbig with hbig | hbig
    · have hedge := wrapped_edge hx hw hbig
      refine Or.inl ?_
      split <;> split <;> omega
    · have hedge := wrapped_edge hy hh hbig
      refine Or.inr ?_
      split <;> split <;> omega

theorem drawRect_painted (hx : IsInt32 x) (hy : IsInt32 y) (hwide : x + w < 2 ^ 31) (hhigh : y + h < 2 ^ 31)
    (hshade : ∀ yy old, shade yy old < 2 ^ 32) :
    ∃ m', drawRect md m x y w h shade = some m' ∧ Painted md m m' (InRect x y w h) fun py => shade py := by
  unfold drawRect
  by_cases hempty : w ≤ 0 ∨ h ≤ 0
  · rw [if_pos hempty]
    refine ⟨m, rfl, Painted.refl fun px py _ _ hin => ?_⟩
    unfold InRect at hin
    omega
  · rw [if_neg hempty]
    dsimp only
    rw [edge_fits hx (by omega) hwide, edge_fits hy (by omega) hhigh]
    by_cases houtside : (if x + w > md.width then (md.width : Int) else x + w) ≤ (if x < 0 then 0 else x) ∨
        (if y + h > md.height then (md.height : Int) else y + h) ≤ (if y < 0 then 0 else y)
    · rw [if_pos houtside]
      refine ⟨m, rfl, Painted.refl fun px py hpx hpy hin => ?_⟩
      unfold InRect at hin
      rcases houtside with houtside | houtside <;> split at houtside <;> split at houtside <;> omega
    · rw [if_neg houtside]
      obtain ⟨hx0, hy0⟩ := not_or.1 houtside
      obtain ⟨m', hrun, hpainted⟩ := @drawLoops md m
        (if x < 0 then 0 else x) (if x + w > md.width then (md.width : Int) else x + w)
        (if y < 0 then 0 else y) (if y + h > md.height then (md.height : Int) else y + h) shade
        (by split <;> omega) (by omega) (by split <;> omega) (by split <;> omega) (by omega) (by split <;> omega) hshade
      refine ⟨m', hrun, hpainted.congr fun px py hpx hpy => ?_⟩
      unfold InRect
      split <;> split <;> split <;> split <;> omega

/-- The pixels of the rectangle that are on the screen become what they should, whatever is there, and
nothing else is touched. -/
def Draws (md : Mode) (x y w h : Int) (shade : Int → Nat → Nat) (draw : Mem → Option Mem) : Prop :=
  ∀ m, ∃ m', draw m = some m' ∧ Painted md m m' (InRect x y w h) fun py => shade py

/-- The far edges fit in 32 bits, or there is nothing to draw on the screen. -/
def ClipsRight (md : Mode) (x y w h : Int) : Prop :=
  (x + w < 2 ^ 31 ∧ y + h < 2 ^ 31) ∨ ∀ px py, px < md.width → py < md.height → ¬InRect x y w h px py

/-- Some memory tells a shaded pixel from one that was left alone. -/
theorem exists_rd32 (off old : Nat) (hold : old < 2 ^ 32) : ∃ m : Mem, m.rd32 off = old :=
  ⟨Mem.write (fun _ => 0) off 4 old, Mem.rd32_write _ _ hold⟩

theorem drawRect_iff (hx : IsInt32 x) (hy : IsInt32 y) (hw : IsInt32 w) (hh : IsInt32 h)
    (hshade : ∀ yy old, shade yy old < 2 ^ 32) (hchanges : ∀ yy, ∃ old < 2 ^ 32, shade yy old ≠ old) :
    Draws md x y w h shade (fun m => drawRect md m x y w h shade) ↔ ClipsRight md x y w h := by
  by_cases hfit : x + w < 2 ^ 31 ∧ y + h < 2 ^ 31
  · exact iff_of_true (fun m => drawRect_painted hx hy hfit.1 hfit.2 hshade) (Or.inl hfit)
  · have hnothing : ∀ m, drawRect md m x y w h shade = some m := fun m =>
      drawRect_wrapped hx hy hw hh (by omega)
    constructor
    · intro hdraws
      refine Or.inr fun px py hpx hpy hin => ?_
      obtain ⟨old, hold, hne⟩ := hchanges py
      obtain ⟨m, hm⟩ := exists_rd32 (md.pixel px py) old hold
      obtain ⟨m', hrun, hpainted⟩ := hdraws m
      obtain rfl := Option.some.inj ((hnothing m).symm.trans hrun)
      have hshaded := hpainted.shaded px py hpx hpy hin
      rw [hm] at hshaded
      exact hne hshaded.symm
    · rintro (hfits | hnone)
      · exact absurd hfits hfit
      · exact fun m => ⟨m, hnothing m, Painted.refl hnone⟩

/-! ### The three primitives -/

theorem pack32_lt (rgba : Nat) : pack32 rgba < 2 ^ 24 := Nat.mod_lt _ (by decide)

/-- No colour has the top byte set. -/
theorem exists_other {v : Nat} (hv : v < 2 ^ 24) : ∃ old < 2 ^ 32, v ≠ old :=
  ⟨2 ^ 24, by decide, Nat.ne_of_lt hv⟩

theorem gpuFillRect_iff (hx : IsInt32 x) (hy : IsInt32 y) (hw : IsInt32 w) (hh : IsInt32 h) (rgba : Nat) :
    Draws md x y w h (fun _ _ => pack32 rgba) (fun m => gpuFillRect md m x y w h rgba) ↔ ClipsRight md x y w h :=
  drawRect_iff hx hy hw hh (fun _ _ => Nat.lt_trans (pack32_lt rgba) (by decide)) fun _ =>
    exists_other (pack32_lt rgba)

theorem uint32_lt (n : Int) : uint32 n < 2 ^ 32 := by
  unfold uint32
  omega

theorem gradientColor_lt (top bottom : Nat) (y h yy : Int) : gradientColor top bottom y h yy < 2 ^ 32 := by
  unfold gradientColor
  exact Nat.or_lt_two_pow (Nat.or_lt_two_pow (Nat.mod_lt _ (by decide)) (Nat.mod_lt _ (by decide))) (uint32_lt _)

theorem gpuGradientV_iff (hx : IsInt32 x) (hy : IsInt32 y) (hw : IsInt32 w) (hh : IsInt32 h) (top bottom : Nat) :
    Draws md x y w h (fun yy _ => gradientColor top bottom y h yy)
      (fun m => gpuGradientV md m x y w h top bottom) ↔ ClipsRight md x y w h := by
  refine drawRect_iff hx hy hw hh (fun yy _ => gradientColor_lt top bottom y h yy) fun yy => ?_
  by_cases hzero : gradientColor top bottom y h yy = 0
  · exact ⟨1, by decide, by omega⟩
  · exact ⟨0, by decide, hzero⟩

theorem blendComponent_lt {s d alpha : Nat} (hs : s < 256) (hd : d < 256) (halpha : alpha ≤ 255) :
    blendComponent s d alpha < 256 := by
  unfold blendComponent
  have hle : s * alpha + d * (255 - alpha) ≤ 255 * 255 := by
    calc s * alpha + d * (255 - alpha) ≤ 255 * alpha + 255 * (255 - alpha) :=
          Nat.add_le_add (Nat.mul_le_mul_right _ (by omega)) (Nat.mul_le_mul_right _ (by omega))
      _ = 255 * 255 := by omega
  omega

theorem component_lt (rgb shift : Nat) : component rgb shift < 256 := Nat.mod_lt _ (by decide)

theorem blendPixel_lt {rgb alpha d : Nat} (halpha : alpha ≤ 255) : blendPixel rgb alpha d < 2 ^ 24 := by
  have hpart := fun shift => blendComponent_lt (component_lt rgb shift) (component_lt d shift) halpha
  have hr := hpart 16
  have hg := hpart 8
  have hb := hpart 0
  unfold blendPixel
  exact Nat.or_lt_two_pow (Nat.or_lt_two_pow (by omega) (by omega)) (by omega)

/-- What blending makes of a pixel: nothing at all where the colour is transparent, and only the colour
where it is opaque. -/
def blended (rgb alpha d : Nat) : Nat :=
  if alpha = 0 then d else if 255 ≤ alpha then pack32 rgb else blendPixel rgb alpha d

theorem blended_lt {rgb alpha d : Nat} (halpha : alpha ≠ 0) : blended rgb alpha d < 2 ^ 24 := by
  unfold blended
  rw [if_neg halpha]
  split
  · exact pack32_lt rgb
  · exact blendPixel_lt (by omega)

theorem gpuBlendRect_eq {rgb alpha : Nat} (halpha : alpha ≠ 0) :
    gpuBlendRect md m x y w h rgb alpha = drawRect md m x y w h fun _ => blended rgb alpha := by
  unfold gpuBlendRect
  by_cases hempty : w ≤ 0 ∨ h ≤ 0
  · unfold drawRect
    rw [if_pos (hempty.imp_right Or.inl), if_pos hempty]
  · have hgo : ¬(w ≤ 0 ∨ h ≤ 0 ∨ alpha = 0) := fun hstop => hempty (hstop.imp_right fun h => h.resolve_right halpha)
    rw [if_neg hgo]
    by_cases hopaque : 255 ≤ alpha
    · have hshade : blended rgb alpha = fun _ => pack32 rgb := by
        funext d
        rw [blended, if_neg halpha, if_pos hopaque]
      rw [if_pos hopaque, hshade]
      rfl
    · have hshade : blended rgb alpha = blendPixel rgb alpha := by
        funext d
        rw [blended, if_neg halpha, if_neg hopaque]
      rw [if_neg hopaque, hshade]

theorem gpuBlendRect_iff (hx : IsInt32 x) (hy : IsInt32 y) (hw : IsInt32 w) (hh : IsInt32 h) (rgb alpha : Nat) :
    Draws md x y w h (fun _ => blended rgb alpha) (fun m => gpuBlendRect md m x y w h rgb alpha) ↔
      alpha = 0 ∨ ClipsRight md x y w h := by
  by_cases hzero : alpha = 0
  · refine iff_of_true (fun m => ⟨m, if_pos (Or.inr (Or.inr hzero)), fun px py _ _ _ => ?_, fun _ _ => rfl⟩)
      (Or.inl hzero)
    exact (if_pos hzero).symm
  · have hdraw := @drawRect_iff md x y w h (fun _ => blended rgb alpha) hx hy hw hh
      (fun _ _ => Nat.lt_trans (blended_lt hzero) (by decide)) fun _ => ⟨2 ^ 24, by decide, Nat.ne_of_lt (blended_lt hzero)⟩
    unfold Draws at hdraw ⊢
    simp only [gpuBlendRect_eq hzero]
    rw [hdraw]
    exact ⟨Or.inr, fun hclips => hclips.resolve_left hzero⟩

end Rectangles

end MeuOS.Display
