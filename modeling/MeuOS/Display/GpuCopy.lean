import MeuOS.Display.GpuClip

/-! Copying a rectangle to another place on the screen, whatever the two have in common. -/
namespace MeuOS.Display

open MeuOS.Lib

/-- Every pixel at the destination becomes what was at the source, and nothing else is changed. -/
structure Copied (md : Mode) (m m' : Mem) (sx sy dx dy w h : Int) : Prop where
  copied : ∀ px py, InRect dx dy w h px py →
    m'.rd32 (md.pixel px py) = m.rd32 (md.pixel (px + sx - dx).toNat (py + sy - dy).toNat)
  others : ∀ i, (∀ px py, InRect dx dy w h px py → i < md.pixel px py ∨ md.pixel px py + 4 ≤ i) → m' i = m i

def OnScreen (md : Mode) (x y w h : Int) : Prop := 0 ≤ x ∧ x + w ≤ md.width ∧ 0 ≤ y ∧ y + h ≤ md.height

instance (md : Mode) (x y w h : Int) : Decidable (OnScreen md x y w h) := inferInstanceAs (Decidable (_ ∧ _))

/-- The rectangle is copied if it is on the screen in both places, and otherwise nothing is done. -/
def Copies (md : Mode) (sx sy dx dy w h : Int) : Prop :=
  ∀ m, ∃ m', gpuCopyRect md m sx sy dx dy w h = some m' ∧
    if OnScreen md sx sy w h ∧ OnScreen md dx dy w h then Copied md m m' sx sy dx dy w h else m' = m

/-- The tests before the loops, as they come out in 32 bits. -/
def Passes (md : Mode) (sx sy dx dy w h : Int) : Prop :=
  (0 < w ∧ 0 < h) ∧ (0 ≤ sx ∧ 0 ≤ sy ∧ 0 ≤ dx ∧ 0 ≤ dy) ∧
    (wrap32 (sx + w) ≤ md.width ∧ wrap32 (sy + h) ≤ md.height) ∧
    wrap32 (dx + w) ≤ md.width ∧ wrap32 (dy + h) ≤ md.height

/-! ## The loops as a list of moves -/

def rowMoves (md : Mode) (sx sy dx dy bytes : Int) (j : Nat) : List (Nat × Nat) :=
  (List.range bytes.toNat).map fun i => (md.start (sy + j) sx + i, md.start (dy + j) dx + i)

def copyMoves (md : Mode) (sx sy dx dy h bytes : Int) : List (Nat × Nat) :=
  (List.range h.toNat).flatMap (rowMoves md sx sy dx dy bytes)

section Loops

variable {md : Mode} {m : Mem} {sx sy dx dy w h bytes : Int}

theorem copyUp_eq :
    forUp 0 h
        (fun m j =>
          forUp 0 bytes (fun m i => copyByte md m (md.start (sy + j) sx + i.toNat, md.start (dy + j) dx + i.toNat)) m)
        m = (copyMoves md sx sy dx dy h bytes).foldlM (copyByte md) m := by
  unfold copyMoves rowMoves
  rw [← foldlM_foldlM]
  simp only [forUp, List.foldlM_map, Int.sub_zero, Int.zero_add, Int.toNat_natCast]

theorem copyDown_eq :
    forDown h
        (fun m j =>
          forDown bytes (fun m i => copyByte md m (md.start (sy + j) sx + i.toNat, md.start (dy + j) dx + i.toNat)) m)
        m = (copyMoves md sx sy dx dy h bytes).reverse.foldlM (copyByte md) m := by
  unfold copyMoves rowMoves
  rw [List.reverse_flatMap, ← foldlM_foldlM]
  simp only [forDown, Function.comp, ← List.map_reverse, List.foldlM_map, Int.toNat_natCast]

/-- All bytes are copied, unless one of them is outside the framebuffer. -/
theorem foldlM_copyByte (l : List (Nat × Nat)) (m : Mem) :
    l.foldlM (copyByte md) m = if ∀ p ∈ l, p.1 < md.size ∧ p.2 < md.size then some (moves m l) else none := by
  induction l generalizing m with
  | nil => rfl
  | cons p l ih =>
    rw [List.foldlM_cons]
    unfold copyByte
    by_cases hp : p.1 < md.size ∧ p.2 < md.size
    · rw [if_pos hp]
      refine (ih (moveOne m p)).trans (if_congr ?_ rfl rfl)
      rw [List.forall_mem_cons]
      exact ⟨fun hrest => ⟨hp, hrest⟩, fun hall => hall.2⟩
    · rw [if_neg hp]
      exact (if_neg fun hall => hp (hall p List.mem_cons_self)).symm

/-- The order the loops take. -/
def copyOrder (md : Mode) (sx sy dx dy w h : Int) : List (Nat × Nat) :=
  if dy > sy ∨ dy = sy ∧ dx > sx then (copyMoves md sx sy dx dy h (wrap32 (w * 4))).reverse
  else copyMoves md sx sy dx dy h (wrap32 (w * 4))

theorem mem_copyOrder {p : Nat × Nat} :
    p ∈ copyOrder md sx sy dx dy w h ↔ ∃ j < h.toNat, ∃ i < (wrap32 (w * 4)).toNat,
      p = (md.start (sy + j) sx + i, md.start (dy + j) dx + i) := by
  have hmoves : p ∈ copyMoves md sx sy dx dy h (wrap32 (w * 4)) ↔ ∃ j < h.toNat, ∃ i < (wrap32 (w * 4)).toNat,
      p = (md.start (sy + j) sx + i, md.start (dy + j) dx + i) := by
    simp only [copyMoves, rowMoves, List.mem_flatMap, List.mem_map, List.mem_range]
    refine exists_congr fun j => and_congr_right fun _ => exists_congr fun i => and_congr_right fun _ => eq_comm
  unfold copyOrder
  split
  · rw [List.mem_reverse, hmoves]
  · exact hmoves

theorem gpuCopyRect_passes (hpasses : Passes md sx sy dx dy w h) :
    gpuCopyRect md m sx sy dx dy w h =
      if ∀ p ∈ copyOrder md sx sy dx dy w h, p.1 < md.size ∧ p.2 < md.size then
        some (moves m (copyOrder md sx sy dx dy w h)) else none := by
  obtain ⟨hsize, hpos, hsrc, hdst⟩ := hpasses
  unfold gpuCopyRect
  rw [if_neg (by omega), if_neg (by omega), if_neg (by omega), if_neg (by omega)]
  rw [← foldlM_copyByte]
  unfold copyOrder
  dsimp only
  split
  · exact copyDown_eq
  · exact copyUp_eq

theorem gpuCopyRect_rejects (hpasses : ¬Passes md sx sy dx dy w h) :
    gpuCopyRect md m sx sy dx dy w h = some m := by
  unfold gpuCopyRect
  unfold Passes at hpasses
  by_cases hsize : w ≤ 0 ∨ h ≤ 0
  · exact if_pos hsize
  · rw [if_neg hsize]
    by_cases hneg : sx < 0 ∨ sy < 0 ∨ dx < 0 ∨ dy < 0
    · exact if_pos hneg
    · rw [if_neg hneg]
      by_cases hsrc : wrap32 (sx + w) > md.width ∨ wrap32 (sy + h) > md.height
      · exact if_pos hsrc
      · rw [if_neg hsrc]
        exact if_pos (by omega)

end Loops

section Inside

variable {md : Mode} {m : Mem} {x y sx sy dx dy w h : Int} {j i : Nat}

/-- Within the screen nothing wraps. -/
theorem start_eq (hon : OnScreen md x y w h) (hw : 0 < w) (hj : (j : Int) < h) :
    md.start (y + j) x = md.pixel x.toNat (y.toNat + j) := by
  obtain ⟨hx, hright, hy, hbottom⟩ := hon
  have hend := @row_end md x.toNat (y.toNat + j) md.height (by omega) (by omega)
  have hfits := md.fits
  have hvalue : (y + j) * md.pitch + x * 4 = (md.pixel x.toNat (y.toNat + j) : Int) := by
    unfold Mode.pixel
    push_cast
    rw [Int.toNat_of_nonneg hx, Int.toNat_of_nonneg hy]
    ring
  unfold Mode.start uint32
  rw [hvalue]
  omega

theorem bytes_eq (hx : 0 ≤ x) (hright : x + w ≤ md.width) (hw : 0 < w) : wrap32 (w * 4) = w * 4 := by
  have hwide := md.wide
  have hpitch := md.pitch_lt
  exact wrap32_eq_iff.2 ⟨by omega, by omega⟩

/-- A byte of a row of the rectangle. -/
theorem start_lt (hon : OnScreen md x y w h) (hw : 0 < w) (hj : (j : Int) < h) (hi : i < (w * 4).toNat) :
    md.start (y + j) x + i < (y.toNat + j + 1) * md.pitch := by
  have hwide := md.wide
  obtain ⟨hx, hright, hy, hbottom⟩ := hon
  rw [start_eq ⟨hx, hright, hy, hbottom⟩ hw hj, Nat.succ_mul]
  unfold Mode.pixel
  omega

theorem start_inside (hon : OnScreen md x y w h) (hw : 0 < w) (hj : (j : Int) < h) (hi : i < (w * 4).toNat) :
    md.start (y + j) x + i < md.size := by
  have hlt := start_lt hon hw hj hi
  have hrows : (y.toNat + j + 1) * md.pitch ≤ md.height * md.pitch := by
    obtain ⟨_, _, hy, hbottom⟩ := hon
    exact Nat.mul_le_mul_right _ (by omega)
  exact Nat.lt_of_lt_of_le hlt hrows

/-- The moves go up through the source. -/
theorem copyMoves_sorted (hon : OnScreen md sx sy w h) (hw : 0 < w) :
    (copyMoves md sx sy dx dy h (w * 4)).Pairwise fun p q => p.1 < q.1 := by
  refine List.pairwise_flatMap.2 ⟨fun j hj => ?_, ?_⟩
  · refine List.pairwise_map.2 (List.pairwise_lt_range.imp fun {i i'} hlt => ?_)
    omega
  · refine List.pairwise_lt_range.imp_of_mem fun {j j'} hj hj' hlt => ?_
    intro p hp q hq
    simp only [rowMoves, List.mem_map, List.mem_range] at hp hq hj hj'
    obtain ⟨i, hi, rfl⟩ := hp
    obtain ⟨i', hi', rfl⟩ := hq
    have hbefore := start_lt (j := j) hon hw (by omega) hi
    have hrows : (sy.toNat + j + 1) * md.pitch ≤ (sy.toNat + j') * md.pitch := Nat.mul_le_mul_right _ (by omega)
    have hstart : md.start (sy + j') sx = md.pixel sx.toNat (sy.toNat + j') := start_eq hon hw (by omega)
    dsimp only
    rw [hstart]
    unfold Mode.pixel
    omega

/-- How far every byte goes. -/
def distance (md : Mode) (sx sy dx dy : Int) : Int := (dy - sy) * md.pitch + (dx - sx) * 4

theorem copyMoves_shift (hs : OnScreen md sx sy w h) (hd : OnScreen md dx dy w h) (hw : 0 < w) :
    ∀ p ∈ copyMoves md sx sy dx dy h (w * 4), (p.2 : Int) = p.1 + distance md sx sy dx dy := by
  intro p hp
  simp only [copyMoves, rowMoves, List.mem_flatMap, List.mem_map, List.mem_range] at hp
  obtain ⟨j, hj, i, -, rfl⟩ := hp
  rw [start_eq hs hw (by omega), start_eq hd hw (by omega)]
  unfold Mode.pixel distance
  push_cast
  rw [Int.toNat_of_nonneg hs.1, Int.toNat_of_nonneg hs.2.2.1, Int.toNat_of_nonneg hd.1, Int.toNat_of_nonneg hd.2.2.1]
  ring

/-- The direction is chosen so that no byte is overwritten before it is read. -/
theorem copyOrder_inOrder (hs : OnScreen md sx sy w h) (hd : OnScreen md dx dy w h) (hw : 0 < w) :
    InOrder (copyOrder md sx sy dx dy w h) := by
  have hsorted : (copyMoves md sx sy dx dy h (w * 4)).Pairwise fun p q => p.1 < q.1 := copyMoves_sorted hs hw
  have hshift := copyMoves_shift hs hd hw
  have hwide := md.wide
  have hpitch : (0 : Int) ≤ md.pitch := Int.natCast_nonneg _
  obtain ⟨hsx, hsr, -, -⟩ := hs
  obtain ⟨hdx, hdr, -, -⟩ := hd
  unfold copyOrder
  rw [bytes_eq hsx hsr hw]
  split
  · next hdown =>
    refine inOrder_down hsorted hshift ?_
    unfold distance
    rcases hdown with hbelow | ⟨rfl, hright⟩
    · have hrows : 1 * (md.pitch : Int) ≤ (dy - sy) * md.pitch := Int.mul_le_mul_of_nonneg_right (by omega) hpitch
      omega
    · rw [Int.sub_self, Int.zero_mul]
      omega
  · next hup =>
    refine inOrder_up hsorted hshift ?_
    unfold distance
    rcases Int.lt_trichotomy dy sy with habove | rfl | hbelow
    · have hrows : (dy - sy) * md.pitch ≤ -1 * (md.pitch : Int) := Int.mul_le_mul_of_nonneg_right (by omega) hpitch
      omega
    · rw [Int.sub_self, Int.zero_mul]
      omega
    · omega

/-- A copy within the screen. -/
theorem moves_copied (hs : OnScreen md sx sy w h) (hd : OnScreen md dx dy w h) (hw : 0 < w) :
    Copied md m (moves m (copyOrder md sx sy dx dy w h)) sx sy dx dy w h := by
  have horder := copyOrder_inOrder hs hd hw
  have hbytes := bytes_eq hs.1 hs.2.1 hw
  refine ⟨fun px py hin => ?_, fun b hb => moves_other fun p hp heq => ?_⟩
  · obtain ⟨hleft, hright, htop, hbottom⟩ := hin
    have hj : ((py - dy.toNat : Nat) : Int) < h := by
      have hdy := hd.2.2.1
      omega
    have hsame : Mem.SameAt m (md.pixel (px + sx - dx).toNat (py + sy - dy).toNat)
        (moves m (copyOrder md sx sy dx dy w h)) (md.pixel px py) 4 := by
      intro k hk
      have hmem : (md.start (sy + (py - dy.toNat : Nat)) sx + (4 * (px - dx.toNat) + k),
          md.start (dy + (py - dy.toNat : Nat)) dx + (4 * (px - dx.toNat) + k)) ∈ copyOrder md sx sy dx dy w h := by
        refine mem_copyOrder.2 ⟨py - dy.toNat, by omega, 4 * (px - dx.toNat) + k, ?_, rfl⟩
        rw [hbytes]
        have hdx := hd.1
        omega
      have hmoved := @moves_at _ m _ _ horder hmem
      have hsrc : md.start (sy + (py - dy.toNat : Nat)) sx + (4 * (px - dx.toNat) + k) =
          md.pixel (px + sx - dx).toNat (py + sy - dy).toNat + k := by
        rw [start_eq hs hw hj]
        obtain ⟨hsx, -, hsy, -⟩ := hs
        obtain ⟨hdx, -, hdy, -⟩ := hd
        rw [show (py + sy - dy).toNat = sy.toNat + (py - dy.toNat) by omega]
        unfold Mode.pixel
        omega
      have hdst : md.start (dy + (py - dy.toNat : Nat)) dx + (4 * (px - dx.toNat) + k) = md.pixel px py + k := by
        rw [start_eq hd hw hj]
        obtain ⟨hdx, -, hdy, -⟩ := hd
        rw [show dy.toNat + (py - dy.toNat) = py by omega]
        unfold Mode.pixel
        omega
      rw [hsrc, hdst] at hmoved
      exact hmoved
    exact hsame.read (o := 0) (k := 4) (Nat.le_refl 4)
  · obtain ⟨j, hj, i, hi, rfl⟩ := mem_copyOrder.1 hp
    rw [hbytes] at hi
    subst heq
    -- the pixel the byte belongs to
    have hpixel := hb (dx.toNat + i / 4) (dy.toNat + j) (by
      obtain ⟨hdx, -, hdy, -⟩ := hd
      unfold InRect
      omega)
    dsimp only at hpixel
    rw [start_eq hd hw (by omega)] at hpixel
    unfold Mode.pixel at hpixel
    omega

end Inside

/-- Where the tests let a rectangle through that is not on the screen, the bytes that the loops touch are
all inside the framebuffer and go nowhere. -/
def StaysPut (md : Mode) (sx sy dx dy w h : Int) : Prop :=
  ∀ j < h.toNat, md.start (sy + j) sx = md.start (dy + j) dx ∧ md.start (sy + j) sx + (wrap32 (w * 4)).toNat ≤ md.size

/-- A copy is right if it is on the screen in both places, or the tests reject it, or there is nothing that
the loops would change. -/
def CopyClipsRight (md : Mode) (sx sy dx dy w h : Int) : Prop :=
  (OnScreen md sx sy w h ∧ OnScreen md dx dy w h) ∨ ¬Passes md sx sy dx dy w h ∨ wrap32 (w * 4) ≤ 0 ∨
    StaysPut md sx sy dx dy w h

section Copying

variable {md : Mode} {m : Mem} {sx sy dx dy w h : Int}

theorem passes_of_onScreen (hs : OnScreen md sx sy w h) (hd : OnScreen md dx dy w h) (hw : 0 < w) (hh : 0 < h) :
    Passes md sx sy dx dy w h := by
  have hwide := md.wide
  have hpitch := md.pitch_lt
  have hheight := md.height_lt
  obtain ⟨hsx, hsr, hsy, hsb⟩ := hs
  obtain ⟨hdx, hdr, hdy, hdb⟩ := hd
  have hfits : ∀ n : Int, 0 ≤ n → n < 2 ^ 31 → wrap32 n = n := fun n hn hlt => wrap32_eq_iff.2 ⟨by omega, hlt⟩
  refine ⟨⟨hw, hh⟩, ⟨hsx, hsy, hdx, hdy⟩, ?_, ?_⟩
  · rw [hfits _ (by omega) (by omega), hfits _ (by omega) (by omega)]
    exact ⟨hsr, hsb⟩
  · rw [hfits _ (by omega) (by omega), hfits _ (by omega) (by omega)]
    exact ⟨hdr, hdb⟩

theorem copies_onScreen (hs : OnScreen md sx sy w h) (hd : OnScreen md dx dy w h) : Copies md sx sy dx dy w h := by
  intro m
  by_cases hempty : w ≤ 0 ∨ h ≤ 0
  · refine ⟨m, if_pos hempty, ?_⟩
    rw [if_pos ⟨hs, hd⟩]
    refine ⟨fun px py hin => ?_, fun _ _ => rfl⟩
    unfold InRect at hin
    omega
  · have hw : 0 < w := by omega
    have hpasses := passes_of_onScreen hs hd hw (by omega)
    rw [gpuCopyRect_passes hpasses, if_pos]
    · refine ⟨_, rfl, ?_⟩
      rw [if_pos ⟨hs, hd⟩]
      exact moves_copied hs hd hw
    · intro p hp
      obtain ⟨j, hj, i, hi, rfl⟩ := mem_copyOrder.1 hp
      rw [bytes_eq hs.1 hs.2.1 hw] at hi
      exact ⟨start_inside hs hw (by omega) hi, start_inside hd hw (by omega) hi⟩

/-- What is shifted by the loops, is shifted by the same distance everywhere. -/
theorem copyOrder_shift (hsize : ∀ p ∈ copyOrder md sx sy dx dy w h, p.1 < md.size ∧ p.2 < md.size) :
    ∀ p ∈ copyOrder md sx sy dx dy w h, (p.2 : Int) = p.1 + wrap32 (distance md sx sy dx dy) := by
  intro p hp
  obtain ⟨hp1, hp2⟩ := hsize p hp
  obtain ⟨j, -, i, -, rfl⟩ := mem_copyOrder.1 hp
  have hfits : md.size < 2 ^ 31 := md.fits
  have hdistance : (dy + j) * md.pitch + dx * 4 = ((sy + j) * md.pitch + sx * 4) + distance md sx sy dx dy := by
    unfold distance
    ring
  unfold Mode.start uint32 at hp1 hp2 ⊢
  rw [hdistance] at hp2 ⊢
  unfold wrap32
  generalize (sy + j) * (md.pitch : Int) + sx * 4 = a at *
  generalize distance md sx sy dx dy = d at *
  dsimp only at *
  omega

/-- Loops that change no memory at all move no byte. -/
theorem staysPut_of_copies (hbytes : 0 < wrap32 (w * 4)) (hpasses : Passes md sx sy dx dy w h)
    (hsame : ∀ m, gpuCopyRect md m sx sy dx dy w h = some m) : StaysPut md sx sy dx dy w h := by
  have hrun : ∀ m, (if ∀ p ∈ copyOrder md sx sy dx dy w h, p.1 < md.size ∧ p.2 < md.size then
      some (moves m (copyOrder md sx sy dx dy w h)) else none) = some m := fun m =>
    (gpuCopyRect_passes hpasses).symm.trans (hsame m)
  have hsize : ∀ p ∈ copyOrder md sx sy dx dy w h, p.1 < md.size ∧ p.2 < md.size := by
    by_contra hout
    have hnone := hrun fun _ => 0
    rw [if_neg hout] at hnone
    cases hnone
  have hmoves : ∀ m : Mem, moves m (copyOrder md sx sy dx dy w h) = m := fun m => by
    have hm := hrun m
    rw [if_pos hsize] at hm
    exact Option.some.inj hm
  have hshift := copyOrder_shift hsize
  have hmem : ∀ j < h.toNat, ∀ i < (wrap32 (w * 4)).toNat,
      (md.start (sy + j) sx + i, md.start (dy + j) dx + i) ∈ copyOrder md sx sy dx dy w h :=
    fun j hj i hi => mem_copyOrder.2 ⟨j, hj, i, hi, rfl⟩
  have hzero : wrap32 (distance md sx sy dx dy) = 0 := by
    by_contra hne
    have hnonempty : copyOrder md sx sy dx dy w h ≠ [] :=
      List.ne_nil_of_mem (hmem 0 (by have hh := hpasses.1.2; omega) 0 (by omega))
    obtain ⟨m, hm⟩ := moves_ne hne hshift hnonempty (show (0 : UInt8) ≠ 1 by decide)
    exact hm (hmoves m)
  intro j hj
  have hfirst := hshift _ (hmem j hj 0 (by omega))
  have hlast := (hsize _ (hmem j hj ((wrap32 (w * 4)).toNat - 1) (by omega))).1
  rw [hzero] at hfirst
  dsimp only at hfirst hlast
  omega

theorem copies_iff : Copies md sx sy dx dy w h ↔ CopyClipsRight md sx sy dx dy w h := by
  by_cases hon : OnScreen md sx sy w h ∧ OnScreen md dx dy w h
  · exact iff_of_true (copies_onScreen hon.1 hon.2) (Or.inl hon)
  · by_cases hpasses : Passes md sx sy dx dy w h
    · have hgo : ∀ {m}, (∀ p ∈ copyOrder md sx sy dx dy w h, (p.1 < md.size ∧ p.2 < md.size) ∧ p.1 = p.2) →
          gpuCopyRect md m sx sy dx dy w h = some m := fun {m} hall => by
        rw [gpuCopyRect_passes hpasses, if_pos fun p hp => (hall p hp).1, moves_self fun p hp => (hall p hp).2]
      by_cases hbytes : wrap32 (w * 4) ≤ 0
      · refine iff_of_true (fun m => ⟨m, hgo fun p hp => ?_, ?_⟩) (Or.inr (Or.inr (Or.inl hbytes)))
        · obtain ⟨j, -, i, hi, -⟩ := mem_copyOrder.1 hp
          omega
        · rw [if_neg hon]
      · constructor
        · intro hcopies
          refine Or.inr (Or.inr (Or.inr (staysPut_of_copies (by omega) hpasses fun m => ?_)))
          obtain ⟨m', hrun, hm'⟩ := hcopies m
          rw [if_neg hon] at hm'
          rw [hrun, hm']
        · rintro (hon' | hrejects | hnone | hstays)
          · exact absurd hon' hon
          · exact absurd hpasses hrejects
          · exact absurd hnone hbytes
          · refine fun m => ⟨m, hgo fun p hp => ?_, ?_⟩
            · obtain ⟨j, hj, i, hi, rfl⟩ := mem_copyOrder.1 hp
              obtain ⟨hstart, hend⟩ := hstays j hj
              dsimp only
              omega
            · rw [if_neg hon]
    · refine iff_of_true (fun m => ⟨m, gpuCopyRect_rejects hpasses, ?_⟩) (Or.inr (Or.inl hpasses))
      rw [if_neg hon]

end Copying

/-! ## The mode the kernel asks for -/

theorem wide_1024 : 4 * 1024 ≤ 4096 := by decide
theorem pitch_4096 : 4096 < 2 ^ 31 := by decide
theorem height_768 : 768 < 2 ^ 31 := by decide
theorem fits_768 : 768 * 4096 < 2 ^ 31 := by decide

def gpuMode : Mode := ⟨1024, 768, 4096, wide_1024, pitch_4096, height_768, fits_768⟩

instance (md : Mode) (sx sy dx dy w h : Int) : Decidable (Passes md sx sy dx dy w h) :=
  inferInstanceAs (Decidable (_ ∧ _))

end MeuOS.Display
