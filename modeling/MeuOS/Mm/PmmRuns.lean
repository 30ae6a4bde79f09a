import MeuOS.Mm.Pmm

/-! Whole runs of the frame allocator, with the frames handed out and not freed since
carried along. A release names the frames it passes to `pmm_free_frame`, which is all
a run's condition speaks about. -/
namespace MeuOS.Mm

open MeuOS.Lib

structure Frames where
  pmm : Pmm
  outstanding : List Nat

inductive PmmOp
  | allocFrame
  | allocContiguous (numPages : Nat)
  | freeFrame (addr : Nat)
  | freeVirtual (baseAddress regionSize : Option Nat) (freeType : Nat)

/-- The call passes frame `f` to `pmm_free_frame`. -/
def PmmOp.frees : PmmOp → Nat → Bool
  | .freeFrame addr, f => f == addr / frame
  | .freeVirtual (some base) (some size) freeType, f =>
      base != 0 && freeType &&& memDecommit == 0 &&
        (decide ((releaseRange base size).1 / frame ≤ f) &&
          decide (f < (releaseRange base size).1 / frame + (releaseRange base size).2))
  | _, _ => false

def pmmStep (w : Frames) (op : PmmOp) : Option Frames :=
  match op with
  | .allocFrame => (pmmAllocFrame w.pmm).map fun r =>
      ⟨r.1, if r.2 = 0 then w.outstanding else r.2 / frame :: w.outstanding⟩
  | .allocContiguous n => (pmmAllocContiguous w.pmm n).map fun r =>
      ⟨r.1, if r.2 = 0 then w.outstanding
            else (List.range n).map (r.2 / frame + ·) ++ w.outstanding⟩
  | .freeFrame addr => some ⟨pmmFreeFrame w.pmm addr, w.outstanding.filter fun f => !op.frees f⟩
  | .freeVirtual base size freeType => some ⟨(mmFreeVirtualMemory w.pmm base size freeType).2,
      w.outstanding.filter fun f => !op.frees f⟩

structure FramesInv (w : Frames) : Prop where
  counted : w.pmm.Counted
  used : ∀ f ∈ w.outstanding, w.pmm.Managed f ∧ Bitmap.test w.pmm.bitmap f = true
  nodup : w.outstanding.Nodup

/-! ## One step -/

theorem FramesInv.take {w : Frames} (h : FramesInv w) {g n : Nat}
    (hfree : ∀ i, g ≤ i → i < g + n → i ∈ w.pmm.freeFrames) :
    FramesInv ⟨w.pmm.take g n, (List.range n).map (g + ·) ++ w.outstanding⟩ := by
  refine ⟨h.counted.take hfree, fun f hf => ?_, ?_⟩
  · change w.pmm.Managed f ∧ Bitmap.test (Bitmap.setRange w.pmm.bitmap g n) f = true
    rw [Bitmap.test_setRange]
    rcases List.mem_append.mp hf with hf | hf
    · obtain ⟨i, hi, rfl⟩ := List.mem_map.mp hf
      have hin : g + i < g + n := Nat.add_lt_add_left (List.mem_range.mp hi) g
      have hfree := hfree _ (Nat.le_add_right g i) hin
      exact ⟨(Pmm.mem_freeFrames.mp hfree).1, by simp [hin]⟩
    · obtain ⟨hman, htest⟩ := h.used f hf
      exact ⟨hman, by rw [htest, Bool.or_true]⟩
  · refine List.nodup_append.mpr ⟨List.nodup_range.map fun i j hij => ?_, h.nodup, ?_⟩
    · exact Nat.add_left_cancel hij
    · intro f hf f' hf' heq
      obtain ⟨i, hi, rfl⟩ := List.mem_map.mp hf
      have hin : g + i < g + n := Nat.add_lt_add_left (List.mem_range.mp hi) g
      have hclear := (Pmm.mem_freeFrames.mp (hfree _ (Nat.le_add_right g i) hin)).2
      rw [heq, (h.used f' hf').2] at hclear
      cases hclear

theorem frame_pos : 0 < frame := by decide

theorem managed_ne_zero {p : Pmm} {f : Nat} (h : p.Managed f) : f * frame ≠ 0 := by
  have hfirst : 0 < firstFrame := by decide
  have hf : 0 < f := hfirst.trans_le h.1
  exact Nat.mul_ne_zero (by omega) (by decide)

theorem allocFrame_inv {w w' : Frames} (h : FramesInv w)
    (hstep : pmmStep w .allocFrame = some w') : FramesInv w' := by
  unfold pmmStep at hstep
  rcases pmmAllocFrame_spec h.counted with ⟨g, hg, hrun⟩ | ⟨-, hrun⟩
  · have hne := managed_ne_zero (Pmm.mem_freeFrames.mp hg).1
    have htake : FramesInv ⟨w.pmm.take g 1, g :: w.outstanding⟩ := by
      apply h.take (n := 1)
      intro i hge hlt
      obtain rfl : i = g := by omega
      exact hg
    simp only [hrun, Option.map_some, if_neg hne, Nat.mul_div_cancel g frame_pos,
      Option.some.injEq] at hstep
    exact hstep ▸ htake
  · simp only [hrun, Option.map_some, if_pos, Option.some.injEq] at hstep
    exact hstep ▸ h

theorem allocContiguous_inv {w w' : Frames} {n : Nat} (h : FramesInv w)
    (hstep : pmmStep w (.allocContiguous n) = some w') : FramesInv w' := by
  unfold pmmStep at hstep
  obtain ⟨⟨p, a⟩, hrun, rfl⟩ := Option.map_eq_some_iff.mp hstep
  rcases pmmAllocContiguous_spec hrun with ⟨g, rfl, hn, rfl, hfree⟩ | ⟨rfl, rfl⟩
  · have hne := managed_ne_zero (Pmm.mem_freeFrames.mp (hfree g (Nat.le_refl _) (by omega))).1
    simp only [if_neg hne, Nat.mul_div_cancel g frame_pos]
    exact h.take hfree
  · exact h

/-- The allocator after a release of the frames `frees` says, whatever their order. -/
structure Released (p p' : Pmm) (frees : Nat → Bool) : Prop where
  counted : p'.Counted
  top : p'.sTopFrame = p.sTopFrame
  test : ∀ f, Bitmap.test p'.bitmap f = true ↔
    Bitmap.test p.bitmap f = true ∧ ¬(frees f = true ∧ f < maxFrames)

theorem FramesInv.release {w : Frames} (h : FramesInv w) {p' : Pmm} {frees : Nat → Bool}
    (hrel : Released w.pmm p' frees) :
    FramesInv ⟨p', w.outstanding.filter fun f => !frees f⟩ := by
  refine ⟨hrel.counted, fun f hf => ?_, h.nodup.filter _⟩
  obtain ⟨hf, hkept⟩ := List.mem_filter.mp hf
  obtain ⟨hman, htest⟩ := h.used f hf
  refine ⟨?_, (hrel.test f).mpr ⟨htest, fun hfreed => ?_⟩⟩
  · unfold Pmm.Managed at hman ⊢
    rw [hrel.top]
    exact hman
  · simp [hfreed.1] at hkept

theorem pmmFreeFrame_released {p : Pmm} (h : p.Counted) {addr : Nat}
    (haddr : p.Releasable (addr / frame)) :
    Released p (pmmFreeFrame p addr) fun f => f == addr / frame := by
  refine ⟨h.freeFrame haddr, pmmFreeFrame_sTopFrame p addr, fun f => ?_⟩
  rw [pmmFreeFrame_test, beq_iff_eq]

theorem frame_succ (a : Nat) : (a + frame) / frame = a / frame + 1 := Nat.add_div_right a frame_pos

theorem freePages_test (p : Pmm) (a n f : Nat) :
    Bitmap.test (freePages p a n).bitmap f = true ↔ Bitmap.test p.bitmap f = true ∧
      ¬((decide (a / frame ≤ f) && decide (f < a / frame + n)) = true ∧ f < maxFrames) := by
  induction n generalizing p a with
  | zero =>
    simp only [freePages, Bool.and_eq_true, decide_eq_true_eq]
    constructor
    · exact fun htest => ⟨htest, by omega⟩
    · exact And.left
  | succ n ih =>
    rw [freePages, ih, pmmFreeFrame_test, frame_succ]
    simp only [Bool.and_eq_true, decide_eq_true_eq]
    constructor
    · rintro ⟨⟨htest, hne⟩, hout⟩
      exact ⟨htest, by omega⟩
    · rintro ⟨htest, hout⟩
      exact ⟨⟨htest, by omega⟩, by omega⟩

theorem freePages_released {p : Pmm} (h : p.Counted) {a n : Nat}
    (hrange : ∀ f, a / frame ≤ f → f < a / frame + n → p.Releasable f) :
    Released p (freePages p a n) fun f =>
      decide (a / frame ≤ f) && decide (f < a / frame + n) := by
  suffices hkept : (freePages p a n).Counted ∧ (freePages p a n).sTopFrame = p.sTopFrame from
    ⟨hkept.1, hkept.2, freePages_test p a n⟩
  induction n generalizing p a with
  | zero => exact ⟨h, rfl⟩
  | succ n ih =>
    have hfirst := pmmFreeFrame_released h (hrange (a / frame) (Nat.le_refl _) (by omega))
    obtain ⟨hcounted, htop⟩ := ih (a := a + frame) hfirst.counted fun f hge hlt => by
      rw [frame_succ] at hge hlt
      have := hrange f (by omega) (by omega)
      unfold Pmm.Releasable Pmm.Managed at this ⊢
      rwa [hfirst.top]
    exact ⟨hcounted, htop.trans hfirst.top⟩

theorem released_none {p : Pmm} (h : p.Counted) {frees : Nat → Bool}
    (hnone : ∀ f, frees f = false) : Released p p frees :=
  ⟨h, rfl, fun f => by simp [hnone]⟩

/-- `NtFreeVirtualMemory` releases what `PmmOp.frees` says. -/
theorem freeVirtual_released {p : Pmm} (h : p.Counted) {base size : Option Nat} {freeType : Nat}
    (hrel : ∀ f, (PmmOp.freeVirtual base size freeType).frees f = true → p.Releasable f) :
    Released p (mmFreeVirtualMemory p base size freeType).2
      (PmmOp.freeVirtual base size freeType).frees := by
  unfold mmFreeVirtualMemory
  cases base with
  | none => exact released_none h fun _ => rfl
  | some base =>
    cases size with
    | none => exact released_none h fun _ => rfl
    | some size =>
      dsimp only
      by_cases hbase : base = 0
      · rw [if_pos hbase]
        exact released_none h fun f => by simp [PmmOp.frees, hbase]
      by_cases hkeep : (freeType &&& memDecommit != 0) = true
      · rw [if_neg hbase, if_pos hkeep]
        exact released_none h fun f => by simp [PmmOp.frees, bne_iff_ne.mp hkeep]
      rw [if_neg hbase, if_neg hkeep]
      have hfrees : (PmmOp.freeVirtual (some base) (some size) freeType).frees = fun f =>
          decide ((releaseRange base size).1 / frame ≤ f) &&
            decide (f < (releaseRange base size).1 / frame + (releaseRange base size).2) := by
        ext f
        simp only [bne_iff_ne, ne_eq, not_not] at hkeep
        simp [PmmOp.frees, hbase, hkeep]
      rw [hfrees] at hrel ⊢
      apply freePages_released h
      intro f hge hlt
      exact hrel f (by simp [hge, hlt])

/-- A step frees only managed frames, or addresses past the whole map. -/
def ReleasesManaged (w : Frames) (op : PmmOp) : Prop :=
  ∀ f, op.frees f = true → w.pmm.Releasable f

theorem pmmStep_inv {w w' : Frames} {op : PmmOp} (h : FramesInv w) (hop : ReleasesManaged w op)
    (hstep : pmmStep w op = some w') : FramesInv w' := by
  cases op with
  | allocFrame => exact allocFrame_inv h hstep
  | allocContiguous n => exact allocContiguous_inv h hstep
  | freeFrame addr =>
    cases hstep
    exact h.release (pmmFreeFrame_released h.counted (hop _ (by simp [PmmOp.frees])))
  | freeVirtual base size freeType =>
    cases hstep
    exact h.release (freeVirtual_released h.counted hop)

/-! ## Whole runs -/

/-- Allocators reached from `pmm_init(mem_top)` by steps that meet `guard`. -/
def PmmRun (m : Mem) (memTop : Nat) (guard : Frames → PmmOp → Prop) : Frames → Prop :=
  Reach (fun w => pmmInit m memTop = some w.pmm ∧ w.outstanding = [])
    (fun w op w' => pmmStep w op = some w') guard

/-- Counter, bit map, managed range and outstanding frames agree, and the next
allocation, whatever it is, keeps to the free frames of the range. -/
structure PmmSound (w : Frames) : Prop where
  top : w.pmm.sTopFrame ≤ maxFrames
  count : w.pmm.sFree = w.pmm.freeFrames.card
  outside : ∀ f < maxFrames, ¬w.pmm.Managed f → Bitmap.test w.pmm.bitmap f = true
  outstanding : ∀ f ∈ w.outstanding, w.pmm.Managed f ∧ Bitmap.test w.pmm.bitmap f = true
  disjoint : w.outstanding.Nodup
  allocFrame : ∃ p a, pmmAllocFrame w.pmm = some (p, a) ∧ (a = 0 ↔ w.pmm.sFree = 0) ∧
    (a ≠ 0 → ∃ f ∈ w.pmm.freeFrames, a = f * frame ∧ f ∉ w.outstanding)
  allocContiguous : ∀ n p a, pmmAllocContiguous w.pmm n = some (p, a) → a ≠ 0 →
    ∃ f, a = f * frame ∧ ∀ g, f ≤ g → g < f + n → g ∈ w.pmm.freeFrames ∧ g ∉ w.outstanding
  allocContiguous_returns : ∀ n, firstFrame + n < 2 ^ 64 →
    ∃ r, pmmAllocContiguous w.pmm n = some r

theorem FramesInv.fresh {w : Frames} (h : FramesInv w) {f : Nat} (hf : f ∈ w.pmm.freeFrames) :
    f ∉ w.outstanding := by
  intro hout
  have hclear := (Pmm.mem_freeFrames.mp hf).2
  rw [(h.used f hout).2] at hclear
  cases hclear

theorem FramesInv.allocFrame {w : Frames} (h : FramesInv w) :
    ∃ p a, pmmAllocFrame w.pmm = some (p, a) ∧ (a = 0 ↔ w.pmm.sFree = 0) ∧
      (a ≠ 0 → ∃ f ∈ w.pmm.freeFrames, a = f * frame ∧ f ∉ w.outstanding) := by
  have hcount := h.counted.count
  rcases pmmAllocFrame_spec h.counted with ⟨g, hg, hrun⟩ | ⟨hnone, hrun⟩
  · have hne := managed_ne_zero (Pmm.mem_freeFrames.mp hg).1
    have hsome : w.pmm.sFree ≠ 0 := by
      rw [hcount]
      exact Finset.card_ne_zero_of_mem hg
    exact ⟨_, _, hrun, by simp only [hne, hsome], fun _ => ⟨g, hg, rfl, h.fresh hg⟩⟩
  · have hzero : w.pmm.sFree = 0 := by rw [hcount, hnone, Finset.card_empty]
    exact ⟨_, _, hrun, by simp only [hzero], fun hne => absurd rfl hne⟩

theorem FramesInv.sound {w : Frames} (h : FramesInv w) : PmmSound w := by
  refine ⟨h.counted.top, h.counted.count, h.counted.outside, h.used, h.nodup, h.allocFrame, ?_,
    fun n hn => pmmAllocContiguous_returns h.counted hn⟩
  intro n p a hrun hne
  rcases pmmAllocContiguous_spec hrun with ⟨g, ha, -, -, hfree⟩ | ⟨-, hnull⟩
  · exact ⟨g, ha, fun f hge hlt => ⟨hfree f hge hlt, h.fresh (hfree f hge hlt)⟩⟩
  · exact absurd hnull hne

/-- Frame accounting holds in every run that frees managed frames only. -/
theorem pmmRun_sound (m : Mem) (memTop : Nat) (w : Frames)
    (h : PmmRun m memTop ReleasesManaged w) : PmmSound w := by
  apply FramesInv.sound
  apply Reach.invariant h
  · rintro w ⟨hinit, hnone⟩
    obtain ⟨p, hp, hcounted, -⟩ := pmmInit_counted m memTop
    rw [hp] at hinit
    cases hinit
    exact ⟨hcounted, by simp [hnone], by simp [hnone]⟩
  · exact fun w op w' hinv hop hstep => pmmStep_inv hinv hop hstep

theorem pmmRun_sound_release : ∃ w w', pmmStep w (.freeVirtual (some 0x4000000) (some 1) 0x8000) =
    some w' ∧ PmmRun (fun _ => 0) 0x8000000 ReleasesManaged w' ∧ PmmSound w' := by
  obtain ⟨p, hp, -, htop⟩ := pmmInit_counted (fun _ => 0) 0x8000000
  have hguard : ReleasesManaged ⟨p, []⟩ (.freeVirtual (some 0x4000000) (some 1) 0x8000) := by
    intro f hf
    have hrange : releaseRange 0x4000000 1 = (0x4000000, 1) := by decide
    simp only [PmmOp.frees, hrange, frame, Bool.and_eq_true, decide_eq_true_eq] at hf
    have hfirst : firstFrame = 16384 := by decide
    have hlast : min 0x8000000 maxPhys / frame = 32768 := by decide
    have htop' : p.sTopFrame = 32768 := htop.trans hlast
    exact .inl ⟨by omega, show f < p.sTopFrame by omega⟩
  have hrun : PmmRun (fun _ => 0) 0x8000000 ReleasesManaged _ := .step (.start ⟨hp, rfl⟩) hguard rfl
  exact ⟨_, _, rfl, hrun, pmmRun_sound _ _ _ hrun⟩

/-- Releasing one page at `0x1000` on a 128 MiB machine counts a frame nobody manages. -/
theorem pmmRun_unsound_low :
    ¬ ∀ (m : Mem) (memTop : Nat) (w : Frames), PmmRun m memTop (fun _ _ => True) w →
      PmmSound w := by
  intro h
  obtain ⟨p, hp, hcounted, htop⟩ := pmmInit_counted (fun _ => 0) 0x8000000
  have hrun : PmmRun (fun _ => 0) 0x8000000 (fun _ _ => True)
      ⟨(mmFreeVirtualMemory p (some 0x1000) (some 0x1000) 0x8000).2, []⟩ :=
    .step (a := .freeVirtual (some 0x1000) (some 0x1000) 0x8000) (.start (s := ⟨p, []⟩) ⟨hp, rfl⟩)
      trivial rfl
  have hfree : (mmFreeVirtualMemory p (some 0x1000) (some 0x1000) 0x8000).2 =
      pmmFreeFrame p 0x1000 := rfl
  rw [hfree] at hrun
  have hcount := (h _ _ _ hrun).count
  have hset : Bitmap.test p.bitmap 1 = true := by
    apply hcounted.outside 1 (by decide)
    rintro ⟨hge, -⟩
    exact absurd hge (by decide)
  have hone : (0x1000 : Nat) / frame = 1 := by decide
  have hadd : (pmmFreeFrame p 0x1000).sFree = p.sFree + 1 := by
    have hle := p.card_freeFrames_le
    have htop := hcounted.top
    unfold pmmFreeFrame
    rw [hone]
    simp only [hset, maxFrames_eq, and_true, Nat.one_lt_ofNat, if_true]
    rw [hcounted.count, Nat.mod_eq_of_lt]
    rw [maxFrames_eq] at htop
    omega
  have hsame : (pmmFreeFrame p 0x1000).freeFrames = p.freeFrames := by
    ext f
    have htest := pmmFreeFrame_test p 0x1000 f
    simp only [Pmm.mem_freeFrames, Pmm.Managed, pmmFreeFrame_sTopFrame, ← Bool.not_eq_true, htest,
      hone, and_congr_right_iff]
    rintro ⟨hge, -⟩
    have hfirst : firstFrame = 16384 := by decide
    have hne : f ≠ 1 := by omega
    simp [hne]
  rw [hsame, hadd, hcounted.count] at hcount
  omega

end MeuOS.Mm
