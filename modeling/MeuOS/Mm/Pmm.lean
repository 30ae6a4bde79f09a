import MeuOS.Lib.Bitmap
import MeuOS.Lib.Run

/-! The physical frame allocator: a bit map of `MAX_FRAMES` bits, a free counter and the
end of the managed range. A read of the map past its last byte is `none`. -/
namespace MeuOS.Mm

open MeuOS.Lib

def frame : Nat := 4096
def pmmBase : Nat := 0x4000000
def maxPhys : Nat := 0x40000000
def maxFrames : Nat := maxPhys / frame

structure Pmm where
  bitmap : Mem
  sFree : Nat
  sTopFrame : Nat

def isUsed (m : Mem) (f : Nat) : Option Bool :=
  if f < maxFrames then some (Bitmap.test m f) else none

/-- `for (a = PMM_BASE; a + FRAME <= mem_top; a += FRAME) { set_free(a / FRAME); s_free++; }` -/
def pmmInitLoop (memTop : Nat) : Nat → Nat → Pmm → Option Pmm
  | 0, _, _ => none
  | fuel + 1, a, p =>
      if a + frame ≤ memTop then
        pmmInitLoop memTop fuel (a + frame)
          { p with bitmap := Bitmap.clear p.bitmap (a / frame), sFree := (p.sFree + 1) % 2 ^ 64 }
      else some p

/-- `pmm_init`, over whatever the map held before. -/
def pmmInit (m : Mem) (memTop : Nat) : Option Pmm :=
  let memTop := if maxPhys < memTop then maxPhys else memTop
  pmmInitLoop memTop maxFrames pmmBase
    { bitmap := m.blit 0 (maxFrames / 8) fun _ => 0xFF, sFree := 0, sTopFrame := memTop / frame }

def pmmAllocFrameLoop (p : Pmm) : Nat → Nat → Option (Pmm × Nat)
  | 0, _ => none
  | fuel + 1, f =>
      if f < p.sTopFrame then
        (isUsed p.bitmap f).bind fun used =>
          if used then pmmAllocFrameLoop p fuel (f + 1)
          else some ({ p with bitmap := Bitmap.set p.bitmap f,
                              sFree := (p.sFree + 2 ^ 64 - 1) % 2 ^ 64 }, f * frame)
      else some (p, 0)

def pmmAllocFrame (p : Pmm) : Option (Pmm × Nat) :=
  pmmAllocFrameLoop p (maxFrames + 1) (pmmBase / frame)

/-- `for (; k < num_pages; k++) if (is_used(f + k)) break;` with `left` pages to go. -/
def windowLoop (m : Mem) (f : Nat) : Nat → Nat → Option Nat
  | k, 0 => some k
  | k, left + 1 =>
      (isUsed m (f + k)).bind fun used => if used then some k else windowLoop m f (k + 1) left

/-- The search for a window; the bound `f + num_pages <= end_f` is a 64-bit sum. -/
def pmmAllocContiguousLoop (p : Pmm) (numPages : Nat) : Nat → Nat → Option (Pmm × Nat)
  | 0, _ => none
  | fuel + 1, f =>
      if (f + numPages) % 2 ^ 64 ≤ p.sTopFrame then
        (windowLoop p.bitmap f 0 numPages).bind fun k =>
          if k = numPages then
            some ({ p with bitmap := Bitmap.setRange p.bitmap f numPages,
                           sFree := (p.sFree + 2 ^ 64 - numPages) % 2 ^ 64 }, f * frame)
          else pmmAllocContiguousLoop p numPages fuel (f + k + 1)
      else some (p, 0)

def pmmAllocContiguous (p : Pmm) (numPages : Nat) : Option (Pmm × Nat) :=
  if numPages = 0 then some (p, 0)
  else pmmAllocContiguousLoop p numPages (maxFrames + 2) (pmmBase / frame)

def pmmFreeFrame (p : Pmm) (addr : Nat) : Pmm :=
  let f := addr / frame
  if f < maxFrames ∧ Bitmap.test p.bitmap f = true then
    { p with bitmap := Bitmap.clear p.bitmap f, sFree := (p.sFree + 1) % 2 ^ 64 }
  else p

def statusSuccess : Nat := 0
def statusInvalidParameter : Nat := 0xC000000D
def memDecommit : Nat := 0x4000

/-- `round_up_pages` in `SIZE_T`. -/
def roundUpPages (bytes : Nat) : Nat := (bytes + frame - 1) % 2 ^ 64 / frame * frame

/-- The frames `for (a = base; a < end; a += PAGE_SIZE)` frees; both ends are page
aligned, so `a` does not wrap. -/
def freePages (p : Pmm) (a : Nat) : Nat → Pmm
  | 0 => p
  | n + 1 => freePages (pmmFreeFrame p a) (a + frame) n

/-- First page and number of pages a release of `size` bytes at `base` walks over. -/
def releaseRange (base size : Nat) : Nat × Nat :=
  let aligned := roundUpPages (if size = 0 then frame else size)
  let base := base / frame * frame
  (base, ((base + aligned) % 2 ^ 64 - base) / frame)

/-- `MmFreeVirtualMemory_k`; a null pointer argument is `none`. -/
def mmFreeVirtualMemory (p : Pmm) (baseAddress regionSize : Option Nat) (freeType : Nat) :
    Nat × Pmm :=
  match baseAddress, regionSize with
  | some base, some size =>
      if base = 0 then (statusInvalidParameter, p)
      else if freeType &&& memDecommit != 0 then (statusSuccess, p)
      else (statusSuccess, freePages p (releaseRange base size).1 (releaseRange base size).2)
  | _, _ => (statusInvalidParameter, p)

/-! ## The managed frames -/

def firstFrame : Nat := pmmBase / frame

theorem maxFrames_eq : maxFrames = 262144 := by decide

def Pmm.Managed (p : Pmm) (f : Nat) : Prop := firstFrame ≤ f ∧ f < p.sTopFrame

/-- The free frames of the managed range. -/
def Pmm.freeFrames (p : Pmm) : Finset Nat := Bitmap.clears p.bitmap firstFrame p.sTopFrame

/-- The counter is the number of clear bits, and nothing outside the range is clear. -/
structure Pmm.Counted (p : Pmm) : Prop where
  top : p.sTopFrame ≤ maxFrames
  count : p.sFree = p.freeFrames.card
  outside : ∀ f < maxFrames, ¬p.Managed f → Bitmap.test p.bitmap f = true

theorem Pmm.mem_freeFrames {p : Pmm} {f : Nat} :
    f ∈ p.freeFrames ↔ p.Managed f ∧ Bitmap.test p.bitmap f = false :=
  Bitmap.mem_clears

theorem Pmm.card_freeFrames_le (p : Pmm) : p.freeFrames.card ≤ p.sTopFrame :=
  (Bitmap.card_clears_le _ _ _).trans (Nat.sub_le _ _)

/-! ## Initialisation -/

theorem test_init (m : Mem) {f : Nat} (h : f < maxFrames) :
    Bitmap.test (m.blit 0 (maxFrames / 8) fun _ => 0xFF) f = true := by
  rw [maxFrames_eq] at h ⊢
  have hbit : f % 8 < 8 := Nat.mod_lt _ (by decide)
  rw [Bitmap.test_eq_testBit, Mem.blit_inside m _ (Nat.zero_le _) (by omega)]
  interval_cases f % 8 <;> rfl

theorem pmmInitLoop_counted {memTop fuel f : Nat} {p : Pmm} (hmem : memTop ≤ maxPhys)
    (htop : p.sTopFrame = memTop / frame) (hf : firstFrame ≤ f)
    (hle : f = firstFrame ∨ f ≤ memTop / frame) (hfuel : memTop / frame < fuel + f)
    (hpos : 0 < fuel) (hcount : p.sFree = p.freeFrames.card)
    (hused : ∀ g < maxFrames, ¬(firstFrame ≤ g ∧ g < f) → Bitmap.test p.bitmap g = true) :
    ∃ p', pmmInitLoop memTop fuel (f * frame) p = some p' ∧ p'.Counted ∧
      p'.sTopFrame = memTop / frame := by
  have hmax : memTop / frame ≤ maxFrames := Nat.div_le_div_right hmem
  induction fuel generalizing f p with
  | zero => omega
  | succ fuel ih =>
    unfold pmmInitLoop
    split
    case isTrue hroom =>
      have hflt : f < memTop / frame := by
        simp only [frame] at hroom ⊢
        omega
      have hset : Bitmap.test p.bitmap f = true := hused f (by omega) (by omega)
      have hcard : (p.sFree + 1) % 2 ^ 64 =
          (Bitmap.clears (Bitmap.clear p.bitmap f) firstFrame p.sTopFrame).card := by
        have hsmall := p.card_freeFrames_le
        rw [Bitmap.card_clears_clear hf (htop ▸ hflt) hset, hcount]
        unfold Pmm.freeFrames at hsmall ⊢
        rw [maxFrames_eq] at hmax
        omega
      have hnext : f * frame + frame = (f + 1) * frame := by ring
      rw [Nat.mul_div_cancel f (by decide), hnext]
      refine ih htop (by omega) (.inr hflt) (by omega) (by omega) hcard fun g hg hout => ?_
      rw [Bitmap.test_clear, hused g hg (by omega)]
      simp only [Bool.and_true, bne_iff_ne, ne_eq]
      omega
    case isFalse hend =>
      have hfge : memTop / frame ≤ f := by
        simp only [frame] at hend ⊢
        omega
      refine ⟨p, rfl, ⟨htop ▸ hmax, hcount, fun g hg hout => hused g hg ?_⟩, htop⟩
      unfold Pmm.Managed at hout
      omega

/-- Every `mem_top` gives an allocator whose free frames are the managed ones. -/
theorem pmmInit_counted (m : Mem) (memTop : Nat) :
    ∃ p, pmmInit m memTop = some p ∧ p.Counted ∧ p.sTopFrame = min memTop maxPhys / frame := by
  have hmin : (if maxPhys < memTop then maxPhys else memTop) = min memTop maxPhys := by
    split <;> omega
  have hmax : min memTop maxPhys / frame ≤ maxFrames :=
    Nat.div_le_div_right (Nat.min_le_right _ _)
  have hstart : firstFrame * frame = pmmBase := by decide
  have hfirst : 0 < firstFrame := by decide
  unfold pmmInit
  rw [hmin, ← hstart]
  apply pmmInitLoop_counted (Nat.min_le_right _ _) rfl (Nat.le_refl _) (.inl rfl)
  · omega
  · decide
  · have hnone : Pmm.freeFrames ⟨m.blit 0 (maxFrames / 8) fun _ => 0xFF, 0,
        min memTop maxPhys / frame⟩ = ∅ := by
      ext f
      simp only [Pmm.mem_freeFrames, Pmm.Managed, Finset.notMem_empty, iff_false]
      rintro ⟨⟨-, hlt⟩, hclear⟩
      rw [test_init m (hlt.trans_le hmax)] at hclear
      cases hclear
    rw [hnone, Finset.card_empty]
  · exact fun g hg _ => test_init m hg

/-! ## Allocation -/

/-- The `n` frames from `f` on leave the free pool. -/
def Pmm.take (p : Pmm) (f n : Nat) : Pmm :=
  { p with bitmap := Bitmap.setRange p.bitmap f n, sFree := (p.sFree + 2 ^ 64 - n) % 2 ^ 64 }

theorem Pmm.Counted.take {p : Pmm} (h : p.Counted) {f n : Nat}
    (hfree : ∀ g, f ≤ g → g < f + n → g ∈ p.freeFrames) : (p.take f n).Counted := by
  have hcard := Bitmap.card_clears_setRange hfree
  have hsmall := p.card_freeFrames_le
  have htop := h.top
  refine ⟨h.top, ?_, fun g hg hout => ?_⟩
  · change (p.sFree + 2 ^ 64 - n) % 2 ^ 64 =
      (Bitmap.clears (Bitmap.setRange p.bitmap f n) firstFrame p.sTopFrame).card
    rw [h.count]
    unfold Pmm.freeFrames at hsmall ⊢
    rw [maxFrames_eq] at htop
    omega
  · change Bitmap.test (Bitmap.setRange p.bitmap f n) g = true
    rw [Bitmap.test_setRange, h.outside g hg hout, Bool.or_true]

/-- The linear search stops at the lowest free frame, and at 0 when there is none. -/
theorem pmmAllocFrameLoop_spec {p : Pmm} (htop : p.sTopFrame ≤ maxFrames) {fuel f : Nat}
    (hfuel : p.sTopFrame < fuel + f) (hpos : 0 < fuel) :
    (∃ g, f ≤ g ∧ g < p.sTopFrame ∧ Bitmap.test p.bitmap g = false ∧
      pmmAllocFrameLoop p fuel f = some (p.take g 1, g * frame)) ∨
    ((∀ g, f ≤ g → g < p.sTopFrame → Bitmap.test p.bitmap g = true) ∧
      pmmAllocFrameLoop p fuel f = some (p, 0)) := by
  induction fuel generalizing f with
  | zero => omega
  | succ fuel ih =>
    unfold pmmAllocFrameLoop
    by_cases hf : f < p.sTopFrame
    · have hused : isUsed p.bitmap f = some (Bitmap.test p.bitmap f) := if_pos (hf.trans_le htop)
      rw [if_pos hf, hused, Option.bind_some]
      cases htest : Bitmap.test p.bitmap f with
      | false => exact .inl ⟨f, Nat.le_refl _, hf, htest, rfl⟩
      | true =>
        rw [if_pos rfl]
        rcases ih (f := f + 1) (by omega) (by omega) with ⟨g, hle, hrest⟩ | ⟨hall, hnull⟩
        · exact .inl ⟨g, by omega, hrest⟩
        · refine .inr ⟨fun g hle hlt => ?_, hnull⟩
          rcases Nat.eq_or_lt_of_le hle with rfl | hlt'
          · exact htest
          · exact hall g hlt' hlt
    · rw [if_neg hf]
      exact .inr ⟨fun g hle hlt => by omega, rfl⟩

theorem pmmAllocFrame_spec {p : Pmm} (h : p.Counted) :
    (∃ g ∈ p.freeFrames, pmmAllocFrame p = some (p.take g 1, g * frame)) ∨
    (p.freeFrames = ∅ ∧ pmmAllocFrame p = some (p, 0)) := by
  have htop := h.top
  rcases pmmAllocFrameLoop_spec htop (show p.sTopFrame < maxFrames + 1 + firstFrame by omega)
    (Nat.succ_pos _) with ⟨g, hle, hlt, hclear, hrun⟩ | ⟨hall, hrun⟩
  · exact .inl ⟨g, Pmm.mem_freeFrames.mpr ⟨⟨hle, hlt⟩, hclear⟩, hrun⟩
  · refine .inr ⟨?_, hrun⟩
    ext g
    simp only [Pmm.mem_freeFrames, Finset.notMem_empty, iff_false]
    rintro ⟨⟨hle, hlt⟩, hclear⟩
    rw [hall g hle hlt] at hclear
    cases hclear

/-- The window scan stops within the window, behind frames that are all clear. -/
theorem windowLoop_some {m : Mem} {f k left j : Nat} (h : windowLoop m f k left = some j) :
    k ≤ j ∧ j ≤ k + left ∧
      ∀ i, k ≤ i → i < j → f + i < maxFrames ∧ Bitmap.test m (f + i) = false := by
  induction left generalizing k with
  | zero =>
    cases h
    exact ⟨Nat.le_refl _, Nat.le_refl _, fun i hge hlt => by omega⟩
  | succ left ih =>
    unfold windowLoop isUsed at h
    split at h
    case isFalse => cases h
    case isTrue hin =>
      rw [Option.bind_some] at h
      cases htest : Bitmap.test m (f + k) with
      | true =>
        rw [htest, if_pos rfl] at h
        cases h
        exact ⟨Nat.le_refl _, by omega, fun i hge hlt => by omega⟩
      | false =>
        rw [htest, if_neg Bool.false_ne_true] at h
        obtain ⟨hle, hge, hclear⟩ := ih h
        refine ⟨by omega, by omega, fun i hki hij => ?_⟩
        rcases Nat.eq_or_lt_of_le hki with rfl | hlt
        · exact ⟨hin, htest⟩
        · exact hclear i hlt hij

theorem windowLoop_returns {m : Mem} {f k left : Nat} (h : f + k + left ≤ maxFrames) :
    ∃ j, windowLoop m f k left = some j := by
  induction left generalizing k with
  | zero => exact ⟨k, rfl⟩
  | succ left ih =>
    unfold windowLoop isUsed
    rw [if_pos (by omega), Option.bind_some]
    split
    · exact ⟨k, rfl⟩
    · exact ih (by omega)

/-- A window that is returned lies in the managed range and was free, also when the
64-bit bound of the search wrapped. -/
theorem pmmAllocContiguousLoop_spec {p p' : Pmm} {n fuel f a : Nat} (hn : 0 < n) (hf : firstFrame ≤ f)
    (h : pmmAllocContiguousLoop p n fuel f = some (p', a)) :
    (∃ g, a = g * frame ∧ p' = p.take g n ∧ ∀ i, g ≤ i → i < g + n → i ∈ p.freeFrames) ∨
    (p' = p ∧ a = 0) := by
  induction fuel generalizing f with
  | zero => cases h
  | succ fuel ih =>
    unfold pmmAllocContiguousLoop at h
    split at h
    case isFalse =>
      cases h
      exact .inr ⟨rfl, rfl⟩
    case isTrue hroom =>
      obtain ⟨k, hk, h⟩ := Option.bind_eq_some_iff.mp h
      obtain ⟨-, -, hclear⟩ := windowLoop_some hk
      split at h
      case isTrue hwhole =>
        cases h
        subst hwhole
        have hend : f + k - 1 < maxFrames := by
          have := (hclear (k - 1) (by omega) (by omega)).1
          omega
        rw [maxFrames_eq] at hend
        refine .inl ⟨f, rfl, rfl, fun i hge hlt => Pmm.mem_freeFrames.mpr ⟨⟨by omega, by omega⟩, ?_⟩⟩
        have hbit := (hclear (i - f) (by omega) (by omega)).2
        rwa [Nat.add_sub_cancel' hge] at hbit
      case isFalse =>
        exact ih (by omega) h

theorem pmmAllocContiguousLoop_returns {p : Pmm} (htop : p.sTopFrame ≤ maxFrames)
    {n fuel f : Nat} (hn : f + n < 2 ^ 64) (hfuel : maxFrames + 1 < fuel + f)
    (hpos : 0 < fuel) : ∃ r, pmmAllocContiguousLoop p n fuel f = some r := by
  induction fuel generalizing f with
  | zero => omega
  | succ fuel ih =>
    unfold pmmAllocContiguousLoop
    rw [Nat.mod_eq_of_lt hn]
    split
    case isFalse => exact ⟨_, rfl⟩
    case isTrue hroom =>
      obtain ⟨k, hk⟩ := windowLoop_returns (m := p.bitmap) (k := 0) (hroom.trans htop)
      obtain ⟨-, hkn, -⟩ := windowLoop_some hk
      rw [hk, Option.bind_some]
      split
      case isTrue => exact ⟨_, rfl⟩
      case isFalse =>
        rw [maxFrames_eq] at htop hfuel
        exact ih (by omega) (by rw [maxFrames_eq]; omega) (by omega)

theorem pmmAllocContiguous_spec {p p' : Pmm} {n a : Nat}
    (hrun : pmmAllocContiguous p n = some (p', a)) :
    (∃ g, a = g * frame ∧ 0 < n ∧ p' = p.take g n ∧
      ∀ i, g ≤ i → i < g + n → i ∈ p.freeFrames) ∨ (p' = p ∧ a = 0) := by
  unfold pmmAllocContiguous at hrun
  split at hrun
  case isTrue =>
    cases hrun
    exact .inr ⟨rfl, rfl⟩
  case isFalse hn =>
    have hpos : 0 < n := Nat.pos_of_ne_zero hn
    rcases pmmAllocContiguousLoop_spec hpos (Nat.le_refl _) hrun with ⟨g, ha, hp, hfree⟩ | hnull
    · exact .inl ⟨g, ha, hpos, hp, hfree⟩
    · exact .inr hnull

/-- No scan leaves the map as long as the first window bound does not wrap. -/
theorem pmmAllocContiguous_returns {p : Pmm} (h : p.Counted) {n : Nat}
    (hn : firstFrame + n < 2 ^ 64) : ∃ r, pmmAllocContiguous p n = some r := by
  unfold pmmAllocContiguous
  split
  case isTrue => exact ⟨_, rfl⟩
  case isFalse hne =>
    have hfuel : maxFrames + 1 < maxFrames + 2 + firstFrame := by omega
    exact pmmAllocContiguousLoop_returns h.top hn hfuel (Nat.succ_pos _)

/-! ## Release -/

/-- A frame the allocator handed out, or one past the map: what a caller may free. -/
def Pmm.Releasable (p : Pmm) (f : Nat) : Prop := p.Managed f ∨ maxFrames ≤ f

theorem pmmFreeFrame_sTopFrame (p : Pmm) (addr : Nat) :
    (pmmFreeFrame p addr).sTopFrame = p.sTopFrame := by
  unfold pmmFreeFrame
  simp only
  split <;> rfl

theorem pmmFreeFrame_test (p : Pmm) (addr f : Nat) :
    Bitmap.test (pmmFreeFrame p addr).bitmap f = true ↔
      Bitmap.test p.bitmap f = true ∧ ¬(f = addr / frame ∧ f < maxFrames) := by
  unfold pmmFreeFrame
  simp only
  split
  case isTrue hin =>
    simp only [Bitmap.test_clear, Bool.and_eq_true, bne_iff_ne, ne_eq]
    constructor
    · rintro ⟨hne, htest⟩
      exact ⟨htest, fun heq => hne heq.1⟩
    · rintro ⟨htest, hne⟩
      exact ⟨fun heq => hne ⟨heq, heq ▸ hin.1⟩, htest⟩
  case isFalse hout =>
    constructor
    · exact fun htest => ⟨htest, fun heq => hout ⟨heq.1 ▸ heq.2, heq.1 ▸ htest⟩⟩
    · exact And.left

theorem Pmm.Counted.freeFrame {p : Pmm} (h : p.Counted) {addr : Nat}
    (haddr : p.Releasable (addr / frame)) : (pmmFreeFrame p addr).Counted := by
  refine ⟨(pmmFreeFrame_sTopFrame p addr).trans_le h.top, ?_, fun g hg hout => ?_⟩
  · unfold pmmFreeFrame
    simp only
    split
    case isFalse => exact h.count
    case isTrue hin =>
      have hman : p.Managed (addr / frame) := haddr.resolve_right (by omega)
      have hsmall := p.card_freeFrames_le
      have htop := h.top
      change (p.sFree + 1) % 2 ^ 64 =
        (Bitmap.clears (Bitmap.clear p.bitmap (addr / frame)) firstFrame p.sTopFrame).card
      rw [Bitmap.card_clears_clear hman.1 hman.2 hin.2, h.count]
      unfold Pmm.freeFrames at hsmall ⊢
      rw [maxFrames_eq] at htop
      omega
  · unfold Pmm.Managed at hout
    rw [pmmFreeFrame_sTopFrame] at hout
    rw [pmmFreeFrame_test]
    refine ⟨h.outside g hg hout, ?_⟩
    rintro ⟨rfl, -⟩
    exact haddr.elim hout (by omega)

end MeuOS.Mm
