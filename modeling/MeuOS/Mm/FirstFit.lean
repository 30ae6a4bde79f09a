import MeuOS.Mm.Pmm

/-! `pmm_alloc_contiguous` as a first-fit search. Behind the used frame that ends a scan lies
every window that the scan has not ruled out, so the windows ahead of the search stay the same
ones until it finds the lowest. -/
namespace MeuOS.Mm

open MeuOS.Lib

variable {p : Pmm} {n f g k : Nat}

/-- The window of `n` free managed frames from `g` on, with at least one frame in it. -/
def Pmm.FreeWindow (p : Pmm) (n g : Nat) : Prop :=
  0 < n ∧ ∀ f, g ≤ f → f < g + n → f < maxFrames ∧ f ∈ p.freeFrames

/-- A call that is answered as by an exact first-fit search. -/
structure FirstFit (p : Pmm) (n : Nat) (r : Pmm × Nat) : Prop where
  none : r.2 = 0 ↔ ∀ g, ¬p.FreeWindow n g
  refused : r.2 = 0 → r.1 = p
  lowest : r.2 ≠ 0 → ∃ g, r.2 = g * frame ∧ p.FreeWindow n g ∧ (∀ g', g' < g → ¬p.FreeWindow n g') ∧
    (∀ f, Bitmap.test r.1.bitmap f = (decide (g ≤ f ∧ f < g + n) || Bitmap.test p.bitmap f)) ∧
    r.1.sFree = (p.sFree + 2 ^ 64 - n) % 2 ^ 64 ∧ r.1.sTopFrame = p.sTopFrame

/-- The loop ends at `f`, by its 64-bit bound. -/
def Pmm.StopsAt (p : Pmm) (n f : Nat) : Prop := p.sTopFrame < (f + n) % 2 ^ 64

/-- From `f` on there is a window, or the bound ends the search before the map does: at `f`, or
behind a used frame. -/
def Pmm.SearchEnds (p : Pmm) (n f : Nat) : Prop :=
  (∃ g, f ≤ g ∧ p.FreeWindow n g) ∨ p.StopsAt n f ∨
    ∃ u, f ≤ u ∧ u < maxFrames ∧ Bitmap.test p.bitmap u = true ∧ p.StopsAt n (u + 1)

/-! ## One scan -/

/-- What a scan of `left` frames from `f + k` on finds: a used frame, only free ones, or the end
of the map. -/
theorem windowLoop_cases (m : Mem) (f k left : Nat) :
    (∃ j, windowLoop m f k left = some j ∧ k ≤ j ∧ j ≤ k + left ∧
      (∀ i, k ≤ i → i < j → f + i < maxFrames ∧ Bitmap.test m (f + i) = false) ∧
      (j < k + left → f + j < maxFrames ∧ Bitmap.test m (f + j) = true)) ∨
    (windowLoop m f k left = none ∧ maxFrames < f + k + left ∧
      ∀ i, k ≤ i → f + i < maxFrames → Bitmap.test m (f + i) = false) := by
  induction left generalizing k with
  | zero => exact .inl ⟨k, rfl, le_rfl, le_rfl, fun i hk hi => by omega, fun h => absurd h (lt_irrefl _)⟩
  | succ left ih =>
    by_cases hin : f + k < maxFrames
    · have hused : isUsed m (f + k) = some (Bitmap.test m (f + k)) := if_pos hin
      unfold windowLoop
      rw [hused, Option.bind_some]
      cases htest : Bitmap.test m (f + k) with
      | true =>
        refine .inl ⟨k, if_pos rfl, le_rfl, by omega, fun i hk hi => by omega, fun _ => ⟨hin, htest⟩⟩
      | false =>
        rw [if_neg Bool.false_ne_true]
        have hnext : ∀ i, k ≤ i → i = k ∨ k + 1 ≤ i := fun i hi => by omega
        rcases ih (k := k + 1) with ⟨j, hrun, hlo, hhi, hclear, hstop⟩ | ⟨hrun, hend, hclear⟩
        · refine .inl ⟨j, hrun, by omega, by omega, fun i hk hi => ?_, fun h => hstop (by omega)⟩
          rcases hnext i hk with rfl | hlt
          · exact ⟨hin, htest⟩
          · exact hclear i hlt hi
        · refine .inr ⟨hrun, by omega, fun i hk hi => ?_⟩
          rcases hnext i hk with rfl | hlt
          · exact htest
          · exact hclear i hlt hi
    · have hused : isUsed m (f + k) = none := if_neg hin
      refine .inr ⟨?_, by omega, fun i hk hi => by omega⟩
      unfold windowLoop
      rw [hused, Option.bind_none]

/-! ## Windows ahead of the search -/

theorem Pmm.FreeWindow.bounds (h : p.FreeWindow n g) : g + n ≤ maxFrames ∧ g + n ≤ p.sTopFrame := by
  obtain ⟨hpos, hall⟩ := h
  obtain ⟨hmax, hfree⟩ := hall (g + n - 1) (by omega) (by omega)
  have hlt := (Pmm.mem_freeFrames.1 hfree).1.2
  omega

theorem Pmm.FreeWindow.first_le (h : p.FreeWindow n g) : firstFrame ≤ g :=
  (Pmm.mem_freeFrames.1 (h.2 g le_rfl (Nat.lt_add_of_pos_right h.1)).2).1.1

/-- Where the bound ends the search no window is left. -/
theorem Pmm.StopsAt.no_window (h : p.StopsAt n f) (hle : f ≤ g) : ¬p.FreeWindow n g := by
  intro hwin
  obtain ⟨hmax, htop⟩ := hwin.bounds
  rw [maxFrames_eq] at hmax
  unfold Pmm.StopsAt at h
  omega

/-- A window that starts at or behind the scan lies behind the used frame that ended it. -/
theorem Pmm.FreeWindow.behind (h : p.FreeWindow n g) (hle : f ≤ g) (hk : k < n)
    (hused : Bitmap.test p.bitmap (f + k) = true) : f + k + 1 ≤ g := by
  by_contra hbefore
  have hfree := (h.2 (f + k) (by omega) (by omega)).2
  rw [(Pmm.mem_freeFrames.1 hfree).2] at hused
  cases hused

/-- A scan that ends at a used frame takes nothing away from what decides the search. -/
theorem Pmm.searchEnds_skip (hk : k < n) (hmax : f + k < maxFrames) (hgo : ¬p.StopsAt n f)
    (hclear : ∀ i, i < k → Bitmap.test p.bitmap (f + i) = false)
    (hused : Bitmap.test p.bitmap (f + k) = true) :
    p.SearchEnds n f ↔ p.SearchEnds n (f + k + 1) := by
  constructor
  · rintro (⟨g, hle, hwin⟩ | hstop | ⟨u, hle, hlt, hu, hstop⟩)
    · exact .inl ⟨g, hwin.behind hle hk hused, hwin⟩
    · exact absurd hstop hgo
    · by_cases hbehind : f + k + 1 ≤ u
      · exact .inr (.inr ⟨u, hbehind, hlt, hu, hstop⟩)
      · obtain rfl : u = f + k := by
          by_contra hne
          have hfree := hclear (u - f) (by omega)
          rw [Nat.add_sub_cancel' hle, hu] at hfree
          cases hfree
        exact .inr (.inl hstop)
  · rintro (⟨g, hle, hwin⟩ | hstop | ⟨u, hle, hlt, hu, hstop⟩)
    · exact .inl ⟨g, by omega, hwin⟩
    · exact .inr (.inr ⟨f + k, by omega, hmax, hused, hstop⟩)
    · exact .inr (.inr ⟨u, by omega, hlt, hu, hstop⟩)

/-! ## The search -/

/-- The answer of a search from `f` on. -/
def SearchResult (p : Pmm) (n f : Nat) (r : Pmm × Nat) : Prop :=
  (∃ g, f ≤ g ∧ p.FreeWindow n g ∧ (∀ g', f ≤ g' → g' < g → ¬p.FreeWindow n g') ∧
    r = (p.take g n, g * frame)) ∨
  ((∀ g, f ≤ g → ¬p.FreeWindow n g) ∧ r = (p, 0))

theorem pmmAllocContiguousLoop_result (hn : 0 < n) {fuel : Nat} (hf : firstFrame ≤ f)
    (hle : f ≤ maxFrames) (hfuel : maxFrames < fuel + f) :
    (p.SearchEnds n f ∧ ∃ r, pmmAllocContiguousLoop p n fuel f = some r ∧ SearchResult p n f r) ∨
    (¬p.SearchEnds n f ∧ pmmAllocContiguousLoop p n fuel f = none) := by
  induction fuel generalizing f with
  | zero => omega
  | succ fuel ih =>
    unfold pmmAllocContiguousLoop
    by_cases hstop : p.StopsAt n f
    · rw [if_neg (Nat.not_le.2 hstop)]
      exact .inl ⟨.inr (.inl hstop), _, rfl, .inr ⟨fun g hg => hstop.no_window hg, rfl⟩⟩
    rw [if_pos (Nat.le_of_not_lt hstop)]
    rcases windowLoop_cases p.bitmap f 0 n with ⟨k, hrun, -, hkn, hclear, hend⟩ | ⟨hrun, hend, hclear⟩
    · rw [hrun, Option.bind_some]
      by_cases hk : k = n
      · rw [if_pos hk]
        subst hk
        have hlast := (hclear (k - 1) (Nat.zero_le _) (by omega)).1
        have hroom : f + k ≤ p.sTopFrame := by
          rw [maxFrames_eq] at hlast
          unfold Pmm.StopsAt at hstop
          omega
        have hwin : p.FreeWindow k f := by
          refine ⟨hn, fun i hge hlt => ?_⟩
          have hbit := hclear (i - f) (Nat.zero_le _) (by omega)
          rw [Nat.add_sub_cancel' hge] at hbit
          exact ⟨hbit.1, Pmm.mem_freeFrames.2 ⟨⟨by omega, by omega⟩, hbit.2⟩⟩
        exact .inl ⟨.inl ⟨f, le_rfl, hwin⟩, _, rfl,
          .inl ⟨f, le_rfl, hwin, fun g' hge hlt => absurd hge (Nat.not_le.2 hlt), rfl⟩⟩
      · rw [if_neg hk]
        have hlt : k < n := by omega
        obtain ⟨hmax, hused⟩ := hend (by omega)
        rw [Pmm.searchEnds_skip hlt hmax hstop (fun i hi => (hclear i (Nat.zero_le _) hi).2) hused]
        have hahead : ∀ g, f ≤ g → p.FreeWindow n g → f + k + 1 ≤ g :=
          fun g hge hwin => hwin.behind hge hlt hused
        refine (ih (by omega) (by omega) (by omega)).imp_left ?_
        rintro ⟨hends, r, hr, hres⟩
        refine ⟨hends, r, hr, ?_⟩
        rcases hres with ⟨g, hge, hwin, hleast, rfl⟩ | ⟨hnone, rfl⟩
        · exact .inl ⟨g, by omega, hwin,
            fun g' hge' hlt' hwin' => hleast g' (hahead g' hge' hwin') hlt' hwin', rfl⟩
        · exact .inr ⟨fun g hge hwin => hnone g (hahead g hge hwin) hwin, rfl⟩
    · -- The scan has walked off the map: every frame from `f` on is free.
      rw [hrun, Option.bind_none]
      refine .inr ⟨?_, rfl⟩
      rintro (⟨g, hge, hwin⟩ | hstop' | ⟨u, hge, hlt, hu, -⟩)
      · have hbound := hwin.bounds.1
        omega
      · exact hstop hstop'
      · have hfree := hclear (u - f) (Nat.zero_le _) (by omega)
        rw [Nat.add_sub_cancel' hge, hu] at hfree
        cases hfree

theorem SearchResult.firstFit {r : Pmm × Nat} (h : SearchResult p n firstFrame r) : FirstFit p n r := by
  have hfirst : 0 < firstFrame := by decide
  rcases h with ⟨g, hge, hwin, hleast, rfl⟩ | ⟨hnone, rfl⟩
  · have hne : g * frame ≠ 0 := Nat.mul_ne_zero (by omega) (by decide)
    refine ⟨⟨fun h => absurd h hne, fun h => absurd hwin (h g)⟩, fun h => absurd h hne, fun _ => ?_⟩
    refine ⟨g, rfl, hwin, fun g' hlt hwin' => hleast g' hwin'.first_le hlt hwin', fun f => ?_, rfl, rfl⟩
    exact Bitmap.test_setRange p.bitmap g n f
  · exact ⟨⟨fun _ g hwin => hnone g hwin.first_le hwin, fun _ => rfl⟩, fun _ => rfl,
      fun h => absurd rfl h⟩

theorem pmmAllocContiguous_result (p : Pmm) (hn : 0 < n) :
    (p.SearchEnds n firstFrame ∧ ∃ r, pmmAllocContiguous p n = some r ∧ FirstFit p n r) ∨
    (¬p.SearchEnds n firstFrame ∧ pmmAllocContiguous p n = none) := by
  have hle : firstFrame ≤ maxFrames := by decide
  unfold pmmAllocContiguous
  rw [if_neg hn.ne']
  refine (pmmAllocContiguousLoop_result hn le_rfl hle (by omega)).imp_left ?_
  rintro ⟨hends, r, hr, hres⟩
  exact ⟨hends, r, hr, hres.firstFit⟩

/-- The search is an exact first fit unless its bound wraps on and on and the scan leaves the
bit map. -/
theorem pmmAllocContiguous_first_fit_iff (p : Pmm) (n : Nat) :
    (∃ r, pmmAllocContiguous p n = some r ∧ FirstFit p n r) ↔ n = 0 ∨ p.SearchEnds n firstFrame := by
  rcases Nat.eq_zero_or_pos n with rfl | hn
  · refine iff_of_true ⟨_, rfl, ⟨?_, fun _ => rfl, fun h => absurd rfl h⟩⟩ (.inl rfl)
    exact ⟨fun _ g hwin => absurd hwin.1 (lt_irrefl 0), fun _ => rfl⟩
  · rcases pmmAllocContiguous_result p hn with ⟨hends, hr⟩ | ⟨hends, hr⟩
    · exact iff_of_true hr (.inr hends)
    · refine iff_of_false ?_ fun h => h.elim hn.ne' hends
      rintro ⟨r, hrun, -⟩
      rw [hr] at hrun
      cases hrun

/-- With 1 GiB of memory the search for 2 ^ 64 - 1 pages reads past the end of the bit map. -/
theorem pmmAllocContiguous_off_map : ¬∀ (m : Mem) (memTop : Nat) (p : Pmm),
    pmmInit m memTop = some p → ∀ n, n < 2 ^ 64 →
      ∃ r, pmmAllocContiguous p n = some r ∧ FirstFit p n r := by
  intro hall
  obtain ⟨p, hp, -, htop⟩ := pmmInit_counted (fun _ => 0) 0x40000000
  have htop' : p.sTopFrame = maxFrames := htop
  have hfirst : firstFrame = 16384 := by decide
  rcases pmmAllocContiguous_result p (show 0 < 2 ^ 64 - 1 by decide) with ⟨hends, -⟩ | ⟨-, hr⟩
  · rcases hends with ⟨g, -, hwin⟩ | hstop | ⟨u, -, hlt, -, hstop⟩
    · have hbound := hwin.bounds.1
      rw [maxFrames_eq] at hbound
      omega
    · unfold Pmm.StopsAt at hstop
      rw [htop', maxFrames_eq, hfirst] at hstop
      omega
    · unfold Pmm.StopsAt at hstop
      rw [htop', maxFrames_eq] at hstop
      rw [maxFrames_eq] at hlt
      omega
  · obtain ⟨r, hrun, -⟩ := hall _ _ p hp (2 ^ 64 - 1) (by decide)
    rw [hr] at hrun
    cases hrun

end MeuOS.Mm
