import MeuOS.Mm.Mmio
import MeuOS.Mm.ZeroPage

/-! What a mapping call that reports failure leaves behind: the pages it had come past, the frame
and the arena range its caller had taken before it. -/
namespace MeuOS.Mm

open MeuOS.Lib

/-- Every address translates as before. -/
def NoTrace (s s' : Paging) : Prop := ∀ va, walk s' va = walk s va

/-- Every frame that was taken is a table. -/
def NoLeak (s s' : Paging) : Prop :=
  ∀ f ∈ s.pmm.freeFrames, f ∉ s'.pmm.freeFrames → ∃ c, c.length < 4 ∧ s'.reach c = some f

variable {s s' : Paging} {lo mid : Nat}

theorem SameSurveys.noTrace (h : SameSurveys s s') : NoTrace s s' := fun va => h.entries.walk va

theorem Paging.Grown.noLeak (h : s.Grown s') : NoLeak s s' :=
  fun f hf hout => (h.taken f hf).resolve_left hout

/-! ## Pages and paths -/

/-- Every page number stands for a canonical page on the same path. -/
theorem exists_canonical (m : Nat) : ∃ w, Canonical w ∧ path w = path (m * frame) := by
  by_cases hlow : m % 2 ^ 36 < 2 ^ 35
  · refine ⟨m % 2 ^ 36 * frame, ?_, ?_⟩
    · rw [canonical_iff, page_div]
      omega
    · rw [path_eq_iff, page_div, page_div]
      omega
  · refine ⟨(m % 2 ^ 36 + (2 ^ 52 - 2 ^ 36)) * frame, ?_, ?_⟩
    · rw [canonical_iff, page_div]
      omega
    · rw [path_eq_iff, page_div, page_div]
      omega

theorem entry_congr_path {va w : Nat} (h : path va = path w) : s.entry va = s.entry w := by
  unfold Paging.entry
  rw [h]

/-- The translation of a 4 KiB page says which entry it comes from. -/
theorem entry_of_translation {va left : Nat} {e x : BitVec 64}
    (h : translation va x left = translation va e 0) : left = 0 ∧ x = e := by
  unfold translation at h
  simp only [Translation.mk.injEq] at h
  obtain ⟨hpage, hflags, rfl⟩ := h
  refine ⟨rfl, ?_⟩
  have haddr : x.toNat / 2 ^ 12 % 2 ^ 40 = e.toNat / 2 ^ 12 % 2 ^ 40 := by
    rw [← ptAddr_eq, ← ptAddr_eq]
    simpa [Nat.mod_one] using hpage
  apply BitVec.eq_of_getLsbD_eq
  intro i hi
  by_cases hin : 12 ≤ i ∧ i < 52
  · have hbit := congrArg (Nat.testBit · (i - 12)) haddr
    simp only [Nat.testBit_mod_two_pow, Nat.testBit_div_two_pow] at hbit
    rw [show i - 12 + 12 = i by omega, decide_eq_true (show i - 12 < 40 by omega), Bool.true_and,
      Bool.true_and] at hbit
    exact hbit
  · have hmask : (~~~ptMask).getLsbD i = true := by
      rw [BitVec.getLsbD_not, decide_eq_true hi, Bool.true_and]
      change (!ptMask.toNat.testBit i) = true
      rw [testBit_ptMask]
      simp only [Bool.not_eq_true', Bool.and_eq_false_iff, decide_eq_false_iff_not]
      omega
    have hbit := congrArg (BitVec.getLsbD · i) hflags
    simp only [BitVec.getLsbD_and, hmask, Bool.and_true] at hbit
    exact hbit

/-- Where every address translates as before, a 4 KiB page has the entry it had. -/
theorem NoTrace.entry_page (h : NoTrace s s') {m : Nat} {e : BitVec 64}
    (he : s'.entry (m * frame) = some (e, 0)) : s.entry (m * frame) = some (e, 0) := by
  obtain ⟨w, hcan, hpath⟩ := exists_canonical m
  rw [← entry_congr_path hpath] at he ⊢
  have hwalk := h w
  rw [walk_of_entry hcan he] at hwalk
  unfold walk at hwalk
  rw [if_pos hcan] at hwalk
  obtain ⟨⟨x, left⟩, hx, htranslation⟩ := Option.map_eq_some_iff.1 hwalk.symm
  obtain ⟨rfl, rfl⟩ := entry_of_translation htranslation
  exact hx

theorem NoTrace.entry_none (h : NoTrace s s') {m : Nat} (he : s'.entry (m * frame) = none) :
    s.entry (m * frame) = none := by
  obtain ⟨w, hcan, hpath⟩ := exists_canonical m
  rw [← entry_congr_path hpath] at he ⊢
  have hwalk := h w
  unfold walk at hwalk
  rw [if_pos hcan, if_pos hcan, he] at hwalk
  exact Option.map_eq_none_iff.1 hwalk.symm

theorem Paging.Opened.congr {va w : Nat} (h : s.Opened va) (hpath : path va = path w) : s.Opened w := by
  simp only [path, List.cons.injEq, and_true] at hpath
  obtain ⟨hidx, hidx', hidx'', -⟩ := hpath
  unfold Paging.Opened at h ⊢
  rwa [hidx, hidx', hidx''] at h

/-! ## Runs of mapped pages -/

section MapRun

variable {pte : Nat → BitVec 64}
  (h : PageRun (fun m s s' => s.Mapped s' (m * frame) (pte m)) lo s mid s')
include h

theorem PageRun.mapped_grown (hs : s.Sound) : s.Grown s' := by
  induction h with
  | done => exact .refl hs
  | page hstep _ ih => exact hstep.grown.trans (ih hstep.grown.sound)

/-- The tables of every page that has been passed are there. -/
theorem PageRun.mapped_opened {k : Nat} (hlo : lo ≤ k) (hhi : k < mid) : s'.Opened (k * frame) := by
  induction h with
  | done => omega
  | @page lo mid s s₁ s' hstep hrest ih =>
    rcases Nat.eq_or_lt_of_le hlo with rfl | hlt
    · exact hstep.opened.grown (hrest.mapped_grown hstep.grown.sound)
    · exact ih hlt hhi

/-- Pages on other paths keep their entries. -/
theorem PageRun.mapped_others {w : Nat} (hw : ∀ k, lo ≤ k → k < mid → path w ≠ path (k * frame)) :
    s'.entry w = s.entry w := by
  induction h with
  | done => rfl
  | @page lo mid s s₁ s' hstep hrest ih =>
    have hle := hrest.le
    rw [ih fun k hlo hhi => hw k (by omega) hhi, hstep.entry_others (hw lo le_rfl (by omega))]

/-- A run that does not come round to a path again leaves the entry it stored for each page. -/
theorem PageRun.mapped_entries (hpte : ∀ m, present (pte m) = true) (hround : mid ≤ lo + 2 ^ 36)
    {k : Nat} (hlo : lo ≤ k) (hhi : k < mid) : s'.entry (k * frame) = some (pte k, 0) := by
  induction h with
  | done => omega
  | @page lo mid s s₁ s' hstep hrest ih =>
    rcases Nat.eq_or_lt_of_le hlo with rfl | hlt
    · rw [hrest.mapped_others fun j hjlo hjhi hpath => ?_, hstep.entry_self, if_pos (hpte _)]
      rw [path_eq_iff, page_div, page_div] at hpath
      omega
    · exact ih (by omega) hlt hhi

/-- Where every page is mapped as asked already, nothing is changed. -/
theorem PageRun.mapped_same {m : Nat} (hle : lo ≤ m)
    (hold : ∀ k, lo ≤ k → k < m → s.entry (k * frame) = some (pte k, 0))
    (hstop : mid ≤ m ∨ s.Refuses (m * frame)) : s' = s ∧ mid ≤ m := by
  induction h with
  | done => exact ⟨rfl, hle⟩
  | @page lo mid s s₁ s' hstep hrest ih =>
    have hmid := hrest.le
    rcases Nat.eq_or_lt_of_le hle with rfl | hlt
    · rcases hstop with hstop | hrefuses
      · omega
      · exact absurd hrefuses hstep.allowed
    · obtain rfl := hstep.same (hold lo le_rfl hlt)
      exact ih hlt (fun k hlo => hold k (by omega)) hstop

end MapRun

theorem rangePte_present (virt phys : Nat) (flags : BitVec 64) (m : Nat) :
    present (rangePte virt phys flags m) = true := by
  have hbit : pgPresent.getLsbD 0 = true := rfl
  unfold rangePte
  rw [present_eq, BitVec.getLsbD_or, BitVec.getLsbD_or, BitVec.getLsbD_or, BitVec.getLsbD_or, hbit,
    Bool.or_true, Bool.true_or, Bool.true_or, Bool.or_true]

/-- Every page before the first that is refused is mapped as asked already. -/
def MapsNothing (s : Paging) (virt phys size : Nat) (flags : BitVec 64) : Prop :=
  ∃ m, virt / frame ≤ m ∧ m < rangeEnd virt size / frame ∧ s.Refuses (m * frame) ∧
    ∀ k, virt / frame ≤ k → k < m → s.entry (k * frame) = some (rangePte virt phys flags k, 0)

theorem mapPhysRange_traceless_iff {virt phys size : Nat} {flags : BitVec 64} (hs : s.Sound)
    (hgib : ∀ va, s.NoGib va) (hrun : mmMapPhysRange s virt phys size flags = some (0, s')) :
    NoTrace s s' ↔ size = 0 ∨ MapsNothing s virt phys size flags := by
  by_cases hsize : size = 0
  · have hsame : some (0, s) = some (0, s') := (if_pos hsize).symm.trans hrun
    obtain rfl := (Prod.mk.inj (Option.some.inj hsame)).2
    exact iff_of_true (fun _ => rfl) (.inl hsize)
  obtain ⟨r, s₂, mid, s₁, hrun', hpages, hend⟩ :=
    mmMapPhysRange_run hs hsize phys flags fun m _ _ => hgib _
  obtain ⟨rfl, rfl⟩ := Prod.mk.inj (Option.some.inj (hrun'.symm.trans hrun))
  rcases hend with ⟨hr, -⟩ | ⟨-, hmid, hrefuses, hgrown, hsame⟩
  · cases hr
  have hle := hpages.le
  unfold MapsNothing
  generalize virt / frame = lo at *
  constructor
  · intro htrace
    have hround : mid ≤ lo + 2 ^ 36 := by
      by_contra hfar
      obtain ⟨k, rfl⟩ : ∃ k, mid = k + 2 ^ 36 := ⟨mid - 2 ^ 36, by omega⟩
      have hpath : path (k * frame) = path ((k + 2 ^ 36) * frame) := by
        rw [path_eq_iff, page_div, page_div]
        omega
      exact ((hpages.mapped_opened (by omega) (by omega)).congr hpath).not_refuses hrefuses
    have hold : ∀ k, lo ≤ k → k < mid →
        s.entry (k * frame) = some (rangePte virt phys flags k, 0) := by
      intro k hlo hhi
      refine htrace.entry_page ?_
      rw [hsame.entries]
      exact hpages.mapped_entries (rangePte_present virt phys flags) hround hlo hhi
    obtain ⟨rfl, -⟩ := hpages.mapped_same hle hold (.inl le_rfl)
    exact .inr ⟨mid, hle, hmid, hrefuses, hold⟩
  · intro hcond
    obtain ⟨m, hlo, -, hrefuses', hold⟩ := hcond.resolve_left hsize
    obtain ⟨rfl, -⟩ := hpages.mapped_same hlo hold (.inr hrefuses')
    exact hsame.noTrace

/-! ## Runs of unmapped pages -/

section UnmapRun

variable (h : PageRun (fun m s s' => s.Unmapped s' (m * frame)) lo s mid s')
include h

theorem PageRun.unmapped_meetsPs (w : Nat) : s'.MeetsPs w ↔ s.MeetsPs w := by
  induction h with
  | done => exact Iff.rfl
  | page hstep _ ih => exact ih.trans (hstep.meetsPs w)

theorem PageRun.unmapped_allowed {k : Nat} (hlo : lo ≤ k) (hhi : k < mid) : ¬s.MeetsPs (k * frame) := by
  induction h with
  | done => omega
  | @page lo mid s s₁ s' hstep hrest ih =>
    rcases Nat.eq_or_lt_of_le hlo with rfl | hlt
    · exact hstep.allowed
    · rw [← hstep.meetsPs]
      exact ih hlt hhi

/-- What has no entry gets none. -/
theorem PageRun.unmapped_none {w : Nat} (hw : s.entry w = none) : s'.entry w = none := by
  induction h with
  | done => exact hw
  | @page lo mid s s₁ s' hstep hrest ih =>
    refine ih ?_
    by_cases hpath : path w = path (lo * frame)
    · rw [entry_congr_path hpath, hstep.entry_self]
      rfl
    · rw [hstep.entry_others hpath, hw]

theorem PageRun.unmapped_entries {k : Nat} (hlo : lo ≤ k) (hhi : k < mid) :
    s'.entry (k * frame) = none := by
  induction h with
  | done => omega
  | @page lo mid s s₁ s' hstep hrest ih =>
    rcases Nat.eq_or_lt_of_le hlo with rfl | hlt
    · refine hrest.unmapped_none ?_
      rw [hstep.entry_self]
      rfl
    · exact ih hlt hhi

/-- Where no page is mapped, no path ends elsewhere. -/
theorem PageRun.unmapped_same (hold : ∀ k, lo ≤ k → k < mid → s.entry (k * frame) = none) :
    SameEntries s s' := by
  induction h with
  | done => exact fun _ => rfl
  | @page lo mid s s₁ s' hstep hrest ih =>
    have hle := hrest.le
    have hfirst : SameEntries s s₁ := by
      intro w
      by_cases hpath : path w = path (lo * frame)
      · rw [entry_congr_path hpath, entry_congr_path hpath, hstep.entry_self, hold lo le_rfl (by omega)]
        rfl
      · exact hstep.entry_others hpath
    refine hfirst.trans (ih fun k hlo hhi => ?_)
    rw [hfirst, hold k (by omega) hhi]

end UnmapRun

/-- Every page before the first in a large page has no entry. -/
def UnmapsNothing (s : Paging) (virt size : Nat) : Prop :=
  ∃ m, virt / frame ≤ m ∧ m < rangeEnd virt size / frame ∧ s.MeetsPs (m * frame) ∧
    ∀ k, virt / frame ≤ k → k < m → s.entry (k * frame) = none

theorem unmapRange_traceless_iff {virt size : Nat} (hs : s.Sound) (hgib : ∀ va, s.NoGib va)
    (hrun : mmUnmapRange s virt size = some (0, s')) :
    NoTrace s s' ↔ size = 0 ∨ UnmapsNothing s virt size := by
  by_cases hsize : size = 0
  · have hsame : some (0, s) = some (0, s') := (if_pos hsize).symm.trans hrun
    obtain rfl := (Prod.mk.inj (Option.some.inj hsame)).2
    exact iff_of_true (fun _ => rfl) (.inl hsize)
  obtain ⟨r, s₂, mid, hrun', hpages, hend⟩ := mmUnmapRange_run hs hsize fun m _ _ => hgib _
  obtain ⟨rfl, rfl⟩ := Prod.mk.inj (Option.some.inj (hrun'.symm.trans hrun))
  rcases hend with ⟨hr, -⟩ | ⟨-, hmid, hps⟩
  · cases hr
  have hle := hpages.le
  rw [hpages.unmapped_meetsPs] at hps
  unfold UnmapsNothing
  generalize virt / frame = lo at *
  constructor
  · exact fun htrace => .inr ⟨mid, hle, hmid, hps,
      fun k hlo hhi => htrace.entry_none (hpages.unmapped_entries hlo hhi)⟩
  · intro hcond
    obtain ⟨m, hlo, -, hps', hold⟩ := hcond.resolve_left hsize
    have hbefore : mid ≤ m := by
      by_contra hafter
      exact hpages.unmapped_allowed hlo (by omega) hps'
    exact (hpages.unmapped_same fun k hklo hkhi => hold k hklo (by omega)).walk

/-! ## The callers -/

/-- The frame that was taken for a page stays taken. -/
theorem mapZeroPage_traceless_iff {va : Nat} (hs : s.Sound) (hgib : s.NoGib va) (hu64 : va < 2 ^ 64)
    (hrun : mmMapZeroPage s va = some (0, s')) :
    NoTrace s s' ∧ NoLeak s s' ↔ va = 0 ∨ s.pmm.freeFrames = ∅ := by
  by_cases hva : va = 0
  · have hsame : some (0, s) = some (0, s') := (if_pos hva).symm.trans hrun
    obtain rfl := (Prod.mk.inj (Option.some.inj hsame)).2
    exact iff_of_true ⟨fun _ => rfl, (Paging.Grown.refl hs).noLeak⟩ (.inl hva)
  rcases mmMapZeroPage_cases hgib hva with ⟨_, _, -, -, -, hopen⟩ |
    ⟨-, ⟨e, -, hclear⟩ | ⟨-, hnew⟩⟩
  · rw [hopen] at hrun
    cases hrun
  · rw [hclear] at hrun
    cases hrun
  rw [hnew] at hrun
  rcases mapNewFrame_spec hs hgib hu64 with ⟨hnone, hfail⟩ | ⟨g, hfree, r, s₂, hdone, hout⟩
  · obtain rfl := (Prod.mk.inj (Option.some.inj (hfail.symm.trans hrun))).2
    exact iff_of_true ⟨fun _ => rfl, (Paging.Grown.refl hs).noLeak⟩ (.inr hnone)
  · obtain ⟨rfl, rfl⟩ := Prod.mk.inj (Option.some.inj (hdone.symm.trans hrun))
    rcases hout with ⟨-, hgrown, -⟩ | ⟨hr, -⟩ | ⟨hr, -⟩
    · refine iff_of_false (fun h => ?_) fun h => ?_
      · have htaken : g ∉ (s.newFrame g).pmm.freeFrames := fun hin => (Pmm.take_freeFrames hin).2 rfl
        obtain ⟨c, hc, hreach⟩ := h.2 g hfree fun hin => htaken (hgrown.free hin)
        rcases hgrown.fresh c g hc hreach with hold | hnew
        · rw [reach_newFrame hs hfree hc] at hold
          exact hs.used c g hc hold hfree
        · exact htaken hnew
      · rcases h with hzero | hempty
        · exact hva hzero
        · rw [hempty] at hfree
          exact Finset.notMem_empty g hfree
    · cases hr
    · cases hr

/-- A range that has been reserved stays reserved. -/
theorem halMapMmio_traceless_iff {m m' : Mmio} {phys size : Nat} (hs : m.paging.Sound)
    (hnext : m.sMmioNext < 2 ^ 64) (hrun : halMapMmio m phys size = some (0, m')) :
    NoTrace m.paging m'.paging ∧ NoLeak m.paging m'.paging ∧ m'.sMmioNext = m.sMmioNext ↔
      size = 0 ∨ (phys + size) % 2 ^ 64 ≤ halIdentityLimit ∨ m.Full (mmioSpan phys size) := by
  have hsame : ∀ {X : Mmio}, X = m → (NoTrace m.paging X.paging ∧ NoLeak m.paging X.paging ∧
      X.sMmioNext = m.sMmioNext) := by
    rintro X rfl
    exact ⟨fun _ => rfl, (Paging.Grown.refl hs).noLeak, rfl⟩
  unfold halMapMmio at hrun
  by_cases hsize : size = 0
  · rw [if_pos hsize] at hrun
    exact iff_of_true (hsame (Prod.mk.inj (Option.some.inj hrun)).2.symm) (.inl hsize)
  rw [if_neg hsize] at hrun
  by_cases hlow : (phys + size) % 2 ^ 64 ≤ halIdentityLimit
  · rw [if_pos hlow] at hrun
    exact iff_of_true (hsame (Prod.mk.inj (Option.some.inj hrun)).2.symm) (.inr (.inl hlow))
  rw [if_neg hlow] at hrun
  obtain ⟨va, s₁, hreserve, hgrown, hsurveys, hout⟩ := mmMmioReserve_spec hs (mmioSpan phys size)
  dsimp only at hrun
  rw [hreserve, Option.bind_some] at hrun
  dsimp only at hrun
  rcases hout with ⟨hfull, rfl, hcursor⟩ | ⟨hfull, rfl, hcursor⟩
  · rw [if_pos rfl] at hrun
    obtain rfl := (Prod.mk.inj (Option.some.inj hrun)).2
    exact iff_of_true ⟨hsurveys.noTrace, hgrown.noLeak, hcursor⟩ (.inr (.inr hfull))
  · have hcursor' : m'.sMmioNext = s₁.sMmioNext := by
      split at hrun
      · rw [← (Prod.mk.inj (Option.some.inj hrun)).2]
      · obtain ⟨⟨r, paging⟩, -, hdone⟩ := Option.bind_eq_some_iff.1 hrun
        dsimp only at hdone
        split at hdone
        · rw [← (Prod.mk.inj (Option.some.inj hdone)).2]
        · rw [← (Prod.mk.inj (Option.some.inj hdone)).2]
    refine iff_of_false (fun h => ?_) fun h => ?_
    · have hstill := h.2.2
      rw [hcursor', hcursor, mmioBytes_span] at hstill
      have hspan : mmioSpan phys size ≠ 0 := fun hzero => hfull (.inl hzero)
      have hsmall : mmioSpan phys size < 2 ^ 64 := by
        unfold mmioSpan frame
        omega
      omega
    · rcases h with hzero | hin | hfull'
      · exact hsize hzero
      · exact hlow hin
      · exact hfull hfull'

/-- When a mapping call that fails leaves no trace. -/
theorem failed_maps_traceless (s : Paging) (hs : s.Sound) (hgib : ∀ va, s.NoGib va) :
    (∀ virt phys size flags s', mmMapPhysRange s virt phys size flags = some (0, s') →
      (NoTrace s s' ↔ size = 0 ∨ MapsNothing s virt phys size flags)) ∧
    (∀ virt size s', mmUnmapRange s virt size = some (0, s') →
      (NoTrace s s' ↔ size = 0 ∨ UnmapsNothing s virt size)) ∧
    (∀ va s', va < 2 ^ 64 → mmMapZeroPage s va = some (0, s') →
      (NoTrace s s' ∧ NoLeak s s' ↔ va = 0 ∨ s.pmm.freeFrames = ∅)) ∧
    (∀ next inited phys size m', next < 2 ^ 64 → halMapMmio ⟨s, next, inited⟩ phys size = some (0, m') →
      (NoTrace s m'.paging ∧ NoLeak s m'.paging ∧ m'.sMmioNext = next ↔
        size = 0 ∨ (phys + size) % 2 ^ 64 ≤ halIdentityLimit ∨
          Mmio.Full ⟨s, next, inited⟩ (mmioSpan phys size))) :=
  ⟨fun _ _ _ _ _ hrun => mapPhysRange_traceless_iff hs hgib hrun,
    fun _ _ _ hrun => unmapRange_traceless_iff hs hgib hrun,
    fun va _ hu64 hrun => mapZeroPage_traceless_iff hs (hgib va) hu64 hrun,
    fun next inited _ _ _ hnext hrun => halMapMmio_traceless_iff (m := ⟨s, next, inited⟩) hs hnext hrun⟩

/-! ## Two frames left -/

/-- The tables the kernel starts with, and two free frames. -/
def twoFrames : Paging := { identityPaging 1 3 with pmm := ⟨fun _ => 0, 2, firstFrame + 2⟩ }

theorem twoFrames_sound : twoFrames.Sound := identity_sound (by decide)

theorem twoFrames_noGib (va : Nat) : twoFrames.NoGib va := identity_noGib va

theorem failed_maps_traceless_large : mmUnmapRange twoFrames 0x1000 0x1000 = some (0, twoFrames) ∧
    (NoTrace twoFrames twoFrames ↔ 0x1000 = 0 ∨ UnmapsNothing twoFrames 0x1000 0x1000) :=
  ⟨rfl, (failed_maps_traceless twoFrames twoFrames_sound twoFrames_noGib).2.1 0x1000 0x1000 twoFrames rfl⟩

theorem twoFrames_map : (mmMapPhysRange twoFrames 0x401FF000 0xFD000000 0x2000 pgRw).map
    (fun r => (r.1, walk r.2 0x401FF000)) = some (0, some ⟨0xFD000, 7, 0⟩) ∧
    walk twoFrames 0x401FF000 = none := by
  decide +kernel

theorem twoFrames_zeroPage : (mmMapZeroPage twoFrames 0x40000000).map Prod.fst = some 0 := by
  decide +kernel

/-- The first of two pages stays mapped when the second finds no frame for its table, and the frame
of a page that cannot be mapped stays taken. -/
theorem failed_maps_trace :
    (¬∀ s virt phys size flags s', s.Sound → (∀ va, s.NoGib va) →
      mmMapPhysRange s virt phys size flags = some (0, s') → NoTrace s s') ∧
    ¬∀ s va s', s.Sound → (∀ va, s.NoGib va) → va < 2 ^ 64 →
      mmMapZeroPage s va = some (0, s') → NoTrace s s' ∧ NoLeak s s' := by
  constructor
  · intro hall
    obtain ⟨hmap, hnone⟩ := twoFrames_map
    obtain ⟨⟨r, s'⟩, hrun, hout⟩ := Option.map_eq_some_iff.1 hmap
    obtain ⟨rfl, hwalk⟩ := Prod.mk.inj hout
    rw [hall _ _ _ _ _ s' twoFrames_sound twoFrames_noGib hrun, hnone] at hwalk
    cases hwalk
  · intro hall
    obtain ⟨⟨r, s'⟩, hrun, rfl⟩ := Option.map_eq_some_iff.1 twoFrames_zeroPage
    have htrace := hall _ _ s' twoFrames_sound twoFrames_noGib (by decide) hrun
    rw [mapZeroPage_traceless_iff twoFrames_sound (twoFrames_noGib _) (by decide) hrun] at htrace
    rcases htrace with hzero | hempty
    · cases hzero
    · have hfree : firstFrame ∈ twoFrames.pmm.freeFrames := by
        rw [Pmm.mem_freeFrames]
        exact ⟨⟨le_rfl, Nat.lt_add_of_pos_right (by decide)⟩, by decide⟩
      rw [hempty] at hfree
      exact Finset.notMem_empty _ hfree

end MeuOS.Mm
