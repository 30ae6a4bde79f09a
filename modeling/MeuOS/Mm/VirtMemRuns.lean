import MeuOS.Mm.VirtMem

/-! Regions are conserved: the map of the frame allocator is the one of the start with the frames
of the live regions set, and a release clears the frames of its region. -/
namespace MeuOS.Mm

open MeuOS.Lib

variable {p₀ : Pmm} {w w' : VmWorld} {r : Region} {size : Nat}

/-- No frame has a byte of both. -/
def Region.Apart (r q : Region) : Prop := ∀ f, r.Touches f → ¬q.Touches f

instance : Std.Symm Region.Apart := ⟨fun _ _ h f hq hr => h f hr hq⟩

structure VmInv (p₀ : Pmm) (w : VmWorld) : Prop where
  counted : w.vm.pmm.Counted
  top : w.vm.pmm.sTopFrame = p₀.sTopFrame
  bits : ∀ f, Bitmap.test w.vm.pmm.bitmap f = true ↔
    Bitmap.test p₀.bitmap f = true ∨ ∃ r ∈ w.live, r.Touches f
  fresh : ∀ r ∈ w.live, ∀ f, r.Touches f → f ∈ p₀.freeFrames
  apart : w.live.Pairwise Region.Apart
  aligned : ∀ r ∈ w.live, r.Aligned
  bytes : w.vm.sVmBytes = (w.live.map Region.size).sum
  count : frame * w.vm.pmm.sFree + (w.live.map Region.size).sum = frame * p₀.sFree

/-! ## Regions of whole pages -/

theorem roundUpPages_eq {n : Nat} (h : n + (frame - 1) < 2 ^ 64) :
    roundUpPages n = (n + (frame - 1)) / frame * frame := by
  unfold roundUpPages
  rw [Nat.add_sub_assoc (by decide), Nat.mod_eq_of_lt h]

theorem roundUpPages_mod (n : Nat) : roundUpPages n % frame = 0 := Nat.mul_mod_left _ _

theorem roundUpPages_lt (n : Nat) : roundUpPages n < 2 ^ 64 :=
  (Nat.div_mul_le_self _ _).trans_lt (Nat.mod_lt _ (by decide))

/-- A size whose rounding wraps is rounded to nothing. -/
theorem le_roundUpPages {n : Nat} (hn : n < 2 ^ 64) (hpages : 0 < roundUpPages n / frame) :
    n ≤ roundUpPages n := by
  unfold roundUpPages frame at *
  omega

theorem Region.Aligned.first_touched (h : r.Aligned) : r.Touches r.first :=
  (h.touches_iff _).2 ⟨le_rfl, Nat.lt_add_of_pos_right h.pages_pos⟩

/-- Regions of whole pages that touch no frame in common do not overlap. -/
theorem Region.Aligned.disjoint {q : Region} (h : r.Aligned) (hq : q.Aligned)
    (hapart : r.Apart q) : r.base + r.size ≤ q.base ∨ q.base + q.size ≤ r.base := by
  have hpos := h.pages_pos
  have hqpos := hq.pages_pos
  have hr := mt (hapart q.first)
  have hq' := hapart r.first h.first_touched
  rw [not_not, h.touches_iff] at hr
  rw [hq.touches_iff] at hq'
  have hr' := hr hq.first_touched
  rw [h.base_eq, h.size_eq, hq.base_eq, hq.size_eq]
  unfold frame
  omega

/-- Both ways to name the size of a region come to the region itself. -/
theorem roundUpPages_given (h : r.Aligned) (hlt : r.size < 2 ^ 64)
    (hsize : size = r.size ∨ size = 0 ∧ r.size = frame) :
    roundUpPages (if size = 0 then frame else size) = r.size := by
  have hwhole : (if size = 0 then frame else size) = r.size := by
    have hpos := h.pos
    split <;> omega
  have hmod := h.size
  have hlt' : r.size + (frame - 1) < 2 ^ 64 := by
    unfold frame at *
    omega
  rw [hwhole, roundUpPages_eq hlt']
  unfold frame at *
  omega

/-- The frames that go with a call of `pmm_free_frame` for each page of the region. -/
theorem releaseRange_aligned (h : r.Aligned) (hlt : r.base + r.size < 2 ^ 64)
    (hsize : size = r.size ∨ size = 0 ∧ r.size = frame) :
    releaseRange r.base size = (r.base, r.pages) := by
  unfold releaseRange
  simp only [roundUpPages_given h (by omega) hsize]
  rw [← Region.first, ← h.base_eq, Nat.mod_eq_of_lt hlt, Nat.add_sub_cancel_left]
  rfl

/-! ## Allocation -/

/-- A call of `MmAllocateVirtualMemory` comes back with a fresh region or with nothing. -/
theorem mmAllocateVirtualMemory_cases {s : VirtMem} (h : s.pmm.Counted) (base : Nat) {req : Nat}
    (hreq : req < 2 ^ 64) :
    (∃ reply, mmAllocateVirtualMemory s (some base) (some req) = some (reply, s) ∧ reply.region = []) ∨
    ∃ r : Region, r.Aligned ∧ req ≤ r.size ∧
      (∀ f, r.first ≤ f → f < r.first + r.pages → f ∈ s.pmm.freeFrames) ∧
      mmAllocateVirtualMemory s (some base) (some req) =
        some (⟨statusSuccess, some r.base, some r.size⟩,
          { s with pmm := s.pmm.take r.first r.pages, mem := s.mem.blit r.base r.size fun _ => 0,
                   sVmAllocs := (s.sVmAllocs + 1) % 2 ^ 64,
                   sVmBytes := (s.sVmBytes + r.size) % 2 ^ 64 }) := by
  unfold mmAllocateVirtualMemory
  by_cases hzero : req = 0
  · exact .inl ⟨_, if_pos hzero, rfl⟩
  simp only [if_neg hzero]
  have hfirst : firstFrame = 16384 := by decide
  have hpages : firstFrame + roundUpPages req / frame < 2 ^ 64 := by
    have hlt := roundUpPages_lt req
    rw [hfirst]
    unfold frame
    omega
  obtain ⟨⟨pmm, phys⟩, hrun⟩ := pmmAllocContiguous_returns h hpages
  rw [hrun, Option.bind_some]
  rcases pmmAllocContiguous_spec hrun with ⟨g, rfl, hn, rfl, hfree⟩ | ⟨rfl, rfl⟩
  · have hne := managed_ne_zero (Pmm.mem_freeFrames.mp (hfree g le_rfl (Nat.lt_add_of_pos_right hn))).1
    have hsize : roundUpPages req / frame * frame = roundUpPages req := by
      have hmod := roundUpPages_mod req
      unfold frame at *
      omega
    have hbase : g * frame / frame = g := Nat.mul_div_cancel g frame_pos
    refine .inr ⟨⟨g * frame, roundUpPages req⟩, ⟨Nat.mul_mod_left _ _, roundUpPages_mod req, ?_⟩, ?_, ?_, ?_⟩
    · rw [← hsize]
      exact Nat.mul_pos hn frame_pos
    · exact le_roundUpPages hreq hn
    · intro f hge hlt
      rw [Region.first, hbase] at hge hlt
      exact hfree f hge hlt
    · rw [if_neg hne, Region.first, Region.pages, hbase]
  · exact .inl ⟨_, if_pos rfl, rfl⟩

/-! ## The invariant -/

theorem VmInv.start (h : VmStart w) : VmInv w.vm.pmm w := by
  obtain ⟨hcounted, hbytes, hlive⟩ := h
  refine ⟨hcounted, rfl, fun f => ?_, ?_, ?_, ?_, ?_, ?_⟩
  all_goals rw [hlive]
  · simp
  · nofun
  · exact List.Pairwise.nil
  · nofun
  · rw [hbytes]
    rfl
  · rfl

/-- A frame of a live region is taken. -/
theorem VmInv.used (h : VmInv p₀ w) (hr : r ∈ w.live) {f : Nat} (hf : r.Touches f) :
    w.vm.pmm.Managed f ∧ Bitmap.test w.vm.pmm.bitmap f = true := by
  refine ⟨?_, (h.bits f).2 (.inr ⟨r, hr, hf⟩)⟩
  have hman := (Pmm.mem_freeFrames.1 (h.fresh r hr f hf)).1
  unfold Pmm.Managed at hman ⊢
  rwa [h.top]

/-- No sum of sizes of regions wraps. -/
theorem bytes_small (hp₀ : p₀.Counted) {a n : Nat} (hcount : frame * a + n = frame * p₀.sFree) :
    n ≤ maxPhys := by
  have hfree := p₀.card_freeFrames_le
  have htop := hp₀.top
  rw [← hp₀.count] at hfree
  rw [maxFrames_eq] at htop
  unfold frame maxPhys at *
  omega

theorem VmInv.allocated (h : VmInv p₀ w) (hp₀ : p₀.Counted) (hr : r.Aligned)
    (hfree : ∀ f, r.first ≤ f → f < r.first + r.pages → f ∈ w.vm.pmm.freeFrames) {vm : VirtMem}
    (hpmm : vm.pmm = w.vm.pmm.take r.first r.pages)
    (hbytes : vm.sVmBytes = (w.vm.sVmBytes + r.size) % 2 ^ 64) : VmInv p₀ ⟨vm, r :: w.live⟩ := by
  have htouch : ∀ f, r.Touches f → f ∈ w.vm.pmm.freeFrames := fun f hf =>
    hfree f ((hr.touches_iff f).1 hf).1 ((hr.touches_iff f).1 hf).2
  have hcounted : vm.pmm.Counted := hpmm ▸ h.counted.take hfree
  have hcard : vm.pmm.sFree + r.pages = w.vm.pmm.sFree := by
    rw [hcounted.count, h.counted.count, hpmm]
    exact Bitmap.card_clears_setRange hfree
  have hcount : frame * vm.pmm.sFree + (r.size + (w.live.map Region.size).sum) = frame * p₀.sFree := by
    have hold := h.count
    rw [← hcard] at hold
    rw [hr.size_eq]
    unfold frame at *
    omega
  refine ⟨hcounted, ?_, fun f => ?_, fun q hq f hf => ?_, ?_, fun q hq => ?_, ?_, hcount⟩
  · rw [hpmm]
    exact h.top
  · rw [hpmm]
    show Bitmap.test (Bitmap.setRange w.vm.pmm.bitmap r.first r.pages) f = true ↔ _
    rw [Bitmap.test_setRange, Bool.or_eq_true, decide_eq_true_eq, h.bits, ← hr.touches_iff]
    simp only [List.mem_cons, exists_eq_or_imp]
    tauto
  · rcases List.mem_cons.1 hq with rfl | hq
    · have hnow := Pmm.mem_freeFrames.1 (htouch f hf)
      refine Pmm.mem_freeFrames.2 ⟨?_, ?_⟩
      · unfold Pmm.Managed
        rw [← h.top]
        exact hnow.1
      · by_contra hset
        rw [(h.bits f).2 (.inl (Bool.of_not_eq_false hset))] at hnow
        cases hnow.2
    · exact h.fresh q hq f hf
  · refine List.Pairwise.cons (fun q hq f hf hqf => ?_) h.apart
    have hclear := (Pmm.mem_freeFrames.1 (htouch f hf)).2
    rw [(h.used hq hqf).2] at hclear
    cases hclear
  · rcases List.mem_cons.1 hq with rfl | hq
    · exact hr
    · exact h.aligned q hq
  · have hsmall := bytes_small hp₀ hcount
    unfold maxPhys at hsmall
    rw [hbytes, h.bytes, Nat.mod_eq_of_lt (by omega)]
    exact Nat.add_comm _ _

/-- Frames that are in use are the more free ones once they are released. -/
theorem Released.card {p p' : Pmm} {a n : Nat}
    (h : Released p p' fun f => decide (a ≤ f) && decide (f < a + n))
    (hused : ∀ f, a ≤ f ∧ f < a + n → p.Managed f ∧ Bitmap.test p.bitmap f = true) :
    p'.freeFrames.card = p.freeFrames.card + n := by
  have htop := h.counted.top
  rw [h.top] at htop
  have hnew : p'.freeFrames = p.freeFrames ∪ Finset.Ico a (a + n) := by
    ext f
    rw [Finset.mem_union, Finset.mem_Ico, Pmm.mem_freeFrames, Pmm.mem_freeFrames, ← Bool.not_eq_true,
      ← Bool.not_eq_true, h.test]
    unfold Pmm.Managed at *
    rw [h.top, Bool.and_eq_true, decide_eq_true_eq, decide_eq_true_eq]
    constructor
    · rintro ⟨hman, hout⟩
      by_cases hset : Bitmap.test p.bitmap f = true
      · refine .inr ?_
        by_contra hno
        exact hout ⟨hset, fun hin => hno hin.1⟩
      · exact .inl ⟨hman, hset⟩
    · rintro (⟨hman, hclear⟩ | hin)
      · exact ⟨hman, fun hset => hclear hset.1⟩
      · have hman := (hused f hin).1
        exact ⟨hman, fun hset => hset.2 ⟨hin, hman.2.trans_le htop⟩⟩
  have hdisjoint : Disjoint p.freeFrames (Finset.Ico a (a + n)) := by
    refine Finset.disjoint_left.2 fun f hfree hin => ?_
    have hclear := (Pmm.mem_freeFrames.1 hfree).2
    rw [(hused f (Finset.mem_Ico.1 hin)).2] at hclear
    cases hclear
  rw [hnew, Finset.card_union_of_disjoint hdisjoint, Nat.card_Ico, Nat.add_sub_cancel_left]

/-- A release by either of the two sizes frees the region. -/
theorem VirtMem.free_aligned {s : VirtMem} (h : s.pmm.Counted) (hr : r.Aligned)
    (hman : ∀ f, r.Touches f → s.pmm.Managed f) (hsize : size = r.size ∨ size = 0 ∧ r.size = frame) :
    Released s.pmm (s.free (some r.base) (some size) memRelease).2.pmm
        (fun f => decide (r.first ≤ f) && decide (f < r.first + r.pages)) ∧
      (s.free (some r.base) (some size) memRelease).2.sVmBytes =
        if r.size ≤ s.sVmBytes then s.sVmBytes - r.size else 0 := by
  have hfirst : 0 < firstFrame := by decide
  have hbase : r.base ≠ 0 := by
    have hpos := (hman _ hr.first_touched).1
    rw [hr.base_eq]
    exact Nat.mul_ne_zero (by omega) (by decide)
  have hlast : r.first + r.pages ≤ s.pmm.sTopFrame := by
    have hpos := hr.pages_pos
    have htop := (hman (r.first + r.pages - 1) ((hr.touches_iff _).2 ⟨by omega, by omega⟩)).2
    omega
  have hlt : r.base + r.size < 2 ^ 64 := by
    have htop := h.top
    rw [hr.base_eq, hr.size_eq]
    rw [maxFrames_eq] at htop
    unfold frame
    omega
  have hrange := releaseRange_aligned hr hlt hsize
  have hkeep : ¬(memRelease &&& memDecommit != 0) = true := by decide
  have hfree : mmFreeVirtualMemory s.pmm (some r.base) (some size) memRelease =
      (statusSuccess, freePages s.pmm r.base r.pages) := by
    unfold mmFreeVirtualMemory
    simp only [if_neg hbase, if_neg hkeep, hrange]
  have hgo : ¬(r.base = 0 ∨ memRelease &&& memDecommit ≠ 0) := by
    rintro (h | h)
    · exact hbase h
    · exact h (by decide)
  unfold VirtMem.free
  simp only [hfree, if_neg hgo, roundUpPages_given hr (by omega) hsize]
  refine ⟨freePages_released h fun f hge hf => ?_, trivial⟩
  exact .inl (hman f ((hr.touches_iff f).2 ⟨hge, hf⟩))

theorem VmInv.free_live (h : VmInv p₀ w) (hr : r ∈ w.live) (hsize : size = 0 ∨ size = r.size)
    (hok : VmMeets w (.release r size)) :
    Released w.vm.pmm (w.vm.free (some r.base) (some size) memRelease).2.pmm
        (fun f => decide (r.first ≤ f) && decide (f < r.first + r.pages)) ∧
      (w.vm.free (some r.base) (some size) memRelease).2.sVmBytes =
        if r.size ≤ w.vm.sVmBytes then w.vm.sVmBytes - r.size else 0 := by
  refine VirtMem.free_aligned h.counted (h.aligned r hr) (fun f hf => (h.used hr hf).1) ?_
  have hok' : size = r.size ∨ r.size = frame := hok
  tauto

/-- The frames of a live region are the ones that its release clears. -/
theorem VmInv.free_test (h : VmInv p₀ w) (hr : r ∈ w.live) (hsize : size = 0 ∨ size = r.size)
    (hok : VmMeets w (.release r size)) (f : Nat) :
    Bitmap.test (w.vm.free (some r.base) (some size) memRelease).2.pmm.bitmap f = true ↔
      Bitmap.test w.vm.pmm.bitmap f = true ∧ ¬r.Touches f := by
  rw [(h.free_live hr hsize hok).1.test, (h.aligned r hr).touches_iff]
  simp only [Bool.and_eq_true, decide_eq_true_eq]
  refine and_congr_right fun _ => not_congr (and_iff_left_of_imp fun hf => ?_)
  have hman := (h.used hr (((h.aligned r hr).touches_iff f).2 hf)).1.2
  exact hman.trans_le h.counted.top

theorem VmInv.sum_erase (hr : r ∈ w.live) :
    r.size + ((w.live.erase r).map Region.size).sum = (w.live.map Region.size).sum :=
  List.sum_map_erase Region.size hr

theorem VmInv.nodup (h : VmInv p₀ w) : w.live.Nodup :=
  h.apart.imp_of_mem fun {a b} ha _ hab heq => by
    have htouch := (h.aligned a ha).first_touched
    exact hab _ htouch (heq ▸ htouch)

theorem VmInv.released (h : VmInv p₀ w) (hr : r ∈ w.live) (hsize : size = 0 ∨ size = r.size)
    (hok : VmMeets w (.release r size)) :
    VmInv p₀ ⟨(w.vm.free (some r.base) (some size) memRelease).2, w.live.erase r⟩ := by
  obtain ⟨hrel, hbytes⟩ := h.free_live hr hsize hok
  have htest := h.free_test hr hsize hok
  have hmem : ∀ q, q ∈ w.live.erase r ↔ q ≠ r ∧ q ∈ w.live := fun q => h.nodup.mem_erase_iff
  have hsum := VmInv.sum_erase hr
  have hother : ∀ q ∈ w.live, q ≠ r → q.Apart r := fun q hq hne => h.apart.forall hq hr hne
  refine ⟨hrel.counted, hrel.top.trans h.top, fun f => ?_, fun q hq => h.fresh q ((hmem q).1 hq).2,
    h.apart.sublist List.erase_sublist, fun q hq => h.aligned q ((hmem q).1 hq).2, ?_, ?_⟩
  · rw [htest, h.bits]
    constructor
    · rintro ⟨hset | ⟨q, hq, hf⟩, hout⟩
      · exact .inl hset
      · exact .inr ⟨q, (hmem q).2 ⟨fun heq => hout (heq ▸ hf), hq⟩, hf⟩
    · rintro (hset | ⟨q, hq, hf⟩)
      · refine ⟨.inl hset, fun hrf => ?_⟩
        rw [(Pmm.mem_freeFrames.1 (h.fresh r hr f hrf)).2] at hset
        cases hset
      · obtain ⟨hne, hq⟩ := (hmem q).1 hq
        exact ⟨.inr ⟨q, hq, hf⟩, hother q hq hne f hf⟩
  · rw [hbytes, h.bytes, ← hsum, if_pos (Nat.le_add_right _ _), Nat.add_sub_cancel_left]
  · have hcard : (w.vm.free (some r.base) (some size) memRelease).2.pmm.sFree =
        w.vm.pmm.sFree + r.pages := by
      rw [hrel.counted.count, h.counted.count]
      refine hrel.card fun f hf => h.used hr (((h.aligned r hr).touches_iff f).2 ?_)
      simpa using hf
    have hcount := h.count
    rw [← hsum, (h.aligned r hr).size_eq] at hcount
    rw [hcard]
    show frame * _ + ((w.live.erase r).map Region.size).sum = _
    unfold frame at *
    omega

/-! ## Whole runs -/

theorem VmInv.step (h : VmInv p₀ w) (hp₀ : p₀.Counted) {op : VmOp} (hok : VmMeets w op)
    (hstep : VmStep w op w') : VmInv p₀ w' := by
  cases hstep with
  | allocate base req hreq reply vm hcall =>
    rcases mmAllocateVirtualMemory_cases h.counted base hreq with ⟨reply', hrun, hnone⟩ |
      ⟨r, hr, -, hfree, hrun⟩
    · obtain ⟨rfl, rfl⟩ := Prod.mk.inj (Option.some.inj (hcall.symm.trans hrun))
      rw [hnone]
      exact h
    · obtain ⟨rfl, rfl⟩ := Prod.mk.inj (Option.some.inj (hcall.symm.trans hrun))
      exact h.allocated hp₀ hr hfree rfl rfl
  | release r size hr hsize => exact h.released hr hsize hok
  | write mem =>
    exact ⟨h.counted, h.top, h.bits, h.fresh, h.apart, h.aligned, h.bytes, h.count⟩

theorem VmInv.sound {w₀ : VmWorld} (h : VmInv w₀.vm.pmm w) : VmSound w₀ w := by
  refine ⟨h.apart.imp_of_mem fun hr hq hapart => (h.aligned _ hr).disjoint (h.aligned _ hq) hapart,
    h.aligned, fun base req hreq => ?_, fun r hr size hsize hok => h.free_test hr hsize hok, h.bytes,
    fun hlive => ?_⟩
  · rcases mmAllocateVirtualMemory_cases h.counted base hreq with ⟨reply, hrun, hnone⟩ |
      ⟨r, -, hle, -, hrun⟩
    · refine ⟨reply, _, hrun, fun r hr => ?_⟩
      rw [hnone] at hr
      cases hr
    · refine ⟨_, _, hrun, fun q hq => ?_⟩
      obtain rfl : q = r := List.mem_singleton.1 hq
      exact ⟨hle, fun i hge hlt => Mem.blit_inside w.vm.mem (fun _ => 0) hge hlt⟩
  · have hbits : w.vm.pmm.bitmap = w₀.vm.pmm.bitmap := by
      refine Bitmap.ext fun f => Bool.eq_iff_iff.2 ?_
      rw [h.bits, hlive]
      simp
    have hcount := h.count
    rw [hlive] at hcount
    have hfree : w.vm.pmm.sFree = w₀.vm.pmm.sFree := Nat.eq_of_mul_eq_mul_left frame_pos hcount
    have htop := h.top
    generalize w.vm.pmm = p at hbits hfree htop
    generalize w₀.vm.pmm = p₀ at hbits hfree htop
    cases p
    cases p₀
    simp only [Pmm.mk.injEq]
    exact ⟨hbits, hfree, htop⟩

/-! ## A release by any base and size -/

theorem test_ones (f : Nat) : Bitmap.test (fun _ => 0xFF) f = true := by
  have hbit : f % 8 < 8 := Nat.mod_lt _ (by decide)
  rw [Bitmap.test_eq_testBit]
  interval_cases f % 8 <;> rfl

theorem mmFreeVirtualMemory_release (p : Pmm) {base : Nat} (hbase : base ≠ 0) (size : Nat) :
    (mmFreeVirtualMemory p (some base) (some size) memRelease).2 =
      freePages p (releaseRange base size).1 (releaseRange base size).2 := by
  have hkeep : ¬(memRelease &&& memDecommit != 0) = true := by decide
  unfold mmFreeVirtualMemory
  simp only [if_neg hbase, if_neg hkeep]

/-- What is freed is a matter of the pages that the release walks over. -/
theorem freesTouched_iff {base : Nat} (hbase : base ≠ 0) (size : Nat) :
    FreesTouched base size ↔ ∀ f, f < maxFrames → (⟨base, size⟩ : Region).Touches f →
      base / frame ≤ f ∧ f < base / frame + (releaseRange base size).2 := by
  have hfirst : (releaseRange base size).1 / frame = base / frame :=
    Nat.mul_div_cancel _ frame_pos
  unfold FreesTouched
  simp only [mmFreeVirtualMemory_release _ hbase]
  constructor
  · intro hall f hmax htouch
    by_contra hout
    have hclear := hall ⟨fun _ => 0xFF, 0, 0⟩ f hmax htouch
    rw [← Bool.not_eq_true, freePages_test, hfirst] at hclear
    refine hclear ⟨test_ones f, fun hin => hout ?_⟩
    simpa using hin.1
  · intro hall p f hmax htouch
    rw [← Bool.not_eq_true, freePages_test, hfirst]
    rintro ⟨-, hout⟩
    exact hout ⟨by simpa using hall f hmax htouch, hmax⟩

/-- The pages of a release, as the two roundings and the two sums of the code give them. -/
theorem releaseRange_pages {base size : Nat} (hpos : 0 < size) (hbase : base < 2 ^ 64)
    (hsize : size < 2 ^ 64) :
    (releaseRange base size).2 =
      if size + (frame - 1) < 2 ^ 64 ∧
          base / frame * frame + (size + (frame - 1)) / frame * frame < 2 ^ 64
      then (size + (frame - 1)) / frame else 0 := by
  have hgiven : (if size = 0 then frame else size) = size := if_neg hpos.ne'
  unfold releaseRange
  simp only [hgiven]
  unfold roundUpPages frame
  split <;> omega

theorem freesTouched_iff_fits {base size : Nat} (hne : base ≠ 0) (hbase : base < 2 ^ 64)
    (hsize : size < 2 ^ 64) : FreesTouched base size ↔ ReleaseFits base size := by
  rw [freesTouched_iff hne]
  unfold ReleaseFits
  rcases Nat.eq_zero_or_pos size with rfl | hpos
  · refine iff_of_true (fun f _ htouch => ?_) (.inl rfl)
    obtain ⟨i, hlo, hhi, -⟩ := htouch
    exact absurd (hlo.trans_lt hhi) (lt_irrefl _)
  · simp only [Region.touches_iff (r := ⟨base, size⟩) hpos, releaseRange_pages hpos hbase hsize]
    rw [maxFrames_eq]
    unfold frame
    constructor
    · intro hall
      have hfirst := hall (base / 4096)
      have hlast := hall (base / 4096 + (size + (4096 - 1)) / 4096)
      split at hfirst <;> split at hlast <;> omega
    · rintro (rfl | hhigh | ⟨hround, hend, hfits⟩) f hmax htouch
      · omega
      · omega
      · rw [if_pos ⟨hround, hend⟩]
        omega

/-- Regions are conserved in every run that names one-page regions only by a size of 0, and a
release by any base and size frees the pages it touches exactly where its two roundings agree. -/
theorem regions_conserved (w₀ w : VmWorld) (base size : Nat) :
    (VmStart w₀ → Reach (· = w₀) VmStep VmMeets w → VmSound w₀ w) ∧
    (base ≠ 0 → base < 2 ^ 64 → size < 2 ^ 64 → (FreesTouched base size ↔ ReleaseFits base size)) := by
  refine ⟨fun hstart hrun => VmInv.sound ?_,
    fun hne hbase hsize => freesTouched_iff_fits hne hbase hsize⟩
  exact hrun.invariant (fun w hw => by rw [hw]; exact VmInv.start hstart)
    fun w op w' hinv hok hstep => hinv.step hstart.counted hok hstep

/-! ## Eight free frames -/

def eightFrames : VmWorld where
  vm := ⟨⟨fun i => if i = 2048 then 0 else 0xFF, 8, firstFrame + 8⟩, fun _ => 0xCC, 0, 0, 0⟩
  live := []

theorem eightFrames_start : VmStart eightFrames := by
  have hfirst : firstFrame = 16384 := by decide
  refine ⟨⟨by decide, by decide, fun f hf hout => ?_⟩, rfl, rfl⟩
  have hne : f / 8 ≠ 2048 := by
    intro heq
    refine hout ⟨?_, ?_⟩
    · rw [hfirst]
      omega
    · show f < firstFrame + 8
      rw [hfirst]
      omega
  have hbit : f % 8 < 8 := Nat.mod_lt _ (by decide)
  rw [Bitmap.test_eq_testBit]
  show (if f / 8 = 2048 then (0 : UInt8) else 0xFF).toNat.testBit (f % 8) = true
  rw [if_neg hne]
  interval_cases f % 8 <;> rfl

/-- With two of its pages given out. -/
def twoPages : VmWorld where
  vm := ⟨eightFrames.vm.pmm.take firstFrame 2, eightFrames.vm.mem.blit 0x4000000 0x2000 fun _ => 0, 1,
    0, 0x2000⟩
  live := [⟨0x4000000, 0x2000⟩]

theorem twoPages_step : VmStep eightFrames (.allocate 0 0x2000) twoPages :=
  .allocate eightFrames 0 0x2000 (by decide) _ _ rfl

theorem regions_conserved_two :
    VmSound eightFrames ⟨(twoPages.vm.free (some 0x4000000) (some 0x2000) memRelease).2, []⟩ ∧
      FreesTouched 0x4000800 0x800 := by
  have htwo : Reach (· = eightFrames) VmStep VmMeets twoPages :=
    .step (.start rfl) (a := .allocate 0 0x2000) trivial twoPages_step
  have hconserved := regions_conserved eightFrames
    ⟨(twoPages.vm.free (some 0x4000000) (some 0x2000) memRelease).2, []⟩ 0x4000800 0x800
  refine ⟨hconserved.1 eightFrames_start (.step htwo ?_
    (.release twoPages ⟨0x4000000, 0x2000⟩ 0x2000 List.mem_cons_self (.inr rfl))),
    (hconserved.2 (by decide) (by decide) (by decide)).2 ?_⟩
  · exact .inl rfl
  · exact .inr (.inr ⟨by decide, by decide, .inl (by decide)⟩)

/-- A region of two pages that is released by a size of 0 leaves its second page taken, and so
does a release of a page's length that starts in the middle of a page. -/
theorem regions_not_conserved :
    ¬(∀ w₀ w, VmStart w₀ → Reach (· = w₀) VmStep (fun _ _ => True) w → VmSound w₀ w) ∧
    ¬∀ base size, base ≠ 0 → base < 2 ^ 64 → size < 2 ^ 64 → FreesTouched base size := by
  constructor
  · intro hall
    have hrun : Reach (· = eightFrames) VmStep (fun _ _ => True)
        ⟨(twoPages.vm.free (some 0x4000000) (some 0) memRelease).2, []⟩ :=
      .step (.step (.start rfl) trivial twoPages_step) trivial
        (.release twoPages ⟨0x4000000, 0x2000⟩ 0 List.mem_cons_self (.inl rfl))
    have hdrained := (hall _ _ eightFrames_start hrun).drained rfl
    exact absurd (congrArg Pmm.sFree hdrained) (by decide)
  · intro hall
    have hfrees := hall 0x4000800 0x1000 (by decide) (by decide) (by decide)
    rw [freesTouched_iff_fits (by decide) (by decide) (by decide)] at hfrees
    exact absurd hfrees (by unfold ReleaseFits; decide)

end MeuOS.Mm
