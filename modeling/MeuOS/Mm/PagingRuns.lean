import MeuOS.Mm.PagePaths

/-! What mapping and unmapping a range does to the walk, over page tables that form a tree
and whose pages the frame allocator does not hold free. -/
namespace MeuOS.Mm

open MeuOS.Lib

variable {s s' : Paging} {u va w : Nat}

/-! ## One page -/

/-- What an entry of a last table makes of its page. -/
def pteTranslation (e : BitVec 64) : Option Translation :=
  if present e then some ⟨ptAddr e, e &&& ~~~ptMask, 0⟩ else none

/-- The pages from `lo` up to `hi` translate as `g` says, the others as before. -/
def MapsTo (s s' : Paging) (lo hi : Nat) (g : Nat → Option Translation) : Prop :=
  ∀ va, walk s' va = if lo ≤ va / frame ∧ va / frame < hi then g (va / frame) else walk s va

/-- A call that has come from page `lo` to page `hi`, or has been refused. -/
structure Advanced (s s' : Paging) (lo hi : Nat) (g : Nat → Option Translation) : Prop where
  sound : s'.Sound
  small : ∀ va t, lo ≤ va / frame → va / frame < hi → walk s va = some t → t.left = 0
  maps : MapsTo s s' lo hi g

def NoHuge (s : Paging) (lo hi : Nat) : Prop :=
  ∀ va t, lo ≤ va / frame → va / frame < hi → walk s va = some t → t.left ≠ 2

theorem walk_congr (s : Paging) (h : va / frame = w / frame) : walk s va = walk s w := by
  unfold walk Paging.entry translation
  simp only [canonical_congr h, path_congr h, h]

theorem walk_of_entry {e : BitVec 64} {left : Nat} (hcan : Canonical va) (h : s.entry va = some (e, left)) :
    walk s va = some (translation va e left) := by
  unfold walk
  rw [if_pos hcan, h, Option.map_some]

theorem SameEntries.trans {s'' : Paging} (h : SameEntries s s') (h' : SameEntries s' s'') :
    SameEntries s s'' :=
  fun va => (h' va).trans (h va)

theorem Advanced.same_after {s'' : Paging} {lo hi : Nat} {g : Nat → Option Translation}
    (ha : Advanced s s' lo hi g) (hs : s''.Sound) (h : SameEntries s' s'') : Advanced s s'' lo hi g :=
  ⟨hs, ha.small, fun va => (h.walk va).trans (ha.maps va)⟩

theorem pteTranslation_eq (va : Nat) (e : BitVec 64) :
    pteTranslation e = if present e then some (translation va e 0) else none := by
  unfold pteTranslation translation
  simp [Nat.mod_one]

/-- A page whose entry is stored is advanced over. -/
theorem Advanced.of_stored {e : BitVec 64} (h : s.Stored s' va e) (hcan : Canonical va) :
    Advanced s s' (va / frame) (va / frame + 1) fun _ => pteTranslation e := by
  refine ⟨h.grown.sound, fun w t hlo hhi hw => ?_, fun w => ?_⟩
  · rw [walk_congr s (show w / frame = va / frame by omega)] at hw
    unfold walk at hw
    rw [if_pos hcan] at hw
    obtain ⟨⟨x, left⟩, hx, rfl⟩ := Option.map_eq_some_iff.1 hw
    exact h.small x left hx
  · by_cases hpage : va / frame ≤ w / frame ∧ w / frame < va / frame + 1
    · rw [if_pos hpage, walk_congr s' (show w / frame = va / frame by omega), pteTranslation_eq va]
      unfold walk
      rw [if_pos hcan, h.entry_self]
      split <;> rfl
    · rw [if_neg hpage]
      unfold walk
      split
      case isFalse => rfl
      case isTrue hw =>
        rw [h.entry_others fun hpath => ?_]
        have := page_eq_of_path_eq hw hcan hpath
        omega

/-! ## The loops -/

def CanonicalPages (lo hi : Nat) : Prop := ∀ va, lo ≤ va / frame → va / frame < hi → Canonical va

/-- Steps on the pages from `lo` up to `hi`, one after the other. -/
inductive PageRun (R : Nat → Paging → Paging → Prop) : Nat → Paging → Nat → Paging → Prop
  | done (lo : Nat) (s : Paging) : PageRun R lo s lo s
  | page {lo hi : Nat} {s s₁ s' : Paging} :
      R lo s s₁ → PageRun R (lo + 1) s₁ hi s' → PageRun R lo s hi s'

theorem PageRun.le {R : Nat → Paging → Paging → Prop} {lo hi : Nat} (h : PageRun R lo s hi s') :
    lo ≤ hi := by
  induction h with
  | done => exact le_rfl
  | page _ _ ih => omega

theorem PageRun.stays {R : Nat → Paging → Paging → Prop} {lo : Nat} (h : PageRun R lo s lo s') :
    s' = s := by
  cases h with
  | done => rfl
  | page _ hrest =>
    have := hrest.le
    omega

theorem PageRun.one {R : Nat → Paging → Paging → Prop} {lo : Nat} (h : PageRun R lo s (lo + 1) s') :
    R lo s s' := by
  cases h with
  | page hstep hrest =>
    rw [hrest.stays]
    exact hstep

section Range

variable {lo mid hi : Nat} {g g' h : Nat → Option Translation}

theorem Advanced.trans {s'' : Paging} (ha : Advanced s s' lo mid g) (hb : Advanced s' s'' mid hi g')
    (hlo : lo ≤ mid) (hhi : mid ≤ hi) (hg : ∀ m, lo ≤ m → m < mid → g m = h m)
    (hg' : ∀ m, mid ≤ m → m < hi → g' m = h m) : Advanced s s'' lo hi h := by
  refine ⟨hb.sound, fun va t hvlo hvhi ht => ?_, fun va => ?_⟩
  · by_cases hmid : va / frame < mid
    · exact ha.small va t hvlo hmid ht
    · apply hb.small va t (by omega) hvhi
      rw [ha.maps va, if_neg (by omega), ht]
  · rw [hb.maps va]
    by_cases hupper : mid ≤ va / frame ∧ va / frame < hi
    · rw [if_pos hupper, if_pos (by omega), hg' _ hupper.1 hupper.2]
    · rw [if_neg hupper, ha.maps va]
      by_cases hlower : lo ≤ va / frame ∧ va / frame < mid
      · rw [if_pos hlower, if_pos (by omega), hg _ hlower.1 hlower.2]
      · rw [if_neg hlower, if_neg (by omega)]

theorem Advanced.refl (hs : s.Sound) (g : Nat → Option Translation) : Advanced s s lo lo g :=
  ⟨hs, fun _ _ _ _ _ => by omega, fun _ => by rw [if_neg (by omega)]⟩

theorem page_div (n : Nat) : n * frame / frame = n := Nat.mul_div_cancel n (by decide)

/-- A run of stores, on canonical pages. -/
theorem Advanced.of_run {R : Nat → Paging → Paging → Prop} {pte : Nat → BitVec 64}
    (hrun : PageRun R lo s hi s') (hs : s.Sound) (hcan : CanonicalPages lo hi)
    (hR : ∀ m s s', R m s s' → s.Stored s' (m * frame) (pte m)) :
    Advanced s s' lo hi fun m => pteTranslation (pte m) := by
  induction hrun with
  | done => exact .refl hs _
  | @page lo hi s s₁ s' hstep hrest ih =>
    have hstored := hR _ _ _ hstep
    have hle := hrest.le
    have hpage := page_div lo
    have hfirst := Advanced.of_stored hstored (hcan _ (by omega) (by omega))
    rw [hpage] at hfirst
    refine hfirst.trans (ih hstored.grown.sound fun va hlo => hcan va (by omega)) (by omega) hle
      (fun m hlo hhi => ?_) fun _ _ _ => rfl
    rw [show m = lo by omega]

theorem next_page (hn : lo < hi) (hstop : hi * frame < 2 ^ 64) :
    (lo * frame + 0x1000) % 2 ^ 64 = (lo + 1) * frame := by
  unfold frame at hstop ⊢
  omega

/-- The mapping loop maps page by page, up to the first that is refused. -/
theorem mapPhysLoop_run {p fuel : Nat} {pte : Nat → BitVec 64} {pteFlags : BitVec 64} (hs : s.Sound)
    (hgib : ∀ m, lo ≤ m → m < hi → s.NoGib (m * frame)) (hle : lo ≤ hi) (hstop : hi * frame < 2 ^ 64)
    (hfuel : hi < fuel + lo)
    (hpte : ∀ k, lo + k < hi → pte (lo + k) = (BitVec.ofNat 64 (p + k * frame) &&& ptMask) ||| pteFlags) :
    ∃ r s' mid s₁, mapPhysLoop (hi * frame) tblFlags pteFlags fuel (lo * frame) p s = some (r, s') ∧
      PageRun (fun m s s' => s.Mapped s' (m * frame) (pte m)) lo s mid s₁ ∧
      (r = 1 ∧ mid = hi ∧ s' = s₁ ∨
        r = 0 ∧ mid < hi ∧ s₁.Refuses (mid * frame) ∧ s₁.Grown s' ∧ SameSurveys s₁ s') := by
  induction fuel generalizing s lo p with
  | zero => omega
  | succ fuel ih =>
    unfold mapPhysLoop
    by_cases hlt : lo < hi
    · have hroom : lo * frame < hi * frame := Nat.mul_lt_mul_of_pos_right hlt (by decide)
      rw [if_pos hroom]
      obtain ⟨r, s1, hrun, ⟨rfl, hgrown, hsame, hrefuses⟩ | ⟨rfl, hmapped⟩⟩ :=
        mapPage_spec hs (hgib lo le_rfl hlt) p pteFlags
      · rw [hrun, Option.bind_some]
        exact ⟨0, s1, lo, s, rfl, .done lo s, .inr ⟨rfl, hlt, hrefuses, hgrown, hsame⟩⟩
      · have hfirst := hpte 0 hlt
        rw [Nat.add_zero, Nat.zero_mul, Nat.add_zero] at hfirst
        rw [← hfirst] at hmapped
        have hnext : ∀ k, lo + 1 + k < hi → pte (lo + 1 + k) =
            (BitVec.ofNat 64 ((p + 0x1000) % 2 ^ 64 + k * frame) &&& ptMask) ||| pteFlags := by
          intro k hk
          have haddr : BitVec.ofNat 64 ((p + 0x1000) % 2 ^ 64 + k * frame) =
              BitVec.ofNat 64 (p + (k + 1) * frame) := by
            apply BitVec.eq_of_toNat_eq
            rw [BitVec.toNat_ofNat, BitVec.toNat_ofNat]
            unfold frame
            omega
          rw [haddr, Nat.add_right_comm, Nat.add_assoc]
          exact hpte (k + 1) (by omega)
        obtain ⟨r, s2, mid, s₁, hrest, hpages, hend⟩ := ih hmapped.grown.sound
          (fun m hlo hhi => hmapped.noGib (hgib m (by omega) hhi)) hlt (by omega) hnext
        rw [hrun, Option.bind_some]
        simp only [one_ne_zero, if_false, next_page hlt hstop]
        exact ⟨r, s2, mid, s₁, hrest, .page hmapped hpages, hend⟩
    · have hend : lo = hi := by omega
      subst hend
      rw [if_neg (Nat.lt_irrefl _)]
      exact ⟨1, s, lo, s, rfl, .done lo s, .inl ⟨rfl, rfl, rfl⟩⟩

/-- The unmapping loop clears page by page, up to the first large page. -/
theorem unmapLoop_run {fuel : Nat} (hs : s.Sound)
    (hgib : ∀ m, lo ≤ m → m < hi → s.NoGib (m * frame)) (hle : lo ≤ hi) (hstop : hi * frame < 2 ^ 64)
    (hfuel : hi < fuel + lo) :
    ∃ r s' mid, unmapLoop (hi * frame) fuel (lo * frame) s = some (r, s') ∧
      PageRun (fun m s s' => s.Unmapped s' (m * frame)) lo s mid s' ∧
      (r = 1 ∧ mid = hi ∨ r = 0 ∧ mid < hi ∧ s'.MeetsPs (mid * frame)) := by
  induction fuel generalizing s lo with
  | zero => omega
  | succ fuel ih =>
    unfold unmapLoop
    by_cases hlt : lo < hi
    · have hroom : lo * frame < hi * frame := Nat.mul_lt_mul_of_pos_right hlt (by decide)
      rw [if_pos hroom]
      obtain ⟨r, s1, hrun, ⟨rfl, rfl, hps⟩ | ⟨rfl, hunmapped⟩⟩ := unmapPage_spec hs (hgib lo le_rfl hlt)
      · rw [hrun]
        exact ⟨0, s1, lo, rfl, .done lo s1, .inr ⟨rfl, hlt, hps⟩⟩
      · obtain ⟨r, s2, mid, hrest, hpages, hend⟩ := ih hunmapped.grown.sound
          (fun m hlo hhi => hunmapped.noGib (hgib m (by omega) hhi)) hlt (by omega)
        rw [hrun]
        simp only [next_page hlt hstop]
        exact ⟨r, s2, mid, hrest, .page hunmapped hpages, hend⟩
    · have hend : lo = hi := by omega
      subst hend
      rw [if_neg (Nat.lt_irrefl _)]
      exact ⟨1, s, lo, rfl, .done lo s, .inl ⟨rfl, rfl⟩⟩

/-- What the mapping loop makes of page `m`, with page `lo` going to physical page `q`. -/
def requested (q lo : Nat) (pteFlags : BitVec 64) (m : Nat) : Option Translation :=
  pteTranslation ((BitVec.ofNat 64 ((q + (m - lo)) * frame) &&& ptMask) ||| pteFlags)

/-- No page the walk translates through a 1 GiB entry. -/
theorem NoHuge.noGib (hhuge : NoHuge s lo hi) (hcan : CanonicalPages lo hi) {m : Nat} (hlo : lo ≤ m)
    (hhi : m < hi) : s.NoGib (m * frame) := by
  intro e he
  rw [← page_div m] at hlo hhi
  exact hhuge _ _ hlo hhi (walk_of_entry (hcan _ hlo hhi) he) rfl

end Range

/-! ## The calls -/

/-- The address is on a page of `[virt, virt + size)`. -/
def InRange (virt size va : Nat) : Prop :=
  virt / frame ≤ va / frame ∧ va / frame * frame < virt + size

/-- The range holds a page that a 2 MiB or 1 GiB entry translates. -/
def Paging.MeetsLarge (s : Paging) (virt size : Nat) : Prop :=
  ∃ va t, InRange virt size va ∧ walk s va = some t ∧ t.left ≠ 0

/-- The range translates page by page to the pages from `phys` on, the rest as before. -/
def MapsRange (s s' : Paging) (virt phys size : Nat) (flags : BitVec 64) : Prop :=
  ∀ va, (InRange virt size va → walk s' va =
      some ⟨phys / frame + (va / frame - virt / frame), (flags ||| tblFlags) &&& ~~~ptMask, 0⟩) ∧
    (¬InRange virt size va → walk s' va = walk s va)

def UnmapsRange (s s' : Paging) (virt size : Nat) : Prop :=
  ∀ va, (InRange virt size va → walk s' va = none) ∧
    (¬InRange virt size va → walk s' va = walk s va)

/-- The end of the range does not wrap, its addresses are canonical, and no 1 GiB entry
translates any of them. -/
structure Paging.RangeFits (s : Paging) (virt size : Nat) : Prop where
  noWrap : virt + size + 0xFFF < 2 ^ 64
  canonical : ∀ va, InRange virt size va → Canonical va
  noHuge : ∀ va t, InRange virt size va → walk s va = some t → t.left ≠ 2

/-- The physical pages have 40-bit numbers that hold the address bits of `flags`, if any. -/
def PhysFits (virt phys size : Nat) (flags : BitVec 64) : Prop :=
  ∀ va, InRange virt size va →
    phys / frame + (va / frame - virt / frame) < 2 ^ 40 ∧
    phys / frame + (va / frame - virt / frame) ||| ptAddr flags =
      phys / frame + (va / frame - virt / frame)

variable {virt size : Nat}

theorem inRange_iff (virt size va : Nat) :
    InRange virt size va ↔ virt / frame ≤ va / frame ∧ va / frame < (virt + size + 0xFFF) / frame := by
  unfold InRange frame
  omega

theorem rangeEnd_eq (h : virt + size + 0xFFF < 2 ^ 64) :
    rangeEnd virt size = (virt + size + 0xFFF) / frame * frame := by
  unfold rangeEnd
  rw [Nat.mod_eq_of_lt h]

/-- The entry that `mm_map_phys_range` writes for a page. -/
def rangePte (virt phys : Nat) (flags : BitVec 64) (m : Nat) : BitVec 64 :=
  (BitVec.ofNat 64 ((phys / frame + (m - virt / frame)) * frame) &&& ptMask) |||
    (flags ||| pgPresent ||| pgRw ||| pgUser)

section Calls

variable (hs : s.Sound) (hsize : size ≠ 0)
include hs hsize

/-- What `mm_map_phys_range` does, for any range: a run over its pages, to its end or to the first
page that is refused. -/
theorem mmMapPhysRange_run (phys : Nat) (flags : BitVec 64)
    (hgib : ∀ m, virt / frame ≤ m → m < rangeEnd virt size / frame → s.NoGib (m * frame)) :
    ∃ r s' mid s₁, mmMapPhysRange s virt phys size flags = some (r, s') ∧
      PageRun (fun m s s' => s.Mapped s' (m * frame) (rangePte virt phys flags m)) (virt / frame) s
        mid s₁ ∧
      (r = 1 ∧ mid = max (virt / frame) (rangeEnd virt size / frame) ∧ s' = s₁ ∨
        r = 0 ∧ mid < rangeEnd virt size / frame ∧ s₁.Refuses (mid * frame) ∧ s₁.Grown s' ∧
          SameSurveys s₁ s') := by
  have hend : rangeEnd virt size = rangeEnd virt size / frame * frame := by
    unfold rangeEnd
    rw [page_div]
  have hsmall : rangeEnd virt size < 2 ^ 64 := by
    unfold rangeEnd frame
    omega
  unfold mmMapPhysRange
  simp only [hsize, if_false]
  rcases Nat.lt_or_ge (virt / frame) (rangeEnd virt size / frame) with hlt | hge
  · rw [Nat.max_eq_right hlt.le]
    rw [hend] at hsmall ⊢
    rw [page_div]
    refine mapPhysLoop_run hs hgib hlt.le hsmall ?_ fun k _ => ?_
    · unfold frame
      omega
    · unfold rangePte
      rw [Nat.add_sub_cancel_left, Nat.add_mul]
  · rw [Nat.max_eq_left hge]
    refine ⟨1, s, virt / frame, s, ?_, .done _ s, .inl ⟨rfl, rfl, rfl⟩⟩
    unfold mapPhysLoop
    refine if_neg ?_
    rw [hend]
    exact Nat.not_lt.2 (Nat.mul_le_mul_right frame hge)

theorem mmUnmapRange_run
    (hgib : ∀ m, virt / frame ≤ m → m < rangeEnd virt size / frame → s.NoGib (m * frame)) :
    ∃ r s' mid, mmUnmapRange s virt size = some (r, s') ∧
      PageRun (fun m s s' => s.Unmapped s' (m * frame)) (virt / frame) s mid s' ∧
      (r = 1 ∧ mid = max (virt / frame) (rangeEnd virt size / frame) ∨
        r = 0 ∧ mid < rangeEnd virt size / frame ∧ s'.MeetsPs (mid * frame)) := by
  have hend : rangeEnd virt size = rangeEnd virt size / frame * frame := by
    unfold rangeEnd
    rw [page_div]
  have hsmall : rangeEnd virt size < 2 ^ 64 := by
    unfold rangeEnd frame
    omega
  unfold mmUnmapRange
  simp only [hsize, if_false]
  rcases Nat.lt_or_ge (virt / frame) (rangeEnd virt size / frame) with hlt | hge
  · rw [Nat.max_eq_right hlt.le]
    rw [hend] at hsmall ⊢
    rw [page_div]
    refine unmapLoop_run hs hgib hlt.le hsmall ?_
    unfold frame
    omega
  · rw [Nat.max_eq_left hge]
    refine ⟨1, s, virt / frame, ?_, .done _ s, .inl ⟨rfl, rfl⟩⟩
    unfold unmapLoop
    refine if_neg ?_
    rw [hend]
    exact Nat.not_lt.2 (Nat.mul_le_mul_right frame hge)

end Calls

theorem requested_eq (q lo m : Nat) (flags : BitVec 64) :
    requested q lo (flags ||| pgPresent ||| pgRw ||| pgUser) m =
      some ⟨(q + (m - lo)) % 2 ^ 40 ||| ptAddr flags, (flags ||| tblFlags) &&& ~~~ptMask, 0⟩ := by
  have hflags : flags ||| pgPresent ||| pgRw ||| pgUser = flags ||| tblFlags := by
    unfold tblFlags
    simp only [BitVec.or_assoc]
  have hpresent (e : BitVec 64) : present (e ||| (flags ||| tblFlags)) = true := by
    have hbit : tblFlags.getLsbD 0 = true := rfl
    rw [present_eq, BitVec.getLsbD_or, BitVec.getLsbD_or, hbit, Bool.or_true, Bool.or_true]
  have hbits (e : BitVec 64) :
      (e &&& ptMask ||| (flags ||| tblFlags)) &&& ~~~ptMask = (flags ||| tblFlags) &&& ~~~ptMask := by
    ext i hi
    simp only [BitVec.getElem_and, BitVec.getElem_or, BitVec.getElem_not]
    cases ptMask[i] <;> simp
  have hzero : ptAddr tblFlags = 0 := by decide
  unfold requested pteTranslation
  rw [hflags, hpresent, if_pos rfl, hbits, ptAddr_or, ptAddr_or, ptAddr_and_ptMask, ptAddr_ofNat,
    hzero, Nat.or_zero]

/-- A completed mapping is the requested one exactly when the physical range fits. -/
theorem mapsRange_iff {phys : Nat} {flags : BitVec 64}
    (h : Advanced s s' (virt / frame) ((virt + size + 0xFFF) / frame)
      (requested (phys / frame) (virt / frame) (flags ||| pgPresent ||| pgRw ||| pgUser))) :
    MapsRange s s' virt phys size flags ↔ PhysFits virt phys size flags := by
  have hwalk (va : Nat) (hva : InRange virt size va) : walk s' va =
      some ⟨(phys / frame + (va / frame - virt / frame)) % 2 ^ 40 ||| ptAddr flags,
        (flags ||| tblFlags) &&& ~~~ptMask, 0⟩ := by
    rw [h.maps va, if_pos ((inRange_iff virt size va).mp hva), requested_eq]
  constructor
  · intro hmaps va hva
    have hpage := (hwalk va hva).symm.trans ((hmaps va).1 hva)
    have hnum := congrArg Translation.page (Option.some.inj hpage)
    simp only at hnum
    have hlow : (phys / frame + (va / frame - virt / frame)) % 2 ^ 40 < 2 ^ 40 :=
      Nat.mod_lt _ (by decide)
    have hflags : ptAddr flags < 2 ^ 40 := by
      rw [ptAddr_eq]
      exact Nat.mod_lt _ (by decide)
    have hsmall := Nat.or_lt_two_pow hlow hflags
    rw [hnum] at hsmall
    rw [Nat.mod_eq_of_lt hsmall] at hnum
    exact ⟨hsmall, hnum⟩
  · intro hphys va
    refine ⟨fun hva => ?_, fun hva => ?_⟩
    · obtain ⟨hsmall, hor⟩ := hphys va hva
      rw [hwalk va hva, Nat.mod_eq_of_lt hsmall, hor]
    · rw [h.maps va, if_neg (mt (inRange_iff virt size va).mpr hva)]

theorem Advanced.not_meetsLarge {g : Nat → Option Translation}
    (h : Advanced s s' (virt / frame) ((virt + size + 0xFFF) / frame) g) :
    ¬s.MeetsLarge virt size := by
  rintro ⟨va, t, hva, ht, hleft⟩
  rw [inRange_iff] at hva
  exact hleft (h.small va t hva.1 hva.2 ht)

section Fits

variable (hfits : s.RangeFits virt size)
include hfits

theorem Paging.RangeFits.canonicalPages :
    CanonicalPages (virt / frame) ((virt + size + 0xFFF) / frame) :=
  fun va hlo hhi => hfits.canonical va ((inRange_iff virt size va).mpr ⟨hlo, hhi⟩)

theorem Paging.RangeFits.rangePage : rangeEnd virt size / frame = (virt + size + 0xFFF) / frame := by
  rw [rangeEnd_eq hfits.noWrap, page_div]

theorem Paging.RangeFits.noHugePages : NoHuge s (virt / frame) ((virt + size + 0xFFF) / frame) :=
  fun va t hlo hhi => hfits.noHuge va t ((inRange_iff virt size va).mpr ⟨hlo, hhi⟩)

theorem mmMapPhysRange_spec (hs : s.Sound) (hsize : size ≠ 0) (phys : Nat) (flags : BitVec 64) :
    ∃ r s' mid, mmMapPhysRange s virt phys size flags = some (r, s') ∧
      Advanced s s' (virt / frame) mid
        (requested (phys / frame) (virt / frame) (flags ||| pgPresent ||| pgRw ||| pgUser)) ∧
      (r = 0 ∧ mid < (virt + size + 0xFFF) / frame ∨ r = 1 ∧ mid = (virt + size + 0xFFF) / frame) := by
  have hpage := hfits.rangePage
  have hle : virt / frame ≤ (virt + size + 0xFFF) / frame := Nat.div_le_div_right (by omega)
  obtain ⟨r, s', mid, s₁, hrun, hpages, hend⟩ := mmMapPhysRange_run hs hsize phys flags
    fun m hlo hhi => hfits.noHugePages.noGib hfits.canonicalPages hlo (hpage ▸ hhi)
  rw [hpage, Nat.max_eq_right hle] at hend
  have hcan : CanonicalPages (virt / frame) mid :=
    fun va hlo hhi => hfits.canonicalPages va hlo (by omega)
  have hadv := Advanced.of_run hpages hs hcan fun _ _ _ h => h.toStored
  refine ⟨r, s', mid, hrun, ?_, ?_⟩
  · rcases hend with ⟨-, -, rfl⟩ | ⟨-, -, -, hgrown, hsame⟩
    · exact hadv
    · exact hadv.same_after hgrown.sound hsame.entries
  · rcases hend with ⟨hr, hmid, -⟩ | ⟨hr, hmid, -⟩
    · exact .inr ⟨hr, hmid⟩
    · exact .inl ⟨hr, hmid⟩

theorem mmUnmapRange_spec (hs : s.Sound) (hsize : size ≠ 0) :
    ∃ r s' mid, mmUnmapRange s virt size = some (r, s') ∧
      Advanced s s' (virt / frame) mid (fun _ => none) ∧
      (r = 0 ∧ mid < (virt + size + 0xFFF) / frame ∨ r = 1 ∧ mid = (virt + size + 0xFFF) / frame) := by
  have hpage := hfits.rangePage
  have hle : virt / frame ≤ (virt + size + 0xFFF) / frame := Nat.div_le_div_right (by omega)
  obtain ⟨r, s', mid, hrun, hpages, hend⟩ := mmUnmapRange_run hs hsize
    fun m hlo hhi => hfits.noHugePages.noGib hfits.canonicalPages hlo (hpage ▸ hhi)
  rw [hpage, Nat.max_eq_right hle] at hend
  have hcan : CanonicalPages (virt / frame) mid :=
    fun va hlo hhi => hfits.canonicalPages va hlo (by omega)
  refine ⟨r, s', mid, hrun, .of_run hpages hs hcan fun _ _ _ h => h.toStored, ?_⟩
  rcases hend with ⟨hr, hmid⟩ | ⟨hr, hmid, -⟩
  · exact .inr ⟨hr, hmid⟩
  · exact .inl ⟨hr, hmid⟩

end Fits

/-- Both calls refine the page map over a range that fits: a range with a large page is
refused, a completed mapping is the requested one just when the physical pages fit, and a
completed unmapping takes the range out and nothing else. -/
theorem pageMap_refined (hs : s.Sound) (hfits : size ≠ 0 → s.RangeFits virt size) :
    (∀ phys flags, ∃ r s', mmMapPhysRange s virt phys size flags = some (r, s') ∧
      (s.MeetsLarge virt size → r = 0) ∧
      (r = 1 → (MapsRange s s' virt phys size flags ↔ PhysFits virt phys size flags))) ∧
    (∃ r s', mmUnmapRange s virt size = some (r, s') ∧
      (s.MeetsLarge virt size → r = 0) ∧ (r = 1 → UnmapsRange s s' virt size)) := by
  by_cases hsize : size = 0
  · refine ⟨fun phys flags => ⟨0, s, if_pos hsize, fun _ => rfl, nofun⟩,
      0, s, if_pos hsize, fun _ => rfl, nofun⟩
  have hfit := hfits hsize
  constructor
  · intro phys flags
    obtain ⟨r, s', mid, hrun, hadv, ⟨rfl, -⟩ | ⟨rfl, rfl⟩⟩ :=
      mmMapPhysRange_spec hfit hs hsize phys flags
    · exact ⟨0, s', hrun, fun _ => rfl, nofun⟩
    · exact ⟨1, s', hrun, fun hlarge => absurd hlarge hadv.not_meetsLarge,
        fun _ => mapsRange_iff hadv⟩
  · obtain ⟨r, s', mid, hrun, hadv, ⟨rfl, -⟩ | ⟨rfl, rfl⟩⟩ := mmUnmapRange_spec hfit hs hsize
    · exact ⟨0, s', hrun, fun _ => rfl, nofun⟩
    · refine ⟨1, s', hrun, fun hlarge => absurd hlarge hadv.not_meetsLarge,
        fun _ va => ⟨fun hva => ?_, fun hva => ?_⟩⟩
      · rw [hadv.maps va, if_pos ((inRange_iff virt size va).mp hva)]
      · rw [hadv.maps va, if_neg (mt (inRange_iff virt size va).mpr hva)]

/-- A root table at page 1, everything empty, and the frames behind it free. -/
def emptyTables : Paging where
  mem := fun _ _ => 0
  pmm := { bitmap := fun _ => 0, sFree := 8, sTopFrame := firstFrame + 8 }
  cr3 := 0x1000

theorem emptyTables_sound : emptyTables.Sound := by
  have hroot : ∀ c t, emptyTables.reach c = some t → c = [] ∧ t = 1 := by
    intro c t ht
    cases c with
    | nil => exact ⟨rfl, (Option.some.inj ht).symm⟩
    | cons i c =>
      have hempty : slot 3 (emptyTables.mem (ptAddr emptyTables.cr3) i) = .empty := slot_zero 3
      unfold Paging.reach Tables.reach at ht
      rw [hempty] at ht
      cases ht
  refine ⟨fun c d t _ _ hc hd => ?_, fun c t _ ht hfree => ?_, by decide⟩
  · rw [(hroot c t hc).1, (hroot d t hd).1]
  · rw [(hroot c t ht).2, Pmm.mem_freeFrames] at hfree
    exact absurd hfree.1.1 (by decide)

theorem walk_emptyTables (va : Nat) : walk emptyTables va = none := by
  have hempty : slot 3 (emptyTables.mem (ptAddr emptyTables.cr3) (tableIdx va 39)) = .empty :=
    slot_zero 3
  have hentry : emptyTables.entry va = none := by
    unfold Paging.entry path Tables.lookup
    simp only [List.length_cons, List.length_nil, hempty]
  unfold walk
  rw [hentry, Option.map_none, ite_self]

theorem pageMap_refined_empty :
    (∀ phys flags, ∃ r s', mmMapPhysRange emptyTables 0x200000 phys 0x3000 flags = some (r, s') ∧
      (emptyTables.MeetsLarge 0x200000 0x3000 → r = 0) ∧
      (r = 1 → (MapsRange emptyTables s' 0x200000 phys 0x3000 flags ↔
        PhysFits 0x200000 phys 0x3000 flags))) ∧
    (∃ r s', mmUnmapRange emptyTables 0x200000 0x3000 = some (r, s') ∧
      (emptyTables.MeetsLarge 0x200000 0x3000 → r = 0) ∧
      (r = 1 → UnmapsRange emptyTables s' 0x200000 0x3000)) := by
  apply pageMap_refined emptyTables_sound
  refine fun _ => ⟨by decide, fun va hva => ?_, fun va t _ ht => ?_⟩
  · unfold InRange frame at hva
    exact .inl (by omega)
  · rw [walk_emptyTables] at ht
    cases ht

/-- `emptyTables` with a 1 GiB entry for the second GiB. -/
def hugeTables : Paging where
  mem := fun page idx =>
    if page = 1 ∧ idx.val = 0 then 0x2007
    else if page = 2 ∧ idx.val = 1 then 0x40000083 else 0
  pmm := emptyTables.pmm
  cr3 := 0x1000

/-- Mapping the last page reports success and maps nothing; unmapping a page of a 1 GiB
entry reports success and leaves it translated. -/
theorem pageMap_not_refined :
    (mmMapPhysRange emptyTables 0xFFFFFFFFFFFFF000 0x1000 0x1000 pgRw = some (1, emptyTables) ∧
      ¬MapsRange emptyTables emptyTables 0xFFFFFFFFFFFFF000 0x1000 0x1000 pgRw) ∧
    (hugeTables.MeetsLarge 0x40000000 0x1000 ∧
      mmUnmapRange hugeTables 0x40000000 0x1000 = some (1, hugeTables) ∧
      ¬UnmapsRange hugeTables hugeTables 0x40000000 0x1000) := by
  have hlast : InRange 0xFFFFFFFFFFFFF000 0x1000 0xFFFFFFFFFFFFF000 := by
    unfold InRange frame
    omega
  have hgib : InRange 0x40000000 0x1000 0x40000000 := by
    unfold InRange frame
    omega
  have hwalk : walk hugeTables 0x40000000 = some ⟨0x40000, 0x83, 2⟩ := by decide +kernel
  refine ⟨⟨rfl, fun hmaps => ?_⟩, ⟨_, _, hgib, hwalk, by decide⟩, rfl, fun hunmaps => ?_⟩
  · have hpage := (hmaps _).1 hlast
    rw [walk_emptyTables] at hpage
    cases hpage
  · have hpage := (hunmaps _).1 hgib
    rw [hwalk] at hpage
    cases hpage

end MeuOS.Mm
