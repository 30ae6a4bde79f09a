import MeuOS.Lib.Trail
import MeuOS.Mm.Paging

/-! What mapping and unmapping one page does to every path through the page tables, where these
form a tree and the frame allocator does not hold their pages free. -/
namespace MeuOS.Mm

open MeuOS.Lib

def Paging.reach (s : Paging) (c : List (Fin 512)) : Option Nat :=
  Tables.reach slot s.mem 4 (ptAddr s.cr3) c

structure Paging.Sound (s : Paging) : Prop where
  tree : Tables.Tree slot s.mem 4 (ptAddr s.cr3)
  used : ∀ c t, c.length < 4 → s.reach c = some t → t ∉ s.pmm.freeFrames
  top : s.pmm.sTopFrame ≤ maxFrames

/-- Every path ends at the same entry. -/
def SameEntries (s s' : Paging) : Prop := ∀ va, s'.entry va = s.entry va

def Paging.survey (s : Paging) (va : Nat) : Option (List (BitVec 64) × BitVec 64 × Nat) :=
  Tables.survey slot (· &&& ~~~ptMask) s.mem (ptAddr s.cr3) (path va)

/-- Every path goes through the same flags to the same entry. -/
def SameSurveys (s s' : Paging) : Prop := ∀ va, s'.survey va = s.survey va

/-- The entries for tables on the path of an address. -/
def Paging.trail (s : Paging) (va : Nat) : List (BitVec 64) :=
  Tables.trail slot s.mem 4 (ptAddr s.cr3) (path va)

/-- Tables are only added, in frames that were free; besides tables no page in use is written. -/
structure Paging.Grown (s s' : Paging) : Prop where
  sound : s'.Sound
  cr3 : s'.cr3 = s.cr3
  reach : ∀ c t, c.length < 4 → s.reach c = some t → s'.reach c = some t
  fresh : ∀ c t, c.length < 4 → s'.reach c = some t → s.reach c = some t ∨ t ∈ s.pmm.freeFrames
  free : s'.pmm.freeFrames ⊆ s.pmm.freeFrames
  taken : ∀ f ∈ s.pmm.freeFrames, f ∈ s'.pmm.freeFrames ∨ ∃ c, c.length < 4 ∧ s'.reach c = some f
  data : ∀ q ∉ s.pmm.freeFrames, (∀ c, c.length < 4 → s.reach c ≠ some q) → s'.mem q = s.mem q

variable {s s' : Paging} {c : List (Fin 512)} {u va w : Nat} {i : Fin 512} {e' : BitVec 64}

/-! ## Addresses and paths -/

theorem tableIdx_val (v shift : Nat) : (tableIdx v (12 + shift)).val = v / frame / 2 ^ shift % 512 := by
  unfold tableIdx
  rw [pow_add, ← Nat.div_div_eq_div_mul]
  rfl

theorem path_eq_iff (va w : Nat) : path va = path w ↔ va / frame % 2 ^ 36 = w / frame % 2 ^ 36 := by
  simp only [path, List.cons.injEq, Fin.ext_iff, and_true]
  rw [tableIdx_val va 27, tableIdx_val va 18, tableIdx_val va 9, tableIdx_val va 0,
    tableIdx_val w 27, tableIdx_val w 18, tableIdx_val w 9, tableIdx_val w 0]
  generalize va / frame = m
  generalize w / frame = n
  omega

theorem canonical_iff (va : Nat) :
    Canonical va ↔ va / frame < 2 ^ 35 ∨ 2 ^ 52 - 2 ^ 35 ≤ va / frame ∧ va / frame < 2 ^ 52 := by
  unfold Canonical frame
  omega

/-- Canonical addresses on one path are on one page. -/
theorem page_eq_of_path_eq (hva : Canonical va) (hw : Canonical w) (h : path va = path w) :
    va / frame = w / frame := by
  rw [canonical_iff] at hva hw
  rw [path_eq_iff] at h
  generalize va / frame = m at *
  generalize w / frame = n at *
  omega

theorem path_congr (h : va / frame = w / frame) : path va = path w := by
  rw [path_eq_iff, h]

theorem canonical_congr (h : va / frame = w / frame) : Canonical va ↔ Canonical w := by
  rw [canonical_iff, canonical_iff, h]

theorem survey_entry (s : Paging) (va : Nat) : (s.survey va).map Prod.snd = s.entry va :=
  Tables.survey_lookup s.mem (ptAddr s.cr3) (path va)

theorem entry_congr_survey (h : s'.survey va = s.survey va) : s'.entry va = s.entry va := by
  rw [← survey_entry, ← survey_entry, h]

theorem SameSurveys.entries (h : SameSurveys s s') : SameEntries s s' :=
  fun va => entry_congr_survey (h va)

theorem SameSurveys.trans {s'' : Paging} (h : SameSurveys s s') (h' : SameSurveys s' s'') :
    SameSurveys s s'' :=
  fun va => (h' va).trans (h va)

theorem SameEntries.walk (h : SameEntries s s') (va : Nat) : walk s' va = walk s va := by
  unfold Mm.walk
  rw [h va]

/-! ## Entries -/

theorem slot_of_absent {left : Nat} {e : BitVec 64} (h : present e = false) :
    slot left e = .empty := by
  unfold slot
  simp [h]

theorem slot_of_present {left : Nat} {e : BitVec 64} (h : present e = true)
    (hleaf : slot left e ≠ .leaf) : slot left e = .table (ptAddr e) := by
  unfold slot at hleaf ⊢
  simp only [h, Bool.not_true, Bool.false_eq_true, if_false] at hleaf ⊢
  split at hleaf
  · exact absurd rfl hleaf
  · exact if_neg ‹_›

/-- What an entry for a table says. -/
theorem slot_table_iff {left : Nat} {e : BitVec 64} {t : Nat} : slot left e = .table t ↔
    present e = true ∧ ¬(left = 0 ∨ left < 3 ∧ large e = true) ∧ ptAddr e = t := by
  unfold slot
  cases present e with
  | false => simp
  | true =>
    simp only [Bool.not_true, Bool.false_eq_true, if_false, true_and]
    split
    · simp [*]
    · simp [*]

theorem slot_three_ne_leaf (e : BitVec 64) : slot 3 e ≠ .leaf := by
  unfold slot
  cases present e <;> simp

theorem slot_one_ne_leaf {e : BitVec 64} (h : large e = false) : slot 1 e ≠ .leaf := by
  unfold slot
  cases present e <;> simp [h]

theorem reach_step (hc : s.reach c = some u) (hlen : c.length < 4)
    (hpresent : present (s.mem u i) = true) (hleaf : slot (3 - c.length) (s.mem u i) ≠ .leaf) :
    s.reach (c ++ [i]) = some (ptAddr (s.mem u i)) := by
  have hlevel : 4 - c.length - 1 = 3 - c.length := by omega
  have hreach := Tables.reach_snoc (i := i) hc hlen
  rw [hlevel, slot_of_present hpresent hleaf] at hreach
  exact hreach

theorem reach_snoc_iff {t : Nat} (hc : s.reach c = some u) (hlen : c.length < 4) :
    s.reach (c ++ [i]) = some t ↔ slot (3 - c.length) (s.mem u i) = .table t := by
  have hlevel : 4 - c.length - 1 = 3 - c.length := by omega
  unfold Paging.reach
  rw [Tables.reach_snoc hc hlen, hlevel]
  cases slot (3 - c.length) (s.mem u i) <;> simp

/-- A path is walked on from the table it has come to. -/
theorem entry_of_reach {rest : List (Fin 512)} (hc : s.reach c = some u) (hpath : path va = c ++ i :: rest) :
    s.entry va = Tables.lookup slot s.mem u (i :: rest) := by
  have hlen : 4 = c.length + (i :: rest).length := by
    rw [← List.length_append, ← hpath]
    rfl
  unfold Paging.entry
  rw [hpath, Tables.lookup_append hc hlen]

theorem entry_none {rest : List (Fin 512)} (hc : s.reach c = some u) (hpath : path va = c ++ i :: rest)
    (habsent : present (s.mem u i) = false) : s.entry va = none := by
  rw [entry_of_reach hc hpath]
  simp only [Tables.lookup, slot_of_absent habsent]

theorem entry_leaf {rest : List (Fin 512)} (hc : s.reach c = some u) (hpath : path va = c ++ i :: rest)
    (hleaf : slot rest.length (s.mem u i) = .leaf) : s.entry va = some (s.mem u i, rest.length) := by
  rw [entry_of_reach hc hpath]
  simp only [Tables.lookup, hleaf]

theorem entry_present {rest : List (Fin 512)} {x : BitVec 64 × Nat} (hc : s.reach c = some u)
    (hpath : path va = c ++ i :: rest) (h : s.entry va = some x) : present (s.mem u i) = true := by
  cases hpresent : present (s.mem u i) with
  | true => rfl
  | false =>
    rw [entry_none hc hpath hpresent] at h
    cases h

/-- The entry of a last table, where a path ends there. -/
theorem entry_last {pt : Nat} {x : BitVec 64 × Nat}
    (hpt : s.reach [tableIdx va 39, tableIdx va 30, tableIdx va 21] = some pt)
    (h : s.entry va = some x) : s.mem pt (tableIdx va 12) = x.1 := by
  rw [entry_of_reach hpt (show path va = [_, _, _] ++ _ :: [] from rfl)] at h
  simp only [Tables.lookup] at h
  split at h
  · cases h
  · exact congrArg Prod.fst (Option.some.inj h)
  · cases h

theorem reach_through {t : Nat} (h : s.reach (c ++ [i]) = some t) : ∃ u, s.reach c = some u := by
  unfold Paging.reach at h
  rw [Tables.reach_append] at h
  obtain ⟨u, hu, -⟩ := Option.bind_eq_some_iff.1 h
  exact ⟨u, hu⟩

theorem reach_present {t : Nat} (hc : s.reach c = some u) (hlen : c.length < 4)
    (h : s.reach (c ++ [i]) = some t) : present (s.mem u i) = true :=
  (slot_table_iff.1 ((reach_snoc_iff hc hlen).1 h)).1

/-! ## Growth -/

theorem Paging.Grown.refl (hs : s.Sound) : s.Grown s :=
  ⟨hs, rfl, fun _ _ _ h => h, fun _ _ _ h => .inl h, subset_rfl, fun _ hf => .inl hf, fun _ _ _ => rfl⟩

theorem Paging.Grown.trans {s'' : Paging} (h : s.Grown s') (h' : s'.Grown s'') : s.Grown s'' := by
  refine ⟨h'.sound, h'.cr3.trans h.cr3, fun c t hlen ht => h'.reach c t hlen (h.reach c t hlen ht),
    fun c t hlen ht => ?_, h'.free.trans h.free, fun f hf => ?_, fun q hq hout => ?_⟩
  · rcases h'.fresh c t hlen ht with hold | hfree
    · exact h.fresh c t hlen hold
    · exact .inr (h.free hfree)
  · rcases h.taken f hf with hfree | ⟨c, hlen, hc⟩
    · exact h'.taken f hfree
    · exact .inr ⟨c, hlen, h'.reach c f hlen hc⟩
  · have hout' : ∀ c, c.length < 4 → s'.reach c ≠ some q := fun c hlen hc =>
      (h.fresh c q hlen hc).elim (hout c hlen) hq
    rw [h'.data q (fun hfree => hq (h.free hfree)) hout', h.data q hq hout]

/-! ## A new table -/

theorem Pmm.take_freeFrames {p : Pmm} {f g : Nat} (h : g ∈ (p.take f 1).freeFrames) :
    g ∈ p.freeFrames ∧ g ≠ f := by
  rw [Pmm.mem_freeFrames] at h ⊢
  obtain ⟨hman, htest⟩ := h
  change Bitmap.test (Bitmap.setRange p.bitmap f 1) g = false at htest
  rw [Bitmap.test_setRange] at htest
  simp only [Bool.or_eq_false_iff, decide_eq_false_iff_not] at htest
  refine ⟨⟨hman, htest.2⟩, fun heq => htest.1 ?_⟩
  omega

theorem Pmm.freeFrames_take (p : Pmm) (f : Nat) : (p.take f 1).freeFrames = p.freeFrames.erase f := by
  ext g
  rw [Finset.mem_erase]
  constructor
  · exact fun h => (Pmm.take_freeFrames h).symm
  · rintro ⟨hne, h⟩
    rw [Pmm.mem_freeFrames] at h ⊢
    refine ⟨h.1, ?_⟩
    change Bitmap.test (Bitmap.setRange p.bitmap f 1) g = false
    rw [Bitmap.test_setRange, h.2, Bool.or_false, decide_eq_false_iff_not]
    omega

theorem pmmAllocFrame_cases {p : Pmm} (htop : p.sTopFrame ≤ maxFrames) :
    (∃ g ∈ p.freeFrames, 0 < g ∧ g < maxFrames ∧ pmmAllocFrame p = some (p.take g 1, g * frame)) ∨
    p.freeFrames = ∅ ∧ pmmAllocFrame p = some (p, 0) := by
  have hfirst : 0 < firstFrame := by decide
  rcases pmmAllocFrameLoop_spec htop (show p.sTopFrame < maxFrames + 1 + firstFrame by omega)
    (Nat.succ_pos _) with ⟨g, hle, hlt, hclear, hrun⟩ | ⟨hnone, hrun⟩
  · exact .inl ⟨g, Pmm.mem_freeFrames.mpr ⟨⟨hle, hlt⟩, hclear⟩, by omega, by omega, hrun⟩
  · refine .inr ⟨Finset.eq_empty_of_forall_notMem fun g hg => ?_, hrun⟩
    obtain ⟨⟨hle, hlt⟩, hclear⟩ := Pmm.mem_freeFrames.1 hg
    rw [hnone g hle hlt] at hclear
    cases hclear

/-- An entry for a new table is hung in. -/
def Paging.link (s : Paging) (u : Nat) (i : Fin 512) (f : Nat) (flags : BitVec 64) : Paging where
  mem := (s.mem.clear f 0).write u i (BitVec.ofNat 64 (f * frame) ||| flags)
  pmm := s.pmm.take f 1
  cr3 := s.cr3

theorem ensureTable_cases (htop : s.pmm.sTopFrame ≤ maxFrames) (u : Nat) (i : Fin 512)
    {flags : BitVec 64} (hflags : LinkFlags flags) :
    (present (s.mem u i) = true ∧ ensureTable s u i flags = some (ptAddr (s.mem u i), s)) ∨
    present (s.mem u i) = false ∧
      ((s.pmm.freeFrames = ∅ ∧ ensureTable s u i flags = some (0, s)) ∨
        ∃ g ∈ s.pmm.freeFrames, 0 < g ∧ g < maxFrames ∧
          ensureTable s u i flags = some (g, s.link u i g flags)) := by
  unfold ensureTable
  cases hpresent : present (s.mem u i) with
  | true => exact .inl ⟨rfl, if_pos rfl⟩
  | false =>
    rw [if_neg Bool.false_ne_true]
    refine .inr ⟨rfl, ?_⟩
    rcases pmmAllocFrame_cases htop with ⟨g, hfree, hpos, hmax, halloc⟩ | ⟨hnone, halloc⟩
    · refine .inr ⟨g, hfree, hpos, hmax, ?_⟩
      have hne : g * frame ≠ 0 := Nat.mul_ne_zero hpos.ne' (by decide)
      have hpage : g * frame / frame = g := Nat.mul_div_cancel g (by decide)
      rw [halloc, Option.bind_some]
      simp only [hne, if_false, hpage, Tables.write_self, ptAddr_link hflags hmax]
      rfl
    · refine .inl ⟨hnone, ?_⟩
      rw [halloc, Option.bind_some]
      exact if_pos rfl

section Link

variable {g : Nat} {flags : BitVec 64} (hs : s.Sound) (hc : s.reach c = some u)
  (hlen : c.length + 1 < 4) (habsent : present (s.mem u i) = false) (hfree : g ∈ s.pmm.freeFrames)
  (hmax : g < maxFrames) (hflags : LinkFlags flags)
include hs hc hlen habsent hfree hmax hflags

theorem Paging.Sound.grows : Tables.Grows slot s.mem 4 (ptAddr s.cr3) c u i g 0
    (BitVec.ofNat 64 (g * frame) ||| flags) where
  tree := hs.tree
  parent := hc
  inner := hlen
  absent := slot_of_absent habsent
  fresh := fun d hd hreach => hs.used d g hd hreach hfree
  zero := slot_zero
  names := slot_link hflags hmax (by omega)

theorem Paging.Sound.grown_link : s.Grown (s.link u i g flags) := by
  have hgrows := hs.grows hc hlen habsent hfree hmax hflags
  refine ⟨⟨hgrows.tree_grown, fun d t hd ht hin => ?_, hs.top⟩, rfl,
    fun d t hd ht => hgrows.reach_mono hd ht, fun d t hd ht => ?_, fun f hf => ?_, fun f hf => ?_,
    fun q hq hout => ?_⟩
  · have hold := Pmm.take_freeFrames hin
    rcases hgrows.reach_cases hd ht with ⟨-, hnew⟩ | hreach
    · exact hold.2 hnew
    · exact hs.used d t hd hreach hold.1
  · rcases hgrows.reach_cases hd ht with ⟨-, rfl⟩ | hreach
    · exact .inr hfree
    · exact .inl hreach
  · exact (Pmm.take_freeFrames hf).1
  · by_cases hf' : f = g
    · rw [hf']
      exact .inr ⟨c ++ [i], by rw [List.length_append]; exact hlen, hgrows.reach_new⟩
    · refine .inl ?_
      change f ∈ (s.pmm.take g 1).freeFrames
      rw [Pmm.freeFrames_take]
      exact Finset.mem_erase.2 ⟨hf', hf⟩
  · have hu : q ≠ u := fun heq => hout c (by omega) (heq ▸ hc)
    have hg : q ≠ g := fun heq => hq (heq ▸ hfree)
    exact (Tables.write_of_ne _ _ _ hu).trans (Function.update_of_ne hg _ _)

theorem Paging.Sound.surveys_link : SameSurveys s (s.link u i g flags) :=
  fun _ => (hs.grows hc hlen habsent hfree hmax hflags).survey_grown rfl

end Link

/-- From one state to the next the path of an address has got further entries for tables, each in a
frame that was taken for it. -/
structure Paging.Lengthened (s s' : Paging) (flags : BitVec 64) (va : Nat) : Prop where
  kept : ∀ e ∈ s.trail va, e ∈ s'.trail va
  new : ∀ e ∈ s'.trail va, e ∈ s.trail va ∨
    ∃ g, 0 < g ∧ g < maxFrames ∧ e = BitVec.ofNat 64 (g * frame) ||| flags
  count : s'.pmm.freeFrames.card + (s'.trail va).length =
    s.pmm.freeFrames.card + (s.trail va).length

/-- The walk has come to a table, and no path ends elsewhere. -/
structure Paging.Led (s s' : Paging) (flags : BitVec 64) (va : Nat) (c : List (Fin 512)) (t : Nat) :
    Prop where
  grown : s.Grown s'
  same : SameSurveys s s'
  reach : s'.reach c = some t
  longer : s.Lengthened s' flags va

theorem Paging.Lengthened.refl (s : Paging) (flags : BitVec 64) (va : Nat) :
    s.Lengthened s flags va :=
  ⟨fun _ h => h, fun _ h => .inl h, rfl⟩

theorem Paging.Lengthened.trans {s'' : Paging} {flags : BitVec 64} (h : s.Lengthened s' flags va)
    (h' : s'.Lengthened s'' flags va) : s.Lengthened s'' flags va := by
  refine ⟨fun e he => h'.kept e (h.kept e he), fun e he => ?_, h'.count.trans h.count⟩
  rcases h'.new e he with hold | hnew
  · exact h.new e hold
  · exact .inr hnew

theorem Paging.Led.trans {s'' : Paging} {flags : BitVec 64} {d : List (Fin 512)} {t v : Nat}
    (h : s.Led s' flags va c t) (h' : s'.Led s'' flags va d v) : s.Led s'' flags va d v :=
  ⟨h.grown.trans h'.grown, h.same.trans h'.same, h'.reach, h.longer.trans h'.longer⟩

theorem lengthened_link {g : Nat} {flags : BitVec 64} {rest : List (Fin 512)} (hs : s.Sound)
    (hpath : path va = c ++ i :: rest) (hc : s.reach c = some u) (hlen : c.length + 1 < 4)
    (habsent : present (s.mem u i) = false) (hfree : g ∈ s.pmm.freeFrames) (hpos : 0 < g)
    (hmax : g < maxFrames) (hflags : LinkFlags flags) :
    s.Lengthened (s.link u i g flags) flags va := by
  have htrail : (s.link u i g flags).trail va =
      s.trail va ++ [BitVec.ofNat 64 (g * frame) ||| flags] := by
    unfold Paging.trail
    rw [hpath]
    exact (hs.grows hc hlen habsent hfree hmax hflags).trail_grown rest
  have hcard : (s.link u i g flags).pmm.freeFrames.card + 1 = s.pmm.freeFrames.card := by
    change (s.pmm.take g 1).freeFrames.card + 1 = _
    rw [Pmm.freeFrames_take]
    exact Finset.card_erase_add_one hfree
  refine ⟨fun e he => ?_, fun e he => ?_, ?_⟩
  · rw [htrail]
    exact List.mem_append_left _ he
  · rw [htrail] at he
    rcases List.mem_append.1 he with hold | hnew
    · exact .inl hold
    · exact .inr ⟨g, hpos, hmax, List.mem_singleton.1 hnew⟩
  · rw [htrail, List.length_append, List.length_singleton]
    omega

/-- The trail of an address whose path has been walked up to a table. -/
theorem trail_of_reach {rest : List (Fin 512)} (hc : s.reach c = some u)
    (hpath : path va = c ++ i :: rest) (hstop : ∀ v, slot (3 - c.length) (s.mem u i) ≠ .table v)
    (hlen : c.length < 4) : (s.trail va).length = c.length := by
  have hlevel : 4 - c.length = 3 - c.length + 1 := by omega
  unfold Paging.trail
  rw [hpath, Tables.trail_append hc, List.length_append, Tables.length_trail hc, hlevel,
    Tables.trail_stop hstop, List.length_nil, Nat.add_zero]

/-- An entry the walk goes through for a table is on the trail. -/
theorem mem_trail {rest : List (Fin 512)} {t : Nat} (hc : s.reach c = some u)
    (hpath : path va = c ++ i :: rest) (hnext : s.reach (c ++ [i]) = some t) (hlen : c.length < 4) :
    s.mem u i ∈ s.trail va := by
  have hlevel : 4 - c.length = 3 - c.length + 1 := by omega
  rw [reach_snoc_iff hc hlen] at hnext
  unfold Paging.trail
  rw [hpath, Tables.trail_append hc, hlevel]
  refine List.mem_append_right _ ?_
  simp only [Tables.trail, hnext, List.mem_cons, true_or]

/-- `ensure_table` comes to the table under the entry, which it makes where there is none, or it
has no frame for it, or the entry names the null page. -/
theorem ensureTable_spec {flags : BitVec 64} {rest : List (Fin 512)} (hs : s.Sound)
    (hpath : path va = c ++ i :: rest) (hc : s.reach c = some u) (hlen : c.length + 1 < 4)
    (hleaf : slot (3 - c.length) (s.mem u i) ≠ .leaf) (hflags : LinkFlags flags) :
    ∃ t s', ensureTable s u i flags = some (t, s') ∧
      (t = 0 ∧ s' = s ∧ ((∃ e ∈ s.trail va, ptAddr e = 0) ∨
          s.pmm.freeFrames.card + (s.trail va).length < 3) ∨
        t ≠ 0 ∧ s.Led s' flags va (c ++ [i]) t ∧ (present (s.mem u i) = true → s' = s) ∧
          (present (s.mem u i) = false → ∀ j, s'.mem t j = 0)) := by
  rcases ensureTable_cases hs.top u i hflags with ⟨hpresent, hrun⟩ |
    ⟨habsent, ⟨hnone, hrun⟩ | ⟨g, hfree, hpos, hmax, hrun⟩⟩
  · have hreach := reach_step hc (by omega) hpresent hleaf
    refine ⟨_, _, hrun, ?_⟩
    by_cases hzero : ptAddr (s.mem u i) = 0
    · exact .inl ⟨hzero, rfl, .inl ⟨_, mem_trail hc hpath hreach (by omega), hzero⟩⟩
    · exact .inr ⟨hzero, ⟨.refl hs, fun _ => rfl, hreach, .refl s flags va⟩, fun _ => rfl,
        fun habsent => by rw [hpresent] at habsent; cases habsent⟩
  · refine ⟨_, _, hrun, .inl ⟨rfl, rfl, .inr ?_⟩⟩
    rw [hnone, Finset.card_empty, trail_of_reach hc hpath
      (fun v hv => by rw [slot_of_absent habsent] at hv; cases hv) (by omega)]
    omega
  · have hgrows := hs.grows hc hlen habsent hfree hmax hflags
    refine ⟨_, _, hrun, .inr ⟨hpos.ne', ⟨hs.grown_link hc hlen habsent hfree hmax hflags,
      hs.surveys_link hc hlen habsent hfree hmax hflags, hgrows.reach_new,
      lengthened_link hs hpath hc hlen habsent hfree hpos hmax hflags⟩, fun hpresent => ?_,
      fun _ j => hgrows.new_empty j⟩⟩
    rw [habsent] at hpresent
    cases hpresent

/-! ## Refusals -/

/-- The path comes to a page directory entry with the bit of a large page, present or not. -/
def Paging.MeetsPs (s : Paging) (va : Nat) : Prop :=
  ∃ pd, s.reach [tableIdx va 39, tableIdx va 30] = some pd ∧ large (s.mem pd (tableIdx va 21)) = true

/-- A page cannot be mapped: an entry on its path names the null page, there is a large page, or
there are fewer free frames than tables missing. -/
def Paging.Refuses (s : Paging) (va : Nat) : Prop :=
  (∃ e ∈ s.trail va, ptAddr e = 0) ∨ s.MeetsPs va ∨ s.pmm.freeFrames.card + (s.trail va).length < 3

/-- The three tables on the path are there, and none is the null page. -/
def Paging.Opened (s : Paging) (va : Nat) : Prop :=
  ∃ pdpt pd pt, (pdpt ≠ 0 ∧ pd ≠ 0 ∧ pt ≠ 0) ∧ s.reach [tableIdx va 39] = some pdpt ∧
    s.reach [tableIdx va 39, tableIdx va 30] = some pd ∧
    s.reach [tableIdx va 39, tableIdx va 30, tableIdx va 21] = some pt

theorem Paging.Opened.grown (h : s.Opened va) (hgrown : s.Grown s') : s'.Opened va := by
  obtain ⟨pdpt, pd, pt, hne, hpdpt, hpd, hpt⟩ := h
  exact ⟨pdpt, pd, pt, hne, hgrown.reach _ _ (by simp) hpdpt, hgrown.reach _ _ (by simp) hpd,
    hgrown.reach _ _ (by simp) hpt⟩

theorem reach_root (s : Paging) : s.reach [] = some (ptAddr s.cr3) := Tables.reach_nil

theorem Paging.Opened.trail (h : s.Opened va) : (s.trail va).length = 3 ∧ ∀ e ∈ s.trail va, ptAddr e ≠ 0 := by
  obtain ⟨pdpt, pd, pt, ⟨hne, hne', hne''⟩, hpdpt, hpd, hpt⟩ := h
  have hslot := (reach_snoc_iff (reach_root s) (by decide)).1 hpdpt
  have hslot' := (reach_snoc_iff hpdpt (by simp)).1 hpd
  have hslot'' := (reach_snoc_iff hpd (by simp)).1 hpt
  simp only [List.length_nil, List.length_cons, Nat.sub_zero, Nat.zero_add, Nat.reduceAdd,
    Nat.reduceSub] at hslot hslot' hslot''
  have hlast : ∀ v, slot 0 (s.mem pt (tableIdx va 12)) ≠ .table v := fun v hv =>
    (slot_table_iff.1 hv).2.1 (.inl rfl)
  have htrail : s.trail va = [s.mem (ptAddr s.cr3) (tableIdx va 39), s.mem pdpt (tableIdx va 30),
      s.mem pd (tableIdx va 21)] := by
    unfold Paging.trail path
    simp only [Tables.trail, hslot, hslot', hslot'']
  rw [htrail]
  refine ⟨rfl, fun e he => ?_⟩
  simp only [List.mem_cons, List.not_mem_nil, or_false] at he
  rcases he with rfl | rfl | rfl
  · rw [(slot_table_iff.1 hslot).2.2]
    exact hne
  · rw [(slot_table_iff.1 hslot').2.2]
    exact hne'
  · rw [(slot_table_iff.1 hslot'').2.2]
    exact hne''

theorem Paging.Opened.not_refuses (h : s.Opened va) : ¬s.Refuses va := by
  obtain ⟨hlen, hne⟩ := h.trail
  rintro (⟨e, he, hzero⟩ | ⟨pd, hpd, hlarge⟩ | hshort)
  · exact hne e he hzero
  · obtain ⟨pdpt, pd', pt, -, -, hpd', hpt⟩ := h
    rw [hpd] at hpd'
    cases hpd'
    have hslot := (slot_table_iff.1 ((reach_snoc_iff hpd (by simp)).1 hpt)).2.1
    exact hslot (.inr ⟨by simp, hlarge⟩)
  · omega

/-! ## One page -/

/-- No 1 GiB entry translates the address. -/
def Paging.NoGib (s : Paging) (va : Nat) : Prop := ∀ e, s.entry va ≠ some (e, 2)

/-- The path of an address now ends at the given entry of a last table, if that is present, and no
other path ends elsewhere. -/
structure Paging.Stored (s s' : Paging) (va : Nat) (e : BitVec 64) : Prop where
  grown : s.Grown s'
  others : ∀ w, path w ≠ path va → s'.survey w = s.survey w
  self : s'.survey va =
    if present e then some ((s'.trail va).map (· &&& ~~~ptMask), e, 0) else none
  small : ∀ x left, s.entry va = some (x, left) → left = 0

theorem Paging.Stored.after {s'' : Paging} {e : BitVec 64} (hgrown : s.Grown s')
    (hsame : SameSurveys s s') (h : s'.Stored s'' va e) : s.Stored s'' va e := by
  refine ⟨hgrown.trans h.grown, fun w hw => (h.others w hw).trans (hsame w), h.self, fun x left hx => ?_⟩
  rw [← hsame.entries va] at hx
  exact h.small x left hx

theorem Paging.Stored.entry_self {e : BitVec 64} (h : s.Stored s' va e) :
    s'.entry va = if present e then some (e, 0) else none := by
  rw [← survey_entry, h.self]
  split <;> rfl

theorem Paging.Stored.entry_others {e : BitVec 64} (h : s.Stored s' va e) (hw : path w ≠ path va) :
    s'.entry w = s.entry w :=
  entry_congr_survey (h.others w hw)

theorem Paging.Stored.noGib {e : BitVec 64} (h : s.Stored s' va e) (hw : s.NoGib w) : s'.NoGib w := by
  intro x hx
  by_cases hpath : path w = path va
  · have hentry : s'.entry w = s'.entry va := by unfold Paging.entry; rw [hpath]
    rw [hentry, h.entry_self] at hx
    split at hx
    · cases hx
    · cases hx
  · rw [h.entry_others hpath] at hx
    exact hw x hx

/-- No entry of a last table names a table. -/
theorem trail_upper {pt : Nat}
    (hpt : s.reach [tableIdx va 39, tableIdx va 30, tableIdx va 21] = some pt) :
    s.trail va =
      Tables.trail slot s.mem 4 (ptAddr s.cr3) [tableIdx va 39, tableIdx va 30, tableIdx va 21] := by
  have hstop : ∀ v, slot 0 (s.mem pt (tableIdx va 12)) ≠ .table v :=
    fun v hv => (slot_table_iff.1 hv).2.1 (.inl rfl)
  have hsplit := Tables.trail_append hpt [tableIdx va 12]
  rw [show 4 - [tableIdx va 39, tableIdx va 30, tableIdx va 21].length = 0 + 1 from rfl,
    Tables.trail_stop hstop, List.append_nil] at hsplit
  exact hsplit

section Write

variable {pt : Nat} (hs : s.Sound)
  (hpt : s.reach [tableIdx va 39, tableIdx va 30, tableIdx va 21] = some pt) (e : BitVec 64)
include hs hpt

theorem Paging.Sound.trail_write :
    Paging.trail { s with mem := s.mem.write pt (tableIdx va 12) e } va = s.trail va := by
  have hpt' : Paging.reach { s with mem := s.mem.write pt (tableIdx va 12) e }
      [tableIdx va 39, tableIdx va 30, tableIdx va 21] = some pt :=
    (hs.tree.reach_writeLast hpt rfl e (by simp)).trans hpt
  rw [trail_upper hpt', trail_upper hpt]
  refine (hs.tree.agree_write hpt (by simp) e (fun hpre => ?_) (by simp)).trail
  have := hpre.length_le
  simp at this

/-- A store in a last table is seen by the walks of its page and by no others. -/
theorem Paging.Sound.stored (hsmall : ∀ x left, s.entry va = some (x, left) → left = 0) :
    s.Stored { s with mem := s.mem.write pt (tableIdx va 12) e } va e := by
  have hreach : ∀ (c : List (Fin 512)), c.length < 4 →
      Paging.reach { s with mem := s.mem.write pt (tableIdx va 12) e } c = s.reach c :=
    fun c hc => hs.tree.reach_writeLast hpt rfl e hc
  refine ⟨⟨⟨hs.tree.writeLast hpt rfl e, fun c t hc ht => hs.used c t hc ?_, hs.top⟩, rfl,
    fun c t hc ht => (hreach c hc).trans ht, fun c t hc ht => .inl ((hreach c hc).symm.trans ht),
    subset_rfl, fun f hf => .inl hf, fun q _ hout => ?_⟩, fun w hw => ?_, ?_, hsmall⟩
  · exact (hreach c hc).symm.trans ht
  · exact Tables.write_of_ne _ _ _ fun heq => hout _ (by simp) (heq ▸ hpt)
  · exact hs.tree.survey_writeLast_of_ne hpt rfl e rfl hw
  · rw [hs.trail_write hpt e, trail_upper hpt]
    refine (hs.tree.survey_writeLast_self hpt rfl e).trans ?_
    cases hpresent : present e with
    | false => rw [slot_of_absent hpresent, if_neg Bool.false_ne_true]
    | true =>
      have hleaf : slot 0 e = .leaf := by
        unfold slot
        simp [hpresent]
      rw [hleaf, if_pos rfl]

end Write

/-- Where the walk has come to the page directory and its entry is no large page, the translation
is that of a 4 KiB page. -/
theorem small_of_directory {pd : Nat} (hpd : s.reach [tableIdx va 39, tableIdx va 30] = some pd)
    (hlarge : large (s.mem pd (tableIdx va 21)) = false) {x : BitVec 64} {left : Nat}
    (h : s.entry va = some (x, left)) : left = 0 := by
  rw [entry_of_reach hpd (show path va = [_, _] ++ _ :: [tableIdx va 12] from rfl)] at h
  simp only [Tables.lookup, List.length_cons, List.length_nil] at h
  cases hslot : slot (0 + 1) (s.mem pd (tableIdx va 21)) with
  | empty =>
    rw [hslot] at h
    cases h
  | leaf => exact absurd hslot (slot_one_ne_leaf hlarge)
  | table v =>
    rw [hslot] at h
    dsimp only at h
    split at h
    · cases h
    · exact (congrArg Prod.snd (Option.some.inj h)).symm
    · cases h

/-- On the way to the page directory no entry ends the walk. -/
theorem slot_two_ne_leaf (hgib : s.NoGib va) {pdpt : Nat} (hpdpt : s.reach [tableIdx va 39] = some pdpt) :
    slot 2 (s.mem pdpt (tableIdx va 30)) ≠ .leaf :=
  fun hleaf => hgib _ (entry_leaf hpdpt
    (show path va = [_] ++ _ :: [tableIdx va 21, tableIdx va 12] from rfl) hleaf)

/-- What one turn of the mapping loop does to its page, if it is not refused. -/
structure Paging.Mapped (s s' : Paging) (va : Nat) (e : BitVec 64) : Prop extends s.Stored s' va e where
  allowed : ¬s.Refuses va
  longer : s.Lengthened s' tblFlags va
  opened : s'.Opened va
  same : s.entry va = some (e, 0) → s' = s

/-- What `ensure_table` has found amiss on the path was so before. -/
theorem Paging.Lengthened.refuses {flags : BitVec 64} (h : s.Lengthened s' flags va)
    (hflags : LinkFlags flags)
    (hwhy : (∃ e ∈ s'.trail va, ptAddr e = 0) ∨ s'.pmm.freeFrames.card + (s'.trail va).length < 3) :
    s.Refuses va := by
  rcases hwhy with ⟨e, he, hzero⟩ | hshort
  · rcases h.new e he with hold | ⟨g, hpos, hmax, rfl⟩
    · exact .inl ⟨e, hold, hzero⟩
    · rw [ptAddr_link hflags hmax] at hzero
      omega
  · refine .inr (.inr ?_)
    rw [← h.count]
    exact hshort

/-- Whether a page is refused is decided by what there was before. -/
theorem Paging.Lengthened.not_refuses {flags : BitVec 64} (h : s.Lengthened s' flags va)
    (hopened : s'.Opened va) (hps : ¬s.MeetsPs va) : ¬s.Refuses va := by
  obtain ⟨hlen, hne⟩ := hopened.trail
  have hcount := h.count
  rintro (⟨e, he, hzero⟩ | hmeets | hshort)
  · exact hne e (h.kept e he) hzero
  · exact hps hmeets
  · omega

theorem write_same {pt : Nat} (he : s.mem pt i = e') : { s with mem := s.mem.write pt i e' } = s := by
  have hwrite : s.mem.write pt i e' = s.mem := by
    unfold Tables.write
    rw [← he, Function.update_eq_self, Function.update_eq_self]
  rw [hwrite]

/-- One turn of the mapping loop. -/
theorem mapPage_spec (hs : s.Sound) (hgib : s.NoGib va) (p : Nat) (pteFlags : BitVec 64) :
    ∃ r s', mapPage s va p tblFlags pteFlags = some (r, s') ∧
      (r = 0 ∧ s.Grown s' ∧ SameSurveys s s' ∧ s.Refuses va ∨
        r = 1 ∧ s.Mapped s' va ((BitVec.ofNat 64 p &&& ptMask) ||| pteFlags)) := by
  obtain ⟨pdpt, s1, hrun1, ⟨rfl, rfl, hwhy⟩ | ⟨hne1, hled1, hkept1, hnew1⟩⟩ :=
    ensureTable_spec hs (show path va = [] ++ tableIdx va 39 :: _ from rfl) (reach_root s) (by decide)
      (slot_three_ne_leaf _) tblFlags_link
  · unfold mapPage
    rw [hrun1, Option.bind_some]
    exact ⟨0, s1, if_pos rfl, .inl ⟨rfl, .refl hs, fun _ => rfl,
      (Paging.Lengthened.refl s1 tblFlags va).refuses tblFlags_link hwhy⟩⟩
  have hgib1 : s1.NoGib va := by
    intro x
    rw [hled1.same.entries va]
    exact hgib x
  obtain ⟨pd, s2, hrun2, ⟨rfl, rfl, hwhy⟩ | ⟨hne2, hled2, hkept2, hnew2⟩⟩ :=
    ensureTable_spec hled1.grown.sound (show path va = [tableIdx va 39] ++ tableIdx va 30 :: _ from rfl)
      hled1.reach (by simp) (slot_two_ne_leaf hgib1 hled1.reach) tblFlags_link
  · unfold mapPage
    rw [hrun1, Option.bind_some]
    simp only [hne1, if_false, hrun2, Option.bind_some]
    exact ⟨0, s2, if_pos trivial, .inl ⟨rfl, hled1.grown, hled1.same,
      hled1.longer.refuses tblFlags_link hwhy⟩⟩
  have hled := hled1.trans hled2
  -- The page directory is as it was, or new and empty.
  have hold : large (s2.mem pd (tableIdx va 21)) = true → s2 = s := by
    intro hlarge
    cases hpdpte : present (s1.mem pdpt (tableIdx va 30)) with
    | false =>
      rw [hnew2 hpdpte] at hlarge
      cases hlarge
    | true =>
      rw [hkept2 hpdpte]
      cases hpml4e : present (s.mem (ptAddr s.cr3) (tableIdx va 39)) with
      | false =>
        rw [hnew1 hpml4e] at hpdpte
        cases hpdpte
      | true => exact hkept1 hpml4e
  have hps : s.MeetsPs va → large (s2.mem pd (tableIdx va 21)) = true := by
    rintro ⟨pd', hpd', hlarge⟩
    obtain ⟨pdpt', hpdpt'⟩ := reach_through (c := [tableIdx va 39]) hpd'
    have hpml4e := reach_present (reach_root s) (by decide) (c := []) hpdpt'
    have hs1 := hkept1 hpml4e
    have hpdpte := reach_present hled1.reach (by simp) (hs1.symm ▸ hpd')
    have hs2 := (hkept2 hpdpte).trans hs1
    have hpd : s2.reach [tableIdx va 39, tableIdx va 30] = some pd := hled.reach
    rw [hs2, hpd'] at hpd
    cases hpd
    rw [hs2]
    exact hlarge
  cases hlarge : large (s2.mem pd (tableIdx va 21)) with
  | true =>
    unfold mapPage
    rw [hrun1, Option.bind_some]
    simp only [hne1, if_false, hrun2, Option.bind_some, hne2, hlarge, if_true]
    refine ⟨0, s2, rfl, .inl ⟨rfl, hled.grown, hled.same, .inr (.inl ⟨pd, ?_, ?_⟩)⟩⟩
    · rw [← hold hlarge]
      exact hled.reach
    · rw [← hold hlarge]
      exact hlarge
  | false =>
    obtain ⟨pt, s3, hrun3, ⟨rfl, rfl, hwhy⟩ | ⟨hne3, hled3, hkept3, hnew3⟩⟩ :=
      ensureTable_spec hled.grown.sound
        (show path va = [tableIdx va 39, tableIdx va 30] ++ tableIdx va 21 :: _ from rfl) hled.reach
        (by simp) (slot_one_ne_leaf hlarge) tblFlags_link
    · unfold mapPage
      rw [hrun1, Option.bind_some]
      simp only [hne1, if_false, hrun2, Option.bind_some, hne2, hlarge, hrun3, Bool.false_eq_true]
      exact ⟨0, s3, if_pos trivial, .inl ⟨rfl, hled.grown, hled.same,
        hled.longer.refuses tblFlags_link hwhy⟩⟩
    · have hled' := hled.trans hled3
      have hsmall : ∀ x left, s3.entry va = some (x, left) → left = 0 := by
        rw [hled3.same.entries va]
        exact fun x left hx => small_of_directory hled.reach hlarge hx
      have hstored := hled'.grown.sound.stored hled'.reach
        ((BitVec.ofNat 64 p &&& ptMask) ||| pteFlags) hsmall
      have hopened : s3.Opened va := ⟨pdpt, pd, pt, ⟨hne1, hne2, hne3⟩,
        hled3.grown.reach _ _ (by simp) (hled2.grown.reach _ _ (by simp) hled1.reach),
        hled3.grown.reach _ _ (by simp) hled2.reach, hled3.reach⟩
      unfold mapPage
      rw [hrun1, Option.bind_some]
      simp only [hne1, if_false, hrun2, Option.bind_some, hne2, hlarge, hrun3, Bool.false_eq_true, hne3]
      refine ⟨1, _, rfl, .inr ⟨rfl, .mk (hstored.after hled'.grown hled'.same)
        (hled'.longer.not_refuses hopened fun hmeets => ?_) ?_ (hopened.grown hstored.grown)
        fun hentry => ?_⟩⟩
      · rw [hps hmeets] at hlarge
        cases hlarge
      · have htrail := hled'.grown.sound.trail_write hled'.reach
          ((BitVec.ofNat 64 p &&& ptMask) ||| pteFlags)
        refine hled'.longer.trans ⟨fun x hx => ?_, fun x hx => ?_, ?_⟩
        · rw [htrail]
          exact hx
        · rw [htrail] at hx
          exact .inl hx
        · rw [htrail]
      · have hs1 := hkept1 (entry_present (reach_root s) (show path va = [] ++ _ :: _ from rfl) hentry)
        rw [← hs1] at hentry
        have hs2 := hkept2 (entry_present hled1.reach
          (show path va = [tableIdx va 39] ++ _ :: _ from rfl) hentry)
        rw [← hs2] at hentry
        have hs3 := hkept3 (entry_present hled2.reach
          (show path va = [tableIdx va 39, tableIdx va 30] ++ _ :: _ from rfl) hentry)
        rw [← hs3] at hentry
        rw [write_same (entry_last hled3.reach hentry), hs3, hs2, hs1]

/-- What one turn of the unmapping loop does to its page, if it is not refused. -/
structure Paging.Unmapped (s s' : Paging) (va : Nat) : Prop extends s.Stored s' va 0 where
  allowed : ¬s.MeetsPs va
  meetsPs : ∀ w, s'.MeetsPs w ↔ s.MeetsPs w

theorem Paging.Unmapped.nothing (hs : s.Sound) (hnone : s.entry va = none) (hps : ¬s.MeetsPs va) :
    s.Unmapped s va := by
  refine .mk ⟨.refl hs, fun _ _ => rfl, Tables.survey_of_lookup_none hnone, fun x left hx => ?_⟩ hps
    fun _ => Iff.rfl
  rw [hnone] at hx
  cases hx

theorem meetsPs_write {pt : Nat} (hs : s.Sound)
    (hpt : s.reach [tableIdx va 39, tableIdx va 30, tableIdx va 21] = some pt) (e : BitVec 64) (w : Nat) :
    Paging.MeetsPs { s with mem := s.mem.write pt (tableIdx va 12) e } w ↔ s.MeetsPs w := by
  have hreach : Paging.reach { s with mem := s.mem.write pt (tableIdx va 12) e }
      [tableIdx w 39, tableIdx w 30] = s.reach [tableIdx w 39, tableIdx w 30] :=
    hs.tree.reach_writeLast hpt rfl e (by simp)
  unfold Paging.MeetsPs
  rw [hreach]
  refine exists_congr fun pd => and_congr_right fun hpd => ?_
  have hne : pd ≠ pt := by
    rintro rfl
    have hlength := congrArg List.length (hs.tree _ _ pd (by simp) (by simp) hpd hpt)
    simp at hlength
  dsimp only
  rw [Tables.write_of_ne _ _ _ hne]

/-- One turn of the unmapping loop. -/
theorem unmapPage_spec (hs : s.Sound) (hgib : s.NoGib va) :
    ∃ r s', unmapPage s va = (r, s') ∧
      (r = 0 ∧ s' = s ∧ s.MeetsPs va ∨ r = 1 ∧ s.Unmapped s' va) := by
  have hroot := reach_root s
  unfold unmapPage
  simp only
  cases hpml4e : present (s.mem (ptAddr s.cr3) (tableIdx va 39)) with
  | false =>
    refine ⟨1, s, rfl, .inr ⟨rfl, .nothing hs (entry_none hroot rfl hpml4e) ?_⟩⟩
    rintro ⟨pd, hpd, -⟩
    obtain ⟨pdpt, hpdpt⟩ := reach_through (c := [tableIdx va 39]) hpd
    rw [reach_present hroot (by decide) (c := []) hpdpt] at hpml4e
    cases hpml4e
  | true =>
    have hpdpt := reach_step hroot (by decide) hpml4e (slot_three_ne_leaf _)
    have hleaf := slot_two_ne_leaf hgib hpdpt
    generalize ptAddr (s.mem (ptAddr s.cr3) (tableIdx va 39)) = pdpt at *
    simp only [Bool.not_true, Bool.false_eq_true, if_false]
    cases hpdpte : present (s.mem pdpt (tableIdx va 30)) with
    | false =>
      refine ⟨1, s, rfl, .inr ⟨rfl, .nothing hs (entry_none hpdpt rfl hpdpte) ?_⟩⟩
      rintro ⟨pd, hpd, -⟩
      rw [reach_present hpdpt (by simp) hpd] at hpdpte
      cases hpdpte
    | true =>
      have hpd := reach_step hpdpt (by simp) hpdpte hleaf
      generalize ptAddr (s.mem pdpt (tableIdx va 30)) = pd at *
      simp only [Bool.not_true, Bool.false_eq_true, if_false]
      cases hlarge : large (s.mem pd (tableIdx va 21)) with
      | true => exact ⟨0, s, rfl, .inl ⟨rfl, rfl, pd, hpd, hlarge⟩⟩
      | false =>
        have hps : ¬s.MeetsPs va := by
          rintro ⟨pd', hpd', hlarge'⟩
          rw [show s.reach [tableIdx va 39, tableIdx va 30] = some pd from hpd] at hpd'
          cases hpd'
          rw [hlarge] at hlarge'
          cases hlarge'
        cases hpde : present (s.mem pd (tableIdx va 21)) with
        | false => exact ⟨1, s, rfl, .inr ⟨rfl, .nothing hs (entry_none hpd rfl hpde) hps⟩⟩
        | true =>
          have hpt := reach_step hpd (by simp) hpde (slot_one_ne_leaf hlarge)
          exact ⟨1, _, rfl, .inr ⟨rfl, .mk (hs.stored hpt 0 fun x left hx => small_of_directory hpd hlarge hx)
            hps (meetsPs_write hs hpt 0)⟩⟩

end MeuOS.Mm
