import MeuOS.Mm.PagingRuns
import MeuOS.Mm.PmmRuns

/-! A new address space: the first three tables are copies, and everything behind them is shared
with the space that was current. -/
namespace MeuOS.Mm

open MeuOS.Lib

/-! ## Making one -/

/-- `clone_table`; also the allocation and the copying loop that `mm_create_address_space` writes
out for the PDPT and the PML4. -/
def cloneTable (s : Paging) (src : Nat) : Option (Nat × Paging) :=
  (pmmAllocFrame s.pmm).bind fun (pmm, f) =>
    if f = 0 then some (0, { s with pmm := pmm })
    else some (f, { s with mem := s.mem.copy (f / frame) src, pmm := pmm })

/-- `(entry & ~PT_MASK) | (f & PT_MASK)`. -/
def repoint (entry : BitVec 64) (f : Nat) : BitVec 64 :=
  (entry &&& ~~~ptMask) ||| (BitVec.ofNat 64 f &&& ptMask)

def mmCreateAddressSpace (s : Paging) : Option (Nat × Paging) :=
  let kpml4 := ptAddr s.cr3
  if !present (s.mem kpml4 0) then some (0, s) else
  let kpdpt := ptAddr (s.mem kpml4 0)
  if !present (s.mem kpdpt 0) then some (0, s) else
  let kpd := ptAddr (s.mem kpdpt 0)
  (cloneTable s kpd).bind fun (newPd, s) =>
    if newPd = 0 then some (0, s) else
    (cloneTable s kpdpt).bind fun (newPdpt, s) =>
      if newPdpt = 0 then some (0, { s with pmm := pmmFreeFrame s.pmm newPd }) else
      let s := { s with mem := s.mem.write (newPdpt / frame) 0 (repoint (s.mem kpdpt 0) newPd) }
      (cloneTable s kpml4).bind fun (newPml4, s) =>
        if newPml4 = 0 then
          some (0, { s with pmm := pmmFreeFrame (pmmFreeFrame s.pmm newPd) newPdpt })
        else
          some (newPml4,
            { s with mem := s.mem.write (newPml4 / frame) 0 (repoint (s.mem kpml4 0) newPdpt) })

/-- The space behind another `cr3`. -/
def Paging.under (s : Paging) (cr3 : Nat) : Paging := { s with cr3 := BitVec.ofNat 64 cr3 }

/-! ## What an access sees -/

def pgNx : BitVec 64 := 0x8000000000000000

/-- The translation, and what the entries on the way to it allow. -/
structure Access where
  translation : Translation
  writable : Bool
  user : Bool
  noExecute : Bool
deriving DecidableEq

/-- Address bits inside a large page; the lowest of them is its PAT bit. -/
def reserved (left : Nat) (entry : BitVec 64) : Bool := ptAddr entry % 512 ^ left / 2 != 0

def Paging.access (s : Paging) (va : Nat) : Option Access :=
  if Canonical va then
    (s.survey va).bind fun (above, entry, left) =>
      if reserved left entry then none
      else some
        { translation := translation va entry left
          writable := (entry :: above).all fun e => e &&& pgRw != 0
          user := (entry :: above).all fun e => e &&& pgUser != 0
          noExecute := (entry :: above).any fun e => e &&& pgNx != 0 }
  else none

/-- An access goes where the walk goes. -/
theorem access_walk {s : Paging} {va : Nat} {a : Access} (h : s.access va = some a) :
    walk s va = some a.translation := by
  unfold Paging.access at h
  unfold walk Paging.entry
  by_cases hcan : Canonical va
  · rw [if_pos hcan] at h ⊢
    obtain ⟨⟨above, entry, left⟩, hsurvey, hallowed⟩ := Option.bind_eq_some_iff.1 h
    rw [← Tables.survey_lookup, show Tables.survey slot (· &&& ~~~ptMask) s.mem
      (ptAddr s.cr3) (path va) = some (above, entry, left) from hsurvey]
    dsimp only at hallowed
    by_cases hres : reserved left entry = true
    · rw [if_pos hres] at hallowed
      cases hallowed
    · rw [if_neg hres] at hallowed
      cases hallowed
      rfl
  · rw [if_neg hcan] at h
    cases h

theorem access_congr {s s' : Paging} {va : Nat} (h : s'.survey va = s.survey va) :
    s'.access va = s.access va := by
  unfold Paging.access
  rw [h]

/-! ## Entries -/

section Entries

variable (e : BitVec 64) {f : Nat}

theorem repoint_getLsbD {i : Nat} (hi : ptMask.getLsbD i = false) (hlt : i < 64) :
    (repoint e f).getLsbD i = e.getLsbD i := by
  unfold repoint
  simp only [BitVec.getLsbD_or, BitVec.getLsbD_and, BitVec.getLsbD_not, hi, hlt, decide_true,
    Bool.not_false, Bool.and_true, Bool.and_false, Bool.or_false]

theorem present_repoint : present (repoint e f) = present e := by
  rw [present_eq, present_eq]
  exact repoint_getLsbD e (by decide) (by decide)

theorem large_repoint : large (repoint e f) = large e := by
  rw [large_eq, large_eq]
  exact repoint_getLsbD e (by decide) (by decide)

theorem ptAddr_repoint (hf : f < maxFrames) : ptAddr (repoint e (f * frame)) = f := by
  rw [maxFrames_eq] at hf
  unfold repoint
  rw [ptAddr_or, ptAddr_and_ptMask, ptAddr_ofNat]
  have hflags : ptAddr (e &&& ~~~ptMask) = 0 := by
    unfold ptAddr
    rw [BitVec.and_assoc, BitVec.and_comm (~~~ptMask), BitVec.and_not_self]
    rw [show (e &&& 0 : BitVec 64) = 0 from BitVec.and_zero]
    rfl
  rw [hflags, Nat.zero_or]
  omega

theorem flags_repoint : repoint e f &&& ~~~ptMask = e &&& ~~~ptMask := by
  ext i hi
  unfold repoint
  simp only [BitVec.getElem_and, BitVec.getElem_or, BitVec.getElem_not]
  cases ptMask[i] <;> simp

end Entries

/-! ## The frame allocator -/

section Frames

variable {p : Pmm} {f : Nat}

theorem Pmm.freeFrames_free (htop : p.sTopFrame ≤ maxFrames) (hf : p.Managed f) :
    (pmmFreeFrame p (f * frame)).freeFrames = insert f p.freeFrames := by
  ext g
  rw [Finset.mem_insert, Pmm.mem_freeFrames, Pmm.mem_freeFrames, ← Bool.not_eq_true,
    pmmFreeFrame_test, Nat.mul_div_cancel f frame_pos]
  unfold Pmm.Managed at hf ⊢
  rw [pmmFreeFrame_sTopFrame]
  constructor
  · rintro ⟨hman, htest⟩
    by_cases hg : g = f
    · exact .inl hg
    · refine .inr ⟨hman, Bool.eq_false_iff.2 fun hset => htest ⟨hset, fun hboth => hg hboth.1⟩⟩
  · rintro (rfl | ⟨hman, htest⟩)
    · exact ⟨hf, fun hboth => hboth.2 ⟨rfl, by omega⟩⟩
    · exact ⟨hman, fun hboth => by rw [htest] at hboth; exact Bool.false_ne_true hboth.1⟩

theorem Pmm.freeFrames_undo (htop : p.sTopFrame ≤ maxFrames) (hf : f ∈ p.freeFrames) :
    (pmmFreeFrame (p.take f 1) (f * frame)).freeFrames = p.freeFrames := by
  rw [Pmm.freeFrames_free (p := p.take f 1) htop (Pmm.mem_freeFrames.1 hf).1, Pmm.freeFrames_take,
    Finset.insert_erase hf]

/-- Both frames go back, the first one taken first. -/
theorem Pmm.freeFrames_undo_two {g : Nat} (htop : p.sTopFrame ≤ maxFrames) (hf : f ∈ p.freeFrames)
    (hg : g ∈ p.freeFrames) (hne : g ≠ f) :
    (pmmFreeFrame (pmmFreeFrame ((p.take f 1).take g 1) (f * frame)) (g * frame)).freeFrames =
      p.freeFrames := by
  have hman : (pmmFreeFrame ((p.take f 1).take g 1) (f * frame)).Managed g := by
    unfold Pmm.Managed
    rw [pmmFreeFrame_sTopFrame]
    exact (Pmm.mem_freeFrames.1 hg).1
  have htop' : (pmmFreeFrame ((p.take f 1).take g 1) (f * frame)).sTopFrame ≤ maxFrames := by
    rw [pmmFreeFrame_sTopFrame]
    exact htop
  rw [Pmm.freeFrames_free htop' hman,
    Pmm.freeFrames_free (p := (p.take f 1).take g 1) htop (Pmm.mem_freeFrames.1 hf).1,
    Pmm.freeFrames_take, Pmm.freeFrames_take, ← Finset.erase_insert_of_ne hne.symm,
    Finset.insert_erase hf, Finset.insert_erase hg]

end Frames

/-! ## The call -/

section Call

variable {s : Paging}

theorem cloneTable_cases (htop : s.pmm.sTopFrame ≤ maxFrames) (src : Nat) :
    (∃ g ∈ s.pmm.freeFrames, 0 < g ∧ g < maxFrames ∧ cloneTable s src =
      some (g * frame, { s with mem := s.mem.copy g src, pmm := s.pmm.take g 1 })) ∨
    cloneTable s src = some (0, s) := by
  unfold cloneTable
  rcases pmmAllocFrame_cases htop with ⟨g, hfree, hpos, hmax, halloc⟩ | ⟨-, halloc⟩
  · refine .inl ⟨g, hfree, hpos, hmax, ?_⟩
    rw [halloc, Option.bind_some]
    dsimp only
    rw [if_neg (Nat.mul_ne_zero hpos.ne' (by decide)), Nat.mul_div_cancel g frame_pos]
  · refine .inr ?_
    rw [halloc, Option.bind_some]
    exact if_pos rfl

/-- Three pages the allocator held free. -/
structure NewFrames (s : Paging) (pd pdpt pml4 : Nat) : Prop where
  free : pd ∈ s.pmm.freeFrames ∧ pdpt ∈ s.pmm.freeFrames ∧ pml4 ∈ s.pmm.freeFrames
  distinct : pdpt ≠ pd ∧ pml4 ≠ pd ∧ pml4 ≠ pdpt
  small : pd < maxFrames ∧ pdpt < maxFrames ∧ pml4 < maxFrames
  nonzero : 0 < pml4

/-- `kpml4`, `kpdpt` and `kpd`: the PML4, and the tables of its first 512 GiB and first GiB. -/
def Paging.ownTables (s : Paging) : List Nat :=
  [ptAddr s.cr3, ptAddr (s.mem (ptAddr s.cr3) 0), ptAddr (s.mem (ptAddr (s.mem (ptAddr s.cr3) 0)) 0)]

def pdptMem (s : Paging) (pd pdpt : Nat) : Tables (Fin 512) (BitVec 64) :=
  let kpdpt := ptAddr (s.mem (ptAddr s.cr3) 0)
  let m := (s.mem.copy pd (ptAddr (s.mem kpdpt 0))).copy pdpt kpdpt
  m.write pdpt 0 (repoint (m kpdpt 0) (pd * frame))

def pml4Mem (s : Paging) (pd pdpt pml4 : Nat) : Tables (Fin 512) (BitVec 64) :=
  let m := (pdptMem s pd pdpt).copy pml4 (ptAddr s.cr3)
  m.write pml4 0 (repoint (m (ptAddr s.cr3) 0) (pdpt * frame))

/-- Either nothing has been taken, or the new tables are in three pages that were free. -/
theorem mmCreateAddressSpace_cases (htop : s.pmm.sTopFrame ≤ maxFrames) :
    ∃ cr3 s', mmCreateAddressSpace s = some (cr3, s') ∧
      (cr3 = 0 ∧ s'.pmm.freeFrames = s.pmm.freeFrames ∨
        ∃ pd pdpt pml4, NewFrames s pd pdpt pml4 ∧ cr3 = pml4 * frame ∧
          present (s.mem (ptAddr s.cr3) 0) = true ∧
          present (s.mem (ptAddr (s.mem (ptAddr s.cr3) 0)) 0) = true ∧
          s'.mem = pml4Mem s pd pdpt pml4 ∧ s'.cr3 = s.cr3) := by
  unfold mmCreateAddressSpace
  dsimp only
  by_cases hpml4e : (!present (s.mem (ptAddr s.cr3) 0)) = true
  · rw [if_pos hpml4e]
    exact ⟨0, s, rfl, .inl ⟨rfl, rfl⟩⟩
  by_cases hpdpte : (!present (s.mem (ptAddr (s.mem (ptAddr s.cr3) 0)) 0)) = true
  · rw [if_neg hpml4e, if_pos hpdpte]
    exact ⟨0, s, rfl, .inl ⟨rfl, rfl⟩⟩
  rw [if_neg hpml4e, if_neg hpdpte]
  rcases cloneTable_cases htop (ptAddr (s.mem (ptAddr (s.mem (ptAddr s.cr3) 0)) 0)) with
    ⟨pd, hpd, hpdpos, hpdmax, hclone⟩ | hclone
  case inr =>
    rw [hclone, Option.bind_some]
    exact ⟨0, s, rfl, .inl ⟨rfl, rfl⟩⟩
  have hne : ∀ {g : Nat}, 0 < g → g * frame ≠ 0 := fun hg => Nat.mul_ne_zero hg.ne' (by decide)
  rw [hclone, Option.bind_some]
  dsimp only
  rw [if_neg (hne hpdpos)]
  generalize hs₁ : ({ s with mem := _, pmm := s.pmm.take pd 1 } : Paging) = s₁
  have htop₁ : s₁.pmm.sTopFrame ≤ maxFrames := hs₁ ▸ htop
  rcases cloneTable_cases htop₁ (ptAddr (s.mem (ptAddr s.cr3) 0)) with
    ⟨pdpt, hpdpt, hpdptpos, hpdptmax, hclone'⟩ | hclone'
  case inr =>
    rw [hclone', Option.bind_some]
    refine ⟨0, _, if_pos rfl, .inl ⟨rfl, ?_⟩⟩
    rw [← hs₁]
    exact Pmm.freeFrames_undo htop hpd
  rw [← hs₁] at hpdpt
  dsimp only at hpdpt
  rw [Pmm.freeFrames_take, Finset.mem_erase] at hpdpt
  rw [hclone', Option.bind_some]
  dsimp only
  rw [if_neg (hne hpdptpos), Nat.mul_div_cancel pdpt frame_pos]
  generalize hs₂ : ({ s₁ with mem := _, pmm := s₁.pmm.take pdpt 1 } : Paging) = s₂
  have htop₂ : s₂.pmm.sTopFrame ≤ maxFrames := hs₂ ▸ htop₁
  rcases cloneTable_cases htop₂ (ptAddr s.cr3) with ⟨pml4, hpml4, hpml4pos, hpml4max, hclone''⟩ | hclone''
  case inr =>
    rw [hclone'', Option.bind_some]
    refine ⟨0, _, if_pos rfl, .inl ⟨rfl, ?_⟩⟩
    rw [← hs₂, ← hs₁]
    exact Pmm.freeFrames_undo_two htop hpd hpdpt.2 hpdpt.1
  rw [← hs₂, ← hs₁] at hpml4
  dsimp only at hpml4
  rw [Pmm.freeFrames_take, Pmm.freeFrames_take, Finset.mem_erase, Finset.mem_erase] at hpml4
  rw [hclone'', Option.bind_some]
  dsimp only
  rw [if_neg (hne hpml4pos), Nat.mul_div_cancel pml4 frame_pos]
  refine ⟨_, _, rfl, .inr ⟨pd, pdpt, pml4, ⟨⟨hpd, hpdpt.2, hpml4.2.2⟩,
    ⟨hpdpt.1, hpml4.2.1, hpml4.1⟩, ⟨hpdmax, hpdptmax, hpml4max⟩, hpml4pos⟩, rfl, ?_, ?_, ?_, ?_⟩⟩
  · simpa using hpml4e
  · simpa using hpdpte
  · rw [← hs₂, ← hs₁]
    rfl
  · rw [← hs₂, ← hs₁]

end Call

/-! ## The two spaces -/

/-- No table of the space is in a free page. -/
def Paging.Unfree (s : Paging) : Prop :=
  ∀ c t, c.length < 4 → s.reach c = some t → t ∉ s.pmm.freeFrames

/-- The table is where the path leads, and nowhere else. -/
def Paging.OnlyAt (s : Paging) (t : Nat) (c : List (Fin 512)) : Prop :=
  ∀ d, d.length < 4 → s.reach d = some t → d = c

theorem slot_table {left : Nat} {e : BitVec 64} (hleft : 0 < left) (hpresent : present e = true)
    (hlarge : large e = false) : slot left e = .table (ptAddr e) := by
  unfold slot
  simp [hpresent, hlarge, hleft.ne']

section Spaces

variable {s : Paging} {pd pdpt pml4 : Nat}

theorem pml4Mem_other (s : Paging) {u : Nat} (hpd : u ≠ pd) (hpdpt : u ≠ pdpt) (hpml4 : u ≠ pml4) :
    pml4Mem s pd pdpt pml4 u = s.mem u := by
  unfold pml4Mem pdptMem Tables.copy
  dsimp only
  rw [Tables.write_of_ne _ _ _ hpml4, Function.update_of_ne hpml4, Tables.write_of_ne _ _ _ hpdpt,
    Function.update_of_ne hpdpt, Function.update_of_ne hpd]

/-- The space that was current and was copied. -/
structure Copied (s : Paging) (pd pdpt pml4 : Nat) : Prop extends NewFrames s pd pdpt pml4 where
  unfree : s.Unfree
  pml4e : present (s.mem (ptAddr s.cr3) 0) = true
  pdpte : present (s.mem (ptAddr (s.mem (ptAddr s.cr3) 0)) 0) = true
  directory : large (s.mem (ptAddr (s.mem (ptAddr s.cr3) 0)) 0) = false

namespace Copied

variable (h : Copied s pd pdpt pml4)
include h

/-- A table of the space is in none of the new pages. -/
theorem ne {c : List (Fin 512)} {t : Nat} (hc : c.length < 4) (ht : s.reach c = some t) :
    t ≠ pd ∧ t ≠ pdpt ∧ t ≠ pml4 := by
  have hused := h.unfree c t hc ht
  obtain ⟨hpd, hpdpt, hpml4⟩ := h.free
  exact ⟨fun heq => hused (heq ▸ hpd), fun heq => hused (heq ▸ hpdpt), fun heq => hused (heq ▸ hpml4)⟩

theorem reach_pdpt : s.reach [0] = some (ptAddr (s.mem (ptAddr s.cr3) 0)) := by
  unfold Paging.reach
  simp only [Tables.reach, slot_three h.pml4e]

theorem reach_pd :
    s.reach [0, 0] = some (ptAddr (s.mem (ptAddr (s.mem (ptAddr s.cr3) 0)) 0)) := by
  unfold Paging.reach
  simp only [Tables.reach, slot_three h.pml4e, slot_table (by decide : 0 < 2) h.pdpte h.directory]

theorem kept {c : List (Fin 512)} {t : Nat} (hc : c.length < 4) (ht : s.reach c = some t) :
    pml4Mem s pd pdpt pml4 t = s.mem t := by
  obtain ⟨hpd, hpdpt, hpml4⟩ := h.ne hc ht
  exact pml4Mem_other s hpd hpdpt hpml4

theorem mem_pd : pml4Mem s pd pdpt pml4 pd = s.mem (ptAddr (s.mem (ptAddr (s.mem (ptAddr s.cr3) 0)) 0)) := by
  obtain ⟨hpdpt, hpml4, -⟩ := h.distinct
  unfold pml4Mem pdptMem Tables.copy
  dsimp only
  rw [Tables.write_of_ne _ _ _ hpml4.symm, Function.update_of_ne hpml4.symm,
    Tables.write_of_ne _ _ _ hpdpt.symm, Function.update_of_ne hpdpt.symm, Function.update_self]

theorem mem_pdpt : pml4Mem s pd pdpt pml4 pdpt =
    Function.update (s.mem (ptAddr (s.mem (ptAddr s.cr3) 0))) 0
      (repoint (s.mem (ptAddr (s.mem (ptAddr s.cr3) 0)) 0) (pd * frame)) := by
  obtain ⟨-, -, hne⟩ := h.distinct
  obtain ⟨hpd, hpdpt, -⟩ := h.ne (by decide) h.reach_pdpt
  unfold pml4Mem pdptMem Tables.copy
  dsimp only
  rw [Tables.write_of_ne _ _ _ hne.symm, Function.update_of_ne hne.symm]
  unfold Tables.write
  rw [Function.update_self, Function.update_self, Function.update_of_ne hpdpt, Function.update_of_ne hpd]

theorem mem_pml4 : pml4Mem s pd pdpt pml4 pml4 =
    Function.update (s.mem (ptAddr s.cr3)) 0 (repoint (s.mem (ptAddr s.cr3) 0) (pdpt * frame)) := by
  obtain ⟨hpd, hpdpt, hpml4⟩ := h.ne (show [].length < 4 by decide) Tables.reach_nil
  unfold pml4Mem pdptMem Tables.copy
  dsimp only
  unfold Tables.write
  rw [Function.update_self, Function.update_self, Function.update_of_ne hpml4, Function.update_of_ne hpdpt,
    Function.update_of_ne hpdpt, Function.update_of_ne hpd]

theorem repointed_pml4 : Tables.Repointed slot (· &&& ~~~ptMask) (pml4Mem s pd pdpt pml4) 3
    (ptAddr s.cr3) pml4 0 (ptAddr (s.mem (ptAddr s.cr3) 0)) pdpt := by
  have hold := h.kept (show [].length < 4 by decide) Tables.reach_nil
  refine ⟨fun j hj => ?_, ?_, ?_, ?_⟩
  · rw [h.mem_pml4, hold, Function.update_of_ne hj]
  · rw [hold, slot_three h.pml4e]
  · rw [h.mem_pml4, Function.update_self, slot_three (by rw [present_repoint, h.pml4e]),
      ptAddr_repoint _ h.small.2.1]
  · rw [h.mem_pml4, hold, Function.update_self]
    exact flags_repoint _

theorem repointed_pdpt : Tables.Repointed slot (· &&& ~~~ptMask) (pml4Mem s pd pdpt pml4) 2
    (ptAddr (s.mem (ptAddr s.cr3) 0)) pdpt 0 (ptAddr (s.mem (ptAddr (s.mem (ptAddr s.cr3) 0)) 0)) pd := by
  have hold := h.kept (by decide) h.reach_pdpt
  refine ⟨fun j hj => ?_, ?_, ?_, ?_⟩
  · rw [h.mem_pdpt, hold, Function.update_of_ne hj]
  · rw [hold, slot_table (by decide) h.pdpte h.directory]
  · rw [h.mem_pdpt, Function.update_self, slot_table (by decide) (by rw [present_repoint, h.pdpte])
      (by rw [large_repoint, h.directory]), ptAddr_repoint _ h.small.1]
  · rw [h.mem_pdpt, hold, Function.update_self]
    exact flags_repoint _

/-- The new space is walked like the old one. -/
theorem survey_new {d : List (Fin 512)} (hd : d.length = 4) :
    Tables.survey slot (· &&& ~~~ptMask) (pml4Mem s pd pdpt pml4) pml4 d =
      Tables.survey slot (· &&& ~~~ptMask) (pml4Mem s pd pdpt pml4) (ptAddr s.cr3) d := by
  refine h.repointed_pml4.survey (fun d hd => h.repointed_pdpt.survey (fun d _ => ?_) hd) hd
  refine Tables.survey_copy ?_ d
  rw [h.mem_pd, h.kept (by decide) h.reach_pd]

/-- And the old one as before. -/
theorem survey_old {d : List (Fin 512)} (hd : d.length = 4) :
    Tables.survey slot (· &&& ~~~ptMask) (pml4Mem s pd pdpt pml4) (ptAddr s.cr3) d =
      Tables.survey slot (· &&& ~~~ptMask) s.mem (ptAddr s.cr3) d :=
  (Tables.agree_of_reached (fun _ _ hc hu => h.kept hc hu) hd.le).survey hd

theorem reach_old {c : List (Fin 512)} (hc : c.length ≤ 4) :
    Tables.reach slot (pml4Mem s pd pdpt pml4) 4 (ptAddr s.cr3) c = s.reach c :=
  (Tables.agree_of_reached (fun _ _ hc hu => h.kept hc hu) hc).reach

/-- The old space has none of the new tables. -/
theorem apart_old :
    Tables.Apart slot (pml4Mem s pd pdpt pml4) 4 (ptAddr s.cr3) [pml4, pdpt, pd] := by
  intro c t hc ht hmem
  rw [h.reach_old hc.le] at ht
  obtain ⟨hpd, hpdpt, hpml4⟩ := h.ne hc ht
  simp only [List.mem_cons, List.not_mem_nil, or_false] at hmem
  rcases hmem with heq | heq | heq
  · exact hpml4 heq
  · exact hpdpt heq
  · exact hpd heq

/-- A table of the new space is one of the three, or the old space has it behind another path
than theirs. -/
theorem reach_new {c : List (Fin 512)} {t : Nat} (hc : c.length < 4)
    (ht : Tables.reach slot (pml4Mem s pd pdpt pml4) 4 pml4 c = some t) :
    t = pml4 ∨ t = pdpt ∨ t = pd ∨ s.reach c = some t ∧ c ≠ [] ∧ c ≠ [0] ∧ c ≠ [0, 0] := by
  rcases h.repointed_pml4.reach_cases ht with ⟨-, rfl⟩ | ⟨d, rfl, hd⟩ | ⟨⟨j, d, rfl, hj⟩, hold⟩
  · exact .inl rfl
  · rcases h.repointed_pdpt.reach_cases hd with ⟨-, rfl⟩ | ⟨e, rfl, he⟩ | ⟨⟨j, e, rfl, hj⟩, hold⟩
    · exact .inr (.inl rfl)
    · have hsame : pml4Mem s pd pdpt pml4 pd =
          pml4Mem s pd pdpt pml4 (ptAddr (s.mem (ptAddr (s.mem (ptAddr s.cr3) 0)) 0)) := by
        rw [h.mem_pd, h.kept (by decide) h.reach_pd]
      rcases Tables.reach_copy hsame he with ⟨-, rfl⟩ | ⟨hne, hold⟩
      · exact .inr (.inr (.inl rfl))
      · refine .inr (.inr (.inr ⟨?_, by simp, by simp, by simpa using hne⟩))
        rw [← h.reach_old hc.le, h.repointed_pml4.reach_old, h.repointed_pdpt.reach_old]
        exact hold
    · refine .inr (.inr (.inr ⟨?_, by simp, by simp, by simp [hj]⟩))
      rw [← h.reach_old hc.le, h.repointed_pml4.reach_old]
      exact hold
  · exact .inr (.inr (.inr ⟨(h.reach_old hc.le).symm.trans hold, by simp, by simp [hj], by simp [hj]⟩))

end Copied

end Spaces

/-! ## Later changes -/

/-- A store into a table. -/
structure Change where
  table : Nat
  idx : Fin 512
  entry : BitVec 64

def Paging.change (s : Paging) (w : Change) : Paging :=
  { s with mem := s.mem.write w.table w.idx w.entry }

def Paging.changes (s : Paging) (l : List Change) : Paging := l.foldl Paging.change s

/-- No walk of the space comes to one of the tables. -/
def Paging.Blind (s : Paging) (tables : List Nat) : Prop :=
  Tables.Apart slot s.mem 4 (ptAddr s.cr3) tables

section Changes

variable {s : Paging} {tables : List Nat} {w : Change}

theorem Paging.Blind.change (h : s.Blind tables) (hw : w.table ∈ tables) :
    (s.change w).Blind tables ∧ ∀ va, (s.change w).access va = s.access va := by
  have hsame : ∀ u, u ∉ tables → (s.change w).mem u = s.mem u := fun u hu =>
    Tables.write_of_ne _ _ _ fun heq => hu (heq ▸ hw)
  exact ⟨Tables.Apart.kept h hsame, fun va => access_congr (Tables.Apart.survey h hsame rfl)⟩

theorem Paging.Blind.changes {l : List Change} (h : s.Blind tables) (hl : ∀ w ∈ l, w.table ∈ tables)
    (va : Nat) : (s.changes l).access va = s.access va := by
  induction l generalizing s with
  | nil => rfl
  | cons w l ih =>
    obtain ⟨hblind, hsame⟩ := h.change (hl w List.mem_cons_self)
    exact (ih hblind fun w hw => hl w (List.mem_cons_of_mem _ hw)).trans (hsame va)

theorem changes_under (s : Paging) (cr3 : Nat) (l : List Change) :
    (s.changes l).under cr3 = (s.under cr3).changes l := by
  induction l generalizing s with
  | nil => rfl
  | cons w l ih => exact ih (s.change w)

end Changes

/-- The space that was current at the call, and the new one. -/
inductive Side
  | current
  | new

def Side.other : Side → Side
  | .current => .new
  | .new => .current

def Side.space (s : Paging) (cr3 : Nat) : Side → Paging
  | .current => s
  | .new => s.under cr3

/-- The own tables of a side, as the call leaves them. -/
def Side.own (s : Paging) (cr3 : Nat) (side : Side) : List Nat := (side.space s cr3).ownTables

/-- A change to an own table of one side that does not bring this side to an own table of the
other. -/
def Unlinked (s' : Paging) (cr3 : Nat) (s : Paging) (c : Side × Change) : Prop :=
  c.2.table ∈ c.1.own s' cr3 ∧ (c.1.space (s.change c.2) cr3).Blind (c.1.other.own s' cr3)

theorem Side.space_change (s : Paging) (cr3 : Nat) (w : Change) (side : Side) :
    side.space (s.change w) cr3 = (side.space s cr3).change w := by
  cases side <;> rfl

/-- No side comes to an own table of the other. -/
def SidesApart (s' : Paging) (cr3 : Nat) (s : Paging) : Prop :=
  ∀ side : Side, (side.space s cr3).Blind (side.other.own s' cr3)

theorem unlinked_apart {s' r : Paging} {cr3 : Nat} (hapart : SidesApart s' cr3 s')
    (hr : Reach (· = s') (fun s c t => t = s.change c.2) (Unlinked s' cr3) r) :
    SidesApart s' cr3 r := by
  refine hr.invariant (fun s hs => ?_) fun s c t hinv hguard hstep => ?_
  · rw [show s = s' from hs]
    exact hapart
  obtain ⟨writer, w⟩ := c
  obtain ⟨htable, hblind⟩ := hguard
  cases hstep
  have hother := (hinv writer.other).change (w := w) (by cases writer <;> exact htable)
  rw [← Side.space_change] at hother
  intro side
  cases writer <;> cases side
  · exact hblind
  · exact hother.1
  · exact hother.1
  · exact hblind

/-! ## What the call makes -/

section Call

variable {s s' : Paging} {pd pdpt pml4 : Nat}

theorem Copied.ownTables_new (h : Copied s pd pdpt pml4) (hmem : s'.mem = pml4Mem s pd pdpt pml4) :
    (s'.under (pml4 * frame)).ownTables = [pml4, pdpt, pd] := by
  have hmax := maxFrames_eq
  have hroot : ptAddr (BitVec.ofNat 64 (pml4 * frame)) = pml4 := by
    rw [ptAddr_ofNat]
    exact Nat.mod_eq_of_lt (by have := h.small.2.2; omega)
  unfold Paging.ownTables Paging.under
  dsimp only
  rw [hroot, hmem, h.mem_pml4, Function.update_self, ptAddr_repoint _ h.small.2.1, h.mem_pdpt,
    Function.update_self, ptAddr_repoint _ h.small.1]

theorem Copied.ownTables_old (h : Copied s pd pdpt pml4) (hmem : s'.mem = pml4Mem s pd pdpt pml4)
    (hcr3 : s'.cr3 = s.cr3) : s'.ownTables = s.ownTables := by
  unfold Paging.ownTables
  rw [hcr3, hmem, h.kept (show [].length < 4 by decide) Tables.reach_nil, h.kept (by decide) h.reach_pdpt]

/-- Where the own tables of the old space are in no other place of it, the new one has none of
them. -/
theorem Copied.apart_new (h : Copied s pd pdpt pml4) (hpml4 : s.OnlyAt (ptAddr s.cr3) [])
    (hpdpt : s.OnlyAt (ptAddr (s.mem (ptAddr s.cr3) 0)) [0])
    (hpd : s.OnlyAt (ptAddr (s.mem (ptAddr (s.mem (ptAddr s.cr3) 0)) 0)) [0, 0]) :
    Tables.Apart slot (pml4Mem s pd pdpt pml4) 4 pml4 s.ownTables := by
  intro c t hc ht hmem
  have hown : ∃ d, d.length < 4 ∧ s.reach d = some t ∧ (d = [] ∨ d = [0] ∨ d = [0, 0]) ∧ s.OnlyAt t d := by
    simp only [Paging.ownTables, List.mem_cons, List.not_mem_nil, or_false] at hmem
    rcases hmem with rfl | rfl | rfl
    · exact ⟨[], by decide, Tables.reach_nil, .inl rfl, hpml4⟩
    · exact ⟨[0], by decide, h.reach_pdpt, .inr (.inl rfl), hpdpt⟩
    · exact ⟨[0, 0], by decide, h.reach_pd, .inr (.inr rfl), hpd⟩
  obtain ⟨d, hd, hreach, hplace, honly⟩ := hown
  obtain ⟨hne_pd, hne_pdpt, hne_pml4⟩ := h.ne hd hreach
  rcases h.reach_new hc ht with heq | heq | heq | ⟨hold, h₀, h₁, h₂⟩
  · exact hne_pml4 heq
  · exact hne_pdpt heq
  · exact hne_pd heq
  · obtain rfl := honly c hc hold
    rcases hplace with rfl | rfl | rfl
    · exact h₀ rfl
    · exact h₁ rfl
    · exact h₂ rfl

/-- A new address space is walked like the one it was made from, and neither sees what happens
later to the own tables of the other. -/
theorem new_address_space (s : Paging) (htop : s.pmm.sTopFrame ≤ maxFrames) :
    ∃ cr3 s', mmCreateAddressSpace s = some (cr3, s') ∧
      (cr3 = 0 → s'.pmm.freeFrames = s.pmm.freeFrames) ∧
      (cr3 ≠ 0 → large (s.mem (ptAddr (s.mem (ptAddr s.cr3) 0)) 0) = false → s.Unfree →
        (∀ va, (s'.under cr3).access va = s.access va ∧ s'.access va = s.access va) ∧
        (∀ l : List Change, (∀ w ∈ l, w.table ∈ Side.new.own s' cr3) →
          ∀ va, (s'.changes l).access va = s'.access va) ∧
        (s.OnlyAt (ptAddr s.cr3) [] → s.OnlyAt (ptAddr (s.mem (ptAddr s.cr3) 0)) [0] →
          s.OnlyAt (ptAddr (s.mem (ptAddr (s.mem (ptAddr s.cr3) 0)) 0)) [0, 0] →
          (∀ l : List Change, (∀ w ∈ l, w.table ∈ Side.current.own s' cr3) →
            ∀ va, ((s'.changes l).under cr3).access va = (s'.under cr3).access va) ∧
          ∀ r, Reach (· = s') (fun s c t => t = s.change c.2) (Unlinked s' cr3) r →
            ∀ (side : Side) (w : Change), w.table ∈ side.own s' cr3 → ∀ va,
              (side.other.space (r.change w) cr3).access va = (side.other.space r cr3).access va)) := by
  obtain ⟨cr3, s', hrun, hcase⟩ := mmCreateAddressSpace_cases htop
  refine ⟨cr3, s', hrun, ?_, ?_⟩
  · rcases hcase with ⟨-, hfree⟩ | ⟨pd, pdpt, pml4, hnew, rfl, -⟩
    · exact fun _ => hfree
    · exact fun hzero => absurd hzero (Nat.mul_ne_zero hnew.nonzero.ne' (by decide))
  intro hne hlarge hunfree
  obtain ⟨pd, pdpt, pml4, hnew, rfl, hpml4e, hpdpte, hmem, hcr3⟩ := hcase.resolve_left fun hz => hne hz.1
  have h : Copied s pd pdpt pml4 := { hnew with
    unfree := hunfree, pml4e := hpml4e, pdpte := hpdpte, directory := hlarge }
  have hroot : ptAddr (s'.under (pml4 * frame)).cr3 = pml4 :=
    (List.cons.inj (h.ownTables_new hmem)).1
  have hold : ∀ va, s'.survey va = s.survey va := fun va => by
    unfold Paging.survey
    rw [hmem, hcr3]
    exact h.survey_old rfl
  have hblind : s'.Blind (Side.new.own s' (pml4 * frame)) := by
    unfold Paging.Blind Side.own Side.space
    rw [h.ownTables_new hmem, hmem, hcr3]
    exact h.apart_old
  refine ⟨fun va => ⟨access_congr ((?_ : _ = s'.survey va).trans (hold va)), access_congr (hold va)⟩,
    fun l hl va => hblind.changes hl va, fun honly₀ honly₁ honly₂ => ?_⟩
  · unfold Paging.survey
    rw [hroot, hcr3]
    change Tables.survey slot _ s'.mem pml4 (path va) = _
    rw [hmem]
    exact h.survey_new rfl
  have hblind' : (s'.under (pml4 * frame)).Blind (Side.current.own s' (pml4 * frame)) := by
    unfold Paging.Blind Side.own Side.space
    rw [h.ownTables_old hmem hcr3, hroot]
    change Tables.Apart slot s'.mem 4 pml4 s.ownTables
    rw [hmem]
    exact h.apart_new honly₀ honly₁ honly₂
  refine ⟨fun l hl va => ?_, fun r hr side w hw va => ?_⟩
  · rw [changes_under]
    exact hblind'.changes hl va
  · have hapart : SidesApart s' (pml4 * frame) s' := by
      intro side
      cases side
      · exact hblind
      · exact hblind'
    rw [Side.space_change]
    refine ((unlinked_apart hapart hr side.other).change ?_).2 va
    cases side <;> exact hw

end Call

/-! ## The tables the kernel starts with -/

/-- `setup_page_tables`, with the PML4 in page 1, the PDPT in page 2 and the page directory in
page `pd`; the first `n` entries of the PML4 name the PDPT. -/
def identityTables (n pd : Nat) : Tables (Fin 512) (BitVec 64) := fun t i =>
  if t = 1 then if i.val < n then 0x2003 else 0
  else if t = 2 then if i.val = 0 then BitVec.ofNat 64 (pd * frame + 3) else 0
  else if t = pd then BitVec.ofNat 64 (i.val * 0x200000 + 0x83)
  else 0

/-- Eight free frames. -/
def identityPaging (n pd : Nat) : Paging := ⟨identityTables n pd, ⟨fun _ => 0, 8, firstFrame + 8⟩, 0x1000⟩

theorem identityTables_pml4 {n : Nat} (pd : Nat) {i : Fin 512} (hi : i.val < n) :
    slot 3 (identityTables n pd 1 i) = .table 2 := by
  unfold identityTables
  rw [if_pos rfl, if_pos hi]
  decide

theorem identityTables_pdpt (n : Nat) : slot 2 (identityTables n 3 2 0) = .table 3 := by
  unfold identityTables
  rw [if_neg (by decide), if_pos rfl, if_pos (show (0 : Fin 512).val = 0 from rfl)]
  decide

theorem identityTables_pd (n : Nat) (i : Fin 512) : slot 1 (identityTables n 3 3 i) = .leaf := by
  unfold identityTables
  rw [if_neg (by decide), if_neg (by decide), if_pos rfl]
  have hbit : ∀ b < 21, (BitVec.ofNat 64 (i.val * 0x200000 + 0x83)).getLsbD b = Nat.testBit 0x83 b := by
    intro b hb
    rw [BitVec.getLsbD_ofNat, Nat.mul_comm, show 0x200000 = 2 ^ 21 from rfl,
      Nat.testBit_two_pow_mul_add _ (by decide), if_pos hb, decide_eq_true (by omega), Bool.true_and]
  have hpresent : present (BitVec.ofNat 64 (i.val * 0x200000 + 0x83)) = true := by
    rw [present_eq, hbit 0 (by decide)]
    rfl
  have hlarge : large (BitVec.ofNat 64 (i.val * 0x200000 + 0x83)) = true := by
    rw [large_eq, hbit 7 (by decide)]
    rfl
  unfold slot
  simp [hpresent, hlarge]

/-- The other entries of the first two tables are empty. -/
theorem identityTables_empty {n left t : Nat} {i : Fin 512} (ht : t = 1 ∧ ¬i.val < n ∨ t = 2 ∧ i ≠ 0) :
    slot left (identityTables n 3 t i) = .empty := by
  unfold identityTables
  rcases ht with ⟨rfl, hi⟩ | ⟨rfl, hi⟩
  · rw [if_pos rfl, if_neg hi]
    rfl
  · rw [if_neg (by decide), if_pos rfl, if_neg fun hval : i.val = 0 => hi (Fin.ext hval)]
    rfl

/-- The walks of the first tables. -/
theorem identity_reach {n t : Nat} {c : List (Fin 512)} (ht : (identityPaging n 3).reach c = some t) :
    c = [] ∧ t = 1 ∨ (∃ i, c = [i] ∧ i.val < n ∧ t = 2) ∨ ∃ i, c = [i, 0] ∧ i.val < n ∧ t = 3 := by
  have hroot : ptAddr (identityPaging n 3).cr3 = 1 := show ptAddr 0x1000 = 1 by decide
  unfold Paging.reach at ht
  rw [hroot] at ht
  change Tables.reach slot (identityTables n 3) 4 1 c = some t at ht
  cases c with
  | nil =>
    rw [Tables.reach_nil] at ht
    exact .inl ⟨rfl, (Option.some.inj ht).symm⟩
  | cons i c =>
    refine .inr ?_
    by_cases hi : i.val < n
    · replace ht := (Tables.reach_cons (identityTables_pml4 3 hi) c).symm.trans ht
      cases c with
      | nil =>
        rw [Tables.reach_nil] at ht
        exact .inl ⟨i, rfl, hi, (Option.some.inj ht).symm⟩
      | cons j c =>
        by_cases hj : j = 0
        · subst hj
          replace ht := (Tables.reach_cons (identityTables_pdpt n) c).symm.trans ht
          cases c with
          | nil =>
            rw [Tables.reach_nil] at ht
            exact .inr ⟨i, rfl, hi, (Option.some.inj ht).symm⟩
          | cons k c =>
            have hleaf : ∀ u, slot 1 (identityTables n 3 3 k) ≠ .table u := fun u => by
              rw [identityTables_pd]
              exact Slot.noConfusion
            cases (Tables.reach_cons_none hleaf c).symm.trans ht
        · have hempty : ∀ u, slot 2 (identityTables n 3 2 j) ≠ .table u := fun u => by
            rw [identityTables_empty (.inr ⟨rfl, hj⟩)]
            exact Slot.noConfusion
          cases (Tables.reach_cons_none hempty c).symm.trans ht
    · have hempty : ∀ u, slot 3 (identityTables n 3 1 i) ≠ .table u := fun u => by
        rw [identityTables_empty (.inl ⟨rfl, hi⟩)]
        exact Slot.noConfusion
      cases (Tables.reach_cons_none hempty c).symm.trans ht

theorem identity_unfree (n : Nat) : (identityPaging n 3).Unfree := by
  intro c t hc ht hfree
  have hlow := (Pmm.mem_freeFrames.1 hfree).1.1
  have hfirst : firstFrame = 16384 := rfl
  rcases identity_reach ht with ⟨-, rfl⟩ | ⟨-, -, -, rfl⟩ | ⟨-, -, -, rfl⟩ <;> omega

theorem identity_only {t : Nat} {c : List (Fin 512)}
    (ht : (identityPaging 1 3).reach c = some t) : (identityPaging 1 3).OnlyAt t c := by
  have hzero : ∀ i : Fin 512, i.val < 1 → i = 0 := fun i hi => Fin.ext (Nat.lt_one_iff.1 hi)
  intro d hd ht'
  rcases identity_reach ht with ⟨rfl, rfl⟩ | ⟨i, rfl, hi, rfl⟩ | ⟨i, rfl, hi, rfl⟩ <;>
    rcases identity_reach ht' with ⟨rfl, heq⟩ | ⟨j, rfl, hj, heq⟩ | ⟨j, rfl, hj, heq⟩
  · rfl
  · cases heq
  · cases heq
  · cases heq
  · rw [hzero i hi, hzero j hj]
  · cases heq
  · cases heq
  · cases heq
  · rw [hzero i hi, hzero j hj]

/-- With any frames free. -/
theorem identity_sound {p : Pmm} (hp : p.sTopFrame ≤ maxFrames) :
    Paging.Sound { identityPaging 1 3 with pmm := p } where
  tree := fun c d t hc hd hct hdt => (identity_only hct d hd hdt).symm
  used := fun c t hc ht hfree => by
    have hlow := (Pmm.mem_freeFrames.1 hfree).1.1
    have hfirst : firstFrame = 16384 := rfl
    have ht' : (identityPaging 1 3).reach c = some t := ht
    rcases identity_reach ht' with ⟨-, rfl⟩ | ⟨-, -, -, rfl⟩ | ⟨-, -, -, rfl⟩ <;> omega
  top := hp

/-- The frame of the large page behind an entry of the page directory. -/
theorem identityTables_addr (i : Fin 512) : ptAddr (identityTables 1 3 3 i) = i.val * 512 := by
  unfold identityTables
  rw [if_neg (by decide), if_neg (by decide), if_pos rfl, ptAddr_eq, BitVec.toNat_ofNat]
  omega

theorem identity_walk {va : Nat} (hva : va < 2 ^ 30) :
    ∃ t, walk (identityPaging 1 3) va = some t ∧ t.page = va / frame := by
  have hpml4 : tableIdx va 39 = 0 := Fin.ext (by change va / 2 ^ 39 % 512 = 0; omega)
  have hpdpt : tableIdx va 30 = 0 := Fin.ext (by change va / 2 ^ 30 % 512 = 0; omega)
  have hpd : (tableIdx va 21).val = va / 2 ^ 21 := by
    change va / 2 ^ 21 % 512 = va / 2 ^ 21
    omega
  have hreach : (identityPaging 1 3).reach [tableIdx va 39, tableIdx va 30] = some 3 := by
    rw [hpml4, hpdpt]
    decide
  have hentry : (identityPaging 1 3).entry va = some (identityTables 1 3 3 (tableIdx va 21), 1) :=
    entry_leaf hreach (show path va = [_, _] ++ _ :: [_] from rfl) (identityTables_pd 1 _)
  refine ⟨_, walk_of_entry (.inl (by omega)) hentry, ?_⟩
  unfold translation
  dsimp only
  rw [identityTables_addr, hpd]
  unfold frame
  omega

theorem identity_none {va : Nat} (hva : 2 ^ 64 - 2 ^ 47 ≤ va) (htop : va < 2 ^ 64) :
    walk (identityPaging 1 3) va = none := by
  have hindex : ¬(tableIdx va 39).val < 1 := by
    change ¬va / 2 ^ 39 % 512 < 1
    omega
  have hempty : slot 3 (identityTables 1 3 1 (tableIdx va 39)) = .empty :=
    identityTables_empty (.inl ⟨rfl, hindex⟩)
  have hroot : ptAddr (identityPaging 1 3).cr3 = 1 := by decide
  have hentry : (identityPaging 1 3).entry va = none := by
    unfold Paging.entry path
    rw [hroot]
    change Tables.lookup slot (identityTables 1 3) 1 _ = _
    simp only [Tables.lookup, List.length_cons, List.length_nil, Nat.zero_add, Nat.reduceAdd, hempty]
  unfold walk
  rw [hentry, Option.map_none, ite_self]

/-- Nothing is translated by a 1 GiB entry. -/
theorem identity_noGib (va : Nat) : (identityPaging 1 3).NoGib va := by
  intro e he
  have hroot : (identityPaging 1 3).reach [] = some 1 := by decide
  have habsent : ∀ {t : Nat} {i : Fin 512}, (t = 1 ∧ ¬i.val < 1 ∨ t = 2 ∧ i ≠ 0) →
      present ((identityPaging 1 3).mem t i) = false := by
    intro t i ht
    have hempty : slot 3 (identityTables 1 3 t i) = .empty := identityTables_empty ht
    change present (identityTables 1 3 t i) = false
    cases hpresent : present (identityTables 1 3 t i) with
    | false => rfl
    | true =>
      rw [slot_three hpresent] at hempty
      cases hempty
  by_cases hpml4 : tableIdx va 39 = 0
  · have hpdpt : (identityPaging 1 3).reach [tableIdx va 39] = some 2 := by
      rw [hpml4]
      decide
    by_cases hidx : tableIdx va 30 = 0
    · have hpd : (identityPaging 1 3).reach [tableIdx va 39, tableIdx va 30] = some 3 := by
        rw [hpml4, hidx]
        decide
      rw [entry_leaf hpd (show path va = [_, _] ++ _ :: [_] from rfl) (identityTables_pd 1 _)] at he
      cases he
    · rw [entry_none hpdpt (show path va = [_] ++ _ :: [_, _] from rfl) (habsent (.inr ⟨rfl, hidx⟩))] at he
      cases he
  · have hlarge : ¬(tableIdx va 39).val < 1 := fun hlt => hpml4 (Fin.ext (Nat.lt_one_iff.1 hlt))
    rw [entry_none hroot (show path va = [] ++ _ :: [_, _, _] from rfl) (habsent (.inl ⟨rfl, hlarge⟩))] at he
    cases he

theorem identity_create :
    (mmCreateAddressSpace (identityPaging 1 3)).map Prod.fst = some ((firstFrame + 2) * frame) := by
  decide +kernel

theorem new_address_space_identity : ∃ cr3 s',
    mmCreateAddressSpace (identityPaging 1 3) = some (cr3, s') ∧
    (∀ va, (s'.under cr3).access va = (identityPaging 1 3).access va ∧
      s'.access va = (identityPaging 1 3).access va) ∧
    (∀ l : List Change, (∀ w ∈ l, w.table ∈ Side.new.own s' cr3) →
      ∀ va, (s'.changes l).access va = s'.access va) ∧
    ∀ l : List Change, (∀ w ∈ l, w.table ∈ Side.current.own s' cr3) →
      ∀ va, ((s'.changes l).under cr3).access va = (s'.under cr3).access va := by
  obtain ⟨cr3, s', hrun, -, hspace⟩ := new_address_space (identityPaging 1 3) (by decide)
  have hcr3 := identity_create
  rw [hrun] at hcr3
  obtain rfl : cr3 = (firstFrame + 2) * frame := Option.some.inj hcr3
  obtain ⟨hsame, hnew, hold⟩ := hspace (by decide) (by decide) (identity_unfree 1)
  exact ⟨_, s', hrun, hsame, hnew, (hold (identity_only (by decide))
    (identity_only (by decide)) (identity_only (by decide))).1⟩

/-- The first 512 GiB are one 1 GiB page. -/
def hugePaging : Paging :=
  { identityPaging 1 3 with
    mem := fun t i => if t = 2 ∧ i.val = 0 then 0x83 else identityTables 1 3 t i }

theorem hugePaging_access : hugePaging.access 0 ≠ none ∧
    (mmCreateAddressSpace hugePaging).map (fun r => (r.1 == 0, (r.2.under r.1).access 0)) =
      some (false, none) := by
  decide +kernel

/-- The directory is in a page the allocator holds free. -/
theorem freeDirectory_change : (identityPaging 1 firstFrame).access 0 ≠ none ∧
    (mmCreateAddressSpace (identityPaging 1 firstFrame)).map (fun r => (r.1 == 0,
      decide (firstFrame ∈ Side.new.own r.2 r.1), r.2.access 0 == none,
      (r.2.change ⟨firstFrame, 0, 0⟩).access 0)) = some (false, true, false, none) := by
  decide +kernel

/-- The PML4 names the PDPT twice. -/
theorem twoEntries_change :
    (mmCreateAddressSpace (identityPaging 2 3)).map (fun r => (r.1 == 0,
      decide (3 ∈ Side.current.own r.2 r.1), (r.2.under r.1).access (2 ^ 39) == none,
      ((r.2.change ⟨3, 0, 0⟩).under r.1).access (2 ^ 39))) = some (false, true, false, none) := by
  decide +kernel

/-- Without one of the conditions the new space differs, or is not independent: a 1 GiB page in the
first entry, a table in a page that is free, a PDPT under two entries. -/
theorem address_space_conditions :
    (¬ ∀ s cr3 s', s.pmm.sTopFrame ≤ maxFrames → mmCreateAddressSpace s = some (cr3, s') → cr3 ≠ 0 →
      ∀ va, (s'.under cr3).access va = s.access va) ∧
    (¬ ∀ s cr3 s', s.pmm.sTopFrame ≤ maxFrames → mmCreateAddressSpace s = some (cr3, s') → cr3 ≠ 0 →
      large (s.mem (ptAddr (s.mem (ptAddr s.cr3) 0)) 0) = false →
      ∀ w : Change, w.table ∈ Side.new.own s' cr3 → ∀ va, (s'.change w).access va = s'.access va) ∧
    ¬ ∀ s cr3 s', s.pmm.sTopFrame ≤ maxFrames → mmCreateAddressSpace s = some (cr3, s') → cr3 ≠ 0 →
      large (s.mem (ptAddr (s.mem (ptAddr s.cr3) 0)) 0) = false → s.Unfree →
      ∀ w : Change, w.table ∈ Side.current.own s' cr3 →
        ∀ va, ((s'.change w).under cr3).access va = (s'.under cr3).access va := by
  refine ⟨fun hall => ?_, fun hall => ?_, fun hall => ?_⟩
  · obtain ⟨hbefore, hafter⟩ := hugePaging_access
    obtain ⟨⟨cr3, s'⟩, hrun, heq⟩ := Option.map_eq_some_iff.1 hafter
    simp only [Prod.mk.injEq, beq_eq_false_iff_ne] at heq
    exact hbefore ((hall _ cr3 s' (by decide) hrun heq.1 0).symm.trans heq.2)
  · obtain ⟨⟨cr3, s'⟩, hrun, heq⟩ := Option.map_eq_some_iff.1 freeDirectory_change.2
    simp only [Prod.mk.injEq, beq_eq_false_iff_ne, decide_eq_true_eq] at heq
    obtain ⟨hne, hown, hbefore, hafter⟩ := heq
    exact hbefore ((hall _ cr3 s' (by decide) hrun hne (by decide) ⟨firstFrame, 0, 0⟩ hown 0).symm.trans hafter)
  · obtain ⟨⟨cr3, s'⟩, hrun, heq⟩ := Option.map_eq_some_iff.1 twoEntries_change
    simp only [Prod.mk.injEq, beq_eq_false_iff_ne, decide_eq_true_eq] at heq
    obtain ⟨hne, hown, hbefore, hafter⟩ := heq
    exact hbefore ((hall _ cr3 s' (by decide) hrun hne (by decide) (identity_unfree 2) ⟨3, 0, 0⟩ hown
      (2 ^ 39)).symm.trans hafter)

end MeuOS.Mm
