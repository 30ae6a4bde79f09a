import MeuOS.Ldr.Pe
import MeuOS.Lib.Patch

/-! Base relocation computes the image linked at the new base. The fixups of an image are
read off its directory, in the image's own offsets, and have to lie apart. -/
namespace MeuOS.Ldr

open MeuOS.Lib

/-- The slot an entry of a block patches, 32 or 64 bits wide. -/
def fixup (page ent : Nat) : Option Place :=
  if ent / 2 ^ 12 = 3 then some ⟨page + ent % 2 ^ 12, 4⟩
  else if ent / 2 ^ 12 = 10 then some ⟨page + ent % 2 ^ 12, 8⟩
  else none

/-- The slots of the first `n` entries of the block at `p`. -/
def blockFixups (img : Mem) (p n : Nat) : List Place :=
  (List.range n).filterMap fun i => fixup (img.rd32 p) (img.rd16 (p + 8 + 2 * i))

/-- The blocks from `p` on, up to the first that starts at `stop` or behind it: where they
end, and their slots. -/
inductive Blocks (img : Mem) (stop : Nat) : Nat → Nat → List Place → Prop
  | done {p : Nat} (h : stop ≤ p) : Blocks img stop p p []
  | block {p last : Nat} {slots : List Place} (h : p < stop) (hsize : 8 ≤ img.rd32 (p + 4))
      (rest : Blocks img stop (p + img.rd32 (p + 4)) last slots) :
      Blocks img stop p last (blockFixups img p ((img.rd32 (p + 4) - 8) / 2) ++ slots)

/-- An image with a well-formed relocation directory, whose blocks go from `rva` to
`last`. -/
structure Relocatable (pi : PeInfo) (img : Mem) (rva last : Nat) (slots : List Place) : Prop where
  headers : optHeader img 0 + (dirTable img 0).1 + 48 ≤ pi.sizeHdrs
  headersIn : pi.sizeHdrs ≤ pi.sizeImage
  rva_eq : (getDir img 0 5).1 = rva
  rva_ne : rva ≠ 0
  blocks : Blocks img (rva + (getDir img 0 5).2) rva last slots
  blocksIn : last ≤ pi.sizeImage
  slotsIn : ∀ s ∈ slots, pi.sizeHdrs ≤ s.off ∧ s.off + s.width ≤ pi.sizeImage
  slotsOut : ∀ s ∈ slots, s.off + s.width ≤ rva ∨ last ≤ s.off
  apart : slots.Pairwise Place.Apart

section Decoding

variable {img img' : Mem} {page p n stop last : Nat} {slots : List Place}
variable {s : Place}

theorem fixup_width {ent : Nat} (h : fixup page ent = some s) : s.width = 4 ∨ s.width = 8 := by
  unfold fixup at h
  split at h
  · cases h
    exact .inl rfl
  · split at h
    · cases h
      exact .inr rfl
    · cases h

theorem blockFixups_succ (img : Mem) (p n : Nat) : blockFixups img p (n + 1) =
    blockFixups img p n ++ (fixup (img.rd32 p) (img.rd16 (p + 8 + 2 * n))).toList := by
  unfold blockFixups
  rw [List.range_succ, List.filterMap_append]
  cases h : fixup (img.rd32 p) (img.rd16 (p + 8 + 2 * n)) <;> simp [h]

theorem blockFixups_length (img : Mem) (p n : Nat) : (blockFixups img p n).length ≤ n := by
  unfold blockFixups
  calc _ ≤ (List.range n).length := List.length_filterMap_le ..
    _ = n := List.length_range

theorem blockFixups_congr (h : Mem.Agree img' img p (p + 8 + 2 * n)) :
    blockFixups img' p n = blockFixups img p n := by
  unfold blockFixups
  apply List.filterMap_congr
  intro i hi
  have hlt := List.mem_range.mp hi
  rw [Mem.rd32_congr (h.mono (by omega) (by omega)), Mem.rd16,
    Mem.read_congr (h.mono (by omega) (by omega))]

theorem Blocks.le (h : Blocks img stop p last slots) : p ≤ last := by
  induction h with
  | done => exact Nat.le_refl _
  | block _ _ _ ih => omega

theorem Blocks.width (h : Blocks img stop p last slots) (hs : s ∈ slots) : s.width = 4 ∨ s.width = 8 := by
  induction h with
  | done => cases hs
  | block _ _ _ ih =>
    rcases List.mem_append.mp hs with hs | hs
    · obtain ⟨i, -, hfix⟩ := List.mem_filterMap.mp hs
      exact fixup_width hfix
    · exact ih hs

/-- Two bytes of the directory for each slot. -/
theorem Blocks.length_le (h : Blocks img stop p last slots) : 2 * slots.length ≤ last - p := by
  induction h with
  | done => simp
  | @block p _ _ _ hsize rest ih =>
    have hfirst := blockFixups_length img p ((img.rd32 (p + 4) - 8) / 2)
    have hle := rest.le
    rw [List.length_append]
    omega

theorem Blocks.congr (h : Blocks img stop p last slots) (hsame : Mem.Agree img' img p last) :
    Blocks img' stop p last slots := by
  induction h with
  | done h => exact .done h
  | @block p last slots h hsize rest ih =>
    have hle := rest.le
    have hword : img'.rd32 (p + 4) = img.rd32 (p + 4) :=
      Mem.rd32_congr (hsame.mono (by omega) (by omega))
    rw [← blockFixups_congr (hsame.mono (by omega) (by omega)), ← hword]
    rw [← hword] at hsize ih
    exact .block h hsize (ih (hsame.mono (by omega) (by omega)))

end Decoding

/-! ## The loops -/

section Loops

variable {img m : Mem} {b d page p n stop last : Nat} {slots : List Place} {r : Nat × Mem}

theorem relocEntry_eq (hr : r.1 < 2 ^ 32) (ent : Nat) : relocEntry b d page ent r =
    ((r.1 + (fixup page ent).toList.length) % 2 ^ 32,
      Place.addAll b d (fixup page ent).toList r.2) := by
  unfold relocEntry fixup
  by_cases hlow : ent / 2 ^ 12 = 3
  · simp only [if_pos hlow, Option.toList_some, List.length_singleton]
    congr 1
    change _ = Place.add b d r.2 _
    unfold Place.add
    rw [Nat.add_mod_mod, Nat.add_assoc]
    rfl
  · by_cases hwide : ent / 2 ^ 12 = 10
    · simp only [if_neg hlow, if_pos hwide, Option.toList_some, List.length_singleton]
      congr 1
      change _ = Place.add b d r.2 _
      unfold Place.add
      rw [Nat.add_assoc]
      rfl
    · simp only [if_neg hlow, if_neg hwide, Option.toList_none, List.length_nil, Nat.add_zero]
      rw [Nat.mod_eq_of_lt hr]
      rfl

/-- An entry is still what it was after the slots before it are patched: they are not in the block. -/
theorem patched_entry (hsame : Mem.Agree (r.2.shift b) img p (p + 8 + 2 * (n + 1)))
    (hout : ∀ s ∈ blockFixups img p n, s.off + s.width ≤ p ∨ p + 8 + 2 * (n + 1) ≤ s.off) :
    (Place.addAll b d (blockFixups img p n) r.2).rd16 (b + p + 8 + 2 * n) = img.rd16 (p + 8 + 2 * n) := by
  have hblock := (Place.addAll_agree (m := r.2) (b := b) (d := d) hout).trans hsame
  rw [show b + p + 8 + 2 * n = b + (p + 8 + 2 * n) by omega, Mem.rd16, ← Mem.read_shift]
  exact Mem.read_congr (hblock.mono (by omega) (by omega))

theorem relocEntries_eq (hr : r.1 < 2 ^ 32) (hsame : Mem.Agree (r.2.shift b) img p (p + 8 + 2 * n))
    (hout : ∀ s ∈ blockFixups img p n, s.off + s.width ≤ p ∨ p + 8 + 2 * n ≤ s.off) :
    relocEntries b d (img.rd32 p) (b + p) n r =
      ((r.1 + (blockFixups img p n).length) % 2 ^ 32,
        Place.addAll b d (blockFixups img p n) r.2) := by
  induction n with
  | zero => exact Prod.ext (Nat.mod_eq_of_lt hr).symm rfl
  | succ n ih =>
    rw [blockFixups_succ] at hout ⊢
    have hdone := ih (hsame.mono (by omega) (by omega)) fun s hs => by
      have := hout s (List.mem_append_left _ hs)
      omega
    have hent := patched_entry (d := d) hsame fun s hs => hout s (List.mem_append_left _ hs)
    unfold relocEntries
    rw [hdone]
    dsimp only
    rw [hent, relocEntry_eq (Nat.mod_lt _ (by omega)), List.length_append, Place.addAll_append,
      Nat.mod_add_mod, Nat.add_assoc]

theorem relocBlocks_eq (h : Blocks img stop p last slots) (hr : r.1 < 2 ^ 32)
    (hsame : Mem.Agree (r.2.shift b) img p last)
    (hout : ∀ s ∈ slots, s.off + s.width ≤ p ∨ last ≤ s.off) :
    relocBlocks b d (b + stop) (b + p) r =
      ((r.1 + slots.length) % 2 ^ 32, Place.addAll b d slots r.2) := by
  induction h generalizing r with
  | done h =>
    rw [relocBlocks, if_neg (by omega)]
    exact Prod.ext (Nat.mod_eq_of_lt hr).symm rfl
  | @block p last slots h hsize rest ih =>
    have hle := rest.le
    have hpage : r.2.rd32 (b + p) = img.rd32 p := by
      rw [Mem.rd32, ← Mem.read_shift]
      exact Mem.read_congr (hsame.mono (by omega) (by omega))
    have hword : r.2.rd32 (b + p + 4) = img.rd32 (p + 4) := by
      rw [Mem.rd32, Nat.add_assoc, ← Mem.read_shift]
      exact Mem.read_congr (hsame.mono (by omega) (by omega))
    have hfirst : Mem.Agree (r.2.shift b) img p (p + 8 + 2 * ((img.rd32 (p + 4) - 8) / 2)) :=
      hsame.mono (Nat.le_refl _) (by omega)
    have hentries := relocEntries_eq (d := d) hr hfirst fun s hs => by
      have := hout s (List.mem_append_left _ hs)
      omega
    have hrest : Mem.Agree ((Place.addAll b d
        (blockFixups img p ((img.rd32 (p + 4) - 8) / 2)) r.2).shift b) img
        (p + img.rd32 (p + 4)) last :=
      ((Place.addAll_agree fun s hs => hout s (List.mem_append_left _ hs)).trans hsame).mono
        (by omega) (Nat.le_refl _)
    rw [relocBlocks, if_pos (by omega)]
    simp only [hword, hpage]
    rw [if_neg (by omega), hentries, Nat.add_assoc,
      ih (Nat.mod_lt _ (by omega)) hrest fun s hs => by
        have := hout s (List.mem_append_right _ hs)
        omega,
      List.length_append, Place.addAll_append, Nat.mod_add_mod, Nat.add_assoc]

end Loops

/-! ## Headers -/

section Headers

variable {m img img' : Mem} {b hdrs : Nat}

theorem optHeader_shift (m : Mem) (b : Nat) : optHeader m b = b + optHeader (m.shift b) 0 := by
  unfold optHeader
  simp only [Mem.rd32, Mem.read_shift, Nat.zero_add]
  omega

theorem dirTable_shift (m : Mem) (b : Nat) : dirTable m b = dirTable (m.shift b) 0 := by
  unfold dirTable
  simp only [optHeader_shift m b, Mem.rd16, Mem.rd32, Mem.read_shift, Nat.add_assoc]

theorem getDir_shift (m : Mem) (b idx : Nat) : getDir m b idx = getDir (m.shift b) 0 idx := by
  unfold getDir
  simp only [dirTable_shift m b, optHeader_shift m b, Mem.rd32, Mem.read_shift, Nat.add_assoc]

/-- The relocation directory is named by the headers. -/
theorem headers_congr (hsame : Mem.Agree img' img 0 hdrs)
    (hin : optHeader img 0 + (dirTable img 0).1 + 48 ≤ hdrs) :
    optHeader img' 0 = optHeader img 0 ∧ dirTable img' 0 = dirTable img 0 ∧
      getDir img' 0 5 = getDir img 0 5 := by
  have htable : (dirTable img 0).1 = 112 ∨ (dirTable img 0).1 = 96 := by
    unfold dirTable
    split
    · exact .inl rfl
    · exact .inr rfl
  have hge : 24 ≤ optHeader img 0 := by
    unfold optHeader
    omega
  have hopt : optHeader img' 0 = optHeader img 0 := by
    unfold optHeader
    rw [Mem.rd32_congr (hsame.mono (by omega) (by omega))]
  have hmagic : img'.rd16 (optHeader img 0) = img.rd16 (optHeader img 0) :=
    Mem.read_congr (hsame.mono (by omega) (by omega))
  have hdirs : dirTable img' 0 = dirTable img 0 := by
    have hwide : img.rd16 (optHeader img 0) = 0x20B → (dirTable img 0).1 = 112 := fun h => by
      unfold dirTable
      rw [if_pos h]
    unfold dirTable
    rw [hopt, hmagic]
    by_cases h : img.rd16 (optHeader img 0) = 0x20B
    · have hend := hwide h
      rw [if_pos h, if_pos h, Mem.rd32_congr (hsame.mono (by omega) (by omega))]
    · rw [if_neg h, if_neg h, Mem.rd32_congr (hsame.mono (by omega) (by omega))]
  refine ⟨hopt, hdirs, ?_⟩
  unfold getDir
  rw [hdirs, hopt]
  dsimp only
  rw [Mem.rd32_congr (hsame.mono (by omega) (by omega)),
    Mem.rd32_congr (hsame.mono (by omega) (by omega))]

end Headers

section Images

variable {pi : PeInfo} {f m m' img img' : Mem} {b c rva last preferred : Nat} {slots : List Place}

theorem Relocatable.congr (h : Relocatable pi img rva last slots)
    (hheaders : Mem.Agree img' img 0 pi.sizeHdrs) (hblocks : Mem.Agree img' img rva last) :
    Relocatable pi img' rva last slots := by
  obtain ⟨hopt, hdirs, hdir⟩ := headers_congr hheaders h.headers
  refine { h with headers := ?_, rva_eq := ?_, blocks := ?_ }
  · rw [hopt, hdirs]
    exact h.headers
  · rw [hdir]
    exact h.rva_eq
  · rw [hdir]
    exact h.blocks.congr hblocks

/-- The same image somewhere else. -/
theorem Relocatable.move (h : Relocatable pi (m.shift b) rva last slots)
    (hsame : Mem.SameAt m b m' c pi.sizeImage) : Relocatable pi (m'.shift c) rva last slots := by
  have hagree : Mem.Agree (m'.shift c) (m.shift b) 0 pi.sizeImage := fun o _ ho => hsame o ho
  have hle := h.blocksIn
  exact h.congr (hagree.mono (Nat.le_refl _) h.headersIn) (hagree.mono (Nat.zero_le _) hle)

/-- Patching leaves headers and directory alone. -/
theorem Relocatable.patched (h : Relocatable pi (m.shift b) rva last slots) (d : Nat) :
    Relocatable pi ((Place.addAll b d slots m).shift b) rva last slots :=
  h.congr (Place.addAll_agree fun s hs => .inr (h.slotsIn s hs).1) (Place.addAll_agree h.slotsOut)

/-- The distance from `preferred` to `base`, as a word. -/
def linkDelta (base preferred : Nat) : Nat := (base + 2 ^ 64 - preferred) % 2 ^ 64

theorem Relocatable.width (h : Relocatable pi img rva last slots) {s : Place} (hs : s ∈ slots) :
    s.width = 4 ∨ s.width = 8 :=
  h.blocks.width hs

theorem peRelocate_eq (h : Relocatable pi (m.shift b) rva last slots) (hb : b < 2 ^ 64)
    (hpref : preferred < 2 ^ 64) (hsize : pi.sizeImage < 2 ^ 32) :
    peRelocate b preferred m = (if b = preferred then 0 else slots.length,
      Place.addAll b (linkDelta b preferred) slots m) := by
  have hcount : slots.length < 2 ^ 32 := by
    have hlen := h.blocks.length_le
    have hlast := h.blocksIn
    omega
  have hzero : linkDelta b preferred = 0 ↔ b = preferred := by
    unfold linkDelta
    omega
  unfold peRelocate
  change (if linkDelta b preferred = 0 then _ else _) = _
  by_cases hsame : b = preferred
  · rw [if_pos (hzero.mpr hsame), if_pos hsame, hzero.mpr hsame, Place.addAll_zero h.apart]
  · rw [if_neg fun h0 => hsame (hzero.mp h0), if_neg hsame]
    have hblocks := relocBlocks_eq (b := b) (d := linkDelta b preferred) (r := (0, m)) h.blocks
      (Nat.two_pow_pos 32) (fun _ _ _ => rfl) h.slotsOut
    rw [Nat.zero_add, Nat.mod_eq_of_lt hcount] at hblocks
    rw [getDir_shift]
    dsimp only
    rw [h.rva_eq]
    by_cases hempty : (getDir (m.shift b) 0 5).2 = 0
    · rw [hempty, Nat.add_zero] at hblocks
      rw [if_pos (.inr hempty), ← hblocks, relocBlocks, if_neg (Nat.lt_irrefl _)]
    · rw [if_neg (by simp [h.rva_ne, hempty]), Nat.add_assoc]
      exact hblocks

end Images

/-! ## Mapping -/

section Mapping

variable {pi : PeInfo} {f m m' : Mem} {b c n e e' : Nat}

theorem put_move (h : Mem.SameAt m b m' c n) (o : Nat) (x : UInt8) :
    Mem.SameAt (m.put (b + o) x) b (m'.put (c + o) x) c n := by
  intro i hi
  by_cases heq : i = o
  · rw [heq, Mem.put_same, Mem.put_same]
  · rw [Mem.put_other _ _ (by omega), Mem.put_other _ _ (by omega)]
    exact h i hi

theorem blit_move (h : Mem.SameAt m b m' c n) (len : Nat) (src : Mem) :
    Mem.SameAt (m.blit b len src) b (m'.blit c len src) c n := by
  intro i hi
  by_cases hin : i < len
  · rw [Mem.blit_inside _ _ (by omega) (by omega), Mem.blit_inside _ _ (by omega) (by omega),
      Nat.add_sub_cancel_left, Nat.add_sub_cancel_left]
  · rw [Mem.blit_outside _ _ (by omega), Mem.blit_outside _ _ (by omega)]
    exact h i hi

theorem copySection_move (h : Mem.SameAt m b m' c n) (va rp count : Nat) :
    Mem.SameAt (copySection f b va rp count m) b (copySection f c va rp count m') c n := by
  induction count with
  | zero => exact h
  | succ count ih => exact put_move ih _ _

theorem mapSections_move (h : Mem.SameAt m b m' c n) (secOff count : Nat) :
    Mem.SameAt (mapSections f b secOff count m) b (mapSections f c secOff count m') c n := by
  induction count with
  | zero => exact h
  | succ count ih => exact copySection_move ih _ _ _

/-- What is mapped does not depend on where. -/
theorem peMapAt_move {m₀ m₀' : Mem} (hparse : peParse f = some pi) (hmap : peMapAt f b m₀ = some (e, m))
    (hmap' : peMapAt f c m₀' = some (e', m')) : Mem.SameAt m b m' c pi.sizeImage := by
  unfold peMapAt at hmap hmap'
  rw [hparse] at hmap hmap'
  cases hmap
  cases hmap'
  apply mapSections_move
  apply blit_move
  intro i hi
  rw [Mem.blit_inside _ _ (by omega) (by omega), Mem.blit_inside _ _ (by omega) (by omega)]

theorem sizeImage_lt (hparse : peParse f = some pi) : pi.sizeImage < 2 ^ 32 := by
  have hlt : ∀ a, f.rd32 a < 2 ^ 32 := fun a => Mem.rd32_lt f a
  unfold peParse at hparse
  dsimp only at hparse
  repeat' split at hparse
  all_goals cases hparse
  all_goals exact hlt _

end Mapping

/-! ## The image at its new base -/

section Linked

variable {pi : PeInfo} {f m : Mem} {base preferred rva last : Nat} {slots : List Place}

theorem linkDelta_mod {w : Nat} (hw : w = 4 ∨ w = 8) (hpref : preferred < 2 ^ 64) (x : Nat) :
    (((x + linkDelta base preferred) % 256 ^ w : Nat) : Int) =
      ((x : Int) + ((base : Int) - preferred)) % 256 ^ w := by
  unfold linkDelta
  rcases hw with rfl | rfl <;> norm_num <;> omega

/-- From one base to a second and on to a third. -/
theorem linkDelta_trans {c w : Nat} (hw : w = 4 ∨ w = 8) (hbase : base < 2 ^ 64)
    (hpref : preferred < 2 ^ 64) :
    linkDelta base preferred + linkDelta c base ≡ linkDelta c preferred [MOD 256 ^ w] := by
  unfold linkDelta Nat.ModEq
  rcases hw with rfl | rfl <;> norm_num <;> omega

/-- Each slot has the distance added once and nothing else changes; relocating in two steps
is relocating in one. When the image lies where it prefers to, no fixup is counted. -/
theorem peRelocate_links {e : Nat} {m₀ : Mem} (hparse : peParse f = some pi)
    (hmap : peMapAt f base m₀ = some (e, m)) (hbase : base < 2 ^ 64) (hpref : preferred < 2 ^ 64)
    (himg : Relocatable pi (m.shift base) rva last slots) :
    (∀ a, (∀ s ∈ slots, a < base + s.off ∨ base + s.off + s.width ≤ a) →
      (peRelocate base preferred m).2 a = m a) ∧
    (∀ s ∈ slots, ((peRelocate base preferred m).2.read (base + s.off) s.width : Int) =
      (m.read (base + s.off) s.width + ((base : Int) - preferred)) % 256 ^ s.width) ∧
    (peRelocate base preferred m).1 = (if base = preferred then 0 else slots.length) ∧
    ∀ c < 2 ^ 64, ∀ moved m₀' e' m',
      Mem.SameAt (peRelocate base preferred m).2 base moved c pi.sizeImage →
      peMapAt f c m₀' = some (e', m') →
      Mem.SameAt (peRelocate c preferred m').2 c (peRelocate c base moved).2 c pi.sizeImage := by
  have hsize := sizeImage_lt hparse
  rw [peRelocate_eq himg hbase hpref hsize]
  refine ⟨fun a ha => ?_, fun s hs => ?_, rfl, fun c hc moved m₀' e' m' hmoved hmap' => ?_⟩
  · exact Place.addAll_outside ha
  · dsimp only
    rw [Place.read_addAll himg.apart hs]
    exact linkDelta_mod (himg.width hs) hpref _
  · have hin : ∀ s ∈ slots, s.off + s.width ≤ pi.sizeImage := fun s hs => (himg.slotsIn s hs).2
    have hmapped := peMapAt_move hparse hmap hmap'
    have himg' := himg.move hmapped
    have hmoved' := (himg.patched (linkDelta base preferred)).move hmoved
    rw [peRelocate_eq himg' hc hpref hsize, peRelocate_eq hmoved' hc hbase hsize]
    -- both are the patched image at the first base, moved
    have htwo := Place.addAll_move (d := linkDelta c base) hmoved hin
    rw [Place.addAll_addAll himg.apart, Place.addAll_congr himg.apart fun s hs =>
      linkDelta_trans (himg.width hs) hbase hpref] at htwo
    have hone := Place.addAll_move (d := linkDelta c preferred) hmapped hin
    exact fun o ho => (htwo o ho).trans (hone o ho).symm

/-- A PE32+ file with one section, which holds a relocation directory of one block with one
64-bit fixup and the slot it is for. -/
def oneSlotFile : Mem :=
  ([(0x00, 2, 0x5A4D), (0x3C, 4, 0x40), (0x40, 4, 0x4550), (0x44, 2, 0x8664), (0x46, 2, 1),
    (0x54, 2, 0xF0), (0x58, 2, 0x20B), (0x70, 8, 0x140000000), (0x90, 4, 0x3000), (0x94, 4, 0x200),
    (0xC4, 4, 16), (0xF0, 4, 0x1000), (0xF4, 4, 12), (0x154, 4, 0x1000), (0x158, 4, 0x18),
    (0x15C, 4, 0x200), (0x200, 4, 0x1000), (0x204, 4, 12), (0x208, 2, 0xA010),
    (0x210, 8, 0x140001234)] : List (Nat × Nat × Nat)).foldl
    (fun m w => m.write w.1 w.2.1 w.2.2) fun _ => 0

def oneSlotInfo : PeInfo :=
  { machine := 0x8664, magic := 0x20B, is64 := true, nsec := 1, entryRva := 0
    preferred := 0x140000000, sizeImage := 0x3000, sizeHdrs := 0x200, ndirs := 16, dirOff := 112
    secOff := 0x148 }

theorem oneSlot_parse : peParse oneSlotFile = some oneSlotInfo := by decide +kernel

/-- The file mapped at `base` over empty memory. -/
def oneSlotMapped (base : Nat) : Mem :=
  mapSections oneSlotFile base 0x148 1
    ((Mem.blit (fun _ => 0) base 0x3000 fun _ => 0).blit base 0x200 oneSlotFile)

theorem oneSlot_mapped (base : Nat) :
    peMapAt oneSlotFile base (fun _ => 0) = some (base, oneSlotMapped base) := by
  simp only [peMapAt, oneSlot_parse, Option.map_some, oneSlotInfo, oneSlotMapped, Nat.add_zero]

theorem oneSlot_directory :
    optHeader (oneSlotMapped 0) 0 = 0x58 ∧ (dirTable (oneSlotMapped 0) 0).1 = 112 ∧
      getDir (oneSlotMapped 0) 0 5 = (0x1000, 12) ∧ (oneSlotMapped 0).rd32 0x1004 = 12 ∧
      blockFixups (oneSlotMapped 0) 0x1000 2 = [⟨0x1010, 8⟩] := by
  decide +kernel

theorem oneSlot_relocatable (base : Nat) :
    Relocatable oneSlotInfo ((oneSlotMapped base).shift base) 0x1000 0x100C [⟨0x1010, 8⟩] := by
  have hzero : (oneSlotMapped 0).shift 0 = oneSlotMapped 0 := by
    funext i
    exact congrArg _ (Nat.zero_add i)
  obtain ⟨hopt, htable, hdir, hsize, hslots⟩ := oneSlot_directory
  have himg : Relocatable oneSlotInfo ((oneSlotMapped 0).shift 0) 0x1000 0x100C [⟨0x1010, 8⟩] := by
    rw [hzero]
    refine ⟨?_, by decide, by rw [hdir], by decide, ?_, by decide, by decide, by decide,
      List.pairwise_singleton ..⟩
    · rw [hopt, htable]
      decide
    · rw [hdir]
      have hrest : Blocks (oneSlotMapped 0) (0x1000 + 12) (0x1000 + (oneSlotMapped 0).rd32 (0x1000 + 4))
          0x100C [] := by
        rw [hsize]
        exact .done (Nat.le_refl _)
      have hblock := Blocks.block (by decide) (by rw [hsize]; decide) hrest
      rw [hsize] at hblock
      change Blocks _ _ _ _ (blockFixups (oneSlotMapped 0) 0x1000 2 ++ []) at hblock
      rw [hslots] at hblock
      exact hblock
  exact himg.move (peMapAt_move oneSlot_parse (oneSlot_mapped 0) (oneSlot_mapped base))

theorem peRelocate_links_oneSlot :
    (peRelocate 0x150000000 0x140000000 (oneSlotMapped 0x150000000)).1 = 1 ∧
      ((peRelocate 0x150000000 0x140000000 (oneSlotMapped 0x150000000)).2.read 0x150001010 8 : Int) =
        ((oneSlotMapped 0x150000000).read 0x150001010 8 + (0x150000000 - 0x140000000)) % 256 ^ 8 := by
  obtain ⟨-, hslots, hcount, -⟩ := peRelocate_links oneSlot_parse
    (oneSlot_mapped 0x150000000) (by decide) (by decide : 0x140000000 < 2 ^ 64) (oneSlot_relocatable _)
  exact ⟨hcount, hslots ⟨0x1010, 8⟩ (.head _)⟩

/-- An image that lies where it prefers to has its slot, and no fixup is counted. -/
theorem oneSlot_in_place :
    peMap oneSlotFile (fun _ => 0) = some (0x140000000, oneSlotMapped 0x140000000) ∧
    Relocatable oneSlotInfo ((oneSlotMapped 0x140000000).shift 0x140000000) 0x1000 0x100C
      [⟨0x1010, 8⟩] ∧
    (peRelocate 0x140000000 oneSlotInfo.preferred (oneSlotMapped 0x140000000)).1 ≠
      [(⟨0x1010, 8⟩ : Place)].length := by
  refine ⟨?_, oneSlot_relocatable _, ?_⟩
  · unfold peMap
    rw [oneSlot_parse]
    exact oneSlot_mapped _
  · have hzero : peRelocate 0x140000000 oneSlotInfo.preferred (oneSlotMapped 0x140000000) =
        (0, oneSlotMapped 0x140000000) := by
      unfold peRelocate
      exact if_pos rfl
    rw [hzero]
    decide

end Linked

end MeuOS.Ldr
