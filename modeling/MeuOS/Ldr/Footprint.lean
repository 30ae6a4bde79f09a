import MeuOS.Ldr.Relocate

/-! Which bytes the loader touches: the places of the file that are read and the places of memory
that are written or read while an image is mapped and relocated. Nothing in the loader knows how long
the file is. -/
namespace MeuOS.Ldr

open MeuOS.Lib

/-- All in `[lo, hi)`. -/
def Within (lo hi : Nat) (l : List Place) : Prop :=
  ∀ s ∈ l, s.width = 0 ∨ lo ≤ s.off ∧ s.off + s.width ≤ hi

/-! ## Mapping -/

/-- What `pe_parse` reads of a file it accepts. -/
def parseReads (f : Mem) (is64 : Bool) : List Place :=
  let nt := f.rd32 0x3C
  let coff := nt + 4
  let opt := optHeader f 0
  [⟨0, 2⟩, ⟨0x3C, 4⟩, ⟨nt, 4⟩, ⟨coff, 4⟩, ⟨coff + 16, 2⟩, ⟨opt, 2⟩, ⟨opt + 16, 4⟩, ⟨opt + 56, 8⟩] ++
    if is64 then [⟨opt + 24, 8⟩, ⟨opt + 108, 4⟩] else [⟨opt + 28, 4⟩, ⟨opt + 92, 4⟩]

/-- The header of section `s`: `va`, `rs` and `rp`. -/
def sectionReads (f : Mem) (secOff s : Nat) : List Place :=
  let sh := secOff + 40 * s
  ⟨sh + 12, 12⟩ ::
    (List.range (f.rd32 (sh + 16))).map fun n => ⟨(f.rd32 (sh + 20) + n) % 2 ^ 32, 1⟩

def sectionWrites (f : Mem) (base secOff s : Nat) : List Place :=
  let sh := secOff + 40 * s
  (List.range (f.rd32 (sh + 16))).map fun n => ⟨base + (f.rd32 (sh + 12) + n) % 2 ^ 32, 1⟩

/-- What `pe_map_at` reads of the file. -/
def mapReads (f : Mem) (pi : PeInfo) : List Place :=
  parseReads f pi.is64 ++ ⟨0, pi.sizeHdrs⟩ ::
    (List.range pi.nsec).flatMap fun s => sectionReads f pi.secOff s

/-- What `pe_map_at` writes. -/
def mapWrites (f : Mem) (base : Nat) (pi : PeInfo) : List Place :=
  ⟨base, pi.sizeImage⟩ :: ⟨base, pi.sizeHdrs⟩ ::
    (List.range pi.nsec).flatMap fun s => sectionWrites f base pi.secOff s

/-- The two memories agree on all of the places. -/
def AgreeOn (m m' : Mem) (l : List Place) : Prop := ∀ s ∈ l, Mem.Agree m m' s.off (s.off + s.width)

section Mapping

variable {f f' m : Mem} {base : Nat} {pi : PeInfo}

theorem copySection_outside {img va rp n i : Nat}
    (h : ∀ j < n, i ≠ img + (va + j) % 2 ^ 32) : copySection f img va rp n m i = m i := by
  induction n with
  | zero => rfl
  | succ n ih =>
    unfold copySection
    rw [Mem.put_other _ _ (h n (Nat.lt_succ_self n))]
    exact ih fun j hj => h j (Nat.lt_succ_of_lt hj)

theorem copySection_congr {img va rp n : Nat} (h : ∀ j < n, f' ((rp + j) % 2 ^ 32) = f ((rp + j) % 2 ^ 32)) :
    copySection f' img va rp n m = copySection f img va rp n m := by
  induction n with
  | zero => rfl
  | succ n ih =>
    unfold copySection
    rw [h n (Nat.lt_succ_self n), ih fun j hj => h j (Nat.lt_succ_of_lt hj)]

theorem mapSections_outside {secOff nsec i : Nat}
    (h : ∀ s < nsec, ∀ p ∈ sectionWrites f base secOff s, i < p.off ∨ p.off + p.width ≤ i) :
    mapSections f base secOff nsec m i = m i := by
  induction nsec with
  | zero => rfl
  | succ s ih =>
    unfold mapSections
    rw [copySection_outside fun j hj heq => ?_, ih fun t ht => h t (Nat.lt_succ_of_lt ht)]
    have hout := h s (Nat.lt_succ_self s) ⟨_, 1⟩ (List.mem_map_of_mem (List.mem_range.2 hj))
    dsimp only at hout
    omega

theorem mapSections_congr {secOff nsec : Nat}
    (h : ∀ s < nsec, AgreeOn f f' (sectionReads f secOff s)) :
    mapSections f' base secOff nsec m = mapSections f base secOff nsec m := by
  induction nsec with
  | zero => rfl
  | succ s ih =>
    have hlast := h s (Nat.lt_succ_self s)
    have hheader := (hlast _ List.mem_cons_self).symm
    dsimp only at hheader
    unfold mapSections
    dsimp only
    rw [ih fun t ht => h t (Nat.lt_succ_of_lt ht), Mem.rd32_congr (hheader.mono (by omega) (by omega)),
      Mem.rd32_congr (hheader.mono (by omega) (by omega)), Mem.rd32_congr (hheader.mono (by omega)
          (by omega))]
    refine copySection_congr fun j hj => ?_
    exact (hlast ⟨_, 1⟩ (List.mem_cons_of_mem _ (List.mem_map_of_mem (List.mem_range.2 hj))) _
      (Nat.le_refl _) (Nat.lt_succ_self _)).symm

/-- Nothing else is written. -/
theorem peMapAt_outside {e i : Nat} {m' : Mem} (hparse : peParse f = some pi)
    (hmap : peMapAt f base m = some (e, m'))
    (h : ∀ p ∈ mapWrites f base pi, i < p.off ∨ p.off + p.width ≤ i) : m' i = m i := by
  unfold peMapAt at hmap
  rw [hparse] at hmap
  cases hmap
  unfold mapWrites at h
  rw [mapSections_outside fun s hs p hp => h p (List.mem_cons_of_mem _ (List.mem_cons_of_mem _
      (List.mem_flatMap.2 ⟨s, List.mem_range.2 hs, hp⟩))),
    Mem.blit_outside _ _ (h _ (List.mem_cons_of_mem _ List.mem_cons_self)),
    Mem.blit_outside _ _ (h _ List.mem_cons_self)]

theorem peParse_is64 (hparse : peParse f = some pi) :
    (f.rd16 (optHeader f 0) = 0x20B ∧ pi.is64 = true ∧ pi.dirOff = 112) ∨
      (f.rd16 (optHeader f 0) = 0x10B ∧ pi.is64 = false ∧ pi.dirOff = 96) := by
  unfold peParse at hparse
  dsimp only at hparse
  split at hparse
  · cases hparse
  split at hparse
  · cases hparse
  split at hparse
  · rename_i hmagic
    cases hparse
    exact .inl ⟨hmagic, rfl, rfl⟩
  · split at hparse
    · rename_i hmagic
      cases hparse
      exact .inr ⟨hmagic, rfl, rfl⟩
    · cases hparse

/-- A file with the same bytes at these places is parsed in the same way. -/
theorem peParse_congr (hparse : peParse f = some pi) (h : AgreeOn f f' (parseReads f pi.is64)) :
    peParse f' = some pi := by
  have hplace : ∀ p ∈ parseReads f pi.is64, Mem.Agree f f' p.off (p.off + p.width) := h
  unfold parseReads at hplace
  simp only [List.cons_append, List.nil_append, List.forall_mem_cons] at hplace
  obtain ⟨hmz, he, hnt, hcoff, hopt, hmagic, hentry, hsizes, hrest⟩ := hplace
  have hbyte : ∀ {lo hi i}, Mem.Agree f f' lo hi → lo ≤ i → i < hi → f' i = f i :=
    fun hagree hlo hhi => (hagree _ hlo hhi).symm
  have hword : ∀ {lo hi a w}, Mem.Agree f f' lo hi → lo ≤ a → a + w ≤ hi → f'.read a w = f.read a w :=
    fun hagree hlo hhi => (Mem.read_congr (hagree.mono hlo hhi)).symm
  have hlfa : f'.rd32 0x3C = f.rd32 0x3C := hword he (Nat.le_refl _) (Nat.le_refl _)
  have hheader : optHeader f' 0 = optHeader f 0 := by
    show 0 + f'.rd32 0x3C + 4 + 20 = 0 + f.rd32 0x3C + 4 + 20
    rw [hlfa]
  have hm : f' 0 = f 0 := hbyte hmz (Nat.zero_le 0) (by decide)
  have hz : f' 1 = f 1 := hbyte hmz (Nat.zero_le 1) (by decide)
  have hp : f' (f.rd32 0x3C) = f (f.rd32 0x3C) := hbyte hnt (Nat.le_refl _) (by omega)
  have he : f' (f.rd32 0x3C + 1) = f (f.rd32 0x3C + 1) := hbyte hnt (Nat.le_add_right _ 1) (by omega)
  have h2 : f' (f.rd32 0x3C + 2) = f (f.rd32 0x3C + 2) := hbyte hnt (Nat.le_add_right _ 2) (by omega)
  have h3 : f' (f.rd32 0x3C + 3) = f (f.rd32 0x3C + 3) := hbyte hnt (Nat.le_add_right _ 3) (by omega)
  have hmachine : f'.rd16 (f.rd32 0x3C + 4) = f.rd16 (f.rd32 0x3C + 4) := hword hcoff (Nat.le_refl _)
      (by omega)
  have hnsec : f'.rd16 (f.rd32 0x3C + 4 + 2) = f.rd16 (f.rd32 0x3C + 4 + 2) :=
    hword hcoff (Nat.le_add_right _ 2) (by omega)
  have hoptsz : f'.rd16 (f.rd32 0x3C + 4 + 16) = f.rd16 (f.rd32 0x3C + 4 + 16) :=
    hword hopt (Nat.le_refl _) (Nat.le_refl _)
  have hrva : f'.rd32 (optHeader f 0 + 16) = f.rd32 (optHeader f 0 + 16) :=
    hword hentry (Nat.le_refl _) (Nat.le_refl _)
  have himage : f'.rd32 (optHeader f 0 + 56) = f.rd32 (optHeader f 0 + 56) :=
    hword hsizes (Nat.le_refl _) (by omega)
  have hhdrs : f'.rd32 (optHeader f 0 + 60) = f.rd32 (optHeader f 0 + 60) :=
    hword hsizes (by omega) (by omega)
  have hsame : f'.rd16 (optHeader f 0) = f.rd16 (optHeader f 0) := hword hmagic (Nat.le_refl _)
      (Nat.le_refl _)
  rw [← hparse]
  unfold peParse
  dsimp only
  rw [hheader, hlfa, hsame, hm, hz, hp, he, h2, h3, hmachine, hnsec, hoptsz, hrva, himage, hhdrs]
  rcases peParse_is64 hparse with ⟨hwide, h64, -⟩ | ⟨hnarrow, h32, -⟩
  · rw [h64, if_pos rfl] at hrest
    simp only [List.forall_mem_cons] at hrest
    have hbase : f'.rd64 (optHeader f 0 + 24) = f.rd64 (optHeader f 0 + 24) :=
      hword hrest.1 (Nat.le_refl _) (Nat.le_refl _)
    have hdirs : f'.rd32 (optHeader f 0 + 108) = f.rd32 (optHeader f 0 + 108) :=
      hword hrest.2.1 (Nat.le_refl _) (Nat.le_refl _)
    rw [hwide, if_pos rfl, if_pos rfl, hbase, hdirs]
  · rw [h32, if_neg Bool.false_ne_true] at hrest
    simp only [List.forall_mem_cons] at hrest
    have hbase : f'.rd32 (optHeader f 0 + 28) = f.rd32 (optHeader f 0 + 28) :=
      hword hrest.1 (Nat.le_refl _) (Nat.le_refl _)
    have hdirs : f'.rd32 (optHeader f 0 + 92) = f.rd32 (optHeader f 0 + 92) :=
      hword hrest.2.1 (Nat.le_refl _) (Nat.le_refl _)
    have hother : ¬ 0x10B = 0x20B := by decide
    rw [hnarrow, if_neg hother, if_neg hother, if_pos rfl, if_pos rfl, hbase, hdirs]

/-- Nothing else is read. -/
theorem peMapAt_congr (hparse : peParse f = some pi) (h : AgreeOn f f' (mapReads f pi)) :
    peMapAt f' base m = peMapAt f base m := by
  unfold mapReads at h
  have hparse' : peParse f' = some pi :=
    peParse_congr hparse fun p hp => h p (List.mem_append_left _ hp)
  have hheaders : Mem.Agree f f' 0 (0 + pi.sizeHdrs) := 
    h ⟨0, pi.sizeHdrs⟩ (List.mem_append_right _ List.mem_cons_self)
  have hblit : ∀ m : Mem, m.blit base pi.sizeHdrs f' = m.blit base pi.sizeHdrs f := by
    intro m
    funext i
    by_cases hi : base ≤ i ∧ i < base + pi.sizeHdrs
    · rw [Mem.blit_inside _ _ hi.1 hi.2, Mem.blit_inside _ _ hi.1 hi.2]
      exact (hheaders _ (Nat.zero_le _) (by omega)).symm
    · rw [Mem.blit_outside _ _ (by omega), Mem.blit_outside _ _ (by omega)]
  unfold peMapAt
  rw [hparse, hparse', Option.map_some, Option.map_some]
  dsimp only
  rw [hblit, mapSections_congr fun s hs p hp =>
    h p (List.mem_append_right _ (List.mem_cons_of_mem _ (List.mem_flatMap.2 ⟨s, List.mem_range.2 hs, hp⟩)))]

/-! ## What has to fit -/

/-- The optional header, the headers and the section table are in the file, and each section is in the
file and in the image. -/
structure Fits (f : Mem) (len : Nat) (pi : PeInfo) : Prop where
  optional : optHeader f 0 + pi.dirOff ≤ len
  headers : pi.sizeHdrs ≤ len ∧ pi.sizeHdrs ≤ pi.sizeImage
  table : ∀ s < pi.nsec, pi.secOff + 40 * s + 24 ≤ len
  sections : ∀ s < pi.nsec, f.rd32 (pi.secOff + 40 * s + 16) = 0 ∨
    f.rd32 (pi.secOff + 40 * s + 12) + f.rd32 (pi.secOff + 40 * s + 16) ≤ pi.sizeImage ∧
    (f.rd32 (pi.secOff + 40 * s + 20) + f.rd32 (pi.secOff + 40 * s + 16) ≤ len ∨ 2 ^ 32 ≤ len)

/-- The 32-bit offsets of a section: they wrap if the section does not end below `2^32`. -/
theorem wrapped_lt_iff (len : Nat) {start n : Nat} (hstart : start < 2 ^ 32) (hn : n ≠ 0) :
    (∀ j < n, (start + j) % 2 ^ 32 < len) ↔ start + n ≤ len ∨ 2 ^ 32 ≤ len := by
  constructor
  · intro h
    by_cases hwrap : start + n ≤ 2 ^ 32
    · have hlast := h (n - 1) (by omega)
      rw [Nat.mod_eq_of_lt (by omega)] at hlast
      omega
    · have hlast := h (2 ^ 32 - 1 - start) (by omega)
      rw [Nat.mod_eq_of_lt (by omega)] at hlast
      omega
  · intro h j hj
    have hlt := Nat.mod_lt (start + j) (show 2 ^ 32 > 0 by decide)
    have hle := Nat.mod_le (start + j) (2 ^ 32)
    omega

theorem within_append {lo hi : Nat} {l l' : List Place} :
    Within lo hi (l ++ l') ↔ Within lo hi l ∧ Within lo hi l' := List.forall_mem_append

theorem within_cons {lo hi : Nat} {p : Place} {l : List Place} :
    Within lo hi (p :: l) ↔ (p.width = 0 ∨ lo ≤ p.off ∧ p.off + p.width ≤ hi) ∧ Within lo hi l :=
  List.forall_mem_cons

theorem within_flatMap {lo hi n : Nat} {g : Nat → List Place} :
    Within lo hi ((List.range n).flatMap g) ↔ ∀ s < n, Within lo hi (g s) := by
  constructor
  · exact fun h s hs p hp => h p (List.mem_flatMap.2 ⟨s, List.mem_range.2 hs, hp⟩)
  · intro h p hp
    obtain ⟨s, hs, hp⟩ := List.mem_flatMap.1 hp
    exact h s (List.mem_range.1 hs) p hp

theorem within_bytes {lo hi n : Nat} {at' : Nat → Nat} :
    Within lo hi ((List.range n).map fun j => ⟨at' j, 1⟩) ↔ ∀ j < n, lo ≤ at' j ∧ at' j < hi := by
  constructor
  · intro h j hj
    have hplace := h ⟨at' j, 1⟩ (List.mem_map_of_mem (List.mem_range.2 hj))
    exact (hplace.resolve_left Nat.one_ne_zero)
  · intro h p hp
    obtain ⟨j, hj, rfl⟩ := List.mem_map.1 hp
    exact .inr (h j (List.mem_range.1 hj))

theorem parseReads_within (hparse : peParse f = some pi) {len : Nat} :
    Within 0 len (parseReads f pi.is64) ↔ optHeader f 0 + pi.dirOff ≤ len := by
  have hopt : optHeader f 0 = f.rd32 0x3C + 24 := by
    unfold optHeader
    rw [show 0 + f.rd32 (0 + 0x3C) + 4 + 20 = f.rd32 (0 + 0x3C) + 24 by omega, Nat.zero_add]
  unfold parseReads
  rw [within_append]
  simp only [within_cons]
  rcases peParse_is64 hparse with ⟨-, h64, hoff⟩ | ⟨-, h32, hoff⟩
  · rw [h64, hoff, if_pos rfl]
    simp only [within_cons]
    have hnil : Within 0 len [] := List.forall_mem_nil _
    constructor
    · intro h
      omega
    · intro h
      simp only [hnil, and_true]
      omega
  · rw [h32, hoff, if_neg Bool.false_ne_true]
    simp only [within_cons]
    have hnil : Within 0 len [] := List.forall_mem_nil _
    constructor
    · intro h
      omega
    · intro h
      simp only [hnil, and_true]
      omega

/-- Mapping stays in the file and in the image exactly for images that fit. -/
theorem map_within_iff (hparse : peParse f = some pi) (len base : Nat) :
    (Within 0 len (mapReads f pi) ∧ Within base (base + pi.sizeImage) (mapWrites f base pi)) ↔
      Fits f len pi := by
  have himage := sizeImage_lt hparse
  have hsection : ∀ s, (Within 0 len (sectionReads f pi.secOff s) ∧
      Within base (base + pi.sizeImage) (sectionWrites f base pi.secOff s)) ↔
      pi.secOff + 40 * s + 24 ≤ len ∧ (f.rd32 (pi.secOff + 40 * s + 16) = 0 ∨
        f.rd32 (pi.secOff + 40 * s + 12) + f.rd32 (pi.secOff + 40 * s + 16) ≤ pi.sizeImage ∧
        (f.rd32 (pi.secOff + 40 * s + 20) + f.rd32 (pi.secOff + 40 * s + 16) ≤ len ∨ 2 ^ 32 ≤ len)) := by
    intro s
    have hva := f.rd32_lt (pi.secOff + 40 * s + 12)
    have hrp := f.rd32_lt (pi.secOff + 40 * s + 20)
    unfold sectionReads sectionWrites
    dsimp only
    rw [within_cons, within_bytes, within_bytes]
    generalize f.rd32 (pi.secOff + 40 * s + 16) = rs
    generalize f.rd32 (pi.secOff + 40 * s + 12) = va at hva ⊢
    generalize f.rd32 (pi.secOff + 40 * s + 20) = rp at hrp ⊢
    by_cases hrs : rs = 0
    · subst hrs
      constructor
      · rintro ⟨⟨hheader, -⟩, -⟩
        dsimp only at hheader
        exact ⟨by omega, .inl rfl⟩
      · rintro ⟨hheader, -⟩
        exact ⟨⟨.inr ⟨Nat.zero_le _, by omega⟩, fun j hj => absurd hj (Nat.not_lt_zero j)⟩,
          fun j hj => absurd hj (Nat.not_lt_zero j)⟩
    · rw [or_iff_right hrs, ← wrapped_lt_iff len hrp hrs]
      have hwrites := wrapped_lt_iff pi.sizeImage hva hrs
      rw [or_iff_left (by omega)] at hwrites
      rw [← hwrites]
      constructor
      · rintro ⟨⟨hheader, hreads⟩, hwritten⟩
        dsimp only at hheader
        refine ⟨by omega, fun j hj => ?_, fun j hj => (hreads j hj).2⟩
        have hlast := (hwritten j hj).2
        omega
      · rintro ⟨hheader, hwritten, hreads⟩
        refine ⟨⟨.inr ⟨Nat.zero_le _, by omega⟩, fun j hj => ⟨Nat.zero_le _, hreads j hj⟩⟩, fun j hj => ?_⟩
        have hlast := hwritten j hj
        omega
  unfold mapReads mapWrites
  rw [within_append, within_cons, within_cons, within_cons, within_flatMap, within_flatMap,
    parseReads_within hparse]
  constructor
  · rintro ⟨⟨hoptional, hheaders, hreads⟩, -, hwritten, hwrites⟩
    refine ⟨hoptional, by dsimp only at hheaders hwritten; omega, fun s hs => ?_, fun s hs => ?_⟩
    · exact ((hsection s).1 ⟨hreads s hs, hwrites s hs⟩).1
    · exact ((hsection s).1 ⟨hreads s hs, hwrites s hs⟩).2
  · rintro ⟨hoptional, ⟨hheaders, hwritten⟩, htable, hsections⟩
    have hall : ∀ s < pi.nsec, _ := fun s hs => (hsection s).2 ⟨htable s hs, hsections s hs⟩
    exact ⟨⟨hoptional, .inr ⟨Nat.zero_le _, by dsimp only; omega⟩, fun s hs => (hall s hs).1⟩,
      .inr ⟨Nat.le_refl _, Nat.le_refl _⟩, .inr ⟨Nat.le_refl _, by dsimp only; omega⟩,
      fun s hs => (hall s hs).2⟩

end Mapping

/-! ## Relocation -/

/-- What `get_dir` reads. -/
def dirReads (m : Mem) (b idx : Nat) : List Place :=
  let opt := optHeader m b
  [⟨b + 0x3C, 4⟩, ⟨opt, 2⟩, ⟨opt + if m.rd16 opt = 0x20B then 108 else 92, 4⟩] ++
    if (dirTable m b).2 ≤ idx then [] else [⟨opt + (dirTable m b).1 + 8 * idx, 8⟩]

/-- The first `n` entries of the block at `p`: each is read, and its slot is read and written. -/
def entriesTouches (b delta page p : Nat) : Nat → Nat × Mem → List Place
  | 0, _ => []
  | n + 1, r =>
      let done := relocEntries b delta page p n r
      entriesTouches b delta page p n r ++ ⟨p + 8 + 2 * n, 2⟩ ::
        (fixup page (done.2.rd16 (p + 8 + 2 * n))).toList.map fun s => ⟨b + s.off, s.width⟩

/-- The blocks from `p` on, as `relocBlocks` takes them. -/
def blocksTouches (b delta stop p : Nat) (r : Nat × Mem) : List Place :=
  if p < stop then
    let size := r.2.rd32 (p + 4)
    ⟨p, 8⟩ :: if size < 8 then []
    else
      entriesTouches b delta (r.2.rd32 p) p ((size - 8) / 2) r ++
        blocksTouches b delta stop (p + size) (relocEntries b delta (r.2.rd32 p) p ((size - 8) / 2) r)
  else []
termination_by stop - p

/-- What `pe_relocate` reads and writes. -/
def relocTouches (base preferred : Nat) (m : Mem) : List Place :=
  if linkDelta base preferred = 0 then []
  else
    let reloc := getDir m base 5
    dirReads m base 5 ++
      if reloc.1 = 0 ∨ reloc.2 = 0 then []
      else blocksTouches base (linkDelta base preferred) (base + reloc.1 + reloc.2) (base + reloc.1) (0, m)

/-- The blocks of a directory, as they are before any fixup. -/
def blockRanges (img : Mem) (stop p : Nat) : List Place :=
  if p < stop then
    let size := img.rd32 (p + 4)
    ⟨p, 8 + 2 * ((size - 8) / 2)⟩ :: if size < 8 then [] else blockRanges img stop (p + size)
  else []
termination_by stop - p

/-- The slots of a directory, as they are before any fixup. -/
def directorySlots (img : Mem) (stop p : Nat) : List Place :=
  if p < stop then
    let size := img.rd32 (p + 4)
    if size < 8 then [] else blockFixups img p ((size - 8) / 2) ++ directorySlots img stop (p + size)
  else []
termination_by stop - p

section Touches

variable {m img : Mem} {b d page p n stop i : Nat} {r : Nat × Mem}

theorem relocEntry_outside {ent : Nat}
    (h : ∀ s ∈ (fixup page ent).toList, i < b + s.off ∨ b + s.off + s.width ≤ i) :
    (relocEntry b d page ent r).2 i = r.2 i := by
  unfold relocEntry
  unfold fixup at h
  by_cases hlow : ent / 2 ^ 12 = 3
  · rw [if_pos hlow] at h ⊢
    have hslot := h _ (List.mem_singleton_self _)
    dsimp only at hslot ⊢
    exact Mem.write_outside _ _ (by omega)
  · rw [if_neg hlow] at h ⊢
    by_cases hwide : ent / 2 ^ 12 = 10
    · rw [if_pos hwide] at h ⊢
      have hslot := h _ (List.mem_singleton_self _)
      dsimp only at hslot ⊢
      exact Mem.write_outside _ _ (by omega)
    · rw [if_neg hwide]

theorem relocEntries_outside
    (h : ∀ s ∈ entriesTouches b d page p n r, i < s.off ∨ s.off + s.width ≤ i) :
    (relocEntries b d page p n r).2 i = r.2 i := by
  induction n with
  | zero => rfl
  | succ n ih =>
    unfold entriesTouches at h
    unfold relocEntries
    dsimp only at h ⊢
    rw [relocEntry_outside fun s hs => h ⟨b + s.off, s.width⟩
      (List.mem_append_right _ (List.mem_cons_of_mem _ (List.mem_map_of_mem hs)))]
    exact ih fun s hs => h s (List.mem_append_left _ hs)

theorem relocBlocks_outside (h : ∀ s ∈ blocksTouches b d stop p r, i < s.off ∨ s.off + s.width ≤ i) :
    (relocBlocks b d stop p r).2 i = r.2 i := by
  induction p, r using relocBlocks.induct b d stop with
  | case1 p r hp size hsize =>
    rw [relocBlocks, if_pos hp, if_pos hsize]
  | case2 p r hp size hsize ih =>
    rw [blocksTouches, if_pos hp] at h
    dsimp only at h
    rw [if_neg hsize] at h
    rw [relocBlocks, if_pos hp]
    dsimp only
    rw [if_neg hsize, ih fun s hs => h s (List.mem_cons_of_mem _ (List.mem_append_right _ hs))]
    exact relocEntries_outside fun s hs => h s (List.mem_cons_of_mem _ (List.mem_append_left _ hs))
  | case3 p r hp => rw [relocBlocks, if_neg hp]

theorem peRelocate_cases (base preferred : Nat) (m : Mem) :
    (linkDelta base preferred = 0 ∧ peRelocate base preferred m = (0, m) ∧
        relocTouches base preferred m = []) ∨
    (linkDelta base preferred ≠ 0 ∧ ((getDir m base 5).1 = 0 ∨ (getDir m base 5).2 = 0) ∧
      peRelocate base preferred m = (0, m) ∧ relocTouches base preferred m = dirReads m base 5) ∨
    (linkDelta base preferred ≠ 0 ∧ (getDir m base 5).1 ≠ 0 ∧ (getDir m base 5).2 ≠ 0 ∧
      peRelocate base preferred m = relocBlocks base (linkDelta base preferred)
        (base + (getDir m base 5).1 + (getDir m base 5).2) (base + (getDir m base 5).1) (0, m) ∧
      relocTouches base preferred m = dirReads m base 5 ++ blocksTouches base (linkDelta base preferred)
        (base + (getDir m base 5).1 + (getDir m base 5).2) (base + (getDir m base 5).1) (0, m)) := by
  have hrun : peRelocate base preferred m = if linkDelta base preferred = 0 then (0, m)
      else if (getDir m base 5).1 = 0 ∨ (getDir m base 5).2 = 0 then (0, m)
      else relocBlocks base (linkDelta base preferred) (base + (getDir m base 5).1 + (getDir m base 5).2)
        (base + (getDir m base 5).1) (0, m) := rfl
  rw [hrun]
  unfold relocTouches
  dsimp only
  by_cases hdelta : linkDelta base preferred = 0
  · rw [if_pos hdelta, if_pos hdelta]
    exact .inl ⟨hdelta, rfl, rfl⟩
  rw [if_neg hdelta, if_neg hdelta]
  by_cases hnone : (getDir m base 5).1 = 0 ∨ (getDir m base 5).2 = 0
  · rw [if_pos hnone, if_pos hnone, List.append_nil]
    exact .inr (.inl ⟨hdelta, hnone, rfl, rfl⟩)
  · rw [if_neg hnone, if_neg hnone]
    rw [not_or] at hnone
    exact .inr (.inr ⟨hdelta, hnone.1, hnone.2, rfl, rfl⟩)

/-- Nothing else is written. -/
theorem peRelocate_outside {base preferred : Nat}
    (h : ∀ s ∈ relocTouches base preferred m, i < s.off ∨ s.off + s.width ≤ i) :
    (peRelocate base preferred m).2 i = m i := by
  obtain ⟨-, hrun, -⟩ | ⟨-, -, hrun, -⟩ | ⟨-, -, -, hrun, htouches⟩ := peRelocate_cases base preferred m
  · rw [hrun]
  · rw [hrun]
  · rw [htouches] at h
    rw [hrun]
    exact relocBlocks_outside fun s hs => h s (List.mem_append_right _ hs)

/-! Two memories that agree on the places are treated alike. -/

variable {m' : Mem} {r' : Nat × Mem} {touched : List Place}

theorem AgreeOn.read (h : AgreeOn m m' touched) {a w : Nat} (hmem : ⟨a, w⟩ ∈ touched) :
    m'.read a w = m.read a w := (Mem.read_congr (h ⟨a, w⟩ hmem)).symm

theorem AgreeOn.write (h : AgreeOn m m' touched) (a w v : Nat) :
    AgreeOn (m.write a w v) (m'.write a w v) touched := by
  intro q hq j hlo hhi
  by_cases hj : a ≤ j ∧ j < a + w
  · unfold Mem.write
    rw [Mem.blit_inside _ _ hj.1 hj.2, Mem.blit_inside _ _ hj.1 hj.2]
  · rw [Mem.write_outside _ _ (by omega), Mem.write_outside _ _ (by omega)]
    exact h q hq j hlo hhi

theorem relocEntry_congr {ent : Nat} (hcount : r'.1 = r.1) (h : AgreeOn r.2 r'.2 touched)
    (hslot : ∀ s ∈ (fixup page ent).toList, ⟨b + s.off, s.width⟩ ∈ touched) :
    (relocEntry b d page ent r').1 = (relocEntry b d page ent r).1 ∧
      AgreeOn (relocEntry b d page ent r).2 (relocEntry b d page ent r').2 touched := by
  unfold relocEntry
  unfold fixup at hslot
  dsimp only
  rw [hcount]
  by_cases hlow : ent / 2 ^ 12 = 3
  · rw [if_pos hlow] at hslot
    rw [if_pos hlow, if_pos hlow]
    have hword := h.read (hslot _ (List.mem_singleton_self _))
    rw [← Nat.add_assoc] at hword
    dsimp only
    rw [Mem.rd32, Mem.rd32, hword]
    exact ⟨rfl, h.write _ _ _⟩
  · rw [if_neg hlow] at hslot
    rw [if_neg hlow, if_neg hlow]
    by_cases hwide : ent / 2 ^ 12 = 10
    · rw [if_pos hwide] at hslot
      rw [if_pos hwide, if_pos hwide]
      have hword := h.read (hslot _ (List.mem_singleton_self _))
      rw [← Nat.add_assoc] at hword
      dsimp only
      rw [Mem.rd64, Mem.rd64, hword]
      exact ⟨rfl, h.write _ _ _⟩
    · rw [if_neg hwide, if_neg hwide]
      exact ⟨hcount, h⟩

theorem relocEntries_congr (hcount : r'.1 = r.1) (h : AgreeOn r.2 r'.2 touched)
    (hsub : ∀ s ∈ entriesTouches b d page p n r, s ∈ touched) :
    (relocEntries b d page p n r').1 = (relocEntries b d page p n r).1 ∧
      AgreeOn (relocEntries b d page p n r).2 (relocEntries b d page p n r').2 touched := by
  induction n with
  | zero => exact ⟨hcount, h⟩
  | succ n ih =>
    unfold entriesTouches at hsub
    unfold relocEntries
    dsimp only at hsub ⊢
    obtain ⟨hdone, hagree⟩ := ih fun s hs => hsub s (List.mem_append_left _ hs)
    have hent := hagree.read (hsub _ (List.mem_append_right _ List.mem_cons_self))
    rw [show (relocEntries b d page p n r').2.rd16 (p + 8 + 2 * n) =
      (relocEntries b d page p n r).2.rd16 (p + 8 + 2 * n) from hent]
    exact relocEntry_congr hdone hagree fun s hs =>
      hsub _ (List.mem_append_right _ (List.mem_cons_of_mem _ (List.mem_map_of_mem hs)))

theorem relocBlocks_congr (hcount : r'.1 = r.1) (h : AgreeOn r.2 r'.2 touched)
    (hsub : ∀ s ∈ blocksTouches b d stop p r, s ∈ touched) :
    (relocBlocks b d stop p r').1 = (relocBlocks b d stop p r).1 ∧
      AgreeOn (relocBlocks b d stop p r).2 (relocBlocks b d stop p r').2 touched := by
  induction p, r using relocBlocks.induct b d stop generalizing r' with
  | case1 p r hp =>
    rename_i hsize
    rw [blocksTouches, if_pos hp] at hsub
    have hheader := h _ (hsub _ List.mem_cons_self)
    dsimp only at hheader
    have hsize' : r'.2.rd32 (p + 4) = r.2.rd32 (p + 4) :=
      (Mem.rd32_congr (hheader.mono (by omega) (by omega))).symm
    rw [relocBlocks, if_pos hp, relocBlocks, if_pos hp]
    dsimp only
    rw [hsize', if_pos hsize, if_pos hsize]
    exact ⟨hcount, h⟩
  | case2 p r hp size hsize =>
    rename_i ih
    rw [blocksTouches, if_pos hp] at hsub
    have hheader := h _ (hsub _ List.mem_cons_self)
    dsimp only at hheader hsub
    rw [if_neg hsize] at hsub
    have hpage : r'.2.rd32 p = r.2.rd32 p := (Mem.rd32_congr (hheader.mono (by omega) (by omega))).symm
    have hsize' : r'.2.rd32 (p + 4) = r.2.rd32 (p + 4) :=
      (Mem.rd32_congr (hheader.mono (by omega) (by omega))).symm
    have hentries := relocEntries_congr (b := b) (d := d) hcount h fun s hs =>
      hsub s (List.mem_cons_of_mem _ (List.mem_append_left _ hs))
    rw [relocBlocks, if_pos hp, relocBlocks, if_pos hp]
    dsimp only
    rw [hpage, hsize', if_neg hsize, if_neg hsize]
    exact ih hentries.1 hentries.2 fun s hs =>
      hsub s (List.mem_cons_of_mem _ (List.mem_append_right _ hs))
  | case3 p r hp =>
    rw [relocBlocks, if_neg hp, relocBlocks, if_neg hp]
    exact ⟨hcount, h⟩

theorem getDir_congr {idx : Nat} (h : AgreeOn m m' (dirReads m b idx)) :
    getDir m' b idx = getDir m b idx := by
  unfold dirReads at h
  dsimp only at h
  have hlfa : m'.rd32 (b + 0x3C) = m.rd32 (b + 0x3C) :=
    h.read (List.mem_append_left _ List.mem_cons_self)
  have hheader : optHeader m' b = optHeader m b := by
    unfold optHeader
    rw [hlfa]
  have hmagic : m'.rd16 (optHeader m b) = m.rd16 (optHeader m b) :=
    h.read (List.mem_append_left _ (List.mem_cons_of_mem _ List.mem_cons_self))
  have hcount : m'.rd32 (optHeader m b + if m.rd16 (optHeader m b) = 0x20B then 108 else 92) =
      m.rd32 (optHeader m b + if m.rd16 (optHeader m b) = 0x20B then 108 else 92) :=
    h.read (List.mem_append_left _ (List.mem_cons_of_mem _ (List.mem_cons_of_mem _ List.mem_cons_self)))
  have htable : dirTable m' b = dirTable m b := by
    unfold dirTable
    rw [hheader, hmagic]
    by_cases hwide : m.rd16 (optHeader m b) = 0x20B
    · rw [if_pos hwide] at hcount
      rw [if_pos hwide, if_pos hwide, hcount]
    · rw [if_neg hwide] at hcount
      rw [if_neg hwide, if_neg hwide, hcount]
  unfold getDir
  rw [htable]
  by_cases hidx : (dirTable m b).2 ≤ idx
  · rw [if_pos hidx, if_pos hidx]
  · rw [if_neg hidx, if_neg hidx, hheader]
    rw [if_neg hidx] at h
    have hentry := h _ (List.mem_append_right _ (List.mem_singleton_self _))
    dsimp only at hentry ⊢
    rw [Mem.rd32_congr (hentry.symm.mono (Nat.le_refl _) (by omega)),
      Mem.rd32_congr (hentry.symm.mono (by omega) (by omega))]

/-- Nothing else is read. -/
theorem peRelocate_congr {base preferred : Nat} (h : AgreeOn m m' (relocTouches base preferred m)) :
    (peRelocate base preferred m').1 = (peRelocate base preferred m).1 ∧
      AgreeOn (peRelocate base preferred m).2 (peRelocate base preferred m').2
        (relocTouches base preferred m) := by
  have hdirs : linkDelta base preferred ≠ 0 →
      (∀ s ∈ dirReads m base 5, s ∈ relocTouches base preferred m) →
      getDir m' base 5 = getDir m base 5 := fun _ hsub => getDir_congr fun s hs => h s (hsub s hs)
  obtain ⟨hdelta, hrun, -⟩ | ⟨hdelta, hempty, hrun, htouches⟩ | ⟨hdelta, hrva, hsize, hrun, htouches⟩ :=
    peRelocate_cases base preferred m
  · obtain ⟨-, hrun', -⟩ | ⟨hother, -⟩ | ⟨hother, -⟩ := peRelocate_cases base preferred m'
    · rw [hrun, hrun']
      exact ⟨rfl, h⟩
    · exact absurd hdelta hother
    · exact absurd hdelta hother
  · have hdir := hdirs hdelta fun s hs => htouches ▸ hs
    obtain ⟨hother, -⟩ | ⟨-, -, hrun', -⟩ | ⟨-, hrva, hsize, -⟩ := peRelocate_cases base preferred m'
    · exact absurd hother hdelta
    · rw [hrun, hrun']
      exact ⟨rfl, h⟩
    · rw [hdir] at hrva hsize
      exact absurd hempty (not_or.2 ⟨hrva, hsize⟩)
  · have hdir := hdirs hdelta fun s hs => htouches ▸ List.mem_append_left _ hs
    obtain ⟨hother, -⟩ | ⟨-, hempty, -⟩ | ⟨-, -, -, hrun', -⟩ := peRelocate_cases base preferred m'
    · exact absurd hother hdelta
    · rw [hdir] at hempty
      exact absurd hempty (not_or.2 ⟨hrva, hsize⟩)
    · rw [hrun, hrun', hdir]
      refine relocBlocks_congr rfl h fun s hs => ?_
      rw [htouches]
      exact List.mem_append_right _ hs

end Touches

/-! ## Relocation inside the image -/

/-- No fixup changes a block of the relocation directory. -/
def SlotsApart (img : Mem) : Prop :=
  let reloc := getDir img 0 5
  ∀ s ∈ directorySlots img (reloc.1 + reloc.2) reloc.1,
    ∀ q ∈ blockRanges img (reloc.1 + reloc.2) reloc.1, s.Apart q

/-- What names the directory is in the image, and if there is a directory, so are its blocks and the
slots they fix. -/
structure RelocFits (img : Mem) (size : Nat) : Prop where
  names : Within 0 size (dirReads img 0 5)
  directory : (getDir img 0 5).1 = 0 ∨ (getDir img 0 5).2 = 0 ∨
    Within 0 size (blockRanges img ((getDir img 0 5).1 + (getDir img 0 5).2) (getDir img 0 5).1) ∧
    Within 0 size (directorySlots img ((getDir img 0 5).1 + (getDir img 0 5).2) (getDir img 0 5).1)

section Inside

variable {m img : Mem} {b d p n stop size : Nat} {r : Nat × Mem}

theorem within_shift (l : List Place) : Within b (b + size) (l.map fun s => ⟨b + s.off, s.width⟩) ↔
    Within 0 size l := by
  have hone : ∀ s : Place, (s.width = 0 ∨ b ≤ b + s.off ∧ b + s.off + s.width ≤ b + size) ↔
      (s.width = 0 ∨ 0 ≤ s.off ∧ s.off + s.width ≤ size) := fun s => by omega
  constructor
  · exact fun h s hs => (hone s).1 (h _ (List.mem_map_of_mem hs))
  · intro h q hq
    obtain ⟨s, hs, rfl⟩ := List.mem_map.1 hq
    exact (hone s).2 (h s hs)

/-- The entries of a block whose header is inside. -/
theorem entriesTouches_within_iff (hr : r.1 < 2 ^ 32)
    (hsame : Mem.Agree (r.2.shift b) img p (p + 8 + 2 * n))
    (hout : ∀ s ∈ blockFixups img p n, s.off + s.width ≤ p ∨ p + 8 + 2 * n ≤ s.off) (hheader : p + 8 ≤ size) :
    Within b (b + size) (entriesTouches b d (img.rd32 p) (b + p) n r) ↔
      p + 8 + 2 * n ≤ size ∧ Within 0 size (blockFixups img p n) := by
  induction n with
  | zero => exact ⟨fun _ => ⟨hheader, List.forall_mem_nil _⟩, fun _ => List.forall_mem_nil _⟩
  | succ n ih =>
    rw [blockFixups_succ] at hout
    have hbefore : ∀ s ∈ blockFixups img p n, s.off + s.width ≤ p ∨ p + 8 + 2 * (n + 1) ≤ s.off :=
      fun s hs => hout s (List.mem_append_left _ hs)
    have hdone := relocEntries_eq (n := n) (d := d) hr (hsame.mono (Nat.le_refl _) (by omega)) fun s hs => by
      have := hbefore s hs
      omega
    have hfirst := ih (hsame.mono (Nat.le_refl _) (by omega)) fun s hs => by
      have := hbefore s hs
      omega
    unfold entriesTouches
    dsimp only
    rw [hdone]
    dsimp only
    rw [patched_entry hsame hbefore, within_append, within_cons, hfirst, within_shift, blockFixups_succ,
      within_append]
    dsimp only
    constructor
    · rintro ⟨⟨-, hslots⟩, hentry, hslot⟩
      exact ⟨by omega, hslots, hslot⟩
    · rintro ⟨hend, hslots, hslot⟩
      exact ⟨⟨by omega, hslots⟩, .inr (by omega), hslot⟩

theorem header_words (hsame : Mem.Agree (m.shift b) img p (p + 8 + n)) :
    m.rd32 (b + p) = img.rd32 p ∧ m.rd32 (b + p + 4) = img.rd32 (p + 4) := by
  constructor
  · rw [Mem.rd32, ← Mem.read_shift]
    exact Mem.read_congr (hsame.mono (by omega) (by omega))
  · rw [Mem.rd32, Nat.add_assoc, ← Mem.read_shift]
    exact Mem.read_congr (hsame.mono (by omega) (by omega))

/-- What the fixups leave alone is known before the first of them. -/
theorem blocksTouches_within_iff (hr : r.1 < 2 ^ 32)
    (hsame : ∀ q ∈ blockRanges img stop p, Mem.Agree (r.2.shift b) img q.off (q.off + q.width))
    (hapart : ∀ s ∈ directorySlots img stop p, ∀ q ∈ blockRanges img stop p, s.Apart q) :
    Within b (b + size) (blocksTouches b d (b + stop) (b + p) r) ↔
      Within 0 size (blockRanges img stop p) ∧ Within 0 size (directorySlots img stop p) := by
  have hnil : ∀ lo hi, Within lo hi [] := fun _ _ => List.forall_mem_nil _
  induction p using blockRanges.induct img stop generalizing r with
  | case1 p hp =>
    rename_i ih
    rw [blockRanges, if_pos hp] at hsame hapart ⊢
    rw [directorySlots, if_pos hp] at hapart ⊢
    rw [blocksTouches, if_pos (by omega)]
    dsimp only at hsame hapart ⊢
    have hblock : Mem.Agree (r.2.shift b) img p (p + (8 + 2 * ((img.rd32 (p + 4) - 8) / 2))) :=
      hsame _ List.mem_cons_self
    rw [← Nat.add_assoc] at hblock
    obtain ⟨hpage, hword⟩ := header_words hblock
    rw [hword, hpage, within_cons, within_cons]
    by_cases hsmall : img.rd32 (p + 4) < 8
    · have hnone : (img.rd32 (p + 4) - 8) / 2 = 0 := by omega
      rw [if_pos hsmall, if_pos hsmall, if_pos hsmall, hnone]
      simp only [hnil, and_true]
      omega
    rw [if_neg hsmall] at hsame hapart ⊢
    rw [if_neg hsmall] at hapart ⊢
    have hout : ∀ s ∈ blockFixups img p ((img.rd32 (p + 4) - 8) / 2),
        s.off + s.width ≤ p ∨ p + 8 + 2 * ((img.rd32 (p + 4) - 8) / 2) ≤ s.off := by
      intro s hs
      have hslot := hapart s (List.mem_append_left _ hs) _ List.mem_cons_self
      unfold Place.Apart at hslot
      dsimp only at hslot
      omega
    have hrest : Within b (b + size) (blocksTouches b d (b + stop) (b + (p + img.rd32 (p + 4)))
          ((r.1 + (blockFixups img p ((img.rd32 (p + 4) - 8) / 2)).length) % 2 ^ 32,
            Place.addAll b d (blockFixups img p ((img.rd32 (p + 4) - 8) / 2)) r.2)) ↔
        Within 0 size (blockRanges img stop (p + img.rd32 (p + 4))) ∧
          Within 0 size (directorySlots img stop (p + img.rd32 (p + 4))) :=
      ih hsmall (Nat.mod_lt _ (by omega)) (fun q hq => (Place.addAll_agree fun s hs =>
        hapart s (List.mem_append_left _ hs) q (List.mem_cons_of_mem _ hq)).trans
          (hsame q (List.mem_cons_of_mem _ hq)))
      fun s hs q hq => hapart s (List.mem_append_right _ hs) q (List.mem_cons_of_mem _ hq)
    rw [if_neg hsmall, within_append, within_append, relocEntries_eq hr hblock hout,
      Nat.add_assoc b p (img.rd32 (p + 4)), hrest]
    dsimp only
    constructor
    · rintro ⟨hheader, hentries, hranges, hslots⟩
      have hentries' := (entriesTouches_within_iff hr hblock hout (by omega)).1 hentries
      exact ⟨⟨.inr (by omega), hranges⟩, hentries'.2, hslots⟩
    · rintro ⟨⟨hheader, hranges⟩, hentries, hslots⟩
      exact ⟨.inr (by omega), (entriesTouches_within_iff hr hblock hout (by omega)).2 ⟨by omega, hentries⟩,
        hranges, hslots⟩
  | case2 p hp =>
    rw [blockRanges, if_neg hp, directorySlots, if_neg hp, blocksTouches, if_neg (by omega)]
    exact ⟨fun _ => ⟨hnil 0 size, hnil 0 size⟩, fun _ => hnil _ _⟩

theorem dirReads_shift (m : Mem) (b idx : Nat) :
    dirReads m b idx = (dirReads (m.shift b) 0 idx).map fun s => ⟨b + s.off, s.width⟩ := by
  unfold dirReads
  have hmagic : (m.shift b).rd16 (optHeader (m.shift b) 0) = m.rd16 (b + optHeader (m.shift b) 0) :=
    Mem.read_shift ..
  dsimp only
  rw [hmagic, optHeader_shift m b, dirTable_shift m b]
  by_cases hidx : (dirTable (m.shift b) 0).2 ≤ idx
  · rw [if_pos hidx, if_pos hidx]
    simp only [List.append_nil, List.map_cons, List.map_nil, Nat.zero_add, Nat.add_assoc]
  · rw [if_neg hidx, if_neg hidx]
    simp only [List.map_append, List.map_cons, List.map_nil, Nat.zero_add, Nat.add_assoc]

/-- An image that is moved at all stays inside exactly if its directory does. -/
theorem relocate_within_iff {base preferred : Nat} (hapart : SlotsApart (m.shift base)) :
    Within base (base + size) (relocTouches base preferred m) ↔
      linkDelta base preferred = 0 ∨ RelocFits (m.shift base) size := by
  obtain ⟨hdelta, -, htouches⟩ | ⟨hdelta, hempty, -, htouches⟩ | ⟨hdelta, hrva, hsize, -, htouches⟩ :=
    peRelocate_cases base preferred m
  · rw [htouches]
    exact ⟨fun _ => .inl hdelta, fun _ => List.forall_mem_nil _⟩
  · rw [htouches, or_iff_right hdelta, dirReads_shift, within_shift]
    rw [getDir_shift] at hempty
    exact ⟨fun hnames => ⟨hnames, hempty.imp_right .inl⟩, RelocFits.names⟩
  · have hblocks : Within base (base + size) (blocksTouches base (linkDelta base preferred)
        (base + ((getDir (m.shift base) 0 5).1 + (getDir (m.shift base) 0 5).2))
        (base + (getDir (m.shift base) 0 5).1) (0, m)) ↔ _ :=
      blocksTouches_within_iff (Nat.two_pow_pos 32) (fun _ _ _ _ _ => rfl) hapart
    rw [htouches, or_iff_right hdelta, dirReads_shift, within_append, within_shift, getDir_shift,
      Nat.add_assoc base, hblocks]
    rw [getDir_shift] at hrva hsize
    constructor
    · exact fun h => ⟨h.1, .inr (.inr h.2)⟩
    · exact fun h => ⟨h.names, (h.directory.resolve_left hrva).resolve_left hsize⟩

theorem Blocks.directory {last : Nat} {slots : List Place} (h : Blocks img stop p last slots) :
    directorySlots img stop p = slots ∧
      ∀ q ∈ blockRanges img stop p, p ≤ q.off ∧ q.off + q.width ≤ last := by
  induction h with
  | done h =>
    rw [directorySlots, if_neg (by omega), blockRanges, if_neg (by omega)]
    exact ⟨rfl, List.forall_mem_nil _⟩
  | @block p last slots h hsize rest ih =>
    have hle := rest.le
    have hlarge : ¬ img.rd32 (p + 4) < 8 := by omega
    rw [directorySlots, if_pos h, blockRanges, if_pos h]
    dsimp only
    rw [if_neg hlarge, if_neg hlarge, ih.1]
    refine ⟨rfl, List.forall_mem_cons.2 ⟨?_, fun q hq => ?_⟩⟩
    · dsimp only
      omega
    · have hrest := ih.2 q hq
      omega

/-- A well-formed image is one of these. -/
theorem Relocatable.inside {pi : PeInfo} {rva last : Nat} {slots : List Place}
    (h : Relocatable pi img rva last slots) : SlotsApart img ∧ RelocFits img pi.sizeImage := by
  obtain ⟨hslots, hranges⟩ := h.blocks.directory
  have hheaders := h.headers
  have hsizes := h.headersIn
  have hlast := h.blocksIn
  refine ⟨?_, ?_, .inr (.inr ?_)⟩
  · unfold SlotsApart
    dsimp only
    rw [h.rva_eq, hslots]
    intro s hs q hq
    have hout := h.slotsOut s hs
    have hrange := hranges q hq
    unfold Place.Apart
    omega
  · have hopt : optHeader img 0 = img.rd32 0x3C + 24 := by
      unfold optHeader
      rw [show 0 + img.rd32 (0 + 0x3C) + 4 + 20 = img.rd32 (0 + 0x3C) + 24 by omega, Nat.zero_add]
    have htable : (dirTable img 0).1 = if img.rd16 (optHeader img 0) = 0x20B then 112 else 96 := by
      unfold dirTable
      split
      · rfl
      · rfl
    have hentry : Within 0 pi.sizeImage (if (dirTable img 0).2 ≤ 5 then []
        else [⟨optHeader img 0 + (dirTable img 0).1 + 8 * 5, 8⟩]) := by
      split
      · exact List.forall_mem_nil _
      · exact List.forall_mem_singleton.2 (.inr (by dsimp only; omega))
    unfold dirReads
    dsimp only
    rw [within_append, within_cons, within_cons, within_cons]
    dsimp only
    split at htable
    · rename_i hwide
      rw [if_pos hwide]
      exact ⟨⟨.inr (by omega), .inr (by omega), .inr (by omega), List.forall_mem_nil _⟩, hentry⟩
    · rename_i hnarrow
      rw [if_neg hnarrow]
      exact ⟨⟨.inr (by omega), .inr (by omega), .inr (by omega), List.forall_mem_nil _⟩, hentry⟩
  · rw [h.rva_eq, hslots]
    refine ⟨fun q hq => .inr ?_, fun s hs => .inr ⟨Nat.zero_le _, (h.slotsIn s hs).2⟩⟩
    have hrange := hranges q hq
    omega

/-- Mapping and relocating touch only these bytes. They are inside the file and inside the image
exactly if all that the headers name fits there: nothing that `pe_parse` checks says so. The walk
over the blocks ends for every directory. -/
theorem image_stays_inside {f m₀ : Mem} {base e : Nat} {pi : PeInfo} (len : Nat)
    (hparse : peParse f = some pi) (hmap : peMapAt f base m₀ = some (e, m)) :
    ((Within 0 len (mapReads f pi) ∧ Within base (base + pi.sizeImage) (mapWrites f base pi)) ↔
      Fits f len pi) ∧
    (∀ i, (∀ p ∈ mapWrites f base pi, i < p.off ∨ p.off + p.width ≤ i) → m i = m₀ i) ∧
    (∀ f', AgreeOn f f' (mapReads f pi) → peMapAt f' base m₀ = some (e, m)) ∧
    ∀ preferred,
      (∀ i, (∀ p ∈ relocTouches base preferred m, i < p.off ∨ p.off + p.width ≤ i) →
        (peRelocate base preferred m).2 i = m i) ∧
      (∀ m', AgreeOn m m' (relocTouches base preferred m) →
        (peRelocate base preferred m').1 = (peRelocate base preferred m).1 ∧
          AgreeOn (peRelocate base preferred m).2 (peRelocate base preferred m').2
            (relocTouches base preferred m)) ∧
      (SlotsApart (m.shift base) →
        (Within base (base + pi.sizeImage) (relocTouches base preferred m) ↔
          linkDelta base preferred = 0 ∨ RelocFits (m.shift base) pi.sizeImage)) := by
  refine ⟨map_within_iff hparse len base, fun i => peMapAt_outside hparse hmap, fun f' hagree => ?_,
    fun preferred => ⟨fun i => peRelocate_outside, fun m' => peRelocate_congr, relocate_within_iff⟩⟩
  rw [peMapAt_congr hparse hagree]
  exact hmap

/-- The file with one slot stays inside, wherever it is moved. -/
theorem image_stays_inside_oneSlot :
    (Within 0 0x218 (mapReads oneSlotFile oneSlotInfo) ∧
      Within 0x150000000 (0x150000000 + 0x3000) (mapWrites oneSlotFile 0x150000000 oneSlotInfo)) ∧
    Within 0x150000000 (0x150000000 + 0x3000)
      (relocTouches 0x150000000 0x140000000 (oneSlotMapped 0x150000000)) := by
  obtain ⟨hmapped, -, -, hrelocated⟩ := image_stays_inside 0x218 oneSlot_parse (oneSlot_mapped 0x150000000)
  obtain ⟨hapart, hfits⟩ := (oneSlot_relocatable 0x150000000).inside
  have hsections : oneSlotFile.rd32 (0x148 + 40 * 0 + 12) = 0x1000 ∧
      oneSlotFile.rd32 (0x148 + 40 * 0 + 16) = 0x18 ∧
      oneSlotFile.rd32 (0x148 + 40 * 0 + 20) = 0x200 ∧ optHeader oneSlotFile 0 = 0x58 := by decide +kernel
  refine ⟨hmapped.2 ⟨?_, by decide, ?_, ?_⟩, ((hrelocated 0x140000000).2.2 hapart).2 (.inr hfits)⟩
  · rw [hsections.2.2.2]
    decide
  · intro s hs
    have hfirst : s = 0 := Nat.lt_one_iff.1 hs
    subst hfirst
    decide
  · intro s hs
    have hfirst : s = 0 := Nat.lt_one_iff.1 hs
    subst hfirst
    show oneSlotFile.rd32 (0x148 + 40 * 0 + 16) = 0 ∨
      oneSlotFile.rd32 (0x148 + 40 * 0 + 12) + oneSlotFile.rd32 (0x148 + 40 * 0 + 16) ≤ 0x3000 ∧
      (oneSlotFile.rd32 (0x148 + 40 * 0 + 20) + oneSlotFile.rd32 (0x148 + 40 * 0 + 16) ≤ 0x218 ∨
        2 ^ 32 ≤ 0x218)
    rw [hsections.1, hsections.2.1, hsections.2.2.1]
    decide

/-- The same file with an image of one page, so that its section lies behind the image. -/
def behindFile : Mem := oneSlotFile.write 0x90 4 0x1000

/-- The file is accepted, and a byte behind the image is written. -/
theorem behind_written :
    (peParse behindFile).map PeInfo.sizeImage = some 0x1000 ∧
    (peMapAt behindFile 0x20000 fun _ => 0).map (fun r => r.2 (0x20000 + 0x1001)) = some 0x10 := by
  decide +kernel

end Inside

end MeuOS.Ldr
