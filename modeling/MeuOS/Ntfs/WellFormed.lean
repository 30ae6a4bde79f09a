import MeuOS.Ntfs.Index

/-! Well-formed records: the attributes reach the end marker, every resident content lies
in its attribute, and the update sequence array lies between the header and the first
attribute. Loading such a record from the disk gives such a record. -/
namespace MeuOS.Ntfs

open MeuOS.Lib

structure RecordWf (v : Volume) (m : Mem) (as : List Nat) (e : Nat) : Prop extends
    Attrs v m as e where
  file : IsFile m
  usa : UsaFits v m
  usaPlace : m.rd16 0x06 = 0 ∨
    0x1C ≤ m.rd16 0x04 ∧ m.rd16 0x04 + m.rd16 0x06 * 2 ≤ firstAttr m
  low : 0x1C ≤ firstAttr m
  aligned : ∀ a ∈ as, a % 8 = 0
  resident : ∀ a ∈ as, attrIsNonresident m a = false →
    24 ≤ contentOff m a ∧ contentOff m a + contentLen m a ≤ attrLen m a

variable {v : Volume} {env : Env} {m m' : Mem} {as : List Nat} {e : Nat}

theorem UsaFits.congr (h : UsaFits v m) (hhead : Mem.Agree m m' 4 8) : UsaFits v m' := by
  have hoff : m'.rd16 0x04 = m.rd16 0x04 := Mem.read_congr (hhead.mono (by omega) (by omega)).symm
  have hcount : m'.rd16 0x06 = m.rd16 0x06 := Mem.read_congr (hhead.mono (by omega) (by omega)).symm
  refine ⟨?_, ?_, ?_, ?_⟩ <;> rw [hcount] <;> try rw [hoff]
  · exact h.inside
  · exact h.apart
  · exact h.sectors
  · exact h.header

/-- A well-formed record, seen from the fields in front of the attributes and from the
attributes themselves. -/
theorem RecordWf.congr (h : RecordWf v m as e) (hlow : Mem.Agree m m' 0 0x1C)
    (hhigh : Mem.Agree m m' (firstAttr m) v.mftRecordSize) : RecordWf v m' as e := by
  have hin := h.inside
  have hattr : ∀ a ∈ as, Mem.Agree m m' a (a + 24) := fun a ha =>
    hhigh.mono (h.mem ha).1 (by have := (h.mem ha).2; omega)
  have hlo := span_le h.span
  have hattrs := h.toAttrs.congr (hlow.mono (by omega) (by omega))
    (fun a ha => (hattr a ha).mono (by omega) (by omega)) (hhigh.mono (by omega) (by omega))
  have hfirst : firstAttr m' = firstAttr m := Mem.read_congr (hlow.mono (by omega) (by omega)).symm
  have hoff : m'.rd16 0x04 = m.rd16 0x04 := Mem.read_congr (hlow.mono (by omega) (by omega)).symm
  have hcount : m'.rd16 0x06 = m.rd16 0x06 := Mem.read_congr (hlow.mono (by omega) (by omega)).symm
  refine { hattrs with
    file := (isFile_congr (hlow.mono (by omega) (by omega))).1 h.file
    usa := h.usa.congr (hlow.mono (by omega) (by omega))
    usaPlace := by rw [hoff, hcount, hfirst]; exact h.usaPlace
    low := by rw [hfirst]; exact h.low
    aligned := h.aligned
    resident := fun a ha hres => ?_ }
  obtain ⟨-, hlen, hnon, hclen, hcoff⟩ := attr_congr (hattr a ha)
  rw [hlen, hclen, hcoff]
  exact h.resident a ha (hnon ▸ hres)

theorem RecordWf.same (h : RecordWf v m as e) (hsame : SameRecord v m m') :
    Mem.Agree m m' 0 0x1C ∧ Mem.Agree m m' (firstAttr m) v.mftRecordSize := by
  have hplace := h.usaPlace
  have hin := h.inside
  have hlow := h.low
  have hle := span_le h.span
  constructor
  · intro j _ hj
    refine (hsame j (by omega) fun hmem => ?_).symm
    unfold InUsa at hmem
    omega
  · intro j hlo hj
    refine (hsame j hj fun hmem => ?_).symm
    unfold InUsa at hmem
    omega

theorem RecordWf.of_same (h : RecordWf v m as e) (hsame : SameRecord v m m') :
    RecordWf v m' as e :=
  h.congr (h.same hsame).1 (h.same hsame).2

/-! ## The last attribute -/

/-- The attribute the end marker follows is the last one. -/
theorem Attrs.last_iff (h : Attrs v m as e) {a : Nat} (ha : a ∈ as) :
    attrType m (a + attrLen m a) = attrEnd ↔ ∃ init, as = init ++ [a] ∧ a + attrLen m a = e := by
  obtain ⟨init, rest, rfl⟩ := List.append_of_mem ha
  obtain ⟨mid, -, rfl, hpos, hrest⟩ := span_append.mp h.span
  constructor
  · intro hend
    cases rest with
    | nil => exact ⟨init, rfl, hrest⟩
    | cons b rest =>
      obtain ⟨rfl, -⟩ := hrest
      exact absurd hend (h.type _ (by simp))
  · rintro ⟨init', -, hlast⟩
    rw [hlast]
    exact h.marker

/-- `isLastAttr` asks what it says. -/
theorem Attrs.isLastAttr_iff (h : Attrs v m as e) {a : Nat} (ha : a ∈ as) :
    isLastAttr v m a ↔ attrType m (a + attrLen m a) = attrEnd := by
  have hmem := h.mem ha
  have hin := h.inside
  have hbounds := v.record_bounds
  have hnext : u32 (a + attrLen m a) = a + attrLen m a := u32_of_lt (by omega)
  have hfour : u32 (a + attrLen m a + 4) = a + attrLen m a + 4 := u32_of_lt (by omega)
  unfold isLastAttr attrType
  rw [hnext, hfour]
  exact and_iff_right (by omega)

/-- The last attribute may change, and with it the place of the end marker. -/
theorem Attrs.resize {init : List Nat} {a : Nat} (h : Attrs v m (init ++ [a]) e)
    (hlow : 0x1C ≤ firstAttr m) (hbelow : ∀ j < a, ¬(0x18 ≤ j ∧ j < 0x1C) → m' j = m j)
    (htype : attrType m' a ≠ attrEnd) (hlen : 24 ≤ attrLen m' a)
    (hmark : attrType m' (a + attrLen m' a) = attrEnd)
    (hin : a + attrLen m' a + 8 ≤ v.mftRecordSize)
    (hused : bytesUsed m' = (a + attrLen m' a + 8 + 7) / 8 * 8) :
    Attrs v m' (init ++ [a]) (a + attrLen m' a) := by
  obtain ⟨mid, hinit, rfl, hpos, hrest⟩ := span_append.mp h.span
  have hfirst := span_le hinit
  have hagree : ∀ b ∈ init, Mem.Agree m m' b (b + 8) := by
    intro b hb j hlo hhi
    have hmem := h.mem (List.mem_append_left [a] hb)
    have hstop := (span_mem hinit hb).2.2
    exact (hbelow j (by omega) (by omega)).symm
  have hfirst' : firstAttr m' = firstAttr m :=
    Mem.read_congr fun j hlo hhi => hbelow j (by omega) (by omega)
  refine ⟨?_, fun b hb => ?_, fun b hb => ?_, hmark, hin, hused⟩
  · rw [hfirst']
    apply span_append.mpr
    refine ⟨a, span_congr hinit fun b hb => ?_, rfl, by omega, rfl⟩
    exact Mem.read_congr ((hagree b hb).mono (by omega) (by omega)).symm
  · rcases List.mem_append.mp hb with hb' | hb'
    · have heq : attrType m' b = attrType m b :=
        Mem.read_congr ((hagree b hb').mono (by omega) (by omega)).symm
      rw [heq]
      exact h.type b hb
    · rw [List.mem_singleton.mp hb']
      exact htype
  · rcases List.mem_append.mp hb with hb' | hb'
    · have heq : attrLen m' b = attrLen m b :=
        Mem.read_congr ((hagree b hb').mono (by omega) (by omega)).symm
      rw [heq]
      exact h.header b hb
    · rw [List.mem_singleton.mp hb']
      exact hlen

theorem RecordWf.resize {init : List Nat} {a : Nat} (h : RecordWf v m (init ++ [a]) e)
    (hbelow : ∀ j < a, ¬(0x18 ≤ j ∧ j < 0x1C) → m' j = m j)
    (hattrs : Attrs v m' (init ++ [a]) (a + attrLen m' a))
    (hres : attrIsNonresident m' a = false →
      24 ≤ contentOff m' a ∧ contentOff m' a + contentLen m' a ≤ attrLen m' a) :
    RecordWf v m' (init ++ [a]) (a + attrLen m' a) := by
  have hmem := h.mem (List.mem_append_right init (List.mem_singleton_self a))
  have hlow := h.low
  have hhead : Mem.Agree m m' 0 0x18 := fun j _ hj => (hbelow j (by omega) (by omega)).symm
  have hfirst : firstAttr m' = firstAttr m := Mem.read_congr (hhead.mono (by omega) (by omega)).symm
  have hoff : m'.rd16 0x04 = m.rd16 0x04 := Mem.read_congr (hhead.mono (by omega) (by omega)).symm
  have hcount : m'.rd16 0x06 = m.rd16 0x06 := Mem.read_congr (hhead.mono (by omega) (by omega)).symm
  refine { hattrs with
    file := (isFile_congr (hhead.mono (by omega) (by omega))).1 h.file
    usa := h.usa.congr (hhead.mono (by omega) (by omega))
    usaPlace := by rw [hoff, hcount, hfirst]; exact h.usaPlace
    low := by rw [hfirst]; exact h.low
    aligned := h.aligned
    resident := fun b hb hr => ?_ }
  rcases List.mem_append.mp hb with hb' | hb'
  · obtain ⟨mid, hinit, rfl, -⟩ := span_append.mp h.span
    have hb₁ := (span_mem hinit hb').2.2
    have hb₂ := h.mem hb
    obtain ⟨-, hlen, hnon, hclen, hcoff⟩ := attr_congr (show Mem.Agree m m' b (b + 24) from
      fun j hlo hhi => (hbelow j (by omega) (by omega)).symm)
    rw [hlen, hclen, hcoff]
    exact h.resident b hb (hnon ▸ hr)
  · rw [List.mem_singleton.mp hb'] at hr ⊢
    exact hres hr

theorem align8_of_lt {n : Nat} (h : n + 7 < 4294967296) : align8 n = (n + 7) / 8 * 8 := by
  unfold align8
  rw [u32_of_lt h]

theorem writeEnd_outside (m : Mem) {next j : Nat} (h : j < next ∨ next + 8 ≤ j)
    (hused : j < 0x18 ∨ 0x1C ≤ j) : writeEnd m next j = m j := by
  unfold writeEnd
  rw [Mem.write_outside _ _ (by omega), Mem.write_outside _ _ (by omega),
    Mem.write_outside _ _ (by omega)]

theorem writeEnd_marker (m : Mem) {next : Nat} (h : 0x1C ≤ next) :
    attrType (writeEnd m next) next = attrEnd := by
  unfold writeEnd attrType Mem.rd32
  rw [Mem.read_write_of_disjoint _ _ (by omega), Mem.read_write_of_disjoint _ _ (by omega),
    Mem.read_write_of_lt _ (by decide)]

theorem writeEnd_used (m : Mem) {next : Nat} (h : next + 15 < 4294967296) :
    bytesUsed (writeEnd m next) = (next + 8 + 7) / 8 * 8 := by
  have halign := align8_of_lt (show next + 8 + 7 < 4294967296 by omega)
  unfold writeEnd bytesUsed Mem.rd32
  rw [Mem.read_write_of_lt _ (by omega), halign]

theorem writeLengths_outside (m : Mem) {a clen alen j : Nat} (hlen : j < a + 4 ∨ a + 8 ≤ j)
    (hcontent : j < a + 0x10 ∨ a + 0x14 ≤ j) : writeLengths m a clen alen j = m j := by
  unfold writeLengths
  rw [Mem.write_outside _ _ (by omega), Mem.write_outside _ _ (by omega)]

/-! ## Loading -/

theorem loadRecord_spec (hgeo : Geometry v) (env : Env) {no : Nat} (hfile : IsFile m)
    (husa : UsaFits v m) {s : Sys} (hholds : Holds v s no m) :
    ∃ rec n k, loadRecord v env no s = some (rec, { s with transfers := n, allocs := k }) ∧
      (∀ m', rec = some m' → SameRecord v m m') ∧
      (env.noMem s.allocs = true → rec = none) ∧
      (env.noMem s.allocs = false → (∀ n, env.diskFails n = false) → ∃ m', rec = some m') := by
  unfold loadRecord kmalloc
  cases hmem : env.noMem s.allocs with
  | true => exact ⟨none, s.transfers, s.allocs + 1, rfl, nofun, fun _ => rfl, nofun⟩
  | false =>
    obtain ⟨r, m', n, hrun, hsame, hok⟩ := ntfsReadMftRecord_spec hgeo env hfile husa
      (s := { s with allocs := s.allocs + 1 }) hholds (env.junk s.allocs)
    refine ⟨if r ≠ 0 then none else some m', n, s.allocs + 1, ?_, fun m'' heq => ?_, nofun,
      fun _ hdisk => ⟨m', by rw [hok hdisk]; rfl⟩⟩
    · simp [hrun]
    · split at heq
      case isTrue => cases heq
      case isFalse hr =>
        cases heq
        exact hsame (by simpa using hr)

/-! ## The index of a directory -/

theorem findIndexRoot_some (h : Attrs v m as e) :
    ∃ a, findIndexRoot v m = some a ∧ ∀ b, a = some b → b ∈ as ∧ attrType m b = attrIndexRoot := by
  have hfound : ∀ {nameI30 b}, (as.filter (attrMatches v m attrIndexRoot nameI30))[0]? = some b →
      b ∈ as ∧ attrType m b = attrIndexRoot := by
    intro nameI30 b hb
    obtain ⟨hmem, hmatch⟩ := List.mem_filter.mp (List.mem_of_getElem? hb)
    exact ⟨hmem, by simp [attrMatches] at hmatch; exact hmatch.1⟩
  unfold findIndexRoot
  rw [h.find, h.find]
  cases hnamed : (as.filter (attrMatches v m attrIndexRoot true))[0]? with
  | some b => exact ⟨some b, rfl, fun c hc => by cases hc; exact hfound hnamed⟩
  | none => exact ⟨_, rfl, fun c hc => hfound hc⟩

theorem residentIndexRoot_some (h : Attrs v m as e) :
    ∃ a, residentIndexRoot v m = some a ∧ ∀ b, a = some b →
      b ∈ as ∧ attrType m b = attrIndexRoot ∧ attrIsNonresident m b = false := by
  obtain ⟨a, ha, hmem⟩ := findIndexRoot_some h
  refine ⟨_, by rw [residentIndexRoot, ha, Option.map_some], fun b hb => ?_⟩
  obtain ⟨ha', hres⟩ := Option.filter_eq_some_iff.mp hb
  exact ⟨(hmem b ha').1, (hmem b ha').2, by simpa using hres⟩

/-- What a search finds is a hit among the entries from `x` on. -/
theorem findEntryLoop_some {hit : Nat → Bool} {stop fuel x y : Nat}
    (h : findEntryLoop m hit stop fuel x = some y) : x ≤ y ∧ y + 0x10 ≤ stop ∧ hit y = true := by
  induction fuel generalizing x with
  | zero => cases h
  | succ fuel ih =>
    unfold findEntryLoop at h
    split at h
    case isTrue => cases h
    case isFalse hin =>
      split at h
      case isTrue hhit =>
        cases h
        exact ⟨Nat.le_refl _, by omega, hhit⟩
      case isFalse =>
        split at h
        case isTrue => cases h
        case isFalse =>
          have := ih h
          exact ⟨by omega, this.2⟩

/-- A change behind the header of a record can still be written. -/
theorem RecordWf.writable (h : RecordWf v m as e) (hkept : ∀ j < 0x14, m' j = m j) :
    IsFile m' ∧ UsaFits v m' :=
  ⟨(isFile_congr fun j _ hj => (hkept j (by omega)).symm).1 h.file,
    h.usa.congr fun j _ hj => (hkept j (by omega)).symm⟩

theorem ntfsIndexUpdateSize_returns (hgeo : Geometry v) (hmounted : v.mounted) (env : Env)
    {parent : Nat} (h : RecordWf v m as e) {s : Sys} (hholds : Holds v s parent m)
    (child newReal newAlloc : Nat) :
    ∃ r, ntfsIndexUpdateSize v env parent child newReal newAlloc s = some r := by
  unfold ntfsIndexUpdateSize editIndex
  obtain ⟨rec, n, k, hload, hsame, -⟩ := loadRecord_spec hgeo env h.file h.usa hholds
  rw [hload]
  by_cases hzero : parent = 0
  · exact ⟨_, if_pos hzero⟩
  · rw [if_neg hzero, Option.bind_some]
    cases rec with
    | none => exact ⟨_, rfl⟩
    | some m₀ =>
      have h₀ := h.of_same (hsame m₀ rfl)
      obtain ⟨a, ha, hmem⟩ := residentIndexRoot_some h₀.toAttrs
      simp only [ha, Option.bind_some]
      cases a with
      | none => exact ⟨_, rfl⟩
      | some a =>
        by_cases hshort : contentLen m₀ a < 0x20
        · simp [hshort]
        · simp only [if_neg hshort, Option.bind_some]
          cases hfind : findSizedEntry m₀ a child with
          | none => exact ⟨_, rfl⟩
          | some x =>
            have hlow := (h₀.mem (hmem a rfl).1).1
            have hlow₀ := h₀.low
            obtain ⟨hx, -⟩ := findEntryLoop_some hfind
            unfold firstEntry indexNode attrResidentData at hx
            have hkept : ∀ j < 0x14, writeSizes m₀ (x + 0x10) newReal newAlloc j = m₀ j :=
              fun j hj => by
                unfold writeSizes
                rw [Mem.write_outside _ _ (by omega), Mem.write_outside _ _ (by omega)]
            obtain ⟨hfile, husa⟩ := h₀.writable hkept
            obtain ⟨r, image, s', hwrite, -⟩ := ntfsWriteMftRecord_spec hgeo hmounted env parent
              hfile husa { s with transfers := n, allocs := k }
            simp [hwrite]

end MeuOS.Ntfs
