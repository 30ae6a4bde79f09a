import MeuOS.Ntfs.WriteFile

/-! What a write to a resident `$DATA` leaves on the disk, and what is read afterwards. -/
namespace MeuOS.Ntfs

open MeuOS.Lib

variable {v : Volume} {env : Env} {m m' : Mem} {as : List Nat} {e : Nat}

/-! ## The sizes in the `$FILE_NAME` attributes -/

/-- Byte `j` is one of those `ntfs_record_set_filename_size` may write. -/
def InNameSizes (m : Mem) (as : List Nat) (j : Nat) : Prop :=
  ∃ b ∈ as, attrType m b = attrFileName ∧ attrIsNonresident m b = false ∧ 0x42 ≤ contentLen m b ∧
    attrResidentData m b + 0x28 ≤ j ∧ j < attrResidentData m b + 0x38

/-- Resident contents lie in their attributes. -/
def ResidentFits (m : Mem) (as : List Nat) : Prop :=
  ∀ b ∈ as, attrIsNonresident m b = false → contentOff m b + contentLen m b ≤ attrLen m b

theorem RecordWf.residentFits (h : RecordWf v m as e) : ResidentFits m as :=
  fun b hb hres => (h.resident b hb hres).2

theorem InNameSizes.place {j : Nat} (h : InNameSizes m as j) (hfits : ResidentFits m as) :
    ∃ b ∈ as, attrType m b = attrFileName ∧ b + 24 ≤ j ∧ j < b + attrLen m b := by
  obtain ⟨b, hb, htype, hres, hlen, hlo, hhi⟩ := h
  have := hfits b hb hres
  unfold attrResidentData at hlo hhi
  exact ⟨b, hb, htype, by omega, by omega⟩

/-- The bytes the sizes are in belong to no header. -/
theorem InNameSizes.not_header {j : Nat} (h : InNameSizes m as j) (hattrs : Attrs v m as e)
    (hfits : ResidentFits m as) {b : Nat} (hb : b ∈ as) : ¬(b ≤ j ∧ j < b + 24) := by
  obtain ⟨c, hc, -, hlo, hhi⟩ := h.place hfits
  have hapart := span_apart hattrs.span hb hc
  have hb' := hattrs.mem hb
  omega

theorem header_agree (hattrs : Attrs v m as e) (hfits : ResidentFits m as)
    (hkept : ∀ j, ¬InNameSizes m as j → m' j = m j) {b : Nat} (hb : b ∈ as) :
    Mem.Agree m m' b (b + 24) :=
  fun j hlo hhi => (hkept j fun h => h.not_header hattrs hfits hb ⟨hlo, hhi⟩).symm

/-- A change of the sizes alone leaves the attributes where they are. -/
theorem Attrs.keep_sizes (h : Attrs v m as e) (hfits : ResidentFits m as)
    (hlow : 0x1C ≤ firstAttr m) (hkept : ∀ j, ¬InNameSizes m as j → m' j = m j) :
    Attrs v m' as e := by
  have hle := span_le h.span
  refine h.congr (fun j _ hj => (hkept j fun hin => ?_).symm)
    (fun b hb => (header_agree h hfits hkept hb).mono (by omega) (by omega))
    (fun j hlo _ => (hkept j fun hin => ?_).symm)
  · obtain ⟨b, hb, -, hlo, -⟩ := hin.place hfits
    have := (h.mem hb).1
    omega
  · obtain ⟨b, hb, -, -, hhi⟩ := hin.place hfits
    have := (h.mem hb).2.2
    omega

theorem filter_congr_type {type : Nat} {m₁ : Mem} (hkept : ∀ b ∈ as, attrType m₁ b = attrType m b) :
    as.filter (attrMatches v m₁ type false) = as.filter (attrMatches v m type false) := by
  apply List.filter_congr
  intro b hb
  unfold attrMatches
  rw [hkept b hb]
  rfl

theorem setFilenameSizeLoop_spec (hattrs : Attrs v m as e) (hfits : ResidentFits m as)
    (hlow : 0x1C ≤ firstAttr m) (newReal newAlloc left which : Nat) {m₁ : Mem}
    (hkept : ∀ j, ¬InNameSizes m as j → m₁ j = m j) :
    ∃ m', setFilenameSizeLoop v newReal newAlloc left which m₁ = some m' ∧
      ∀ j, ¬InNameSizes m as j → m' j = m j := by
  induction left generalizing which m₁ with
  | zero => exact ⟨m₁, rfl, hkept⟩
  | succ left ih =>
    have hattrs₁ := hattrs.keep_sizes hfits hlow hkept
    have hheader : ∀ b ∈ as, attrType m₁ b = attrType m b := fun b hb =>
      (attr_congr (header_agree hattrs hfits hkept hb)).1
    unfold setFilenameSizeLoop
    rw [hattrs₁.find, filter_congr_type hheader]
    cases hfind : (as.filter (attrMatches v m attrFileName false))[which]? with
    | none => exact ⟨m₁, rfl, hkept⟩
    | some b =>
      obtain ⟨hb, htype⟩ := List.mem_filter.mp (List.mem_of_getElem? hfind)
      obtain ⟨-, -, hnon, hclen, hcoff⟩ := attr_congr (header_agree hattrs hfits hkept hb)
      simp only [Option.bind_some]
      split
      case isTrue => exact ih (which + 1) hkept
      case isFalse hsized =>
        apply ih (which + 1)
        intro j hj
        rw [hnon, hclen] at hsized
        have hdata : attrResidentData m₁ b = attrResidentData m b := by
          unfold attrResidentData
          rw [hcoff]
        have hout : j < attrResidentData m b + 0x28 ∨ attrResidentData m b + 0x38 ≤ j := by
          by_contra hin
          refine hj ⟨b, hb, by simpa [attrMatches] using htype, by simpa using fun h => hsized (.inl h),
            by omega, by omega, by omega⟩
        unfold writeSizes
        rw [hdata, Mem.write_outside _ _ (by omega), Mem.write_outside _ _ (by omega)]
        exact hkept j hj

theorem ntfsRecordSetFilenameSize_spec (hattrs : Attrs v m as e) (hfits : ResidentFits m as)
    (hlow : 0x1C ≤ firstAttr m) (newReal newAlloc : Nat) :
    ∃ m', ntfsRecordSetFilenameSize v m newReal newAlloc = some m' ∧
      ∀ j, ¬InNameSizes m as j → m' j = m j :=
  setFilenameSizeLoop_spec hattrs hfits hlow newReal newAlloc 8 0 fun _ _ => rfl

/-! ## The length -/

/-- The content of `a` can be given `target` bytes: the end marker follows `a`, and still
has room behind them. -/
def Resizable (v : Volume) (m : Mem) (a target : Nat) : Prop :=
  a + contentOff m a + target + 8 ≤ v.mftRecordSize ∧ attrType m (a + attrLen m a) = attrEnd

theorem canResize_iff (h : RecordWf v m as e) {a : Nat} (ha : a ∈ as)
    (hres : attrIsNonresident m a = false) (target : Nat) :
    canResize v m a target ↔ Resizable v m a target := by
  have hfits := h.resident a ha hres
  have hmem := h.mem ha
  have hin := h.inside
  have hroom : target ≤ maxContent v m a ↔ a + contentOff m a + target + 8 ≤ v.mftRecordSize := by
    unfold maxContent
    simp only
    split <;> omega
  unfold canResize Resizable
  rw [hroom, h.isLastAttr_iff ha]

theorem storeContent_below (m : Mem) {a offset len j : Nat} (data : Mem)
    (h : j < attrResidentData m a) : storeContent m a offset data len j = m j := by
  unfold storeContent
  rw [Mem.blit_outside _ _ (by omega)]
  split
  · exact Mem.blit_outside _ _ (by omega)
  · rfl

/-- The bytes a changed length is entered in. -/
def InLengthFields (m : Mem) (as : List Nat) (a target j : Nat) : Prop :=
  a + 4 ≤ j ∧ j < a + 8 ∨ a + 0x10 ≤ j ∧ j < a + 0x14 ∨ 0x18 ≤ j ∧ j < 0x1C ∨
    a + align8 (contentOff m a + target) ≤ j ∧ j < a + align8 (contentOff m a + target) + 8 ∨
    InNameSizes m as j

theorem resizeAttr_eq (m : Mem) {a coff target : Nat}
    (h : a + align8 (coff + target) < 4294967296) :
    resizeAttr m a coff target =
      writeEnd (writeLengths m a target (align8 (coff + target))) (a + align8 (coff + target)) := by
  show writeEnd _ (u32 _) = _
  rw [u32_of_lt h]

theorem resizeAttr_outside {a coff target j : Nat} (hnext : a + align8 (coff + target) < 4294967296)
    (hlen : j < a + 4 ∨ a + 8 ≤ j) (hcontent : j < a + 0x10 ∨ a + 0x14 ≤ j)
    (hused : j < 0x18 ∨ 0x1C ≤ j)
    (hmark : j < a + align8 (coff + target) ∨ a + align8 (coff + target) + 8 ≤ j) :
    resizeAttr m a coff target j = m j := by
  rw [resizeAttr_eq m hnext, writeEnd_outside _ hmark hused, writeLengths_outside _ hlen hcontent]

theorem resizeAttr_fields (m : Mem) (target : Nat) {a coff : Nat} (ha : 0x1C ≤ a) (hcoff : 24 ≤ coff)
    (hsmall : a + coff + target + 30 < 4294967296) :
    attrLen (resizeAttr m a coff target) a = align8 (coff + target) ∧
      contentLen (resizeAttr m a coff target) a = target ∧
      attrType (resizeAttr m a coff target) (a + align8 (coff + target)) = attrEnd ∧
      bytesUsed (resizeAttr m a coff target) = (a + align8 (coff + target) + 8 + 7) / 8 * 8 := by
  have halign := align8_of_lt (show coff + target + 7 < 4294967296 by omega)
  have hnext : a + align8 (coff + target) < 4294967296 := by omega
  rw [resizeAttr_eq m hnext]
  have hfar : Mem.Agree (writeEnd (writeLengths m a target (align8 (coff + target)))
      (a + align8 (coff + target))) (writeLengths m a target (align8 (coff + target)))
      0x1C (a + align8 (coff + target)) := fun j hlo hhi =>
    writeEnd_outside _ (by omega) (by omega)
  refine ⟨?_, ?_, writeEnd_marker _ (by omega), writeEnd_used _ (by omega)⟩
  · unfold attrLen Mem.rd32
    rw [Mem.read_congr (hfar.mono (by omega) (by omega)), writeLengths,
      Mem.read_write_of_lt _ (by omega)]
  · unfold contentLen Mem.rd32
    rw [Mem.read_congr (hfar.mono (by omega) (by omega)), writeLengths,
      Mem.read_write_of_disjoint _ _ (by omega), Mem.read_write_of_lt _ (by omega)]

/-- A record whose last attribute has had its content replaced and its length set. -/
theorem resizeAttr_wf (hgeo : Geometry v) {init : List Nat} {a : Nat}
    (h : RecordWf v m (init ++ [a]) e) (hres : attrIsNonresident m a = false) {m₁ : Mem}
    (hbelow : ∀ j < attrResidentData m a, m₁ j = m j) {target : Nat}
    (hfit : a + contentOff m a + target + 8 ≤ v.mftRecordSize) :
    RecordWf v (resizeAttr m₁ a (contentOff m a) target) (init ++ [a])
        (a + align8 (contentOff m a + target)) ∧
      contentLen (resizeAttr m₁ a (contentOff m a) target) a = target ∧
      (∀ j < a, ¬(0x18 ≤ j ∧ j < 0x1C) → resizeAttr m₁ a (contentOff m a) target j = m j) ∧
      attrType (resizeAttr m₁ a (contentOff m a) target) a = attrType m a ∧
      attrIsNonresident (resizeAttr m₁ a (contentOff m a) target) a = false ∧
      contentOff (resizeAttr m₁ a (contentOff m a) target) a = contentOff m a := by
  have ha : a ∈ init ++ [a] := List.mem_append_right init (List.mem_singleton_self a)
  have hbounds := v.record_bounds
  have hfits := h.resident a ha hres
  have hmem := h.mem ha
  have hlow := h.low
  have haligned := h.aligned a ha
  have hwhole := hgeo.recordSectors_eq.1
  have halign := align8_of_lt (show contentOff m a + target + 7 < 4294967296 by omega)
  obtain ⟨hlen, hclen, hmark, hused⟩ := resizeAttr_fields m₁ target
    (show 0x1C ≤ a by omega) hfits.1 (by omega)
  generalize hm₂ : resizeAttr m₁ a (contentOff m a) target = m₂ at *
  have hkept : ∀ j < attrResidentData m a, (j < a + 4 ∨ a + 8 ≤ j) →
      (j < a + 0x10 ∨ a + 0x14 ≤ j) → (j < 0x18 ∨ 0x1C ≤ j) → m₂ j = m j := by
    intro j hj h₁ h₂ h₃
    unfold attrResidentData at hj
    rw [← hm₂, resizeAttr_outside (by omega) h₁ h₂ h₃ (by omega)]
    exact hbelow j hj
  unfold attrResidentData at hkept
  have htype : attrType m₂ a = attrType m a :=
    Mem.read_congr fun j hlo hhi => hkept j (by omega) (by omega) (by omega) (by omega)
  have hcoff : contentOff m₂ a = contentOff m a :=
    Mem.read_congr fun j hlo hhi => hkept j (by omega) (by omega) (by omega) (by omega)
  have hbelow₂ : ∀ j < a, ¬(0x18 ≤ j ∧ j < 0x1C) → m₂ j = m j := fun j hj hne =>
    hkept j (by omega) (by omega) (by omega) (by omega)
  have hattrs : Attrs v m₂ (init ++ [a]) (a + attrLen m₂ a) := by
    refine h.toAttrs.resize hlow hbelow₂ ?_ (by omega) (by rw [hlen]; exact hmark) (by omega)
      (by rw [hlen]; exact hused)
    rw [htype]
    exact h.type a ha
  have hnon : attrIsNonresident m₂ a = false := by
    unfold attrIsNonresident
    rw [hkept (a + 8) (by omega) (by omega) (by omega) (by omega)]
    exact hres
  have hwf := h.resize hbelow₂ hattrs fun _ => by omega
  rw [hlen] at hwf
  exact ⟨hwf, hclen, hbelow₂, htype, hnon, hcoff⟩

theorem RecordWf.keep_sizes (h : RecordWf v m as e)
    (hkept : ∀ j, ¬InNameSizes m as j → m' j = m j) : RecordWf v m' as e := by
  have hfits := h.residentFits
  have hlow := h.low
  have hhead : ∀ j < 0x1C, m' j = m j := fun j hj => hkept j fun hin => by
    obtain ⟨b, hb, -, hlo, -⟩ := hin.place hfits
    have := (h.mem hb).1
    omega
  have hattrs := h.toAttrs.keep_sizes hfits hlow hkept
  have hword : ∀ o < 0x1A, m'.rd16 o = m.rd16 o := fun o ho =>
    Mem.read_congr fun j _ hj => hhead j (by omega)
  have hfirst : firstAttr m' = firstAttr m := hword 0x14 (by omega)
  refine { hattrs with
    file := (h.writable fun j hj => hhead j (by omega)).1
    usa := (h.writable fun j hj => hhead j (by omega)).2
    usaPlace := by rw [hword 4 (by omega), hword 6 (by omega), hfirst]; exact h.usaPlace
    low := by rw [hfirst]; exact hlow
    aligned := h.aligned
    resident := fun b hb hr => ?_ }
  obtain ⟨-, hlen, hnon, hclen, hcoff⟩ := attr_congr (header_agree h.toAttrs hfits hkept hb)
  rw [hlen, hclen, hcoff]
  exact h.resident b hb (hnon ▸ hr)

/-! ## The write -/

/-- The parent a write is told about is a directory record of the volume, or none. -/
def ParentOk (v : Volume) (s : Sys) (parent : Nat) : Prop :=
  parent = 0 ∨ ∃ m as e, RecordWf v m as e ∧ Holds v s parent m

theorem indexUpdate_returns (hgeo : Geometry v) (hmounted : v.mounted) (env : Env) {parent : Nat}
    {s : Sys} (hparent : ParentOk v s parent) (child newReal newAlloc : Nat) :
    ∃ r, ntfsIndexUpdateSize v env parent child newReal newAlloc s = some r := by
  obtain rfl | ⟨m, as, e, h, hholds⟩ := hparent
  · exact ⟨_, if_pos rfl⟩
  · exact ntfsIndexUpdateSize_returns hgeo hmounted env h hholds child newReal newAlloc

/-- What a write of `target` bytes in all leaves in the record. -/
structure Committed (v : Volume) (m : Mem) (as : List Nat) (a offset : Nat) (data : Mem)
    (len target : Nat) (m' : Mem) : Prop where
  kept : ∀ j, (target ≠ contentLen m a → ¬InLengthFields m as a target j) →
    m' j = storeContent m a offset data len j
  resized : target ≠ contentLen m a →
    RecordWf v m' as (a + align8 (contentOff m a + target)) ∧ contentLen m' a = target

theorem commitResident_spec (hgeo : Geometry v) (hmounted : v.mounted)
    (hdisk : ∀ n, env.diskFails n = false) (h : RecordWf v m as e) {a : Nat} (ha : a ∈ as)
    (htype : attrType m a = attrData) (hres : attrIsNonresident m a = false) {target : Nat}
    (hcan : target ≠ contentLen m a → Resizable v m a target) {parent : Nat} {s : Sys}
    (hparent : ParentOk v s parent) (no offset : Nat) (data : Mem) (len : Nat) :
    ∃ s' m', commitResident v env no m a offset data len target parent s = some (len, s') ∧
      Holds v s' no m' ∧ UsaFits v m' ∧ Committed v m as a offset data len target m' ∧
      (target = contentLen m a →
        ∀ lba, ¬Hit v (recordSector v no) (recordSectors v) lba → s'.disk lba = s.disk lba) := by
  have hmem := h.mem ha
  have hlow := h.low
  have hfits := h.resident a ha hres
  have hdata : a + 24 ≤ attrResidentData m a := Nat.add_le_add_left hfits.1 a
  have hwrite : ∀ {m'}, (∀ j < 0x14, m' j = m j) → ∀ s₁, ∃ s', (ntfsWriteMftRecord v env no m' s₁).map
      (fun r => (if r.1 ≠ 0 then 0 else len, r.2.2)) = some (len, s') ∧ Holds v s' no m' ∧
        UsaFits v m' ∧
        ∀ lba, ¬Hit v (recordSector v no) (recordSectors v) lba → s'.disk lba = s₁.disk lba := by
    intro m' hkept s₁
    obtain ⟨hfile, husa⟩ := h.writable hkept
    obtain ⟨r, image, s', hrun, -, -, hframe, hholds, hok⟩ :=
      ntfsWriteMftRecord_spec hgeo hmounted env no hfile husa s₁
    exact ⟨s', by rw [hrun, hok hdisk]; rfl, hholds (hok hdisk), husa, hframe⟩
  have hstored : ∀ j < attrResidentData m a, storeContent m a offset data len j = m j :=
    fun j hj => storeContent_below m data hj
  unfold commitResident
  by_cases hsame : target = contentLen m a
  · obtain ⟨s', hrun, hholds, husa, hframe⟩ := hwrite (fun j hj => hstored j (by omega)) s
    refine ⟨s', storeContent m a offset data len, ?_, hholds, husa,
      ⟨fun j _ => rfl, fun hne => absurd hsame hne⟩, fun _ => hframe⟩
    simp only [if_neg (not_not_intro hsame), Option.bind_some]
    exact hrun
  · obtain ⟨hfit, hlast⟩ := hcan hsame
    obtain ⟨init, rfl, rfl⟩ := (h.last_iff ha).mp hlast
    obtain ⟨hwf, hclen, hbelow, htype', hnon, -⟩ := resizeAttr_wf hgeo h hres hstored hfit
    have hnext : a + align8 (contentOff m a + target) < 4294967296 := by
      have hin := hwf.inside
      have hbounds := v.record_bounds
      omega
    have hout := fun j => resizeAttr_outside (m := storeContent m a offset data len) (j := j) hnext
    simp only [if_pos hsame]
    generalize resizeAttr (storeContent m a offset data len) a (contentOff m a) target = m₂ at *
    -- the sizes lie in the attributes in front of `a`, whose headers are as they were
    have hsizes : ∀ j, InNameSizes m₂ (init ++ [a]) j → InNameSizes m (init ++ [a]) j := by
      rintro j ⟨b, hb, hname, hres', hlen, hlo, hhi⟩
      rcases List.mem_append.mp hb with hb' | hb'
      · obtain ⟨mid, hinit, rfl, -⟩ := span_append.mp h.span
        have hb₁ := (span_mem hinit hb').2.2
        have hb₂ := h.mem hb
        obtain ⟨ht, -, hn, hc, ho⟩ := attr_congr (show Mem.Agree m m₂ b (b + 24) from
          fun j hlo hhi => (hbelow j (by omega) (by omega)).symm)
        unfold attrResidentData at hlo hhi
        rw [ht] at hname
        rw [hn] at hres'
        rw [hc] at hlen
        rw [ho] at hlo hhi
        exact ⟨b, hb, hname, hres', hlen, hlo, hhi⟩
      · rw [List.mem_singleton.mp hb', htype', htype] at hname
        exact absurd hname (by decide)
    obtain ⟨m₃, hset, hkept₃⟩ := ntfsRecordSetFilenameSize_spec hwf.toAttrs hwf.residentFits hwf.low
      target (align8 target)
    have hhead : ∀ j < 0x14, m₃ j = m j := by
      intro j hj
      rw [hkept₃ j fun hin => ?_, hbelow j (by omega) (by omega)]
      obtain ⟨b, hb, -, hlo, -⟩ := hin.place hwf.residentFits
      have := (hwf.mem hb).1
      have := hwf.low
      omega
    have hindex : ∃ s₁, (if parent ≠ 0 then
        (ntfsIndexUpdateSize v env parent no target (align8 target) s).map fun r => (m₃, r.2)
        else some (m₃, s)) = some (m₃, s₁) := by
      split
      · obtain ⟨r, hr⟩ := indexUpdate_returns hgeo hmounted env hparent no target (align8 target)
        exact ⟨r.2, by rw [hr]; rfl⟩
      · exact ⟨s, rfl⟩
    obtain ⟨s₁, hindex⟩ := hindex
    obtain ⟨s', hrun, hholds, husa, -⟩ := hwrite hhead s₁
    refine ⟨s', m₃, ?_, hholds, husa, ⟨fun j hj => ?_, fun _ => ⟨hwf.keep_sizes hkept₃, ?_⟩⟩,
      fun heq => absurd heq hsame⟩
    · rw [hset, Option.bind_some, hindex, Option.bind_some]
      exact hrun
    · have hj := hj hsame
      unfold InLengthFields at hj
      push Not at hj
      rw [hkept₃ j fun hin => hj.2.2.2.2 (hsizes j hin)]
      exact hout j (by omega) (by omega) (by omega) (by omega)
    · have heq := (attr_congr (header_agree hwf.toAttrs hwf.residentFits hkept₃ ha)).2.2.2.1
      rw [heq, hclen]

/-! ## The content afterwards -/

theorem RecordWf.keep_headers (h : RecordWf v m as e) {a : Nat} (ha : a ∈ as)
    (hkept : ∀ j, ¬(a + 24 ≤ j ∧ j < a + attrLen m a) → m' j = m j) : RecordWf v m' as e := by
  have hmem := h.mem ha
  have hlow := h.low
  have hagree : ∀ b ∈ as, Mem.Agree m m' b (b + 24) := by
    intro b hb j hlo hhi
    have hapart := span_apart h.span ha hb
    have hb' := h.mem hb
    exact (hkept j (by omega)).symm
  have hhead : ∀ j < 0x1C, m' j = m j := fun j hj => hkept j (by omega)
  have hword : ∀ o < 0x1A, m'.rd16 o = m.rd16 o := fun o ho =>
    Mem.read_congr fun j _ hj => hhead j (by omega)
  have hfirst : firstAttr m' = firstAttr m := hword 0x14 (by omega)
  have hattrs : Attrs v m' as e := h.toAttrs.congr (fun j _ hj => (hhead j hj).symm)
    (fun b hb => (hagree b hb).mono (by omega) (by omega)) fun j hlo hhi =>
      (hkept j (by omega)).symm
  refine { hattrs with
    file := (h.writable fun j hj => hhead j (by omega)).1
    usa := (h.writable fun j hj => hhead j (by omega)).2
    usaPlace := by rw [hword 4 (by omega), hword 6 (by omega), hfirst]; exact h.usaPlace
    low := by rw [hfirst]; exact hlow
    aligned := h.aligned
    resident := fun b hb hr => ?_ }
  obtain ⟨-, hlen, hnon, hclen, hcoff⟩ := attr_congr (hagree b hb)
  rw [hlen, hclen, hcoff]
  exact h.resident b hb (hnon ▸ hr)

/-- The content a write of `n` bytes at `offset` asks for. -/
def newByte (m : Mem) (a offset n : Nat) (data : Mem) (j : Nat) : UInt8 :=
  if offset ≤ j ∧ j < offset + n then data (j - offset)
  else if j < contentLen m a then m (attrResidentData m a + j) else 0

theorem storeContent_at {a offset len target : Nat} {data : Mem}
    (htarget : target = contentLen m a ∧ offset + len ≤ target ∨ target = offset + len)
    (hsmall : target < 4294967296) {j : Nat} (hj : j < target) :
    storeContent m a offset data len (attrResidentData m a + j) = newByte m a offset len data j := by
  have hoff : u32 offset = offset := u32_of_lt (by omega)
  unfold storeContent newByte
  rw [hoff, Mem.blit_apply]
  by_cases hin : offset ≤ j ∧ j < offset + len
  · rw [if_pos ⟨by omega, by omega⟩, if_pos hin,
      show attrResidentData m a + j - (attrResidentData m a + offset) = j - offset by omega]
  · rw [if_neg (by omega), if_neg hin]
    by_cases hgap : contentLen m a < offset
    · have hlen : u32 (offset + 4294967296 - contentLen m a) = offset - contentLen m a := by
        unfold u32
        omega
      rw [if_pos hgap, hlen, Mem.blit_apply]
      by_cases hold : j < contentLen m a
      · rw [if_neg (by omega), if_pos hold]
      · rw [if_pos (by omega), if_neg hold]
    · rw [if_neg hgap, if_pos (by omega)]

/-- Outside the content and the gap nothing is stored. -/
theorem storeContent_outside {a offset len target : Nat} (data : Mem)
    (htarget : target = contentLen m a ∧ offset + len ≤ target ∨ target = offset + len)
    (hsmall : target < 4294967296) {j : Nat}
    (hj : j < attrResidentData m a ∨ attrResidentData m a + target ≤ j) :
    storeContent m a offset data len j = m j := by
  have hoff : u32 offset = offset := u32_of_lt (by omega)
  unfold storeContent
  rw [hoff, Mem.blit_outside _ _ (by omega)]
  split
  case isTrue hgap =>
    have hlen : u32 (offset + 4294967296 - contentLen m a) = offset - contentLen m a := by
      unfold u32
      omega
    rw [hlen]
    exact Mem.blit_outside _ _ (by omega)
  case isFalse => rfl

/-- The sizes lie in front of the `$DATA` when that is the last attribute. -/
theorem InNameSizes.lt_last {init : List Nat} {a j : Nat} (h : Attrs v m (init ++ [a]) e)
    (hfits : ResidentFits m (init ++ [a])) (htype : attrType m a = attrData)
    (hj : InNameSizes m (init ++ [a]) j) : j < a := by
  obtain ⟨b, hb, hname, -, hhi⟩ := hj.place hfits
  obtain ⟨mid, hinit, rfl, -⟩ := span_append.mp h.span
  rcases List.mem_append.mp hb with hb' | hb'
  · have := (span_mem hinit hb').2.2
    omega
  · rw [List.mem_singleton.mp hb', htype] at hname
    exact absurd hname (by decide)

/-- A write whose length is not narrowed gives the record the content it asks for. -/
theorem Committed.content (h : RecordWf v m as e) {a : Nat} (ha : a ∈ as)
    (htype : attrType m a = attrData) (hres : attrIsNonresident m a = false)
    {offset len target : Nat} {data : Mem}
    (hcan : target ≠ contentLen m a → Resizable v m a target)
    (htarget : target = contentLen m a ∧ offset + len ≤ target ∨ target = offset + len)
    (hc : Committed v m as a offset data len target m') :
    (∃ e', RecordWf v m' as e') ∧ (∀ b ∈ as, attrType m' b = attrType m b) ∧
      attrIsNonresident m' a = false ∧ contentLen m' a = target ∧
      attrResidentData m' a = attrResidentData m a ∧
      ∀ j < target, m' (attrResidentData m a + j) = newByte m a offset len data j := by
  have hmem := h.mem ha
  have hin := h.inside
  have hbounds := v.record_bounds
  have hfits := h.resident a ha hres
  have hstart : attrResidentData m a = a + contentOff m a := rfl
  have hlow := h.low
  by_cases hsame : target = contentLen m a
  · have hkept : ∀ j, ¬(a + 24 ≤ j ∧ j < a + attrLen m a) → m' j = m j := fun j hj => by
      rw [hc.kept j fun hne => absurd hsame hne]
      exact storeContent_outside data htarget (by omega) (by omega)
    have hagree : ∀ b ∈ as, Mem.Agree m m' b (b + 24) := fun b hb j hlo hhi => by
      have hapart := span_apart h.span ha hb
      have hb' := h.mem hb
      exact (hkept j (by omega)).symm
    obtain ⟨-, -, hnon, hclen, hcoff⟩ := attr_congr (hagree a ha)
    refine ⟨⟨e, h.keep_headers ha hkept⟩, fun b hb => (attr_congr (hagree b hb)).1, hnon.trans hres,
      hclen.trans hsame.symm, ?_, fun j hj => ?_⟩
    · unfold attrResidentData
      rw [hcoff]
    · rw [hc.kept _ fun hne => absurd hsame hne]
      exact storeContent_at htarget (by omega) hj
  · obtain ⟨hwf, hclen⟩ := hc.resized hsame
    obtain ⟨hroom, hlast⟩ := hcan hsame
    obtain ⟨init, rfl, rfl⟩ := (h.last_iff ha).mp hlast
    have halign := align8_of_lt (show contentOff m a + target + 7 < 4294967296 by omega)
    have hkept : ∀ j < attrResidentData m a, (j < a + 4 ∨ a + 8 ≤ j) → (j < a + 0x10 ∨ a + 0x14 ≤ j) →
        0x1C ≤ j → ¬InNameSizes m (init ++ [a]) j → m' j = m j := by
      intro j hj h₁ h₂ h₃ h₄
      rw [hc.kept j fun _ => ?_, storeContent_below m data hj]
      rintro (h | h | h | h | h)
      · omega
      · omega
      · omega
      · omega
      · exact h₄ h
    have hheader : ∀ b ∈ init ++ [a], ∀ j, b ≤ j → j < b + 24 → ¬InNameSizes m (init ++ [a]) j :=
      fun b hb j hlo hhi hj => hj.not_header h.toAttrs h.residentFits hb ⟨hlo, hhi⟩
    refine ⟨⟨_, hwf⟩, fun b hb => ?_, ?_, hclen, ?_, fun j hj => ?_⟩
    · have hapart := span_apart h.span ha hb
      have hb' := h.mem hb
      exact Mem.read_congr fun j hlo hhi => hkept j (by omega) (by omega) (by omega) (by omega)
        (hheader b hb j (by omega) (by omega))
    · unfold attrIsNonresident
      rw [hkept (a + 8) (by omega) (by omega) (by omega) (by omega)
        (hheader a ha _ (by omega) (by omega))]
      exact hres
    · unfold attrResidentData
      congr 1
      exact Mem.read_congr fun j hlo hhi => hkept j (by omega) (by omega) (by omega) (by omega)
        (hheader a ha j (by omega) (by omega))
    · rw [hc.kept _ fun _ => ?_]
      · exact storeContent_at htarget (by omega) hj
      · rintro (h₁ | h₁ | h₁ | h₁ | h₁)
        · omega
        · omega
        · omega
        · omega
        · have := h₁.lt_last h.toAttrs h.residentFits htype
          omega

end MeuOS.Ntfs
