import MeuOS.Ntfs.ResidentWrite

/-! Reading after a write to a resident `$DATA`: the whole of `ntfs_write_file` against
what the caller is told, for every offset, length and mode. -/
namespace MeuOS.Ntfs

open MeuOS.Lib

variable {v : Volume} {env : Env} {m m' : Mem} {as : List Nat} {e : Nat}

/-- Every transfer succeeds, and so does every allocation. -/
structure Calm (env : Env) : Prop where
  disk : ∀ n, env.diskFails n = false
  mem : ∀ n, env.noMem n = false

/-- Reading the file gives `len` bytes, at every offset and in pieces of every length. -/
def ReadsAs (v : Volume) (s : Sys) (no len : Nat) (byte : Nat → UInt8) : Prop :=
  ∀ env, Calm env → ∀ offset count buf, ∃ out s',
    ntfsReadFile v env no offset (some buf) count s = some (min count (len - offset), some out, s') ∧
      ∀ i < min count (len - offset), out i = byte (offset + i)

/-- What loading the record gives. -/
def LoadsAs (v : Volume) (s : Sys) (no : Nat) (P : Mem → Prop) : Prop :=
  ∀ env, Calm env → ∃ m s', loadRecord v env no s = some (some m, s') ∧ P m

/-- The record whose `$DATA`, the first one, is resident at `a`. -/
def DataAt (v : Volume) (m : Mem) (a : Nat) : Prop :=
  ntfsFindAttr v m attrData 0 false = some (some a) ∧ attrIsNonresident m a = false

theorem DataAt.mem (h : Attrs v m as e) {a : Nat} (hdata : DataAt v m a) :
    a ∈ as ∧ attrType m a = attrData := by
  have hfind := hdata.1
  rw [h.find, Option.some.injEq] at hfind
  obtain ⟨hmem, hmatch⟩ := List.mem_filter.mp (List.mem_of_getElem? hfind)
  exact ⟨hmem, by simpa [attrMatches] using hmatch⟩

/-- The first `$DATA` stays where it is as long as the types of the attributes stay. -/
theorem DataAt.congr {a e' : Nat} (hdata : DataAt v m a) (h : Attrs v m as e)
    (h' : Attrs v m' as e') (htype : ∀ b ∈ as, attrType m' b = attrType m b)
    (hres : attrIsNonresident m' a = false) : DataAt v m' a := by
  refine ⟨?_, hres⟩
  rw [h'.find, filter_congr_type htype, ← h.find]
  exact hdata.1

theorem loadsAs (hgeo : Geometry v) {no : Nat} (hfile : IsFile m) (husa : UsaFits v m) {s : Sys}
    (hholds : Holds v s no m) : LoadsAs v s no (SameRecord v m) := by
  intro env hcalm
  obtain ⟨rec, n, k, hrun, hsame, -, hok⟩ := loadRecord_spec hgeo env hfile husa hholds
  obtain ⟨m', rfl⟩ := hok (hcalm.mem _) hcalm.disk
  exact ⟨m', _, hrun, hsame m' rfl⟩

/-- The fields and the content of an attribute are outside the array. -/
theorem RecordWf.same_attr (h : RecordWf v m as e) (hsame : SameRecord v m m') {a : Nat}
    (ha : a ∈ as) : Mem.Agree m m' a (a + attrLen m a) ∧ Mem.Agree m m' a (a + 24) := by
  have hmem := h.mem ha
  have hin := h.inside
  have hhigh := (h.same hsame).2
  exact ⟨hhigh.mono (by omega) (by omega), hhigh.mono (by omega) (by omega)⟩

theorem RecordWf.reads (hgeo : Geometry v) (hmounted : v.mounted) (h : RecordWf v m as e) {a : Nat}
    (hdata : DataAt v m a) {s : Sys} {no : Nat} (hholds : Holds v s no m) :
    ReadsAs v s no (contentLen m a) fun j => m (attrResidentData m a + j) := by
  obtain ⟨ha, -⟩ := hdata.mem h.toAttrs
  have hfits := h.resident a ha hdata.2
  intro env hcalm offset count buf
  simp only [ntfsReadFile]
  by_cases hzero : count = 0
  · exact ⟨buf, s, by simp [hzero], fun i hi => by omega⟩
  · rw [if_neg (by simp [hmounted, hzero])]
    obtain ⟨m', s', hrun, hsame⟩ := loadsAs hgeo h.file h.usa hholds env hcalm
    obtain ⟨hbody, hhead⟩ := h.same_attr hsame ha
    obtain ⟨-, -, hnon, hclen, hcoff⟩ := attr_congr hhead
    have htypes : ∀ b ∈ as, attrType m' b = attrType m b := fun b hb =>
      (attr_congr (h.same_attr hsame hb).2).1
    have hdata' := hdata.congr h.toAttrs (h.of_same hsame).toAttrs htypes (hnon.trans hdata.2)
    simp only [hrun, Option.bind_some, ntfsReadDataAttr, hdata'.1, hdata'.2, Bool.false_eq_true,
      if_false, hclen]
    have hstart : attrResidentData m' a = a + contentOff m a := by
      unfold attrResidentData
      rw [hcoff]
    by_cases hpast : contentLen m a ≤ offset
    · exact ⟨buf, s', by rw [if_pos hpast, Nat.sub_eq_zero_of_le hpast, Nat.min_zero]; rfl,
        fun i hi => by omega⟩
    · rw [if_neg hpast]
      refine ⟨_, s', rfl, fun i hi => ?_⟩
      show buf.blit 0 _ (m'.shift (attrResidentData m' a + offset)) i = m (a + contentOff m a + _)
      rw [Mem.blit_inside _ _ (by omega) (by omega), Mem.shift, hstart]
      have hbyte := hbody (a + contentOff m a + (offset + i)) (by omega) (by omega)
      rw [hbyte]
      congr 1
      omega

/-! ## What a write promises -/

instance (v : Volume) (m : Mem) (a target : Nat) : Decidable (Resizable v m a target) :=
  inferInstanceAs (Decidable (_ ∧ _))

/-- The length a write asks for, in full. -/
def wantedLen (old offset len : Nat) (setEof : Bool) : Nat :=
  if setEof then offset + len else max old (offset + len)

/-- How many bytes are to be written and how long the content then is; `none` where
nothing can be. A length that cannot be had leaves the old one. -/
def expectedWrite (v : Volume) (m : Mem) (a offset len : Nat) (setEof : Bool) : Option (Nat × Nat) :=
  let old := contentLen m a
  let wanted := wantedLen old offset len setEof
  if wanted = old ∨ Resizable v m a wanted then some (len, wanted)
  else if old ≤ offset then none
  else some (min len (old - offset), old)

/-- The bytes of a record a write may change: the `$DATA`, and with its length the end
marker, bytes used and the sizes in the `$FILE_NAME` attributes. -/
def InWritten (m : Mem) (as : List Nat) (a newLen j : Nat) : Prop :=
  a ≤ j ∧ j < a + attrLen m a ∨ newLen ≠ contentLen m a ∧
    (a ≤ j ∧ j < a + align8 (contentOff m a + newLen) + 8 ∨ 0x18 ≤ j ∧ j < 0x1C ∨ InNameSizes m as j)

/-- Nothing but the update sequence array of the record may have changed. -/
structure Unchanged (v : Volume) (s s' : Sys) (no : Nat) (m : Mem) : Prop where
  elsewhere : ∀ lba, ¬Hit v (recordSector v no) (recordSectors v) lba → s'.disk lba = s.disk lba
  record : LoadsAs v s' no (SameRecord v m)

structure Performed (v : Volume) (s' : Sys) (no : Nat) (m : Mem) (as : List Nat)
    (a offset count newLen : Nat) (data : Mem) : Prop where
  content : ReadsAs v s' no newLen (newByte m a offset count data)
  rest : LoadsAs v s' no fun m' => ∀ j < v.mftRecordSize, ¬InUsa (m.rd16 0x04) (m.rd16 0x06) j →
    ¬InWritten m as a newLen j → m' j = m j

/-- `ntfs_write_file` keeps its promise on this record and these arguments. -/
def WriteKept (v : Volume) (env : Env) (no : Nat) (m : Mem) (as : List Nat) (a offset : Nat)
    (data : Mem) (len : Nat) (setEof : Bool) (parent : Nat) (s : Sys) : Prop :=
  ∃ n s', ntfsWriteFile v env no offset (some data) len setEof parent s = some (n, s') ∧
    match if env.noMem s.allocs then none else expectedWrite v m a offset len setEof with
    | none => n = 0 ∧ Unchanged v s s' no m
    | some (count, newLen) => n = count ∧ Performed v s' no m as a offset count newLen data

/-! ## A record and its copy in memory -/

variable {m₀ : Mem}

theorem same_fields (h : RecordWf v m as e) (hsame : SameRecord v m m₀) {a : Nat} (ha : a ∈ as) :
    attrType m₀ a = attrType m a ∧ attrLen m₀ a = attrLen m a ∧
      attrIsNonresident m₀ a = attrIsNonresident m a ∧ contentLen m₀ a = contentLen m a ∧
      contentOff m₀ a = contentOff m a :=
  attr_congr (h.same_attr hsame ha).2

theorem same_resizable (h : RecordWf v m as e) (hsame : SameRecord v m m₀) {a : Nat} (ha : a ∈ as)
    (target : Nat) : Resizable v m₀ a target ↔ Resizable v m a target := by
  obtain ⟨-, hlen, -, -, hcoff⟩ := same_fields h hsame ha
  have hmem := h.mem ha
  have hin := h.inside
  have hmark : attrType m₀ (a + attrLen m a) = attrType m (a + attrLen m a) :=
    Mem.read_congr ((h.same hsame).2.mono (by omega) (by omega)).symm
  unfold Resizable
  rw [hlen, hcoff, hmark]

theorem same_newByte (h : RecordWf v m as e) (hsame : SameRecord v m m₀) {a : Nat} (ha : a ∈ as)
    (hres : attrIsNonresident m a = false) (offset n : Nat) (data : Mem) :
    newByte m₀ a offset n data = newByte m a offset n data := by
  obtain ⟨-, -, -, hclen, hcoff⟩ := same_fields h hsame ha
  have hfits := h.resident a ha hres
  funext j
  unfold newByte attrResidentData
  rw [hclen, hcoff]
  split
  · rfl
  · split
    case isTrue hold => exact ((h.same_attr hsame ha).1 _ (by omega) (by omega)).symm
    case isFalse => rfl

theorem same_nameSizes (h : RecordWf v m as e) (hsame : SameRecord v m m₀) {j : Nat}
    (hj : InNameSizes m₀ as j) : InNameSizes m as j := by
  obtain ⟨b, hb, hname, hres, hlen, hlo, hhi⟩ := hj
  obtain ⟨htype, -, hnon, hclen, hcoff⟩ := same_fields h hsame hb
  unfold attrResidentData at hlo hhi
  rw [htype] at hname
  rw [hnon] at hres
  rw [hclen] at hlen
  rw [hcoff] at hlo hhi
  exact ⟨b, hb, hname, hres, hlen, hlo, hhi⟩

/-- A committed write, as it is read back. -/
theorem Committed.performed (hgeo : Geometry v) (hmounted : v.mounted) (h : RecordWf v m as e)
    (hsame : SameRecord v m m₀) {a : Nat} (hdata : DataAt v m a) {offset len target : Nat} {data : Mem}
    (hcan : target ≠ contentLen m a → Resizable v m a target)
    (htarget : target = contentLen m a ∧ offset + len ≤ target ∨ target = offset + len)
    (hc : Committed v m₀ as a offset data len target m') {s' : Sys} {no : Nat}
    (hholds : Holds v s' no m') : Performed v s' no m as a offset len target data := by
  obtain ⟨ha, htype⟩ := hdata.mem h.toAttrs
  have h₀ := h.of_same hsame
  obtain ⟨htype₀, hlen₀, hnon₀, hclen₀, hcoff₀⟩ := same_fields h hsame ha
  obtain ⟨⟨e', hwf⟩, htypes, hnon, hclen, hstart, hbytes⟩ := hc.content h₀ ha (htype₀.trans htype)
    (hnon₀.trans hdata.2) (fun hne => (same_resizable h hsame ha _).2 (hcan (hclen₀ ▸ hne)))
    (by rw [hclen₀]; exact htarget)
  have hdata' : DataAt v m' a := hdata.congr h.toAttrs hwf.toAttrs
    (fun b hb => (htypes b hb).trans (same_fields h hsame hb).1) hnon
  constructor
  · intro env hcalm off count buf
    obtain ⟨out, s'', hrun, hout⟩ := hwf.reads hgeo hmounted hdata' hholds env hcalm off count buf
    rw [hclen] at hrun hout
    refine ⟨out, s'', hrun, fun i hi => ?_⟩
    rw [hout i hi, hstart, ← same_newByte h hsame ha hdata.2]
    exact hbytes (off + i) (by omega)
  · intro env hcalm
    obtain ⟨m'', s'', hrun, hload⟩ := loadsAs hgeo hwf.file hwf.usa hholds env hcalm
    have hmem := h.mem ha
    have hfits := h.resident a ha hdata.2
    have hbounds := v.record_bounds
    have hin := h.inside
    have hlow := h.low
    have hkept : ∀ j, ¬InWritten m as a target j → m' j = m₀ j := by
      intro j hj
      unfold InWritten at hj
      rw [hc.kept j fun hne => ?_]
      · by_cases hold : target = contentLen m a
        · exact storeContent_outside data (by rw [hclen₀]; exact htarget) (by omega)
            (by unfold attrResidentData; omega)
        · have hroom := (hcan hold).1
          have halign := align8_of_lt (show contentOff m a + target + 7 < 4294967296 by omega)
          exact storeContent_outside data (by rw [hclen₀]; exact htarget) (by omega)
            (by unfold attrResidentData; omega)
      · rw [hclen₀] at hne
        unfold InLengthFields
        rw [hcoff₀]
        rintro (h₁ | h₁ | h₁ | h₁ | h₁)
        · exact hj (.inl (by omega))
        · exact hj (.inl (by omega))
        · exact hj (.inr ⟨hne, .inr (.inl h₁)⟩)
        · exact hj (.inr ⟨hne, .inl (by omega)⟩)
        · exact hj (.inr ⟨hne, .inr (.inr (same_nameSizes h hsame h₁))⟩)
    have hword : ∀ o < 0x0A, m'.rd16 o = m.rd16 o := fun o ho => by
      have hsizes : ∀ j < 0x14, ¬InNameSizes m as j := fun j hj hin => by
        obtain ⟨b, hb, -, hlo, -⟩ := hin.place h.residentFits
        have := (h.mem hb).1
        omega
      refine (Mem.read_congr fun j hlo hhi => hkept j ?_).trans
        (Mem.read_congr ((h.same hsame).1.mono (by omega) (by omega)).symm)
      rintro (h₁ | ⟨-, h₁ | h₁ | h₁⟩)
      · omega
      · omega
      · omega
      · exact hsizes j (by omega) h₁
    refine ⟨m'', s'', hrun, fun j hj husa hjw => ?_⟩
    rw [hload j hj (by rw [hword 4 (by omega), hword 6 (by omega)]; exact husa), hkept j hjw]
    exact hsame j hj husa

/-! ## The whole write -/

theorem writeFile_enters (hgeo : Geometry v) (hmounted : v.mounted)
    (hdisk : ∀ n, env.diskFails n = false) (h : RecordWf v m as e) {a : Nat} (hdata : DataAt v m a)
    {s : Sys} {no : Nat} (hholds : Holds v s no m) (hmem : env.noMem s.allocs = false)
    (offset : Nat) (data : Mem) (len : Nat) (setEof : Bool) (parent : Nat) :
    ∃ m₀ n k, SameRecord v m m₀ ∧ ntfsWriteFile v env no offset (some data) len setEof parent s =
      writeResident v env no m₀ a offset data len setEof parent
        { s with transfers := n, allocs := k } := by
  obtain ⟨rec, n, k, hrun, hsame, -, hok⟩ := loadRecord_spec hgeo env h.file h.usa hholds
  obtain ⟨m₀, rfl⟩ := hok hmem hdisk
  obtain ⟨ha, -⟩ := hdata.mem h.toAttrs
  have hsame₀ := hsame m₀ rfl
  have hdata₀ := hdata.congr h.toAttrs (h.of_same hsame₀).toAttrs
    (fun b hb => (same_fields h hsame₀ hb).1) ((same_fields h hsame₀ ha).2.2.1.trans hdata.2)
  refine ⟨m₀, n, k, hsame₀, ?_⟩
  simp only [ntfsWriteFile, hmounted, not_true, if_false, hrun, Option.bind_some, hdata₀.1, hdata₀.2,
    Bool.false_eq_true]

theorem writeFile_noMem (hgeo : Geometry v) (hmounted : v.mounted) (h : RecordWf v m as e)
    {s : Sys} {no : Nat} (hholds : Holds v s no m) (hmem : env.noMem s.allocs = true)
    (offset : Nat) (data : Mem) (len : Nat) (setEof : Bool) (parent : Nat) :
    ∃ n k, ntfsWriteFile v env no offset (some data) len setEof parent s =
      some (0, { s with transfers := n, allocs := k }) := by
  obtain ⟨rec, n, k, hrun, -, hnone, -⟩ := loadRecord_spec hgeo env h.file h.usa hholds
  obtain rfl := hnone hmem
  refine ⟨n, k, ?_⟩
  simp only [ntfsWriteFile, hmounted, not_true, if_false, hrun, Option.bind_some]

/-- Without narrowing the driver aims at the length that was asked for. -/
theorem targetLen_narrow {old offset len : Nat} (setEof : Bool) (h : offset + len < 4294967296) :
    targetLen old offset len setEof = wantedLen old offset len setEof := by
  unfold targetLen wantedLen u32
  cases setEof
  · simp only [Bool.false_eq_true, if_false]
    split <;> omega
  · simp only [if_true]
    omega

/-- Past 4 GiB it aims at what is left in 32 bits. -/
theorem targetLen_wide {old offset : Nat} (setEof : Bool) (hold : old < 4294967296)
    (hoffset : offset < 2 ^ 64) (hwide : 4294967296 ≤ offset) :
    targetLen old offset 0 setEof = offset % 4294967296 := by
  have hwhole : (offset + 0) % 2 ^ 64 = offset := by omega
  unfold targetLen u32
  rw [hwhole]
  cases setEof
  · exact (if_neg Bool.false_ne_true).trans (if_pos (show old < offset by omega))
  · rfl

/-- Past 4 GiB nothing but an overwrite of the old content can be expected. -/
theorem expectedWrite_wide (h : RecordWf v m as e) {a : Nat} (ha : a ∈ as)
    (hres : attrIsNonresident m a = false) {offset len : Nat} (setEof : Bool)
    (hwide : 4294967296 ≤ offset + len) :
    expectedWrite v m a offset len setEof =
      if contentLen m a ≤ offset then none else some (contentLen m a - offset, contentLen m a) := by
  have hbounds := v.record_bounds
  have hmem := h.mem ha
  have hin := h.inside
  have hfits := h.resident a ha hres
  have hwanted : 4294967296 ≤ wantedLen (contentLen m a) offset len setEof := by
    unfold wantedLen
    split <;> omega
  unfold expectedWrite
  simp only
  rw [if_neg]
  · split
    case isTrue => rfl
    case isFalse => rw [show min len (contentLen m a - offset) = contentLen m a - offset by omega]
  · rintro (heq | ⟨hroom, -⟩) <;> omega

/-- The three ways a write to a resident `$DATA` can go. -/
theorem writeResident_cases (env : Env) (h : RecordWf v m as e) {a : Nat} (ha : a ∈ as)
    (hres : attrIsNonresident m a = false) {offset len : Nat} (hoffset : offset < 2 ^ 64)
    (hlen : len < 4294967296) (no : Nat) (data : Mem) (setEof : Bool) (parent : Nat) (s : Sys) :
    let t := targetLen (contentLen m a) offset len setEof
    ((t ≠ contentLen m a → Resizable v m a t) →
      writeResident v env no m a offset data len setEof parent s =
        commitResident v env no m a offset data len t parent s) ∧
    (t ≠ contentLen m a → ¬Resizable v m a t → contentLen m a ≤ offset →
      writeResident v env no m a offset data len setEof parent s = some (0, s)) ∧
    (t ≠ contentLen m a → ¬Resizable v m a t → offset < contentLen m a →
      writeResident v env no m a offset data len setEof parent s =
        commitResident v env no m a offset data (min len (contentLen m a - offset)) (contentLen m a)
          parent s) := by
  intro t
  have hcan := canResize_iff h ha hres t
  have hclen : contentLen m a < 4294967296 := m.rd32_lt _
  refine ⟨fun hok => ?_, fun hne hno hpast => ?_, fun hne hno hin => ?_⟩
  · exact if_neg fun hbad => hbad.2 (hcan.2 (hok hbad.1))
  · exact (if_pos ⟨hne, fun hc => hno (hcan.1 hc)⟩).trans (if_pos hpast)
  · refine (if_pos ⟨hne, fun hc => hno (hcan.1 hc)⟩).trans ((if_neg (by omega)).trans ?_)
    have hcount : (if contentLen m a < (offset + len) % 2 ^ 64 then contentLen m a - offset else len) =
        min len (contentLen m a - offset) := by
      split <;> omega
    rw [hcount]

/-! ## When the promise is kept -/

theorem Unchanged.of_disk (hgeo : Geometry v) (h : RecordWf v m as e) {s s' : Sys} {no : Nat}
    (hholds : Holds v s no m) (hdisk : s'.disk = s.disk) : Unchanged v s s' no m := by
  have hholds' : Holds v s' no m := by
    unfold Holds rawRecord onDisk
    rw [hdisk]
    exact hholds
  exact ⟨fun lba _ => congrFun hdisk lba, loadsAs hgeo h.file h.usa hholds'⟩

/-- Where the driver gives up its length the caller is not promised another. -/
theorem expectedWrite_refused (h : RecordWf v m as e) {a : Nat} (ha : a ∈ as)
    (hres : attrIsNonresident m a = false) {offset len : Nat} {setEof : Bool}
    (hne : targetLen (contentLen m a) offset len setEof ≠ contentLen m a)
    (hno : ¬Resizable v m a (targetLen (contentLen m a) offset len setEof)) :
    expectedWrite v m a offset len setEof =
      if contentLen m a ≤ offset then none
      else some (min len (contentLen m a - offset), contentLen m a) := by
  by_cases hsmall : offset + len < 4294967296
  · rw [targetLen_narrow setEof hsmall] at hne hno
    exact if_neg fun hbad => hbad.elim hne hno
  · rw [expectedWrite_wide h ha hres setEof (by omega)]
    have hclen : contentLen m a < 4294967296 := m.rd32_lt _
    split
    case isTrue => rfl
    case isFalse => rw [show min len (contentLen m a - offset) = contentLen m a - offset by omega]

section Kept

variable {no offset len parent a : Nat} {data : Mem} {setEof : Bool} {s : Sys}

theorem writeKept_noMem (hgeo : Geometry v) (hmounted : v.mounted) (h : RecordWf v m as e)
    (hholds : Holds v s no m) (hmem : env.noMem s.allocs = true) :
    WriteKept v env no m as a offset data len setEof parent s := by
  obtain ⟨n, k, hrun⟩ := writeFile_noMem hgeo hmounted h hholds hmem offset data len setEof parent
  refine ⟨0, _, hrun, ?_⟩
  rw [if_pos hmem]
  exact ⟨rfl, .of_disk hgeo h hholds rfl⟩

/-- A write the driver goes through with, from the copy of the record it has loaded. -/
theorem commit_performed (hgeo : Geometry v) (hmounted : v.mounted)
    (hdisk : ∀ n, env.diskFails n = false) (h : RecordWf v m as e) (hdata : DataAt v m a)
    (hsame : SameRecord v m m₀) (hparent : ParentOk v s parent) (no offset : Nat) (data : Mem)
    (len : Nat) {target : Nat} (hcan : target ≠ contentLen m a → Resizable v m a target) :
    ∃ s' m', commitResident v env no m₀ a offset data len target parent s = some (len, s') ∧
      Holds v s' no m' ∧ UsaFits v m' ∧ Committed v m₀ as a offset data len target m' ∧
      (target = contentLen m a →
        ∀ lba, ¬Hit v (recordSector v no) (recordSectors v) lba → s'.disk lba = s.disk lba) ∧
      (target = contentLen m a ∧ offset + len ≤ target ∨ target = offset + len →
        Performed v s' no m as a offset len target data) := by
  obtain ⟨ha, htype⟩ := hdata.mem h.toAttrs
  obtain ⟨htype₀, -, hnon₀, hclen₀, -⟩ := same_fields h hsame ha
  have hcan₀ : target ≠ contentLen m₀ a → Resizable v m₀ a target := fun hne =>
    (same_resizable h hsame ha target).2 (hcan (hclen₀ ▸ hne))
  obtain ⟨s', m', hrun, hholds', husa, hc, hframe⟩ := commitResident_spec hgeo hmounted hdisk
    (h.of_same hsame) ha (htype₀.trans htype) (hnon₀.trans hdata.2) hcan₀ hparent no offset data len
  exact ⟨s', m', hrun, hholds', husa, hc, hclen₀ ▸ hframe,
    fun htarget => hc.performed hgeo hmounted h hsame hdata hcan htarget hholds'⟩

theorem writeKept_narrow (hgeo : Geometry v) (hmounted : v.mounted)
    (hdisk : ∀ n, env.diskFails n = false) (h : RecordWf v m as e) (hdata : DataAt v m a)
    (hholds : Holds v s no m) (hmem : env.noMem s.allocs = false) (hparent : ParentOk v s parent)
    (hsmall : offset + len < 4294967296)
    (hcan : targetLen (contentLen m a) offset len setEof ≠ contentLen m a →
      Resizable v m a (targetLen (contentLen m a) offset len setEof)) :
    WriteKept v env no m as a offset data len setEof parent s := by
  obtain ⟨ha, -⟩ := hdata.mem h.toAttrs
  obtain ⟨m₀, n, k, hsame, hrun⟩ := writeFile_enters hgeo hmounted hdisk h hdata hholds hmem offset
    data len setEof parent
  obtain ⟨-, -, hnon₀, hclen₀, -⟩ := same_fields h hsame ha
  have hgo := (writeResident_cases env (h.of_same hsame) ha (hnon₀.trans hdata.2)
    (show offset < 2 ^ 64 by omega) (show len < 4294967296 by omega) no data setEof parent
    { s with transfers := n, allocs := k }).1
  rw [hclen₀] at hgo
  obtain ⟨s', m', hcommit, -, -, -, -, hperf⟩ := commit_performed (s := { s with
    transfers := n, allocs := k }) hgeo hmounted hdisk h hdata hsame hparent no offset data len hcan
  refine ⟨len, s', ?_, ?_⟩
  · rw [hrun, hgo fun hne => (same_resizable h hsame ha _).2 (hcan hne)]
    exact hcommit
  · rw [targetLen_narrow setEof hsmall] at hcan hperf
    have hexp : expectedWrite v m a offset len setEof =
        some (len, wantedLen (contentLen m a) offset len setEof) := by
      unfold expectedWrite
      exact if_pos (or_iff_not_imp_left.mpr hcan)
    rw [if_neg (by simp [hmem]), hexp]
    refine ⟨rfl, hperf ?_⟩
    unfold wantedLen
    split <;> omega

theorem writeKept_refused (hgeo : Geometry v) (hmounted : v.mounted)
    (hdisk : ∀ n, env.diskFails n = false) (h : RecordWf v m as e) (hdata : DataAt v m a)
    (hholds : Holds v s no m) (hmem : env.noMem s.allocs = false) (hparent : ParentOk v s parent)
    (hoffset : offset < 2 ^ 64) (hlen : len < 4294967296)
    (hne : targetLen (contentLen m a) offset len setEof ≠ contentLen m a)
    (hno : ¬Resizable v m a (targetLen (contentLen m a) offset len setEof)) :
    WriteKept v env no m as a offset data len setEof parent s := by
  obtain ⟨ha, -⟩ := hdata.mem h.toAttrs
  obtain ⟨m₀, n, k, hsame, hrun⟩ := writeFile_enters hgeo hmounted hdisk h hdata hholds hmem offset
    data len setEof parent
  obtain ⟨-, -, hnon₀, hclen₀, -⟩ := same_fields h hsame ha
  obtain ⟨-, hgive, hcut⟩ := writeResident_cases env (h.of_same hsame) ha
    (hnon₀.trans hdata.2) hoffset hlen no data setEof parent
    { s with transfers := n, allocs := k }
  rw [hclen₀] at hgive hcut
  have hno₀ : ¬Resizable v m₀ a (targetLen (contentLen m a) offset len setEof) := fun hc =>
    hno ((same_resizable h hsame ha _).1 hc)
  unfold WriteKept
  rw [hrun, if_neg (by simp [hmem]), expectedWrite_refused h ha hdata.2 hne hno]
  by_cases hpast : contentLen m a ≤ offset
  · rw [hgive hne hno₀ hpast, if_pos hpast]
    exact ⟨0, _, rfl, rfl, .of_disk hgeo h hholds rfl⟩
  · obtain ⟨s', m', hcommit, -, -, -, -, hperf⟩ := commit_performed (s := { s with
      transfers := n, allocs := k }) hgeo hmounted hdisk h hdata hsame hparent no offset data
      (min len (contentLen m a - offset)) fun (hbad : contentLen m a ≠ _) => absurd rfl hbad
    rw [hcut hne hno₀ (by omega), if_neg hpast, hcommit]
    exact ⟨_, s', rfl, rfl, hperf (.inl ⟨rfl, by omega⟩)⟩

/-- Nothing to write where the content ends: the record is written as it was. -/
theorem writeKept_empty (hgeo : Geometry v) (hmounted : v.mounted)
    (hdisk : ∀ n, env.diskFails n = false) (h : RecordWf v m as e) (hdata : DataAt v m a)
    (hholds : Holds v s no m) (hmem : env.noMem s.allocs = false) (hparent : ParentOk v s parent)
    (hoffset : offset < 2 ^ 64) (hwide : 4294967296 ≤ offset) (hlen : len = 0)
    (hend : offset % 4294967296 = contentLen m a) :
    WriteKept v env no m as a offset data len setEof parent s := by
  obtain ⟨ha, -⟩ := hdata.mem h.toAttrs
  obtain ⟨m₀, n, k, hsame, hrun⟩ := writeFile_enters hgeo hmounted hdisk h hdata hholds hmem offset
    data len setEof parent
  obtain ⟨-, -, hnon₀, hclen₀, -⟩ := same_fields h hsame ha
  have hclen : contentLen m a < 4294967296 := m.rd32_lt _
  have htarget : targetLen (contentLen m a) offset len setEof = contentLen m a :=
    (hlen ▸ targetLen_wide setEof hclen hoffset hwide).trans hend
  have hgo := (writeResident_cases env (h.of_same hsame) ha (hnon₀.trans hdata.2) hoffset
    (show len < 4294967296 by omega) no data setEof parent { s with transfers := n, allocs := k }).1
  rw [hclen₀, htarget] at hgo
  obtain ⟨s', m', hcommit, hholds', husa, hc, hframe, -⟩ := commit_performed (s := { s with
    transfers := n, allocs := k }) hgeo hmounted hdisk h hdata hsame hparent no offset data len
    fun (hbad : contentLen m a ≠ _) => absurd rfl hbad
  have hstored : storeContent m₀ a offset data len = m₀ := by
    have hgap : u32 (u32 offset + 4294967296 - contentLen m₀ a) = 0 := by
      unfold u32
      omega
    unfold storeContent
    simp only [hgap, hlen, Mem.blit_zero, ite_self]
  have hkept : ∀ j, m' j = m₀ j := fun j => by
    rw [hc.kept j fun hne => absurd hclen₀.symm hne, hstored]
  have hrec := (h.of_same hsame).of_same fun j _ _ => hkept j
  refine ⟨len, s', by rw [hrun, hgo fun hbad => absurd rfl hbad, hcommit], ?_⟩
  rw [if_neg (by simp [hmem]), expectedWrite_wide h ha hdata.2 setEof (by omega),
    if_pos (by omega)]
  refine ⟨hlen, fun lba hlba => hframe rfl lba hlba, fun env hcalm => ?_⟩
  obtain ⟨m'', s'', hload, hread⟩ := loadsAs hgeo hrec.file husa hholds' env hcalm
  have hword : ∀ o < 0x0A, m'.rd16 o = m.rd16 o := fun o ho =>
    (Mem.read_congr fun j _ _ => hkept j).trans
      (Mem.read_congr ((h.same hsame).1.mono (by omega) (by omega)).symm)
  refine ⟨m'', s'', hload, fun j hj hout => ?_⟩
  rw [hread j hj (by rw [hword 4 (by omega), hword 6 (by omega)]; exact hout), hkept j]
  exact hsame j hj hout

/-- Past 4 GiB nothing else goes well once the driver goes through with the write. -/
theorem not_writeKept_wide (hgeo : Geometry v) (hmounted : v.mounted)
    (hdisk : ∀ n, env.diskFails n = false) (h : RecordWf v m as e) (hdata : DataAt v m a)
    (hholds : Holds v s no m) (hmem : env.noMem s.allocs = false) (hparent : ParentOk v s parent)
    (hoffset : offset < 2 ^ 64) (hlen : len < 4294967296) (hwide : 4294967296 ≤ offset + len)
    (hcan : targetLen (contentLen m a) offset len setEof ≠ contentLen m a →
      Resizable v m a (targetLen (contentLen m a) offset len setEof))
    (hend : ¬(len = 0 ∧ offset % 4294967296 = contentLen m a)) :
    ¬WriteKept v env no m as a offset data len setEof parent s := by
  rintro ⟨n', s'', hkept, hpromise⟩
  obtain ⟨ha, -⟩ := hdata.mem h.toAttrs
  obtain ⟨m₀, n, k, hsame, hrun⟩ := writeFile_enters hgeo hmounted hdisk h hdata hholds hmem offset
    data len setEof parent
  obtain ⟨-, -, hnon₀, hclen₀, -⟩ := same_fields h hsame ha
  have hclen : contentLen m a < 4294967296 := m.rd32_lt _
  have hgo := (writeResident_cases env (h.of_same hsame) ha (hnon₀.trans hdata.2) hoffset hlen no
    data setEof parent { s with transfers := n, allocs := k }).1
  rw [hclen₀] at hgo
  obtain ⟨s', m', hcommit, hholds', husa, hc, -⟩ := commit_performed (s := { s with
    transfers := n, allocs := k }) hgeo hmounted hdisk h hdata hsame hparent no offset data len hcan
  rw [hrun, hgo fun hne => (same_resizable h hsame ha _).2 (hcan hne), hcommit] at hkept
  obtain ⟨rfl, rfl⟩ : len = n' ∧ s' = s'' := by simpa using hkept
  rw [if_neg (by simp [hmem]), expectedWrite_wide h ha hdata.2 setEof hwide] at hpromise
  by_cases hpast : contentLen m a ≤ offset
  · rw [if_pos hpast] at hpromise
    obtain ⟨hzero, hsameDisk⟩ := hpromise
    have htarget := targetLen_wide setEof hclen hoffset (by omega)
    have hne : targetLen (contentLen m a) offset len setEof ≠ contentLen m₀ a := fun heq =>
      hend ⟨hzero, by rw [← htarget, ← hzero, heq, hclen₀]⟩
    obtain ⟨hwf, hgrown⟩ := hc.resized hne
    have hcalm : Calm calmEnv := ⟨fun _ => rfl, fun _ => rfl⟩
    -- one and the same loaded record has the old length and the new one
    obtain ⟨m₁, t₁, hload₁, hsame₁⟩ := hsameDisk.record calmEnv hcalm
    obtain ⟨m₂, t₂, hload₂, hsame₂⟩ := loadsAs hgeo hwf.file husa hholds' calmEnv hcalm
    obtain ⟨rfl, -⟩ : m₁ = m₂ ∧ t₁ = t₂ := by simpa [hload₁] using hload₂
    have hold := (same_fields h hsame₁ ha).2.2.2.1
    have hnew := (same_fields hwf hsame₂ ha).2.2.2.1
    exact hne (by rw [← hgrown, ← hnew, hold, hclen₀])
  · rw [if_neg hpast] at hpromise
    omega

end Kept

/-! ## A file of five bytes -/

/-- A record whose one attribute is a `$DATA` that holds `hello`. -/
def helloRecord : Mem := fun i =>
  [0x46, 0x49, 0x4C, 0x45, 0x30, 0, 3, 0, 0, 0, 0, 0, 0, 0, 0, 0,
    1, 0, 1, 0, 0x38, 0, 1, 0, 0x60, 0, 0, 0, 0, 4, 0, 0,
    0, 0, 0, 0, 0, 0, 0, 0, 0, 0, 0, 0, 0, 0, 0, 0,
    1, 0, 0, 0, 0, 0, 0, 0, 0x80, 0, 0, 0, 0x20, 0, 0, 0,
    0, 0, 0, 0, 0, 0, 0, 0, 5, 0, 0, 0, 0x18, 0, 0, 0,
    0x68, 0x65, 0x6C, 0x6C, 0x6F, 0, 0, 0, 0xFF, 0xFF, 0xFF, 0xFF].getD i 0

theorem helloRecord_wf : RecordWf kibVolume helloRecord [0x38] 0x58 where
  span := ⟨by decide +kernel, by decide +kernel,
    show 0x38 + attrLen helloRecord 0x38 = 0x58 by decide +kernel⟩
  type := by decide +kernel
  header := by decide +kernel
  marker := by decide +kernel
  inside := by decide
  used := by decide +kernel
  file := by decide
  usa := by
    refine ⟨by decide, fun k hk => ?_, fun _ => ⟨by decide, by decide⟩, by decide⟩
    obtain rfl | rfl : k = 0 ∨ k = 1 := by
      have : helloRecord.rd16 6 = 3 := by decide +kernel
      omega
    · decide +kernel
    · decide +kernel
  usaPlace := by decide +kernel
  low := by decide +kernel
  aligned := by decide
  resident := by decide +kernel

theorem helloRecord_data : DataAt kibVolume helloRecord 0x38 :=
  ⟨by decide +kernel, by decide +kernel⟩

/-- The volume with that record as its record 27. -/
def helloSys : Sys :=
  match ntfsWriteMftRecord kibVolume calmEnv 27 helloRecord blankSys with
  | some (_, _, s) => s
  | none => blankSys

theorem kibVolume_geometry : Geometry kibVolume := ⟨rfl, ⟨2, rfl⟩⟩

theorem helloSys_holds : Holds kibVolume helloSys 27 helloRecord := by
  obtain ⟨r, image, s', hrun, -, -, -, hholds, hok⟩ := ntfsWriteMftRecord_spec kibVolume_geometry rfl
    calmEnv 27 helloRecord_wf.file helloRecord_wf.usa blankSys
  unfold helloSys
  rw [hrun]
  exact hholds (hok fun _ => rfl)

end MeuOS.Ntfs
