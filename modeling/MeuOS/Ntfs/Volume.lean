import MeuOS.Ntfs.Fixups

/-! Records on the volume. The disk is a map from sectors to their 512 bytes; which
transfers and which allocations fail, and what fresh heap memory holds, is up to the
environment. -/
namespace MeuOS.Ntfs

open MeuOS.Lib

/-- `HAL_SECTOR_SIZE`. -/
def halSectorSize : Nat := 512

/-- `s_vol`, with the bounds `ntfs_mount` enforces. -/
structure Volume where
  mounted : Bool
  partLba : Nat
  bytesPerSector : Nat
  sectorsPerCluster : Nat
  bytesPerCluster : Nat
  mftRecordSize : Nat
  indexRecordSize : Nat
  mftDataLcn : Nat
  sector_pos : 0 < bytesPerSector
  sector_lt : bytesPerSector < 65536
  record_bounds : 256 ≤ mftRecordSize ∧ mftRecordSize ≤ 8192

/-- What the hardware and the heap decide, request by request. -/
structure Env where
  diskFails : Nat → Bool
  noMem : Nat → Bool
  junk : Nat → Mem

/-- `written` remembers the images handed to `ntfs_write_mft_record`, latest first. -/
structure Sys where
  disk : Nat → Mem
  transfers : Nat
  allocs : Nat
  written : List (Nat × Mem)

/-- `kmalloc` of a buffer: a null pointer or what the block happens to hold. -/
def kmalloc (env : Env) (s : Sys) : Option Mem × Sys :=
  (if env.noMem s.allocs then none else some (env.junk s.allocs), { s with allocs := s.allocs + 1 })

/-- LBA28: the drive sees 28 bits of the sector number. -/
def lba28 (lba : Nat) : Nat := lba % 2 ^ 28

def halReadSector (env : Env) (lba : Nat) (buf : Mem) (off : Nat) (s : Sys) : Int × Mem × Sys :=
  let s' := { s with transfers := s.transfers + 1 }
  if env.diskFails s.transfers then (-1, buf, s')
  else (0, buf.blit off halSectorSize (s.disk (lba28 lba)), s')

def halWriteSector (env : Env) (lba : Nat) (buf : Mem) (off : Nat) (s : Sys) : Int × Sys :=
  let s' := { s with transfers := s.transfers + 1 }
  if env.diskFails s.transfers then (-1, s')
  else (0, { s' with disk := Function.update s.disk (lba28 lba) (buf.shift off) })

section Driver

variable (v : Volume) (env : Env)

/-- `s_vol.part_lba + (uint32_t)(vol_sector + i)`. -/
def lbaOf (volSector i : Nat) : Nat := (v.partLba + (volSector + i) % 2 ^ 32) % 2 ^ 32

/-- The loop of `ntfs_read_sectors` with `left` sectors to go. -/
def ntfsReadSectors (volSector : Nat) : Nat → Nat → Mem → Sys → Int × Mem × Sys
  | 0, _, buf, s => (0, buf, s)
  | left + 1, i, buf, s =>
      match halReadSector env (lbaOf v volSector i) buf (i * v.bytesPerSector) s with
      | (r, buf, s) =>
          if r ≠ 0 then (-1, buf, s) else ntfsReadSectors volSector left (i + 1) buf s

/-- The loop of `ntfs_write_sectors`. -/
def ntfsWriteSectors (volSector : Nat) (buf : Mem) : Nat → Nat → Sys → Int × Sys
  | 0, _, s => (0, s)
  | left + 1, i, s =>
      match halWriteSector env (lbaOf v volSector i) buf (i * v.bytesPerSector) s with
      | (r, s) => if r ≠ 0 then (-1, s) else ntfsWriteSectors volSector buf left (i + 1) s

/-- The first sector of a record, `abs_byte / s_vol.bytes_per_sector`. -/
def recordSector (no : Nat) : Nat :=
  (v.mftDataLcn * v.bytesPerCluster + no * v.mftRecordSize) % 2 ^ 64 / v.bytesPerSector

/-- The sectors of a record. -/
def recordSectors : Nat :=
  let nsec := v.mftRecordSize / v.bytesPerSector
  if nsec = 0 then 1 else nsec

/-- The signature `FILE`. -/
def IsFile (m : Mem) : Prop := m 0 = 0x46 ∧ m 1 = 0x49 ∧ m 2 = 0x4C ∧ m 3 = 0x45

instance (m : Mem) : Decidable (IsFile m) := inferInstanceAs (Decidable (_ ∧ _))

/-- The result of the fixups is ignored, as the driver does. -/
def ntfsReadMftRecord (no : Nat) (buf : Mem) (s : Sys) : Option (Int × Mem × Sys) :=
  match ntfsReadSectors v env (recordSector v no) (recordSectors v) 0 buf s with
  | (r, buf, s) =>
      if r ≠ 0 then some (-1, buf, s)
      else if ¬IsFile buf then some (-1, buf, s)
      else
        (ntfsApplyFixups v.bytesPerSector buf v.mftRecordSize (buf.rd16 0x04) (buf.rd16 0x06)).map
          fun (_, buf) => (0, buf, s)

def ntfsWriteMftRecord (no : Nat) (buf : Mem) (s : Sys) : Option (Int × Mem × Sys) :=
  if ¬v.mounted then some (-1, buf, s)
  else if ¬IsFile buf then some (-1, buf, s)
  else
    (ntfsApplyFixupsForWrite v.bytesPerSector buf v.mftRecordSize (buf.rd16 0x04)
      (buf.rd16 0x06)).map fun (r, image) =>
        if r ≠ 0 then (-1, image, s)
        else
          match ntfsWriteSectors v env (recordSector v no) image (recordSectors v) 0
            { s with written := (no, buf) :: s.written } with
          | (r, s) => (if r ≠ 0 then -1 else 0, image, s)

end Driver

/-! ## Sectors -/

/-- Sectors as large as the disk's and records made of whole sectors. -/
structure Geometry (v : Volume) : Prop where
  sector : v.bytesPerSector = halSectorSize
  whole : halSectorSize ∣ v.mftRecordSize

variable {v : Volume} {env : Env}

theorem Geometry.recordSectors_eq (h : Geometry v) :
    512 * recordSectors v = v.mftRecordSize ∧ 0 < recordSectors v ∧ recordSectors v ≤ 16 := by
  obtain ⟨k, hk⟩ := h.whole
  have hbounds := v.record_bounds
  have hdiv : v.mftRecordSize / 512 = k := by
    simp only [halSectorSize] at hk
    omega
  simp only [halSectorSize] at hk
  unfold recordSectors
  rw [h.sector, halSectorSize, hdiv]
  simp only
  split <;> omega

/-- Byte `j` of the sectors from `volSector` on, as they lie on the disk. -/
def onDisk (v : Volume) (volSector : Nat) (s : Sys) : Mem :=
  fun j => s.disk (lba28 (lbaOf v volSector (j / 512))) (j % 512)

/-- How a transfer of `left` sectors that starts as number `t` ends: the result, how many sectors
were moved and how many times the drive was asked. The first that fails is the last. -/
inductive Ended (env : Env) (t left : Nat) : Int → Nat → Nat → Prop
  | all (hok : ∀ j < left, env.diskFails (t + j) = false) : Ended env t left 0 left left
  | stopped {w : Nat} (hw : w < left) (hok : ∀ j < w, env.diskFails (t + j) = false)
      (hfail : env.diskFails (t + w) = true) : Ended env t left (-1) w (w + 1)

theorem Ended.calm {t left w k : Nat} {r : Int} (h : Ended env t left r w k)
    (hdisk : ∀ n, env.diskFails n = false) : r = 0 := by
  cases h with
  | all => rfl
  | stopped hw hok hfail =>
    rw [hdisk] at hfail
    cases hfail

theorem Ended.le {t left w k : Nat} {r : Int} (h : Ended env t left r w k) : w ≤ left := by
  cases h with
  | all => exact Nat.le_refl _
  | stopped hw => exact Nat.le_of_lt hw

theorem Ended.moved {t left w k : Nat} {r : Int} (h : Ended env t left r w k) (hr : r = 0) : w = left := by
  cases h with
  | all => rfl
  | stopped => cases hr

/-- One sector more at the front. -/
theorem Ended.cons {t left w k : Nat} {r : Int} (hfirst : env.diskFails t = false)
    (h : Ended env (t + 1) left r w k) : Ended env t (left + 1) r (w + 1) (k + 1) := by
  have hok : ∀ n, (∀ j < n, env.diskFails (t + 1 + j) = false) →
      ∀ j < n + 1, env.diskFails (t + j) = false := by
    intro n hn j hj
    cases j with
    | zero => exact hfirst
    | succ j =>
      rw [← Nat.add_assoc, Nat.add_right_comm]
      exact hn j (by omega)
  cases h with
  | all h => exact .all (hok left h)
  | stopped hw h hfail =>
    refine .stopped (by omega) (hok _ h) ?_
    rw [← Nat.add_assoc, Nat.add_right_comm]
    exact hfail

theorem ntfsReadSectors_spec (hsector : v.bytesPerSector = halSectorSize) (env : Env)
    (volSector left i : Nat) (buf : Mem) (s : Sys) :
    ∃ r buf' w k, ntfsReadSectors v env volSector left i buf s =
        (r, buf', { s with transfers := s.transfers + k }) ∧
      Ended env s.transfers left r w k ∧
      (∀ j, j < 512 * i ∨ 512 * (i + left) ≤ j → buf' j = buf j) ∧
      (r = 0 → ∀ j, 512 * i ≤ j → j < 512 * (i + left) → buf' j = onDisk v volSector s j) := by
  induction left generalizing i buf s with
  | zero => exact ⟨0, buf, 0, 0, rfl, .all fun j hj => by omega, fun _ _ => rfl, fun _ j _ _ => by omega⟩
  | succ left ih =>
    unfold ntfsReadSectors halReadSector
    cases hfail : env.diskFails s.transfers with
    | true =>
      refine ⟨-1, buf, 0, 1, ?_, .stopped (Nat.succ_pos _) (fun j hj => by omega) hfail,
        fun _ _ => rfl, fun h => by simp at h⟩
      simp only [if_true]
      rfl
    | false =>
      obtain ⟨r, buf', w, k, hrun, hended, hout, hin⟩ := ih (i + 1)
        (buf.blit (512 * i) 512 (s.disk (lba28 (lbaOf v volSector i))))
        { s with transfers := s.transfers + 1 }
      refine ⟨r, buf', w + 1, k + 1, ?_, hended.cons hfail, fun j hj => ?_, fun hr j hlo hhi => ?_⟩
      · simp only [Bool.false_eq_true, if_false, hsector, halSectorSize, Nat.mul_comm i 512]
        rw [if_neg fun h => h rfl, hrun, Nat.add_assoc, Nat.add_comm 1 k]
      · rw [hout j (by omega), Mem.blit_outside _ _ (by omega)]
      · by_cases hlater : 512 * (i + 1) ≤ j
        · exact hin hr j hlater (by omega)
        · rw [hout j (by omega), Mem.blit_inside _ _ hlo (by omega)]
          unfold onDisk
          rw [show j / 512 = i by omega, show j % 512 = j - 512 * i by omega]

/-- The sectors a write of `n` sectors at `volSector` goes to. -/
def Hit (v : Volume) (volSector n lba : Nat) : Prop :=
  ∃ k < n, lba = lba28 (lbaOf v volSector k)

theorem lba28_lbaOf (v : Volume) (volSector i : Nat) :
    lba28 (lbaOf v volSector i) = (v.partLba + volSector + i) % 2 ^ 28 := by
  unfold lba28 lbaOf
  omega

theorem lbaOf_injective {volSector i k : Nat} (hi : i < 2 ^ 28) (hk : k < 2 ^ 28)
    (h : lba28 (lbaOf v volSector i) = lba28 (lbaOf v volSector k)) : i = k := by
  rw [lba28_lbaOf, lba28_lbaOf] at h
  omega

theorem ntfsWriteSectors_spec (hsector : v.bytesPerSector = halSectorSize) (env : Env)
    (volSector : Nat) (buf : Mem) (left i : Nat) (hsmall : i + left ≤ 2 ^ 28) (s : Sys) :
    ∃ r d w k, ntfsWriteSectors v env volSector buf left i s =
        (r, { s with disk := d, transfers := s.transfers + k }) ∧
      Ended env s.transfers left r w k ∧
      (∀ lba, (∀ j, i ≤ j → j < i + w → lba ≠ lba28 (lbaOf v volSector j)) → d lba = s.disk lba) ∧
      (∀ j, i ≤ j → j < i + w → d (lba28 (lbaOf v volSector j)) = buf.shift (512 * j)) := by
  induction left generalizing i s with
  | zero =>
    exact ⟨0, s.disk, 0, 0, rfl, .all fun j hj => by omega, fun _ _ => rfl, fun j _ _ => by omega⟩
  | succ left ih =>
    unfold ntfsWriteSectors halWriteSector
    cases hfail : env.diskFails s.transfers with
    | true =>
      refine ⟨-1, s.disk, 0, 1, ?_, .stopped (Nat.succ_pos _) (fun j hj => by omega) hfail,
        fun _ _ => rfl, fun j _ _ => by omega⟩
      simp only [if_true]
      rfl
    | false =>
      obtain ⟨r, d, w, k, hrun, hended, hout, hin⟩ := ih (i + 1) (by omega)
        { s with
          disk := Function.update s.disk (lba28 (lbaOf v volSector i)) (buf.shift (512 * i))
          transfers := s.transfers + 1 }
      have hle : w ≤ left := hended.le
      refine ⟨r, d, w + 1, k + 1, ?_, hended.cons hfail, fun lba hlba => ?_, fun j hlo hhi => ?_⟩
      · simp only [Bool.false_eq_true, if_false, hsector, halSectorSize, Nat.mul_comm i 512]
        rw [if_neg fun h => h rfl, hrun, Nat.add_assoc, Nat.add_comm 1 k]
      · rw [hout lba fun j hlo hhi => hlba j (by omega) (by omega)]
        exact Function.update_of_ne (hlba i (Nat.le_refl _) (by omega)) ..
      · by_cases hlater : i + 1 ≤ j
        · exact hin j hlater (by omega)
        · obtain rfl : j = i := by omega
          rw [hout _ fun j' hlo' hhi' heq => by
            have := lbaOf_injective (by omega) (by omega) heq
            omega]
          exact Function.update_self ..

/-! ## One record -/

/-- The bytes of record `no` on the disk. -/
def rawRecord (v : Volume) (no : Nat) (s : Sys) : Mem := onDisk v (recordSector v no) s

/-- A record whose update sequence array the driver can use: it counts sectors of the
record, lies in it behind the fields that describe it, and does not overlap what it
protects. -/
structure UsaFits (v : Volume) (m : Mem) : Prop where
  inside : m.rd16 0x04 + m.rd16 0x06 * 2 ≤ v.mftRecordSize
  apart : UsaApart v.bytesPerSector (m.rd16 0x04) (m.rd16 0x06)
  sectors : 2 ≤ m.rd16 0x06 → SectorsFit v.bytesPerSector v.mftRecordSize (m.rd16 0x06)
  header : m.rd16 0x06 = 0 ∨ 8 ≤ m.rd16 0x04

/-- The bytes of record `m` outside its update sequence array. -/
def SameRecord (v : Volume) (m m' : Mem) : Prop :=
  ∀ j < v.mftRecordSize, ¬InUsa (m.rd16 0x04) (m.rd16 0x06) j → m' j = m j

theorem isFile_congr {m m' : Mem} (h : Mem.Agree m m' 0 4) : IsFile m ↔ IsFile m' := by
  unfold IsFile
  rw [h 0 (by omega) (by omega), h 1 (by omega) (by omega), h 2 (by omega) (by omega),
    h 3 (by omega) (by omega)]

/-- The image a write leaves keeps the fields that describe the array, and reading it back
gives the record. -/
theorem UsaFits.image (hgeo : Geometry v) {m : Mem} (h : UsaFits v m) :
    ∃ image, ntfsApplyFixupsForWrite v.bytesPerSector m v.mftRecordSize (m.rd16 0x04)
        (m.rd16 0x06) = some (0, image) ∧ Mem.Agree image m 0 8 ∧
      ∀ b, Mem.Agree b image 0 v.mftRecordSize →
        ∃ m', ntfsApplyFixups v.bytesPerSector b v.mftRecordSize (m.rd16 0x04) (m.rd16 0x06) =
          some (0, m') ∧ SameRecord v m m' := by
  have hbounds := v.record_bounds
  have hsize : v.mftRecordSize < 2 ^ 32 := by omega
  by_cases hnone : m.rd16 0x06 = 0
  · refine ⟨m, by rw [hnone]; rfl, fun _ _ _ => rfl, fun b hb => ⟨b, by rw [hnone]; rfl, ?_⟩⟩
    exact fun j hj _ => hb j (Nat.zero_le j) hj
  · have hcount : 1 ≤ m.rd16 0x06 := Nat.pos_of_ne_zero hnone
    have hfit : m.rd16 0x06 = 1 ∨ SectorsFit v.bytesPerSector v.mftRecordSize (m.rd16 0x06) := by
      by_cases hone : m.rd16 0x06 = 1
      · exact .inl hone
      · exact .inr (h.sectors (by omega))
    obtain ⟨image, hwrite, -, hkeep, -⟩ := fixupsForWrite_spec hsize hcount h.inside hfit h.apart m
    refine ⟨image, hwrite, fun j _ hj => hkeep j ?_ ?_, fun b hb => ?_⟩
    · rintro ⟨k, -, -, hmem⟩
      have hlow := Nat.le_mul_of_pos_left v.bytesPerSector (Nat.succ_pos k)
      rw [hgeo.sector, halSectorSize] at hlow hmem
      omega
    · have := h.header
      unfold InUsa
      omega
    · obtain ⟨m', hread, hsame, -⟩ := fixups_readBack hsize hcount h.inside hfit h.apart hwrite hb
      exact ⟨m', hread, hsame⟩

/-- The disk holds `m` as record `no`. -/
def Holds (v : Volume) (s : Sys) (no : Nat) (m : Mem) : Prop :=
  ∃ image, ntfsApplyFixupsForWrite v.bytesPerSector m v.mftRecordSize (m.rd16 0x04)
      (m.rd16 0x06) = some (0, image) ∧
    Mem.Agree (rawRecord v no s) image 0 v.mftRecordSize

theorem ntfsWriteMftRecord_spec (hgeo : Geometry v) (hmounted : v.mounted) (env : Env) (no : Nat)
    {m : Mem} (hfile : IsFile m) (husa : UsaFits v m) (s : Sys) :
    ∃ r image s', ntfsWriteMftRecord v env no m s = some (r, image, s') ∧
      s'.written = (no, m) :: s.written ∧ s'.allocs = s.allocs ∧
      (∀ lba, ¬Hit v (recordSector v no) (recordSectors v) lba → s'.disk lba = s.disk lba) ∧
      (r = 0 → Holds v s' no m) ∧ ((∀ n, env.diskFails n = false) → r = 0) := by
  obtain ⟨hsectors, hpos, hfew⟩ := hgeo.recordSectors_eq
  obtain ⟨image, hwrite, -, -⟩ := husa.image hgeo
  obtain ⟨r, d, w, k, hrun, hended, hout, hin⟩ := ntfsWriteSectors_spec hgeo.sector env
    (recordSector v no) image (recordSectors v) 0 (by omega) { s with written := (no, m) :: s.written }
  simp only [Nat.zero_add] at hout hin
  have hle : w ≤ recordSectors v := hended.le
  refine ⟨if r ≠ 0 then -1 else 0, image,
    { s with disk := d, transfers := s.transfers + k, written := (no, m) :: s.written }, ?_, rfl, rfl,
    fun lba hlba => hout lba fun j _ hj heq => hlba ⟨j, by omega, heq⟩,
    fun hr => ⟨image, hwrite, fun j _ hj => ?_⟩, fun h => by rw [hended.calm h]; rfl⟩
  · unfold ntfsWriteMftRecord
    rw [if_neg (by simp [hmounted]), if_neg (by simp [hfile]), hwrite]
    simp [hrun]
  · have hzero : r = 0 := by
      by_contra hne
      rw [if_pos hne] at hr
      cases hr
    unfold rawRecord onDisk
    simp only
    have hall : w = recordSectors v := hended.moved hzero
    rw [hin (j / 512) (Nat.zero_le _) (by omega), Mem.shift, Nat.div_add_mod]

theorem ntfsReadMftRecord_spec (hgeo : Geometry v) (env : Env) {no : Nat} {m : Mem}
    (hfile : IsFile m) (husa : UsaFits v m) {s : Sys} (hholds : Holds v s no m) (buf : Mem) :
    ∃ r m' n, ntfsReadMftRecord v env no buf s = some (r, m', { s with transfers := n }) ∧
      (r = 0 → SameRecord v m m') ∧ ((∀ n, env.diskFails n = false) → r = 0) := by
  have hbounds := v.record_bounds
  obtain ⟨hsectors, hpos, hfew⟩ := hgeo.recordSectors_eq
  obtain ⟨image, hwrite, hheader, hback⟩ := husa.image hgeo
  obtain ⟨image', hwrite', hraw⟩ := hholds
  obtain rfl : image = image' := by simpa [hwrite] using hwrite'
  obtain ⟨r, b, w, k, hrun, hended, -, hin⟩ := ntfsReadSectors_spec hgeo.sector env
    (recordSector v no) (recordSectors v) 0 buf s
  unfold ntfsReadMftRecord
  simp only [hrun]
  by_cases hr : r = 0
  · have hdisk : Mem.Agree b image 0 v.mftRecordSize := fun j _ hj =>
      (hin hr j (by omega) (by omega)).trans (hraw j (Nat.zero_le j) hj)
    have hb : Mem.Agree b m 0 8 :=
      (hdisk.mono (Nat.le_refl 0) (by omega)).trans hheader
    obtain ⟨m', hread, hsame⟩ := hback b hdisk
    have hoff : b.rd16 0x04 = m.rd16 0x04 := Mem.read_congr (hb.mono (by omega) (by omega))
    have hcount : b.rd16 0x06 = m.rd16 0x06 := Mem.read_congr (hb.mono (by omega) (by omega))
    have hfile' : IsFile b := (isFile_congr (hb.mono (Nat.le_refl 0) (by omega))).2 hfile
    refine ⟨0, m', s.transfers + k, ?_, fun _ => hsame, fun _ => rfl⟩
    rw [if_neg (by simp [hr]), if_neg (by simp [hfile']), hoff, hcount, hread]
    rfl
  · exact ⟨-1, b, s.transfers + k, by rw [if_pos hr], fun h => absurd h (by decide),
      fun h => absurd (hended.calm h) hr⟩

/-! ## The update sequence array, in memory and through the disk -/

/-- What is written to a record comes back when it is read, outside the array. -/
def RoundTrips (v : Volume) (env : Env) (s : Sys) (no : Nat) (m buf : Mem) : Prop :=
  ∃ image s₁ m' s₂, ntfsWriteMftRecord v env no m s = some (0, image, s₁) ∧
    ntfsReadMftRecord v env no buf s₁ = some (0, m', s₂) ∧ SameRecord v m m'

theorem roundTrips_of_usaFits (hgeo : Geometry v) (hmounted : v.mounted)
    (hdisk : ∀ n, env.diskFails n = false) (no : Nat) {m : Mem} (hfile : IsFile m)
    (husa : UsaFits v m) (s : Sys) (buf : Mem) : RoundTrips v env s no m buf := by
  obtain ⟨r, image, s₁, hwrite, -, -, -, hholds, hok⟩ :=
    ntfsWriteMftRecord_spec hgeo hmounted env no hfile husa s
  obtain rfl := hok hdisk
  obtain ⟨r', m', n, hread, hsame, hok'⟩ :=
    ntfsReadMftRecord_spec hgeo env hfile husa (hholds rfl) buf
  obtain rfl := hok' hdisk
  exact ⟨image, s₁, m', _, hwrite, hread, hsame rfl⟩

/-- The array works on a record exactly when, lying inside it, it counts no sector that
does not; and then the record survives the disk. -/
theorem usa_sound {bps size usaOff usaCount : Nat} (hsize : size < 2 ^ 32) (hbps : bps < 65536)
    (hcount : usaCount < 65536) (hapart : UsaApart bps usaOff usaCount) (m : Mem) :
    (UsaCorrect bps size usaOff usaCount m ↔
      (usaOff + usaCount * 2 ≤ size → 2 ≤ usaCount → SectorsFit bps size usaCount)) ∧
    (UsaCorrect bps size usaOff usaCount m →
      ∀ (v : Volume) (env : Env) (s : Sys) (no : Nat) (buf : Mem), Geometry v → v.mounted →
        (∀ n, env.diskFails n = false) → v.bytesPerSector = bps → v.mftRecordSize = size →
        IsFile m → m.rd16 0x04 = usaOff → m.rd16 0x06 = usaCount →
        usaOff + usaCount * 2 ≤ size → (usaCount = 0 ∨ 8 ≤ usaOff) →
        RoundTrips v env s no m buf) := by
  refine ⟨usaCorrect_iff hsize hbps hcount hapart m, ?_⟩
  intro hcorrect v env s no buf hgeo hmounted hdisk hb hs hfile hoff hn hinside hheader
  subst hb hs hoff hn
  have hfit := (usaCorrect_iff hsize hbps hcount hapart m).1 hcorrect hinside
  exact roundTrips_of_usaFits hgeo hmounted hdisk no hfile ⟨hinside, hapart, hfit, hheader⟩ s buf

/-- The header of a record of two sectors whose array is at 0x30. -/
def headerBytes (usaCount : UInt8) : Mem :=
  fun i => [0x46, 0x49, 0x4C, 0x45, 0x30, 0, usaCount, 0].getD i 0

def kibVolume : Volume where
  mounted := true
  partLba := 0
  bytesPerSector := 512
  sectorsPerCluster := 8
  bytesPerCluster := 4096
  mftRecordSize := 1024
  indexRecordSize := 4096
  mftDataLcn := 4
  sector_pos := by decide
  sector_lt := by decide
  record_bounds := by decide

def calmEnv : Env := ⟨fun _ => false, fun _ => false, fun _ _ => 0⟩

def blankSys : Sys := ⟨fun _ _ => 0, 0, 0, []⟩

theorem usa_sound_twoSectors :
    UsaCorrect 512 1024 0x30 3 (headerBytes 3) ∧
      RoundTrips kibVolume calmEnv blankSys 27 (headerBytes 3) (fun _ => 0xAA) := by
  have hapart : UsaApart 512 0x30 3 := by
    intro k hk
    obtain rfl | rfl : k = 0 ∨ k = 1 := by omega
    · decide
    · decide
  have hsize : 1024 < 2 ^ 32 := by decide
  have hsound := usa_sound hsize (by decide) (by decide) hapart (headerBytes 3)
  have hcorrect := hsound.1.2 fun _ _ => ⟨by decide, by decide⟩
  exact ⟨hcorrect, hsound.2 hcorrect kibVolume calmEnv blankSys 27 _ ⟨rfl, ⟨2, rfl⟩⟩ rfl
    (fun _ => rfl) rfl rfl (by decide) (by decide) (by decide) (by decide) (by decide)⟩

/-- Four entries in a record of two sectors: the array is inside the record and apart from
every sector end, yet the write that fails has already changed the number. -/
theorem usa_unsound_extraEntry :
    0x30 + 4 * 2 ≤ 1024 ∧ UsaApart 512 0x30 4 ∧
      ∃ m', ntfsApplyFixupsForWrite 512 (headerBytes 4) 1024 0x30 4 = some (-1, m') ∧
        m' 0x30 ≠ headerBytes 4 0x30 ∧ ¬UsaCorrect 512 1024 0x30 4 (headerBytes 4) := by
  have hapart : UsaApart 512 0x30 4 := by
    intro k hk
    obtain rfl | rfl | rfl : k = 0 ∨ k = 1 ∨ k = 2 := by omega
    all_goals decide
  refine ⟨by decide, hapart, _, rfl, by decide, fun hcorrect => ?_⟩
  have hfit := (usaCorrect_iff (by decide) (by decide) (by decide) hapart _).1 hcorrect
    (by decide) (by decide)
  exact absurd hfit.2 (by decide)

end MeuOS.Ntfs
