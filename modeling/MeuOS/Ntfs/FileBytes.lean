import MeuOS.Ntfs.MappingPairs

/-! Where the bytes of a file lie. The runs put a VCN in a cluster, in a hole or nowhere; a cluster
starts at a sector, and the drive has 2^28 of these. -/
namespace MeuOS.Ntfs

open MeuOS.Lib

/-- Sectors as large as the disk's, and the cluster size `ntfs_mount` computes from them. -/
structure Clusters (v : Volume) : Prop where
  sector : v.bytesPerSector = halSectorSize
  size : v.bytesPerCluster = v.bytesPerSector * v.sectorsPerCluster
  pos : 0 < v.sectorsPerCluster
  byte : v.sectorsPerCluster < 256

theorem Clusters.eq {v : Volume} (h : Clusters v) : v.bytesPerCluster = 512 * v.sectorsPerCluster := by
  rw [h.size, h.sector, halSectorSize]

/-- The cluster of a VCN, or `some none` in a hole. -/
def lcnAt : List Extent → Nat → Int → Option (Option Int)
  | [], _, _ => none
  | x :: rest, vcn, lcn =>
      if vcn < x.clusters then some (x.delta.map fun d => lcn + d + vcn)
      else lcnAt rest (vcn - x.clusters) (lcn + x.delta.getD 0)

/-- The first sector of a cluster. -/
def firstSector (v : Volume) (lcn : Int) : Nat :=
  ((v.partLba + lcn * v.sectorsPerCluster) % 2 ^ 28).toNat

/-- Where the runs put a VCN. -/
def spot (v : Volume) (runs : List Extent) (vcn : Nat) : Option (Option Nat) :=
  (lcnAt runs vcn 0).map (Option.map (firstSector v))

/-- Where the search finds it. -/
def spot64 (v : Volume) (runs : List Extent) (vcn : Nat) : Option (Option Nat) :=
  (search64 vcn 0 0 runs).map fun run => if run.sparse then none else some (firstSector v run.lcn)

/-- The sector and the byte in it of byte `pos` of a file, in the cluster that starts at `first`. -/
def driveByte (v : Volume) (first pos : Nat) : Nat × Nat :=
  ((first + pos % v.bytesPerCluster / 512) % 2 ^ 28, pos % v.bytesPerCluster % 512)

section Bytes

variable (v : Volume) (f : Nat → Option (Option Nat))

/-- The byte of the drive that is byte `pos` of the file, if there is one. -/
def placeOf (pos : Nat) : Option (Nat × Nat) :=
  (f (pos / v.bytesPerCluster)).bind fun first => first.map (driveByte v · pos)

/-- Byte `pos` of the file; a hole reads as zeros. -/
def byteOf (disk : Nat → Mem) (pos : Nat) : Option UInt8 :=
  (f (pos / v.bytesPerCluster)).map fun
    | none => 0
    | some first => disk (driveByte v first pos).1 (driveByte v first pos).2

end Bytes

variable {v : Volume} {f : Nat → Option (Option Nat)} {runs : List Extent} {vcn pos : Nat}

theorem firstSector_lt (v : Volume) (lcn : Int) : firstSector v lcn < 2 ^ 28 := by
  unfold firstSector
  omega

theorem spot_lt {first : Nat} (h : spot v runs vcn = some (some first)) : first < 2 ^ 28 := by
  obtain ⟨lcn, -, hfirst⟩ := Option.map_eq_some_iff.1 h
  obtain ⟨lcn, -, rfl⟩ := Option.map_eq_some_iff.1 hfirst
  exact firstSector_lt v lcn

theorem spot64_lt {first : Nat} (h : spot64 v runs vcn = some (some first)) : first < 2 ^ 28 := by
  obtain ⟨run, -, hfirst⟩ := Option.map_eq_some_iff.1 h
  by_cases hsparse : run.sparse = true
  · rw [if_pos hsparse] at hfirst
    cases hfirst
  · rw [if_neg hsparse] at hfirst
    cases hfirst
    exact firstSector_lt v _

/-- The first sector depends on an LCN modulo 2^64 only. -/
theorem firstSector_mod {lcn lcn' : Int} (h : lcn % 2 ^ 64 = lcn' % 2 ^ 64) :
    firstSector v lcn = firstSector v lcn' := by
  have hmod : (lcn - lcn') % 2 ^ 28 = 0 := by omega
  obtain ⟨k, hk⟩ := Int.dvd_of_emod_eq_zero hmod
  unfold firstSector
  rw [show lcn = lcn' + 2 ^ 28 * k by omega, Int.add_mul, ← Int.add_assoc, Int.mul_assoc,
    Int.add_mul_emod_self_left]

theorem spot64_from {cur : Nat} {lcn : Int} (hcur : cur ≤ vcn)
    (hsum : cur + startOf runs < 2 ^ 64) :
    ((search64 vcn cur lcn runs).map fun run =>
        if run.sparse then none else some (firstSector v run.lcn)) =
      (lcnAt runs (vcn - cur) lcn).map (Option.map (firstSector v)) := by
  induction runs generalizing cur lcn with
  | nil => rfl
  | cons x rest ih =>
    rw [startOf_cons] at hsum
    unfold search64 lcnAt
    dsimp only
    rw [Nat.mod_eq_of_lt (show cur + x.clusters < 2 ^ 64 by omega)]
    by_cases hhere : vcn - cur < x.clusters
    · rw [if_pos ⟨hcur, by omega⟩, if_pos hhere]
      cases hdelta : x.delta with
      | none => rfl
      | some d =>
        simp only [Option.map_some, Option.isNone_some, Bool.false_eq_true, if_false, Option.getD_some]
        congr 2
        apply firstSector_mod
        omega
    · rw [if_neg (by omega), if_neg hhere, ih (by omega) (by omega),
        show vcn - (cur + x.clusters) = vcn - cur - x.clusters by omega]

/-- While the VCNs fit in 64 bits the search finds every cluster. -/
theorem spot64_eq (hsum : startOf runs < 2 ^ 64) : spot64 v runs vcn = spot v runs vcn :=
  spot64_from (Nat.zero_le _) (by omega)

/-! ## Bytes of a cluster -/

theorem byteOf_hole (hf : f (pos / v.bytesPerCluster) = some none) (disk : Nat → Mem) :
    byteOf v f disk pos = some 0 := by
  unfold byteOf
  rw [hf]
  rfl

theorem byteOf_cluster {first : Nat} (hf : f (pos / v.bytesPerCluster) = some (some first))
    (disk : Nat → Mem) :
    byteOf v f disk pos = some (disk (driveByte v first pos).1 (driveByte v first pos).2) := by
  unfold byteOf
  rw [hf]
  rfl

theorem byteOf_none {disk : Nat → Mem} :
    byteOf v f disk pos = none ↔ f (pos / v.bytesPerCluster) = none :=
  Option.map_eq_none_iff

theorem placeOf_cluster {first : Nat} (hf : f (pos / v.bytesPerCluster) = some (some first)) :
    placeOf v f pos = some (driveByte v first pos) := by
  unfold placeOf
  rw [hf]
  rfl

theorem placeOf_eq_some {p : Nat × Nat} : placeOf v f pos = some p ↔
    ∃ first, f (pos / v.bytesPerCluster) = some (some first) ∧ driveByte v first pos = p := by
  unfold placeOf
  cases f (pos / v.bytesPerCluster) with
  | none => simp
  | some first => cases first <;> simp

/-- What is at its place is the byte of the file. -/
theorem byteOf_of_placeOf {p : Nat × Nat} (h : placeOf v f pos = some p) (disk : Nat → Mem) :
    byteOf v f disk pos = some (disk p.1 p.2) := by
  obtain ⟨first, hf, rfl⟩ := placeOf_eq_some.1 h
  exact byteOf_cluster hf disk

theorem placeOf_byte_lt {p : Nat × Nat} (h : placeOf v f pos = some p) : p.2 < 512 := by
  obtain ⟨first, -, rfl⟩ := placeOf_eq_some.1 h
  exact Nat.mod_lt _ (by decide)

theorem driveByte_of_lt {first q : Nat} (hq : q < v.bytesPerCluster) :
    driveByte v first q = ((first + q / 512) % 2 ^ 28, q % 512) := by
  unfold driveByte
  rw [Nat.mod_eq_of_lt hq]

theorem driveByte_mod (first pos : Nat) : driveByte v first (pos % v.bytesPerCluster) = driveByte v first pos := by
  unfold driveByte
  rw [Nat.mod_mod]

/-! ## Disjoint runs -/

/-- No cluster is in two runs, or twice in one. -/
def DisjointRuns (runs : List Extent) : Prop :=
  ∀ vcn vcn' lcn, lcnAt runs vcn 0 = some (some lcn) → lcnAt runs vcn' 0 = some (some lcn) → vcn = vcn'

/-- All clusters are on the drive. -/
def OnDrive (v : Volume) (runs : List Extent) : Prop :=
  ∀ vcn lcn, lcnAt runs vcn 0 = some (some lcn) →
    0 ≤ lcn ∧ (v.partLba : Int) + (lcn + 1) * v.sectorsPerCluster ≤ 2 ^ 28

/-- The map from the bytes of a file to the bytes of the drive is injective. -/
theorem placeOf_injective (hc : Clusters v) (hdisjoint : DisjointRuns runs) (hdrive : OnDrive v runs)
    {pos' : Nat} {p : Nat × Nat} (h : placeOf v (spot v runs) pos = some p)
    (h' : placeOf v (spot v runs) pos' = some p) : pos = pos' := by
  have hsize := hc.eq
  have hspc := hc.pos
  have hcl : 0 < v.bytesPerCluster := by omega
  have hlcn : ∀ {x}, placeOf v (spot v runs) x = some p → ∃ lcn : Int,
      lcnAt runs (x / v.bytesPerCluster) 0 = some (some lcn) ∧
        (p.1 : Int) = v.partLba + (lcn * v.sectorsPerCluster + (x % v.bytesPerCluster / 512 : Nat)) ∧
        p.2 = x % v.bytesPerCluster % 512 := by
    intro x hx
    obtain ⟨first, hspot, rfl⟩ := placeOf_eq_some.1 hx
    obtain ⟨found, hfound, hfirst⟩ := Option.map_eq_some_iff.1 hspot
    obtain ⟨lcn, rfl, rfl⟩ := Option.map_eq_some_iff.1 hfirst
    obtain ⟨hlow, hhigh⟩ := hdrive _ _ hfound
    have hmod := Nat.mod_lt x hcl
    have hnonneg : 0 ≤ lcn * (v.sectorsPerCluster : Int) := Int.mul_nonneg hlow (Int.natCast_nonneg _)
    rw [Int.add_mul, Int.one_mul] at hhigh
    refine ⟨lcn, hfound, ?_, rfl⟩
    unfold driveByte firstSector
    dsimp only
    omega
  obtain ⟨lcn, hfound, hsector, hbyte⟩ := hlcn h
  obtain ⟨lcn', hfound', hsector', hbyte'⟩ := hlcn h'
  have hmod := Nat.mod_lt pos hcl
  have hmod' := Nat.mod_lt pos' hcl
  have hdiv : ∀ (l : Int) (k : Nat), k < v.sectorsPerCluster →
      (l * v.sectorsPerCluster + k) / v.sectorsPerCluster = l := fun l k hk => by
    rw [Int.add_comm, Int.add_mul_ediv_right _ _ (by omega), Int.ediv_eq_zero_of_lt (by omega) (by omega),
      Int.zero_add]
  have hsame : lcn * v.sectorsPerCluster + (pos % v.bytesPerCluster / 512 : Nat) =
      lcn' * v.sectorsPerCluster + (pos' % v.bytesPerCluster / 512 : Nat) := by omega
  obtain rfl : lcn = lcn' := by
    rw [← hdiv lcn _ (show pos % v.bytesPerCluster / 512 < v.sectorsPerCluster by omega), hsame,
      hdiv lcn' _ (by omega)]
  have hvcn := hdisjoint _ _ _ hfound hfound'
  have hin : pos % v.bytesPerCluster = pos' % v.bytesPerCluster := by omega
  rw [← Nat.mod_add_div pos v.bytesPerCluster, hin, hvcn, Nat.mod_add_div]

theorem onDisk_cluster (lcn : Nat) (s : Sys) {q : Nat} (hq : q < v.bytesPerCluster) :
    onDisk v (lcn * v.sectorsPerCluster % 2 ^ 64) s q =
      s.disk (driveByte v (firstSector v lcn) q).1 (driveByte v (firstSector v lcn) q).2 := by
  rw [driveByte_of_lt hq]
  unfold onDisk
  rw [lba28_lbaOf]
  unfold firstSector
  congr 1
  omega

end MeuOS.Ntfs
