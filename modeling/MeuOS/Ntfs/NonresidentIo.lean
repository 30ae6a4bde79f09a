import MeuOS.Ntfs.ClusterIo
import MeuOS.Ntfs.ReadBack

/-! Non-resident content as a range of bytes: what `ntfs_read_nonresident` and `ntfs_write_file`
promise of it, and when they keep that. -/
namespace MeuOS.Ntfs

open MeuOS.Lib

/-- How much of the range is before the end of the file. -/
def wanted (real offset len : Nat) : Nat := min (offset + len) real - offset

section Promises

variable (v : Volume) (env : Env) (m : Mem) (a : Nat) (runs : List Extent) (offset len : Nat)

def rangeLen : Nat := wanted (attrNonresidentSize m a) offset len

/-- The `n` bytes read are those of the file, and only an unmapped VCN or a sector that fails ends
the read early. -/
structure RangeRead (s : Sys) (buf : Mem) (n : Nat) (out : Mem) (k : Nat) : Prop where
  le : n ≤ rangeLen m a offset len
  bytes : ∀ i < n, byteOf v (spot v runs) s.disk (offset + i) = some (out i)
  rest : ∀ i, n ≤ i → out i = buf i
  stop : n < rangeLen m a offset len → spot v runs ((offset + n) / v.bytesPerCluster) = none ∨
    ∃ t < k, env.diskFails (s.transfers + t) = true

/-- The `n` bytes written are at their places in clusters of the file, no other byte of the drive
changed, and reading gives them back. -/
structure RangeWritten (s : Sys) (data : Mem) (n : Nat) (d : Nat → Mem) (k : Nat) : Prop where
  le : n ≤ rangeLen m a offset len
  bytes : ∀ i < n, ∃ p, placeOf v (spot v runs) (offset + i) = some p ∧ d p.1 p.2 = data i
  frame : ∀ p : Nat × Nat, p.2 < 512 → (∀ i < n, placeOf v (spot v runs) (offset + i) ≠ some p) →
    d p.1 p.2 = s.disk p.1 p.2
  stop : n < rangeLen m a offset len → ¬InCluster v (spot v runs) (offset + n) ∨
    ∃ t < k, env.diskFails (s.transfers + t) = true
  back : ∀ env', Calm env' → ∀ s' : Sys, s'.disk = d → ∀ o l buf, o + l ≤ n → ∃ out s'',
    ntfsReadNonresident v env' m a (offset + o) buf l s' = some (l, out, s'') ∧
      ∀ i < l, out i = data (o + i)

def ReadPromise (s : Sys) : Prop :=
  ∀ buf, ∃ n out k j, ntfsReadNonresident v env m a offset buf len s =
      some (n, out, { s with transfers := s.transfers + k, allocs := s.allocs + j }) ∧
    RangeRead v env m a runs offset len s buf n out k

/-- `ntfs_write_file`, when it has loaded the record and found the attribute, is what the first line
says. -/
def WritePromise (s : Sys) : Prop :=
  ∀ data, ∃ n d k j, overwriteNonresident v env m a offset data len s =
      some (n, { s with disk := d, transfers := s.transfers + k, allocs := s.allocs + j }) ∧
    (∀ no s₀ setEof parent, v.mounted → loadRecord v env no s₀ = some (some m, s) →
      ntfsFindAttr v m attrData 0 false = some (some a) → attrIsNonresident m a = true →
      ntfsWriteFile v env no offset (some data) len setEof parent s₀ =
        some (n, { s with disk := d, transfers := s.transfers + k, allocs := s.allocs + j })) ∧
    RangeWritten v env m a runs offset len s data n d k

/-- Both promises, on every disk; `steady` drives fail no transfer, and the cluster buffer can be
had unless there is `noMem`. -/
def RangeKept (steady noMem : Bool) : Prop :=
  ∀ env s, (steady = true → ∀ n, env.diskFails n = false) → env.noMem s.allocs = noMem →
    ReadPromise v env m a runs offset len s ∧ WritePromise v env m a runs offset len s

/-- A byte that can be written: the range is in clusters up to it. -/
def Writable (i : Nat) : Prop :=
  i < rangeLen m a offset len ∧ ∀ j ≤ i, InCluster v (spot v runs) (offset + j)

/-- The VCNs of the range are found where they are, though the lengths of runs are summed in 64
bits; and `offset + len` does not wrap, or an unmapped VCN comes first. -/
structure RangeFound : Prop where
  places : ∀ i < rangeLen m a offset len,
    (∀ j < i, spot v runs ((offset + j) / v.bytesPerCluster) ≠ none) →
    spot64 v runs ((offset + i) / v.bytesPerCluster) = spot v runs ((offset + i) / v.bytesPerCluster)
  bounded : attrNonresidentSize m a ≤ offset ∨ offset + len < 2 ^ 64 ∨
    ∃ i ≤ rangeLen m a offset len, spot64 v runs ((offset + i) / v.bytesPerCluster) = none

/-- Also no two bytes to be written have one place on the drive, and a sector that fails cannot tear
a cluster. -/
structure RangeFits (steady : Bool) : Prop extends RangeFound v m a runs offset len where
  apart : ∀ i j, Writable v m a runs offset len i → Writable v m a runs offset len j →
    placeOf v (spot v runs) (offset + i) = placeOf v (spot v runs) (offset + j) → i = j
  untorn : steady = true ∨ ∀ i, Writable v m a runs offset len i →
    (offset + i) % v.bytesPerCluster / 512 + 1 = v.sectorsPerCluster

end Promises

variable {v : Volume} {env : Env} {m : Mem} {a : Nat} {runs : List Extent} {offset len : Nat}

theorem byteOf_congr {f g : Nat → Option (Option Nat)} {pos : Nat}
    (h : f (pos / v.bytesPerCluster) = g (pos / v.bytesPerCluster)) (disk : Nat → Mem) :
    byteOf v f disk pos = byteOf v g disk pos := by
  unfold byteOf
  rw [h]

theorem placeOf_congr {f g : Nat → Option (Option Nat)} {pos : Nat}
    (h : f (pos / v.bytesPerCluster) = g (pos / v.bytesPerCluster)) :
    placeOf v f pos = placeOf v g pos := by
  unfold placeOf
  rw [h]

/-! ## Lengths -/

theorem wanted_add_le {real : Nat} (h : offset < real) : offset + wanted real offset len ≤ real := by
  unfold wanted
  omega

theorem clampLen_eq {real : Nat} (h : offset < real) (hlen : len < 2 ^ 32) (hsum : offset + len < 2 ^ 64) :
    clampLen real offset len = wanted real offset len := by
  unfold clampLen wanted
  rw [Nat.mod_eq_of_lt hsum]
  by_cases hpast : real < offset + len
  · rw [if_pos hpast, u32_of_lt (by omega)]
    omega
  · rw [if_neg hpast]
    omega

/-- Where `offset + len` wraps the length is left as it is. -/
theorem clampLen_wraps {real : Nat} (h : offset < real) (hreal : real < 2 ^ 64) (hlen : len < 2 ^ 32)
    (hsum : 2 ^ 64 ≤ offset + len) : clampLen real offset len = len := by
  unfold clampLen
  rw [if_neg (by omega)]

theorem wanted_le_clampLen {real : Nat} (h : offset < real) (hreal : real < 2 ^ 64) (hlen : len < 2 ^ 32) :
    wanted real offset len ≤ clampLen real offset len := by
  by_cases hsum : offset + len < 2 ^ 64
  · rw [clampLen_eq h hlen hsum]
  · rw [clampLen_wraps h hreal hlen (not_lt.1 hsum)]
    unfold wanted
    omega

/-- The bound the loops run into. -/
theorem exists_bound (hstart : offset < attrNonresidentSize m a) (hlen : len < 2 ^ 32)
    (h : offset + len < 2 ^ 64 ∨
      ∃ i ≤ rangeLen m a offset len, spot64 v runs ((offset + i) / v.bytesPerCluster) = none) :
    ∃ bound ≤ rangeLen m a offset len, offset + bound < 2 ^ 64 ∧
      (clampLen (attrNonresidentSize m a) offset len ≤ bound ∨
        spot64 v runs ((offset + bound) / v.bytesPerCluster) = none) := by
  have hreal : attrNonresidentSize m a < 2 ^ 64 := m.rd64_lt _
  have hrange : offset + rangeLen m a offset len ≤ attrNonresidentSize m a := wanted_add_le hstart
  rcases h with hsum | ⟨i, hi, hnone⟩
  · exact ⟨rangeLen m a offset len, Nat.le_refl _, by omega, .inl (Nat.le_of_eq (clampLen_eq hstart hlen hsum))⟩
  · exact ⟨i, hi, by omega, .inr hnone⟩

/-- Up to the first VCN the search does not find it finds all of them where they are. -/
theorem RangeFound.same (h : RangeFound v m a runs offset len) {n : Nat}
    (hn : n ≤ rangeLen m a offset len)
    (hfound : ∀ i < n, spot64 v runs ((offset + i) / v.bytesPerCluster) ≠ none) :
    ∀ i, i < n ∨ i = n ∧ n < rangeLen m a offset len →
      spot64 v runs ((offset + i) / v.bytesPerCluster) = spot v runs ((offset + i) / v.bytesPerCluster) := by
  intro i
  induction i using Nat.strongRecOn with
  | ind i ih =>
    intro hi
    refine h.places i (by omega) fun j hj => ?_
    rw [← ih j hj (by omega)]
    exact hfound j (by omega)

/-! ## Around the loops -/

section Entry

theorem rangeLen_past (len : Nat) (h : attrNonresidentSize m a ≤ offset) : rangeLen m a offset len = 0 := by
  unfold rangeLen wanted
  omega

theorem start_of_pos {n : Nat} (h : n < rangeLen m a offset len) : offset < attrNonresidentSize m a := by
  by_contra hpast
  rw [rangeLen_past len (not_lt.1 hpast)] at h
  cases h

theorem read_past (h : attrNonresidentSize m a ≤ offset) (buf : Mem) (s : Sys) :
    ntfsReadNonresident v env m a offset buf len s = some (0, buf, s) := by
  unfold ntfsReadNonresident
  rw [if_pos h]

theorem overwrite_past (h : attrNonresidentSize m a ≤ offset) (data : Mem) (s : Sys) :
    overwriteNonresident v env m a offset data len s = some (0, s) := by
  unfold overwriteNonresident
  rw [if_pos h]

theorem read_noMem (h : offset < attrNonresidentSize m a) (buf : Mem) {s : Sys}
    (hmem : env.noMem s.allocs = true) : ntfsReadNonresident v env m a offset buf len s =
      some (0, buf, { s with allocs := s.allocs + 1 }) := by
  unfold ntfsReadNonresident kmalloc
  rw [if_neg (not_le.2 h), hmem]
  rfl

theorem overwrite_noMem (h : offset < attrNonresidentSize m a) (data : Mem) {s : Sys}
    (hmem : env.noMem s.allocs = true) : overwriteNonresident v env m a offset data len s =
      some (0, { s with allocs := s.allocs + 1 }) := by
  unfold overwriteNonresident kmalloc
  rw [if_neg (not_le.2 h), hmem]
  rfl

theorem read_loop (h : offset < attrNonresidentSize m a) (buf : Mem) {s : Sys}
    (hmem : env.noMem s.allocs = false) : ntfsReadNonresident v env m a offset buf len s =
      readNonresidentLoop v env m a offset (clampLen (attrNonresidentSize m a) offset len)
        (clampLen (attrNonresidentSize m a) offset len) 0 buf (env.junk s.allocs)
        { s with allocs := s.allocs + 1 } := by
  unfold ntfsReadNonresident kmalloc
  rw [if_neg (not_le.2 h), hmem]
  rfl

theorem overwrite_loop (h : offset < attrNonresidentSize m a) (data : Mem) {s : Sys}
    (hmem : env.noMem s.allocs = false) : overwriteNonresident v env m a offset data len s =
      overwriteLoop v env m a offset data (clampLen (attrNonresidentSize m a) offset len)
        (clampLen (attrNonresidentSize m a) offset len) 0 (env.junk s.allocs)
        { s with allocs := s.allocs + 1 } := by
  unfold overwriteNonresident kmalloc
  rw [if_neg (not_le.2 h), hmem]
  rfl

theorem read_nothing (hcalm : Calm env) (v : Volume) (m : Mem) (a offset : Nat) (buf : Mem) (s : Sys) :
    ∃ out s', ntfsReadNonresident v env m a offset buf 0 s = some (0, out, s') := by
  by_cases hpast : attrNonresidentSize m a ≤ offset
  · exact ⟨buf, s, read_past hpast buf s⟩
  · have hreal : attrNonresidentSize m a < 2 ^ 64 := m.rd64_lt _
    have hstart := not_le.1 hpast
    have hclamp : clampLen (attrNonresidentSize m a) offset 0 = 0 := by
      unfold clampLen
      rw [if_neg (by omega)]
    rw [read_loop hstart buf (hcalm.mem _), hclamp]
    exact ⟨buf, _, rfl⟩

/-- `ntfs_write_file` on a non-resident `$DATA`. -/
theorem writeFile_nonresident (hmounted : v.mounted) {no parent : Nat} {s₀ s : Sys}
    (hload : loadRecord v env no s₀ = some (some m, s))
    (hfind : ntfsFindAttr v m attrData 0 false = some (some a)) (hnon : attrIsNonresident m a = true)
    (offset : Nat) (data : Mem) (len : Nat) (setEof : Bool) :
    ntfsWriteFile v env no offset (some data) len setEof parent s₀ =
      overwriteNonresident v env m a offset data len s := by
  unfold ntfsWriteFile
  dsimp only
  rw [if_neg (not_not_intro hmounted), hload, Option.bind_some]
  dsimp only
  rw [hfind, Option.bind_some]
  dsimp only
  rw [if_pos hnon]

end Entry

/-! ## Where the promises are kept -/

section Kept

variable {steady : Bool} {s : Sys}

theorem RangeFound.reads (hc : Clusters v) (henc : Encodes m (attrStop m a) (pairsOff m a) runs)
    (hlen : len < 2 ^ 32) (h : RangeFound v m a runs offset len)
    (hmem : env.noMem s.allocs = false) : ReadPromise v env m a runs offset len s := by
  intro buf
  by_cases hpast : attrNonresidentSize m a ≤ offset
  · have hzero := rangeLen_past len hpast
    exact ⟨0, buf, 0, 0, read_past hpast buf s, Nat.zero_le _, fun i hi => by omega, fun _ _ => rfl,
      fun hn => by omega⟩
  have hstart := not_le.1 hpast
  obtain ⟨bound, hle, hsmall, hbound⟩ := exists_bound hstart hlen (h.bounded.resolve_left hpast)
  have hfuel : clampLen (attrNonresidentSize m a) offset len ≤
      0 + clampLen (attrNonresidentSize m a) offset len := Nat.le_of_eq (Nat.zero_add _).symm
  obtain ⟨n, out, k, hrun, -, -, hn, hrest, hbytes, hstop⟩ := readNonresidentLoop_spec hc env henc
    hsmall hbound (Nat.zero_le _) (Nat.zero_le _) hfuel buf (env.junk s.allocs)
    { s with allocs := s.allocs + 1 }
  have hwithin : n ≤ rangeLen m a offset len := Nat.le_trans hn hle
  have hfound : ∀ i < n, spot64 v runs ((offset + i) / v.bytesPerCluster) ≠ none := fun i hi hnone => by
    have hbyte := hbytes i (Nat.zero_le _) hi
    rw [byteOf_none.2 hnone] at hbyte
    cases hbyte
  have hsame := h.same hwithin hfound
  refine ⟨n, out, k, 1, ?_, hwithin, fun i hi => ?_, fun i hi => hrest i (.inr hi), fun hlt => ?_⟩
  · rw [read_loop hstart buf hmem]
    exact hrun
  · rw [← byteOf_congr (hsame i (.inl hi))]
    exact hbytes i (Nat.zero_le _) hi
  · have hreal : attrNonresidentSize m a < 2 ^ 64 := m.rd64_lt _
    rw [← hsame n (.inr ⟨rfl, hlt⟩)]
    exact hstop (Nat.lt_of_lt_of_le hlt (wanted_le_clampLen hstart hreal hlen))

/-- Bytes that are at their places are read. -/
theorem read_back (hc : Clusters v) (henc : Encodes m (attrStop m a) (pairsOff m a) runs) {n : Nat}
    {data : Mem} {d : Nat → Mem} (hn : n < 2 ^ 32) (hend : offset + n ≤ attrNonresidentSize m a)
    (hdata : ∀ i < n, ∃ p, placeOf v (spot64 v runs) (offset + i) = some p ∧ d p.1 p.2 = data i)
    {env' : Env} (hcalm : Calm env') {s' : Sys} (hdisk : s'.disk = d) {o l : Nat} (buf : Mem)
    (hrange : o + l ≤ n) : ∃ out s'',
      ntfsReadNonresident v env' m a (offset + o) buf l s' = some (l, out, s'') ∧
        ∀ i < l, out i = data (o + i) := by
  have hreal : attrNonresidentSize m a < 2 ^ 64 := m.rd64_lt _
  by_cases hpast : attrNonresidentSize m a ≤ offset + o
  · obtain rfl : l = 0 := by omega
    exact ⟨buf, s', read_past hpast buf s', fun i hi => by omega⟩
  have hstart := not_le.1 hpast
  have hclamp : clampLen (attrNonresidentSize m a) (offset + o) l = l := by
    rw [clampLen_eq hstart (by omega) (by omega)]
    unfold wanted
    omega
  obtain ⟨n', out, k, hrun, -, hhigh, -, -, hbytes, hstop⟩ := readNonresidentLoop_spec hc env' henc
    (show offset + o + l < 2 ^ 64 by omega) (.inl (Nat.le_refl l)) (Nat.zero_le _) (Nat.zero_le _)
    (Nat.le_of_eq (Nat.zero_add l).symm) buf (env'.junk s'.allocs) { s' with allocs := s'.allocs + 1 }
  have hwhole : n' = l := by
    by_contra hne
    obtain ⟨p, hplace, -⟩ := hdata (o + n') (by omega)
    obtain ⟨first, hfound, -⟩ := placeOf_eq_some.1 hplace
    rcases hstop (by omega) with hnone | ⟨t, -, hfail⟩
    · rw [Nat.add_assoc, hfound] at hnone
      cases hnone
    · rw [hcalm.disk] at hfail
      cases hfail
  subst hwhole
  rw [read_loop hstart buf (hcalm.mem _), hclamp]
  refine ⟨out, _, hrun, fun i hi => ?_⟩
  obtain ⟨p, hplace, hbyte⟩ := hdata (o + i) (by omega)
  have hread := hbytes i (Nat.zero_le _) hi
  dsimp only at hread
  rw [Nat.add_assoc, byteOf_of_placeOf hplace, hdisk, hbyte] at hread
  exact (Option.some.inj hread).symm

theorem RangeFits.writes (hc : Clusters v) (henc : Encodes m (attrStop m a) (pairsOff m a) runs)
    (hlen : len < 2 ^ 32) (h : RangeFits v m a runs offset len steady)
    (hsteady : steady = true → ∀ n, env.diskFails n = false) (hmem : env.noMem s.allocs = false) :
    WritePromise v env m a runs offset len s := by
  intro data
  by_cases hpast : attrNonresidentSize m a ≤ offset
  · have hzero := rangeLen_past len hpast
    refine ⟨0, s.disk, 0, 0, overwrite_past hpast data s, fun no s₀ setEof parent hmounted hload hfind hnon => ?_,
      Nat.zero_le _, fun i hi => by omega, fun _ _ _ => rfl, fun hn => by omega,
      fun env' _ s' _ o l buf hl => ?_⟩
    · rw [writeFile_nonresident hmounted hload hfind hnon]
      exact overwrite_past hpast data s
    · obtain ⟨rfl, rfl⟩ : o = 0 ∧ l = 0 := by omega
      exact ⟨buf, s', read_past hpast buf s', fun i hi => by omega⟩
  have hstart := not_le.1 hpast
  have hreal : attrNonresidentSize m a < 2 ^ 64 := m.rd64_lt _
  obtain ⟨bound, hle, hsmall, hbound⟩ := exists_bound hstart hlen (h.bounded.resolve_left hpast)
  have hrange : offset + rangeLen m a offset len ≤ attrNonresidentSize m a := wanted_add_le hstart
  have hclamp : rangeLen m a offset len ≤ clampLen (attrNonresidentSize m a) offset len :=
    wanted_le_clampLen hstart hreal hlen
  have hwritable : ∀ i < rangeLen m a offset len, (∀ j ≤ i, InCluster v (spot64 v runs) (offset + j)) →
      Writable v m a runs offset len i := fun i hi hin => ⟨hi, fun j hj => by
    obtain ⟨first, hfirst⟩ := hin j hj
    refine ⟨first, ?_⟩
    rw [← h.same (Nat.succ_le_of_lt hi) (fun l hl hnone => ?_) j (.inl (Nat.lt_succ_of_le hj)), hfirst]
    obtain ⟨first', hfirst'⟩ := hin l (Nat.le_of_lt_succ hl)
    rw [hfirst'] at hnone
    cases hnone⟩
  have huntorn : (∀ n, env.diskFails n = false) ∨ ∀ i < clampLen (attrNonresidentSize m a) offset len,
      i < bound → (∀ j ≤ i, InCluster v (spot64 v runs) (offset + j)) →
        (offset + i) % v.bytesPerCluster / 512 + 1 = v.sectorsPerCluster := by
    rcases h.untorn with hs | hlast
    · exact .inl (hsteady hs)
    · exact .inr fun i _ hi hin => hlast i (hwritable i (by omega) hin)
  obtain ⟨n, d, k, hrun, hw⟩ := overwriteLoop_spec hc henc hsmall hbound huntorn data (Nat.zero_le _)
    (Nat.zero_le _) (Nat.le_of_eq (Nat.zero_add _).symm) (fun i hi => absurd hi (Nat.not_lt_zero i))
    (env.junk s.allocs) { s with allocs := s.allocs + 1 }
  have hwithin : n ≤ rangeLen m a offset len := Nat.le_trans hw.bounded hle
  have hsame := h.same hwithin fun i hi hnone => by
    obtain ⟨first, hfirst⟩ := hw.clusters i hi
    rw [hfirst] at hnone
    cases hnone
  have hplaces : ∀ i < n, placeOf v (spot64 v runs) (offset + i) = placeOf v (spot v runs) (offset + i) :=
    fun i hi => placeOf_congr (hsame i (.inl hi))
  have hall : ∀ i < n, Writable v m a runs offset len i := fun i hi =>
    hwritable i (by omega) fun j hj => hw.clusters j (by omega)
  have hcontent := hw.content fun i j _ hi _ hj heq =>
    h.apart i j (hall i hi) (hall j hj) (by rw [← hplaces i hi, ← hplaces j hj, heq])
  have hres : overwriteNonresident v env m a offset data len s =
      some (n, { s with disk := d, transfers := s.transfers + k, allocs := s.allocs + 1 }) := by
    rw [overwrite_loop hstart data hmem]
    exact hrun
  refine ⟨n, d, k, 1, hres, fun no s₀ setEof parent hmounted hload hfind hnon => ?_, hwithin, fun i hi => ?_,
    fun p hp hout => hw.frame p hp fun i _ hi => ?_, fun hlt => ?_, fun env' hcalm s' hdisk o l buf hl => ?_⟩
  · rw [writeFile_nonresident hmounted hload hfind hnon]
    exact hres
  · rw [← hplaces i hi]
    exact hcontent i (Nat.zero_le _) hi
  · rw [hplaces i hi]
    exact hout i hi
  · refine (hw.stop (by omega)).imp_left fun hno hin => hno ?_
    obtain ⟨first, hfirst⟩ := hin
    exact ⟨first, by rw [hsame n (.inr ⟨rfl, hlt⟩), hfirst]⟩
  · have hsmallRange : rangeLen m a offset len ≤ len := by
      unfold rangeLen wanted
      omega
    exact read_back hc henc (by omega) (by omega) (fun i hi => hcontent i (Nat.zero_le _) hi) hcalm hdisk
      buf hl

end Kept

/-! ## Where they are not -/

section Necessary

variable {steady : Bool}

theorem RangeKept.noMem (h : RangeKept v m a runs offset len steady true) :
    rangeLen m a offset len = 0 ∨ spot v runs (offset / v.bytesPerCluster) = none := by
  refine or_iff_not_imp_left.2 fun hne => ?_
  have hpos := Nat.pos_of_ne_zero hne
  obtain ⟨hread, -⟩ := h { calmEnv with noMem := fun _ => true } blankSys (fun _ _ => rfl) rfl
  obtain ⟨n, out, k, j, hrun, hr⟩ := hread fun _ => 0
  rw [read_noMem (start_of_pos hpos) _ rfl] at hrun
  obtain ⟨rfl, -⟩ := Prod.mk.inj (Option.some.inj hrun)
  rcases hr.stop hpos with hnone | ⟨t, -, hfail⟩
  · exact hnone
  · cases hfail

/-- A read of a drive that works. -/
theorem RangeKept.reads (h : RangeKept v m a runs offset len steady false)
    (hstart : offset < attrNonresidentSize m a) (disk : Nat → Mem) : ∃ n out s',
    readNonresidentLoop v calmEnv m a offset (clampLen (attrNonresidentSize m a) offset len)
        (clampLen (attrNonresidentSize m a) offset len) 0 (fun _ => 0) (fun _ => 0)
        { blankSys with disk := disk, allocs := 1 } = some (n, out, s') ∧
      n ≤ rangeLen m a offset len ∧
      (∀ i < n, byteOf v (spot v runs) disk (offset + i) = some (out i)) ∧
      (n < rangeLen m a offset len → spot v runs ((offset + n) / v.bytesPerCluster) = none) := by
  obtain ⟨hread, -⟩ := h calmEnv { blankSys with disk := disk } (fun _ _ => rfl) rfl
  obtain ⟨n, out, k, j, hrun, hr⟩ := hread fun _ => 0
  rw [read_loop hstart _ rfl] at hrun
  refine ⟨n, out, _, hrun, hr.le, hr.bytes, fun hlt => ?_⟩
  rcases hr.stop hlt with hnone | ⟨t, -, hfail⟩
  · exact hnone
  · cases hfail

theorem RangeKept.bounded (hc : Clusters v) (henc : Encodes m (attrStop m a) (pairsOff m a) runs)
    (hlen : len < 2 ^ 32) (h : RangeKept v m a runs offset len steady false) :
    attrNonresidentSize m a ≤ offset ∨ offset + len < 2 ^ 64 ∨
      ∃ i ≤ rangeLen m a offset len, spot64 v runs ((offset + i) / v.bytesPerCluster) = none := by
  by_contra hno
  obtain ⟨hpast, hwraps, hfound⟩ : ¬attrNonresidentSize m a ≤ offset ∧ ¬offset + len < 2 ^ 64 ∧
      ¬∃ i ≤ rangeLen m a offset len, spot64 v runs ((offset + i) / v.bytesPerCluster) = none := by
    simpa only [not_or] using hno
  have hstart := not_le.1 hpast
  have hreal : attrNonresidentSize m a < 2 ^ 64 := m.rd64_lt _
  have hend : offset + rangeLen m a offset len ≤ attrNonresidentSize m a := wanted_add_le hstart
  obtain ⟨n, out, s', hrun, hle, -⟩ := h.reads hstart fun _ _ => 0
  rw [clampLen_wraps hstart hreal hlen (not_lt.1 hwraps)] at hrun
  obtain ⟨hpast, -⟩ := readNonresidentLoop_passes hc henc (fun _ => rfl)
    (show rangeLen m a offset len < len by unfold rangeLen wanted; omega) (by omega)
    (fun i hi hnone => hfound ⟨i, hi, hnone⟩) (Nat.zero_le _) (Nat.le_of_eq (Nat.zero_add _).symm) hrun
  omega

/-- Two clusters with the same bytes on every disk are one. -/
theorem spot_of_bytes {f g : Nat → Option (Option Nat)} {pos : Nat}
    (hf : ∀ first, f (pos / v.bytesPerCluster) = some (some first) → first < 2 ^ 28)
    (hg : ∀ first, g (pos / v.bytesPerCluster) = some (some first) → first < 2 ^ 28)
    (h : ∀ disk, byteOf v f disk pos = byteOf v g disk pos) :
    f (pos / v.bytesPerCluster) = g (pos / v.bytesPerCluster) := by
  have hone := h fun _ _ => 1
  cases hfv : f (pos / v.bytesPerCluster) with
  | none =>
    rw [byteOf_none.2 hfv] at hone
    exact (byteOf_none.1 hone.symm).symm
  | some p =>
    cases hgv : g (pos / v.bytesPerCluster) with
    | none =>
      rw [byteOf_none.2 hgv] at hone
      rw [byteOf_none.1 hone] at hfv
      cases hfv
    | some p' =>
      cases p with
      | none =>
        cases p' with
        | none => rfl
        | some first' =>
          rw [byteOf_hole hfv, byteOf_cluster hgv] at hone
          cases hone
      | some first =>
        cases p' with
        | none =>
          rw [byteOf_cluster hfv, byteOf_hole hgv] at hone
          cases hone
        | some first' =>
          -- a disk with ones in the sector of one of them
          have hsector := h fun lba _ => if lba = (driveByte v first pos).1 then 1 else 0
          rw [byteOf_cluster hfv, byteOf_cluster hgv, if_pos rfl] at hsector
          by_cases hsame : (driveByte v first' pos).1 = (driveByte v first pos).1
          · have hlt := hf first hfv
            have hlt' := hg first' hgv
            unfold driveByte at hsame
            dsimp only at hsame
            congr 2
            omega
          · rw [if_neg hsame] at hsector
            cases hsector

theorem RangeKept.places (hc : Clusters v) (henc : Encodes m (attrStop m a) (pairsOff m a) runs)
    (hlen : len < 2 ^ 32) (h : RangeKept v m a runs offset len steady false) {i : Nat}
    (hi : i < rangeLen m a offset len)
    (hbefore : ∀ j < i, spot v runs ((offset + j) / v.bytesPerCluster) ≠ none) :
    spot64 v runs ((offset + i) / v.bytesPerCluster) = spot v runs ((offset + i) / v.bytesPerCluster) := by
  have hstart := start_of_pos hi
  have hreal : attrNonresidentSize m a < 2 ^ 64 := m.rd64_lt _
  have hend : offset + rangeLen m a offset len ≤ attrNonresidentSize m a := wanted_add_le hstart
  have hclamp : rangeLen m a offset len ≤ clampLen (attrNonresidentSize m a) offset len :=
    wanted_le_clampLen hstart hreal hlen
  have hfuel : clampLen (attrNonresidentSize m a) offset len ≤
      0 + clampLen (attrNonresidentSize m a) offset len := Nat.le_of_eq (Nat.zero_add _).symm
  induction i using Nat.strongRecOn with
  | ind i ih =>
    have hfound : ∀ j < i, spot64 v runs ((offset + j) / v.bytesPerCluster) ≠ none := fun j hj => by
      rw [ih j hj (by omega) fun l hl => hbefore l (by omega)]
      exact hbefore j hj
    by_cases hnone : spot64 v runs ((offset + i) / v.bytesPerCluster) = none
    · -- the read stops here at the latest, so here there is no cluster
      obtain ⟨n, out, s', hrun, hle, -, hstop⟩ := h.reads hstart fun _ _ => 0
      obtain ⟨n', out', k, hrun', -, -, hn, -⟩ := readNonresidentLoop_spec hc calmEnv henc
        (show offset + i < 2 ^ 64 by omega) (.inr hnone) (Nat.zero_le _) (Nat.zero_le _) hfuel (fun _ => 0)
        (fun _ => 0) { blankSys with disk := fun _ _ => 0, allocs := 1 }
      obtain ⟨rfl, -⟩ := Prod.mk.inj (Option.some.inj (hrun'.symm.trans hrun))
      have hunmapped := hstop (by omega)
      by_cases hhere : n' = i
      · rw [hnone, ← hhere, hunmapped]
      · exact absurd hunmapped (hbefore n' (by omega))
    · obtain ⟨bound, hle, hsmall, hbound⟩ := exists_bound hstart hlen
        ((h.bounded hc henc hlen).resolve_left (not_le.2 hstart))
      refine spot_of_bytes (fun first => spot64_lt) (fun first => spot_lt) fun disk => ?_
      obtain ⟨n, out, s', hrun, -, hbytes, -⟩ := h.reads hstart disk
      obtain ⟨n', out', k, hrun', -, -, -, -, hbytes', -⟩ := readNonresidentLoop_spec hc calmEnv henc
        hsmall hbound (Nat.zero_le _) (Nat.zero_le _) hfuel (fun _ => 0) (fun _ => 0)
        { blankSys with disk := disk, allocs := 1 }
      obtain ⟨hpassed, -⟩ := readNonresidentLoop_passes hc henc (fun _ => rfl)
        (show i < clampLen (attrNonresidentSize m a) offset len by omega) (by omega)
        (fun j hj => by
          rcases Nat.lt_or_eq_of_le hj with hlt | rfl
          · exact hfound j hlt
          · exact hnone) (Nat.zero_le _) hfuel hrun
      obtain ⟨rfl, hrest⟩ := Prod.mk.inj (Option.some.inj (hrun'.symm.trans hrun))
      obtain ⟨rfl, -⟩ := Prod.mk.inj hrest
      rw [hbytes i hpassed, ← hbytes' i (Nat.zero_le _) hpassed]

theorem RangeKept.apart (h : RangeKept v m a runs offset len steady false) {i j : Nat}
    (hi : Writable v m a runs offset len i) (hj : Writable v m a runs offset len j)
    (hsame : placeOf v (spot v runs) (offset + i) = placeOf v (spot v runs) (offset + j)) : i = j := by
  by_contra hne
  obtain ⟨-, hwrite⟩ := h calmEnv blankSys (fun _ _ => rfl) rfl
  obtain ⟨n, d, k, l, -, -, hw⟩ := hwrite fun x => if x = i then 1 else 0
  have hpassed : ∀ x, Writable v m a runs offset len x → x < n := fun x hx => by
    by_contra hle
    rcases hw.stop (by have := hx.1; omega) with hout | ⟨t, -, hfail⟩
    · exact hout (hx.2 n (not_lt.1 hle))
    · cases hfail
  obtain ⟨p, hp, hone⟩ := hw.bytes i (hpassed i hi)
  obtain ⟨p', hp', hzero⟩ := hw.bytes j (hpassed j hj)
  obtain rfl : p = p' := Option.some.inj (hp.symm.trans (hsame.trans hp'))
  rw [if_pos rfl] at hone
  rw [if_neg fun heq => hne heq.symm, hone] at hzero
  cases hzero

/-- The drive fails one transfer. -/
def failingAt (t : Nat) : Env := { calmEnv with diskFails := fun n => n = t }

theorem failingAt_iff {t n : Nat} : (failingAt t).diskFails n = true ↔ n = t := decide_eq_true_iff

/-- A turn whose last sector cannot be written has written the others. -/
theorem overwriteLoop_torn (hc : Clusters v) (henc : Encodes m (attrStop m a) (pairsOff m a) runs)
    {done first : Nat} (fuel : Nat) {l : Nat} (hlt : done < l) (hsmall : offset + done < 2 ^ 64)
    (hspot : spot64 v runs ((offset + done) / v.bytesPerCluster) = some (some first))
    (hsector : (offset + done) % v.bytesPerCluster / 512 + 1 < v.sectorsPerCluster)
    (data cbuf : Mem) (s : Sys) : ∃ d k,
    overwriteLoop v (failingAt (s.transfers + (2 * v.sectorsPerCluster - 1))) m a offset data l (fuel + 1)
        done cbuf s = some (done, { s with disk := d, transfers := k }) ∧
      d (driveByte v first (offset + done)).1 (driveByte v first (offset + done)).2 = data done := by
  rcases overwriteLoop_cluster hc (failingAt (s.transfers + (2 * v.sectorsPerCluster - 1))) henc fuel
      hlt hsmall hspot data cbuf s with
    ⟨w, hw, hfail, -⟩ | ⟨d, w, hw, hfail, -, hpatched, hrun⟩ | ⟨d, cbuf', hok, -⟩
  · have := failingAt_iff.1 hfail
    omega
  · have hlast := failingAt_iff.1 hfail
    exact ⟨d, _, hrun, hpatched.inside done (Nat.le_refl _)
      (Nat.lt_add_of_pos_right (chunkAt_pos hc offset hlt)) (by omega)⟩
  · have := hok (2 * v.sectorsPerCluster - 1) (by omega)
    rw [failingAt_iff.2 rfl] at this
    cases this

theorem Writable.mono {i j : Nat} (h : Writable v m a runs offset len i) (hj : j ≤ i) :
    Writable v m a runs offset len j :=
  ⟨Nat.lt_of_le_of_lt hj h.1, fun l hl => h.2 l (Nat.le_trans hl hj)⟩

/-- The first byte to be written that is not in the last sector of its cluster comes first in its
turn, and that turn is one of the first two. -/
theorem overwriteLoop_tears (hc : Clusters v) (henc : Encodes m (attrStop m a) (pairsOff m a) runs)
    {i l : Nat} (hi : i < l) (hsmall : offset + i < 2 ^ 64)
    (hin : ∀ j ≤ i, InCluster v (spot64 v runs) (offset + j))
    (hsector : (offset + i) % v.bytesPerCluster / 512 + 1 < v.sectorsPerCluster)
    (hbefore : ∀ j < i, (offset + j) % v.bytesPerCluster / 512 + 1 = v.sectorsPerCluster)
    (data cbuf : Mem) (s : Sys) : ∃ t d k p,
      overwriteLoop v (failingAt t) m a offset data l l 0 cbuf s =
        some (i, { s with disk := d, transfers := k }) ∧
      placeOf v (spot64 v runs) (offset + i) = some p ∧ d p.1 p.2 = data i := by
  obtain ⟨first, hfirst⟩ := hin i (Nat.le_refl i)
  have hplace := placeOf_cluster hfirst
  have hpos := chunkAt_pos hc offset (show 0 < l by omega)
  obtain ⟨fuel, rfl⟩ : ∃ fuel, l = fuel + 1 := ⟨l - 1, by omega⟩
  by_cases hthis : i < chunkAt v offset (fuel + 1) 0
  · obtain rfl : i = 0 := by
      by_contra hne
      have hlast := hbefore (i - 1) (by omega)
      have hmod := (chunk_cluster (Nat.zero_le i) (by omega : i < 0 + chunkAt v offset (fuel + 1) 0)).2
      have hmod' := (chunk_cluster (Nat.zero_le (i - 1))
        (by omega : i - 1 < 0 + chunkAt v offset (fuel + 1) 0)).2
      omega
    obtain ⟨d, k, hrun, hbyte⟩ := overwriteLoop_torn hc henc fuel hi hsmall hfirst hsector data cbuf s
    exact ⟨_, d, k, _, hrun, hplace, hbyte⟩
  · have hcl : 0 < v.bytesPerCluster := by
      have := hc.pos
      rw [hc.eq]
      omega
    have hstart : (offset + chunkAt v offset (fuel + 1) 0) % v.bytesPerCluster = 0 := by
      have hmod := Nat.mod_lt offset hcl
      have hdiv := Nat.mod_add_div offset v.bytesPerCluster
      have hsum : offset + chunkAt v offset (fuel + 1) 0 =
          v.bytesPerCluster * (offset / v.bytesPerCluster + 1) := by
        unfold chunkAt at hthis ⊢
        rw [Nat.add_zero] at hthis ⊢
        rw [Nat.mul_add, Nat.mul_one]
        omega
      rw [hsum, Nat.mul_mod_right]
    obtain rfl : i = chunkAt v offset (fuel + 1) 0 := by
      by_contra hne
      have hlast := hbefore (chunkAt v offset (fuel + 1) 0) (by omega)
      rw [hstart] at hlast
      omega
    obtain ⟨fuel, rfl⟩ : ∃ k, fuel = k + 1 := ⟨fuel - 1, by omega⟩
    obtain ⟨first₀, hfirst₀⟩ := hin 0 (Nat.zero_le _)
    rcases overwriteLoop_cluster hc
        (failingAt (s.transfers + 2 * v.sectorsPerCluster + (2 * v.sectorsPerCluster - 1))) henc
        (fuel + 1) (Nat.succ_pos (fuel + 1)) (by omega) hfirst₀ data cbuf s with
      ⟨w, hw, hfail, -⟩ | ⟨d, w, hw, hfail, -⟩ | ⟨d, cbuf', -, -, hrun⟩
    · have := failingAt_iff.1 hfail
      omega
    · have := failingAt_iff.1 hfail
      omega
    · rw [Nat.zero_add] at hrun
      obtain ⟨d', k, htorn, hbyte⟩ := overwriteLoop_torn hc henc fuel hi hsmall hfirst hsector data cbuf'
        { s with disk := d, transfers := s.transfers + 2 * v.sectorsPerCluster }
      exact ⟨_, d', k, _, hrun.trans htorn, hplace, hbyte⟩

theorem RangeKept.untorn (hc : Clusters v) (henc : Encodes m (attrStop m a) (pairsOff m a) runs)
    (hlen : len < 2 ^ 32) (h : RangeKept v m a runs offset len false false) {i : Nat}
    (hi : Writable v m a runs offset len i) :
    (offset + i) % v.bytesPerCluster / 512 + 1 = v.sectorsPerCluster := by
  have hstart := start_of_pos hi.1
  have hreal : attrNonresidentSize m a < 2 ^ 64 := m.rd64_lt _
  have hend : offset + rangeLen m a offset len ≤ attrNonresidentSize m a := wanted_add_le hstart
  have hclamp : rangeLen m a offset len ≤ clampLen (attrNonresidentSize m a) offset len :=
    wanted_le_clampLen hstart hreal hlen
  induction i using Nat.strongRecOn with
  | ind i ih =>
    by_contra hne
    have hlt := hi.1
    have hsector : (offset + i) % v.bytesPerCluster / 512 + 1 < v.sectorsPerCluster := by
      have hpos := hc.pos
      have hmod := Nat.mod_lt (offset + i) (show 0 < v.bytesPerCluster by rw [hc.eq]; omega)
      have hsize := hc.eq
      omega
    have hsame : ∀ j ≤ i, spot64 v runs ((offset + j) / v.bytesPerCluster) =
        spot v runs ((offset + j) / v.bytesPerCluster) := fun j hj =>
      h.places hc henc hlen (by omega) fun l hl hnone => by
        obtain ⟨first, hfirst⟩ := hi.2 l (by omega)
        rw [hfirst] at hnone
        cases hnone
    have hin : ∀ j ≤ i, InCluster v (spot64 v runs) (offset + j) := fun j hj => by
      obtain ⟨first, hfirst⟩ := hi.2 j hj
      exact ⟨first, by rw [hsame j hj, hfirst]⟩
    obtain ⟨t, d, k, p, hrun, hplace, hone⟩ := overwriteLoop_tears hc henc
      (show i < clampLen (attrNonresidentSize m a) offset len by omega) (by omega) hin hsector
      (fun j hj => ih j hj (hi.mono (Nat.le_of_lt hj))) (fun _ => 1) (fun _ => 0)
      { blankSys with allocs := 1 }
    obtain ⟨-, hwrite⟩ := h (failingAt t) blankSys (fun hs => by cases hs) rfl
    obtain ⟨n, d', k', l, hres, -, hw⟩ := hwrite fun _ => 1
    rw [overwrite_loop hstart _ rfl] at hres
    obtain ⟨rfl, hstate⟩ := Prod.mk.inj (Option.some.inj (hrun.symm.trans hres))
    obtain rfl : d = d' := congrArg Sys.disk hstate
    -- the byte was written, but it is not among those reported
    have hzero := hw.frame p (placeOf_byte_lt hplace) fun j hj heq => by
      have hback : placeOf v (spot v runs) (offset + j) = placeOf v (spot v runs) (offset + i) := by
        rw [heq, ← placeOf_congr (hsame i (Nat.le_refl i)), hplace]
      have := h.apart (hi.mono (Nat.le_of_lt hj)) hi hback
      omega
    rw [hone] at hzero
    cases hzero

end Necessary

section Iff

variable {steady noMem : Bool}

/-- Non-resident content is read and overwritten as promised exactly where, given the cluster
buffer, the range fits; without the buffer, where there is nothing to read. -/
theorem nonresident_io (hc : Clusters v) (henc : Encodes m (attrStop m a) (pairsOff m a) runs)
    (hlen : len < 2 ^ 32) :
    RangeKept v m a runs offset len steady noMem ↔
      if noMem then rangeLen m a offset len = 0 ∨ spot v runs (offset / v.bytesPerCluster) = none
      else RangeFits v m a runs offset len steady := by
  cases noMem with
  | false =>
    rw [if_neg Bool.false_ne_true]
    constructor
    · intro h
      refine ⟨⟨fun i hi => h.places hc henc hlen hi, h.bounded hc henc hlen⟩, fun i j => h.apart, ?_⟩
      cases steady with
      | true => exact .inl rfl
      | false => exact .inr fun i => h.untorn hc henc hlen
    · exact fun h env s hsteady hmem => ⟨h.reads hc henc hlen hmem, h.writes hc henc hlen hsteady hmem⟩
  | true =>
    rw [if_pos rfl]
    refine ⟨fun h => h.noMem, fun h env s _ hmem => ?_⟩
    have hstop : 0 < rangeLen m a offset len → spot v runs ((offset + 0) / v.bytesPerCluster) = none :=
      fun hpos => h.resolve_left (Nat.pos_iff_ne_zero.1 hpos)
    have hout : 0 < rangeLen m a offset len → ¬InCluster v (spot v runs) (offset + 0) :=
      fun hpos ⟨first, hfirst⟩ => by
        rw [hstop hpos] at hfirst
        cases hfirst
    have hwritten : ∀ data, RangeWritten v env m a runs offset len s data 0 s.disk 0 := fun data =>
      ⟨Nat.zero_le _, fun i hi => absurd hi (Nat.not_lt_zero i), fun _ _ _ => rfl, fun h => .inl (hout h),
        fun env' hcalm s' _ o l buf hl => by
          obtain ⟨rfl, rfl⟩ : o = 0 ∧ l = 0 := by omega
          obtain ⟨out, s'', hrun⟩ := read_nothing hcalm v m a offset buf s'
          exact ⟨out, s'', hrun, fun i hi => absurd hi (Nat.not_lt_zero i)⟩⟩
    have hread : ∀ buf, RangeRead v env m a runs offset len s buf 0 buf 0 := fun buf =>
      ⟨Nat.zero_le _, fun i hi => absurd hi (Nat.not_lt_zero i), fun _ _ => rfl, fun h => .inl (hstop h)⟩
    by_cases hpast : attrNonresidentSize m a ≤ offset
    · refine ⟨fun buf => ⟨0, buf, 0, 0, read_past hpast buf s, hread buf⟩, fun data =>
        ⟨0, s.disk, 0, 0, overwrite_past hpast data s, fun no s₀ setEof parent hmounted hload hfind hnon => ?_,
          hwritten data⟩⟩
      rw [writeFile_nonresident hmounted hload hfind hnon]
      exact overwrite_past hpast data s
    · have hstart := not_le.1 hpast
      refine ⟨fun buf => ⟨0, buf, 0, 1, read_noMem hstart buf hmem, hread buf⟩, fun data =>
        ⟨0, s.disk, 0, 1, overwrite_noMem hstart data hmem,
          fun no s₀ setEof parent hmounted hload hfind hnon => ?_, hwritten data⟩⟩
      rw [writeFile_nonresident hmounted hload hfind hnon]
      exact overwrite_noMem hstart data hmem

/-- Disjoint runs on the drive, no wrap and a drive that works: the range fits. -/
theorem rangeFits_of_disjoint (hc : Clusters v) (hdisjoint : DisjointRuns runs) (hdrive : OnDrive v runs)
    (hvcns : startOf runs < 2 ^ 64) (hsum : offset + len < 2 ^ 64) : RangeFits v m a runs offset len true where
  places _ _ _ := spot64_eq hvcns
  bounded := .inr (.inl hsum)
  apart i j hi hj hsame := by
    obtain ⟨first, hfirst⟩ := hi.2 i (Nat.le_refl i)
    have hplace := placeOf_cluster hfirst
    have := placeOf_injective hc hdisjoint hdrive hplace (hsame ▸ hplace)
    omega
  untorn := .inl rfl

end Iff

/-- The same attribute with the size of its file. -/
def sizedAttr (real : Nat) (pairs : List UInt8) : Mem := (pairsAttr pairs).write 0x30 8 real

theorem kibVolume_clusters : Clusters kibVolume := ⟨rfl, rfl, by decide, by decide⟩

/-- Ten bytes across the end of the first of two clusters at LCN 16. -/
theorem nonresident_io_two :
    RangeKept kibVolume (sizedAttr 8000 [0x11, 2, 16]) 0 [extentAt (sizedAttr 8000 [0x11, 2, 16]) 0x40] 4090 10
        true false ↔
      RangeFits kibVolume (sizedAttr 8000 [0x11, 2, 16]) 0 [extentAt (sizedAttr 8000 [0x11, 2, 16]) 0x40]
        4090 10 true :=
  nonresident_io kibVolume_clusters
    (.run (by decide +kernel) (by decide +kernel) (by decide +kernel) (.done (.inr (by decide +kernel))))
    (by decide)

/-- A file of 2^64 - 1 bytes that is a hole of 2^52 clusters. -/
def hugeHole : Mem := sizedAttr (2 ^ 64 - 1) [0x07, 0, 0, 0, 0, 0, 0, 0x10]

/-- Ten bytes from its last but one on are one byte of the file, and ten are read. -/
theorem nonresident_io_wraps :
    Encodes hugeHole (attrStop hugeHole 0) (pairsOff hugeHole 0) [extentAt hugeHole 0x40] ∧
      rangeLen hugeHole 0 (2 ^ 64 - 2) 10 = 1 ∧
      ¬RangeKept kibVolume hugeHole 0 [extentAt hugeHole 0x40] (2 ^ 64 - 2) 10 true false := by
  have henc : Encodes hugeHole (attrStop hugeHole 0) (pairsOff hugeHole 0) [extentAt hugeHole 0x40] :=
    .run (by decide +kernel) (by decide +kernel) (by decide +kernel) (.done (.inr (by decide +kernel)))
  have hone : rangeLen hugeHole 0 (2 ^ 64 - 2) 10 = 1 := by decide +kernel
  refine ⟨henc, hone, fun h => ?_⟩
  rcases h.bounded kibVolume_clusters henc (by decide) with hpast | hsum | ⟨i, hi, hnone⟩
  · exact absurd hpast (by decide +kernel)
  · exact absurd hsum (by decide)
  · have hfound : ∀ i ≤ 1, spot64 kibVolume [extentAt hugeHole 0x40]
        ((2 ^ 64 - 2 + i) / kibVolume.bytesPerCluster) ≠ none := by decide +kernel
    exact hfound i (hone ▸ hi) hnone

end MeuOS.Ntfs
