import MeuOS.Ntfs.FileBytes

/-! Reading and overwriting clusters. One turn of either loop moves what its cluster has of the
range; the loops are followed turn by turn, whatever the drive does. -/
namespace MeuOS.Ntfs

open MeuOS.Lib

variable {v : Volume} {env : Env} {m : Mem} {a : Nat} {runs : List Extent}

/-- The part of the range a turn moves. -/
def chunkAt (v : Volume) (offset len done : Nat) : Nat :=
  min (v.bytesPerCluster - (offset + done) % v.bytesPerCluster) (len - done)

section Chunk

variable {offset len done i : Nat}

theorem chunkAt_pos (hc : Clusters v) (offset : Nat) (hdone : done < len) : 0 < chunkAt v offset len done := by
  have hpos := hc.pos
  have hlt := Nat.mod_lt (offset + done) (show 0 < v.bytesPerCluster by rw [hc.eq]; omega)
  unfold chunkAt
  omega

theorem chunkAt_le (v : Volume) (offset len : Nat) (hdone : done ≤ len) :
    done + chunkAt v offset len done ≤ len := by
  unfold chunkAt
  omega

/-- The bytes of a turn are in one cluster. -/
theorem chunk_cluster (hlo : done ≤ i) (hhi : i < done + chunkAt v offset len done) :
    (offset + i) / v.bytesPerCluster = (offset + done) / v.bytesPerCluster ∧
      (offset + i) % v.bytesPerCluster = (offset + done) % v.bytesPerCluster + (i - done) := by
  unfold chunkAt at hhi
  have hcl : 0 < v.bytesPerCluster := by
    by_contra hzero
    omega
  have hin : (offset + done) % v.bytesPerCluster + (i - done) < v.bytesPerCluster := by omega
  have hsum : offset + i = ((offset + done) % v.bytesPerCluster + (i - done)) +
      v.bytesPerCluster * ((offset + done) / v.bytesPerCluster) := by
    have hdiv := Nat.mod_add_div (offset + done) v.bytesPerCluster
    omega
  rw [hsum, Nat.add_mul_div_left _ _ hcl, Nat.add_mul_mod_self_left, Nat.mod_eq_of_lt hin,
    Nat.div_eq_of_lt hin, Nat.zero_add]
  exact ⟨rfl, rfl⟩

end Chunk

/-! ## One cluster -/

section Cluster

variable {lcn : Nat}

theorem count_sectors (hc : Clusters v) : u32 (1 * v.sectorsPerCluster) = v.sectorsPerCluster := by
  have hbyte := hc.byte
  rw [Nat.one_mul, u32_of_lt (by omega)]

theorem ntfsReadClusters_spec (hc : Clusters v) (env : Env) (lcn : Nat) (buf : Mem) (s : Sys) :
    ∃ r buf' w k, ntfsReadClusters v env lcn 1 buf s = (r, buf', { s with transfers := s.transfers + k }) ∧
      Ended env s.transfers v.sectorsPerCluster r w k ∧
      (r = 0 → ∀ q < v.bytesPerCluster, buf' q =
        s.disk (driveByte v (firstSector v lcn) q).1 (driveByte v (firstSector v lcn) q).2) := by
  obtain ⟨r, buf', w, k, hrun, hended, -, hin⟩ := ntfsReadSectors_spec hc.sector env
    (lcn * v.sectorsPerCluster % 2 ^ 64) v.sectorsPerCluster 0 buf s
  refine ⟨r, buf', w, k, ?_, hended, fun hr q hq => ?_⟩
  · unfold ntfsReadClusters
    rw [count_sectors hc]
    exact hrun
  · rw [hin hr q (Nat.zero_le _) (by rw [Nat.zero_add, ← hc.eq]; exact hq), onDisk_cluster lcn s hq]

/-- The first `w` sectors of the cluster at `first` are those of `buf`, and nothing else changed. -/
structure Stored (v : Volume) (first w : Nat) (buf : Mem) (d d' : Nat → Mem) : Prop where
  inside : ∀ q < 512 * w, d' (driveByte v first q).1 (driveByte v first q).2 = buf q
  outside : ∀ p : Nat × Nat, p.2 < 512 → (∀ q < 512 * w, driveByte v first q ≠ p) → d' p.1 p.2 = d p.1 p.2

theorem ntfsWriteClusters_spec (hc : Clusters v) (env : Env) (lcn : Nat) (buf : Mem) (s : Sys) :
    ∃ r d w k, ntfsWriteClusters v env lcn 1 buf s =
        (r, { s with disk := d, transfers := s.transfers + k }) ∧
      Ended env s.transfers v.sectorsPerCluster r w k ∧
      Stored v (firstSector v lcn) w buf s.disk d := by
  have hbyte := hc.byte
  have hsize := hc.eq
  obtain ⟨r, d, w, k, hrun, hended, hout, hin⟩ := ntfsWriteSectors_spec hc.sector env
    (lcn * v.sectorsPerCluster % 2 ^ 64) buf v.sectorsPerCluster 0 (by omega) s
  have hle := hended.le
  have hlba : ∀ j, lba28 (lbaOf v (lcn * v.sectorsPerCluster % 2 ^ 64) j) = (firstSector v lcn + j) % 2 ^ 28 := by
    intro j
    rw [lba28_lbaOf]
    unfold firstSector
    omega
  refine ⟨r, d, w, k, ?_, hended, ⟨fun q hq => ?_, fun p hp hout' => ?_⟩⟩
  · unfold ntfsWriteClusters
    rw [count_sectors hc]
    exact hrun
  · rw [driveByte_of_lt (by omega), ← hlba, hin (q / 512) (Nat.zero_le _) (by omega), Mem.shift,
      Nat.div_add_mod]
  · rw [hout p.1 fun j _ hj heq => hout' (512 * j + p.2) (by omega) ?_]
    rw [driveByte_of_lt (by omega), show (512 * j + p.2) / 512 = j by omega,
      show (512 * j + p.2) % 512 = p.2 by omega, ← hlba, ← heq]

end Cluster

/-! ## Reading -/

section Loops

variable {offset len bound : Nat}

theorem spot64_none {vcn : Nat} (h : search64 vcn 0 0 runs = none) : spot64 v runs vcn = none := by
  unfold spot64
  rw [h]
  rfl

theorem spot64_some {vcn : Nat} {run : Run} (h : search64 vcn 0 0 runs = some run) :
    spot64 v runs vcn = some (if run.sparse then none else some (firstSector v run.lcn)) := by
  unfold spot64
  rw [h]
  rfl

/-- A turn that finds its VCN stays below a bound at which the search finds nothing. -/
theorem chunk_bound {f : Nat → Option (Option Nat)} {done : Nat} (hdone : done < len) (hle : done ≤ bound)
    (hbound : len ≤ bound ∨ f ((offset + bound) / v.bytesPerCluster) = none)
    (hf : f ((offset + done) / v.bytesPerCluster) ≠ none) : done + chunkAt v offset len done ≤ bound := by
  rcases hbound with hlen | hnone
  · exact Nat.le_trans (chunkAt_le v offset len (Nat.le_of_lt hdone)) hlen
  · by_contra hlt
    obtain ⟨hcluster, -⟩ := chunk_cluster hle (not_le.1 hlt)
    rw [hcluster] at hnone
    exact hf hnone

theorem readNonresidentLoop_spec (hc : Clusters v) (env : Env) (henc : Encodes m (attrStop m a) (pairsOff m a) runs)
    (hsmall : offset + bound < 2 ^ 64)
    (hbound : len ≤ bound ∨ spot64 v runs ((offset + bound) / v.bytesPerCluster) = none)
    {fuel done : Nat} (hdone : done ≤ len) (hle : done ≤ bound) (hfuel : len ≤ done + fuel)
    (buf cbuf : Mem) (s : Sys) :
    ∃ n out k, readNonresidentLoop v env m a offset len fuel done buf cbuf s =
        some (n, out, { s with transfers := s.transfers + k }) ∧
      done ≤ n ∧ n ≤ len ∧ n ≤ bound ∧ (∀ i, i < done ∨ n ≤ i → out i = buf i) ∧
      (∀ i, done ≤ i → i < n → byteOf v (spot64 v runs) s.disk (offset + i) = some (out i)) ∧
      (n < len → spot64 v runs ((offset + n) / v.bytesPerCluster) = none ∨
        ∃ t < k, env.diskFails (s.transfers + t) = true) := by
  induction fuel generalizing done buf cbuf s with
  | zero =>
    exact ⟨done, buf, 0, rfl, Nat.le_refl _, hdone, hle, fun _ _ => rfl, fun i _ _ => by omega, by omega⟩
  | succ fuel ih =>
    unfold readNonresidentLoop
    by_cases hend : len ≤ done
    · rw [if_pos hend]
      exact ⟨done, buf, 0, rfl, Nat.le_refl _, hdone, hle, fun _ _ => rfl, fun i _ _ => by omega, by omega⟩
    rw [if_neg hend]
    have hlt : done < len := not_le.1 hend
    have habs : (offset + done) % 2 ^ 64 = offset + done := Nat.mod_eq_of_lt (by omega)
    dsimp only
    rw [habs, henc.lookup, Option.bind_some]
    have hchunk : min (v.bytesPerCluster - (offset + done) % v.bytesPerCluster) (len - done) =
      chunkAt v offset len done := rfl
    rw [hchunk]
    have hpos := chunkAt_pos hc offset hlt
    have hnext := chunkAt_le v offset len hdone
    cases hs : search64 ((offset + done) / v.bytesPerCluster) 0 0 runs with
    | none =>
      exact ⟨done, buf, 0, rfl, Nat.le_refl _, hdone, hle, fun _ _ => rfl, fun i _ _ => by omega,
        fun _ => .inl (spot64_none hs)⟩
    | some run =>
      have hspot := spot64_some (v := v) hs
      have hstep : done + chunkAt v offset len done ≤ bound :=
        chunk_bound hlt hle hbound (by rw [hspot]; exact Option.some_ne_none _)
      have hvcn : ∀ i, done ≤ i → i < done + chunkAt v offset len done →
          spot64 v runs ((offset + i) / v.bytesPerCluster) =
            some (if run.sparse then none else some (firstSector v run.lcn)) := fun i hlo hhi => by
        rw [(chunk_cluster hlo hhi).1, hspot]
      dsimp only
      by_cases hsparse : run.sparse = true
      · rw [if_pos hsparse]
        obtain ⟨n, out, k, hrun, hlo, hhi, hbd, hout, hin, hstop⟩ := ih hnext hstep (by omega)
          (buf.blit done (chunkAt v offset len done) fun _ => 0) cbuf s
        refine ⟨n, out, k, hrun, by omega, hhi, hbd, fun i hi => ?_, fun i hi hn => ?_, hstop⟩
        · rw [hout i (by omega), Mem.blit_outside _ _ (by omega)]
        · by_cases hthis : i < done + chunkAt v offset len done
          · rw [byteOf_hole (by rw [hvcn i hi hthis, if_pos hsparse]), hout i (.inl hthis),
              Mem.blit_inside _ _ hi hthis]
          · exact hin i (by omega) hn
      · rw [if_neg hsparse]
        obtain ⟨r, cbuf', w, k, hread, hended, hcbuf⟩ := ntfsReadClusters_spec hc env run.lcn cbuf s
        rw [hread]
        dsimp only
        cases hended with
        | stopped hw hok hfail =>
          rw [if_pos (by decide)]
          exact ⟨done, buf, w + 1, rfl, Nat.le_refl _, hdone, hle, fun _ _ => rfl, fun i _ _ => by omega,
            fun _ => .inr ⟨w, Nat.lt_succ_self w, hfail⟩⟩
        | all hok =>
          rw [if_neg fun h => h rfl]
          obtain ⟨n, out, k, hrun, hlo, hhi, hbd, hout, hin, hstop⟩ := ih hnext hstep (by omega)
            (buf.blit done (chunkAt v offset len done)
              (cbuf'.shift ((offset + done) % v.bytesPerCluster))) cbuf'
            { s with transfers := s.transfers + v.sectorsPerCluster }
          refine ⟨n, out, v.sectorsPerCluster + k, ?_, by omega, hhi, hbd, fun i hi => ?_,
            fun i hi hn => ?_, fun hn => ?_⟩
          · rw [hrun, Nat.add_assoc]
          · rw [hout i (by omega), Mem.blit_outside _ _ (by omega)]
          · by_cases hthis : i < done + chunkAt v offset len done
            · obtain ⟨-, hmod⟩ := chunk_cluster hi hthis
              have hq : (offset + i) % v.bytesPerCluster < v.bytesPerCluster :=
                Nat.mod_lt _ (by rw [hc.eq]; have := hc.pos; omega)
              rw [byteOf_cluster (by rw [hvcn i hi hthis, if_neg hsparse]), hout i (.inl hthis),
                Mem.blit_inside _ _ hi hthis, Mem.shift, ← hmod, hcbuf rfl _ hq, driveByte_mod]
            · exact hin i (by omega) hn
          · rcases hstop hn with hnone | ⟨t, ht, hfail⟩
            · exact .inl hnone
            · exact .inr ⟨v.sectorsPerCluster + t, by omega, by rw [← Nat.add_assoc]; exact hfail⟩

/-- On a drive that works the loop gets past every byte whose VCN is found. -/
theorem readNonresidentLoop_passes (hc : Clusters v) (henc : Encodes m (attrStop m a) (pairsOff m a) runs)
    (hdisk : ∀ n, env.diskFails n = false) {k : Nat} (hk : k < len) (hsmall : offset + k < 2 ^ 64)
    (hfound : ∀ i ≤ k, spot64 v runs ((offset + i) / v.bytesPerCluster) ≠ none)
    {fuel done n : Nat} (hdone : done ≤ len) (hfuel : len ≤ done + fuel) {buf cbuf out : Mem} {s s' : Sys}
    (hrun : readNonresidentLoop v env m a offset len fuel done buf cbuf s = some (n, out, s')) :
    k < n ∧ done ≤ n := by
  induction fuel generalizing done buf cbuf s with
  | zero =>
    cases hrun
    exact ⟨by omega, Nat.le_refl _⟩
  | succ fuel ih =>
    unfold readNonresidentLoop at hrun
    by_cases hend : len ≤ done
    · rw [if_pos hend] at hrun
      cases hrun
      exact ⟨by omega, Nat.le_refl _⟩
    rw [if_neg hend] at hrun
    dsimp only at hrun
    rw [henc.lookup, Option.bind_some] at hrun
    have hcl : 0 < v.bytesPerCluster := by
      have := hc.pos
      rw [hc.eq]
      omega
    have hin := Nat.mod_lt ((offset + done) % 2 ^ 64) hcl
    have hnext : ∀ {buf cbuf s}, readNonresidentLoop v env m a offset len fuel
        (done + min (v.bytesPerCluster - (offset + done) % 2 ^ 64 % v.bytesPerCluster) (len - done))
        buf cbuf s = some (n, out, s') → k < n ∧ done ≤ n := fun h => by
      obtain ⟨hpast, hle⟩ := ih (by omega) (by omega) h
      exact ⟨hpast, by omega⟩
    cases hs : search64 ((offset + done) % 2 ^ 64 / v.bytesPerCluster) 0 0 runs with
    | none =>
      rw [hs] at hrun
      cases hrun
      refine ⟨?_, Nat.le_refl _⟩
      by_contra hle
      rw [Nat.mod_eq_of_lt (by omega)] at hs
      exact hfound _ (not_lt.1 hle) (spot64_none hs)
    | some run =>
      rw [hs] at hrun
      dsimp only at hrun
      by_cases hsparse : run.sparse = true
      · rw [if_pos hsparse] at hrun
        exact hnext hrun
      · rw [if_neg hsparse] at hrun
        obtain ⟨r, cbuf', w, j, hread, hended, -⟩ := ntfsReadClusters_spec hc env run.lcn cbuf s
        rw [hread] at hrun
        dsimp only at hrun
        rw [hended.calm hdisk, if_neg fun h => h rfl] at hrun
        exact hnext hrun

/-! ## Overwriting -/

/-- The bytes of a turn that lie in the first `w` sectors of its cluster are those of the caller, and
nothing else changed. -/
structure Patched (v : Volume) (offset len done first w : Nat) (data : Mem) (d d' : Nat → Mem) : Prop where
  inside : ∀ i, done ≤ i → i < done + chunkAt v offset len done →
    (offset + i) % v.bytesPerCluster / 512 < w →
    d' (driveByte v first (offset + i)).1 (driveByte v first (offset + i)).2 = data i
  outside : ∀ p : Nat × Nat, p.2 < 512 →
    (∀ i, done ≤ i → i < done + chunkAt v offset len done →
      (offset + i) % v.bytesPerCluster / 512 < w → driveByte v first (offset + i) ≠ p) →
    d' p.1 p.2 = d p.1 p.2

/-- A cluster read, changed in the range of the turn and written back. -/
theorem Stored.patched {done first w : Nat} (hc : Clusters v) (hw : w ≤ v.sectorsPerCluster) {data cbuf : Mem}
    {d d' : Nat → Mem}
    (hcbuf : ∀ q < v.bytesPerCluster, cbuf q = d (driveByte v first q).1 (driveByte v first q).2)
    (h : Stored v first w (cbuf.blit ((offset + done) % v.bytesPerCluster) (chunkAt v offset len done)
      (data.shift done)) d d') : Patched v offset len done first w data d d' := by
  have hsize := hc.eq
  have hcl : 0 < v.bytesPerCluster := by
    have := hc.pos
    omega
  refine ⟨fun i hlo hhi hin => ?_, fun p hp hout => ?_⟩
  · have hq := Nat.mod_lt (offset + i) hcl
    have hmod := (chunk_cluster hlo hhi).2
    have hdata : data.shift done ((offset + done) % v.bytesPerCluster + (i - done) -
        (offset + done) % v.bytesPerCluster) = data i := by
      rw [Nat.add_sub_cancel_left, Mem.shift, Nat.add_sub_cancel' hlo]
    rw [← driveByte_mod, h.inside _ (by omega), hmod, Mem.blit_inside _ _ (by omega) (by omega), hdata]
  · by_cases hcluster : ∃ q < 512 * w, driveByte v first q = p
    · obtain ⟨q, hq, rfl⟩ := hcluster
      rw [h.inside q hq, Mem.blit_outside, hcbuf q (by omega)]
      by_contra hrange
      have hmem : (offset + done) % v.bytesPerCluster ≤ q ∧
          q < (offset + done) % v.bytesPerCluster + chunkAt v offset len done := by omega
      have hlo : done ≤ done + (q - (offset + done) % v.bytesPerCluster) := Nat.le_add_right _ _
      have hhi : done + (q - (offset + done) % v.bytesPerCluster) < done + chunkAt v offset len done := by
        omega
      have hmod := (chunk_cluster hlo hhi).2
      have hqeq : (offset + (done + (q - (offset + done) % v.bytesPerCluster))) % v.bytesPerCluster = q := by
        rw [hmod]
        omega
      refine hout _ hlo (by omega) (by rw [hqeq]; omega) ?_
      rw [← driveByte_mod, hqeq]
    · exact h.outside p hp fun q hq heq => hcluster ⟨q, hq, heq⟩

theorem overwriteLoop_stops (henc : Encodes m (attrStop m a) (pairsOff m a) runs) {fuel done : Nat}
    (hlt : done < len) (hsmall : offset + done < 2 ^ 64)
    (hspot : ∀ first, spot64 v runs ((offset + done) / v.bytesPerCluster) ≠ some (some first))
    (data cbuf : Mem) (s : Sys) :
    overwriteLoop v env m a offset data len (fuel + 1) done cbuf s = some (done, s) := by
  unfold overwriteLoop
  rw [if_neg (not_le.2 hlt)]
  dsimp only
  rw [Nat.mod_eq_of_lt hsmall, henc.lookup, Option.bind_some]
  cases hs : search64 ((offset + done) / v.bytesPerCluster) 0 0 runs with
  | none => rfl
  | some run =>
    dsimp only
    by_cases hsparse : run.sparse = true
    · rw [if_pos hsparse]
    · have hsome := spot64_some (v := v) hs
      rw [if_neg hsparse] at hsome
      exact absurd hsome (hspot _)

/-- A turn in a cluster: it cannot be read, it cannot be written, or the loop goes on. -/
theorem overwriteLoop_cluster (hc : Clusters v) (env : Env) (henc : Encodes m (attrStop m a) (pairsOff m a) runs)
    {done first : Nat} (fuel : Nat) (hlt : done < len) (hsmall : offset + done < 2 ^ 64)
    (hspot : spot64 v runs ((offset + done) / v.bytesPerCluster) = some (some first))
    (data cbuf : Mem) (s : Sys) :
    (∃ w < v.sectorsPerCluster, env.diskFails (s.transfers + w) = true ∧
      overwriteLoop v env m a offset data len (fuel + 1) done cbuf s =
        some (done, { s with transfers := s.transfers + (w + 1) })) ∨
    (∃ d, ∃ w < v.sectorsPerCluster, env.diskFails (s.transfers + (v.sectorsPerCluster + w)) = true ∧
      (∀ j < v.sectorsPerCluster + w, env.diskFails (s.transfers + j) = false) ∧
      Patched v offset len done first w data s.disk d ∧
      overwriteLoop v env m a offset data len (fuel + 1) done cbuf s =
        some (done, { s with disk := d, transfers := s.transfers + (v.sectorsPerCluster + w + 1) })) ∨
    (∃ d cbuf', (∀ j < 2 * v.sectorsPerCluster, env.diskFails (s.transfers + j) = false) ∧
      Patched v offset len done first v.sectorsPerCluster data s.disk d ∧
      overwriteLoop v env m a offset data len (fuel + 1) done cbuf s =
        overwriteLoop v env m a offset data len fuel (done + chunkAt v offset len done) cbuf'
          { s with disk := d, transfers := s.transfers + 2 * v.sectorsPerCluster }) := by
  generalize hrest : overwriteLoop v env m a offset data len fuel = rest
  unfold overwriteLoop
  rw [if_neg (not_le.2 hlt)]
  dsimp only
  rw [Nat.mod_eq_of_lt hsmall, henc.lookup, Option.bind_some]
  cases hs : search64 ((offset + done) / v.bytesPerCluster) 0 0 runs with
  | none =>
    rw [spot64_none hs] at hspot
    cases hspot
  | some run =>
    rw [spot64_some hs] at hspot
    by_cases hsparse : run.sparse = true
    · rw [if_pos hsparse] at hspot
      cases hspot
    rw [if_neg hsparse] at hspot
    cases hspot
    dsimp only
    rw [if_neg hsparse]
    obtain ⟨r, cbuf', w, k, hread, hended, hcbuf⟩ := ntfsReadClusters_spec hc env run.lcn cbuf s
    rw [hread]
    dsimp only
    cases hended with
    | stopped hw hok hfail =>
      rw [if_pos (by decide)]
      exact .inl ⟨w, hw, hfail, rfl⟩
    | all hok =>
      rw [if_neg fun h => h rfl]
      obtain ⟨r, d, w, k, hwrite, hended, hstored⟩ := ntfsWriteClusters_spec hc env run.lcn
        (cbuf'.blit ((offset + done) % v.bytesPerCluster) (chunkAt v offset len done) (data.shift done))
        { s with transfers := s.transfers + v.sectorsPerCluster }
      have hpatched := hstored.patched hc hended.le (hcbuf rfl)
      have hboth : ∀ n, (∀ j < n, env.diskFails (s.transfers + v.sectorsPerCluster + j) = false) →
          ∀ j < v.sectorsPerCluster + n, env.diskFails (s.transfers + j) = false := fun n hn j hj => by
        by_cases hfirst : j < v.sectorsPerCluster
        · exact hok j hfirst
        · have := hn (j - v.sectorsPerCluster) (by omega)
          rwa [show s.transfers + v.sectorsPerCluster + (j - v.sectorsPerCluster) = s.transfers + j by
            omega] at this
      rw [show min (v.bytesPerCluster - (offset + done) % v.bytesPerCluster) (len - done) =
        chunkAt v offset len done from rfl, hwrite]
      dsimp only
      cases hended with
      | stopped hw hok' hfail =>
        rw [if_pos (by decide)]
        refine .inr (.inl ⟨d, w, hw, by rw [← Nat.add_assoc]; exact hfail, hboth w hok', hpatched, ?_⟩)
        rw [show s.transfers + v.sectorsPerCluster + (w + 1) =
          s.transfers + (v.sectorsPerCluster + w + 1) by omega]
      | all hok' =>
        rw [if_neg fun h => h rfl]
        refine .inr (.inr ⟨d, cbuf'.blit ((offset + done) % v.bytesPerCluster)
          (chunkAt v offset len done) (data.shift done), fun j hj => hboth _ hok' j (by omega), hpatched, ?_⟩)
        rw [hrest, show s.transfers + v.sectorsPerCluster + v.sectorsPerCluster =
          s.transfers + 2 * v.sectorsPerCluster by omega]

/-- The byte is in a cluster that `f` finds. -/
def InCluster (v : Volume) (f : Nat → Option (Option Nat)) (pos : Nat) : Prop :=
  ∃ first, f (pos / v.bytesPerCluster) = some (some first)

/-- What overwriting from byte `done` on has come to when `n` bytes are reported: all of them were
in clusters, nothing else changed, they hold the data unless two have one place, and before the end
of the range it stops only where there is no cluster or at a sector that fails. -/
structure Overwritten (v : Volume) (env : Env) (f : Nat → Option (Option Nat)) (offset len bound : Nat)
    (data : Mem) (done : Nat) (s : Sys) (n : Nat) (d : Nat → Mem) (k : Nat) : Prop where
  low : done ≤ n
  high : n ≤ len
  bounded : n ≤ bound
  clusters : ∀ i < n, InCluster v f (offset + i)
  frame : ∀ p : Nat × Nat, p.2 < 512 → (∀ i, done ≤ i → i < n → placeOf v f (offset + i) ≠ some p) →
    d p.1 p.2 = s.disk p.1 p.2
  content : (∀ i j, done ≤ i → i < n → done ≤ j → j < n →
      placeOf v f (offset + i) = placeOf v f (offset + j) → i = j) →
    ∀ i, done ≤ i → i < n → ∃ p, placeOf v f (offset + i) = some p ∧ d p.1 p.2 = data i
  stop : n < len → ¬InCluster v f (offset + n) ∨ ∃ t < k, env.diskFails (s.transfers + t) = true

theorem overwriteLoop_spec (hc : Clusters v) (henc : Encodes m (attrStop m a) (pairsOff m a) runs)
    (hsmall : offset + bound < 2 ^ 64)
    (hbound : len ≤ bound ∨ spot64 v runs ((offset + bound) / v.bytesPerCluster) = none)
    (huntorn : (∀ n, env.diskFails n = false) ∨ ∀ i < len, i < bound →
      (∀ j ≤ i, InCluster v (spot64 v runs) (offset + j)) →
        (offset + i) % v.bytesPerCluster / 512 + 1 = v.sectorsPerCluster)
    (data : Mem) {fuel done : Nat} (hdone : done ≤ len) (hle : done ≤ bound) (hfuel : len ≤ done + fuel)
    (hbefore : ∀ i < done, InCluster v (spot64 v runs) (offset + i)) (cbuf : Mem) (s : Sys) :
    ∃ n d k, overwriteLoop v env m a offset data len fuel done cbuf s =
        some (n, { s with disk := d, transfers := s.transfers + k }) ∧
      Overwritten v env (spot64 v runs) offset len bound data done s n d k := by
  induction fuel generalizing done cbuf s with
  | zero =>
    exact ⟨done, s.disk, 0, rfl, Nat.le_refl _, hdone, hle, hbefore, fun _ _ _ => rfl,
      fun _ i _ _ => by omega, by omega⟩
  | succ fuel ih =>
    by_cases hend : len ≤ done
    · refine ⟨done, s.disk, 0, ?_, Nat.le_refl _, hdone, hle, hbefore, fun _ _ _ => rfl,
        fun _ i _ _ => by omega, by omega⟩
      unfold overwriteLoop
      rw [if_pos hend]
      rfl
    have hlt : done < len := not_le.1 hend
    have habs : offset + done < 2 ^ 64 := by omega
    by_cases hin : InCluster v (spot64 v runs) (offset + done)
    swap
    · exact ⟨done, s.disk, 0, overwriteLoop_stops henc hlt habs (fun first h => hin ⟨first, h⟩) data cbuf s,
        Nat.le_refl _, hdone, hle, hbefore, fun _ _ _ => rfl, fun _ i _ _ => by omega, fun _ => .inl hin⟩
    obtain ⟨first, hspot⟩ := hin
    have hnext := chunkAt_le v offset len hdone
    have hpos := chunkAt_pos hc offset hlt
    have hstep : done + chunkAt v offset len done ≤ bound :=
      chunk_bound hlt hle hbound (by rw [hspot]; exact Option.some_ne_none _)
    have hvcn : ∀ i, done ≤ i → i < done + chunkAt v offset len done →
        spot64 v runs ((offset + i) / v.bytesPerCluster) = some (some first) := fun i hlo hhi => by
      rw [(chunk_cluster hlo hhi).1, hspot]
    have hthrough : ∀ i < done + chunkAt v offset len done, InCluster v (spot64 v runs) (offset + i) :=
      fun i hi => by
        by_cases hold : i < done
        · exact hbefore i hold
        · exact ⟨first, hvcn i (not_lt.1 hold) hi⟩
    rcases overwriteLoop_cluster hc env henc fuel hlt habs hspot data cbuf s with
      ⟨w, hw, hfail, hrun⟩ | ⟨d, w, hw, hfail, -, hpatched, hrun⟩ | ⟨d, cbuf', -, hpatched, hrun⟩
    · exact ⟨done, s.disk, w + 1, hrun, Nat.le_refl _, hdone, hle, hbefore, fun _ _ _ => rfl,
        fun _ i _ _ => by omega, fun _ => .inr ⟨w, Nat.lt_succ_self w, hfail⟩⟩
    · refine ⟨done, d, v.sectorsPerCluster + w + 1, hrun, Nat.le_refl _, hdone, hle, hbefore,
        fun p hp _ => hpatched.outside p hp fun i hlo hhi hsec => ?_, fun _ i _ _ => by omega,
        fun _ => .inr ⟨v.sectorsPerCluster + w, Nat.lt_succ_self _, hfail⟩⟩
      -- a torn cluster: none of the bytes to be written is in a sector that was
      rcases huntorn with hcalm | hlast
      · rw [hcalm] at hfail
        cases hfail
      · have := hlast i (by omega) (by omega) fun j hj => hthrough j (by omega)
        omega
    · obtain ⟨n, d', k, hrest, h⟩ := ih hnext hstep (by omega) hthrough cbuf'
        { s with disk := d, transfers := s.transfers + 2 * v.sectorsPerCluster }
      have hlow := h.low
      refine ⟨n, d', 2 * v.sectorsPerCluster + k, ?_, by omega, h.high, h.bounded, h.clusters,
        fun p hp hout => ?_, fun happart i hlo hhi => ?_, fun hn => ?_⟩
      · rw [hrun, hrest, Nat.add_assoc]
      · rw [h.frame p hp fun i hlo hhi => hout i (by omega) hhi]
        refine hpatched.outside p hp fun i hlo hhi _ heq => hout i hlo (by omega) ?_
        rw [placeOf_cluster (hvcn i hlo hhi), heq]
      · by_cases hthis : i < done + chunkAt v offset len done
        · have hplace := placeOf_cluster (hvcn i hlo hthis)
          refine ⟨_, hplace, ?_⟩
          rw [h.frame _ (placeOf_byte_lt hplace) fun j hlo' hhi' heq => ?_]
          · refine hpatched.inside i hlo hthis ?_
            have hcl : 0 < v.bytesPerCluster := by
              have := hc.pos
              rw [hc.eq]
              omega
            have hmod := Nat.mod_lt (offset + i) hcl
            rw [hc.eq] at hmod ⊢
            omega
          · have := happart i j hlo hhi (by omega) hhi' (hplace.trans heq.symm)
            omega
        · exact h.content (fun i j h₁ h₂ h₃ h₄ => happart i j (by omega) h₂ (by omega) h₄) i (by omega) hhi
      · rcases h.stop hn with hout | ⟨t, ht, hfail⟩
        · exact .inl hout
        · exact .inr ⟨2 * v.sectorsPerCluster + t, by omega, by rw [← Nat.add_assoc]; exact hfail⟩

end Loops

end MeuOS.Ntfs
