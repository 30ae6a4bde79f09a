import MeuOS.Lib.Bytes
import MeuOS.Ntfs.NonresidentIo

/-! The attribute the image builder writes for a file in one run. The builder takes as few bytes for
the LCN as the number needs; the driver takes the last of them for a sign. -/
namespace MeuOS.Ntfs

open MeuOS.Lib

/-- `CLUSTER`. -/
def builderCluster : Nat := 4096

/-- `struct.pack` of an unsigned field of `n` bytes; a number that does not fit is an error. -/
def pack (n : Nat) (v : Int) : Option (List UInt8) :=
  if 0 ≤ v ∧ v < 256 ^ n then some ((List.range n).map (Mem.le v.toNat)) else none

/-- Fields one behind the other. -/
def packAll : List (Nat × Int) → Option (List UInt8)
  | [] => some []
  | (n, v) :: rest => (pack n v).bind fun bytes => (packAll rest).map (bytes ++ ·)

def fieldBytes (v : Nat) : List UInt8 := if v = 0 then [0] else leDigits v

/-- `bytes([x])`. -/
def oneByte (x : Nat) : Option (List UInt8) := if x < 256 then some [UInt8.ofNat x] else none

/-- The header, its mapping pairs and zeros up to a multiple of 8. -/
def makeNonresidentAttr (attrType firstLcn numClusters realSize attrId : Nat) : Option (List UInt8) :=
  let lenB := fieldBytes numClusters
  let offB := fieldBytes firstLcn
  (oneByte (offB.length <<< 4 ||| lenB.length)).bind fun header =>
    let run := header ++ lenB ++ offB ++ [0]
    let mpOff : Nat := 0x40
    let allocSize : Nat := numClusters * builderCluster
    let recLen : Nat := (mpOff + run.length + 7) / 8 * 8
    (packAll [(4, attrType), (4, recLen), (1, 1), (1, 0), (2, 0), (2, 0), (2, attrId), (8, 0),
        (8, numClusters - 1), (2, mpOff), (2, 0), (4, 0), (8, allocSize), (8, realSize),
        (8, realSize)]).map fun hdr =>
      let out := hdr ++ run
      out ++ List.replicate (recLen - out.length) 0

/-! ## Packed fields -/

variable {m : Mem} {p a : Nat}

theorem pack_laid {n : Nat} {x : Int} {bytes : List UInt8} (h : pack n x = some bytes) :
    bytes.length = n ∧ 0 ≤ x ∧ x < 256 ^ n ∧ (Laid m p bytes → (m.read p n : Int) = x) := by
  unfold pack at h
  by_cases hfits : 0 ≤ x ∧ x < 256 ^ n
  · rw [if_pos hfits] at h
    cases h
    refine ⟨by rw [List.length_map, List.length_range], hfits.1, hfits.2, fun hlaid => ?_⟩
    have hread : m.read p n = x.toNat % 256 ^ n := Mem.read_of_le fun i hi => by
      rw [hlaid i (by rw [List.length_map, List.length_range]; exact hi), List.getElem_map,
        List.getElem_range, Mem.le]
    have hlt : x.toNat < 256 ^ n := by
      have hcast : (x.toNat : Int) < ((256 ^ n : Nat) : Int) := by
        rw [Int.toNat_of_nonneg hfits.1]
        push_cast
        exact hfits.2
      exact_mod_cast hcast
    rw [hread, Nat.mod_eq_of_lt hlt, Int.toNat_of_nonneg hfits.1]
  · rw [if_neg hfits] at h
    cases h

/-- Each field is read back from its place. -/
theorem packAll_laid {fields : List (Nat × Int)} {bytes : List UInt8} (h : packAll fields = some bytes) :
    bytes.length = (fields.map Prod.fst).sum ∧ (Laid m p bytes → ∀ before o n x after,
      fields = before ++ (n, x) :: after → (before.map Prod.fst).sum = o →
        0 ≤ x ∧ x < 256 ^ n ∧ (m.read (p + o) n : Int) = x) := by
  induction fields generalizing p bytes with
  | nil =>
    cases h
    refine ⟨rfl, fun _ before o n x after heq => ?_⟩
    cases before <;> cases heq
  | cons field rest ih =>
    obtain ⟨n, x⟩ := field
    obtain ⟨first, hfirst, hmap⟩ := Option.bind_eq_some_iff.1 h
    obtain ⟨others, hothers, rfl⟩ := Option.map_eq_some_iff.1 hmap
    obtain ⟨hlength, hlow, hhigh, hread⟩ := pack_laid (m := m) (p := p) hfirst
    obtain ⟨hlengths, hreads⟩ := ih (p := p + n) hothers
    refine ⟨by rw [List.length_append, hlength, hlengths]; rfl, fun hlaid before o n' x' after heq hsum => ?_⟩
    obtain ⟨hhere, hbehind⟩ := laid_append.1 hlaid
    rw [hlength] at hbehind
    cases before with
    | nil =>
      cases heq
      cases hsum
      exact ⟨hlow, hhigh, hread hhere⟩
    | cons field before =>
      obtain ⟨rfl, hrest⟩ := List.cons.inj heq
      obtain ⟨hlow', hhigh', hread'⟩ := hreads hbehind before _ n' x' after hrest rfl
      rw [List.map_cons, List.sum_cons] at hsum
      refine ⟨hlow', hhigh', ?_⟩
      rw [← hsum, ← Nat.add_assoc]
      exact hread'

/-! ## The attribute -/

theorem fieldBytes_pos {x : Nat} : 0 < (fieldBytes x).length := by
  unfold fieldBytes
  by_cases hzero : x = 0
  · rw [if_pos hzero]
    exact Nat.one_pos
  · rw [if_neg hzero, length_leDigits]
    exact List.length_pos_iff.2 (Nat.digits_ne_nil_iff_ne_zero.2 hzero)

theorem fieldBytes_length_le {x n : Nat} (hn : 0 < n) (h : x < 256 ^ n) : (fieldBytes x).length ≤ n := by
  unfold fieldBytes
  by_cases hzero : x = 0
  · rw [if_pos hzero]
    exact hn
  · rw [if_neg hzero, length_leDigits]
    exact (Nat.digits_length_le_iff (by decide) x).2 h

theorem fieldBytes_read {x : Nat} (h : Laid m p (fieldBytes x)) : m.read p (fieldBytes x).length = x := by
  unfold fieldBytes at h ⊢
  by_cases hzero : x = 0
  · rw [if_pos hzero] at h ⊢
    rw [h.read, hzero]
    rfl
  · rw [if_neg hzero] at h ⊢
    exact h.read_leDigits

/-- What is at `a` when the builder's bytes are. -/
structure Built (m : Mem) (a firstLcn numClusters realSize : Nat) : Prop where
  stop : attrStop m a = a + (0x43 + (fieldBytes numClusters).length + (fieldBytes firstLcn).length + 6) / 8 * 8
  pairs : pairsOff m a = a + 0x40
  real : attrNonresidentSize m a = realSize
  count : 1 ≤ numClusters ∧ numClusters < 2 ^ 52
  lenWidth : lenSize m (a + 0x40) = (fieldBytes numClusters).length
  offWidth : offSize m (a + 0x40) = (fieldBytes firstLcn).length
  len : m.read (a + 0x40 + 1) (fieldBytes numClusters).length = numClusters
  off : m.read (a + 0x40 + 1 + (fieldBytes numClusters).length) (fieldBytes firstLcn).length = firstLcn
  terminator : m (a + 0x40 + 1 + (fieldBytes numClusters).length + (fieldBytes firstLcn).length) = 0

theorem makeNonresidentAttr_built {attrType firstLcn numClusters realSize attrId : Nat} {bytes : List UInt8}
    (h : makeNonresidentAttr attrType firstLcn numClusters realSize attrId = some bytes)
    (hlaid : Laid m a bytes) : Built m a firstLcn numClusters realSize := by
  unfold makeNonresidentAttr at h
  dsimp only at h
  obtain ⟨header, hheader, hmap⟩ := Option.bind_eq_some_iff.1 h
  obtain ⟨hdr, hpacked, rfl⟩ := Option.map_eq_some_iff.1 hmap
  unfold oneByte at hheader
  by_cases hbyte : (fieldBytes firstLcn).length <<< 4 ||| (fieldBytes numClusters).length < 256
  swap
  · rw [if_neg hbyte] at hheader
    cases hheader
  rw [if_pos hbyte] at hheader
  cases hheader
  have hpieces := (laid_append.1 hlaid).1
  obtain ⟨hhdr, hrun⟩ := laid_append.1 hpieces
  obtain ⟨hlength, hfields⟩ := packAll_laid (m := m) (p := a) hpacked
  have hfields := hfields hhdr
  have hsize : hdr.length = 0x40 := by
    rw [hlength]
    simp only [List.map_cons, List.map_nil, List.sum_cons, List.sum_nil, Nat.reduceAdd]
  rw [hsize] at hrun
  obtain ⟨hrun, hlast⟩ := laid_append.1 hrun
  obtain ⟨hrun, hoff⟩ := laid_append.1 hrun
  obtain ⟨hfirst, hlen⟩ := laid_append.1 hrun
  have hfirst := (laid_cons.1 hfirst).1
  have hlast := (laid_cons.1 hlast).1
  simp only [List.length_append, List.length_singleton, ← Nat.add_assoc] at hlen hoff hlast
  have hpos : 1 ≤ numClusters := by
    obtain ⟨hcount, -, -⟩ := hfields [_, _, _, _, _, _, _, _] 0x18 8 _ _ rfl rfl
    omega
  have hclusters : numClusters < 2 ^ 52 := by
    obtain ⟨-, halloc, -⟩ := hfields [_, _, _, _, _, _, _, _, _, _, _, _] 0x28 8 _ _ rfl rfl
    unfold builderCluster at halloc
    omega
  have hlenW : (fieldBytes numClusters).length ≤ 7 := fieldBytes_length_le (by decide) (by omega)
  have heq : (fieldBytes firstLcn).length <<< 4 ||| (fieldBytes numClusters).length =
      (fieldBytes firstLcn).length * 16 + (fieldBytes numClusters).length := by
    rw [← Nat.shiftLeft_add_eq_or_of_lt (by omega), Nat.shiftLeft_eq]
  rw [heq] at hfirst hbyte
  have hheader : (m (a + 0x40)).toNat = (fieldBytes firstLcn).length * 16 + (fieldBytes numClusters).length := by
    rw [hfirst, UInt8.toNat_ofNat']
    omega
  have hrec : attrLen m a = _ := Int.natCast_inj.1 (hfields [_] 4 4 _ _ rfl rfl).2.2
  have hpairs : m.rd16 (a + 0x20) = 0x40 :=
    Int.natCast_inj.1 (hfields [_, _, _, _, _, _, _, _, _] 0x20 2 _ _ rfl rfl).2.2
  have hreal : attrNonresidentSize m a = realSize :=
    Int.natCast_inj.1 (hfields [_, _, _, _, _, _, _, _, _, _, _, _, _] 0x30 8 _ _ rfl rfl).2.2
  refine ⟨?_, ?_, hreal, ⟨hpos, hclusters⟩, ?_, ?_, fieldBytes_read hlen, fieldBytes_read hoff, hlast⟩
  · unfold attrStop
    rw [hrec]
    simp only [List.length_append, List.length_singleton]
    omega
  · unfold pairsOff
    rw [hpairs]
  · unfold lenSize
    omega
  · unfold offSize
    omega

/-! ## What the driver makes of it -/

theorem signedAt_eq {n : Nat} (hn : 0 < n) :
    signedAt m p n = if 2 * m.read p n < 256 ^ n then (m.read p n : Int) else m.read p n - 256 ^ n := by
  obtain ⟨n, rfl⟩ : ∃ k, n = k + 1 := ⟨n - 1, by omega⟩
  have htop := top_byte_lt_iff m p n
  unfold signedAt
  rw [show p + (n + 1) - 1 = p + n by omega]
  by_cases hlow : (m (p + n)).toNat < 128
  · rw [if_neg (not_le.2 hlow), if_pos (htop.1 hlow)]
  · rw [if_pos (not_lt.1 hlow), if_neg fun h => hlow (htop.2 h)]

/-- The LCN takes at most 7 bytes and the last of them has no sign bit, or it takes 8 and the run ends
by 2^64. -/
def LcnFits (firstLcn numClusters : Nat) : Prop :=
  (fieldBytes firstLcn).length ≤ 7 ∧ 2 * firstLcn < 256 ^ (fieldBytes firstLcn).length ∨
    (fieldBytes firstLcn).length = 8 ∧ firstLcn + numClusters ≤ 2 ^ 64

/-- The bytes of a file at the clusters from `firstLcn` on of a drive of 2^28 sectors. -/
def FileOnDrive (v : Volume) (disk : Nat → Mem) (firstLcn size : Nat) (data : Mem) : Prop :=
  ∀ i < size, v.partLba + firstLcn * v.sectorsPerCluster + i / 512 < 2 ^ 28 ∧
    disk (v.partLba + firstLcn * v.sectorsPerCluster + i / 512) (i % 512) = data i

/-- The VCNs are those of one run at `firstLcn`, and the file is read back, at every offset and in
pieces of every length. -/
structure RunsDecode (m : Mem) (a firstLcn numClusters realSize : Nat) : Prop where
  mapped : ∀ k < numClusters, ∃ run, ntfsRunForVcn m a k = some (some run) ∧ run.lcn = firstLcn + k ∧
    run.clusters = numClusters - k ∧ run.sparse = false
  unmapped : ∀ k, numClusters ≤ k → ntfsRunForVcn m a k = some none
  readBack : ∀ v, Clusters v → v.bytesPerCluster = builderCluster → realSize ≤ numClusters * builderCluster →
    ∀ s data, FileOnDrive v s.disk firstLcn realSize data → ∀ env, Calm env → ∀ offset len buf, len < 2 ^ 32 →
      ∃ out s', ntfsReadNonresident v env m a offset buf len s = some (wanted realSize offset len, out, s') ∧
        ∀ i < wanted realSize offset len, out i = data (offset + i)

section Decode

variable {firstLcn numClusters realSize : Nat}

theorem Built.extent (h : Built m a firstLcn numClusters realSize) :
    extentAt m (a + 0x40) = ⟨numClusters, some (if 2 * firstLcn < 256 ^ (fieldBytes firstLcn).length
      then (firstLcn : Int) else firstLcn - 256 ^ (fieldBytes firstLcn).length)⟩ := by
  have hpos := fieldBytes_pos (x := firstLcn)
  unfold extentAt
  rw [h.lenWidth, h.offWidth, h.len, if_neg (Nat.pos_iff_ne_zero.1 hpos), signedAt_eq hpos, h.off]

theorem Built.next (h : Built m a firstLcn numClusters realSize) : nextPair m (a + 0x40) =
    a + 0x40 + 1 + (fieldBytes numClusters).length + (fieldBytes firstLcn).length := by
  unfold nextPair
  rw [h.lenWidth, h.offWidth]

theorem Built.lenWidth_le (h : Built m a firstLcn numClusters realSize) : lenSize m (a + 0x40) ≤ 7 := by
  rw [h.lenWidth]
  exact fieldBytes_length_le (by decide) (by have := h.count; omega)

theorem Built.encodes (h : Built m a firstLcn numClusters realSize) (hw : (fieldBytes firstLcn).length ≤ 8) :
    Encodes m (attrStop m a) (pairsOff m a) [extentAt m (a + 0x40)] := by
  have hlen := h.lenWidth_le
  have hpos := fieldBytes_pos (x := numClusters)
  rw [← h.lenWidth] at hpos
  rw [h.stop, h.pairs]
  refine .run ⟨hpos, by omega⟩ (by rw [h.offWidth]; exact hw) ?_ (.done (.inr ?_))
  · rw [h.next]
    omega
  · rw [h.next]
    exact h.terminator

/-- A field of 9 bytes and more is shifted past 64 bits. -/
theorem Built.undefined (h : Built m a firstLcn numClusters realSize) (hw : 8 < (fieldBytes firstLcn).length)
    (k : Nat) : ntfsRunForVcn m a k = none := by
  have hlen := h.lenWidth_le
  have hpos := fieldBytes_pos (x := numClusters)
  have hlenWidth := h.lenWidth
  have hnext := h.next
  have hstop := h.stop
  have hzero : m (a + 0x40) ≠ 0 := fun hzero => by
    have hlenSize : lenSize m (a + 0x40) = 0 := by
      unfold lenSize
      rw [hzero]
      rfl
    omega
  have hpairs : attrPairs m a = ([], true) := by
    unfold attrPairs
    rw [h.pairs]
    unfold mappingPairs
    rw [if_neg (by rintro (hend | h0); exacts [by omega, hzero h0]), if_neg (by omega),
      if_pos (.inr (by rw [h.offWidth]; exact hw))]
  rw [ntfsRunForVcn_eq, hpairs]
  rfl

/-- The LCN as the driver reads it. -/
def signedLcn (firstLcn : Nat) : Int :=
  if 2 * firstLcn < 256 ^ (fieldBytes firstLcn).length then (firstLcn : Int)
  else firstLcn - 256 ^ (fieldBytes firstLcn).length

theorem Built.found (h : Built m a firstLcn numClusters realSize) (hw : (fieldBytes firstLcn).length ≤ 8)
    {k : Nat} (hk : k < numClusters) : ntfsRunForVcn m a k =
      some (some ⟨((signedLcn firstLcn + k) % 2 ^ 64).toNat, numClusters - k, false⟩) := by
  have hcount := h.count
  rw [(h.encodes hw).lookup, h.extent]
  unfold search64
  dsimp only
  rw [Nat.zero_add, Nat.mod_eq_of_lt (by omega), if_pos ⟨Nat.zero_le k, hk⟩, Nat.sub_zero, Option.getD_some,
    Int.zero_add, Option.isNone_some, if_neg Bool.false_ne_true]
  rfl

theorem Built.notFound (h : Built m a firstLcn numClusters realSize) (hw : (fieldBytes firstLcn).length ≤ 8)
    {k : Nat} (hk : numClusters ≤ k) : ntfsRunForVcn m a k = some none := by
  have hcount := h.count
  rw [(h.encodes hw).lookup, h.extent]
  unfold search64
  dsimp only
  rw [Nat.zero_add, Nat.mod_eq_of_lt (by omega), if_neg (by omega)]
  rfl

theorem fieldBytes_lt (x : Nat) : x < 256 ^ (fieldBytes x).length := by
  unfold fieldBytes
  by_cases hzero : x = 0
  · rw [if_pos hzero, hzero]
    decide
  · rw [if_neg hzero]
    exact lt_pow_leDigits x

/-- In at most 7 bytes the LCN is read as it is, or as a negative number. -/
theorem signedLcn_cases (hw : (fieldBytes firstLcn).length ≤ 8) :
    (2 * firstLcn < 256 ^ (fieldBytes firstLcn).length ∧ signedLcn firstLcn = firstLcn ∨
      256 ^ (fieldBytes firstLcn).length ≤ 2 * firstLcn ∧
        signedLcn firstLcn = firstLcn - 256 ^ (fieldBytes firstLcn).length) ∧
      firstLcn < 256 ^ (fieldBytes firstLcn).length ∧
      ((fieldBytes firstLcn).length = 8 ∧ 256 ^ (fieldBytes firstLcn).length = 2 ^ 64 ∨
        (fieldBytes firstLcn).length ≤ 7 ∧ 256 ^ (fieldBytes firstLcn).length ≤ 2 ^ 56) := by
  refine ⟨?_, fieldBytes_lt firstLcn, ?_⟩
  · unfold signedLcn
    by_cases hlow : 2 * firstLcn < 256 ^ (fieldBytes firstLcn).length
    · exact .inl ⟨hlow, if_pos hlow⟩
    · exact .inr ⟨not_lt.1 hlow, if_neg hlow⟩
  · rcases Nat.lt_or_eq_of_le hw with hlt | heq
    · exact .inr ⟨by omega, Nat.pow_le_pow_right (by decide) (show (fieldBytes firstLcn).length ≤ 7 by omega)⟩
    · exact .inl ⟨heq, by rw [heq]; decide⟩

theorem signed_iff (hw : (fieldBytes firstLcn).length ≤ 8) (hcount : 1 ≤ numClusters ∧ numClusters < 2 ^ 52) :
    (∀ k < numClusters, ((signedLcn firstLcn + k) % 2 ^ 64).toNat = firstLcn + k) ↔
      LcnFits firstLcn numClusters := by
  obtain ⟨hsigned, hlt, hwidth⟩ := signedLcn_cases hw
  have hcast : ((256 ^ (fieldBytes firstLcn).length : Nat) : Int) = 256 ^ (fieldBytes firstLcn).length := by
    push_cast
    rfl
  rw [← hcast] at hsigned
  unfold LcnFits
  generalize 256 ^ (fieldBytes firstLcn).length = bound at *
  constructor
  · intro h
    have hfirst := h 0 (by omega)
    have hlast := h (numClusters - 1) (by omega)
    omega
  · intro h k hk
    omega

theorem LcnFits.mod (h : LcnFits firstLcn numClusters) :
    (fieldBytes firstLcn).length ≤ 8 ∧ signedLcn firstLcn % 2 ^ 64 = (firstLcn : Int) % 2 ^ 64 := by
  have hw : (fieldBytes firstLcn).length ≤ 8 := by
    unfold LcnFits at h
    omega
  obtain ⟨hsigned, hlt, hwidth⟩ := signedLcn_cases hw
  have hcast : ((256 ^ (fieldBytes firstLcn).length : Nat) : Int) = 256 ^ (fieldBytes firstLcn).length := by
    push_cast
    rfl
  rw [← hcast] at hsigned
  refine ⟨hw, ?_⟩
  unfold LcnFits at h
  generalize 256 ^ (fieldBytes firstLcn).length = bound at *
  omega

/-- The place the run gives a byte of the file is where the builder put it. -/
theorem Built.spot (h : Built m a firstLcn numClusters realSize) (hfits : LcnFits firstLcn numClusters)
    (v : Volume) {k : Nat} (hk : k < numClusters) :
    Ntfs.spot v [extentAt m (a + 0x40)] k = some (some (firstSector v (firstLcn + k : Nat))) := by
  unfold Ntfs.spot
  rw [h.extent]
  unfold lcnAt
  rw [if_pos hk, Option.map_some, Option.map_some, Option.map_some]
  congr 2
  apply firstSector_mod
  have hmod := hfits.mod.2
  unfold signedLcn at hmod
  rw [Int.zero_add]
  push_cast
  omega

theorem Built.readBack (h : Built m a firstLcn numClusters realSize) (hfits : LcnFits firstLcn numClusters)
    {v : Volume} (hc : Clusters v) (hsize : v.bytesPerCluster = builderCluster)
    (hreal : realSize ≤ numClusters * builderCluster) {s : Sys} {data : Mem}
    (hfile : FileOnDrive v s.disk firstLcn realSize data) {env : Env} (hcalm : Calm env) (offset : Nat)
    {len : Nat} (buf : Mem) (hlen : len < 2 ^ 32) : ∃ out s',
      ntfsReadNonresident v env m a offset buf len s = some (wanted realSize offset len, out, s') ∧
        ∀ i < wanted realSize offset len, out i = data (offset + i) := by
  have hcount := h.count
  have hrange : rangeLen m a offset len = wanted realSize offset len := by
    unfold rangeLen
    rw [h.real]
  have hspc : v.sectorsPerCluster = 8 := by
    have := hc.eq
    unfold builderCluster at hsize
    omega
  have hvcn : ∀ pos < realSize, pos / v.bytesPerCluster < numClusters := fun pos hpos => by
    rw [hsize]
    exact Nat.div_lt_of_lt_mul (by rw [Nat.mul_comm]; omega)
  have hfound : RangeFound v m a [extentAt m (a + 0x40)] offset len := by
    refine ⟨fun i _ _ => spot64_eq ?_, ?_⟩
    · rw [h.extent]
      unfold startOf
      rw [List.map_singleton, List.sum_singleton]
      dsimp only
      omega
    · rw [h.real]
      refine or_iff_not_imp_left.2 fun hpast => .inl ?_
      have hlast := (hfile (realSize - 1) (by omega)).1
      omega
  obtain ⟨n, out, k, j, hrun, hread⟩ := hfound.reads hc (h.encodes hfits.mod.1) hlen (hcalm.mem s.allocs) buf
  have hbelow : ∀ i < wanted realSize offset len, offset + i < realSize := fun i hi => by
    unfold wanted at hi
    omega
  have hwhole : n = wanted realSize offset len := by
    rw [← hrange]
    refine Nat.le_antisymm hread.le (not_lt.1 fun hlt => ?_)
    rcases hread.stop hlt with hnone | ⟨t, -, hfail⟩
    · rw [h.spot hfits v (hvcn _ (hbelow n (by omega)))] at hnone
      cases hnone
    · rw [hcalm.disk] at hfail
      cases hfail
  subst hwhole
  refine ⟨out, _, hrun, fun i hi => ?_⟩
  obtain ⟨hplace, hbyte⟩ := hfile (offset + i) (hbelow i hi)
  have hget := hread.bytes i hi
  rw [byteOf_cluster (h.spot hfits v (hvcn _ (hbelow i hi)))] at hget
  have hdrive : driveByte v (firstSector v (firstLcn + (offset + i) / v.bytesPerCluster : Nat)) (offset + i) =
      (v.partLba + firstLcn * v.sectorsPerCluster + (offset + i) / 512, (offset + i) % 512) := by
    unfold driveByte firstSector
    rw [hsize, hspc, builderCluster]
    rw [hspc] at hplace
    refine Prod.ext ?_ ?_
    · dsimp only
      push_cast
      omega
    · dsimp only
      omega
  rw [hdrive, hbyte] at hget
  exact (Option.some.inj hget).symm

theorem Built.fits_of_decode (h : Built m a firstLcn numClusters realSize)
    (hdecode : RunsDecode m a firstLcn numClusters realSize) : LcnFits firstLcn numClusters := by
  have hw : (fieldBytes firstLcn).length ≤ 8 := by
    by_contra hwide
    obtain ⟨run, hrun, -⟩ := hdecode.mapped 0 h.count.1
    rw [h.undefined (not_le.1 hwide)] at hrun
    cases hrun
  refine (signed_iff hw h.count).1 fun k hk => ?_
  obtain ⟨run, hrun, hlcn, -⟩ := hdecode.mapped k hk
  rw [h.found hw hk] at hrun
  cases hrun
  exact hlcn

/-- The builder's data runs decode to what it allocated exactly when the LCN is not read as a
negative number, and not in more than 8 bytes. -/
theorem data_runs_decode {attrType attrId : Nat} {bytes : List UInt8}
    (hmake : makeNonresidentAttr attrType firstLcn numClusters realSize attrId = some bytes)
    (hlaid : Laid m a bytes) :
    RunsDecode m a firstLcn numClusters realSize ↔ LcnFits firstLcn numClusters := by
  have h := makeNonresidentAttr_built hmake hlaid
  refine ⟨h.fits_of_decode, fun hfits => ?_⟩
  have hw := hfits.mod.1
  exact ⟨fun k hk => ⟨_, h.found hw hk, (signed_iff hw h.count).2 hfits k hk, rfl, rfl⟩,
    fun k hk => h.notFound hw hk, fun v hc hsize hreal s data hfile env hcalm offset len buf hlen =>
      h.readBack hfits hc hsize hreal hfile hcalm offset buf hlen⟩

end Decode

/-- The attribute the builder makes of a file in `numClusters` clusters at `firstLcn`, and zeros behind
it. -/
def madeAttr (firstLcn numClusters realSize : Nat) : Mem := fun i =>
  ((makeNonresidentAttr attrData firstLcn numClusters realSize 0).getD []).getD i 0

theorem madeAttr_laid (firstLcn numClusters realSize : Nat) : Laid (madeAttr firstLcn numClusters realSize) 0
    ((makeNonresidentAttr attrData firstLcn numClusters realSize 0).getD []) := fun i hi => by
  unfold madeAttr
  rw [Nat.zero_add, List.getElem_eq_getD 0]

theorem makeNonresidentAttr_getD {firstLcn numClusters realSize : Nat}
    (h : (makeNonresidentAttr attrData firstLcn numClusters realSize 0).isSome) :
    makeNonresidentAttr attrData firstLcn numClusters realSize 0 =
      some ((makeNonresidentAttr attrData firstLcn numClusters realSize 0).getD []) := by
  obtain ⟨bytes, hbytes⟩ := Option.isSome_iff_exists.1 h
  rw [hbytes, Option.getD_some]

/-- A `testlib.dll` of 20000 bytes, at `TESTLIB_LCN`. -/
theorem data_runs_decode_testlib : RunsDecode (madeAttr 32 5 20000) 0 32 5 20000 ↔ LcnFits 32 5 :=
  data_runs_decode (makeNonresidentAttr_getD (by decide +kernel)) (madeAttr_laid 32 5 20000)

/-- One cluster at LCN 128, which the driver takes for LCN -128. -/
theorem data_runs_decode_sign :
    (makeNonresidentAttr attrData 128 1 4096 0).isSome ∧ ¬RunsDecode (madeAttr 128 1 4096) 0 128 1 4096 := by
  have hsome : (makeNonresidentAttr attrData 128 1 4096 0).isSome := by decide +kernel
  refine ⟨hsome, fun h => ?_⟩
  have hmake := makeNonresidentAttr_getD hsome
  have hfits := (makeNonresidentAttr_built hmake (madeAttr_laid 128 1 4096)).fits_of_decode h
  unfold LcnFits at hfits
  exact absurd hfits (by decide +kernel)

end MeuOS.Ntfs
