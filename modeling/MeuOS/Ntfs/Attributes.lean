import MeuOS.Lib.Span
import MeuOS.Ntfs.Volume

/-! Attributes of a record. A pointer into a record is its offset; the arithmetic on
offsets is that of `uint32_t`, so a length field can send the walk backwards and the
walk may fail to end. On a record whose attributes reach the end marker it finds what a
search of the list of attributes finds. -/
namespace MeuOS.Ntfs

open MeuOS.Lib

def attrFileName : Nat := 0x30
def attrData : Nat := 0x80
def attrIndexRoot : Nat := 0x90
def attrIndexAllocation : Nat := 0xA0
def attrEnd : Nat := 0xFFFFFFFF

/-- Conversion to `uint32_t`. -/
def u32 (n : Nat) : Nat := n % 4294967296

/-- `(n + 7) & ~7u`. -/
def align8 (n : Nat) : Nat := u32 (n + 7) / 8 * 8

def attrType (m : Mem) (a : Nat) : Nat := m.rd32 a
def attrLen (m : Mem) (a : Nat) : Nat := m.rd32 (a + 4)
def attrIsNonresident (m : Mem) (a : Nat) : Bool := m (a + 8) != 0
def contentLen (m : Mem) (a : Nat) : Nat := m.rd32 (a + 0x10)
def contentOff (m : Mem) (a : Nat) : Nat := m.rd16 (a + 0x14)

/-- Where the content `attr_resident_data` returns begins. -/
def attrResidentData (m : Mem) (a : Nat) : Nat := a + contentOff m a

def firstAttr (m : Mem) : Nat := m.rd16 0x14
def bytesUsed (m : Mem) : Nat := m.rd32 0x18
def mftFlags (m : Mem) : Nat := m.rd16 0x16

/-- The test for the name `$I30`. -/
def nameIsI30 (v : Volume) (m : Mem) (a : Nat) : Bool :=
  let noff := m.rd16 (a + 10)
  m (a + 9) = 4 && u32 (a + noff + 8) ≤ v.mftRecordSize && m (a + noff) = 0x24 &&
    m (a + noff + 2) = 0x49 && m (a + noff + 4) = 0x33 && m (a + noff + 6) = 0x30

def attrMatches (v : Volume) (m : Mem) (type : Nat) (nameI30 : Bool) (a : Nat) : Bool :=
  attrType m a = type && (!nameI30 || nameIsI30 v m a)

/-- The walk of `ntfs_find_attr` at `off`, with `seen` matches behind it. -/
def findAttrLoop (v : Volume) (m : Mem) (type which : Nat) (nameI30 : Bool) :
    Nat → Nat → Nat → Option (Option Nat)
  | 0, _, _ => none
  | fuel + 1, off, seen =>
      if v.mftRecordSize < u32 (off + 8) ∨ u32 (bytesUsed m + 0x18 + 8) < u32 (off + 8) then some none
      else if attrType m off = attrEnd then some none
      else if attrLen m off < 8 ∨ v.mftRecordSize < u32 (off + attrLen m off) then some none
      else if attrMatches v m type nameI30 off then
        if seen = which then some (some off)
        else findAttrLoop v m type which nameI30 fuel (u32 (off + attrLen m off)) (seen + 1)
      else findAttrLoop v m type which nameI30 fuel (u32 (off + attrLen m off)) seen

/-- `none` when the walk never ends: an offset of the record then comes up a second time
with as many matches behind it. -/
def ntfsFindAttr (v : Volume) (m : Mem) (type which : Nat) (nameI30 : Bool) : Option (Option Nat) :=
  findAttrLoop v m type which nameI30 ((v.mftRecordSize + 2) * (which + 1)) (firstAttr m) 0

/-! ## Records whose walk reaches the end marker -/

/-- The attributes of `m` start at `as` and the end marker is at `e`. -/
structure Attrs (v : Volume) (m : Mem) (as : List Nat) (e : Nat) : Prop where
  span : Span (attrLen m) (firstAttr m) as e
  type : ∀ a ∈ as, attrType m a ≠ attrEnd
  header : ∀ a ∈ as, 24 ≤ attrLen m a
  marker : attrType m e = attrEnd
  inside : e + 8 ≤ v.mftRecordSize
  used : bytesUsed m = (e + 8 + 7) / 8 * 8

variable {v : Volume} {m m' : Mem} {as : List Nat} {e : Nat}

theorem u32_of_lt {n : Nat} (h : n < 4294967296) : u32 n = n := Nat.mod_eq_of_lt h

theorem Attrs.mem (h : Attrs v m as e) {a : Nat} (ha : a ∈ as) :
    firstAttr m ≤ a ∧ a + 24 ≤ a + attrLen m a ∧ a + attrLen m a ≤ e :=
  ⟨(span_mem h.span ha).1, Nat.add_le_add_left (h.header a ha) a, (span_mem h.span ha).2.2⟩

theorem Attrs.length (h : Attrs v m as e) : as.length < v.mftRecordSize := by
  have hlen := span_length h.span h.header
  have hin := h.inside
  omega

/-- The walk over the attributes from `off` on is a search of the list. -/
theorem findAttrLoop_eq {type which : Nat} {nameI30 : Bool} {fuel off seen : Nat}
    {rest : List Nat} (hspan : Span (attrLen m) off rest e)
    (htype : ∀ a ∈ rest, attrType m a ≠ attrEnd) (hheader : ∀ a ∈ rest, 24 ≤ attrLen m a)
    (hmarker : attrType m e = attrEnd) (hin : e + 8 ≤ v.mftRecordSize)
    (hused : bytesUsed m = (e + 8 + 7) / 8 * 8) (hseen : seen ≤ which)
    (hfuel : rest.length < fuel) :
    findAttrLoop v m type which nameI30 fuel off seen =
      some ((rest.filter (attrMatches v m type nameI30))[which - seen]?) := by
  have hbounds := v.record_bounds
  induction rest generalizing off seen fuel with
  | nil =>
    obtain ⟨fuel, rfl⟩ : ∃ k, fuel = k + 1 := ⟨fuel - 1, by omega⟩
    obtain rfl : off = e := hspan
    unfold findAttrLoop
    simp [hmarker]
  | cons a rest ih =>
    obtain ⟨fuel, rfl⟩ : ∃ k, fuel = k + 1 := ⟨fuel - 1, by omega⟩
    obtain ⟨rfl, -, hrest⟩ := hspan
    have hle := span_le hrest
    have hlen := hheader a (List.mem_cons_self ..)
    have hoff : u32 (a + 8) = a + 8 := u32_of_lt (by omega)
    have hnext : u32 (a + attrLen m a) = a + attrLen m a := u32_of_lt (by omega)
    have hlimit : u32 (bytesUsed m + 0x18 + 8) = bytesUsed m + 0x18 + 8 := u32_of_lt (by omega)
    have htail : ∀ seen', seen' ≤ which →
        findAttrLoop v m type which nameI30 fuel (a + attrLen m a) seen' =
          some ((rest.filter (attrMatches v m type nameI30))[which - seen']?) := fun seen' hs =>
      ih hrest (fun b hb => htype b (List.mem_cons_of_mem _ hb))
        (fun b hb => hheader b (List.mem_cons_of_mem _ hb)) hs (by simp at hfuel; omega)
    unfold findAttrLoop
    rw [hoff, hnext, hlimit, if_neg (by omega), if_neg (htype a (List.mem_cons_self ..)),
      if_neg (by omega), List.filter_cons]
    by_cases hmatch : attrMatches v m type nameI30 a = true
    · rw [if_pos hmatch, if_pos hmatch]
      by_cases hhere : seen = which
      · rw [if_pos hhere, hhere, Nat.sub_self]
        rfl
      · rw [if_neg hhere, htail (seen + 1) (by omega),
          show which - seen = which - (seen + 1) + 1 by omega]
        rfl
    · rw [if_neg hmatch, if_neg hmatch, htail seen hseen]

theorem Attrs.find (h : Attrs v m as e) (type which : Nat) (nameI30 : Bool) :
    ntfsFindAttr v m type which nameI30 =
      some ((as.filter (attrMatches v m type nameI30))[which]?) := by
  have hlen := h.length
  have hmul := Nat.le_mul_of_pos_right (v.mftRecordSize + 2) (Nat.succ_pos which)
  exact findAttrLoop_eq h.span h.type h.header h.marker h.inside h.used (Nat.zero_le _) (by
    simp only [Nat.succ_eq_add_one] at hmul
    omega)

/-- What the walk reads of an attribute apart from its name. -/
theorem attr_congr {a : Nat} (h : Mem.Agree m m' a (a + 24)) :
    attrType m' a = attrType m a ∧ attrLen m' a = attrLen m a ∧
      attrIsNonresident m' a = attrIsNonresident m a ∧ contentLen m' a = contentLen m a ∧
      contentOff m' a = contentOff m a := by
  refine ⟨Mem.read_congr (h.mono (by omega) (by omega)).symm,
    Mem.read_congr (h.mono (by omega) (by omega)).symm, ?_,
    Mem.read_congr (h.mono (by omega) (by omega)).symm,
    Mem.read_congr (h.mono (by omega) (by omega)).symm⟩
  unfold attrIsNonresident
  rw [h (a + 8) (by omega) (by omega)]

/-- A change outside the headers, the end marker and the two fields that lead to them. -/
theorem Attrs.congr (h : Attrs v m as e) (hhead : Mem.Agree m m' 0x14 0x1C)
    (hattr : ∀ a ∈ as, Mem.Agree m m' a (a + 8)) (hmark : Mem.Agree m m' e (e + 4)) :
    Attrs v m' as e := by
  have hfirst : firstAttr m' = firstAttr m := Mem.read_congr (hhead.mono (by omega) (by omega)).symm
  have hused : bytesUsed m' = bytesUsed m := Mem.read_congr (hhead.mono (by omega) (by omega)).symm
  have htype : ∀ a ∈ as, attrType m' a = attrType m a := fun a ha =>
    Mem.read_congr ((hattr a ha).mono (by omega) (by omega)).symm
  have hlen : ∀ a ∈ as, attrLen m' a = attrLen m a := fun a ha =>
    Mem.read_congr ((hattr a ha).mono (by omega) (by omega)).symm
  refine ⟨?_, fun a ha => ?_, fun a ha => ?_, ?_, h.inside, by rw [hused]; exact h.used⟩
  · rw [hfirst]
    exact span_congr h.span hlen
  · rw [htype a ha]
    exact h.type a ha
  · rw [hlen a ha]
    exact h.header a ha
  · rw [← h.marker]
    exact Mem.read_congr hmark.symm

/-! Non-resident content. A list of runs maps the clusters of an attribute to clusters of
the volume; reading and overwriting go through one cluster buffer, and neither touches
a record. -/

/-- `rd_signed` for at most 8 bytes, in two's complement. -/
def rdSigned (m : Mem) (p n : Nat) : Nat :=
  if 0 < n ∧ n < 8 ∧ 128 ≤ (m (p + n - 1)).toNat then m.read p n + 2 ^ 64 - 256 ^ n else m.read p n

structure Run where
  lcn : Nat
  clusters : Nat
  sparse : Bool

/-- The loop of `ntfs_run_for_vcn` at `p`. Field sizes over 8 bytes shift by 64 bits and
more, which means nothing. -/
def runForVcnLoop (m : Mem) (stop vcn : Nat) : Nat → Nat → Nat → Nat → Option (Option Run)
  | 0, _, _, _ => some none
  | fuel + 1, p, curVcn, lcn =>
      let lenSz := (m p).toNat % 16
      let offSz := (m p).toNat / 16
      if stop ≤ p ∨ m p = 0 then some none
      else if lenSz = 0 ∨ stop < p + 1 + lenSz + offSz then some none
      else if 8 < lenSz ∨ 8 < offSz then none
      else
        let runLen := m.read (p + 1) lenSz
        let sparse := offSz = 0
        let lcn := if sparse then lcn else (lcn + rdSigned m (p + 1 + lenSz) offSz) % 2 ^ 64
        if curVcn ≤ vcn ∧ vcn < (curVcn + runLen) % 2 ^ 64 then
          some (some
            { lcn := if sparse then 0 else (lcn + (vcn - curVcn)) % 2 ^ 64
              clusters := runLen - (vcn - curVcn)
              sparse := sparse })
        else runForVcnLoop m stop vcn fuel (p + 1 + lenSz + offSz) ((curVcn + runLen) % 2 ^ 64) lcn

/-- Every turn of the loop consumes a byte of the attribute, so its length is fuel enough. -/
def ntfsRunForVcn (m : Mem) (a vcn : Nat) : Option (Option Run) :=
  runForVcnLoop m (a + attrLen m a) vcn (attrLen m a + 1) (a + m.rd16 (a + 0x20)) 0 0

def attrNonresidentSize (m : Mem) (a : Nat) : Nat := m.rd64 (a + 0x30)

section Driver

variable (v : Volume) (env : Env)

def ntfsReadClusters (lcn count : Nat) (buf : Mem) (s : Sys) : Int × Mem × Sys :=
  ntfsReadSectors v env (lcn * v.sectorsPerCluster % 2 ^ 64)
    (u32 (count * v.sectorsPerCluster)) 0 buf s

def ntfsWriteClusters (lcn count : Nat) (buf : Mem) (s : Sys) : Int × Sys :=
  ntfsWriteSectors v env (lcn * v.sectorsPerCluster % 2 ^ 64) buf
    (u32 (count * v.sectorsPerCluster)) 0 s

/-- `if (offset + len > real) len = (uint32_t)(real - offset)`. -/
def clampLen (real offset len : Nat) : Nat :=
  if real < (offset + len) % 2 ^ 64 then u32 (real - offset) else len

/-- The loop of `ntfs_read_nonresident`: `done` bytes are in `buf`. -/
def readNonresidentLoop (m : Mem) (a offset len : Nat) :
    Nat → Nat → Mem → Mem → Sys → Option (Nat × Mem × Sys)
  | 0, done, buf, _, s => some (done, buf, s)
  | fuel + 1, done, buf, clusterBuf, s =>
      if len ≤ done then some (done, buf, s)
      else
        let abs := (offset + done) % 2 ^ 64
        let inCl := abs % v.bytesPerCluster
        let chunk := min (v.bytesPerCluster - inCl) (len - done)
        (ntfsRunForVcn m a (abs / v.bytesPerCluster)).bind fun
          | none => some (done, buf, s)
          | some run =>
              if run.sparse then
                readNonresidentLoop m a offset len fuel (done + chunk)
                  (buf.blit done chunk fun _ => 0) clusterBuf s
              else
                match ntfsReadClusters v env run.lcn 1 clusterBuf s with
                | (r, clusterBuf, s) =>
                    if r ≠ 0 then some (done, buf, s)
                    else readNonresidentLoop m a offset len fuel (done + chunk)
                      (buf.blit done chunk (clusterBuf.shift inCl)) clusterBuf s

def ntfsReadNonresident (m : Mem) (a offset : Nat) (buf : Mem) (len : Nat) (s : Sys) :
    Option (Nat × Mem × Sys) :=
  let real := attrNonresidentSize m a
  if real ≤ offset then some (0, buf, s)
  else
    match kmalloc env s with
    | (none, s) => some (0, buf, s)
    | (some clusterBuf, s) =>
        readNonresidentLoop v env m a offset (clampLen real offset len)
          (clampLen real offset len) 0 buf clusterBuf s

/-- The loop of `ntfs_write_file` over the clusters a non-resident `$DATA` already has. -/
def overwriteLoop (m : Mem) (a offset : Nat) (data : Mem) (len : Nat) :
    Nat → Nat → Mem → Sys → Option (Nat × Sys)
  | 0, done, _, s => some (done, s)
  | fuel + 1, done, cbuf, s =>
      if len ≤ done then some (done, s)
      else
        let abs := (offset + done) % 2 ^ 64
        let inCl := abs % v.bytesPerCluster
        let chunk := min (v.bytesPerCluster - inCl) (len - done)
        (ntfsRunForVcn m a (abs / v.bytesPerCluster)).bind fun
          | none => some (done, s)
          | some run =>
              if run.sparse then some (done, s)
              else
                match ntfsReadClusters v env run.lcn 1 cbuf s with
                | (r, cbuf, s) =>
                    if r ≠ 0 then some (done, s)
                    else
                      let cbuf := cbuf.blit inCl chunk (data.shift done)
                      match ntfsWriteClusters v env run.lcn 1 cbuf s with
                      | (r, s) =>
                          if r ≠ 0 then some (done, s)
                          else overwriteLoop m a offset data len fuel (done + chunk) cbuf s

def overwriteNonresident (m : Mem) (a offset : Nat) (data : Mem) (len : Nat) (s : Sys) :
    Option (Nat × Sys) :=
  let real := attrNonresidentSize m a
  if real ≤ offset then some (0, s)
  else
    match kmalloc env s with
    | (none, s) => some (0, s)
    | (some cbuf, s) =>
        overwriteLoop v env m a offset data (clampLen real offset len)
          (clampLen real offset len) 0 cbuf s

end Driver

end MeuOS.Ntfs
