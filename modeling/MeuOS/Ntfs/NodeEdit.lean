import MeuOS.Ntfs.Node

/-! The edits of an index node. An insertion puts the new entry where the END entry was and
the END entry behind it; a removal moves everything behind the entry over it. Either gives
the `$INDEX_ROOT` a new length, and leaves a well-formed record where it is the last attribute. -/
namespace MeuOS.Ntfs

open MeuOS.Lib

variable {v : Volume} {m m' : Mem} {a x e : Nat} {init es : List Nat}

/-! ## The pieces -/

theorem moveBytes_outside (m : Mem) {dst src len j : Nat} (h : j < dst ∨ dst + len ≤ j) :
    moveBytes m dst src len j = m j :=
  Mem.blit_outside _ _ h

theorem moveBytes_same (m : Mem) (dst src len : Nat) : m.SameAt src (moveBytes m dst src len) dst len := by
  intro i hi
  unfold moveBytes
  rw [Mem.blit_inside _ _ (by omega) (by omega), Nat.add_sub_cancel_left]
  rfl

theorem writeTotalUsed_outside (m : Mem) {node used j : Nat} (h : j < node + 4 ∨ node + 12 ≤ j) :
    writeTotalUsed m node used j = m j := by
  unfold writeTotalUsed
  rw [Mem.write_outside _ _ (by omega), Mem.write_outside _ _ (by omega)]

theorem writeTotalUsed_used (m : Mem) {node used : Nat} (h : used < 4294967296) :
    (writeTotalUsed m node used).rd32 (node + 4) = used := by
  unfold writeTotalUsed Mem.rd32
  rw [Mem.read_write_of_disjoint _ _ (by omega), Mem.read_write_of_lt _ h]

theorem writeLengths_len (m : Mem) {a clen alen : Nat} (h : alen < 4294967296) :
    attrLen (writeLengths m a clen alen) a = alen := by
  unfold writeLengths attrLen
  exact Mem.read_write_of_lt _ h

theorem writeLengths_content (m : Mem) {a clen alen : Nat} (h : clen < 4294967296) :
    contentLen (writeLengths m a clen alen) a = clen := by
  unfold writeLengths contentLen Mem.rd32
  rw [Mem.read_write_of_disjoint _ _ (by omega), Mem.read_write_of_lt _ h]

/-- The new end marker leaves the lengths of the attribute in front of it. -/
theorem writeEnd_lengths (m : Mem) {a clen alen next : Nat} (ha : 0x1C ≤ a) (hnext : a + 0x14 ≤ next)
    (hclen : clen < 4294967296) (halen : alen < 4294967296) :
    attrLen (writeEnd (writeLengths m a clen alen) next) a = alen ∧
      contentLen (writeEnd (writeLengths m a clen alen) next) a = clen := by
  have hout : ∀ j, 0x1C ≤ j → j < next →
      writeEnd (writeLengths m a clen alen) next j = writeLengths m a clen alen j :=
    fun j hlo hhi => writeEnd_outside _ (by omega) (by omega)
  constructor
  · have hsame : attrLen (writeEnd (writeLengths m a clen alen) next) a =
        attrLen (writeLengths m a clen alen) a :=
      Mem.read_congr fun j hlo hhi => hout j (by omega) (by omega)
    rw [hsame, writeLengths_len m halen]
  · have hsame : contentLen (writeEnd (writeLengths m a clen alen) next) a =
        contentLen (writeLengths m a clen alen) a :=
      Mem.read_congr fun j hlo hhi => hout j (by omega) (by omega)
    rw [hsame, writeLengths_content m hclen]

/-! ## A record that ends with its `$INDEX_ROOT` -/

structure IndexLast (v : Volume) (m : Mem) (init : List Nat) (a : Nat) (es : List Nat) (x e : Nat) :
    Prop where
  wf : RecordWf v m (init ++ [a]) e
  node : NodeWf m a es x
  res : attrIsNonresident m a = false
  type : attrType m a = attrIndexRoot

/-- Where everything lies, for the arithmetic of the edits. -/
structure Layout (v : Volume) (m : Mem) (a x e : Nat) : Prop where
  low : 0x1C ≤ a
  aligned : a % 8 = 0
  marker : e = a + attrLen m a
  inside : e + 8 ≤ v.mftRecordSize
  size : v.mftRecordSize ≤ 8192
  header : 24 ≤ contentOff m a
  content : contentOff m a + contentLen m a ≤ attrLen m a
  nodeAt : indexNode m a = a + contentOff m a + 0x10
  first : indexNode m a + 0x10 ≤ firstEntry m a
  entries : firstEntry m a ≤ x
  endLen : 0x10 ≤ entryLen m x
  used : x + entryLen m x = indexNode m a + totalUsed m a
  room : 0x10 + totalUsed m a ≤ contentLen m a

theorem mem_last (init : List Nat) (a : Nat) : a ∈ init ++ [a] :=
  List.mem_append_right init (List.mem_singleton_self a)

theorem IndexLast.layout (h : IndexLast v m init a es x e) : Layout v m a x e := by
  have hmem := h.wf.mem (mem_last init a)
  have hlow := h.wf.low
  have hin := h.wf.inside
  have hbounds := v.record_bounds
  obtain ⟨hcoff, hclen⟩ := h.wf.resident a (mem_last init a) h.res
  obtain ⟨mid, -, rfl, -, hend⟩ := span_append.mp h.wf.span
  exact
    { low := by omega
      aligned := h.wf.aligned _ (mem_last init _)
      marker := hend.symm
      inside := hin
      size := hbounds.2
      header := hcoff
      content := hclen
      nodeAt := rfl
      first := h.node.behind
      entries := h.node.le
      endLen := h.node.lastLen
      used := h.node.used
      room := h.node.inside }

theorem IndexLast.isLast (h : IndexLast v m init a es x e) : isLastAttr v m a := by
  have hmem := mem_last init a
  rw [h.wf.isLastAttr_iff hmem, h.wf.last_iff hmem]
  exact ⟨init, rfl, h.layout.marker.symm⟩

/-! ## A new length -/

/-- The length of the attribute when its content has `clen` bytes. -/
def indexLen (m : Mem) (a clen : Nat) : Nat := align8 (contentOff m a + clen)

/-- The counts both edits write, once they have moved the entries. -/
def resizeIndex (m mid : Mem) (a used clen : Nat) : Mem :=
  writeEnd (writeLengths (writeTotalUsed mid (indexNode m a) used) a clen (indexLen m a clen))
    (a + indexLen m a clen)

section Resize

variable (h : IndexLast v m init a es x e) {mid : Mem} (hmid : ∀ j < firstEntry m a, mid j = m j)
  {used clen : Nat} (hfit : a + indexLen m a clen + 8 ≤ v.mftRecordSize) (hclen : clen < 16384)
  (hroom : 0x20 ≤ used ∧ 0x10 + used ≤ clen)
include h

omit h in
theorem resizeIndex_outside {j : Nat} (hused : j < 0x18 ∨ 0x1C ≤ j) (hlen : j < a + 4 ∨ a + 8 ≤ j)
    (hcontent : j < a + 0x10 ∨ a + 0x14 ≤ j) (hcount : j < indexNode m a + 4 ∨ indexNode m a + 12 ≤ j)
    (hend : j < a + indexLen m a clen ∨ a + indexLen m a clen + 8 ≤ j) :
    resizeIndex m mid a used clen j = mid j := by
  unfold resizeIndex
  rw [writeEnd_outside _ hend hused, writeLengths_outside _ hlen hcontent,
    writeTotalUsed_outside _ hcount]

/-- Behind the fields of the attribute and the node, up to the end marker. -/
theorem resizeIndex_inside {j : Nat} (hlo : indexNode m a + 12 ≤ j) (hhi : j < a + indexLen m a clen) :
    resizeIndex m mid a used clen j = mid j := by
  obtain ⟨hlow, -, -, -, -, hheader, -, hnode, -⟩ := h.layout
  exact resizeIndex_outside (by omega) (by omega) (by omega) (by omega) (by omega)

omit h in
include hclen in
theorem indexLen_eq : indexLen m a clen = (contentOff m a + clen + 7) / 8 * 8 := by
  have hcoff := m.rd16_lt (a + 0x14)
  unfold indexLen contentOff
  exact align8_of_lt (by omega)

include hmid

theorem resizeIndex_below {j : Nat} (hj : j < a) (hout : ¬(0x18 ≤ j ∧ j < 0x1C)) :
    resizeIndex m mid a used clen j = m j := by
  obtain ⟨hlow, -, -, -, -, hheader, -, hnode, hfirst, -⟩ := h.layout
  rw [resizeIndex_outside (by omega) (by omega) (by omega) (by omega) (by omega)]
  exact hmid j (by omega)

include hclen hroom

/-- The fields of the attribute and of the node. -/
theorem resizeIndex_fields :
    attrType (resizeIndex m mid a used clen) a = attrType m a ∧
      attrIsNonresident (resizeIndex m mid a used clen) a = false ∧
      contentOff (resizeIndex m mid a used clen) a = contentOff m a ∧
      attrLen (resizeIndex m mid a used clen) a = indexLen m a clen ∧
      contentLen (resizeIndex m mid a used clen) a = clen ∧
      firstEntry (resizeIndex m mid a used clen) a = firstEntry m a ∧
      totalUsed (resizeIndex m mid a used clen) a = used := by
  obtain ⟨hlow, -, -, hinside, hsize, hheader, hcontent, hnode, hfirst, -⟩ := h.layout
  have hlen := indexLen_eq (m := m) (a := a) hclen
  have hout {j : Nat} (hlo : a ≤ j) (hl : j < a + 4 ∨ a + 8 ≤ j) (hc : j < a + 0x10 ∨ a + 0x14 ≤ j)
      (hn : j < indexNode m a + 4) : resizeIndex m mid a used clen j = m j := by
    rw [resizeIndex_outside (by omega) hl hc (.inl hn) (by omega)]
    exact hmid j (by omega)
  have hcoff : contentOff (resizeIndex m mid a used clen) a = contentOff m a :=
    Mem.read_congr fun j hlo hhi => hout (by omega) (by omega) (by omega) (by omega)
  have hsame : indexNode (resizeIndex m mid a used clen) a = indexNode m a := by
    unfold indexNode attrResidentData
    rw [hcoff]
  have hfour : (resizeIndex m mid a used clen).rd32 (indexNode m a) = m.rd32 (indexNode m a) :=
    Mem.read_congr fun j hlo hhi => hout (by omega) (by omega) (by omega) (by omega)
  have hcount : (resizeIndex m mid a used clen).rd32 (indexNode m a + 4) =
      (writeTotalUsed mid (indexNode m a) used).rd32 (indexNode m a + 4) := by
    apply Mem.read_congr
    intro j hlo hhi
    unfold resizeIndex
    rw [writeEnd_outside _ (by omega) (by omega), writeLengths_outside _ (by omega) (by omega)]
  have hcoff₀ := m.rd16_lt (a + 0x14)
  have hlengths : attrLen (resizeIndex m mid a used clen) a = indexLen m a clen ∧
      contentLen (resizeIndex m mid a used clen) a = clen :=
    writeEnd_lengths _ hlow (by omega) (by omega) (by unfold contentOff at hlen; omega)
  refine ⟨?_, ?_, hcoff, hlengths.1, hlengths.2, ?_, ?_⟩
  · exact Mem.read_congr fun j hlo hhi => hout (by omega) (by omega) (by omega) (by omega)
  · unfold attrIsNonresident
    rw [hout (by omega) (by omega) (by omega) (by omega)]
    exact h.res
  · unfold firstEntry
    rw [hsame, hfour]
  · unfold totalUsed
    rw [hsame, hcount]
    exact writeTotalUsed_used _ (by omega)

include hfit

theorem resizeIndex_record :
    RecordWf v (resizeIndex m mid a used clen) (init ++ [a]) (a + indexLen m a clen) := by
  obtain ⟨hlow, -, -, hinside, hsize, hheader, hcontent, -⟩ := h.layout
  have hlen := indexLen_eq (m := m) (a := a) hclen
  obtain ⟨htype, hres, hcoff, halen, hclen', -⟩ := resizeIndex_fields h hmid hclen hroom
  have hbelow : ∀ j < a, ¬(0x18 ≤ j ∧ j < 0x1C) → resizeIndex m mid a used clen j = m j :=
    fun j hj hout => resizeIndex_below h hmid hj hout
  have hmark : attrType (resizeIndex m mid a used clen) (a + indexLen m a clen) = attrEnd :=
    writeEnd_marker _ (by omega)
  have hused : bytesUsed (resizeIndex m mid a used clen) = (a + indexLen m a clen + 8 + 7) / 8 * 8 :=
    writeEnd_used _ (by omega)
  have hattrs : Attrs v (resizeIndex m mid a used clen) (init ++ [a])
      (a + attrLen (resizeIndex m mid a used clen) a) := by
    apply h.wf.toAttrs.resize h.wf.low hbelow
    · rw [htype]
      exact h.wf.type a (mem_last init a)
    · omega
    · rw [halen]
      exact hmark
    · rw [halen]
      exact hfit
    · rw [halen]
      exact hused
  have hwf := h.wf.resize hbelow hattrs fun _ => ⟨by omega, by omega⟩
  rw [halen] at hwf
  exact hwf

/-- The record, once the entries are where they belong. -/
theorem resizeIndex_last {es' : List Nat} {x' : Nat} (hplain : Plain mid (firstEntry m a) es' x')
    (hend : IsEnd mid x') (hcount : x' + entryLen mid x' = indexNode m a + used) :
    IndexLast v (resizeIndex m mid a used clen) init a es' x' (a + indexLen m a clen) ∧
      Mem.Agree mid (resizeIndex m mid a used clen) (firstEntry m a) (x' + entryLen mid x') := by
  obtain ⟨hlow, -, -, hinside, hsize, hheader, hcontent, hnode, hfirst, -⟩ := h.layout
  have hlen := indexLen_eq (m := m) (a := a) hclen
  obtain ⟨htype, hres, hcoff, halen, hclen', hentries, htotal⟩ := resizeIndex_fields h hmid hclen hroom
  have hle := hplain.le
  have hagree : Mem.Agree mid (resizeIndex m mid a used clen) (firstEntry m a)
      (x' + entryLen mid x') := fun j hlo hhi =>
    (resizeIndex_inside h (by omega) (by omega)).symm
  have hsame : indexNode (resizeIndex m mid a used clen) a = indexNode m a := by
    unfold indexNode attrResidentData
    rw [hcoff]
  have hx' := entry_same (hagree.sameAt (e := x') (n := entryLen mid x') hle (Nat.le_refl _)) hend.lastLen
  have hplain' : Plain (resizeIndex m mid a used clen) (firstEntry (resizeIndex m mid a used clen) a)
      es' x' := by
    rw [hentries]
    exact hplain.keep (hagree.mono (Nat.le_refl _) (by omega))
  have hend' : IsEnd (resizeIndex m mid a used clen) x' :=
    hend.copy (hagree.sameAt hle (Nat.le_refl _)) hend.lastLen
  refine ⟨?_, hagree⟩
  exact
    { wf := resizeIndex_record h hmid hfit hclen hroom
      node := { hplain', hend' with
        behind := by rw [hsame, hentries]; exact hfirst
        used := by rw [hx'.2.1, hsame, htotal]; exact hcount
        inside := by rw [hclen', htotal]; exact hroom.2 }
      res := hres
      type := htype.trans h.type }

end Resize

/-! One entry in, one entry out. The entries that stay keep their bytes, so they are
reported as before. -/

/-! ## The new entry -/

theorem buildFilenameContent_some {name : List UInt8} (h : filenameLen name ≤ 320)
    (parentRef flags real alloc : Nat) (out : Mem) :
    ∃ built, buildFilenameContent 320 parentRef name flags real alloc out = some built := by
  unfold buildFilenameContent
  exact ⟨_, if_neg (by omega)⟩

theorem entryLenFor_eq {name : List UInt8} (h : filenameLen name ≤ 320) :
    entryLenFor name = (16 + filenameLen name + 7) / 8 * 8 :=
  align8_of_lt (by omega)

section Entry

variable (m : Mem) (e childRef : Nat) (key : Mem) {name : List UInt8} (hname : filenameLen name ≤ 320)
include hname

theorem writeEntry_outside {j : Nat} (h : j < e ∨ e + entryLenFor name ≤ j) :
    writeEntry m e childRef key name j = m j := by
  have hlen := entryLenFor_eq hname
  unfold writeEntry
  rw [Mem.blit_outside _ _ (by omega), Mem.blit_outside _ _ (by omega),
    Mem.write_outside _ _ (by omega), Mem.write_outside _ _ (by omega),
    Mem.write_outside _ _ (by omega), Mem.write_outside _ _ (by omega)]

theorem writeEntry_fields :
    entryRef (writeEntry m e childRef key name) e = childRef % 2 ^ 48 ∧
      entryLen (writeEntry m e childRef key name) e = entryLenFor name ∧
      keyLen (writeEntry m e childRef key name) e = filenameLen name ∧
      isEndEntry (writeEntry m e childRef key name) e = false := by
  have hlen := entryLenFor_eq hname
  let head := (((m.write e 8 childRef).write (e + 0x08) 2 (entryLenFor name)).write (e + 0x0A) 2
    (filenameLen name)).write (e + 0x0C) 4 0
  have hkept {o k : Nat} (ho : o + k ≤ 0x10) :
      (writeEntry m e childRef key name).read (e + o) k = head.read (e + o) k := by
    unfold writeEntry
    rw [Mem.read_blit_of_disjoint _ _ (by omega), Mem.read_blit_of_disjoint _ _ (by omega)]
  have href : head.read (e + 0) 8 = childRef % 256 ^ 8 := by
    rw [Mem.read_write_of_disjoint _ _ (by omega), Mem.read_write_of_disjoint _ _ (by omega),
      Mem.read_write_of_disjoint _ _ (by omega), Nat.add_zero, Mem.read_write_same]
  have hel : head.read (e + 8) 2 = entryLenFor name := by
    rw [Mem.read_write_of_disjoint _ _ (by omega), Mem.read_write_of_disjoint _ _ (by omega),
      Mem.read_write_of_lt _ (by omega)]
  have hkl : head.read (e + 0x0A) 2 = filenameLen name := by
    rw [Mem.read_write_of_disjoint _ _ (by omega), Mem.read_write_of_lt _ (by omega)]
  have hfl : head.read (e + 0x0C) 2 = 0 := by
    apply Mem.read_of_le (v := 0)
    intro i hi
    change ((((m.write e 8 childRef).write (e + 0x08) 2 (entryLenFor name)).write (e + 0x0A) 2
      (filenameLen name)).write (e + 0x0C) 4 0) (e + 0x0C + i) = _
    rw [Mem.write, Mem.blit_inside _ _ (by omega) (by omega)]
    simp [Mem.le]
  refine ⟨?_, ?_, ?_, ?_⟩
  · have hread := hkept (o := 0) (k := 8) (by omega)
    rw [href, Nat.add_zero] at hread
    unfold entryRef Mem.rd64
    rw [hread]
    omega
  · unfold entryLen Mem.rd16
    rw [hkept (by omega), hel]
  · unfold keyLen Mem.rd16
    rw [hkept (by omega), hkl]
  · unfold isEndEntry entryFlags Mem.rd16
    rw [hkept (by omega), hfl]
    rfl

theorem writeEntry_key :
    key.SameAt 0 (writeEntry m e childRef key name) (e + 0x10) (filenameLen name) := by
  intro i hi
  unfold writeEntry
  rw [Mem.blit_outside _ _ (by omega), Mem.blit_inside _ _ (by omega) (by omega), Nat.add_sub_cancel_left,
    Nat.zero_add]

end Entry

/-! ## Insertion -/

/-- The record with the new entry. -/
def enterEntry (m : Mem) (a x childRef : Nat) (key : Mem) (name : List UInt8) : Mem :=
  resizeIndex m
    (writeEntry (moveBytes m (x + entryLenFor name) x (entryLen m x)) x childRef key name) a
    (totalUsed m a + entryLenFor name) (contentLen m a + entryLenFor name)

/-- The end of the attribute with the new entry. -/
def enteredEnd (m : Mem) (a : Nat) (name : List UInt8) : Nat :=
  a + indexLen m a (contentLen m a + entryLenFor name)

/-- What an insertion leaves: the old entries where they were, the new one behind them. -/
structure Entered (v : Volume) (m m' : Mem) (init : List Nat) (a : Nat) (es : List Nat)
    (x childRef : Nat) (key : Mem) (name : List UInt8) : Prop where
  last : IndexLast v m' init a (es ++ [x]) (x + entryLenFor name) (enteredEnd m a name)
  below : ∀ j < a, ¬(0x18 ≤ j ∧ j < 0x1C) → m' j = m j
  kept : Mem.Agree m m' (firstEntry m a) x
  ref : entryRef m' x = childRef % 2 ^ 48
  keyLen : keyLen m' x = filenameLen name
  key : key.SameAt 0 m' (x + 0x10) (filenameLen name)

section Insert

variable (h : IndexLast v m init a es x e) {name : List UInt8} (hname : filenameLen name ≤ 320)
include h hname

theorem insertEntry_eq (parent childRef : Nat) (isDir : Bool) (realSize : Nat) (key : Mem) :
    ∃ built, buildFilenameContent 320 (2 ^ 48 ||| parent) name
        (if isDir then fileAttrDirectory else fileAttrArchive) (if isDir then 0 else realSize)
        (if isDir then 0 else (realSize + 7) % 2 ^ 64 / 8 * 8) key = some built ∧
      insertEntry v m a parent childRef name isDir realSize key =
        some (if v.mftRecordSize < enteredEnd m a name + 8 then none
          else some (enterEntry m a x childRef built name)) := by
  obtain ⟨hlow, -, hmarker, hinside, hsize, hheader, hcontent, -⟩ := h.layout
  have hentry := entryLenFor_eq hname
  have hlen := indexLen_eq (m := m) (a := a) (show contentLen m a + entryLenFor name < 16384 by omega)
  have hclen : u32 (contentLen m a + entryLenFor name) = contentLen m a + entryLenFor name :=
    u32_of_lt (by omega)
  have hroom : u32 (enteredEnd m a name + 8) = enteredEnd m a name + 8 :=
    u32_of_lt (by unfold enteredEnd; omega)
  have hnext : u32 (enteredEnd m a name) = enteredEnd m a name :=
    u32_of_lt (by unfold enteredEnd; omega)
  obtain ⟨built, hbuilt⟩ := buildFilenameContent_some hname (2 ^ 48 ||| parent)
    (if isDir then fileAttrDirectory else fileAttrArchive) (if isDir then 0 else realSize)
    (if isDir then 0 else (realSize + 7) % 2 ^ 64 / 8 * 8) key
  refine ⟨built, hbuilt, ?_⟩
  unfold insertEntry
  rw [if_neg (not_not.mpr h.isLast)]
  simp only [hbuilt, Option.map_some, h.node.findEnd, hclen]
  change some (if v.mftRecordSize < u32 (enteredEnd m a name + 8) then none else
    some (writeEnd _ (u32 (enteredEnd m a name)))) = _
  rw [hroom, hnext]
  rfl

theorem enterEntry_spec (childRef : Nat) (key : Mem) (hfit : enteredEnd m a name + 8 ≤ v.mftRecordSize) :
    Entered v m (enterEntry m a x childRef key name) init a es x childRef key name := by
  obtain ⟨hlow, -, hmarker, hinside, hsize, hheader, hcontent, hnode, hfirst, hentries, hendLen, hused,
    hroom⟩ := h.layout
  have hlenFor := entryLenFor_eq hname
  let mid := writeEntry (moveBytes m (x + entryLenFor name) x (entryLen m x)) x childRef key name
  have hout : ∀ j, j < x ∨ x + entryLenFor name + entryLen m x ≤ j → mid j = m j := by
    intro j hj
    change writeEntry _ x childRef key name j = m j
    rw [writeEntry_outside _ _ _ _ hname (by omega), moveBytes_outside _ (by omega)]
  have hmoved : m.SameAt x mid (x + entryLenFor name) (entryLen m x) := by
    intro i hi
    change writeEntry _ x childRef key name _ = _
    rw [writeEntry_outside _ _ _ _ hname (by omega)]
    exact moveBytes_same m _ _ _ i hi
  have hkept : Mem.Agree m mid (firstEntry m a) x := fun j _ hj => (hout j (.inl hj)).symm
  obtain ⟨href, hnlen, hnkey, hnend⟩ := writeEntry_fields
    (moveBytes m (x + entryLenFor name) x (entryLen m x)) x childRef key hname
  have hend : IsEnd mid (x + entryLenFor name) := h.node.toIsEnd.copy hmoved hendLen
  have hmlen : entryLen mid (x + entryLenFor name) = entryLen m x := (entry_same hmoved hendLen).2.1
  have hplain : Plain mid (firstEntry m a) (es ++ [x]) (x + entryLenFor name) := by
    apply (h.node.toPlain.keep hkept).append
    have hone := Plain.cons hnend (by omega) (Plain.nil mid (x + entryLen mid x))
    rw [hnlen] at hone
    exact hone
  obtain ⟨hlast, hagree⟩ := resizeIndex_last h (fun j hj => hout j (.inl (by omega))) hfit
    (show contentLen m a + entryLenFor name < 16384 by omega)
    (show 0x20 ≤ totalUsed m a + entryLenFor name ∧ 0x10 + (totalUsed m a + entryLenFor name) ≤
      contentLen m a + entryLenFor name by omega) hplain hend (by omega)
  have hnew : mid.SameAt x (enterEntry m a x childRef key name) x (entryLenFor name) :=
    hagree.sameAt hentries (by omega)
  obtain ⟨href', -, hkey', -⟩ := entry_same hnew (by omega)
  exact
    { last := hlast
      below := fun j hj hu =>
        resizeIndex_below h (fun j hj => hout j (.inl (by omega))) hj hu
      kept := hkept.trans (hagree.mono (Nat.le_refl _) (by omega))
      ref := href'.trans href
      keyLen := hkey'.trans hnkey
      key := (writeEntry_key _ x childRef key hname).trans ((hnew.skip 0x10).mono (by omega)) }

end Insert

/-! ## Removal -/

/-- The record without the entry at `hit`. -/
def leaveEntry (m : Mem) (a hit : Nat) : Mem :=
  resizeIndex m
    (moveBytes m hit (hit + entryLen m hit)
      (indexNode m a + totalUsed m a - (hit + entryLen m hit))) a
    (totalUsed m a - entryLen m hit) (contentLen m a - entryLen m hit)

/-- What a removal leaves: the entries in front where they were, those behind moved up. -/
structure Left (v : Volume) (m m' : Mem) (init : List Nat) (a hit : Nat) (before after : List Nat)
    (x : Nat) : Prop where
  last : IndexLast v m' init a (before ++ after.map fun b => hit + (b - (hit + entryLen m hit)))
    (hit + (x - (hit + entryLen m hit))) (a + indexLen m a (contentLen m a - entryLen m hit))
  below : ∀ j < a, ¬(0x18 ≤ j ∧ j < 0x1C) → m' j = m j
  kept : Mem.Agree m m' (firstEntry m a) hit
  moved : m.SameAt (hit + entryLen m hit) m' hit (x + entryLen m x - (hit + entryLen m hit))

section Remove

variable {hit : Nat} {before after : List Nat} (h : IndexLast v m init a (before ++ hit :: after) x e)
include h

theorem IndexLast.hit_place :
    firstEntry m a ≤ hit ∧ 0x10 ≤ entryLen m hit ∧ hit + entryLen m hit ≤ x := by
  have hmem := h.node.mem (List.mem_append_right before (List.mem_cons_self ..))
  omega

theorem leaveEntry_spec : Left v m (leaveEntry m a hit) init a hit before after x := by
  obtain ⟨hlow, -, hmarker, hinside, hsize, hheader, hcontent, hnode, hfirst, hentries, hendLen, hused,
    hroom⟩ := h.layout
  obtain ⟨hhit, hlong, hle⟩ := h.hit_place
  obtain ⟨at', hbefore, hrest⟩ := h.node.toPlain.split
  obtain ⟨rfl, -, -, hafter⟩ := hrest.tail
  let mid := moveBytes m hit (hit + entryLen m hit)
    (indexNode m a + totalUsed m a - (hit + entryLen m hit))
  have hout : ∀ j < hit, mid j = m j := fun j hj => moveBytes_outside m (.inl hj)
  have hmoved : m.SameAt (hit + entryLen m hit) mid hit (x + entryLen m x - (hit + entryLen m hit)) :=
    (moveBytes_same m hit (hit + entryLen m hit) _).mono (by omega)
  have hkept : Mem.Agree m mid (firstEntry m a) hit := fun j _ hj => (hout j hj).symm
  have hplain : Plain mid (firstEntry m a)
      (before ++ after.map fun b => hit + (b - (hit + entryLen m hit)))
      (hit + (x - (hit + entryLen m hit))) :=
    (hbefore.keep hkept).append (hafter.copy (hmoved.mono (by omega)))
  have hendSame : m.SameAt x mid (hit + (x - (hit + entryLen m hit))) (entryLen m x) := by
    have hskip := hmoved.skip (x - (hit + entryLen m hit))
    rw [show hit + entryLen m hit + (x - (hit + entryLen m hit)) = x by omega] at hskip
    exact hskip.mono (by omega)
  have hend : IsEnd mid (hit + (x - (hit + entryLen m hit))) := h.node.toIsEnd.copy hendSame hendLen
  have hmlen : entryLen mid (hit + (x - (hit + entryLen m hit))) = entryLen m x :=
    (entry_same hendSame hendLen).2.1
  have hlen := indexLen_eq (m := m) (a := a) (show contentLen m a - entryLen m hit < 16384 by omega)
  obtain ⟨hlast, hagree⟩ := resizeIndex_last h (fun j hj => hout j (by omega))
    (show a + indexLen m a (contentLen m a - entryLen m hit) + 8 ≤ v.mftRecordSize by omega)
    (by omega)
    (show 0x20 ≤ totalUsed m a - entryLen m hit ∧ 0x10 + (totalUsed m a - entryLen m hit) ≤
      contentLen m a - entryLen m hit by omega) hplain hend (by omega)
  exact
    { last := hlast
      below := fun j hj hu => resizeIndex_below h (fun j hj => hout j (by omega)) hj hu
      kept := hkept.trans (hagree.mono (Nat.le_refl _) (by omega))
      moved := hmoved.trans (hagree.sameAt (by omega) (by omega)) }

end Remove

theorem u32_sub {n k : Nat} (hle : k ≤ n) (hn : n < 4294967296) : u32 (n + 4294967296 - k) = n - k := by
  unfold u32
  omega

/-- The end marker is still where it was when the driver looks for it. -/
theorem closed_marker (h : IndexLast v m init a es x e) {hit len used clen alen : Nat}
    (hhit : firstEntry m a ≤ hit) (hlen : hit + len ≤ e) :
    (writeLengths (writeTotalUsed (moveBytes m hit (hit + entryLen m hit) len) (indexNode m a) used) a
      clen alen).rd32 e = attrEnd := by
  obtain ⟨hlow, -, hmarker, hinside, hsize, hheader, hcontent, hnode, hfirst, hentries, hendLen, hused,
    hroom⟩ := h.layout
  rw [← h.wf.marker]
  apply Mem.read_congr
  intro j hlo hhi
  rw [writeLengths_outside _ (by omega) (by omega), writeTotalUsed_outside _ (by omega),
    moveBytes_outside _ (by omega)]

theorem removeEntry_eq (h : IndexLast v m init a es x e) (child : Nat) :
    removeEntry v m a child = (es.find? fun b => entryRef m b = child).map (leaveEntry m a) := by
  obtain ⟨hlow, -, hmarker, hinside, hsize, hheader, hcontent, hnode, hfirst, hentries, hendLen, hused,
    hroom⟩ := h.layout
  unfold removeEntry
  rw [h.node.findChild]
  cases hfind : es.find? fun b => entryRef m b = child with
  | none => rfl
  | some hit =>
    obtain ⟨before, after, rfl⟩ := List.append_of_mem (List.mem_of_find?_eq_some hfind)
    obtain ⟨hhit, hlong, hle⟩ := h.hit_place
    have hlen := indexLen_eq (m := m) (a := a) (show contentLen m a - entryLen m hit < 16384 by omega)
    have hdata : attrResidentData m a + 0x10 = indexNode m a := rfl
    have htail : u32 (hit + entryLen m hit - attrResidentData m a) =
        hit + entryLen m hit - attrResidentData m a := u32_of_lt (by omega)
    have hmove : u32 (0x10 + totalUsed m a + 4294967296 - (hit + entryLen m hit - attrResidentData m a)) =
        indexNode m a + totalUsed m a - (hit + entryLen m hit) := by
      rw [u32_sub (by omega) (by omega)]
      omega
    have hold : u32 (a + attrLen m a) = e := by
      rw [hmarker]
      exact u32_of_lt (by omega)
    have hfour : u32 (e + 4) = e + 4 := u32_of_lt (by omega)
    have hnew : u32 (a + indexLen m a (contentLen m a - entryLen m hit)) =
        a + indexLen m a (contentLen m a - entryLen m hit) := u32_of_lt (by omega)
    simp only [Option.map_some, htail, hmove, hold, hfour]
    rw [u32_sub (by omega) (by omega), u32_sub (by omega) (by omega), closed_marker h hhit (by omega),
      if_pos ⟨by omega, rfl⟩]
    change some (writeEnd _ (u32 (a + indexLen m a (contentLen m a - entryLen m hit)))) = _
    rw [hnew]
    rfl

end MeuOS.Ntfs
