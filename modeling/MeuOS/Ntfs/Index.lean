import MeuOS.Ntfs.Attributes

/-! Directories. The `$INDEX_ROOT` of a directory holds index entries up to one with the
END flag; the driver walks them by their lengths and edits them in the record. -/
namespace MeuOS.Ntfs

open MeuOS.Lib

/-! The pieces a new record is put together from. They are built in buffers on the
stack; a piece that runs past its buffer is `none`. -/

def fileAttrDirectory : Nat := 0x10000000
def fileAttrArchive : Nat := 0x20
def ntTimeFixed : Nat := 0x01D6000000000000

/-- `ascii_to_utf16`: two bytes a character. -/
def asciiToUtf16 (out : Mem) (o : Nat) (s : List UInt8) : Mem :=
  out.blit o (2 * s.length) fun i => if i % 2 = 0 then s.getD (i / 2) 0 else 0

/-- Four equal timestamps from `o` on. -/
def writeTimes (out : Mem) (o : Nat) : Mem :=
  (((out.write o 8 ntTimeFixed).write (o + 8) 8 ntTimeFixed).write (o + 16) 8 ntTimeFixed).write
    (o + 24) 8 ntTimeFixed

/-- The length of a `$FILE_NAME` content. -/
def filenameLen (name : List UInt8) : Nat := 0x42 + 2 * name.length

/-- The content of a `$FILE_NAME`, in a buffer of `room` bytes. -/
def buildFilenameContent (room parentRef : Nat) (name : List UInt8) (flags real alloc : Nat)
    (out : Mem) : Option Mem :=
  if room < filenameLen name then none
  else
    let out := writeTimes (out.write 0 8 parentRef) 8
    let out := (out.write 0x28 8 alloc).write 0x30 8 real
    let out := (out.write 0x38 4 flags).write 0x3C 4 0
    let out := (out.put 0x40 (UInt8.ofNat name.length)).put 0x41 3
    some (asciiToUtf16 out 0x42 name)

/-- Where the content of a new attribute starts, behind its header and name. -/
def newContentOff (name : List UInt8) : Nat := align8 (24 + name.length * 2)

/-- The length of a new attribute. -/
def newAttrLen (name : List UInt8) (clen : Nat) : Nat := align8 (newContentOff name + clen)

/-- A whole resident attribute, in a buffer of `room` bytes. -/
def buildResidentAttr (room type : Nat) (content : Mem) (clen : Nat) (name : List UInt8) (out : Mem) :
    Option Mem :=
  if room < newAttrLen name clen ∨ room < newContentOff name + clen then none
  else
    let out := out.blit 0 (newAttrLen name clen) fun _ => 0
    let out := (out.write 0 4 type).write 4 4 (newAttrLen name clen)
    let out := (out.put 8 0).put 9 (UInt8.ofNat name.length)
    let out := out.write 0x0A 2 (if name = [] then 0 else 24)
    let out := (out.write 0x0C 2 0).write 0x0E 2 0
    let out := (out.write 0x10 4 clen).write 0x14 2 (newContentOff name)
    let out := (out.put 0x16 0).put 0x17 0
    let out := asciiToUtf16 out 24 name
    some (out.blit (newContentOff name) clen content)

/-- An `$INDEX_ROOT` content that holds the END entry alone, 48 bytes. -/
def buildEmptyIndexRoot (v : Volume) (out : Mem) : Mem :=
  let out := (out.write 0 4 attrFileName).write 4 4 1
  let out := out.write 8 4 (if v.indexRecordSize ≠ 0 then v.indexRecordSize else 4096)
  let out := (((out.put 12 1).put 13 0).put 14 0).put 15 0
  let out := ((out.write 16 4 16).write 20 4 32).write 24 4 32
  let out := (out.write 28 4 0).write 32 8 0
  ((out.write 40 2 16).write 42 2 0).write 44 4 2

def entryRef (m : Mem) (e : Nat) : Nat := m.rd64 e % 2 ^ 48
def entryLen (m : Mem) (e : Nat) : Nat := m.rd16 (e + 0x08)
def keyLen (m : Mem) (e : Nat) : Nat := m.rd16 (e + 0x0A)
def entryFlags (m : Mem) (e : Nat) : Nat := m.rd16 (e + 0x0C)

/-- `INDEX_ENTRY_END`. -/
def isEndEntry (m : Mem) (e : Nat) : Bool := entryFlags m e / 2 % 2 = 1

/-- The `$INDEX_ROOT` of a record: the one named `$I30`, else the first of any name. -/
def findIndexRoot (v : Volume) (m : Mem) : Option (Option Nat) :=
  (ntfsFindAttr v m attrIndexRoot 0 true).bind fun
    | some a => some (some a)
    | none => ntfsFindAttr v m attrIndexRoot 0 false

def indexNode (m : Mem) (a : Nat) : Nat := attrResidentData m a + 0x10
def totalUsed (m : Mem) (a : Nat) : Nat := m.rd32 (indexNode m a + 4)
def firstEntry (m : Mem) (a : Nat) : Nat := indexNode m a + m.rd32 (indexNode m a)

/-- The three searches of the driver: the first entry that is a `hit`, unless the entries
end before it. Every turn advances by 16 bytes at least, so `stop` turns suffice. -/
def findEntryLoop (m : Mem) (hit : Nat → Bool) (stop : Nat) : Nat → Nat → Option Nat
  | 0, _ => none
  | fuel + 1, e =>
      if stop < e + 0x10 ∨ entryLen m e < 0x10 then none
      else if hit e then some e
      else if isEndEntry m e then none
      else findEntryLoop m hit stop fuel (e + entryLen m e)

/-- The entry whose size `ntfs_index_update_size` sets. -/
def findSizedEntry (m : Mem) (a child : Nat) : Option Nat :=
  let stop := min (indexNode m a + totalUsed m a) (attrResidentData m a + contentLen m a)
  findEntryLoop m (fun e => !isEndEntry m e && entryRef m e = child && 0x42 ≤ keyLen m e) stop
    (stop + 1) (firstEntry m a)

/-- The entry `ntfs_index_remove` takes out. -/
def findChildEntry (m : Mem) (a child : Nat) : Option Nat :=
  let stop := indexNode m a + totalUsed m a
  findEntryLoop m (fun e => !isEndEntry m e && entryRef m e = child) stop (stop + 1) (firstEntry m a)

/-- The END entry `ntfs_index_insert` puts a new one in front of. -/
def findEndEntry (m : Mem) (a : Nat) : Option Nat :=
  let stop := indexNode m a + totalUsed m a
  findEntryLoop m (isEndEntry m) stop (stop + 1) (firstEntry m a)

/-! ## The edits -/

/-- The allocated and the real size of a `$FILE_NAME` at `fn`. -/
def writeSizes (m : Mem) (fn newReal newAlloc : Nat) : Mem :=
  (m.write (fn + 0x28) 8 newAlloc).write (fn + 0x30) 8 newReal

/-- The end marker at `next`, and bytes used. -/
def writeEnd (m : Mem) (next : Nat) : Mem :=
  ((m.write next 4 attrEnd).write (next + 4) 4 0).write 0x18 4 (align8 (next + 8))

/-- `next + 4 <= s_vol.mft_record_size && rd32(rec + next) == ATTR_END`. -/
def isLastAttr (v : Volume) (m : Mem) (a : Nat) : Prop :=
  u32 (u32 (a + attrLen m a) + 4) ≤ v.mftRecordSize ∧ m.rd32 (u32 (a + attrLen m a)) = attrEnd

instance (v : Volume) (m : Mem) (a : Nat) : Decidable (isLastAttr v m a) :=
  inferInstanceAs (Decidable (_ ∧ _))

/-- The content and attribute lengths of `a`. -/
def writeLengths (m : Mem) (a clen attrLen : Nat) : Mem :=
  (m.write (a + 0x10) 4 clen).write (a + 4) 4 attrLen

/-- What both edits of the entries write to the node header. -/
def writeTotalUsed (m : Mem) (node used : Nat) : Mem :=
  (m.write (node + 4) 4 used).write (node + 8) 4 used

/-- `memmove` inside a record. -/
def moveBytes (m : Mem) (dst src len : Nat) : Mem := m.blit dst len (m.shift src)

def entryLenFor (name : List UInt8) : Nat := align8 (16 + filenameLen name)

/-- The new entry at `e`. -/
def writeEntry (m : Mem) (e childRef : Nat) (key : Mem) (name : List UInt8) : Mem :=
  let m := (m.write e 8 childRef).write (e + 0x08) 2 (entryLenFor name)
  let m := (m.write (e + 0x0A) 2 (filenameLen name)).write (e + 0x0C) 4 0
  let m := m.blit (e + 0x10) (filenameLen name) key
  m.blit (e + 0x10 + filenameLen name) (entryLenFor name - (16 + filenameLen name)) fun _ => 0

/-- What `ntfs_index_insert` does to a record with `$INDEX_ROOT` at `a`; the inner `none`
is a refusal. -/
def insertEntry (v : Volume) (m : Mem) (a parent childRef : Nat) (name : List UInt8) (isDir : Bool)
    (realSize : Nat) (key : Mem) : Option (Option Mem) :=
  if ¬isLastAttr v m a then some none
  else
    let flags := if isDir then fileAttrDirectory else fileAttrArchive
    let alloc := if isDir then 0 else (realSize + 7) % 2 ^ 64 / 8 * 8
    (buildFilenameContent 320 (2 ^ 48 ||| parent) name flags (if isDir then 0 else realSize) alloc
      key).map fun key =>
        match findEndEntry m a with
        | none => none
        | some endEntry =>
            let clen := u32 (contentLen m a + entryLenFor name)
            let alen := align8 (contentOff m a + clen)
            if v.mftRecordSize < u32 (a + alen + 8) then none
            else
              let moved := moveBytes m (endEntry + entryLenFor name) endEntry (entryLen m endEntry)
              let entered := writeEntry moved endEntry childRef key name
              let counted := writeTotalUsed entered (indexNode m a) (totalUsed m a + entryLenFor name)
              some (writeEnd (writeLengths counted a clen alen) (u32 (a + alen)))

/-- What `ntfs_index_remove` does. The end marker moves only when `$INDEX_ROOT` was the
last attribute. -/
def removeEntry (v : Volume) (m : Mem) (a child : Nat) : Option Mem :=
  (findChildEntry m a child).map fun hit =>
    let hitLen := entryLen m hit
    let tailOfs := u32 (hit + hitLen - attrResidentData m a)
    let used := u32 (totalUsed m a + 4294967296 - hitLen)
    let clen := u32 (contentLen m a + 4294967296 - hitLen)
    let alen := align8 (contentOff m a + clen)
    let oldNext := u32 (a + attrLen m a)
    let moved := moveBytes m hit (hit + hitLen) (u32 (0x10 + totalUsed m a + 4294967296 - tailOfs))
    let closed := writeLengths (writeTotalUsed moved (indexNode m a) used) a clen alen
    if u32 (oldNext + 4) ≤ v.mftRecordSize ∧ closed.rd32 oldNext = attrEnd then
      writeEnd closed (u32 (a + alen))
    else closed

/-! ## The operations -/

section Driver

variable (v : Volume) (env : Env)

/-- A record buffer with record `no` in it, as every operation starts. -/
def loadRecord (no : Nat) (s : Sys) : Option (Option Mem × Sys) :=
  match kmalloc env s with
  | (none, s) => some (none, s)
  | (some buf, s) =>
      (ntfsReadMftRecord v env no buf s).map fun (r, rec, s) => (if r ≠ 0 then none else some rec, s)

/-- The resident `$INDEX_ROOT` of a record. -/
def residentIndexRoot (m : Mem) : Option (Option Nat) :=
  (findIndexRoot v m).map fun a => a.filter fun a => !attrIsNonresident m a

/-- Load the record, edit it at its resident `$INDEX_ROOT`, and write it back: 0 when all
of it succeeds. -/
def editIndex (no : Nat) (edit : Mem → Nat → Option (Option Mem)) (s : Sys) : Option (Int × Sys) :=
  (loadRecord v env no s).bind fun
    | (none, s) => some (-1, s)
    | (some m, s) =>
        (residentIndexRoot v m).bind fun
          | none => some (-1, s)
          | some a => (edit m a).bind fun
              | none => some (-1, s)
              | some m => (ntfsWriteMftRecord v env no m s).map fun (r, _, s) =>
                  (if r ≠ 0 then -1 else 0, s)

def ntfsIndexUpdateSize (parent child newReal newAlloc : Nat) (s : Sys) : Option (Int × Sys) :=
  if parent = 0 then some (-1, s)
  else editIndex v env parent (fun m a =>
    if contentLen m a < 0x20 then some none
    else some ((findSizedEntry m a child).map fun e => writeSizes m (e + 0x10) newReal newAlloc)) s

/-- `key` is what the stack holds where the key of the entry is built. -/
def ntfsIndexInsert (parent childRef : Nat) (name : List UInt8) (isDir : Bool) (realSize : Nat)
    (key : Mem) (s : Sys) : Option (Int × Sys) :=
  editIndex v env parent (fun m a => insertEntry v m a parent childRef name isDir realSize key) s

def ntfsIndexRemove (parent child : Nat) (s : Sys) : Option (Int × Sys) :=
  editIndex v env parent (fun m a => some (removeEntry v m a child)) s

end Driver

end MeuOS.Ntfs
