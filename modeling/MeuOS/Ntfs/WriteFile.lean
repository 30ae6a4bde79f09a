import MeuOS.Ntfs.WellFormed

/-! Reading and writing the content of a file. A write to a resident `$DATA` happens in a
copy of the record: first it is decided which length the content gets, then the bytes
are stored, and a changed length is entered in the record and in the index of the parent. -/
namespace MeuOS.Ntfs

open MeuOS.Lib

section Driver

variable (v : Volume) (env : Env)

def ntfsReadDataAttr (m : Mem) (offset : Nat) (buf : Mem) (len : Nat) (s : Sys) :
    Option (Nat × Mem × Sys) :=
  (ntfsFindAttr v m attrData 0 false).bind fun
    | none => some (0, buf, s)
    | some a =>
        if attrIsNonresident m a then ntfsReadNonresident v env m a offset buf len s
        else if contentLen m a ≤ offset then some (0, buf, s)
        else
          let n := min len (contentLen m a - offset)
          some (n, buf.blit 0 n (m.shift (attrResidentData m a + offset)), s)

/-- The number of bytes read, and what the caller's buffer holds then. -/
def ntfsReadFile (no offset : Nat) (buf : Option Mem) (len : Nat) (s : Sys) :
    Option (Nat × Option Mem × Sys) :=
  match buf with
  | none => some (0, none, s)
  | some out =>
      if ¬v.mounted ∨ len = 0 then some (0, buf, s)
      else (loadRecord v env no s).bind fun
        | (none, s) => some (0, buf, s)
        | (some m, s) =>
            (ntfsReadDataAttr v env m offset out len s).map fun (n, out, s) => (n, some out, s)

/-- The loop of `ntfs_record_set_filename_size` from instance `which` on. -/
def setFilenameSizeLoop (newReal newAlloc : Nat) : Nat → Nat → Mem → Option Mem
  | 0, _, m => some m
  | left + 1, which, m =>
      (ntfsFindAttr v m attrFileName which false).bind fun
        | none => some m
        | some a =>
            if attrIsNonresident m a ∨ contentLen m a < 0x42 then
              setFilenameSizeLoop newReal newAlloc left (which + 1) m
            else
              setFilenameSizeLoop newReal newAlloc left (which + 1)
                (writeSizes m (attrResidentData m a) newReal newAlloc)

def ntfsRecordSetFilenameSize (m : Mem) (newReal newAlloc : Nat) : Option Mem :=
  setFilenameSizeLoop v newReal newAlloc 8 0 m

/-- The length the content is to get: `new_eof` is 64 bits wide, the length 32. -/
def targetLen (clen offset len : Nat) (setEof : Bool) : Nat :=
  let newEof := (offset + len) % 2 ^ 64
  if setEof then u32 newEof else if clen < newEof then u32 newEof else clen

/-- What fits behind the header of the attribute at `a`, an end marker included. -/
def maxContent (m : Mem) (a : Nat) : Nat :=
  let maxAttr := v.mftRecordSize - a - 8
  if contentOff m a < maxAttr then maxAttr - contentOff m a else 0

def canResize (m : Mem) (a target : Nat) : Prop := target ≤ maxContent v m a ∧ isLastAttr v m a

instance (m : Mem) (a target : Nat) : Decidable (canResize v m a target) :=
  inferInstanceAs (Decidable (_ ∧ _))

/-- Zero the gap, if there is one, and copy the bytes. -/
def storeContent (m : Mem) (a offset : Nat) (data : Mem) (len : Nat) : Mem :=
  let start := attrResidentData m a
  let clen := contentLen m a
  let m := if clen < offset then
      m.blit (start + clen) (u32 (u32 offset + 4294967296 - clen)) fun _ => 0 else m
  m.blit (start + u32 offset) len data

/-- The new length in the attribute and the header of the record, whose content starts
`coff` behind `a`. -/
def resizeAttr (m : Mem) (a coff target : Nat) : Mem :=
  let alen := align8 (coff + target)
  writeEnd (writeLengths m a target alen) (u32 (a + alen))

/-- The rest of `ntfs_write_file` once the write is known to be safe. -/
def commitResident (no : Nat) (m : Mem) (a offset : Nat) (data : Mem) (len target parent : Nat)
    (s : Sys) : Option (Nat × Sys) :=
  let stored := storeContent m a offset data len
  let edited :=
    if target ≠ contentLen m a then
      (ntfsRecordSetFilenameSize v (resizeAttr stored a (contentOff m a) target) target
        (align8 target)).bind fun rec =>
          if parent ≠ 0 then
            (ntfsIndexUpdateSize v env parent no target (align8 target) s).map fun r => (rec, r.2)
          else some (rec, s)
    else some (stored, s)
  edited.bind fun (rec, s) =>
    (ntfsWriteMftRecord v env no rec s).map fun (r, _, s) => (if r ≠ 0 then 0 else len, s)

/-- A resize that cannot be done becomes an overwrite of what is there. -/
def writeResident (no : Nat) (m : Mem) (a offset : Nat) (data : Mem) (len : Nat) (setEof : Bool)
    (parent : Nat) (s : Sys) : Option (Nat × Sys) :=
  let clen := contentLen m a
  let target := targetLen clen offset len setEof
  if target ≠ clen ∧ ¬canResize v m a target then
    if clen ≤ offset then some (0, s)
    else
      let len := if clen < (offset + len) % 2 ^ 64 then clen - offset else len
      commitResident v env no m a offset data len clen parent s
  else commitResident v env no m a offset data len target parent s

def ntfsWriteFile (no offset : Nat) (buf : Option Mem) (len : Nat) (setEof : Bool) (parent : Nat)
    (s : Sys) : Option (Nat × Sys) :=
  match buf with
  | none => some (0, s)
  | some data =>
      if ¬v.mounted then some (0, s)
      else (loadRecord v env no s).bind fun
        | (none, s) => some (0, s)
        | (some m, s) =>
            (ntfsFindAttr v m attrData 0 false).bind fun
              | none => some (0, s)
              | some a =>
                  if attrIsNonresident m a then overwriteNonresident v env m a offset data len s
                  else writeResident v env no m a offset data len setEof parent s

end Driver

end MeuOS.Ntfs
