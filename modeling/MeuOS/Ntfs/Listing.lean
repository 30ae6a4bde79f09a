import MeuOS.Ntfs.WriteFile

/-! Listing a directory and resolving a path. `ntfs_list_dir` walks the entries of the
`$INDEX_ROOT` and then those of every INDX block; what it hands to its callback, call by
call, is a list here, and the index of a call is the position in it. -/
namespace MeuOS.Ntfs

open MeuOS.Lib

def ntfsMftRoot : Nat := 5
def ntfsMaxName : Nat := 255
def mftFlagDirectory : Nat := 2

/-- `NTFS_FILE_INFO`; the name is a C string, without its terminator. -/
structure FileInfo where
  mftRecord : Nat
  isDir : Bool
  size : Nat
  name : List UInt8
deriving DecidableEq

def asciiChar (c : Nat) : UInt8 :=
  if 0x20 ≤ c ∧ c < 0x7F then UInt8.ofNat c else if c = 0 then 0 else 0x3F

/-- `utf16_to_ascii` of `chars` characters, up to the first NUL. -/
def utf16ToAscii (m : Mem) (src chars : Nat) : List UInt8 :=
  ((List.range (min chars ntfsMaxName)).map fun i => asciiChar (m.rd16 (src + i * 2))).takeWhile
    (· != 0)

def fnNameLen (m : Mem) (fn : Nat) : Nat := (m (fn + 0x40)).toNat
def fnNamespace (m : Mem) (fn : Nat) : Nat := (m (fn + 0x41)).toNat
def fnRealSize (m : Mem) (fn : Nat) : Nat := m.rd64 (fn + 0x30)
def fnIsDir (m : Mem) (fn : Nat) : Bool := m.rd32 (fn + 0x38) &&& fileAttrDirectory != 0

/-- What the entry at `e` is reported as: nothing when its key is no `$FILE_NAME`, for a
DOS name, an empty name and `.`. -/
def entryInfo (m : Mem) (stop e : Nat) : Option FileInfo :=
  let fn := e + 0x10
  if keyLen m e < 0x42 ∨ stop < fn + keyLen m e then none
  else if fnNamespace m fn = 2 ∨ fnNameLen m fn = 0 then none
  else
    let name := utf16ToAscii m (fn + 0x42) (fnNameLen m fn)
    if name = [0x2E] then none
    else some
      { mftRecord := entryRef m e
        isDir := fnIsDir m fn
        size := if fnIsDir m fn then 0 else fnRealSize m fn
        name := name }

/-- The loop of `ntfs_walk_index_entries`. -/
def walkIndexEntries (m : Mem) (stop : Nat) : Nat → Nat → List FileInfo
  | 0, _ => []
  | fuel + 1, e =>
      if stop < e + 0x10 ∨ entryLen m e < 0x10 ∨ isEndEntry m e then []
      else (entryInfo m stop e).toList ++ walkIndexEntries m stop fuel (e + entryLen m e)

section Driver

variable (v : Volume) (env : Env)

/-- The entries of the `$INDEX_ROOT`, up to the end of its content at most. -/
def listIndexRoot (m : Mem) : Option (List FileInfo) :=
  (findIndexRoot v m).map fun
    | none => []
    | some a =>
        if attrIsNonresident m a ∨ contentLen m a < 0x20 then []
        else
          let stop := min (indexNode m a + totalUsed m a) (attrResidentData m a + contentLen m a)
          walkIndexEntries m stop (stop + 1) (firstEntry m a)

def findIndexAllocation (m : Mem) : Option (Option Nat) :=
  (ntfsFindAttr v m attrIndexAllocation 0 true).bind fun
    | some a => some (some a)
    | none => ntfsFindAttr v m attrIndexAllocation 0 false

/-- The signature `INDX`. -/
def IsIndx (m : Mem) : Prop := m 0 = 0x49 ∧ m 1 = 0x4E ∧ m 2 = 0x44 ∧ m 3 = 0x58

instance (m : Mem) : Decidable (IsIndx m) := inferInstanceAs (Decidable (_ ∧ _))

/-- The loop over the blocks of the `$INDEX_ALLOCATION` at `a`, from byte `pos` on. -/
def listBlocksLoop (m : Mem) (a irs total : Nat) :
    Nat → Nat → Mem → Sys → Option (List FileInfo × Sys)
  | 0, _, _, _ => none
  | fuel + 1, pos, blk, s =>
      if total < (pos + irs) % 2 ^ 64 then some ([], s)
      else
        (ntfsReadNonresident v env m a pos blk irs s).bind fun (n, blk, s) =>
          if n ≠ irs then some ([], s)
          else if ¬IsIndx blk then listBlocksLoop m a irs total fuel ((pos + irs) % 2 ^ 64) blk s
          else
            (ntfsApplyFixups v.bytesPerSector blk irs (blk.rd16 0x04) (blk.rd16 0x06)).bind
              fun (_, blk) =>
                let stop := min (0x18 + blk.rd32 0x1C) irs
                let infos := walkIndexEntries blk stop (stop + 1) (0x18 + blk.rd32 0x18)
                (listBlocksLoop m a irs total fuel ((pos + irs) % 2 ^ 64) blk s).map
                  fun (rest, s) => (infos ++ rest, s)

def listIndexAllocation (m : Mem) (s : Sys) : Option (List FileInfo × Sys) :=
  (findIndexAllocation v m).bind fun
    | none => some ([], s)
    | some a =>
        if ¬attrIsNonresident m a then some ([], s)
        else
          let irs := if v.indexRecordSize ≠ 0 then v.indexRecordSize else v.bytesPerCluster
          let total := attrNonresidentSize m a
          match kmalloc env s with
          | (none, s) => some ([], s)
          | (some blk, s) =>
              if irs = 0 then some ([], s)
              else listBlocksLoop v env m a irs total (total / irs + 2) 0 blk s

def ntfsListDir (dir : Nat) (s : Sys) : Option (List FileInfo × Sys) :=
  if ¬v.mounted then some ([], s)
  else (loadRecord v env dir s).bind fun
    | (none, s) => some ([], s)
    | (some m, s) =>
        (listIndexRoot v m).bind fun infos =>
          (listIndexAllocation v env m s).map fun (rest, s) => (infos ++ rest, s)

/-! ## Paths -/

def nlower (c : UInt8) : UInt8 := if 0x41 ≤ c ∧ c ≤ 0x5A then c + 32 else c

/-- `nieq`, the comparison of two C strings without regard to case. -/
def nieq (a b : List UInt8) : Bool := a.map nlower == b.map nlower

def isSlash (c : UInt8) : Bool := c == 0x5C || c == 0x2F

/-- The loop of `ntfs_fill_info` over the `$FILE_NAME`s, with the best score so far. -/
def fillNameLoop (m : Mem) : Nat → Nat → Int → List UInt8 → Option (List UInt8)
  | 0, _, _, name => some name
  | left + 1, which, best, name =>
      (ntfsFindAttr v m attrFileName which false).bind fun
        | none => some name
        | some a =>
            let fn := attrResidentData m a
            if attrIsNonresident m a ∨ contentLen m a < 0x42 then
              fillNameLoop m left (which + 1) best name
            else
              let ns := fnNamespace m fn
              let score : Int := if ns = 1 ∨ ns = 3 then 3 else if ns = 2 then 2 else 1
              if best < score then
                fillNameLoop m left (which + 1) score
                  (utf16ToAscii m (fn + 0x42) (fnNameLen m fn))
              else fillNameLoop m left (which + 1) best name

def ntfsFillInfo (m : Mem) (no : Nat) : Option FileInfo :=
  (fillNameLoop v m 8 0 (-1) []).bind fun name =>
    (ntfsFindAttr v m attrData 0 false).map fun da =>
      { mftRecord := no
        isDir := mftFlags m &&& mftFlagDirectory != 0
        size := match da with
          | none => 0
          | some a => if attrIsNonresident m a then attrNonresidentSize m a else contentLen m a
        name := name }

/-- `cur_info` before the first component. -/
def rootInfo (s : Sys) : Option (FileInfo × Sys) :=
  let minimal : FileInfo := ⟨ntfsMftRoot, true, 0, [0x5C]⟩
  (loadRecord v env ntfsMftRoot s).bind fun
    | (none, s) => some (minimal, s)
    | (some m, s) =>
        (ntfsFillInfo v m ntfsMftRoot).map fun info =>
          ({ info with isDir := true, name := [0x5C] }, s)

/-- The loop over the components of the path, `cur` being the last one found. Every turn
consumes a character. -/
def resolveLoop : Nat → List UInt8 → FileInfo → Sys → Option (Option FileInfo × Sys)
  | 0, _, _, _ => none
  | fuel + 1, p, cur, s =>
      if p = [] then some (some cur, s)
      else
        let comp := (p.takeWhile fun c => !isSlash c).take ntfsMaxName
        let rest := (p.drop comp.length).dropWhile isSlash
        if comp = [] then resolveLoop fuel rest cur s
        else
          (ntfsListDir v env cur.mftRecord s).bind fun (infos, s) =>
            match infos.find? fun info => nieq info.name comp with
            | none => some (none, s)
            | some hit => resolveLoop fuel rest hit s

def ntfsResolvePath (path : List UInt8) (s : Sys) : Option (Option FileInfo × Sys) :=
  if ¬v.mounted then some (none, s)
  else (rootInfo v env s).bind fun (root, s) =>
    resolveLoop v env (path.length + 1) (path.dropWhile isSlash) root s

end Driver

end MeuOS.Ntfs
