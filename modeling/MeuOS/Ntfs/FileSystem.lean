import MeuOS.Ntfs.Listing

/-! The file system device. The volume keeps one context, the last directory that was
targeted and the index of the next entry to deliver, and every handle enumerates through it. -/
namespace MeuOS.Ntfs

open MeuOS.Lib

def statusSuccess : Nat := 0
def statusUnsuccessful : Nat := 0xC0000001
def statusNoMoreFiles : Nat := 0x80000006
def statusObjectNameNotFound : Nat := 0xC0000034

/-- `sizeof(NTFS_DIR_ENTRY_OUT)`. -/
def dirEntryOut : Nat := 280
def maxHandles : Nat := 256

/-- `NTFS_VOLUME_EXT`. -/
structure VolumeExt where
  curFileRecord : Nat
  curReadOffset : Nat
  dirIndex : Nat
  dirRecord : Nat

/-- The context `FsMountVolume` leaves. -/
def mountedExt : VolumeExt := ⟨0, 0, 0, ntfsMftRoot⟩

/-- The fields of a `FILE_OBJECT` on the volume. -/
structure FileObject where
  fsContext : Nat
  isDirectory : Bool

structure FsState where
  sys : Sys
  ext : VolumeExt
  /-- The slots of the handle table that hold a file of the volume. -/
  handles : Nat → Option FileObject

def ntfsFsSetTarget (ext : VolumeExt) (mftRecord : Nat) (isDir : Bool) : VolumeExt :=
  if isDir then
    if ext.dirRecord ≠ mftRecord then { ext with dirRecord := mftRecord, dirIndex := 0 } else ext
  else { ext with curFileRecord := mftRecord, curReadOffset := 0 }

/-- `IRP_MJ_CREATE`. -/
def ntfsCreate (ext : VolumeExt) : VolumeExt :=
  { ext with
    curReadOffset := 0
    dirIndex := 0
    dirRecord := if ext.dirRecord = 0 then ntfsMftRoot else ext.dirRecord }

/-- What a query says: its status, the entry it delivers, and the entries the callback was
shown on the way. -/
structure Answer where
  status : Nat
  entry : Option FileInfo
  listed : List FileInfo
deriving DecidableEq

/-- What an open says: its status, the file it opened, and whether the driver was told. -/
structure Opened where
  status : Nat
  target : Option FileInfo
  created : Bool
deriving DecidableEq

section Driver

variable (v : Volume) (env : Env)

/-- Whether an allocation succeeds. -/
def allocates (s : Sys) : Bool × Sys := ((kmalloc env s).1.isSome, (kmalloc env s).2)

/-- `IRP_MJ_DIRECTORY_CONTROL`. `dir_pick_cb` keeps the entry whose index is the cursor. -/
def ntfsDirectoryControl (ext : VolumeExt) (systemBuffer : Bool) (outLen : Nat) (s : Sys) :
    Option (Answer × VolumeExt × Sys) :=
  let dir := if ext.dirRecord = 0 then ntfsMftRoot else ext.dirRecord
  if ¬systemBuffer ∨ outLen < dirEntryOut then some (⟨statusUnsuccessful, none, []⟩, ext, s)
  else
    (ntfsListDir v env dir s).map fun (infos, s) =>
      match infos[ext.dirIndex]? with
      | none => (⟨statusNoMoreFiles, none, infos⟩, ext, s)
      | some hit => (⟨statusSuccess, some hit, infos⟩, { ext with dirIndex := ext.dirIndex + 1 }, s)

/-- `io_build_read`: no IRP, or one that has its system buffer or not. -/
def ioBuildRead (len : Nat) (s : Sys) : Option Bool × Sys :=
  match allocates env s with
  | (false, s) => (none, s)
  | (true, s) =>
      if len = 0 then (some false, s)
      else match allocates env s with
        | (buffer, s) => (some buffer, s)

/-- `ntfs_volume_subpath`: the path on the volume, for a name on it. -/
def ntfsVolumeSubpath (name : List UInt8) : Option (List UInt8) :=
  let device := "\\Device\\Harddisk0\\Partition1".toList.map fun c => UInt8.ofNat c.toNat
  let rest :=
    if (name.head? = some 0x43 ∨ name.head? = some 0x63) ∧ name[1]? = some 0x3A then some (name.drop 2)
    else if (name.take device.length).map nlower = device.map nlower then
      some (name.drop device.length)
    else none
  rest.map fun rest =>
    let full := if (rest.head?.map isSlash).getD false then rest else 0x5C :: rest
    (full.take 259).map fun c => if c = 0x2F then 0x5C else c

/-- The first free slot of the handle table. -/
def freeHandle (handles : Nat → Option FileObject) : Option Nat :=
  (List.range' 1 (maxHandles - 1)).find? fun i => (handles i).isNone

/-- The branch of `NtCreateFile` for a name on the volume. -/
def sysCreateFile (path : List UInt8) (s : FsState) : Option (Opened × FsState) :=
  (ntfsResolvePath v env path s.sys).map fun
    | (none, sys) => (⟨statusObjectNameNotFound, none, false⟩, { s with sys := sys })
    | (some info, sys) =>
        match allocates env sys with
        | (false, sys) => (⟨statusUnsuccessful, none, false⟩, { s with sys := sys })
        | (true, sys) =>
            let ext := ntfsFsSetTarget s.ext info.mftRecord info.isDir
            let file : FileObject := ⟨info.mftRecord, info.isDir⟩
            let handles := match freeHandle s.handles with
              | none => s.handles
              | some i => Function.update s.handles i (some file)
            match allocates env sys with
            | (irp, sys) =>
                (⟨statusSuccess, some info, irp⟩, ⟨sys, if irp then ntfsCreate ext else ext, handles⟩)

/-- `NtQueryDirectoryFile` on slot `h`; `outB` says whether the caller gave a buffer. -/
def sysQueryDirectoryFile (h : Nat) (outB : Bool) (outLen : Nat) (s : FsState) :
    Option (Answer × FsState) :=
  match s.handles h with
  | none => some (⟨statusUnsuccessful, none, []⟩, s)
  | some file =>
      if ¬outB then some (⟨statusUnsuccessful, none, []⟩, s)
      else
        let ext := ntfsFsSetTarget s.ext file.fsContext true
        match ioBuildRead env outLen s.sys with
        | (none, sys) => some (⟨statusUnsuccessful, none, []⟩, { s with sys := sys, ext := ext })
        | (some buffer, sys) =>
            (ntfsDirectoryControl v env ext buffer outLen sys).map fun (answer, ext, sys) =>
              (answer, { s with sys := sys, ext := ext })

end Driver

end MeuOS.Ntfs
