import MeuOS.Ke.ThreadHandles
import MeuOS.Lpc.Pipe
import MeuOS.Mm.SectionRuns

/-! The services that return a handle. Each is a chain: an object is found or made, a driver or
a child may run, and the object gets a handle. -/
namespace MeuOS.Syscall

open MeuOS.Lib MeuOS.Ob
open MeuOS.Ke (ThreadSys)
open MeuOS.Lpc (Pipe newPipe pipeOpened)
open MeuOS.Mm (Section SecOp secStep)
open MeuOS.Ps (PsState psCreateProcess psCreateThread)

def obTypeDevice : UInt32 := 2
def obTypeFile : UInt32 := 4
def obTypeProcess : UInt32 := 5
def obTypeThread : UInt32 := 6
def obTypePipe : UInt32 := 8

def fileObjectSize : Nat := 40
def pipeObjectSize : Nat := 4184
def eprocessSize : Nat := 0x800

def statusSuccess : Nat := 0
def statusUnsuccessful : Nat := 0xC0000001
def statusObjectNameNotFound : Nat := 0xC0000034

/-- `FILE_OBJECT`; 0 for a null pointer. -/
structure FileObject where
  deviceObject : Nat
  pipeObject : Nat
  fsContext : Nat
  currentByteOffset : Nat
  isDirectory : Bool

/-- The object manager is the one of `threads`; the bodies of pipes, sections and files are
records by their address. -/
structure Services where
  threads : ThreadSys
  sections : Nat → Section
  pipes : Nat → Pipe
  files : Nat → FileObject
  ps : PsState
  /-- What `ntfs_fs_set_target` set. -/
  target : Nat × Bool
  /-- The objects so far as their creators see them, the oldest first; the code has no such list. -/
  created : List Created

def Services.ob (s : Services) : ObState := s.threads.ob

def Services.setOb (s : Services) (ob : ObState) : Services := { s with threads := { s.threads with ob } }

@[simp] theorem ob_setOb (s : Services) (ob : ObState) : (s.setOb ob).ob = ob := rfl

def obTypeOf (s : ObState) (body : Nat) : Nat := if body ≠ 0 then objType s.mem body else 0

/-- The status in `rax`, and the handle, which is stored through `out` unless that is null. -/
structure Reply where
  status : Nat
  handle : Nat

/-! ## Names -/

def startsWithCi (s pre : List UInt8) : Bool := sameName (s.take pre.length) pre

def isPipeName (name : CString) : Bool :=
  startsWithCi name.chars (ascii "\\\\.\\pipe\\") || startsWithCi name.chars (ascii "\\Pipe\\") ||
    startsWithCi name.chars (ascii "\\Device\\NamedPipe\\")

/-- `pipe_normalize_name` into a buffer of 64. -/
def pipeNormalizeName (name : CString) : CString where
  chars :=
    let tail :=
      if startsWithCi name.chars (ascii "\\\\.\\pipe\\") then name.chars.drop 9
      else if startsWithCi name.chars (ascii "\\Device\\NamedPipe\\") then name.chars.drop 18
      else if startsWithCi name.chars (ascii "\\Pipe\\") then name.chars.drop 6
      else name.chars
    (ascii "\\Pipe\\" ++ tail).take 63
  terminated := by
    intro h
    rcases List.mem_append.1 (List.mem_of_mem_take h) with h | h
    · exact absurd h (by decide)
    · split at h
      · exact name.terminated (List.mem_of_mem_drop h)
      · split at h
        · exact name.terminated (List.mem_of_mem_drop h)
        · split at h
          · exact name.terminated (List.mem_of_mem_drop h)
          · exact name.terminated h

/-! ## The services -/

/-- A new object and the state it is in; `hdr` is what `kmalloc` answers. -/
def newObject (s : Services) (hdr : Nat) (type : UInt32) (bodySize : Nat) (name : Option CString) :
    Services × Nat :=
  let r := obCreateObject s.ob hdr type.toNat bodySize (name.map CString.chars)
  ({ s.setOb r.1 with
      created := if r.2 = 0 then s.created else s.created ++ [⟨r.2, type, name⟩] }, r.2)

def newFile (s : Services) (hdr : Nat) : Services × Nat := newObject s hdr obTypeFile fileObjectSize none

def setFile (s : Services) (body : Nat) (f : FileObject) : Services :=
  { s with files := Function.update s.files body f }

/-- How every service ends that got so far. -/
def giveHandle (s : Services) (body : Nat) : Reply × Services :=
  let h := obCreateHandle s.ob body
  (⟨statusSuccess, h.2⟩, s.setOb h.1)

/-- The pipe of that name, or 0. -/
def pipeOpen (s : Services) (name : CString) : Services × Nat :=
  let pipe := obLookupObject s.ob (pipeNormalizeName name)
  if pipe = 0 ∨ obTypeOf s.ob pipe ≠ obTypePipe.toNat then (s, 0)
  else ({ s with pipes := Function.update s.pipes pipe (pipeOpened (s.pipes pipe)) }, pipe)

/-- `volume` is none when the name is no path on the volume, else what `ntfs_resolve_path`
finds there; `driver` is what the call of the driver does. -/
def sysCreateFile (s : Services) (hdr : Nat) (driver : Services → Services)
    (volume : Option (Option (Nat × Bool))) (volumeDevice : Nat) (name : CString) :
    Reply × Services :=
  match volume with
  | some none => (⟨statusObjectNameNotFound, 0⟩, s)
  | some (some info) =>
      let r := newFile s hdr
      if r.2 = 0 ∨ volumeDevice = 0 then (⟨statusUnsuccessful, 0⟩, r.1)
      else
        let s := setFile r.1 r.2 ⟨volumeDevice, 0, info.1, 0, info.2⟩
        giveHandle (driver { s with target := info }) r.2
  | none =>
      if isPipeName name then
        let p := pipeOpen s name
        if p.2 = 0 then (⟨statusUnsuccessful, 0⟩, p.1)
        else
          let r := newFile p.1 hdr
          if r.2 = 0 then (⟨statusUnsuccessful, 0⟩, r.1)
          else giveHandle (setFile r.1 r.2 ⟨0, p.2, 0, 0, false⟩) r.2
      else
        let dev := obLookupObject s.ob name
        if dev = 0 ∨ obTypeOf s.ob dev ≠ obTypeDevice.toNat then (⟨statusUnsuccessful, 0⟩, s)
        else
          let r := newFile s hdr
          if r.2 = 0 then (⟨statusUnsuccessful, 0⟩, r.1)
          else giveHandle (driver (setFile r.1 r.2 ⟨dev, 0, 0, 0, false⟩)) r.2

/-- `child` is what running the image of the child does. -/
def sysCreateProcess (s : Services) (hdr : Nat) (child : Services → Services) : Reply × Services :=
  let r := newObject s hdr obTypeProcess eprocessSize none
  if r.2 = 0 then (⟨statusUnsuccessful, 0⟩, r.1)
  else
    let g := giveHandle { r.1 with ps := (psCreateProcess s.ps hdr).1 } r.2
    (g.1, child g.2)

def sysCreateThread (s : Services) (hproc start hdr kt : Nat) : Reply × Services :=
  let r := Ke.sysCreateThread s.threads hproc start hdr kt
  (⟨r.1, r.2.1⟩,
    { s with
      threads := r.2.2.2
      ps := if r.1 = statusSuccess then
          (psCreateThread s.ps hdr (Ke.threadProcess s.threads hproc)).1
        else s.ps
      created := if r.2.2.1 = 0 then s.created
        else s.created ++ [⟨r.2.2.1, obTypeThread, none⟩] })

/-- The object of `pipe_create`, or 0. -/
def pipeCreate (s : Services) (hdr : Nat) (name : CString) : Services × Nat :=
  let full := pipeNormalizeName name
  if obLookupObject s.ob full ≠ 0 then (s, 0)
  else
    let r := newObject s hdr obTypePipe pipeObjectSize (some full)
    if r.2 = 0 then (r.1, 0)
    else ({ r.1 with pipes := Function.update r.1.pipes r.2 (newPipe full.chars) }, r.2)

def sysCreateNamedPipe (s : Services) (hdrPipe hdrFile : Nat) (name : CString) : Reply × Services :=
  let p := pipeCreate s hdrPipe name
  if p.2 = 0 then (⟨statusUnsuccessful, 0⟩, p.1)
  else
    let r := newFile p.1 hdrFile
    if r.2 = 0 then (⟨statusUnsuccessful, 0⟩, r.1)
    else giveHandle (setFile r.1 r.2 ⟨0, p.2, 0, 0, false⟩) r.2

/-- The services of `section.c` on the state here. -/
def onSections (s : Services) (op : SecOp) : Reply × Services :=
  let r := secStep ⟨⟨s.ob, s.sections⟩, s.created, []⟩ op
  (⟨r.2.status, r.2.sectionHandle.getD 0⟩,
    { s.setOb r.1.st.ob with sections := r.1.st.sections, created := r.1.created })

end MeuOS.Syscall
