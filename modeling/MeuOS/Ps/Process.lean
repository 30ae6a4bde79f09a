import MeuOS.Mm.Heap
import MeuOS.Ob.Object

/-! Processes, threads and the two ways to find one by its id: the `PspCidTable`, and the
enumeration of the object manager's list. An object is known by the address of its body. -/
namespace MeuOS.Ps

open MeuOS.Ob (objectHeader maxObjects)

def obTypeProcess : Nat := 5
def obTypeThread : Nat := 6

/-- `CID_MAX_ENTRIES`. -/
def cidMaxEntries : Nat := 1024

def statusSuccess : Nat := 0
def statusObjectNameNotFound : Nat := 0xC0000034

/-- `EPROCESS`; 0 for no thread. -/
structure Eprocess where
  processId : Nat
  threadCount : Nat
  activeThreads : Nat
  exitStatus : Nat
  terminated : Bool
  thread : Nat

/-- `ETHREAD`; 0 for no process. -/
structure Ethread where
  threadId : Nat
  process : Nat
  exitStatus : Nat
  terminated : Bool

/-- `CID_ENTRY`; a free one has id 0. -/
structure CidEntry where
  cid : Nat
  isThread : Bool
  object : Nat

structure PsState where
  /-- The type in the header of an object. -/
  objType : Nat → Nat
  sAll : List Nat
  process : Nat → Eprocess
  thread : Nat → Ethread
  cidEntries : Nat → CidEntry
  handleCount : Nat
  sNextPid : Nat
  sNextTid : Nat
  /-- The counter of `PsCreateSystemThread`. -/
  sTid : Nat
  /-- The system threads whose routine has not returned. -/
  running : List Nat

/-! ## `PspCidTable` -/

inductive CidKind
  | process
  | thread
deriving DecidableEq

def CidKind.isThread : CidKind → Bool
  | .process => false
  | .thread => true

def CidKind.obType : CidKind → Nat
  | .process => obTypeProcess
  | .thread => obTypeThread

/-- `ProcessId` or `ThreadId`. -/
def PsState.clientId (s : PsState) : CidKind → Nat → Nat
  | .process, body => (s.process body).processId
  | .thread, body => (s.thread body).threadId

def cidFindFree (s : PsState) : Option Nat :=
  (List.range cidMaxEntries).find? fun i => (s.cidEntries i).cid == 0

def cidFindEntry (s : PsState) (cid : Nat) (k : CidKind) : Option Nat :=
  if cid = 0 then none
  else (List.range cidMaxEntries).find? fun i =>
    (s.cidEntries i).cid == cid && (s.cidEntries i).isThread == k.isThread

def cidInsert (k : CidKind) (s : PsState) (body : Nat) : Nat × PsState :=
  if body = 0 ∨ s.clientId k body = 0 then (0, s)
  else
    match (cidFindEntry s (s.clientId k body) k).or (cidFindFree s) with
    | none => (0, s)
    | some i =>
        (1, { s with
          cidEntries := Function.update s.cidEntries i ⟨s.clientId k body, k.isThread, body⟩
          handleCount := s.handleCount + 1 })

def cidLookup (k : CidKind) (s : PsState) (cid : Nat) : Nat :=
  match cidFindEntry s cid k with
  | none => 0
  | some i => (s.cidEntries i).object

def cidRemove (k : CidKind) (s : PsState) (cid : Nat) : PsState :=
  match cidFindEntry s cid k with
  | none => s
  | some i =>
      { s with
        cidEntries := Function.update s.cidEntries i ⟨0, false, 0⟩
        handleCount := s.handleCount - 1 }

def cidInsertProcess : PsState → Nat → Nat × PsState := cidInsert .process
def cidInsertThread : PsState → Nat → Nat × PsState := cidInsert .thread
def cidLookupProcess : PsState → Nat → Nat := cidLookup .process
def cidLookupThread : PsState → Nat → Nat := cidLookup .thread
def cidRemoveProcess : PsState → Nat → PsState := cidRemove .process
def cidRemoveThread : PsState → Nat → PsState := cidRemove .thread

/-! ## The list of all objects -/

/-- `ObCreateObject` without a name, with `kmalloc`'s answer as an argument. -/
def obCreateObject (s : PsState) (hdr type : Nat) : PsState × Nat :=
  if hdr = 0 then (s, 0)
  else
    let body := hdr + objectHeader
    ({ s with
      objType := Function.update s.objType body type
      sAll := if s.sAll.length < maxObjects then s.sAll ++ [body] else s.sAll }, body)

/-- The walk of `ob_enum_by_type` with `seen` objects of the type behind it. -/
def enumLoop (objType : Nat → Nat) (type index : Nat) : List Nat → Nat → Nat
  | [], _ => 0
  | body :: rest, seen =>
      if body = 0 ∨ objType body ≠ type then enumLoop objType type index rest seen
      else if seen = index then body
      else enumLoop objType type index rest (seen + 1)

def obEnumByType (s : PsState) (type index : Nat) : Nat := enumLoop s.objType type index s.sAll 0

/-! ## Creation and termination -/

def psCreateProcess (s : PsState) (hdr : Nat) : PsState × Nat :=
  let r := obCreateObject s hdr obTypeProcess
  if r.2 = 0 then (s, 0)
  else
    let s := r.1
    let p : Eprocess :=
      { processId := s.sNextPid
        threadCount := 0
        activeThreads := 0
        exitStatus := 0
        terminated := false
        thread := 0 }
    let s := { s with
      sNextPid := (s.sNextPid + 1) % 2 ^ 32
      process := Function.update s.process r.2 p }
    ((cidInsertProcess s r.2).2, r.2)

/-- A thread counts for its process, and its first one is the main thread. -/
def countThread (s : PsState) (proc t : Nat) : PsState :=
  if proc = 0 then s
  else
    let p := s.process proc
    { s with
      process := Function.update s.process proc { p with
        threadCount := (p.threadCount + 1) % 2 ^ 32
        activeThreads := (p.activeThreads + 1) % 2 ^ 32
        thread := if p.thread = 0 then t else p.thread } }

def psCreateThread (s : PsState) (hdr proc : Nat) : PsState × Nat :=
  let r := obCreateObject s hdr obTypeThread
  if r.2 = 0 then (s, 0)
  else
    let s := r.1
    let t : Ethread :=
      { threadId := s.sNextTid
        process := proc
        exitStatus := 0
        terminated := false }
    let s := { s with
      sNextTid := (s.sNextTid + 1) % 2 ^ 32
      thread := Function.update s.thread r.2 t }
    ((cidInsertThread (countThread s proc r.2) r.2).2, r.2)

/-- The main thread ends with its process. -/
def terminateThread (s : PsState) (t status : Nat) : PsState :=
  if t = 0 then s
  else
    let s := { s with
      thread := Function.update s.thread t
        { s.thread t with terminated := true, exitStatus := status } }
    cidRemoveThread s (s.thread t).threadId

def psTerminateProcess (s : PsState) (proc status : Nat) : PsState :=
  if proc = 0 then s
  else
    let s := { s with
      process := Function.update s.process proc
        { s.process proc with terminated := true, exitStatus := status } }
    let s := terminateThread s (s.process proc).thread status
    let p := s.process proc
    let s := { s with
      process := Function.update s.process proc { p with activeThreads := p.activeThreads - 1 } }
    cidRemoveProcess s (s.process proc).processId

/-! ## Lookup -/

/-- The object of an enumeration, from index `i` on, that has the id; `fuel` bounds how many
are looked at. -/
def lookupLoop (enum idOf : Nat → Nat) (cid : Nat) : Nat → Nat → Nat
  | 0, _ => 0
  | fuel + 1, i =>
      if enum i = 0 then 0
      else if idOf (enum i) = cid then enum i
      else lookupLoop enum idOf cid fuel (i + 1)

/-- The compatible way: no list is longer than `MAX_OBJECTS`. -/
def enumLookup (k : CidKind) (s : PsState) (cid : Nat) : Nat :=
  lookupLoop (obEnumByType s k.obType) (s.clientId k) cid (maxObjects + 1) 0

/-- Status and object. A handle names the id in its low 32 bits. -/
def psLookup (k : CidKind) (s : PsState) (handle : Nat) : Nat × Nat :=
  let cid := handle % 2 ^ 32
  let hit := cidLookup k s cid
  if hit ≠ 0 then (statusSuccess, hit)
  else
    let found := enumLookup k s cid
    if found ≠ 0 then (statusSuccess, found) else (statusObjectNameNotFound, 0)

def psLookupProcessByProcessId : PsState → Nat → Nat × Nat := psLookup .process
def psLookupThreadByThreadId : PsState → Nat → Nat × Nat := psLookup .thread

end MeuOS.Ps
