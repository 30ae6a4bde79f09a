import MeuOS.Mm.HeapRuns
import MeuOS.Ob.Object

/-! The registry: keys and values are raw `kmalloc` blocks linked through the memory
the heap manages, and a key handle is whatever the object manager makes of the address
of a key. Nothing puts an `OBJECT_HEADER` in front of a key. -/
namespace MeuOS.Cm

open MeuOS.Lib MeuOS.Mm MeuOS.Ob

def maxName : Nat := 64

/-- `sizeof(REG_KEY)`: `{ name[64], parent, children, sibling, values }`. -/
def regKeySize : Nat := 96

/-- `sizeof(REG_VALUE)`: `{ name[64], type, size, data, next }`. -/
def regValueSize : Nat := 88

def parentAt (k : Nat) : Nat := k + 64
def childrenAt (k : Nat) : Nat := k + 72
def siblingAt (k : Nat) : Nat := k + 80
def valuesAt (k : Nat) : Nat := k + 88

def valueTypeAt (v : Nat) : Nat := v + 64
def sizeAt (v : Nat) : Nat := v + 68
def dataAt (v : Nat) : Nat := v + 72
def nextAt (v : Nat) : Nat := v + 80

def obTypeRegkey : Nat := 10

def statusSuccess : Nat := 0
def statusUnsuccessful : Nat := 0xC0000001
def statusInvalidHandle : Nat := 0xC0000008
def statusInvalidParameter : Nat := 0xC000000D
def statusNoMemory : Nat := 0xC0000017
def statusBufferTooSmall : Nat := 0xC0000023
def statusObjectNameNotFound : Nat := 0xC0000034

/-- The object manager, the heap below it and `s_root`, over one memory. -/
structure RegState where
  ob : ObState
  sHead : Nat
  sRoot : Nat

def RegState.mem (s : RegState) : Mem := s.ob.mem
def RegState.heap (s : RegState) : Heap := ⟨s.ob.mem, s.sHead⟩
def RegState.setMem (s : RegState) (m : Mem) : RegState := { s with ob := { s.ob with mem := m } }
def RegState.setHeap (s : RegState) (h : Heap) : RegState :=
  { s.setMem h.mem with sHead := h.sHead }

def regKmalloc (s : RegState) (n : Nat) : Option (RegState × Nat) :=
  (kmalloc s.heap n).map fun r => (s.setHeap r.1, r.2)

def regKfree (s : RegState) (p : Nat) : Option RegState := (kfree s.heap p).map s.setHeap

/-! ## Names -/

/-- A C string held by the caller, up to its terminator. -/
def cstr (bytes : List UInt8) : List UInt8 := bytes.takeWhile (· ≠ 0)

def toLower (c : UInt8) : UInt8 := if 65 ≤ c ∧ c ≤ 90 then c + 32 else c

/-- `strcmpci` between a name in memory and a string of the caller. -/
def strcmpci (m : Mem) (a : Nat) : List UInt8 → Nat
  | [] => if m a = 0 then 0 else 1
  | c :: cs => if m a = 0 ∨ toLower (m a) ≠ toLower c then 1 else strcmpci m (a + 1) cs

def strcpyn (m : Mem) (dst : Nat) (src : List UInt8) (max : Nat) : Mem :=
  let copied := src.take (max - 1)
  (m.blit dst copied.length fun i => copied.getD i 0).put (dst + copied.length) 0

structure UnicodeString where
  length : Nat
  buffer : Option (Nat → UInt16)

structure ObjectAttributes where
  rootDirectory : Nat
  objectName : Option UnicodeString

def uniToAscii (u : Option UnicodeString) (max : Nat) : List UInt8 :=
  match u.bind fun u => u.buffer.map fun b => (u.length / 2, b) with
  | some (n, b) => cstr ((List.range (min n (max - 1))).map fun i => (b i).toUInt8)
  | none => []

/-! ## Keys -/

/-- The search of `reg_find_child` and `reg_find_value`: both records start with their
name and are linked through one field. `none` only when the fuel ends first. -/
def findByName (m : Mem) (linkAt : Nat → Nat) (name : List UInt8) : Nat → Nat → Option Nat
  | 0, _ => none
  | fuel + 1, p =>
      if p = 0 then some 0
      else if strcmpci m p name = 0 then some p
      else findByName m linkAt name fuel (m.rd64 (linkAt p))

def regFindChild (m : Mem) (k : Nat) (name : List UInt8) : Option Nat :=
  findByName m siblingAt name heapSize (m.rd64 (childrenAt k))

def regFindValue (m : Mem) (k : Nat) (name : List UInt8) : Option Nat :=
  findByName m nextAt name heapSize (m.rd64 (valuesAt k))

/-- The fields `reg_alloc_key` fills in. -/
def writeKey (m : Mem) (k : Nat) (name : List UInt8) (parent : Nat) : Mem :=
  let m := strcpyn m k name maxName
  let m := m.write (parentAt k) 8 parent
  let m := m.write (childrenAt k) 8 0
  let m := m.write (siblingAt k) 8 0
  m.write (valuesAt k) 8 0

def regAllocKey (s : RegState) (name : List UInt8) (parent : Nat) : Option (RegState × Nat) :=
  (regKmalloc s regKeySize).map fun (s, k) =>
    if k = 0 then (s, 0) else (s.setMem (writeKey s.mem k name parent), k)

/-- `c` becomes the first child of `k`. -/
def linkChild (m : Mem) (k c : Nat) : Mem :=
  (m.write (siblingAt c) 8 (m.rd64 (childrenAt k))).write (childrenAt k) 8 c

def regGetOrCreateChild (s : RegState) (k : Nat) (name : List UInt8) : Option (RegState × Nat) :=
  (regFindChild s.mem k name).bind fun c =>
    if c ≠ 0 then some (s, c)
    else (regAllocKey s name k).map fun (s, c) =>
      if c = 0 then (s, 0) else (s.setMem (linkChild s.mem k c), c)

def isSeparator (c : UInt8) : Bool := c = 92 || c = 47

/-- One component of a path: at most 63 characters, up to the next separator. -/
def component (path : List UInt8) : List UInt8 :=
  (path.take (maxName - 1)).takeWhile fun c => !isSeparator c

def nextKey (s : RegState) (k : Nat) (name : List UInt8) (create : Bool) :
    Option (RegState × Nat) :=
  if create then regGetOrCreateChild s k name else (regFindChild s.mem k name).map fun c => (s, c)

/-- The walk of `reg_resolve_path`; every turn consumes a character. -/
def resolveLoop (create : Bool) : Nat → RegState → Nat → List UInt8 → Option (RegState × Nat)
  | _, s, k, [] => some (s, k)
  | 0, _, _, _ :: _ => none
  | fuel + 1, s, k, c :: cs =>
      if isSeparator c then resolveLoop create fuel s k cs
      else
        let name := component (c :: cs)
        (nextKey s k name create).bind fun (s, nxt) =>
          if nxt = 0 then some (s, 0)
          else resolveLoop create fuel s nxt ((c :: cs).drop name.length)

def regResolvePath (s : RegState) (base : Nat) (path : List UInt8) (create : Bool) :
    Option (RegState × Nat) :=
  let base := if base = 0 then s.sRoot else base
  if base = 0 then some (s, 0) else resolveLoop create path.length s base path

/-! ## Values -/

/-- The value `reg_set_value` writes into: an existing one without its old data, or a
new one in front of the list. -/
def valueSlot (s : RegState) (k : Nat) (name : List UInt8) : Option (RegState × Nat) :=
  (regFindValue s.mem k name).bind fun v =>
    if v ≠ 0 then
      let data := s.mem.rd64 (dataAt v)
      if data ≠ 0 then (regKfree s data).map fun s => (s, v) else some (s, v)
    else (regKmalloc s regValueSize).map fun (s, v) =>
      if v = 0 then (s, 0)
      else
        let m := strcpyn s.mem v name maxName
        let m := m.write (nextAt v) 8 (m.rd64 (valuesAt k))
        (s.setMem (m.write (valuesAt k) 8 v), v)

def regSetValue (s : RegState) (k : Nat) (name : List UInt8) (type : Nat) (data : Option Mem)
    (size : Nat) : Option (RegState × Nat) :=
  (valueSlot s k name).bind fun (s, v) =>
    if v = 0 then some (s, 0)
    else
      let s := s.setMem ((s.mem.write (valueTypeAt v) 4 type).write (sizeAt v) 4 size)
      (if size = 0 then some (s, 0) else regKmalloc s size).map fun (s, p) =>
        let m := s.mem.write (dataAt v) 8 p
        match data with
        | some bytes => (s.setMem (if p = 0 then m else m.blit p size bytes), v)
        | none => (s.setMem m, v)

/-! ## The services

The registry callbacks a driver may have registered run after the state below is
reached, and get no access to it from here. -/

/-- What a service stores through the pointers it was given. -/
structure KeyReply where
  status : Nat
  keyHandle : Option Nat := none
  disposition : Option Nat := none

/-- `RootDirectory` when it resolves to an open key, else `s_root`. -/
def baseKey (s : RegState) (oa : ObjectAttributes) : Nat :=
  if oa.rootDirectory = 0 then s.sRoot
  else
    let r := obHandleToObject s.ob oa.rootDirectory obTypeRegkey
    if r = 0 then s.sRoot else r

def pathOf (name : UnicodeString) : List UInt8 := uniToAscii (some name) 256

/-- The step both services end with: `*KeyHandle = ob_create_handle(k)`. -/
def openHandle (s : RegState) (k : Nat) : RegState × Nat :=
  let r := obCreateHandle s.ob k
  ({ s with ob := r.1 }, r.2)

def ntCreateKey (s : RegState) (keyHandle disposition : Bool) (oa : Option ObjectAttributes) :
    Option (RegState × KeyReply) :=
  match keyHandle, oa.bind fun oa => oa.objectName.map fun name => (oa, name) with
  | true, some (oa, name) =>
      (regResolvePath s (baseKey s oa) (pathOf name) false).bind fun existed =>
      (regResolvePath s (baseKey s oa) (pathOf name) true).map fun (s, k) =>
        if k = 0 then (s, { status := statusUnsuccessful })
        else
          let r := openHandle s k
          (r.1, { status := statusSuccess, keyHandle := some r.2,
                  disposition := if disposition then some (if existed.2 ≠ 0 then 2 else 1) else none })
  | _, _ => some (s, { status := statusInvalidParameter })

def ntOpenKey (s : RegState) (keyHandle : Bool) (oa : Option ObjectAttributes) :
    Option (RegState × KeyReply) :=
  match keyHandle, oa.bind fun oa => oa.objectName.map fun name => (oa, name) with
  | true, some (oa, name) =>
      (regResolvePath s (baseKey s oa) (pathOf name) false).map fun (s, k) =>
        if k = 0 then (s, { status := statusObjectNameNotFound })
        else
          let r := openHandle s k
          (r.1, { status := statusSuccess, keyHandle := some r.2 })
  | _, _ => some (s, { status := statusInvalidParameter })

def ntCloseKey (s : RegState) (h : Nat) : RegState := { s with ob := obCloseHandle s.ob h }

def ntSetValueKey (s : RegState) (h : Nat) (valueName : Option UnicodeString) (type : Nat)
    (data : Option Mem) (dataSize : Nat) : Option (RegState × Nat) :=
  let k := obHandleToObject s.ob h obTypeRegkey
  if k = 0 then some (s, statusInvalidHandle)
  else (regSetValue s k (uniToAscii valueName maxName) type data dataSize).map fun (s, v) =>
    (s, if v ≠ 0 then statusSuccess else statusNoMemory)

/-- `KVPI_LITE` as it is filled in; `data` is `none` where the copy is skipped. -/
structure KeyValuePartialInfo where
  titleIndex : Nat
  type : Nat
  dataLength : Nat
  data : Option (List UInt8)

structure QueryReply where
  status : Nat
  resultLength : Option Nat := none
  info : Option KeyValuePartialInfo := none

/-- `sizeof(KVPI_LITE) - 1 + v->size` in a `ULONG`. -/
def kvpiNeed (size : Nat) : Nat := (15 + size) % 4294967296

def ntQueryValueKey (s : RegState) (h : Nat) (valueName : Option UnicodeString) (buffer : Bool)
    (length : Nat) : Option QueryReply :=
  let k := obHandleToObject s.ob h obTypeRegkey
  if k = 0 then some { status := statusInvalidHandle }
  else (regFindValue s.mem k (uniToAscii valueName maxName)).map fun v =>
    if v = 0 then { status := statusObjectNameNotFound }
    else
      let size := s.mem.rd32 (sizeAt v)
      let p := s.mem.rd64 (dataAt v)
      if length < kvpiNeed size ∨ buffer = false then
        { status := statusBufferTooSmall, resultLength := some (kvpiNeed size) }
      else
        { status := statusSuccess, resultLength := some (kvpiNeed size)
          info := some
            { titleIndex := 0, type := s.mem.rd32 (valueTypeAt v), dataLength := size
              data := if size ≠ 0 ∧ p ≠ 0 then
                  some ((List.range size).map fun i => s.mem (p + i)) else none } }

end MeuOS.Cm
