import MeuOS.Cm.Paths

/-! The registry with its records as values: each key by its address, with the keys and the values
on its two lists. Whether a block is there is up to `kmalloc`, and that is part of the state. -/
namespace MeuOS.Cm

open MeuOS.Lib

/-- `char name[MAX_NAME]`: the characters in front of the terminator. -/
structure RecordName where
  chars : List UInt8
  fits : chars.length < maxName

/-- `REG_VALUE`. `data` is none for a null pointer. -/
structure RegValue where
  name : RecordName
  type : UInt32
  size : UInt32
  data : Option Mem

/-- `REG_KEY`. -/
structure RegKey where
  name : RecordName
  parent : Nat
  children : List Nat
  values : List RegValue

/-- Call number `n` of `kmalloc` finds a block if `granted n`, with `leftover n` in it. No address
comes twice, so it is the number of the call that names the block. -/
structure Hive where
  sRoot : Nat
  keys : Nat → RegKey
  mallocs : Nat
  granted : Nat → Bool
  leftover : Nat → Mem

namespace Hive

def kmalloc (h : Hive) : Hive × Nat :=
  ({ h with mallocs := h.mallocs + 1 }, if h.granted h.mallocs then h.mallocs + 1 else 0)

def setKey (h : Hive) (k : Nat) (key : RegKey) : Hive := { h with keys := Function.update h.keys k key }

/-! ## Names -/

def strcmpci : List UInt8 → List UInt8 → Nat
  | [], [] => 0
  | a :: as, b :: bs => if toLower a = toLower b then strcmpci as bs else 1
  | _, _ => 1

/-- `strcpyn` into a record. -/
def strcpyn (src : List UInt8) : RecordName where
  chars := src.take (maxName - 1)
  fits := by
    rw [List.length_take]
    exact Nat.lt_of_le_of_lt (Nat.min_le_left _ _) (by decide)

/-- A short name is copied whole. -/
theorem strcpyn_whole {name : List UInt8} (hshort : name.length < maxName) : (strcpyn name).chars = name :=
  List.take_of_length_le (by simp only [maxName] at hshort ⊢; omega)

/-! ## Keys -/

def regAllocKey (h : Hive) (name : List UInt8) (parent : Nat) : Hive × Nat :=
  let (h, k) := h.kmalloc
  if k = 0 then (h, 0) else (h.setKey k ⟨strcpyn name, parent, [], []⟩, k)

def regFindChild (h : Hive) (k : Nat) (name : List UInt8) : Nat :=
  ((h.keys k).children.find? fun c => strcmpci (h.keys c).name.chars name = 0).getD 0

/-- `c` becomes the first child of `k`. -/
def linkChild (h : Hive) (k c : Nat) : Hive :=
  h.setKey k { h.keys k with children := c :: (h.keys k).children }

def regGetOrCreateChild (h : Hive) (k : Nat) (name : List UInt8) : Hive × Nat :=
  let c := h.regFindChild k name
  if c ≠ 0 then (h, c)
  else
    let (h, c) := h.regAllocKey name k
    if c = 0 then (h, 0) else (h.linkChild k c, c)

/-- The turns of `reg_resolve_path`, one for each name it takes from the path. -/
def resolve (create : Bool) : Hive → Nat → List (List UInt8) → Hive × Nat
  | h, k, [] => (h, k)
  | h, k, name :: rest =>
      let (h, nxt) := if create then h.regGetOrCreateChild k name else (h, h.regFindChild k name)
      if nxt = 0 then (h, 0) else resolve create h nxt rest

def regResolvePath (h : Hive) (base : Nat) (path : List UInt8) (create : Bool) : Hive × Nat :=
  let base := if base = 0 then h.sRoot else base
  if base = 0 then (h, 0) else resolve create h base (components path)

/-! ## Values -/

def regFindValue (h : Hive) (k : Nat) (name : List UInt8) : Option RegValue :=
  (h.keys k).values.find? fun v => strcmpci v.name.chars name = 0

/-- `f` on the first value of that name. -/
def onValue (name : List UInt8) (f : RegValue → RegValue) : List RegValue → List RegValue
  | [] => []
  | v :: l => if strcmpci v.name.chars name = 0 then f v :: l else v :: onValue name f l

def setValues (h : Hive) (k : Nat) (values : List RegValue) : Hive :=
  h.setKey k { h.keys k with values := values }

/-- `v->data`: no block for no bytes, and no copy without a source. -/
def dataBlock (h : Hive) (data : Option Mem) (size : UInt32) : Hive × Option Mem :=
  if size = 0 then (h, none)
  else
    let (h', p) := h.kmalloc
    (h', if p = 0 then none else some (data.getD (h.leftover h.mallocs)))

def regSetValue (h : Hive) (k : Nat) (name : List UInt8) (type : UInt32) (data : Option Mem)
    (size : UInt32) : Hive × Bool :=
  if (h.regFindValue k name).isSome then
    -- The old data is freed here, before there is a block for the new.
    let (h, p) := h.dataBlock data size
    (h.setValues k (onValue name (fun v => ⟨v.name, type, size, p⟩) (h.keys k).values), true)
  else
    let (h, v) := h.kmalloc
    if v = 0 then (h, false)
    else
      let (h, p) := h.dataBlock data size
      (h.setValues k (⟨strcpyn name, type, size, p⟩ :: (h.keys k).values), true)

/-! ## The helpers for C strings -/

def registrySetValueAscii (h : Hive) (keypath valuename : CString) (type : UInt32)
    (data : Option Mem) (size : UInt32) : Hive × Bool :=
  let (h, k) := h.regResolvePath h.sRoot keypath.chars true
  if k = 0 then (h, false) else h.regSetValue k valuename.chars type data size

/-- The bytes are none where they are read through a null pointer. -/
structure GetReply where
  type : UInt32
  size : UInt32
  bytes : Option (List UInt8)

/-- What is copied to `outData`. -/
def copied (v : RegValue) (outData : Bool) (maxSize : UInt32) : Option (List UInt8) :=
  let n := if outData then min v.size.toNat maxSize.toNat else 0
  if n = 0 then some [] else v.data.map fun d => (List.range n).map d

def registryGetValueAscii (h : Hive) (keypath valuename : CString) (outData : Bool)
    (maxSize : UInt32) : Option GetReply :=
  let (h, k) := h.regResolvePath h.sRoot keypath.chars false
  if k = 0 then none
  else (h.regFindValue k valuename.chars).map fun v => ⟨v.type, v.size, copied v outData maxSize⟩

/-! ## The tree at boot -/

/-- `(uint32_t[]){n}` -/
def ulong (n : Nat) : Mem := fun i => (n / 256 ^ i).toUInt8

def registryInit (h : Hive) : Hive :=
  if h.sRoot ≠ 0 then h
  else
    let (h, root) := h.regAllocKey (ascii "\\Registry") 0
    let h := { h with sRoot := root }
    let (h, machine) := h.regGetOrCreateChild root (ascii "Machine")
    let (h, _) := h.regGetOrCreateChild root (ascii "Users")
    let (h, sw) := h.regGetOrCreateChild machine (ascii "Software")
    let (h, meuos) := h.regGetOrCreateChild sw (ascii "MeuOS")
    let (h, _) := h.regSetValue meuos (ascii "ProductName") 1 (some fun i => (ascii "MeuOS").getD i 0) 6
    let (h, _) := h.regSetValue meuos (ascii "CurrentVersion") 1 (some fun i => (ascii "0.1").getD i 0) 4
    let (h, _) := h.regSetValue meuos (ascii "BuildNumber") 4 (some (ulong 26021)) 4
    let (h, system) := h.regGetOrCreateChild machine (ascii "System")
    let (h, csys) := h.regGetOrCreateChild system (ascii "CurrentControlSet")
    let (h, serv) := h.regGetOrCreateChild csys (ascii "Services")
    (h.regSetValue serv (ascii "Start") 4 (some (ulong 1)) 4).1

end Hive

end MeuOS.Cm
