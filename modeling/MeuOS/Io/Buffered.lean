import MeuOS.Mm.HeapClient

/-! Building IRPs in the kernel heap, byte by byte. A structure is its address; a store through a null
pointer is `none`. What a caller hands in is not in the heap, and a driver's dispatch is any change
to the memory. -/
namespace MeuOS.BufferedIo

open MeuOS.Lib MeuOS.Mm

/-- `sizeof(IRP)`. -/
def irpSize : Nat := 0xC8

/-- `sizeof(IO_STACK_LOCATION)`. -/
def locationSize : Nat := 0x48

def systemBufferAt (irp : Nat) : Nat := irp + 0x18
def statusAt (irp : Nat) : Nat := irp + 0x30
def informationAt (irp : Nat) : Nat := irp + 0x38
def currentStackLocationAt (irp : Nat) : Nat := irp + 0xB8

/-- What `io_alloc_irp` asks for. -/
def irpBytes (stackCount : Nat) : Nat :=
  irpSize + ((if stackCount = 0 then 1 else stackCount) + 1) * locationSize

/-- What `io_alloc_irp` writes into its block. -/
def initIrp (m : Mem) (irp stackCount : Nat) : Mem :=
  let sc := if stackCount = 0 then 1 else stackCount
  let sz := irpBytes stackCount
  let m := m.blit irp sz fun _ => 0
  let m := m.write irp 2 6
  let m := m.write (irp + 0x2) 2 sz
  let m := m.write (irp + 0x42) 1 sc
  let m := m.write (irp + 0x43) 1 (sc + 1)
  m.write (currentStackLocationAt irp) 8 (irp + irpSize + sc * locationSize)

def ioAllocIrp (h : Heap) (stackCount : Nat) : Option (Heap × Nat) := do
  let (h, irp) ← kmalloc h (irpBytes stackCount)
  if irp = 0 then some (h, 0) else some ({ h with mem := initIrp h.mem irp stackCount }, irp)

/-- `IoGetNextIrpStackLocation`. -/
def ioGetNextIrpStackLocation (m : Mem) (irp : Nat) : Nat :=
  m.rd64 (currentStackLocationAt irp) - locationSize

inductive Parameters
  | deviceIoControl (ioControlCode inputBufferLength outputBufferLength : Nat)
  /-- `Read` and `Write`, which have the same layout. -/
  | transfer (length : Nat)
  | none

def Parameters.store (m : Mem) (s : Nat) : Parameters → Mem
  | .deviceIoControl ioctl inLen outLen =>
      ((m.write (s + 0x10) 4 ioctl).write (s + 0xC) 4 inLen).write (s + 0x8) 4 outLen
  | .transfer len => m.write (s + 0x8) 4 len
  | .none => m

/-- What every builder starts with. -/
def fillNext (m : Mem) (irp major dev : Nat) (ps : Parameters) : Mem :=
  let s := ioGetNextIrpStackLocation m irp
  ps.store ((m.write s 1 major).write (s + 0x28) 8 dev) s

/-- `AssociatedIrp.SystemBuffer = kmalloc(n)`. -/
def allocSystemBuffer (h : Heap) (irp n : Nat) : Option Heap :=
  (kmalloc h n).map fun r => { r.1 with mem := r.1.mem.write (systemBufferAt irp) 8 r.2 }

/-- The first `n` turns of a loop that copies the caller's buffer into the system buffer. -/
def copyIn (input : Mem) (irp : Nat) : Nat → Mem → Option Mem
  | 0, m => some m
  | n + 1, m => do
      let m ← copyIn input irp n m
      let p := m.rd64 (systemBufferAt irp)
      if p = 0 then none else some (m.put (p + n) (input n))

def majorRead : Nat := 3
def majorWrite : Nat := 4
def majorDeviceControl : Nat := 14

/-- `UserBuffer`. -/
def storeUserBuffer (h : Heap) (irp buf : Nat) : Heap :=
  { h with mem := h.mem.write (irp + 0x70) 8 buf }

def ioBuildIoctl (h : Heap) (ioctl dev : Nat) (input : Mem) (inLen outBuf outLen : Nat) :
    Option (Heap × Nat) := do
  let (h, irp) ← ioAllocIrp h 1
  if irp = 0 then some (h, 0)
  else
    let h := { h with mem := fillNext h.mem irp majorDeviceControl dev (.deviceIoControl ioctl inLen outLen) }
    let buf := if inLen > outLen then inLen else outLen
    let h ←
      if buf ≠ 0 then do
        let h ← allocSystemBuffer h irp buf
        let m ← copyIn input irp inLen h.mem
        some { h with mem := m }
      else some h
    some (storeUserBuffer h irp outBuf, irp)

/-- `buf` is `0` or points to `input`. -/
def ioBuildWrite (h : Heap) (dev buf : Nat) (input : Mem) (len : Nat) : Option (Heap × Nat) := do
  let (h, irp) ← ioAllocIrp h 1
  if irp = 0 then some (h, 0)
  else
    let h := { h with mem := fillNext h.mem irp majorWrite dev (.transfer len) }
    let h ←
      if len ≠ 0 then do
        let h ← allocSystemBuffer h irp len
        if h.mem.rd64 (systemBufferAt irp) ≠ 0 ∧ buf ≠ 0 then do
          let m ← copyIn input irp len h.mem
          some { h with mem := m }
        else some h
      else some h
    some (h, irp)

def ioBuildRead (h : Heap) (dev buf len : Nat) : Option (Heap × Nat) := do
  let (h, irp) ← ioAllocIrp h 1
  if irp = 0 then some (h, 0)
  else
    let h := { h with mem := fillNext h.mem irp majorRead dev (.transfer len) }
    let h ← if len ≠ 0 then allocSystemBuffer h irp len else some h
    some (storeUserBuffer h irp buf, irp)

def ioBuildRequest (h : Heap) (major dev : Nat) : Option (Heap × Nat) := do
  let (h, irp) ← ioAllocIrp h 1
  if irp = 0 then some (h, 0)
  else some ({ h with mem := fillNext h.mem irp major dev .none }, irp)

def ioFreeIrp (h : Heap) (irp : Nat) : Option Heap :=
  if irp = 0 then some h
  else do
    let buffer := h.mem.rd64 (systemBufferAt irp)
    let h ← if buffer ≠ 0 then kfree h buffer else some h
    kfree h irp

/-! ## The services

On a file with a device. What a driver does with the IRP it is called with is a parameter. -/

def statusUnsuccessful : Nat := 0xC0000001

/-- A dispatch routine, called with the device and the IRP. -/
abbrev Dispatch := Heap → Nat → Nat → Heap

/-- `IoCallDriver`; `none` is a major function without a routine. -/
def ioCallDriver (dispatch : Option Dispatch) (h : Heap) (dev irp : Nat) : Heap :=
  let s := ioGetNextIrpStackLocation h.mem irp
  let m := h.mem.write (irp + 0x43) 1 (h.mem.read (irp + 0x43) 1 + 255)
  let m := m.write (currentStackLocationAt irp) 8 s
  let m := m.write (s + 0x28) 8 dev
  match dispatch with
  | some fn => fn { h with mem := m } dev irp
  | none => { h with mem := m.write (statusAt irp) 4 statusUnsuccessful }

/-- The bytes a service copies to its caller's buffer at `buf`, of `len` bytes. -/
def copyBack (m : Mem) (irp buf len : Nat) : List UInt8 :=
  let info := m.rd64 (informationAt irp)
  let buffer := m.rd64 (systemBufferAt irp)
  if buf ≠ 0 ∧ buffer ≠ 0 ∧ info ≠ 0 then
    (List.range (if info < len then info else len)).map fun i => m (buffer + i)
  else []

/-- The caller's view of a service. -/
structure ServiceResult where
  heap : Heap
  status : Nat
  /-- The byte count, where the service reports one. -/
  count : Nat
  copied : List UInt8

/-- The memory when `IoCallDriver` has returned, and what the service makes of it. -/
def finishService (h : Heap) (irp buf len : Nat) : Option ServiceResult := do
  let copied := copyBack h.mem irp buf len
  let count := h.mem.rd64 (informationAt irp) % 2 ^ 32
  let status := h.mem.rd32 (statusAt irp)
  let h ← ioFreeIrp h irp
  some ⟨h, status, count, copied⟩

def sysDeviceiocontrol (dispatch : Option Dispatch) (h : Heap) (code dev : Nat) (input : Mem)
    (inL outB outL : Nat) : Option ServiceResult := do
  let (h, irp) ← ioBuildIoctl h code dev input inL outB outL
  if irp = 0 then some ⟨h, statusUnsuccessful, 0, []⟩
  else finishService (ioCallDriver dispatch h dev irp) irp outB outL

/-- What a volume's files add to the parameters of a transfer: `Key` and `ByteOffset`. -/
def storeCursor (m : Mem) (irp : Nat) : Option (Nat × Nat) → Mem
  | some (key, offset) =>
      let s := ioGetNextIrpStackLocation m irp
      (m.write (s + 0xC) 4 key).write (s + 0x10) 8 offset
  | none => m

/-- Nothing comes back to the caller's buffer. -/
def sysWritefile (dispatch : Option Dispatch) (h : Heap) (dev : Nat) (cursor : Option (Nat × Nat))
    (buf : Nat) (input : Mem) (len : Nat) : Option ServiceResult := do
  let (h, irp) ← ioBuildWrite h dev buf input len
  if irp = 0 then some ⟨h, statusUnsuccessful, 0, []⟩
  else finishService (ioCallDriver dispatch { h with mem := storeCursor h.mem irp cursor } dev irp) irp 0 0

def sysReadfile (dispatch : Option Dispatch) (h : Heap) (dev : Nat) (cursor : Option (Nat × Nat))
    (buf len : Nat) : Option ServiceResult := do
  let (h, irp) ← ioBuildRead h dev buf len
  if irp = 0 then some ⟨h, statusUnsuccessful, 0, []⟩
  else finishService (ioCallDriver dispatch { h with mem := storeCursor h.mem irp cursor } dev irp) irp buf len

end MeuOS.BufferedIo
