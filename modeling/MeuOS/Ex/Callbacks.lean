import Mathlib.Algebra.Ring.Nat
import MeuOS.Lib.Slots

/-! Callback registration. Every kind of callback has a table of 16 slots, except that
`ExRegisterCallback` takes slots of the registry's; the handle of a registration names its
slot. A pointer to a routine is a number, 0 for none. -/
namespace MeuOS.Ex

open MeuOS.Lib

/-- `CB_MAX`. -/
def cbMax : Nat := 16

def statusSuccess : Nat := 0
def statusNotImplemented : Nat := 0xC0000002
def statusInvalidParameter : Nat := 0xC000000D
def statusNoMemory : Nat := 0xC0000017

/-- The kinds of `Ps*` callbacks. -/
inductive PsKind
  | process
  | processEx
  | thread
  | image
deriving DecidableEq

structure Callbacks where
  /-- `s_proc`, `s_proc_ex`, `s_thread` and `s_image`. -/
  ps : PsKind → Nat → Option Nat
  /-- `s_ob`: the registration. -/
  sOb : Nat → Option Nat
  /-- `s_cm`: routine and context. -/
  sCm : Nat → Option (Nat × Nat)

def callbacksInit : Callbacks := ⟨fun _ _ => none, fun _ => none, fun _ => none⟩

/-- A store to slot `i` of one of the four tables. -/
def Callbacks.setPs (cb : Callbacks) (k : PsKind) (i : Nat) (e : Option Nat) : Callbacks :=
  { cb with ps := Function.update cb.ps k (Function.update (cb.ps k) i e) }

@[simp] theorem Callbacks.setPs_same (cb : Callbacks) (k : PsKind) (i : Nat) (e : Option Nat) :
    (cb.setPs k i e).ps k = Function.update (cb.ps k) i e :=
  Function.update_self ..

theorem Callbacks.setPs_other (cb : Callbacks) {k k' : PsKind} (i : Nat) (e : Option Nat) (h : k' ≠ k) :
    (cb.setPs k i e).ps k' = cb.ps k' :=
  Function.update_of_ne h ..

/-! ## Processes, threads and images -/

def psAdd (k : PsKind) (n : Nat) (cb : Callbacks) : Nat × Callbacks :=
  match firstFree cbMax (cb.ps k) with
  | none => (statusNoMemory, cb)
  | some i => (statusSuccess, cb.setPs k i (some n))

def psRemove (k : PsKind) (n : Nat) (cb : Callbacks) : Nat × Callbacks :=
  match firstHeld cbMax (cb.ps k) (fun fn => fn = n) with
  | none => (statusNotImplemented, cb)
  | some i => (statusSuccess, cb.setPs k i none)

def psSetCreateProcessNotifyRoutine (n : Nat) (remove : Bool) (cb : Callbacks) : Nat × Callbacks :=
  if n = 0 then (statusInvalidParameter, cb)
  else if remove then psRemove .process n cb else psAdd .process n cb

def psSetCreateProcessNotifyRoutineEx (n : Nat) (remove : Bool) (cb : Callbacks) : Nat × Callbacks :=
  if n = 0 then (statusInvalidParameter, cb)
  else if remove then psRemove .processEx n cb else psAdd .processEx n cb

def psSetCreateThreadNotifyRoutine (n : Nat) (cb : Callbacks) : Nat × Callbacks :=
  if n = 0 then (statusInvalidParameter, cb) else psAdd .thread n cb

def psRemoveCreateThreadNotifyRoutine (n : Nat) (cb : Callbacks) : Nat × Callbacks :=
  psRemove .thread n cb

def psSetLoadImageNotifyRoutine (n : Nat) (cb : Callbacks) : Nat × Callbacks :=
  if n = 0 then (statusInvalidParameter, cb) else psAdd .image n cb

def psRemoveLoadImageNotifyRoutine (n : Nat) (cb : Callbacks) : Nat × Callbacks :=
  psRemove .image n cb

/-! ## Objects -/

/-- The status and what is stored through `RegistrationHandle`, if it is given. -/
def obRegisterCallbacks (reg : Nat) (handleOut : Bool) (cb : Callbacks) : Nat × Option Nat × Callbacks :=
  if reg = 0 ∨ ¬handleOut then (statusInvalidParameter, none, cb)
  else
    match firstFree cbMax cb.sOb with
    | none => (statusNoMemory, none, cb)
    | some i =>
        (statusSuccess, some (0xCB000000 ||| i),
          { cb with sOb := Function.update cb.sOb i (some reg) })

def obUnRegisterCallbacks (handle : Nat) (cb : Callbacks) : Callbacks :=
  if handle = 0 ∨ handle / 2 ^ 24 ≠ 0xCB then cb
  else
    let i := handle % 2 ^ 24
    if i < cbMax then { cb with sOb := Function.update cb.sOb i none } else cb

/-! ## The registry, and callback objects -/

def cmRegisterCallback (fn context : Nat) (cookieOut : Bool) (cb : Callbacks) :
    Nat × Option Nat × Callbacks :=
  if fn = 0 ∨ ¬cookieOut then (statusInvalidParameter, none, cb)
  else
    match firstFree cbMax cb.sCm with
    | none => (statusNoMemory, none, cb)
    | some i =>
        (statusSuccess, some (0xCAF1000 ||| i),
          { cb with sCm := Function.update cb.sCm i (some (fn, context)) })

def cmRegisterCallbackEx (fn context : Nat) (cookieOut : Bool) (cb : Callbacks) :
    Nat × Option Nat × Callbacks :=
  cmRegisterCallback fn context cookieOut cb

def cmUnRegisterCallback (cookie : Nat) (cb : Callbacks) : Nat × Callbacks :=
  if cookie / 2 ^ 16 ≠ 0xCAF1 then (statusInvalidParameter, cb)
  else
    let i := cookie % 2 ^ 16
    if i < cbMax ∧ (cb.sCm i).isSome then
      (statusSuccess, { cb with sCm := Function.update cb.sCm i none })
    else (statusInvalidParameter, cb)

/-- The registration it returns, 0 when the table is full. -/
def exRegisterCallback (fn context : Nat) (cb : Callbacks) : Nat × Callbacks :=
  match firstFree cbMax cb.sCm with
  | none => (0, cb)
  | some i =>
      (0xE0000000 ||| i, { cb with sCm := Function.update cb.sCm i (some (fn, context)) })

def exUnregisterCallback (registration : Nat) (cb : Callbacks) : Callbacks :=
  if registration / 2 ^ 28 ≠ 0xE then cb
  else
    let i := registration % 2 ^ 24
    if i < cbMax then { cb with sCm := Function.update cb.sCm i none } else cb

/-! ## Firing -/

/-- What a routine is called with: a word, or the `PS_CREATE_NOTIFY_INFO` of a process that
is being created. -/
inductive Arg
  | word (n : Nat)
  | createInfo (parentPid creationStatus : Nat)
deriving DecidableEq

/-- The routines of a table, in the order of the slots. -/
def routines (t : Nat → Option Nat) : List Nat :=
  ((held cbMax t).map Prod.snd).filter (· ≠ 0)

def ofBool (b : Bool) : Arg := .word (if b then 1 else 0)

def callbacksFireProcessCreate (parentPid pid : Nat) (create : Bool) (cb : Callbacks) :
    List (Nat × List Arg) :=
  (routines (cb.ps .process)).map (fun fn => (fn, [.word parentPid, .word pid, ofBool create])) ++
    (routines (cb.ps .processEx)).map fun fn =>
      (fn, [.word 0, .word pid, if create then .createInfo parentPid statusSuccess else .word 0])

def callbacksFireThreadCreate (pid tid : Nat) (create : Bool) (cb : Callbacks) : List (Nat × List Arg) :=
  (routines (cb.ps .thread)).map fun fn => (fn, [.word pid, .word tid, ofBool create])

def callbacksFireImageLoad (pid : Nat) (cb : Callbacks) : List (Nat × List Arg) :=
  (routines (cb.ps .image)).map fun fn => (fn, [.word 0, .word pid, .word 0])

def callbacksFireRegistryOp (op : Nat) (cb : Callbacks) : List (Nat × List Arg) :=
  (((held cbMax cb.sCm).map Prod.snd).filter (·.1 ≠ 0)).map fun e =>
    (e.1, [.word e.2, .word op, .word 0])

def callbacksCountProcess (cb : Callbacks) : Nat :=
  (held cbMax (cb.ps .process)).length + (held cbMax (cb.ps .processEx)).length

def callbacksCountThread (cb : Callbacks) : Nat := (held cbMax (cb.ps .thread)).length
def callbacksCountImage (cb : Callbacks) : Nat := (held cbMax (cb.ps .image)).length
def callbacksCountOb (cb : Callbacks) : Nat := (held cbMax cb.sOb).length
def callbacksCountCm (cb : Callbacks) : Nat := (held cbMax cb.sCm).length

end MeuOS.Ex
