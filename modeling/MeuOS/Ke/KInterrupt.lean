import MeuOS.Lib.Run
import Mathlib.Data.Nat.Bitwise

/-! Interrupt objects: the table with one slot a vector, the pool `IoConnectInterrupt` takes its
objects from, the vectors handed out by `HalGetInterruptVector` and the redirection entries of the
IO-APIC. -/
namespace MeuOS.Ke

/-- A `KINTERRUPT` of the pool, or one in a driver's own memory. -/
inductive InterruptObject
  | pool (i : Nat)
  | storage (a : Nat)
  deriving DecidableEq, Repr

/-- A lock of the driver, or `ActualLock` of the object. -/
inductive InterruptLock
  | driver (a : Nat)
  | actual (o : InterruptObject)
  deriving DecidableEq, Repr

/-- The routine is null at 0; without a GSI the field is `0xFFFFFFFF`. -/
structure KInterrupt where
  serviceRoutine : Nat
  serviceContext : Nat
  spinLock : InterruptLock
  vector : Nat
  irql : Nat
  synchronizeIrql : Nat
  gsi : Option Nat
  connected : Bool
  deriving Repr

/-- `ioapic` holds the registers by number, and is `none` while the IO-APIC is not mapped. -/
structure InterruptModel where
  object : InterruptObject → KInterrupt
  table : Nat → Option InterruptObject
  poolN : Nat
  vecGsi : Nat → Option Nat
  nextVec : Nat
  ioapic : Option (Nat → Nat)
  bspId : Nat

def dirqlDefaultDevice : Nat := 11

def poolSize : Nat := 32

/-! ## The IO-APIC -/

/-- Number of the low register of a GSI's entry, cut to a byte. -/
def regLow (gsi : Nat) : Nat := (0x10 + gsi * 2) % 256

/-- The low half of an entry. -/
def redirection (vector : Nat) (level activeLow masked : Bool) : Nat :=
  vector ||| (if activeLow then 2 ^ 13 else 0) ||| (if level then 2 ^ 15 else 0) |||
    if masked then 2 ^ 16 else 0

def ioapicSetIrqEx (gsi vector apicId : Nat) (level activeLow masked : Bool) (s : InterruptModel) :
    InterruptModel :=
  { s with
    ioapic := s.ioapic.map fun regs =>
      Function.update (Function.update regs ((regLow gsi + 1) % 256) (apicId <<< 24)) (regLow gsi)
        (redirection vector level activeLow masked) }

/-- Entry `e` is not masked and sends `v`. -/
def Routed (regs : Nat → Nat) (e v : Nat) : Prop :=
  regs (0x10 + e * 2) % 256 = v ∧ (regs (0x10 + e * 2)).testBit 16 = false

instance (regs : Nat → Nat) (e v : Nat) : Decidable (Routed regs e v) := inferInstanceAs (Decidable (_ ∧ _))

/-! ## Connecting -/

def allocVector (s : InterruptModel) : Option (Nat × InterruptModel) :=
  if 0x6F < s.nextVec then none else some (s.nextVec, { s with nextVec := s.nextVec + 1 })

def halGetInterruptVector (busInterruptLevel : Nat) (s : InterruptModel) : Nat × InterruptModel :=
  match allocVector s with
  | none => (0, s)
  | some (vec, s) =>
    let gsi := busInterruptLevel % 256
    (vec, ioapicSetIrqEx gsi vec s.bspId true true true
      { s with vecGsi := Function.update s.vecGsi vec (some gsi) })

/-- What a driver passes to `IoConnectInterrupt` and `KeInitializeInterrupt`. -/
structure InterruptArgs where
  serviceRoutine : Nat
  serviceContext : Nat
  spinLock : Option Nat
  vector : Nat
  irql : Nat
  synchronizeIrql : Nat
  deriving Repr

def InterruptArgs.lock (args : InterruptArgs) (o : InterruptObject) : InterruptLock :=
  match args.spinLock with
  | some a => .driver a
  | none => .actual o

def InterruptArgs.dirql (args : InterruptArgs) : Nat :=
  if args.irql = 0 then dirqlDefaultDevice else args.irql

/-- `out` tells whether the driver passed a place for the pointer. -/
def ioConnectInterrupt (out : Bool) (args : InterruptArgs) (s : InterruptModel) :
    Option InterruptObject × InterruptModel :=
  if !out ∨ 255 < args.vector ∨ poolSize ≤ s.poolN then (none, s)
  else
    let ki := InterruptObject.pool s.poolN
    let gsi := s.vecGsi args.vector
    let s : InterruptModel :=
      { s with
        poolN := s.poolN + 1
        object := Function.update s.object ki
          { serviceRoutine := args.serviceRoutine
            serviceContext := args.serviceContext
            spinLock := args.lock ki
            vector := args.vector
            irql := args.dirql
            synchronizeIrql := if args.synchronizeIrql = 0 then args.dirql else args.synchronizeIrql
            gsi
            connected := true }
        table := Function.update s.table args.vector (some ki) }
    (some ki,
      match gsi with
      | some g => ioapicSetIrqEx (g % 256) (args.vector % 256) s.bspId true true false s
      | none => s)

/-- `Connected` and the table slot of an object. -/
def setConnected (o : InterruptObject) (on : Bool) (s : InterruptModel) : InterruptModel :=
  { s with
    object := Function.update s.object o { s.object o with connected := on }
    table := Function.update s.table ((s.object o).vector % 256) (if on then some o else none) }

def ioDisconnectInterrupt (ki : Option InterruptObject) (s : InterruptModel) : InterruptModel :=
  match ki with
  | none => s
  | some o =>
    match (s.object o).gsi with
    | some g => ioapicSetIrqEx (g % 256) ((s.object o).vector % 256) s.bspId true true true
        (setConnected o false s)
    | none => setConnected o false s

def keInitializeInterrupt (ki : Option InterruptObject) (args : InterruptArgs) (s : InterruptModel) :
    InterruptModel :=
  match ki with
  | none => s
  | some o =>
    { s with
      object := Function.update s.object o
        { serviceRoutine := args.serviceRoutine
          serviceContext := args.serviceContext
          spinLock := args.lock o
          vector := args.vector
          irql := args.irql
          synchronizeIrql := args.synchronizeIrql
          gsi := none
          connected := false } }

def keConnectInterrupt (ki : Option InterruptObject) (s : InterruptModel) : Bool × InterruptModel :=
  match ki with
  | none => (false, s)
  | some o => (true, setConnected o true s)

def keDisconnectInterrupt (ki : Option InterruptObject) (s : InterruptModel) : Bool × InterruptModel :=
  match ki with
  | none => (false, s)
  | some o => (true, setConnected o false s)

/-! ## Delivery -/

/-- What the processor does for a driver's routine. -/
inductive ServiceAction
  | raiseIrql (irql : Nat)
  | acquire (lock : InterruptLock)
  | service (routine : Nat) (o : InterruptObject) (context : Nat)
  | release (lock : InterruptLock)
  | lowerIrql
  deriving DecidableEq, Repr

/-- `none` where nothing was dispatched. -/
def keInterruptDispatch (s : InterruptModel) (vector : Nat) : Option (List ServiceAction) :=
  if 255 < vector then none
  else
    match s.table (vector % 256) with
    | none => none
    | some o =>
      let ki := s.object o
      if !ki.connected ∨ ki.serviceRoutine = 0 then none
      else some [.raiseIrql ki.irql, .acquire ki.spinLock, .service ki.serviceRoutine o ki.serviceContext,
        .release ki.spinLock, .lowerIrql]

def apicVectorSpurious : Nat := 0xFF

def apicVectorTimer : Nat := 0xD1

def apicVectorIpi : Nat := 0xE1

def apicVectorKbd : Nat := 0x21

def apicVectorMouse : Nat := 0x2C

/-- The ways through `isr_handler`. -/
inductive IsrPath
  | syscall
  | exception
  | spurious
  | clock
  | ipi
  | driver (actions : List ServiceAction)
  | legacy (irq : Nat)
  deriving DecidableEq, Repr

def isrPath (s : InterruptModel) (intNo : Nat) : IsrPath :=
  if intNo = 0x80 then .syscall
  else if intNo < 32 then .exception
  else if intNo = apicVectorSpurious then .spurious
  else if intNo = apicVectorTimer then .clock
  else if intNo = apicVectorIpi then .ipi
  else
    match keInterruptDispatch s intNo with
    | some actions => .driver actions
    | none => .legacy (intNo - 32)

/-- What an interrupt on `v` does for drivers. -/
def services (s : InterruptModel) (v : Nat) : List ServiceAction :=
  match isrPath s v with
  | .driver actions => actions
  | _ => []

/-- The vectors that reach `ke_interrupt_dispatch`. -/
def Deliverable (v : Nat) : Prop :=
  32 ≤ v ∧ v ≤ 255 ∧ v ≠ 0x80 ∧ v ≠ apicVectorSpurious ∧ v ≠ apicVectorTimer ∧ v ≠ apicVectorIpi

instance (v : Nat) : Decidable (Deliverable v) := inferInstanceAs (Decidable (_ ∧ _))

theorem services_eq {s : InterruptModel} {v : Nat} :
    services s v = if Deliverable v then (keInterruptDispatch s v).getD [] else [] := by
  unfold services isrPath Deliverable
  by_cases hv : 255 < v
  · have hnone : keInterruptDispatch s v = none := by
      unfold keInterruptDispatch
      rw [if_pos hv]
    rw [hnone]
    grind
  · cases keInterruptDispatch s v <;> grind

/-! ## Redirection entries -/

theorem redirection_vector {v : Nat} (hv : v < 256) (level activeLow masked : Bool) :
    redirection v level activeLow masked % 256 = v := by
  unfold redirection
  have hmod : ∀ b : Bool, ∀ k, 8 ≤ k → (if b then 2 ^ k else 0) % 2 ^ 8 = 0 := by
    intro b k hk
    cases b
    · rfl
    · exact Nat.mod_eq_zero_of_dvd (pow_dvd_pow 2 hk)
  rw [show 256 = 2 ^ 8 from rfl, Nat.or_mod_two_pow, Nat.or_mod_two_pow, Nat.or_mod_two_pow,
    hmod _ _ (by decide), hmod _ _ (by decide), hmod _ _ (by decide), Nat.mod_eq_of_lt hv]
  simp only [Nat.or_zero]

theorem redirection_masked {v : Nat} (hv : v < 256) (level activeLow masked : Bool) :
    (redirection v level activeLow masked).testBit 16 = masked := by
  unfold redirection
  rw [Nat.testBit_or, Nat.testBit_or, Nat.testBit_or, Nat.testBit_lt_two_pow (by omega)]
  cases level <;> cases activeLow <;> cases masked <;> decide

/-- Programming a GSI sets its own entry, and no other. -/
theorem routed_update {regs : Nat → Nat} {gsi vector apicId e v : Nat} {masked : Bool} (he : e < 120)
    (hvector : vector < 256) :
    Routed (Function.update (Function.update regs ((regLow gsi + 1) % 256) (apicId <<< 24)) (regLow gsi)
      (redirection vector true true masked)) e v ↔
      if gsi % 128 = e then vector = v ∧ masked = false else Routed regs e v := by
  unfold Routed
  by_cases hentry : gsi % 128 = e
  · have hreg : 0x10 + e * 2 = regLow gsi := by
      unfold regLow
      omega
    rw [if_pos hentry, hreg, Function.update_self, redirection_vector hvector, redirection_masked hvector]
  · have hlow : 0x10 + e * 2 ≠ regLow gsi := by
      unfold regLow
      omega
    have hhigh : 0x10 + e * 2 ≠ (regLow gsi + 1) % 256 := by
      unfold regLow
      omega
    rw [if_neg hentry, Function.update_of_ne hlow, Function.update_of_ne hhigh]

end MeuOS.Ke
