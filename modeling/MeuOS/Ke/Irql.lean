import MeuOS.Lib.Mem
import MeuOS.Lib.Run
import MeuOS.Ke.Sched

/-! The IRQL of a CPU, which the kernel keeps in the byte at `gs:[0x60]` and in CR8, and
everything that points `IA32_GS_BASE` somewhere: ring transitions, thread switches, the
return from a child image, and a selector loaded in ring 3. There is no `swapgs`. A call of
`KeRaiseIrql` or `KeLowerIrql` is one step, and so is each of those that a DPC or an ISR
makes meanwhile. -/
namespace MeuOS.Ke

open MeuOS.Lib

abbrev Cpu := Fin maxCpus

/-- CPU 0, the only one that runs ring 3. -/
def bsp : Cpu := ⟨0, by decide⟩

def kpcrIrql : Nat := 0x60

def dispatchLevel : UInt8 := 2

/-- What a `ki_thread_t` says about GS. -/
structure GsThread where
  isRing3 : Bool
  userTeb : Nat

/-- `lastSet` is the IRQL that `KeRaiseIrql` or `KeLowerIrql` has set last. -/
structure IrqlMachine where
  mem : Mem
  /-- What ring 3 can write in the address space that is loaded. -/
  userWritable : Nat → Bool
  /-- `g_kpcr`. -/
  kpcr : Nat
  gsBase : Cpu → Nat
  cr8 : Cpu → UInt8
  lastSet : Cpu → UInt8
  inRing3 : Cpu → Bool
  p4Active : Bool
  ring3Active : Bool
  threads : Nat → GsThread

namespace IrqlMachine

/-- Where `gs:[0x60]` is. -/
def irqlAddr (s : IrqlMachine) (c : Cpu) : Nat := s.gsBase c + kpcrIrql

def keGetCurrentIrql (s : IrqlMachine) (c : Cpu) : UInt8 := s.mem (s.irqlAddr c)

/-- `ki_irql_write`. CR8 has four bits, and the CPU faults on more. -/
def kiIrqlWrite (s : IrqlMachine) (c : Cpu) (v : UInt8) : Option IrqlMachine :=
  if v < 16 then
    some { s with mem := Function.update s.mem (s.irqlAddr c) v
                  cr8 := Function.update s.cr8 c v
                  lastSet := Function.update s.lastSet c v }
  else none

/-- The old IRQL, and the machine. -/
def keRaiseIrql (s : IrqlMachine) (c : Cpu) (newIrql : UInt8) : Option (UInt8 × IrqlMachine) :=
  let old := s.keGetCurrentIrql c
  if newIrql > old then (s.kiIrqlWrite c newIrql).map (old, ·) else some (old, s)

/-- `KeLowerIrql` once the DPCs it drains have run. -/
def keLowerIrql (s : IrqlMachine) (c : Cpu) (newIrql : UInt8) : Option IrqlMachine :=
  s.kiIrqlWrite c newIrql

/-- The APIC timer in `isr_handler` goes on to `ki_quantum_end`. -/
def timerPreempts (s : IrqlMachine) (c : Cpu) : Bool :=
  s.p4Active && decide (s.mem (s.irqlAddr c) < dispatchLevel)

def setGs (s : IrqlMachine) (c : Cpu) (base : Nat) : IrqlMachine :=
  { s with gsBase := Function.update s.gsBase c base }

def setRing3 (s : IrqlMachine) (c : Cpu) (b : Bool) : IrqlMachine :=
  { s with inRing3 := Function.update s.inRing3 c b }

/-- `ki_mark_current_ring3`, and the fields `ki_launch_ring3_thread` sets. -/
def markRing3 (s : IrqlMachine) (t teb : Nat) : IrqlMachine :=
  { s with threads := Function.update s.threads t ⟨true, teb⟩, ring3Active := true }

end IrqlMachine

inductive IrqlEvent
  | raise (c : Cpu) (newIrql : UInt8)
  | lower (c : Cpu) (newIrql : UInt8)
  | userStore (c : Cpu) (addr : Nat) (b : UInt8)
  | kernelStore (addr : Nat) (b : UInt8)
  /-- `mm_map_user`, or another CR3. -/
  | mapUser (writable : Nat → Bool)
  | enablePreemption
  | trap (c : Cpu)
  | iret (c : Cpu)
  /-- `usermode_enter` on thread `t`. -/
  | usermodeEnter (t teb : Nat)
  | usermodeEnter32
  /-- Back in `usermode_enter`, and in `usermode_enter32`, after the process has ended. -/
  | usermodeLeave
  | usermodeLeave32
  | launchRing3Thread (t teb : Nat)
  /-- `ring3_trampoline` of thread `t`. -/
  | ring3Trampoline (t : Nat)
  /-- `ki_quantum_end` switches CPU 0 to `next`. -/
  | quantumEnd (next : Nat)
  /-- `run_child_image` writes back the GS base it has saved. -/
  | restoreGs (savedGs : Nat)
  /-- Ring 3 loads its flat selector into GS. -/
  | loadGs (c : Cpu)

namespace IrqlMachine

def irqlStep (s : IrqlMachine) : IrqlEvent → Option IrqlMachine
  | .raise c newIrql => (s.keRaiseIrql c newIrql).map Prod.snd
  | .lower c newIrql => s.keLowerIrql c newIrql
  | .userStore c addr b =>
      if s.inRing3 c ∧ s.userWritable addr then some { s with mem := Function.update s.mem addr b }
      else none
  | .kernelStore addr b => some { s with mem := Function.update s.mem addr b }
  | .mapUser writable => some { s with userWritable := writable }
  | .enablePreemption => some { s with p4Active := true }
  | .trap c => some (s.setRing3 c false)
  | .iret c => some (s.setRing3 c true)
  | .usermodeEnter t teb => some (((s.markRing3 t teb).setGs bsp teb).setRing3 bsp true)
  | .usermodeEnter32 => some ((s.setGs bsp 0).setRing3 bsp true)
  | .usermodeLeave => some (s.setGs bsp s.kpcr)
  | .usermodeLeave32 => some (s.setGs bsp 0)
  | .launchRing3Thread t teb => some (s.markRing3 t teb)
  | .ring3Trampoline t => some ((s.setGs bsp (s.threads t).userTeb).setRing3 bsp true)
  | .quantumEnd next =>
      if s.ring3Active then
        some (s.setGs bsp (if (s.threads next).isRing3 then (s.threads next).userTeb else s.kpcr))
      else some s
  | .restoreGs savedGs => some (s.setGs bsp savedGs)
  | .loadGs c => if s.inRing3 c then some (s.setGs c 0) else none

/-! ## What ring 3 must not be able to do -/

/-- The IRQL is what was set and what CR8 says, setting it leaves the memory of ring 3 alone,
and that memory is not what the timer decides by. -/
structure Guarded (s : IrqlMachine) : Prop where
  irql : ∀ c, s.keGetCurrentIrql c = s.lastSet c ∧ s.lastSet c = s.cr8 c
  spares : ∀ c v s', (s.keRaiseIrql c v).map Prod.snd = some s' ∨ s.keLowerIrql c v = some s' →
    ∀ a, s.userWritable a = true → s'.mem a = s.mem a
  timer : ∀ c, s.inRing3 c = true →
    ∀ mem : Mem, (∀ a, s.userWritable a = false → mem a = s.mem a) →
      timerPreempts { s with mem := mem } c = s.timerPreempts c

/-- Where the event points the GS base of which CPU. -/
def gsTarget (s : IrqlMachine) : IrqlEvent → Option (Cpu × Nat)
  | .usermodeEnter _ teb => some (bsp, teb)
  | .usermodeEnter32 => some (bsp, 0)
  | .usermodeLeave => some (bsp, s.kpcr)
  | .usermodeLeave32 => some (bsp, 0)
  | .ring3Trampoline t => some (bsp, (s.threads t).userTeb)
  | .quantumEnd next =>
      if s.ring3Active then
        some (bsp, if (s.threads next).isRing3 then (s.threads next).userTeb else s.kpcr)
      else none
  | .restoreGs savedGs => some (bsp, savedGs)
  | .loadGs c => some (c, 0)
  | _ => none

/-- No other CPU has its IRQL in the same byte. -/
def OwnByte (s : IrqlMachine) (c : Cpu) : Prop := ∀ d, d ≠ c → s.irqlAddr d ≠ s.irqlAddr c

/-- GS goes only where ring 3 cannot write the IRQL byte and where the byte has the IRQL;
other stores and mappings leave the IRQL bytes alone; no two CPUs share one. -/
def EventOk (s : IrqlMachine) (e : IrqlEvent) : Prop :=
  match e with
  | .raise c newIrql => newIrql ≤ s.keGetCurrentIrql c ∨ s.OwnByte c
  | .lower c newIrql => newIrql = s.keGetCurrentIrql c ∨ s.OwnByte c
  | .kernelStore addr b => ∀ c, addr = s.irqlAddr c → b = s.mem addr
  | .mapUser writable => ∀ c, writable (s.irqlAddr c) = false
  | e => ∀ c base, s.gsTarget e = some (c, base) →
      s.userWritable (base + kpcrIrql) = false ∧ s.mem (base + kpcrIrql) = s.cr8 c

end IrqlMachine

/-- The machine when all KPCRs are set up: each in a zeroed page of the kernel heap. -/
structure IrqlBoot where
  machine : IrqlMachine
  passive : ∀ c, machine.keGetCurrentIrql c = 0 ∧ machine.lastSet c = 0 ∧ machine.cr8 c = 0
  supervisor : ∀ c, machine.userWritable (machine.irqlAddr c) = false

end MeuOS.Ke
