import MeuOS.Ke.Irql

/-! When the IRQL is out of the reach of ring 3. All three promises come down to one fact
about the IRQL byte of each CPU, and each step keeps that fact exactly under its condition. -/
namespace MeuOS.Ke

open MeuOS.Lib

namespace IrqlMachine

variable {s s' : IrqlMachine} {c : Cpu}

/-- The byte at `gs:[0x60]` is the IRQL that was set and CR8, and not ring 3's to write. -/
structure ByteSound (s : IrqlMachine) (c : Cpu) : Prop where
  set : s.mem (s.irqlAddr c) = s.lastSet c
  cr8 : s.lastSet c = s.cr8 c
  supervisor : s.userWritable (s.irqlAddr c) = false

/-! ## The promises and the byte -/

theorem kiIrqlWrite_eq {v : UInt8} (h : s.kiIrqlWrite c v = some s') :
    s' = { s with mem := Function.update s.mem (s.irqlAddr c) v
                  cr8 := Function.update s.cr8 c v
                  lastSet := Function.update s.lastSet c v } := by
  unfold kiIrqlWrite at h
  split at h
  · exact (Option.some.inj h).symm
  · cases h

theorem kiIrqlWrite_mem {v : UInt8} (h : s.kiIrqlWrite c v = some s') {a : Nat}
    (ha : a ≠ s.irqlAddr c) : s'.mem a = s.mem a := by
  rw [kiIrqlWrite_eq h]
  exact Function.update_of_ne ha _ _

/-- `KeRaiseIrql` writes, or does nothing. -/
theorem keRaiseIrql_cases {v : UInt8} (h : (s.keRaiseIrql c v).map Prod.snd = some s') :
    s.keGetCurrentIrql c < v ∧ s.kiIrqlWrite c v = some s' ∨ v ≤ s.keGetCurrentIrql c ∧ s' = s := by
  unfold keRaiseIrql at h
  by_cases hv : v > s.keGetCurrentIrql c
  · left
    rw [if_pos hv, Option.map_map] at h
    obtain ⟨t, ht, rfl⟩ := Option.map_eq_some_iff.1 h
    exact ⟨hv, ht⟩
  · right
    rw [if_neg hv] at h
    exact ⟨UInt8.not_lt.1 hv, (Option.some.inj h).symm⟩

theorem guarded_of_sound (h : ∀ c, s.ByteSound c) : s.Guarded where
  irql c := ⟨(h c).set, (h c).cr8⟩
  spares c v s' hs' a ha := by
    have hne : a ≠ s.irqlAddr c := by
      rintro rfl
      rw [(h c).supervisor] at ha
      cases ha
    rcases hs' with hs' | hs'
    · rcases keRaiseIrql_cases hs' with ⟨-, hw⟩ | ⟨-, rfl⟩
      · exact kiIrqlWrite_mem hw hne
      · rfl
    · exact kiIrqlWrite_mem hs' hne
  timer c _ mem hmem := by
    show (s.p4Active && decide (mem (s.irqlAddr c) < _)) = (s.p4Active && _)
    rw [hmem _ (h c).supervisor]

/-- Lowering the IRQL to another value shows whose memory the byte is in. -/
theorem sound_of_guarded (h : s.Guarded) (c : Cpu) : s.ByteSound c where
  set := (h.irql c).1
  cr8 := (h.irql c).2
  supervisor := by
    by_contra hwritable
    have hwritable := Bool.of_not_eq_false hwritable
    obtain ⟨v, hv, hne⟩ : ∃ v : UInt8, v < 16 ∧ v ≠ s.mem (s.irqlAddr c) := by
      by_cases h0 : s.mem (s.irqlAddr c) = 0
      · exact ⟨1, by decide, by rw [h0]; decide⟩
      · exact ⟨0, by decide, fun h => h0 h.symm⟩
    have hkept := h.spares c v _ (.inr (if_pos hv)) _ hwritable
    exact hne ((Function.update_self _ _ _).symm.trans hkept)

theorem guarded_iff : s.Guarded ↔ ∀ c, s.ByteSound c :=
  ⟨sound_of_guarded, guarded_of_sound⟩

/-! ## One step -/

/-- Setting the IRQL of a CPU keeps that of the others, unless they share the byte. -/
theorem write_sound_iff (h : ∀ c, s.ByteSound c) {v : UInt8} (hw : s.kiIrqlWrite c v = some s') :
    (∀ d, s'.ByteSound d) ↔ v = s.keGetCurrentIrql c ∨ s.OwnByte c := by
  have hs' := kiIrqlWrite_eq hw
  constructor
  · intro hsound
    by_contra hnot
    obtain ⟨hv, hshared⟩ := not_or.1 hnot
    obtain ⟨d, hd, haddr⟩ : ∃ d, d ≠ c ∧ s.irqlAddr d = s.irqlAddr c := by
      by_contra hall
      exact hshared fun d hd heq => hall ⟨d, hd, heq⟩
    have hset := (hsound d).set
    rw [hs'] at hset
    have hmem : Function.update s.mem (s.irqlAddr c) v (s.irqlAddr d) = v := by
      rw [haddr]
      exact Function.update_self _ _ _
    have hlast : Function.update s.lastSet c v d = s.lastSet d := Function.update_of_ne hd _ _
    have hvd : v = s.lastSet d := hmem.symm.trans (hset.trans hlast)
    exact hv (hvd.trans ((h d).set.symm.trans (by rw [haddr]; rfl)))
  · intro hok d
    subst hs'
    by_cases hd : d = c
    · subst hd
      refine ⟨?_, ?_, (h d).supervisor⟩
      · show Function.update s.mem (s.irqlAddr d) v (s.irqlAddr d) = Function.update s.lastSet d v d
        rw [Function.update_self, Function.update_self]
      · show Function.update s.lastSet d v d = Function.update s.cr8 d v d
        rw [Function.update_self, Function.update_self]
    · have hlast : Function.update s.lastSet c v d = s.lastSet d := Function.update_of_ne hd _ _
      have hcr8 : Function.update s.cr8 c v d = s.cr8 d := Function.update_of_ne hd _ _
      refine ⟨?_, hlast.trans ((h d).cr8.trans hcr8.symm), (h d).supervisor⟩
      refine Eq.trans ?_ ((h d).set.trans hlast.symm)
      rcases hok with rfl | hown
      · exact congrFun (Function.update_eq_self (s.irqlAddr c) s.mem) _
      · exact Function.update_of_ne (hown d hd) _ _

/-- Pointing GS elsewhere needs the IRQL to be there. -/
theorem setGs_sound_iff (h : ∀ c, s.ByteSound c) (base : Nat) :
    (∀ d, (s.setGs c base).ByteSound d) ↔
      s.userWritable (base + kpcrIrql) = false ∧ s.mem (base + kpcrIrql) = s.cr8 c := by
  have haddr : (s.setGs c base).irqlAddr c = base + kpcrIrql := by
    simp [irqlAddr, setGs]
  constructor
  · intro hsound
    obtain ⟨hset, hcr8, hsupervisor⟩ := hsound c
    rw [haddr] at hset hsupervisor
    exact ⟨hsupervisor, hset.trans hcr8⟩
  · rintro ⟨hsupervisor, hmem⟩ d
    by_cases hd : d = c
    · subst hd
      refine ⟨?_, (h d).cr8, ?_⟩
      · rw [haddr]
        exact hmem.trans (h d).cr8.symm
      · rw [haddr]
        exact hsupervisor
    · have hsame : (s.setGs c base).irqlAddr d = s.irqlAddr d := by
        simp [irqlAddr, setGs, hd]
      refine ⟨?_, (h d).cr8, ?_⟩
      · rw [hsame]
        exact (h d).set
      · rw [hsame]
        exact (h d).supervisor

/-- The machines have the same memory, mappings, GS bases and IRQLs. -/
theorem sound_congr {t : IrqlMachine} (hmem : t.mem = s.mem) (hmap : t.userWritable = s.userWritable)
    (hgs : t.gsBase = s.gsBase) (hcr8 : t.cr8 = s.cr8) (hlast : t.lastSet = s.lastSet) :
    (∀ c, t.ByteSound c) ↔ ∀ c, s.ByteSound c := by
  refine forall_congr' fun c => ?_
  have haddr : t.irqlAddr c = s.irqlAddr c := by rw [irqlAddr, irqlAddr, hgs]
  constructor
  · rintro ⟨hset, heq, hsup⟩
    rw [haddr] at hset hsup
    rw [hmem, hlast] at hset
    rw [hlast, hcr8] at heq
    rw [hmap] at hsup
    exact ⟨hset, heq, hsup⟩
  · rintro ⟨hset, heq, hsup⟩
    refine ⟨?_, ?_, ?_⟩
    · rw [haddr, hmem, hlast]
      exact hset
    · rw [hlast, hcr8]
      exact heq
    · rw [haddr, hmap]
      exact hsup

/-- A store elsewhere, or of the same value. -/
theorem store_sound_iff (h : ∀ c, s.ByteSound c) (addr : Nat) (b : UInt8) :
    (∀ c, ByteSound { s with mem := Function.update s.mem addr b } c) ↔
      ∀ c, addr = s.irqlAddr c → b = s.mem addr := by
  constructor
  · rintro hsound c rfl
    have hset := (hsound c).set
    have hb : Function.update s.mem (s.irqlAddr c) b (s.irqlAddr c) = b := Function.update_self _ _ _
    exact hb.symm.trans (hset.trans (h c).set.symm)
  · intro hok c
    refine ⟨Eq.trans ?_ (h c).set, (h c).cr8, (h c).supervisor⟩
    show Function.update s.mem addr b (s.irqlAddr c) = _
    by_cases ha : s.irqlAddr c = addr
    · rw [hok c ha.symm]
      exact congrFun (Function.update_eq_self addr s.mem) _
    · exact Function.update_of_ne ha _ _

/-- The condition of an event that points GS somewhere. -/
theorem target_ok_iff {b : Cpu} {base : Nat} {e : IrqlEvent} (htarget : s.gsTarget e = some (b, base)) :
    (∀ c base', s.gsTarget e = some (c, base') →
      s.userWritable (base' + kpcrIrql) = false ∧ s.mem (base' + kpcrIrql) = s.cr8 c) ↔
      s.userWritable (base + kpcrIrql) = false ∧ s.mem (base + kpcrIrql) = s.cr8 b := by
  constructor
  · intro h
    exact h b base htarget
  · intro h c base' htarget'
    rw [htarget] at htarget'
    cases htarget'
    exact h

/-- An event that points GS somewhere, whatever else it does to threads and rings. -/
theorem target_sound_iff (h : ∀ c, s.ByteSound c) {t : IrqlMachine} {b : Cpu} {base : Nat}
    {e : IrqlEvent} (htarget : s.gsTarget e = some (b, base)) (hmem : t.mem = s.mem)
    (hmap : t.userWritable = s.userWritable) (hgs : t.gsBase = (s.setGs b base).gsBase)
    (hcr8 : t.cr8 = s.cr8) (hlast : t.lastSet = s.lastSet) :
    (∀ c, t.ByteSound c) ↔ ∀ c base', s.gsTarget e = some (c, base') →
      s.userWritable (base' + kpcrIrql) = false ∧ s.mem (base' + kpcrIrql) = s.cr8 c :=
  (sound_congr (s := s.setGs b base) hmem hmap hgs hcr8 hlast).trans
    ((setGs_sound_iff h base).trans (target_ok_iff htarget).symm)

/-- A step keeps the IRQL bytes sound exactly if it meets its condition. -/
theorem step_sound_iff (h : ∀ c, s.ByteSound c) {e : IrqlEvent} (hstep : s.irqlStep e = some s') :
    (∀ c, s'.ByteSound c) ↔ s.EventOk e := by
  cases e with
  | raise c v =>
    rcases keRaiseIrql_cases hstep with ⟨hlt, hw⟩ | ⟨hle, rfl⟩
    · refine (write_sound_iff h hw).trans (or_congr ⟨fun heq => heq ▸ UInt8.le_refl v, fun hle => ?_⟩ Iff.rfl)
      exact absurd hlt (UInt8.not_lt.2 hle)
    · exact iff_of_true h (.inl hle)
  | lower c v => exact write_sound_iff h hstep
  | userStore c addr b =>
    obtain ⟨⟨-, hwritable⟩, heq⟩ := Option.ite_none_right_eq_some.1 hstep
    obtain rfl := Option.some.inj heq
    refine iff_of_true ((store_sound_iff h addr b).2 fun d hd => ?_) nofun
    rw [hd, (h d).supervisor] at hwritable
    cases hwritable
  | kernelStore addr b =>
    obtain rfl := Option.some.inj hstep
    exact store_sound_iff h addr b
  | mapUser writable =>
    obtain rfl := Option.some.inj hstep
    exact ⟨fun hsound c => (hsound c).supervisor, fun hok c => ⟨(h c).set, (h c).cr8, hok c⟩⟩
  | enablePreemption =>
    obtain rfl := Option.some.inj hstep
    exact iff_of_true (fun d => ⟨(h d).set, (h d).cr8, (h d).supervisor⟩) nofun
  | trap c =>
    obtain rfl := Option.some.inj hstep
    exact iff_of_true (fun d => ⟨(h d).set, (h d).cr8, (h d).supervisor⟩) nofun
  | iret c =>
    obtain rfl := Option.some.inj hstep
    exact iff_of_true (fun d => ⟨(h d).set, (h d).cr8, (h d).supervisor⟩) nofun
  | launchRing3Thread t teb =>
    obtain rfl := Option.some.inj hstep
    exact iff_of_true (fun d => ⟨(h d).set, (h d).cr8, (h d).supervisor⟩) nofun
  | quantumEnd next =>
    by_cases hactive : s.ring3Active = true
    · rw [irqlStep, if_pos hactive] at hstep
      obtain rfl := Option.some.inj hstep
      exact target_sound_iff h (if_pos hactive) rfl rfl rfl rfl rfl
    · rw [irqlStep, if_neg hactive] at hstep
      obtain rfl := Option.some.inj hstep
      refine iff_of_true h fun c base htarget => ?_
      rw [gsTarget, if_neg hactive] at htarget
      cases htarget
  | loadGs c =>
    obtain ⟨-, heq⟩ := Option.ite_none_right_eq_some.1 hstep
    obtain rfl := Option.some.inj heq
    exact target_sound_iff h rfl rfl rfl rfl rfl rfl
  | _ =>
    obtain rfl := Option.some.inj hstep
    exact target_sound_iff h rfl rfl rfl rfl rfl rfl

end IrqlMachine

/-! ## Whole runs -/

theorem IrqlBoot.guarded (b : IrqlBoot) : b.machine.Guarded :=
  IrqlMachine.guarded_of_sound fun c =>
    ⟨(b.passive c).1.trans (b.passive c).2.1.symm, (b.passive c).2.1.trans (b.passive c).2.2.symm,
      b.supervisor c⟩

/-- A boot with the KPCR of CPU 0 at 16 MiB and those of the others on the pages behind it, and
the stack window of ring 3 mapped. -/
def plainBoot : IrqlBoot where
  machine :=
    { mem := fun _ => 0
      userWritable := fun a => decide (0x600000 ≤ a ∧ a < 0x800000)
      kpcr := 0x1000000
      gsBase := fun c => 0x1000000 + 0x1000 * c.val
      cr8 := fun _ => 0
      lastSet := fun _ => 0
      inRing3 := fun _ => false
      p4Active := true
      ring3Active := false
      threads := fun _ => ⟨false, 0⟩ }
  passive c := ⟨rfl, rfl, rfl⟩
  supervisor c := by
    refine decide_eq_false ?_
    simp only [IrqlMachine.irqlAddr, kpcrIrql]
    omega

end MeuOS.Ke
