import MeuOS.Ke.Ring3Runs

/-! A parent behind `run_child_image`. The registers that the calls have saved make a stack for
each thread; a step pushes one, takes one off or leaves the stack as it is, and so the call that
returns is the one that put its parent's registers there. -/
namespace MeuOS.Ke

open MeuOS.Lib

/-- What the calls of `run_child_image` on the thread have saved, the last one first. -/
def Ring3Thread.saved (th : Ring3Thread) : List ParentState := th.children.map ChildContext.saved

namespace Ring3Machine

variable {s s' : Ring3Machine} {e : Ring3Event}

theorem saved_length (th : Ring3Thread) : th.saved.length = th.children.length := List.length_map _

theorem update_saved (a : Nat) (th : Ring3Thread) (t : Nat) :
    (Function.update s.thread a th t).saved = (s.thread t).saved ∨
      t = a ∧ (Function.update s.thread a th t).saved = th.saved := by
  by_cases ht : t = a
  · subst ht
    rw [Function.update_self]
    exact .inr ⟨rfl, rfl⟩
  · rw [Function.update_of_ne ht]
    exact .inl rfl

/-- A change of the current thread that leaves its saved registers. -/
theorem update_saved_same {th : Ring3Thread} (hth : th.saved = s.currentThread.saved) (t : Nat) :
    (Function.update s.thread s.current th t).saved = (s.thread t).saved := by
  rcases update_saved (s := s) s.current th t with hsame | ⟨rfl, hnew⟩
  · exact hsame
  · exact hnew.trans hth

theorem pushFrame_saved (t : Nat) : (s.pushFrame.thread t).saved = (s.thread t).saved := by
  have hall : ∀ (f : Ring3Context → Ring3Context) (th : Ring3Thread),
      (th.mapContexts f).saved = th.saved := fun f th => List.map_map
  refine (update_saved_same (Ring3Thread.mapInnermost_saved _ _) t).trans ?_
  exact hall _ _

theorem usermodeEnter_saved (image : Ring3Image) (depth t : Nat) :
    ((s.usermodeEnter image depth).thread t).saved = (s.thread t).saved := by
  refine update_saved_same (s := s) ?_ t
  rfl

theorem kiQuantumEnd_thread (next : Nat) : (s.kiQuantumEnd next).thread = s.thread := by
  show (if s.ring3Active = true then _ else _ : Ring3Machine).thread = _
  split <;> rfl

/-- The jump changes the current thread only. -/
theorem longjmpExit_thread (hjump : s.longjmpExit = some s') :
    ∃ th, s'.thread = Function.update s.thread s.current th := by
  unfold longjmpExit at hjump
  simp only at hjump
  split at hjump
  · obtain rfl := Option.some.inj hjump
    exact ⟨s.currentThread, (Function.update_eq_self s.current s.thread).symm⟩
  · split at hjump
    · obtain rfl := Option.some.inj hjump
      exact ⟨_, rfl⟩
    · obtain rfl := Option.some.inj hjump
      exact ⟨_, rfl⟩
    · cases hjump

theorem jump_saved (hjump : s.longjmpExit = some s') (t : Nat) :
    (s'.thread t).saved = (s.thread t).saved ∨ t = s.current := by
  obtain ⟨th, hth⟩ := longjmpExit_thread hjump
  rw [hth]
  exact (update_saved s.current th t).imp_right And.left

/-- The jump goes back to the innermost call on the thread, or is lost. -/
theorem longjmpExit_move (hjump : s.longjmpExit = some s') :
    StackMove (s.thread s.current).saved (s'.thread s.current).saved := by
  unfold longjmpExit at hjump
  simp only at hjump
  split at hjump
  · obtain rfl := Option.some.inj hjump
    exact .keep _
  · split at hjump
    case h_1 c rest hchildren =>
      obtain rfl := Option.some.inj hjump
      have hold : (s.thread s.current).saved = c.saved :: rest.map ChildContext.saved :=
        congrArg (List.map _) hchildren
      have hnew : Ring3Thread.saved (Function.update s.thread s.current
          { s.currentThread with children := rest } s.current) = rest.map ChildContext.saved := by
        rw [Function.update_self]
        rfl
      rw [hold]
      show StackMove _ (Ring3Thread.saved (Function.update s.thread s.current _ s.current))
      rw [hnew]
      exact .pop _ _
    case h_2 b hchildren hbase =>
      obtain rfl := Option.some.inj hjump
      show StackMove _ (Ring3Thread.saved (Function.update s.thread s.current _ s.current))
      rw [Function.update_self]
      exact .keep _
    case h_3 => cases hjump

/-- What a step does to the saved registers of a thread. -/
theorem step_saved (hstep : Ring3Step s e s') (t : Nat) :
    (s'.thread t).saved = (s.thread t).saved ∨
    (∃ p, (s'.thread t).saved = p :: (s.thread t).saved) ∨
    (t = s.current ∧ e.EndsProcess ∧ s.inRing3 = false ∧ s.longjmpExit = some s') ∨
    (s'.thread t).saved = [] ∧ (t = s.current ∧ e.EndsThread ∨ t = s.created) := by
  cases hstep with
  | trap hring => exact .inl (pushFrame_saved t)
  | iret c hserving => exact .inl (update_saved_same (Ring3Thread.mapInnermost_saved _ _) t)
  | ring3Trampoline b hkernel hbase hnew halone => exact .inl rfl
  | quantumEnd next hkernel hnext hother =>
    rw [kiQuantumEnd_thread]
    exact .inl rfl
  | ldrRun image hkernel hboot hbase halive =>
    refine .inl (.trans ?_ (usermodeEnter_saved image 0 t))
    refine update_saved_same (s := s.usermodeEnter image 0) ?_ t
    rfl
  | runChildImage image kstk c hserving hfresh =>
    let entered := { s with rsp0 := kstk }.usermodeEnter image (s.currentThread.children.length + 1)
    have hentered : ∀ t, (entered.thread t).saved = (s.thread t).saved :=
      usermodeEnter_saved (s := { s with rsp0 := kstk }) image _
    rcases update_saved (s := entered) s.current _ t with hsame | ⟨rfl, hnew⟩
    · exact .inl (hsame.trans (hentered t))
    · refine .inr (.inl ⟨s.snapshot, hnew.trans ?_⟩)
      exact congrArg _ (hentered s.current)
  | launchRing3Thread teb kstack procCr3 c hserving hfresh =>
    rcases update_saved (s := s) s.created _ t with hsame | ⟨ht, hnew⟩
    · exact .inl hsame
    · exact .inr (.inr (.inr ⟨hnew, .inr ht⟩))
  | createSystemThread kstack hkernel hfresh =>
    rcases update_saved (s := s) s.created _ t with hsame | ⟨ht, hnew⟩
    · exact .inl hsame
    · exact .inr (.inr (.inr ⟨hnew, .inr ht⟩))
  | sysExitMain _ rsp c hserving hrsp hjump =>
    rcases jump_saved hjump t with hsame | ht
    · exact .inl hsame
    · exact .inr (.inr (.inl ⟨ht, hrsp, hserving.1, hjump⟩))
  | sysExitWorker rsp c hserving hrsp =>
    rcases update_saved (s := s) s.current _ t with hsame | ⟨ht, hnew⟩
    · exact .inl hsame
    · exact .inr (.inr (.inr ⟨hnew, .inl ⟨ht, hrsp⟩⟩))
  | terminateProcess _ c hserving hjump =>
    rcases jump_saved hjump t with hsame | ht
    · exact .inl hsame
    · exact .inr (.inr (.inl ⟨ht, trivial, hserving.1, hjump⟩))
  | sysThreadExit c hserving =>
    rcases update_saved (s := s) s.current _ t with hsame | ⟨ht, hnew⟩
    · exact .inl hsame
    · exact .inr (.inr (.inr ⟨hnew, .inl ⟨ht, trivial⟩⟩))
  | userWrite off b hring hoff => exact .inl rfl

theorem step_move (hstep : Ring3Step s e s') (t : Nat) :
    StackMove (s.thread t).saved (s'.thread t).saved := by
  rcases step_saved hstep t with hsame | ⟨p, hpush⟩ | ⟨rfl, -, -, hjump⟩ | ⟨hclear, -⟩
  · rw [hsame]
    exact .keep _
  · rw [hpush]
    exact .push _ _
  · exact longjmpExit_move hjump
  · rw [hclear]
    exact .clear _

/-- A thread loses saved registers only in the jump of its innermost process. -/
theorem Inv.step_shrinks (h : s.Inv) (hok : s.EventOk e) (hstep : Ring3Step s e s') {t : Nat}
    (hless : (s'.thread t).saved.length < (s.thread t).saved.length) :
    t = s.current ∧ e.EndsProcess ∧ s.inRing3 = false ∧ s.longjmpExit = some s' := by
  have hempty : t = s.current ∧ e.EndsThread ∨ t = s.created → (s.thread t).saved = [] := by
    rintro (⟨rfl, hends⟩ | rfl)
    · exact congrArg (List.map _) (hok.thread hends)
    · exact congrArg (List.map _) (h.uncreated _ le_rfl).2
  rcases step_saved hstep t with hsame | ⟨p, hpush⟩ | hjump | ⟨-, hclear⟩
  · rw [hsame] at hless
    exact absurd hless (lt_irrefl _)
  · rw [hpush, List.length_cons] at hless
    omega
  · exact hjump
  · rw [hempty hclear] at hless
    exact absurd hless (Nat.not_lt_zero _)

/-- What `run_child_image` has put on the stack. -/
theorem runChildImage_saved (image : Ring3Image) (kstk : Nat) :
    ((s.runChildImage image kstk).thread s.current).saved = s.snapshot :: s.currentThread.saved := by
  let entered := { s with rsp0 := kstk }.usermodeEnter image (s.currentThread.children.length + 1)
  have hentered : (entered.thread s.current).saved = s.currentThread.saved :=
    usermodeEnter_saved (s := { s with rsp0 := kstk }) image _ s.current
  show Ring3Thread.saved (Function.update entered.thread s.current _ s.current) = _
  rw [Function.update_self]
  exact congrArg _ hentered

/-- The innermost context of the current thread waits in the kernel with its registers loaded. -/
theorem Inv.waiting (h : s.Inv) {c : Ring3Context} (hc : s.currentThread.innermost = some c)
    (hframe : c.frame ≠ none) :
    c.frame = some s.rsp0 ∧ c.intact = true ∧ s.gsBase = c.teb ∧ s.cr3 = c.cr3 := by
  have hfits := (h.sound s.current).fits _ (Ring3Thread.innermost_mem hc)
  refine ⟨?_, hfits.intact, h.regs c hc⟩
  rw [(h.active_of_innermost hc).2]
  exact hfits.frame.resolve_left hframe

/-- The jump that takes the child off goes back to the parent. -/
theorem Inv.resumed {s₂ s₃ : Ring3Machine} (h₂ : s₂.Inv) (hcur : s₂.current = s.current)
    (hstack : s.snapshot :: s.currentThread.saved <:+ s₂.currentThread.saved)
    (hok : s₂.exitBuffer = some ⟨s₂.current, s₂.currentThread.children.length⟩)
    (hkernel : s₂.inRing3 = false) (hjump : s₂.longjmpExit = some s₃) (h₃ : s₃.Inv)
    (hless : (s₃.thread s.current).saved.length ≤ s.currentThread.saved.length) : s.Resumed s₃ := by
  rcases longjmpExit_cases hjump hok with ⟨ch, rest, hchildren, rfl⟩ | ⟨b, hchildren, -, -⟩
  · have hsaved : s₂.currentThread.saved = ch.saved :: rest.map ChildContext.saved :=
      congrArg (List.map _) hchildren
    have hrest : (s₂.setCurrent { s₂.currentThread with children := rest }).currentThread.saved =
        rest.map ChildContext.saved := by
      rw [currentThread_setCurrent]
      rfl
    have hlen : (rest.map ChildContext.saved).length ≤ s.currentThread.saved.length := by
      rw [← hrest]
      rw [← hcur] at hless
      exact hless
    -- The stack is as high as the one that the call has left.
    have heq : s.snapshot :: s.currentThread.saved = ch.saved :: rest.map ChildContext.saved := by
      rw [hsaved] at hstack
      refine hstack.eq_of_length_le ?_
      simp only [List.length_cons]
      omega
    have hsnap : ch.saved = s.snapshot := (List.cons.inj heq).1.symm
    obtain ⟨-, p, hp, -, -, hframe⟩ := h₂.parent hchildren
    have hinner : Ring3Machine.currentThread ((s₂.setCurrent { s₂.currentThread with
        children := rest }).restoreParent ch.saved) = { s₂.currentThread with children := rest } := by
      show Function.update s₂.thread s₂.current _ s₂.current = _
      rw [Function.update_self]
    have hc : (Ring3Machine.currentThread ((s₂.setCurrent { s₂.currentThread with
        children := rest }).restoreParent ch.saved)).innermost = some p := by
      rw [hinner]
      exact hp
    obtain ⟨hrsp0, hintact, hgs, hcr3⟩ := h₃.waiting hc hframe
    refine ⟨hcur, hsnap, p, ⟨hkernel, hc, hframe⟩, ?_, hintact, ?_, ?_⟩
    · exact hrsp0.trans (congrArg (fun q : ParentState => some q.rsp0) hsnap)
    · exact (congrArg ParentState.gsBase hsnap).symm.trans hgs
    · exact (congrArg ParentState.cr3 hsnap).symm.trans hcr3
  · have hnil : s₂.currentThread.saved = [] := congrArg (List.map _) hchildren
    rw [hnil] at hstack
    exact absurd (List.suffix_nil.1 hstack) nofun

end Ring3Machine

namespace Ring3Machine

/-- `kmain` with its boot stack at 0x9000. -/
def atBoot : Ring3Machine where
  thread := fun _ => ⟨false, 0, 0x9000, false, none, []⟩
  created := 1
  current := 0
  inRing3 := false
  ring3Active := false
  rsp0 := 0x9000
  gsBase := 0x5000
  cr3 := 0x1000
  exitBuffer := none
  window := fun _ => 0
  kpcr := 0x5000
  lost := false

theorem atBoot_booted : Ring3Booted atBoot :=
  ⟨⟨rfl, rfl, rfl, rfl⟩, rfl, ⟨rfl, by decide⟩, fun _ => ⟨rfl, rfl⟩⟩

/-- An application that there is no memory for another address space for. -/
def sharedImage : Ring3Image := ⟨0x400000, [], 0⟩

/-- The application is in a service of the kernel. -/
def inService : Ring3Machine := (atBoot.ldrRun sharedImage).pushFrame

/-- Its child is in a service of the kernel. -/
def childInService : Ring3Machine := (inService.runChildImage sharedImage 0x8000).pushFrame

theorem inService_reached {guard : Ring3Machine → Ring3Event → Prop}
    (hrun : guard atBoot (.ldrRun sharedImage)) (htrap : guard (atBoot.ldrRun sharedImage) .trap) :
    Reach Ring3Booted Ring3Step guard inService :=
  .step (.step (.start atBoot_booted) hrun (.ldrRun _ _ rfl rfl rfl rfl)) htrap (.trap _ rfl)

end Ring3Machine

end MeuOS.Ke
