import MeuOS.Ke.Interrupt

/-! The timer interrupt and the code under it. A thread that holds a lock of the handler runs
with interrupts off, so that no handler comes on top of it. -/
namespace MeuOS.Ke

open MeuOS.Lib

/-- A handler waits for a lock that the code under it holds. -/
def IsrSpins (s : LockSys) : Prop :=
  ∃ cpu t l ready rest, s.running cpu = some t ∧ (s.context t).handler = some (.lock l ready :: rest) ∧
    s.owner l = some ⟨t, false⟩

/-- It takes `s_tlock` or the lock of a DPC queue. -/
def Op.takesTimerLock : Op → Bool
  | .lock l _ => l ≠ .dispatcher
  | _ => false

/-- Outside the handler, processor 0 takes `s_tlock` and the locks of the DPC queues with
interrupts off. -/
def InterruptsOff (s : LockSys) : LockAction → Prop
  | .run cpu _ => cpu = 0 → ∀ t ∈ s.running 0, (s.context t).handler.isNone →
      ∀ op ∈ (s.context t).code.head?, op.takesTimerLock → (s.context t).iflag = false
  | _ => True

instance (s : LockSys) (a : LockAction) : Decidable (InterruptsOff s a) := by
  cases a <;> unfold InterruptsOff <;> infer_instance

variable {s s' : LockSys} {t u : Tid} {cpu : Nat} {f : Bool} {o : Outcome} {op : Op} {ops rest : List Op}

/-! ## What calls consist of -/

/-- It can stand anywhere in a program: a lock that was saved for, and a lock that is held, are
always what comes next. -/
def Op.placed : Op → Bool
  | .lock l _ => l ≠ .dispatcher
  | .unlock _ _ => false
  | _ => true

/-- It does not switch interrupts on. -/
def Op.keepsOff : Op → Bool
  | .irqRestore f => !f
  | _ => true

/-- It occurs in `ki_quantum_end`. -/
def Op.quantum : Op → Bool
  | .call .kiQuantumEnd => true
  | .call _ => false
  | .lock l _ => l = .dispatcher
  | .unlock l _ => l = .dispatcher
  | .swap sleeps => !sleeps
  | _ => true

theorem Expiry.ops_plain (x : Expiry) : ∀ op ∈ x.ops, op.placed = true ∧ op.keepsOff = true := by
  unfold Expiry.ops
  cases x.dpc <;> cases x.periodic <;> simp [Op.placed, Op.keepsOff]

/-- The operations of a call can stand anywhere, and entered with interrupts off it leaves them
off. -/
theorem body_plain {c : Call} (h : body cpu f c o = some ops) :
    ∀ op ∈ ops, op.placed = true ∧ (f = false → op.keepsOff = true) := by
  cases c
  case kiTimerTick =>
    cases o <;> simp only [body, Option.ite_none_right_eq_some, Option.some.injEq, reduceCtorEq] at h
    case returns => simp [← h]
    case expired timers =>
      obtain ⟨-, rfl⟩ := h
      intro op hop
      rcases List.mem_cons.1 hop with rfl | hop
      · exact ⟨rfl, fun _ => rfl⟩
      · obtain ⟨x, -, hx⟩ := List.mem_flatMap.1 hop
        exact ⟨(x.ops_plain op hx).1, fun _ => (x.ops_plain op hx).2⟩
  case kiRetireDpcList c =>
    cases o <;> simp only [body, Option.some.injEq, reduceCtorEq] at h
    case returns => simp [← h]
    case refused => simp [← h, Op.placed, Op.keepsOff]
    case routine calls =>
      subst h
      intro op hop
      simp only [List.cons_append, List.mem_cons, List.mem_append, List.mem_map, List.not_mem_nil,
        or_false] at hop
      rcases hop with rfl | ⟨c, -, rfl⟩ | rfl <;> simp [Op.placed, Op.keepsOff]
  case kiWake =>
    cases o <;> simp only [body, Option.ite_none_right_eq_some, Option.some.injEq, reduceCtorEq] at h
    case batch threads =>
      obtain ⟨-, rfl⟩ := h
      simp [Op.placed, Op.keepsOff]
  case keRemoveQueueDpc =>
    cases o <;> simp only [body, Option.ite_none_right_eq_some, Option.some.injEq, reduceCtorEq] at h
    case returns => simp [← h]
    case number c =>
      obtain ⟨-, rfl⟩ := h
      simp [Op.placed, Op.keepsOff]
  all_goals
    cases o <;> simp only [body, Option.some.injEq, reduceCtorEq] at h
    all_goals simp [← h, Op.placed, Op.keepsOff]

theorem body_quantum (h : body cpu f .kiQuantumEnd o = some ops) : ∀ op ∈ ops, op.quantum = true := by
  cases o <;> simp only [body, Option.some.injEq, reduceCtorEq] at h
  all_goals simp [← h, Op.quantum]

theorem isrHandler_keepsOff (cpu : Nat) (preempts : Bool) : ∀ op ∈ isrHandler cpu preempts,
    op.keepsOff = true ∧ (cpu ≠ 0 → op.quantum = true) := by
  unfold isrHandler
  by_cases hcpu : cpu = 0 <;> cases preempts <;> simp [hcpu, Op.keepsOff, Op.quantum]

/-! ## The context of one thread -/

/-- What holds of a thread whose own code, under the handler if there is one, holds the locks
`held`. -/
structure Context.Sound (c : Context) (held : SpinLock → Prop) : Prop where
  placed : ∀ op ∈ c.code.tail, op.placed = true
  saved : ∀ ready rest, c.code = .lock .dispatcher ready :: rest → c.handler = none ∧ c.iflag = false
  holds : ∀ l, held l → ∃ ready rest, c.code = .unlock l ready :: rest
  shielded : ∀ l, held l → l = .dispatcher ∨ c.home = 0 → c.handler = none ∧ c.iflag = false
  off : ∀ h, c.handler = some h → c.iflag = false ∧ ∀ op ∈ h, op.keepsOff = true
  apart : ∀ h, c.handler = some h → (∀ l, ¬held l) ∨ ∀ op ∈ h, op.quantum = true
  asleep : c.waiting = true → ∀ l, ¬held l

variable {c c' : Context} {held held' : SpinLock → Prop}

theorem Context.Sound.mono (h : c.Sound held) (hheld : ∀ l, held' l → held l) : c.Sound held' where
  placed := h.placed
  saved := h.saved
  holds l hl := h.holds l (hheld l hl)
  shielded l hl := h.shielded l (hheld l hl)
  off := h.off
  apart l hl := (h.apart l hl).imp_left fun hnone l hl => hnone l (hheld l hl)
  asleep hw l hl := h.asleep hw l (hheld l hl)

/-- A thread outside the handler that holds no lock. -/
theorem Context.Sound.of_free (hhandler : c.handler = none) (hplaced : ∀ op ∈ c.code.tail, op.placed = true)
    (hsaved : ∀ ready rest, c.code = .lock .dispatcher ready :: rest → c.iflag = false)
    (hfree : ∀ l, ¬held l) : c.Sound held where
  placed := hplaced
  saved ready rest hcode := ⟨hhandler, hsaved ready rest hcode⟩
  holds l hl := absurd hl (hfree l)
  shielded l hl := absurd hl (hfree l)
  off h hh := by
    rw [hhandler] at hh
    cases hh
  apart _ _ := .inl hfree
  asleep _ := hfree

/-- The code below an operation of its own holds nothing, unless it is a release. -/
theorem Context.Sound.free (h : c.Sound held) (hcode : c.code = op :: rest)
    (hop : ∀ l ready, op ≠ .unlock l ready) : ∀ l, ¬held l := by
  intro l hl
  obtain ⟨ready, rest', hcode'⟩ := h.holds l hl
  rw [hcode, List.cons.injEq] at hcode'
  exact hop l ready hcode'.1

/-- The handler went on, over code that stays as it is. -/
theorem Context.Sound.handled (h : c.Sound held) {old new : List Op} (hold : c.handler = some old)
    (hcode : c'.code = c.code) (hhome : c'.home = c.home) (hhandler : c'.handler = some new) (hiflag : c'.iflag = false)
    (hoff : ∀ op ∈ new, op.keepsOff = true)
    (hquantum : (∀ op ∈ old, op.quantum = true) → ∀ op ∈ new, op.quantum = true)
    (hasleep : c'.waiting = true → c.waiting = true ∨ ∀ l, ¬held l) : c'.Sound held where
  placed := by
    rw [hcode]
    exact h.placed
  saved ready rest hlock := by
    rw [hcode] at hlock
    rw [(h.saved ready rest hlock).1] at hold
    cases hold
  holds l hl := by
    rw [hcode]
    exact h.holds l hl
  shielded l hl hwhere := by
    rw [hhome] at hwhere
    rw [(h.shielded l hl hwhere).1] at hold
    cases hold
  off l hl := by
    rw [hhandler, Option.some.injEq] at hl
    exact ⟨hiflag, hl ▸ hoff⟩
  apart l hl := by
    rw [hhandler, Option.some.injEq] at hl
    rcases h.apart old hold with hnone | hall
    · exact .inl hnone
    · exact .inr (hl ▸ hquantum hall)
  asleep hw := by
    rcases hasleep hw with hbefore | hnone
    · exact h.asleep hbefore
    · exact hnone

/-! ## Steps -/

structure LockInv (s : LockSys) : Prop where
  running : ∀ cpu t, s.running cpu = some t → (s.context t).home = cpu ∧ (s.context t).waiting = false
  sound : ∀ t, (s.context t).Sound fun l => s.owner l = some ⟨t, false⟩

theorem LockSys.setContext_context (s : LockSys) (t : Tid) (c : Context) :
    (s.setContext t c).context = Function.update s.context t c := rfl

theorem LockSys.setOwner_context (s : LockSys) (owner : SpinLock → Option Holder) (t : Tid) (c : Context) :
    ({ s with owner := owner }.setContext t c).context = Function.update s.context t c := rfl

theorem LockSys.setRunning_context (s : LockSys) (running : Nat → Option Tid) (t : Tid) (c : Context) :
    { s.setContext t c with running := running }.context = Function.update s.context t c := rfl

/-- One thread did something, and the others hold what they held. -/
theorem LockInv.update (h : LockInv s) (hcontext : s'.context = Function.update s.context t c')
    (hsound : c'.Sound fun l => s'.owner l = some ⟨t, false⟩)
    (howner : ∀ u, u ≠ t → ∀ l, s'.owner l = some ⟨u, false⟩ → s.owner l = some ⟨u, false⟩)
    (hrunning : ∀ cpu u, s'.running cpu = some u →
      (s'.context u).home = cpu ∧ (s'.context u).waiting = false) : LockInv s' := by
  refine ⟨hrunning, fun u => ?_⟩
  rw [hcontext]
  by_cases heq : u = t
  · subst heq
    rw [Function.update_self]
    exact hsound
  · rw [Function.update_of_ne heq]
    exact (h.sound u).mono (howner u heq)

/-- The thread stays where it is. -/
theorem LockInv.stays (h : LockInv s) (hcontext : s'.context = Function.update s.context t c')
    (hrun : s'.running = s.running) (hhome : c'.home = (s.context t).home)
    (hwaiting : c'.waiting = (s.context t).waiting) : ∀ cpu u, s'.running cpu = some u →
      (s'.context u).home = cpu ∧ (s'.context u).waiting = false := by
  intro cpu u hu
  rw [hrun] at hu
  have hbefore := h.running cpu u hu
  rw [hcontext]
  by_cases heq : u = t
  · subst heq
    rwa [Function.update_self, hhome, hwaiting]
  · rwa [Function.update_of_ne heq]

theorem LockInv.insertReady (h : LockInv s) (ready : Option (Tid × Nat)) : LockInv (s.insertReady ready) := by
  unfold LockSys.insertReady
  split
  case h_1 u cpu =>
    split
    case isTrue hwaiting =>
      have hold := h.sound u
      have hfree := hold.asleep hwaiting
      apply h.update (t := u) rfl
      · exact ⟨hold.placed, hold.saved, hold.holds, fun l hl => absurd hl (hfree l), hold.off,
          fun _ _ => .inl hfree, fun _ => hfree⟩
      · exact fun _ _ _ hl => hl
      · intro c v hv
        have hbefore := h.running c v hv
        have hne : v ≠ u := by
          rintro rfl
          rw [hbefore.2] at hwaiting
          cases hwaiting
        show (Function.update s.context u _ v).home = c ∧ (Function.update s.context u _ v).waiting = false
        rwa [Function.update_of_ne hne]
    case isFalse => exact h
  case h_2 => exact h

/-- A thread outside the handler that holds nothing before and after. -/
theorem LockInv.own (h : LockInv s) (hcontext : s'.context = Function.update s.context t c')
    (howner : s'.owner = s.owner) (hhandler : c'.handler = none)
    (hcode : (s.context t).code = op :: rest) (hop : ∀ l ready, op ≠ .unlock l ready)
    (hplaced : ∀ op ∈ c'.code.tail, op.placed = true)
    (hsaved : ∀ ready rest, c'.code = .lock .dispatcher ready :: rest → c'.iflag = false)
    (hrunning : ∀ cpu u, s'.running cpu = some u →
      (s'.context u).home = cpu ∧ (s'.context u).waiting = false) : LockInv s' := by
  apply h.update hcontext ?_ (fun _ _ _ hl => by rwa [howner] at hl) hrunning
  apply Context.Sound.of_free hhandler hplaced hsaved
  rw [howner]
  exact (h.sound t).free hcode hop

theorem setOps_own (hhandler : c.handler = none) (l : List Op) : c.setOps l = { c with code := l } := by
  unfold Context.setOps
  rw [hhandler]

theorem setOps_handler (hhandler : c.handler = some ops) (hiflag : c.iflag = false) (l : List Op) :
    c.setOps l = { c with handler := some l, iflag := false } := by
  unfold Context.setOps
  rw [hhandler, ← hiflag]

/-- The processor goes from one of its threads to another. -/
theorem LockInv.switched (h : LockInv s) (hrun : s.running cpu = some t) (hne : u ≠ t)
    (hawake : (s.context u).waiting = false) (hhome : (s.context u).home = cpu)
    (hsame : c'.home = (s.context t).home) : ∀ c v, Function.update s.running cpu (some u) c = some v →
      (Function.update s.context t c' v).home = c ∧ (Function.update s.context t c' v).waiting = false := by
  intro c v hv
  by_cases hc : c = cpu
  · subst hc
    obtain rfl : u = v := by simpa using hv
    rw [Function.update_of_ne hne]
    exact ⟨hhome, hawake⟩
  · rw [Function.update_of_ne hc] at hv
    have hbefore := h.running c v hv
    have hother : v ≠ t := by
      rintro rfl
      exact hc (hbefore.1.symm.trans (h.running cpu v hrun).1)
    rwa [Function.update_of_ne hother]

/-- An operation of a thread outside the handler. -/
theorem runOp_own (h : LockInv s) (hrun : s.running cpu = some t)
    (hhandler : (s.context t).handler = none) (hcode : (s.context t).code = op :: rest)
    (hguard : cpu = 0 → ∀ l ready, op = .lock l ready → l ≠ .dispatcher → (s.context t).iflag = false)
    (hstep : runOp cpu t o rest s op = some s') : LockInv s' := by
  have hold := h.sound t
  have hplaced : ∀ op ∈ rest, op.placed = true := by
    have := hold.placed
    rwa [hcode] at this
  have htail : ∀ op ∈ rest.tail, op.placed = true := fun op hop => hplaced op (List.mem_of_mem_tail hop)
  have hrest : ∀ ready rest', rest ≠ .lock .dispatcher ready :: rest' := by
    rintro ready rest' rfl
    exact absurd (hplaced _ List.mem_cons_self) (by simp [Op.placed])
  cases op with
  | call call =>
    obtain ⟨ops, hbody, rfl⟩ := Option.map_eq_some_iff.1 hstep
    rw [setOps_own hhandler]
    have hall : ∀ op ∈ ops ++ rest, op.placed = true := by
      intro op hop
      rcases List.mem_append.1 hop with hop | hop
      · exact (body_plain hbody op hop).1
      · exact hplaced op hop
    have hcontext := s.setContext_context t { s.context t with code := ops ++ rest }
    apply h.own hcontext rfl hhandler hcode (by simp) (fun op hop => hall op (List.mem_of_mem_tail hop)) ?_
      (h.stays hcontext rfl rfl rfl)
    intro ready rest' heq
    exact absurd (hall (.lock .dispatcher ready) (by rw [show ops ++ rest = _ from heq]; simp))
      (by simp [Op.placed])
  | irqSave =>
    cases hstep
    rw [setOps_own hhandler]
    have hcontext := s.setContext_context t { s.context t with code := rest, iflag := false }
    exact h.own hcontext rfl hhandler hcode (by simp) htail (fun _ _ _ => rfl)
      (h.stays hcontext rfl rfl rfl)
  | irqRestore f =>
    cases hstep
    rw [setOps_own hhandler]
    have hcontext := s.setContext_context t { s.context t with code := rest, iflag := f }
    exact h.own hcontext rfl hhandler hcode (by simp) htail (fun _ _ heq => absurd heq (hrest _ _))
      (h.stays hcontext rfl rfl rfl)
  | irqSaveLock ready =>
    cases hstep
    rw [setOps_own hhandler]
    have hcontext := s.setContext_context t
      { s.context t with code := .lock .dispatcher ready :: rest, iflag := false }
    exact h.own hcontext rfl hhandler hcode (by simp) hplaced (fun _ _ _ => rfl)
      (h.stays hcontext rfl rfl rfl)
  | lock l ready =>
    have hfree := hold.free hcode (by simp)
    simp only [runOp, Option.ite_none_right_eq_some, Option.some.injEq] at hstep
    obtain ⟨hnone, rfl⟩ := hstep
    rw [setOps_own hhandler, hhandler]
    have hhome := h.running cpu t hrun
    have hheld : ∀ l', Function.update s.owner l (some ⟨t, false⟩) l' = some ⟨t, false⟩ → l' = l := by
      intro l' hl'
      by_contra hne
      rw [Function.update_of_ne hne] at hl'
      exact hfree l' hl'
    have hoff : l = .dispatcher ∨ (s.context t).home = 0 → (s.context t).iflag = false := by
      intro hwhere
      by_cases hl : l = .dispatcher
      · subst hl
        exact (hold.saved ready rest hcode).2
      · exact hguard (hhome.1 ▸ hwhere.resolve_left hl) l ready rfl hl
    apply h.update (s.setOwner_context _ t _)
    · refine ⟨hplaced, by simp, fun l' hl' => ?_, fun l' hl' hwhere => ?_, by simp,
        by simp, fun hwaiting => ?_⟩
      · exact ⟨ready, rest, by rw [hheld l' hl']⟩
      · exact ⟨rfl, hoff (hheld l' hl' ▸ hwhere)⟩
      · rw [show (s.context t).waiting = true from hwaiting] at hhome
        exact absurd hhome.2 (by simp)
    · intro u hu l' hl'
      by_cases heq : l' = l
      · subst heq
        have : t = u := by simpa [LockSys.setContext] using hl'
        exact absurd this.symm hu
      · simpa [LockSys.setContext, heq] using hl'
    · exact h.stays (s.setOwner_context _ t _) rfl rfl rfl
  | unlock l ready =>
    cases hstep
    apply LockInv.insertReady
    rw [setOps_own hhandler]
    have hless : ∀ u l', Function.update s.owner l none l' = some ⟨u, false⟩ →
        l' ≠ l ∧ s.owner l' = some ⟨u, false⟩ := by
      intro u l' hl'
      by_cases heq : l' = l
      · subst heq
        simp at hl'
      · exact ⟨heq, by simpa [heq] using hl'⟩
    apply h.update (s.setOwner_context _ t _)
    · refine .of_free hhandler htail (fun _ _ heq => absurd heq (hrest _ _)) fun l' hl' => ?_
      obtain ⟨hne, hbefore⟩ := hless t l' hl'
      obtain ⟨ready', rest', hcode'⟩ := hold.holds l' hbefore
      rw [hcode, List.cons.injEq] at hcode'
      exact hne (Op.unlock.inj hcode'.1).1.symm
    · exact fun u _ l' hl' => (hless u l' hl').2
    · exact h.stays (s.setOwner_context _ t _) rfl rfl rfl
  | swap sleeps =>
    cases o <;> simp only [runOp, reduceCtorEq, Option.ite_none_right_eq_some, Option.some.injEq] at hstep
    case next u =>
      obtain ⟨⟨hne, hawake, hhome⟩, rfl⟩ := hstep
      rw [setOps_own hhandler]
      have hfree := hold.free hcode (by simp)
      apply h.update (s.setRunning_context _ t _)
      · exact .of_free hhandler htail (fun _ _ heq => absurd heq (hrest _ _)) hfree
      · exact fun _ _ _ hl => hl
      · exact h.switched hrun hne hawake hhome rfl

/-- The handler went on and no lock came to a thread outside it. -/
theorem LockInv.handled (h : LockInv s) {old new : List Op} (hhandler : (s.context t).handler = some old)
    (hoff : ∀ op ∈ new, op.keepsOff = true)
    (hquantum : (∀ op ∈ old, op.quantum = true) → ∀ op ∈ new, op.quantum = true)
    (owner : SpinLock → Option Holder)
    (howner : ∀ u l, owner l = some ⟨u, false⟩ → s.owner l = some ⟨u, false⟩) :
    LockInv ({ s with owner := owner }.setContext t
      { s.context t with handler := some new, iflag := false }) := by
  have hcontext := s.setOwner_context owner t { s.context t with handler := some new, iflag := false }
  apply h.update hcontext ?_ (fun u _ l => howner u l) (h.stays hcontext rfl rfl rfl)
  exact ((h.sound t).mono fun l => howner t l).handled hhandler rfl rfl rfl rfl hoff hquantum .inl

/-- An operation of the handler. -/
theorem runOp_handler (h : LockInv s) (hrun : s.running cpu = some t)
    (hhandler : (s.context t).handler = some (op :: rest)) (hstep : runOp cpu t o rest s op = some s') :
    LockInv s' := by
  have hold := h.sound t
  obtain ⟨hiflag, hoff⟩ := hold.off _ hhandler
  have hset := setOps_handler hhandler hiflag
  have hrest : ∀ op ∈ rest, op.keepsOff = true := fun op hop => hoff op (List.mem_cons_of_mem _ hop)
  have hquantum : (∀ op' ∈ op :: rest, op'.quantum = true) → ∀ op ∈ rest, op.quantum = true :=
    fun hall op hop => hall op (List.mem_cons_of_mem _ hop)
  cases op with
  | call call =>
    obtain ⟨ops, hbody, rfl⟩ := Option.map_eq_some_iff.1 hstep
    rw [hset]
    rw [hiflag] at hbody
    apply h.handled hhandler _ _ s.owner fun _ _ hl => hl
    · intro op hop
      rcases List.mem_append.1 hop with hop | hop
      · exact (body_plain hbody op hop).2 rfl
      · exact hrest op hop
    · intro hall op hop
      rcases List.mem_append.1 hop with hop | hop
      · have hcall := hall (.call call) List.mem_cons_self
        cases call <;> simp only [Op.quantum, Bool.false_eq_true] at hcall
        exact body_quantum hbody op hop
      · exact hquantum hall op hop
  | irqSave =>
    cases hstep
    rw [hset]
    exact h.handled hhandler hrest hquantum s.owner fun _ _ hl => hl
  | irqRestore f =>
    cases hstep
    have hf : f = false := by simpa [Op.keepsOff] using hoff (.irqRestore f) List.mem_cons_self
    rw [hset, hf]
    exact h.handled hhandler hrest hquantum s.owner fun _ _ hl => hl
  | irqSaveLock ready =>
    cases hstep
    rw [hset]
    apply h.handled hhandler _ _ s.owner fun _ _ hl => hl
    · simpa [Op.keepsOff] using hrest
    · intro hall
      simpa [Op.quantum] using hquantum hall
  | lock l ready =>
    simp only [runOp, Option.ite_none_right_eq_some, Option.some.injEq] at hstep
    obtain ⟨hnone, rfl⟩ := hstep
    rw [hset, hhandler]
    apply h.handled hhandler _ _ _ fun u l' hl' => ?_
    · simpa [Op.keepsOff] using hrest
    · intro hall
      have hl : l = .dispatcher := by simpa [Op.quantum] using hall (.lock l ready) List.mem_cons_self
      simpa [Op.quantum, hl] using hquantum hall
    · by_cases heq : l' = l
      · subst heq
        simp at hl'
      · simpa [heq] using hl'
  | unlock l ready =>
    cases hstep
    apply LockInv.insertReady
    rw [hset]
    apply h.handled hhandler hrest hquantum _ fun u l' hl' => ?_
    by_cases heq : l' = l
    · subst heq
      simp at hl'
    · simpa [heq] using hl'
  | swap sleeps =>
    cases o <;> simp only [runOp, reduceCtorEq, Option.ite_none_right_eq_some, Option.some.injEq] at hstep
    case next u =>
      obtain ⟨⟨hne, hawake, hhome⟩, rfl⟩ := hstep
      rw [hset]
      apply h.update (s.setRunning_context _ t _)
      · refine hold.handled hhandler ?_ ?_ ?_ ?_ hrest hquantum fun hsleeps => ?_
        iterate 4 rfl
        rcases hold.apart _ hhandler with hfree | hall
        · exact .inr hfree
        · have hstays := hall (.swap sleeps) List.mem_cons_self
          simp only [Op.quantum, show sleeps = true from hsleeps, Bool.not_true, Bool.false_eq_true] at hstays
      · exact fun _ _ _ hl => hl
      · exact h.switched hrun hne hawake hhome rfl

/-- The interrupt comes while interrupts are on: the code under it holds no lock its handler
takes. -/
theorem interrupt_inv (h : LockInv s) (hrun : s.running cpu = some t) (hon : (s.context t).iflag = true) (preempts : Bool) :
    LockInv (s.setContext t { s.context t with
      handler := some (isrHandler cpu preempts), iflag := false }) := by
  have hold := h.sound t
  have hcontext := s.setContext_context t { s.context t with
    handler := some (isrHandler cpu preempts), iflag := false }
  apply h.update hcontext ?_ (fun _ _ _ hl => hl) (h.stays hcontext rfl rfl rfl)
  have hnever : ∀ l, s.owner l = some ⟨t, false⟩ → ¬(l = .dispatcher ∨ cpu = 0) := by
    intro l hl hwhere
    rw [← (h.running cpu t hrun).1] at hwhere
    rw [(hold.shielded l hl hwhere).2] at hon
    cases hon
  constructor
  case placed => exact hold.placed
  case saved =>
    intro ready rest hcode
    rw [(hold.saved ready rest hcode).2] at hon
    cases hon
  case holds => exact hold.holds
  case shielded =>
    intro l hl hwhere
    rw [← (h.running cpu t hrun).1] at hnever
    exact absurd hwhere (hnever l hl)
  case off =>
    intro ops hops
    cases hops
    exact ⟨rfl, fun op hop => (isrHandler_keepsOff cpu preempts op hop).1⟩
  case apart =>
    intro ops hops
    cases hops
    by_cases hcpu : cpu = 0
    · exact .inl fun l hl => hnever l hl (.inr hcpu)
    · exact .inr fun op hop => (isrHandler_keepsOff cpu preempts op hop).2 hcpu
  case asleep => exact hold.asleep

theorem iret_inv (h : LockInv s) (hhandler : (s.context t).handler = some []) :
    LockInv (s.setContext t { s.context t with handler := none, iflag := true }) := by
  have hold := h.sound t
  have hcontext := s.setContext_context t { s.context t with handler := none, iflag := true }
  apply h.update hcontext ?_ (fun _ _ _ hl => hl) (h.stays hcontext rfl rfl rfl)
  have hactive : (s.context t).handler ≠ none := by simp [hhandler]
  exact ⟨hold.placed, fun ready rest hcode => absurd (hold.saved ready rest hcode).1 hactive, hold.holds,
    fun l hl hwhere => absurd (hold.shielded l hl hwhere).1 hactive, by simp, by simp, hold.asleep⟩

theorem lockStep_inv (h : LockInv s) {a : LockAction} (hguard : InterruptsOff s a) (hstep : LockStep s a s') :
    LockInv s' := by
  obtain ⟨t, hrun, hstep⟩ := Option.bind_eq_some_iff.1 hstep
  cases a with
  | run cpu o =>
    simp only [lockStepOf] at hstep
    split at hstep
    case h_1 op rest hops =>
      cases hhandler : (s.context t).handler with
      | none =>
        have hcode : (s.context t).code = op :: rest := by simpa [Context.ops, hhandler] using hops
        apply runOp_own h hrun hhandler hcode ?_ hstep
        rintro rfl l ready rfl hl
        exact hguard rfl t hrun (by simp [hhandler]) (.lock l ready) (by simp [hcode])
          (by simpa [Op.takesTimerLock] using hl)
      | some ops =>
        have hrest : ops = op :: rest := by simpa [Context.ops, hhandler] using hops
        exact runOp_handler h hrun (hrest ▸ hhandler) hstep
    case h_2 => cases hstep
  | interrupt cpu preempts =>
    simp only [lockStepOf] at hstep
    split at hstep
    case h_1 hon =>
      cases hstep
      exact interrupt_inv h hrun hon preempts
    case h_2 => cases hstep
  | iret cpu =>
    simp only [lockStepOf] at hstep
    split at hstep
    case h_1 hhandler =>
      cases hstep
      exact iret_inv h hhandler
    case h_2 => cases hstep

/-! ## Runs -/

theorem locksBooted_inv (h : LocksBooted s) : LockInv s := by
  refine ⟨h.running, fun t => ?_⟩
  have hown : ∀ op ∈ (s.context t).code, op.placed = true ∧ ∀ ready, op ≠ .lock .dispatcher ready := by
    intro op hop
    have := h.code t op hop
    cases op <;> simp_all [Op.own, Op.placed]
  refine .of_free (h.handler t) (fun op hop => (hown op (List.mem_of_mem_tail hop)).1) ?_ ?_
  · intro ready rest hcode
    exact absurd rfl ((hown (.lock .dispatcher ready) (hcode ▸ List.mem_cons_self)).2 ready)
  · intro l hl
    rw [h.owner l] at hl
    cases hl

/-- In every run: no handler waits for a lock of the code under it. -/
theorem lockRun_never_spins (h : Reach LocksBooted LockStep InterruptsOff s) : ¬IsrSpins s := by
  have hinv : LockInv s := h.invariant (fun s hs => locksBooted_inv hs)
    fun s a s' hinv hguard hstep => lockStep_inv hinv hguard hstep
  rintro ⟨cpu, t, l, ready, rest, hrun, hhandler, howner⟩
  have hsound := hinv.sound t
  rcases hsound.apart _ hhandler with hfree | hall
  · exact hfree l howner
  · have hl : l = .dispatcher := by simpa [Op.quantum] using hall _ List.mem_cons_self
    rw [(hsound.shielded l howner (.inl hl)).1] at hhandler
    cases hhandler

/-- Processor 0 runs a thread with the given program. -/
def bootedLocks (program : List Op) : LockSys where
  context t := ⟨if t = .idle 0 then program else [], none, true, false, 0⟩
  running cpu := if cpu = 0 then some (.idle 0) else none
  owner _ := none

theorem bootedLocks_booted {program : List Op} (h : ∀ op ∈ program, op.own = true) :
    LocksBooted (bootedLocks program) := by
  refine ⟨fun t op hop => ?_, fun _ => rfl, fun cpu t ht => ?_, fun _ => rfl⟩
  · by_cases heq : t = .idle 0 <;> simp [bootedLocks, heq] at hop
    exact h op hop
  · by_cases hcpu : cpu = 0 <;> simp [bootedLocks, hcpu] at ht
    exact ⟨hcpu.symm, rfl⟩

def guardedLockStep (s : LockSys) (a : LockAction) : Option LockSys :=
  if InterruptsOff s a then lockStep s a else none

/-- `KeSetTimerEx` is called with interrupts off, and the tick comes after them. -/
theorem lockRun_never_spins_masked : ∃ s,
    runSteps guardedLockStep [.run 0 .goesOn, .run 0 .goesOn, .run 0 .goesOn, .run 0 .goesOn, .run 0 .goesOn,
      .interrupt 0 true, .run 0 (.expired [])]
        (bootedLocks [.irqSave, .call .keSetTimerEx, .irqRestore true]) = some s ∧ ¬IsrSpins s := by
  obtain ⟨s, hrun⟩ := Option.isSome_iff_exists.1 (show (runSteps guardedLockStep [.run 0 .goesOn, .run 0 .goesOn,
    .run 0 .goesOn, .run 0 .goesOn, .run 0 .goesOn, .interrupt 0 true, .run 0 (.expired [])]
      (bootedLocks [.irqSave, .call .keSetTimerEx, .irqRestore true])).isSome = true by decide +kernel)
  refine ⟨s, hrun, lockRun_never_spins (runGuarded_reach (fun _ _ => id) (fun _ _ _ => id)
    (.start (bootedLocks_booted ?_)) hrun)⟩
  simp [Op.own]

/-- The tick comes while `KeSetTimerEx` holds the lock of the timers. -/
theorem interrupted_setTimer_spins : ∃ s, Reach LocksBooted LockStep (fun _ _ => True) s ∧ IsrSpins s := by
  have hafter : (runSteps lockStep [.run 0 .goesOn, .run 0 .goesOn, .interrupt 0 true, .run 0 (.expired [])]
      (bootedLocks [.call .keSetTimerEx])).map (fun s => (s.running 0, (s.context (.idle 0)).handler,
        s.owner .timers)) = some (some (.idle 0), some [.lock .timers none, .call .kiQuantumEnd],
          some ⟨.idle 0, false⟩) := by
    rfl
  obtain ⟨s, hrun, hs⟩ := Option.map_eq_some_iff.1 hafter
  simp only [Prod.mk.injEq] at hs
  obtain ⟨hcpu, hhandler, howner⟩ := hs
  refine ⟨s, ?_, 0, .idle 0, .timers, none, _, hcpu, hhandler, howner⟩
  exact runSteps_reach (fun _ _ _ hstep => ⟨trivial, hstep⟩) (.start (bootedLocks_booted (by simp [Op.own])))
    hrun

end MeuOS.Ke
