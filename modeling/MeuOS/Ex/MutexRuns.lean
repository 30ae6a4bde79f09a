import MeuOS.Ex.FastMutex

/-! Runs of the mutex. The count says how many threads have or want it, and while one wants
it, it is with exactly one of: a holder, a thread about to set the event, the event. -/
namespace MeuOS.Ex

open MeuOS.Lib MeuOS.Ke

/-- The thread is between a successful acquire and the release. -/
def Holds (s : MutexSys) (t : Tid) : Prop :=
  s.phase t = .acquired ∨ s.phase t = .holding ∨ s.phase t = .releasing

/-- The event is about to be set, or it is set and a waiter is about to be woken or has been
and has not run yet. -/
def WakePending (s : MutexSys) : Prop :=
  (∃ t, s.phase t = .signalling) ∨ ((s.sys.header s.mutex.event).signalState ≠ 0 ∧
    ∃ t, Waker.event s.mutex.event ∈ s.sys.owed t ∨
      (s.sys.waiting t = some s.mutex.event ∧ ¬InWaitList s.sys.sched t))

/-- A thread that cannot block finds the event set when it waits for the mutex. -/
def MutexOk (s : MutexSys) : MutexAction → Prop
  | .contend => kiCanBlock s.sys = false → (s.sys.header s.mutex.event).signalState ≠ 0
  | _ => True

def MutexPhase.holds : MutexPhase → Bool
  | .acquired => true
  | .holding => true
  | .releasing => true
  | _ => false

def MutexPhase.wants : MutexPhase → Bool
  | .contended => true
  | .waiting => true
  | _ => false

def MutexPhase.signals : MutexPhase → Bool
  | .signalling => true
  | _ => false

/-- `H` threads hold the mutex, `W` want it and `S` are about to set the event. -/
structure MutexBalance (count : Int) (signal H W S : Nat) : Prop where
  count : count = 1 - H - W
  one : H + S + signal ≤ 1
  wanted : 0 < W → H + S + signal = 1
  served : S + signal ≤ W

structure MutexInv (s : MutexSys) (p : Placement) (h : HandOff Tid) (H W S : Nat) : Prop where
  event : s.mutex.event ≠ 0
  hands : Hands s.sys p s.mutex.event h
  raised : h.Raised
  holds : Headcount s.phase MutexPhase.holds H
  wants : Headcount s.phase MutexPhase.wants W
  signals : Headcount s.phase MutexPhase.signals S
  balance : MutexBalance s.mutex.count h.signal.toNat H W S
  waiting : ∀ t, s.phase t = .waiting ↔ s.sys.waiting t = some s.mutex.event
  waking : ∀ t, Waker.event s.mutex.event ∈ s.sys.owed t → s.phase t = .waking

variable {s s' : MutexSys} {p p' : Placement} {h h' : HandOff Tid} {H W S : Nat} {cur t : Tid}

/-- One thread moves on, and its numbers stay in balance. -/
theorem MutexInv.move (hi : MutexInv s p h H W S) {x : MutexPhase}
    (hphase : s'.phase = Function.update s.phase cur x) (hevent : s'.mutex.event = s.mutex.event)
    (hhands : Hands s'.sys p' s.mutex.event h') (hraised : h'.Raised)
    (hwaiting : x = .waiting ↔ s'.sys.waiting cur = some s.mutex.event)
    (hwaking : Waker.event s.mutex.event ∈ s'.sys.owed cur → x = .waking)
    (hothers : ∀ t, t ≠ cur → (s'.sys.waiting t = some s.mutex.event ↔
      s.sys.waiting t = some s.mutex.event) ∧
        (Waker.event s.mutex.event ∈ s'.sys.owed t → Waker.event s.mutex.event ∈ s.sys.owed t))
    (hbalance : ∀ H' W' S', H' + (s.phase cur).holds.toNat = H + x.holds.toNat →
      W' + (s.phase cur).wants.toNat = W + x.wants.toNat →
        S' + (s.phase cur).signals.toNat = S + x.signals.toNat →
          MutexBalance s'.mutex.count h'.signal.toNat H' W' S') :
    ∃ H' W' S', MutexInv s' p' h' H' W' S' := by
  obtain ⟨H', hH', hH⟩ := hi.holds.update cur x
  obtain ⟨W', hW', hW⟩ := hi.wants.update cur x
  obtain ⟨S', hS', hS⟩ := hi.signals.update cur x
  rw [← hphase] at hH' hW' hS'
  refine ⟨H', W', S', hevent ▸ hi.event, hevent.symm ▸ hhands, hraised, hH', hW', hS',
    hbalance H' W' S' hH hW hS, fun t => ?_, fun t ht => ?_⟩
  · rw [hevent, hphase]
    by_cases heq : t = cur
    · subst heq
      rw [Function.update_self]
      exact hwaiting
    · rw [Function.update_of_ne heq, (hothers t heq).1]
      exact hi.waiting t
  · rw [hevent] at ht
    rw [hphase]
    by_cases heq : t = cur
    · subst heq
      rw [Function.update_self]
      exact hwaking ht
    · rw [Function.update_of_ne heq]
      exact hi.waking t ((hothers t heq).2 ht)

/-- A step of the mutex's own code, between two that are the system's. -/
theorem MutexInv.code (hi : MutexInv s p h H W S) {x : MutexPhase} (hsys : s'.sys = s.sys)
    (hphase : s'.phase = Function.update s.phase cur x) (hevent : s'.mutex.event = s.mutex.event)
    (hold : s.phase cur ≠ .waiting ∧ s.phase cur ≠ .waking) (hnew : x ≠ .waiting)
    (hbalance : ∀ H' W' S', H' + (s.phase cur).holds.toNat = H + x.holds.toNat →
      W' + (s.phase cur).wants.toNat = W + x.wants.toNat →
        S' + (s.phase cur).signals.toNat = S + x.signals.toNat →
          MutexBalance s'.mutex.count h.signal.toNat H' W' S') :
    ∃ H' W' S', MutexInv s' p h H' W' S' := by
  refine hi.move hphase hevent (hsys ▸ hi.hands) hi.raised ?_ ?_ ?_ hbalance
  · rw [hsys, ← hi.waiting cur]
    exact iff_of_false hnew hold.1
  · intro ht
    rw [hsys] at ht
    exact absurd (hi.waking cur ht) hold.2
  · intro t _
    rw [hsys]
    exact ⟨.rfl, id⟩

/-- A thread that was waiting or is to wait made a pass. -/
theorem MutexInv.passed (hi : MutexInv s p h H W S) (hwants : (s.phase cur).wants = true)
    (hphase : s'.phase = Function.update s.phase cur (MutexPhase.after s.mutex.event s'.sys cur .waiting))
    (hmutex : s'.mutex.event = s.mutex.event ∧ s'.mutex.count = s.mutex.count)
    (hhands : Hands s'.sys p' s.mutex.event h') (hpassed : Passed s.sys s'.sys cur s.mutex.event h h') :
    ∃ H' W' S', MutexInv s' p' h' H' W' S' := by
  have hraised : h'.Raised := fun hup => by
    rw [hpassed.down] at hup
    cases hup
  have hholds : (s.phase cur).holds = false := by
    cases hx : s.phase cur <;> simp [hx, MutexPhase.wants, MutexPhase.holds] at hwants ⊢
  have hsignals : (s.phase cur).signals = false := by
    cases hx : s.phase cur <;> simp [hx, MutexPhase.wants, MutexPhase.signals] at hwants ⊢
  have hnotWaking : Waker.event s.mutex.event ∉ s'.sys.owed cur := by
    intro ht
    rw [hpassed.owed] at ht
    rw [hi.waking cur ht] at hwants
    cases hwants
  refine hi.move hphase hmutex.1 hhands hraised ?_ (fun ht => absurd ht hnotWaking) ?_ ?_
  · have hpass := hpassed.waiting
    unfold MutexPhase.after
    split at hpass <;> simp [hpass]
  · intro t ht
    rw [hpassed.others t ht, hpassed.owed]
    exact ⟨.rfl, id⟩
  · intro H' W' S' hH hW hS
    obtain ⟨hcount, hone, hwanted, hserved⟩ := hi.balance
    have hpass := hpassed.waiting
    rw [hholds] at hH
    rw [hwants] at hW
    rw [hsignals] at hS
    rw [hmutex.2, hpassed.down]
    cases hup : h.signal with
    | true =>
      rw [hup, if_pos rfl] at hpass
      have hafter : MutexPhase.after s.mutex.event s'.sys cur .waiting = .acquired := if_pos hpass
      rw [hafter] at hH hW hS
      simp only [hup, MutexPhase.holds, MutexPhase.wants, MutexPhase.signals, Bool.toNat_true,
        Bool.toNat_false] at hone hwanted hserved hH hW hS ⊢
      constructor <;> omega
    | false =>
      rw [hup, if_neg Bool.false_ne_true] at hpass
      have hafter : MutexPhase.after s.mutex.event s'.sys cur .waiting = .waiting :=
        if_neg (by simp [hpass])
      rw [hafter] at hH hW hS
      simp only [hup, MutexPhase.holds, MutexPhase.wants, MutexPhase.signals, Bool.toNat_true,
        Bool.toNat_false] at hone hwanted hserved hH hW hS ⊢
      constructor <;> omega

/-! ## Steps -/

theorem MutexSys.at_phase {x : MutexPhase} (h : s.at cur x = true) : s.phase cur = x := by
  unfold MutexSys.at at h
  simpa using (Bool.and_eq_true_iff.1 h).2

/-- The steps that only work on the count and the owner. -/
theorem MutexInv.count_step (hi : MutexInv s p h H W S) {fuel : Nat} {a : MutexAction}
    (hsystem : ∀ b, a ≠ .system b) (hcontend : a ≠ .contend) (hsignal : a ≠ .signal)
    (hrun : mutexStepOf fuel cur s a = some s') : ∃ H' W' S', MutexInv s' p h H' W' S' := by
  have hlegacy := hi.hands.inv.legacy
  obtain ⟨hcount, hone, hwanted, hserved⟩ := hi.balance
  cases a with
  | acquire =>
    simp only [mutexStepOf, Option.ite_none_right_eq_some, Option.some.injEq] at hrun
    obtain ⟨hat, rfl⟩ := hrun
    have hphase := MutexSys.at_phase hat
    simp only [exAcquireFastMutex, hlegacy, Bool.false_eq_true, if_false]
    by_cases hlow : s.mutex.count - 1 < 0
    · rw [if_pos hlow]
      refine hi.code rfl rfl rfl (by simp [hphase]) (by simp) fun H' W' S' hH hW hS => ?_
      simp only [hphase, MutexPhase.holds, MutexPhase.wants, MutexPhase.signals, Bool.toNat_true,
        Bool.toNat_false, MutexSys.goTo] at hH hW hS ⊢
      constructor <;> omega
    · rw [if_neg hlow]
      refine hi.code rfl rfl rfl (by simp [hphase]) (by simp) fun H' W' S' hH hW hS => ?_
      simp only [hphase, MutexPhase.holds, MutexPhase.wants, MutexPhase.signals, Bool.toNat_true,
        Bool.toNat_false, MutexSys.goTo] at hH hW hS ⊢
      constructor <;> omega
  | own =>
    simp only [mutexStepOf, Option.ite_none_right_eq_some, Option.some.injEq] at hrun
    obtain ⟨hat, rfl⟩ := hrun
    have hphase := MutexSys.at_phase hat
    refine hi.code rfl rfl rfl (by simp [hphase]) (by simp) fun H' W' S' hH hW hS => ?_
    simp only [hphase, MutexPhase.holds, MutexPhase.wants, MutexPhase.signals, Bool.toNat_true,
      Bool.toNat_false, own, MutexSys.goTo] at hH hW hS ⊢
    constructor <;> omega
  | tryAcquire =>
    simp only [mutexStepOf, Option.ite_none_right_eq_some, Option.some.injEq] at hrun
    obtain ⟨hat, rfl⟩ := hrun
    have hphase := MutexSys.at_phase hat
    simp only [exTryToAcquireFastMutex, hlegacy, Bool.false_eq_true, if_false]
    by_cases hfree : s.mutex.count = 1
    · rw [if_pos hfree]
      refine hi.code rfl rfl rfl (by simp [hphase]) (by simp) fun H' W' S' hH hW hS => ?_
      simp only [hphase, MutexPhase.holds, MutexPhase.wants, MutexPhase.signals, Bool.toNat_true,
        Bool.toNat_false, MutexSys.goTo] at hH hW hS ⊢
      constructor <;> omega
    · rw [if_neg hfree]
      exact ⟨H, W, S, hi⟩
  | release =>
    simp only [mutexStepOf, Option.ite_none_right_eq_some, Option.some.injEq] at hrun
    obtain ⟨hat, rfl⟩ := hrun
    have hphase := MutexSys.at_phase hat
    simp only [exReleaseFastMutex, hlegacy, Bool.false_eq_true, if_false]
    refine hi.code rfl rfl rfl (by simp [hphase]) (by simp) fun H' W' S' hH hW hS => ?_
    simp only [hphase, MutexPhase.holds, MutexPhase.wants, MutexPhase.signals, Bool.toNat_true,
      Bool.toNat_false, MutexSys.goTo] at hH hW hS ⊢
    constructor <;> omega
  | giveBack =>
    simp only [mutexStepOf, Option.ite_none_right_eq_some, Option.some.injEq] at hrun
    obtain ⟨hat, rfl⟩ := hrun
    have hphase := MutexSys.at_phase hat
    simp only [giveBack]
    by_cases hlow : s.mutex.count + 1 ≤ 0
    · rw [if_pos hlow]
      refine hi.code rfl rfl rfl (by simp [hphase]) (by simp) fun H' W' S' hH hW hS => ?_
      simp only [hphase, MutexPhase.holds, MutexPhase.wants, MutexPhase.signals, Bool.toNat_true,
        Bool.toNat_false, MutexSys.goTo] at hH hW hS ⊢
      constructor <;> omega
    · rw [if_neg hlow]
      refine hi.code rfl rfl rfl (by simp [hphase]) (by simp) fun H' W' S' hH hW hS => ?_
      simp only [hphase, MutexPhase.holds, MutexPhase.wants, MutexPhase.signals, Bool.toNat_true,
        Bool.toNat_false, MutexSys.goTo] at hH hW hS ⊢
      constructor <;> omega
  | contend => exact absurd rfl hcontend
  | signal => exact absurd rfl hsignal
  | system b => exact absurd rfl (hsystem b)

theorem MutexInv.contend_step (hi : MutexInv s p h H W S) (hcur : s.sys.sched.current 0 = some cur)
    (hok : MutexOk s .contend) {fuel : Nat} (hrun : mutexStepOf fuel cur s .contend = some s') :
    ∃ p' h' H' W' S', MutexInv s' p' h' H' W' S' := by
  simp only [mutexStepOf, Option.ite_none_right_eq_some] at hrun
  obtain ⟨hat, hrun⟩ := hrun
  obtain ⟨sys, hwait, rfl⟩ := Option.map_eq_some_iff.1 hrun
  have hidle : cur ≠ .idle 0 ∨ h.signal = true := by
    by_cases hcan : kiCanBlock s.sys = true
    · exact .inl (hi.hands.inv.can_block hcur hcan)
    · have hup := hok (by simpa using hcan)
      right
      by_contra hdown
      rw [hi.hands.header, if_neg hdown] at hup
      exact hup rfl
  obtain ⟨p', h', hafter, hpassed⟩ := hi.hands.enter hi.event hcur hidle hwait
  have hwants : (s.phase cur).wants = true := by
    rw [MutexSys.at_phase hat]
    rfl
  refine ⟨p', h', hi.passed hwants ?_ ⟨rfl, rfl⟩ hafter hpassed⟩
  simp [MutexSys.advance, MutexSys.goTo]

theorem MutexInv.signal_step (hi : MutexInv s p h H W S) {fuel : Nat}
    (hrun : mutexStepOf fuel cur s .signal = some s') : ∃ h' H' W' S', MutexInv s' p h' H' W' S' := by
  simp only [mutexStepOf, Option.ite_none_right_eq_some] at hrun
  obtain ⟨hat, hrun⟩ := hrun
  obtain ⟨sys, hset, rfl⟩ := Option.map_eq_some_iff.1 hrun
  have hphase := MutexSys.at_phase hat
  obtain ⟨⟨h', hafter, hup, hraised⟩, hwaiting, howed⟩ := hi.hands.set_step hi.event hset
  have hnone : s.sys.waiting cur ≠ some s.mutex.event := by
    rw [ne_eq, ← hi.waiting cur, hphase]
    simp
  have hmem : Waker.event s.mutex.event ∈ sys.owed cur := by
    rw [howed, Function.update_self]
    exact List.mem_cons_self
  obtain ⟨hcount, hone, hwanted, hserved⟩ := hi.balance
  have hphases : ((s.goTo cur .waking).advance cur sys).phase = Function.update s.phase cur .waking := by
    simp [MutexSys.advance, MutexSys.goTo, MutexPhase.after, hmem]
  refine ⟨h', hi.move hphases rfl hafter hraised ?_ (fun _ => rfl) ?_ ?_⟩
  · change _ ↔ sys.waiting cur = _
    rw [hwaiting]
    exact iff_of_false (by simp) hnone
  · intro t ht
    change (sys.waiting t = _ ↔ _) ∧ (_ ∈ sys.owed t → _)
    rw [hwaiting, howed, Function.update_of_ne ht]
    exact ⟨.rfl, id⟩
  · intro H' W' S' hH hW hS
    change MutexBalance s.mutex.count _ H' W' S'
    simp only [hphase, hup, MutexPhase.holds, MutexPhase.wants, MutexPhase.signals, Bool.toNat_true,
      Bool.toNat_false] at hH hW hS ⊢
    constructor <;> omega

/-- The system's steps leave the mutex alone, unless a woken thread looks at the event. -/
theorem MutexInv.system_step (hi : MutexInv s p h H W S) (hcur : s.sys.sched.current 0 = some cur)
    {fuel : Nat} {a : WaitAction} (hrun : mutexStepOf fuel cur s (.system a) = some s') :
    ∃ p' h' H' W' S', MutexInv s' p' h' H' W' S' := by
  simp only [mutexStepOf, Option.ite_none_right_eq_some] at hrun
  obtain ⟨⟨hspares, -⟩, hrun⟩ := hrun
  obtain ⟨sys, hsys, rfl⟩ := Option.map_eq_some_iff.1 hrun
  rcases hi.hands.spare hspares hcur hsys with ⟨p', h', hafter, hspared⟩ |
    ⟨hwaiting, p', h', hafter, hpassed⟩
  · have hstays : (s.phase cur).after s.mutex.event sys cur = s.phase cur ∨
        (s.phase cur = .waking ∧ (s.phase cur).after s.mutex.event sys cur = .outside ∧
          Waker.event s.mutex.event ∉ sys.owed cur) := by
      cases hphase : s.phase cur with
      | waiting =>
        left
        have hstill := (hspared.waiting cur).2 ((hi.waiting cur).1 hphase)
        simp [MutexPhase.after, hstill]
      | waking =>
        by_cases hmem : Waker.event s.mutex.event ∈ sys.owed cur
        · exact .inl (if_pos hmem)
        · exact .inr ⟨rfl, if_neg hmem, hmem⟩
      | _ => exact .inl rfl
    refine ⟨p', h', hi.move rfl rfl hafter (hspared.raised hi.raised) ?_ ?_ ?_ ?_⟩
    · change _ ↔ sys.waiting cur = _
      rw [hspared.waiting cur, ← hi.waiting cur]
      rcases hstays with hsame | ⟨hold, hnew, -⟩
      · rw [hsame]
      · rw [hnew, hold]
        simp
    · intro hmem
      rcases hstays with hsame | ⟨-, -, hnot⟩
      · rw [hsame]
        exact hi.waking cur (hspared.owed cur hmem)
      · exact absurd hmem hnot
    · exact fun t _ => ⟨hspared.waiting t, hspared.owed t⟩
    · intro H' W' S' hH hW hS
      change MutexBalance s.mutex.count _ H' W' S'
      have hsame : H' = H ∧ W' = W ∧ S' = S := by
        rcases hstays with hsame | ⟨hold, hnew, -⟩
        · rw [hsame] at hH hW hS
          omega
        · rw [hnew, hold] at hH hW hS
          exact ⟨hH, hW, hS⟩
      obtain ⟨rfl, rfl, rfl⟩ := hsame
      rw [hspared.signal]
      exact hi.balance
  · have hphase := (hi.waiting cur).2 hwaiting
    have hwants : (s.phase cur).wants = true := by
      rw [hphase]
      rfl
    refine ⟨p', h', hi.passed hwants ?_ ⟨rfl, rfl⟩ hafter hpassed⟩
    simp [MutexSys.advance, MutexSys.goTo, hphase]

theorem mutexStep_inv {a : MutexAction} (hi : MutexInv s p h H W S) (hok : MutexOk s a)
    (hstep : MutexStep s a s') : ∃ p' h' H' W' S', MutexInv s' p' h' H' W' S' := by
  obtain ⟨fuel, hstep⟩ := hstep
  obtain ⟨cur, hcur, hrun⟩ := Option.bind_eq_some_iff.1 hstep
  cases a with
  | contend => exact hi.contend_step hcur hok hrun
  | signal => exact ⟨p, hi.signal_step hrun⟩
  | system b => exact hi.system_step hcur hrun
  | _ => exact ⟨p, h, hi.count_step (by simp) (by simp) (by simp) hrun⟩

/-! ## Runs -/

theorem mutexStart_inv (hs : MutexStart s) : ∃ p h, MutexInv s p h 0 0 0 := by
  obtain ⟨event, sys, hevent, hreach, hnobody, hnone, rfl⟩ := hs
  obtain ⟨p, hinv⟩ := waitRun_inv hreach
  have hinit : keInitializeEvent event 1 false sys = sys.setHeader event ⟨1, 0⟩ := if_neg hevent
  obtain ⟨h, hdown, hhands⟩ := hands_fresh hinv hevent hnobody hnone
  refine ⟨p, h, hevent, hhands, fun hup => ?_, headcount_zero fun _ => rfl,
    headcount_zero fun _ => rfl, headcount_zero fun _ => rfl, ?_, fun t => ?_, fun t ht => ?_⟩
  · rw [hdown] at hup
    cases hup
  · rw [hdown]
    exact ⟨rfl, by simp, by simp, by simp⟩
  · change MutexPhase.outside = .waiting ↔ (keInitializeEvent event 1 false sys).waiting t = some event
    rw [hinit]
    exact iff_of_false (by simp) (hnobody t)
  · change Waker.event event ∈ (keInitializeEvent event 1 false sys).owed t at ht
    rw [hinit] at ht
    exact absurd rfl (hnone t _ ht)

theorem mutexReach_inv (hreach : Reach MutexStart MutexStep MutexOk s) :
    ∃ p h H W S, MutexInv s p h H W S := by
  apply hreach.invariant
  · intro s hs
    obtain ⟨p, h, hi⟩ := mutexStart_inv hs
    exact ⟨p, h, 0, 0, 0, hi⟩
  · rintro s a s' ⟨p, h, H, W, S, hi⟩ hok hstep
    exact mutexStep_inv hi hok hstep

theorem Holds.of_phase (ht : (s.phase t).holds = true) : Holds s t := by
  unfold Holds
  cases hphase : s.phase t <;> simp [hphase, MutexPhase.holds] at ht ⊢

theorem Holds.phase (ht : Holds s t) : (s.phase t).holds = true := by
  rcases ht with hphase | hphase | hphase <;> rw [hphase] <;> rfl

/-- The mutex is held by one thread at most, and while it is not held nobody sleeps on its
event without a wake to come. -/
theorem mutex_exclusive (hreach : Reach MutexStart MutexStep MutexOk s) :
    (∀ t u, Holds s t → Holds s u → t = u) ∧
      ((∀ t, ¬Holds s t) → ∀ t, SleepsOn s.sys s.mutex.event t → WakePending s) := by
  obtain ⟨p, h, H, W, S, hi⟩ := mutexReach_inv hreach
  obtain ⟨hcount, hone, hwanted, hserved⟩ := hi.balance
  refine ⟨fun t u ht hu => hi.holds.unique (by omega) ht.phase hu.phase, fun hfree t ht => ?_⟩
  have hasleep : t ∈ h.asleep := by
    rw [hi.hands.asleep]
    exact hi.hands.inv.sleepsOn_iff.1 ht
  have hwaiting : s.phase t = .waiting := by
    rw [hi.hands.asleep, hi.hands.inv.mem_sleepers] at hasleep
    exact (hi.waiting t).2 hasleep.2
  have hnone : H = 0 := by
    by_contra hne
    obtain ⟨u, hu⟩ := hi.holds.exists_of_pos (Nat.pos_of_ne_zero hne)
    exact hfree u (.of_phase hu)
  have hwant : 0 < W := hi.wants.pos (t := t) (by rw [hwaiting]; rfl)
  have hcoming := hwanted hwant
  cases hup : h.signal with
  | false =>
    rw [hup, Bool.toNat_false] at hcoming
    obtain ⟨u, hu⟩ := hi.signals.exists_of_pos (by omega)
    refine .inl ⟨u, ?_⟩
    cases hphase : s.phase u <;> simp [hphase, MutexPhase.signals] at hu ⊢
  | true =>
    refine .inr ⟨by rw [hi.hands.header, if_pos hup]; decide, ?_⟩
    rcases hi.raised hup with howed | hawake | hnobody
    · obtain ⟨u, hu⟩ := List.exists_mem_of_ne_nil _ howed
      refine ⟨u, .inl ?_⟩
      rw [← List.count_pos_iff, ← hi.hands.owed u]
      exact List.count_pos_iff.2 hu
    · obtain ⟨u, hu⟩ := List.exists_mem_of_ne_nil _ hawake
      obtain ⟨hwait, hout⟩ := (hi.hands.awake u).1 hu
      exact ⟨u, .inr ⟨hwait, fun hin => hout (hi.hands.inv.repr.inWaitList_iff.1 hin)⟩⟩
    · rw [hnobody] at hasleep
      cases hasleep

instance (s : MutexSys) (a : MutexAction) : Decidable (MutexOk s a) := by
  cases a <;> unfold MutexOk <;> infer_instance

def bootedMutex : MutexSys := exInitializeFastMutex 5 bootedWaits

theorem bootedMutex_start : MutexStart bootedMutex :=
  ⟨5, bootedWaits, by decide, .start bootedWaits_booted, fun _ => nofun, fun _ _ => nofun, rfl⟩

def mutexGuardedStep (s : MutexSys) (a : MutexAction) : Option MutexSys :=
  if MutexOk s a then mutexStep 16 s a else none

/-- The idle thread creates `n` threads and gives the processor up. -/
def mutexThreads (n : Nat) : List MutexAction :=
  (List.replicate n [.system (.spawn (-1)), .system .mark, .system .insert]).flatten ++
    [.system .yieldProcessor]

/-- The first thread takes the mutex, the second waits for it, and the first is about to set
the event. -/
def handOverMutex : List MutexAction :=
  mutexThreads 2 ++ [.acquire, .own, .system .yieldProcessor, .acquire, .contend,
    .system .yieldProcessor, .release, .giveBack]

theorem mutex_exclusive_handOver : ∃ s, runSteps mutexGuardedStep handOverMutex bootedMutex = some s ∧
    s.mutex.count = 0 ∧ s.phase (.worker 0) = .signalling ∧
      SleepsOn s.sys s.mutex.event (.worker 1) ∧ (∀ t u, Holds s t → Holds s u → t = u) ∧
        WakePending s := by
  have hstate : (runSteps mutexGuardedStep handOverMutex bootedMutex).map (fun s => (s.mutex.count,
      s.mutex.event, s.phase (.worker 0), s.sys.sched.links.next .waitHead,
        (s.sys.sched.thread (.worker 1)).waitObject)) =
          some (0, 5, .signalling, some (.waitLink (.worker 1)), 5) := by
    decide +kernel
  obtain ⟨s, hrun, hs⟩ := Option.map_eq_some_iff.1 hstate
  simp only [Prod.mk.injEq] at hs
  obtain ⟨hcount, hevent, hphase, hfirst, hobject⟩ := hs
  have hreach : Reach MutexStart MutexStep MutexOk s :=
    runGuarded_reach (fun _ _ => id) (fun _ _ _ hstep => ⟨16, hstep⟩) (.start bootedMutex_start) hrun
  obtain ⟨p, h, H, W, S, hi⟩ := mutexReach_inv hreach
  have hsleeps : SleepsOn s.sys s.mutex.event (.worker 1) :=
    ⟨hi.hands.inv.repr.first_waits hfirst, hevent ▸ hobject⟩
  have hfree : ∀ t, ¬Holds s t := by
    intro t ht
    have hholder := hi.holds.pos ht.phase
    have hsignaller := hi.signals.pos (t := .worker 0) (by rw [hphase]; rfl)
    have hsum := hi.balance.one
    omega
  obtain ⟨hone, hpending⟩ := mutex_exclusive hreach
  exact ⟨s, hrun, hcount, hphase, hsleeps, hone, hpending hfree _ hsleeps⟩

/-- The idle thread's wait returns at once, and it has the mutex together with its holder. -/
theorem idle_enters_held_mutex : ∃ s, Reach MutexStart MutexStep (fun _ _ => True) s ∧
    Holds s (.worker 0) ∧ Holds s (.idle 0) := by
  have hstate : (runSteps (mutexStep 16) (mutexThreads 1 ++ [.acquire, .own, .system .yieldProcessor,
      .acquire, .contend]) bootedMutex).map (fun s => (s.phase (.worker 0), s.phase (.idle 0))) =
        some (.holding, .acquired) := by
    decide +kernel
  obtain ⟨s, hrun, hs⟩ := Option.map_eq_some_iff.1 hstate
  obtain ⟨hworker, hidle⟩ := Prod.mk.inj hs
  exact ⟨s, runSteps_reach (fun _ _ _ hstep => ⟨trivial, 16, hstep⟩) (.start bootedMutex_start) hrun,
    .inr (.inl hworker), .inl hidle⟩

end MeuOS.Ex
