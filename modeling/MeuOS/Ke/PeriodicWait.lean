import MeuOS.Ke.WaitRuns

/-! Waiting for a periodic timer. The tick signals the timer, wakes and arms it again, which
takes the signal back, before any thread it woke can check. -/
namespace MeuOS.Ke

open MeuOS.Lib

variable {s s' s₀ s₁ s₂ : WaitSys} {p p' : Placement} {cur w : Tid} {t : Nat} {old : List Readying}

/-- Other threads and the tick run: nobody makes a call on the timer, and `w` does not check. -/
def LeavesAlone (t : Nat) (w : Tid) (s : WaitSys) : WaitAction → Prop
  | .retry => s.sched.current 0 ≠ some w
  | .wake => True
  | .tickFire => True
  | .tickRearm => True
  | a => a.object s ≠ some t

/-- The thread returns with the signal when it checks the next time it runs, whatever the
others did until then. -/
def ServedNext (s : WaitSys) (t : Nat) (w : Tid) : Prop :=
  ∀ s', Reach (· = s) WaitStep (LeavesAlone t w) s' → s'.sched.current 0 = some w →
    s'.timers.firing = [] → ∃ s'', waitPass w t none s' = some (some .success, s'')

/-- Between `s` and `s'` the tick signalled the timer and did its wake. -/
structure ExpiryServed (s s' : WaitSys) (t : Nat) : Prop where
  served : ∀ w, SleepsOn s t w → ¬SleepsOn s' t w → ServedNext s' t w
  all : (s.header t).type ≠ 9 → ∀ w, ¬SleepsOn s' t w
  one : (s.header t).type = 9 → (∃ w, SleepsOn s t w) → ∃! w, SleepsOn s t w ∧ ¬SleepsOn s' t w

/-! ## The list of timers can be added to -/

/-- The sentinel of the list has a last entry. -/
def LastLinked (s : TimerSys) : Prop := ∃ last, s.links.prev .head = some last

theorem timerUnlink_last {L L' : Links TimerNode} (h : ∃ last, L.prev .head = some last)
    (hrun : timerUnlink L t = some L') : ∃ last, L'.prev .head = some last := by
  unfold timerUnlink at hrun
  split at hrun
  · cases hrun
    exact h
  · obtain ⟨L₁, hdetach, rfl⟩ := Option.map_eq_some_iff.1 hrun
    unfold Links.detach at hdetach
    obtain ⟨before, hbefore, hrest⟩ := Option.bind_eq_some_iff.1 hdetach
    obtain ⟨after, -, rfl⟩ := Option.map_eq_some_iff.1 hrest
    by_cases hafter : after = .head
    · exact ⟨before, by simp [Links.setNext, Links.setPrev, hafter, hbefore]⟩
    · obtain ⟨last, hlast⟩ := h
      exact ⟨last, by simp [Links.setNext, Links.setPrev, Ne.symm hafter, hlast]⟩

theorem timerLink_last {L : Links TimerNode} (h : ∃ last, L.prev .head = some last) (t : Nat) :
    ∃ L', timerLink L t = some L' ∧ ∃ last, L'.prev .head = some last := by
  obtain ⟨last, hlast⟩ := h
  unfold timerLink Links.insertTail
  have hsame : ((L.setPrev (.entry t) (L.prev .head)).setNext (.entry t) (some .head)).prev .head =
      some last := by
    simp [Links.setNext, Links.setPrev, hlast]
  dsimp only
  rw [hsame]
  exact ⟨_, rfl, .entry t, by simp [Links.setPrev]⟩

theorem expireLoop_last {timer : Nat → Ktimer} {ticks fuel : Nat} {e : Option TimerNode} {n : Nat}
    {L L' : Links TimerNode} {l : List Nat} (h : ∃ last, L.prev .head = some last)
    (hrun : expireLoop timer ticks fuel e n L = some (l, L')) : ∃ last, L'.prev .head = some last := by
  induction fuel generalizing e n L l with
  | zero => cases hrun
  | succ fuel ih =>
    cases e with
    | none =>
      cases hrun
      exact h
    | some e =>
      cases e with
      | head =>
        cases hrun
        exact h
      | entry t =>
        unfold expireLoop at hrun
        split at hrun
        · cases hrun
          exact h
        · simp only at hrun
          split at hrun
          · obtain ⟨L₁, hunlink, hrest⟩ := Option.bind_eq_some_iff.1 hrun
            obtain ⟨r, hloop, hr⟩ := Option.map_eq_some_iff.1 hrest
            cases hr
            exact ih (timerUnlink_last h hunlink) hloop
          · exact ih h hrun

theorem timerStep_last {timers timers' : TimerSys} (h : LastLinked timers) {fuel : Nat} {a : TimerAction}
    (hrun : timerStep fuel timers a = some timers') : LastLinked timers' := by
  unfold LastLinked at *
  cases a with
  | initTimer t type =>
    cases hrun
    unfold keInitializeTimerEx
    split
    · exact h
    · obtain ⟨last, hlast⟩ := h
      refine ⟨last, ?_⟩
      dsimp only
      split <;> simp [TimerSys.setHeader, TimerSys.setTimer, Links.setNext, Links.setPrev, hlast]
  | set t due period dpc =>
    obtain ⟨r, hset, rfl⟩ := Option.map_eq_some_iff.1 hrun
    unfold keSetTimerEx at hset
    split at hset
    · cases hset
      exact h
    · split at hset
      · cases hset
        exact h
      · obtain ⟨L₁, hunlink, hrest⟩ := Option.bind_eq_some_iff.1 hset
        obtain ⟨L₂, hlink, rfl⟩ := Option.map_eq_some_iff.1 hrest
        obtain ⟨L₃, hlink', hlast⟩ := timerLink_last (timerUnlink_last h hunlink) t
        obtain rfl := Option.some.inj (hlink'.symm.trans hlink)
        exact hlast
  | cancel t =>
    obtain ⟨r, hcancel, rfl⟩ := Option.map_eq_some_iff.1 hrun
    unfold keCancelTimer at hcancel
    split at hcancel
    · cases hcancel
      exact h
    · split at hcancel
      · cases hcancel
        exact h
      · obtain ⟨L₁, hunlink, rfl⟩ := Option.map_eq_some_iff.1 hcancel
        exact timerUnlink_last h hunlink
  | tickStart =>
    simp only [timerStep, tickStart] at hrun
    split at hrun
    · cases hrun
    · split at hrun
      · cases hrun
        exact h
      · obtain ⟨r, hloop, rfl⟩ := Option.map_eq_some_iff.1 hrun
        exact expireLoop_last h hloop
  | tickFire =>
    simp only [timerStep, tickFire] at hrun
    split at hrun
    · split at hrun
      · cases hrun
      · cases hrun
        exact h
    · cases hrun
  | tickRearm =>
    simp only [timerStep, tickRearm] at hrun
    split at hrun
    case h_1 t rest hfiring =>
      split at hrun
      · cases hrun
      · split at hrun
        · obtain ⟨L₁, hlink, rfl⟩ := Option.map_eq_some_iff.1 hrun
          obtain ⟨L₂, hlink', hlast⟩ := timerLink_last h t
          obtain rfl := Option.some.inj (hlink'.symm.trans hlink)
          exact hlast
        · cases hrun
          exact h
    case h_2 => cases hrun

theorem waitPass_links {obj : Nat} {timeout : Option Int} {r : Option WaitStatus × WaitSys}
    (hrun : waitPass cur obj timeout s = some r) : r.2.timers.links = s.timers.links := by
  unfold waitPass at hrun
  split at hrun
  · cases hrun
    rfl
  · split at hrun
    · cases hrun
      rfl
    · split at hrun
      · cases hrun
        rfl
      · obtain ⟨sched, -, rfl⟩ := Option.map_eq_some_iff.1 hrun
        rfl

theorem waitStep_last (h : LastLinked s.timers) {a : WaitAction} (hstep : WaitStep s a s') :
    LastLinked s'.timers := by
  obtain ⟨fuel, hstep⟩ := hstep
  obtain ⟨cur, -, hrun⟩ := Option.bind_eq_some_iff.1 hstep
  have hsame : s'.timers.links = s.timers.links → LastLinked s'.timers := by
    intro heq
    unfold LastLinked
    rw [heq]
    exact h
  cases a
  all_goals simp only [waitStepOf, WaitSys.withSched, WaitSys.withTimers, Option.ite_none_right_eq_some,
    Option.map_eq_some_iff, Option.some.injEq] at hrun
  case wait obj timeout =>
    obtain ⟨-, r, hwait, rfl⟩ := hrun
    apply hsame
    unfold keWaitForSingleObject at hwait
    split at hwait
    · cases hwait
      rfl
    · exact (waitPass_links hwait).trans rfl
  case retry =>
    split at hrun
    · simp only [Option.ite_none_right_eq_some, Option.map_eq_some_iff] at hrun
      obtain ⟨-, r, hpass, rfl⟩ := hrun
      exact hsame (waitPass_links hpass)
    · cases hrun
  case wake =>
    unfold wakeOwed at hrun
    split at hrun
    · obtain ⟨sched, -, rfl⟩ := Option.map_eq_some_iff.1 hrun
      exact h
    · cases hrun
  case spawn affinity =>
    obtain ⟨-, rfl⟩ := hrun
    exact h
  case mark =>
    obtain ⟨sched, -, rfl⟩ := hrun
    exact h
  case insert =>
    obtain ⟨sched, -, rfl⟩ := hrun
    exact h
  case quantumEnd =>
    obtain ⟨-, sched, -, rfl⟩ := hrun
    exact h
  case yieldProcessor =>
    obtain ⟨-, sched, -, rfl⟩ := hrun
    exact h
  case initEvent e type state =>
    obtain ⟨-, rfl⟩ := hrun
    apply hsame
    unfold keInitializeEvent
    split <;> rfl
  case setEvent e =>
    obtain ⟨-, rfl⟩ := hrun
    apply hsame
    unfold keSetEvent
    split
    · rfl
    · dsimp only
      split <;> rfl
  case resetEvent e =>
    obtain ⟨-, rfl⟩ := hrun
    apply hsame
    unfold keResetEvent
    split <;> rfl
  case initSemaphore sem count =>
    obtain ⟨-, rfl⟩ := hrun
    apply hsame
    unfold keInitializeSemaphore
    split <;> rfl
  case releaseSemaphore sem adj =>
    obtain ⟨-, rfl⟩ := hrun
    apply hsame
    unfold keReleaseSemaphore
    split
    · rfl
    · dsimp only
      split <;> rfl
  case exit =>
    obtain ⟨-, rfl⟩ := hrun
    exact h
  case initTimer t type =>
    obtain ⟨-, rfl⟩ := hrun
    exact timerStep_last h (show timerStep 0 s.timers (.initTimer t type) = some _ from rfl)
  case setTimer t due period dpc =>
    obtain ⟨-, timers, hset, rfl⟩ := hrun
    exact timerStep_last h (show timerStep 0 s.timers (.set t due period dpc) = some timers from
      Option.map_eq_some_iff.2 hset)
  case cancelTimer t =>
    obtain ⟨-, timers, hcancel, rfl⟩ := hrun
    exact timerStep_last h (show timerStep 0 s.timers (.cancel t) = some timers from
      Option.map_eq_some_iff.2 hcancel)
  case tickStart =>
    obtain ⟨timers, hrun, rfl⟩ := hrun
    exact timerStep_last h (show timerStep fuel s.timers .tickStart = some timers from hrun)
  case tickFire =>
    obtain ⟨timers, hfire, rfl⟩ := Option.map_eq_some_iff.1 hrun
    have hlast := timerStep_last h (show timerStep 0 s.timers .tickFire = some timers from hfire)
    split
    · exact hlast
    · exact h
  case tickRearm =>
    obtain ⟨timers, hrun, rfl⟩ := hrun
    exact timerStep_last h (show timerStep 0 s.timers .tickRearm = some timers from hrun)

theorem waitRun_last {guard : WaitSys → WaitAction → Prop} (h : Reach WaitBooted WaitStep guard s) :
    LastLinked s.timers := by
  apply h.invariant
  · rintro s ⟨-, ⟨s₀, htimers, -⟩, -⟩
    rw [htimers]
    exact ⟨.head, rfl⟩
  · exact fun s a s' hlast _ hstep => waitStep_last hlast hstep

/-! ## The rest of the interrupt -/

theorem waitStep_of (fuel : Nat) {a : WaitAction} (hcur : s.sched.current 0 = some cur)
    (hrun : waitStepOf fuel cur s a = some s') : WaitStep s a s' :=
  ⟨fuel, by rw [waitStep, hcur, Option.bind_some, hrun]⟩

/-- The threads a call of `ki_wake` collected go into the queue of the processor, one by one. -/
theorem batch_inserted (l : List Tid) (hinv : WaitInv s p)
    (hreach : Reach (· = s₀) WaitStep (LeavesAlone t w) s) (hcur : s.sched.current 0 = some cur)
    (hpending : s.sched.pending cur = l.map (⟨·, none⟩) ++ old) :
    ∃ sched p', Reach (· = s₀) WaitStep (LeavesAlone t w) { s with sched := sched } ∧
      WaitInv { s with sched := sched } p' ∧ sched.current 0 = some cur ∧
      ∀ u, u ∈ p.queue 0 ∨ u ∈ l → u ∈ p'.queue 0 := by
  induction l generalizing s p with
  | nil => exact ⟨s.sched, p, hreach, hinv, hcur, fun u hu => by simpa using hu⟩
  | cons u l ih =>
    obtain ⟨s₁, target, hmark, hon, hpending₁, hprcb₁, hstill₁⟩ := hinv.mark hpending
    have hcur₁ : s₁.current 0 = some cur := by
      unfold Sched.current
      rw [hprcb₁]
      exact hcur
    have hzero : target = 0 := by
      apply hinv.uni
      exact hon
    subst hzero
    have hreach₁ := hreach.step (show LeavesAlone t w s .mark by simp [LeavesAlone, WaitAction.object])
      (waitStep_of 0 hcur (show waitStepOf 0 cur s .mark = some { s with sched := s₁ } by
        simp [waitStepOf, WaitSys.withSched, hmark]))
    obtain ⟨s₂, hinsert, hpending₂, hprcb₂, hstill₂⟩ := hstill₁.inv.insert hpending₁
    have hcur₂ : s₂.current 0 = some cur := by
      unfold Sched.current
      rw [hprcb₂]
      exact hcur₁
    have hreach₂ := hreach₁.step
      (show LeavesAlone t w { s with sched := s₁ } .insert by simp [LeavesAlone, WaitAction.object])
      (waitStep_of 0 hcur₁ (show waitStepOf 0 cur { s with sched := s₁ } .insert =
        some { s with sched := s₂ } by simp [waitStepOf, WaitSys.withSched, hinsert]))
    obtain ⟨sched, p', hreach', hinv', hcur', hqueue⟩ := ih hstill₂.inv hreach₂ hcur₂ hpending₂
    refine ⟨sched, p', hreach', hinv', hcur', fun v hv => hqueue v ?_⟩
    show v ∈ Function.update p.queue 0 (p.queue 0 ++ [u]) 0 ∨ v ∈ l
    rw [Function.update_self, List.mem_append, List.mem_singleton]
    rw [List.mem_cons] at hv
    tauto

/-- The tick has interrupted `cur`. The thread `w` is in its wait for the periodic timer, and
in the queue of the processor. -/
structure Interrupted (s₀ s : WaitSys) (cur w : Tid) (t : Nat) : Prop where
  reach : Reach (· = s₀) WaitStep (LeavesAlone t w) s
  queued : ∃ p, WaitInv s p ∧ w ∈ p.queue 0
  current : s.sched.current 0 = some cur
  last : LastLinked s.timers
  waiting : s.waiting w = some t
  period : 0 < (s.timers.timer t).period

/-- A timer of the batch is signalled, and its threads are woken. -/
theorem Interrupted.fire (h : Interrupted s₀ s cur w t) {n : Nat} {rest : List Nat}
    (hfiring : s.timers.firing = n :: rest) (hcalled : s.timers.called = false) :
    ∃ s', Interrupted s₀ s' cur w t ∧ s'.timers.firing = n :: rest ∧ s'.timers.called = true ∧
      ∀ o, o ≠ n → s'.header o = s.header o := by
  obtain ⟨p, hinv, hw⟩ := h.queued
  obtain ⟨timers, hfire⟩ : ∃ timers, tickFire s.timers = some timers := by
    simp [tickFire, hfiring, hcalled]
  have htimers : timers.firing = n :: rest ∧ timers.called = true ∧ timers.timer = s.timers.timer ∧
      timers.links = s.timers.links := by
    simp only [tickFire, hfiring, hcalled, Bool.false_eq_true, if_false, Option.some.injEq] at hfire
    subst hfire
    exact ⟨hfiring, rfl, rfl, rfl⟩
  obtain ⟨hfiring', hcalled', htimer, hlinks⟩ := htimers
  have hkept := tickFire_kept hfire
  rw [hfiring] at hkept
  let s₁ : WaitSys := { s with timers := timers }.setOwed cur (.timer n :: s.owed cur)
  have hstep : WaitStep s .tickFire s₁ := by
    apply waitStep_of 0 h.current
    simp [waitStepOf, expireTimer, hfire, hfiring, s₁]
  have hcur₁ : s₁.sched.current 0 = some cur := h.current
  have hinv₁ : WaitInv s₁ p := hinv.congr rfl rfl hkept.legacy rfl
  obtain ⟨sched₂, p₂, hawoke, hrun⟩ := hinv₁.wake hcur₁ n ((Waker.timer n).wakeAll s₁)
  have hwake : WaitStep s₁ .wake ({ s₁ with sched := sched₂ }.setOwed cur (s.owed cur)) := by
    apply waitStep_of (p.waitList.length + 1) hcur₁
    have howed : s₁.owed cur = .timer n :: s.owed cur := Function.update_self ..
    simp only [waitStepOf, wakeOwed, howed]
    rw [show (Waker.timer n).object s₁ = n from rfl, hrun _ (Nat.lt_succ_self _), Option.map_some]
  have hreach := (h.reach.step (show LeavesAlone t w s .tickFire from trivial) hstep).step
    (show LeavesAlone t w s₁ .wake from trivial) hwake
  have hinv₂ : WaitInv ({ s₁ with sched := sched₂ }.setOwed cur (s.owed cur)) p₂ :=
    hawoke.inv.congr rfl rfl rfl rfl
  obtain ⟨sched, p', hreach', hinv', hcur', hqueue⟩ :=
    batch_inserted _ hinv₂ hreach (hawoke.current.trans hcur₁) hawoke.pending
  refine ⟨_, ⟨hreach', ⟨p', hinv', hqueue w (.inl ?_)⟩, hcur', ?_, h.waiting, ?_⟩, hfiring', hcalled', ?_⟩
  · rw [hawoke.queue]
    exact hw
  · show LastLinked timers
    unfold LastLinked
    rw [hlinks]
    exact h.last
  · show 0 < (timers.timer t).period
    rw [htimer]
    exact h.period
  · intro o ho
    exact hkept.header o (by simpa using Ne.symm ho)

/-- A timer of the batch is through, and armed again where it is periodic. -/
theorem Interrupted.rearm (h : Interrupted s₀ s cur w t) {n : Nat} {rest : List Nat}
    (hfiring : s.timers.firing = n :: rest) (hcalled : s.timers.called = true)
    (hsignal : t ≠ n → (s.header t).signalState = 0) :
    ∃ s', Interrupted s₀ s' cur w t ∧ s'.timers.firing = rest ∧ s'.timers.called = false ∧
      (s'.header t).signalState = 0 := by
  obtain ⟨p, hinv, hw⟩ := h.queued
  have hdone : ∀ timers, tickRearm s.timers = some timers → timers.legacy = s.timers.legacy →
      0 < (timers.timer t).period → timers.firing = rest → timers.called = false →
        (timers.header t).signalState = 0 →
          ∃ s', Interrupted s₀ s' cur w t ∧ s'.timers.firing = rest ∧ s'.timers.called = false ∧
            (s'.header t).signalState = 0 := by
    intro timers hrun hlegacy hperiod hfiring' hcalled' hsignal'
    have hstep : WaitStep s .tickRearm { s with timers := timers } := by
      apply waitStep_of 0 h.current
      simp [waitStepOf, WaitSys.withTimers, hrun]
    have hlast := timerStep_last h.last (show timerStep 0 s.timers .tickRearm = some timers from hrun)
    exact ⟨_, ⟨h.reach.step (show LeavesAlone t w s .tickRearm from trivial) hstep,
      ⟨p, hinv.congr rfl rfl hlegacy rfl, hw⟩, h.current, hlast, h.waiting, hperiod⟩, hfiring', hcalled',
      hsignal'⟩
  by_cases hn : 0 < (s.timers.timer n).period
  · obtain ⟨L, hlink, -⟩ := timerLink_last h.last n
    obtain ⟨due, hrun⟩ : ∃ due, tickRearm s.timers = some
        { (s.timers.setTimer n { s.timers.timer n with dueTime := due }).signal n 0 with
          links := L, firing := rest, called := false } := by
      simp only [tickRearm, hfiring, hcalled, hn, if_true, hlink, Option.map_some, Bool.true_eq_false,
        if_false]
      exact ⟨_, rfl⟩
    apply hdone _ hrun rfl ?_ rfl rfl
    · by_cases heq : t = n
      · subst heq
        simp [TimerSys.signal, TimerSys.setHeader]
      · have hsame : (s.timers.header t).signalState = 0 := hsignal heq
        simpa [TimerSys.signal, TimerSys.setHeader, TimerSys.setTimer, heq] using hsame
    · by_cases heq : t = n
      · subst heq
        simpa [TimerSys.signal, TimerSys.setHeader, TimerSys.setTimer] using hn
      · simpa [TimerSys.signal, TimerSys.setHeader, TimerSys.setTimer, heq] using h.period
  · have hne : t ≠ n := by
      rintro rfl
      exact hn h.period
    have hrun : tickRearm s.timers = some { s.timers with firing := rest, called := false } := by
      simp only [tickRearm, hfiring, hcalled, hn, if_false, Bool.true_eq_false]
    exact hdone _ hrun rfl h.period rfl rfl (hsignal hne)

/-- The interrupt goes through the rest of its batch, and the timer is not signalled then. -/
theorem Interrupted.finish (rest : List Nat) (h : Interrupted s₀ s cur w t)
    (hfiring : s.timers.firing = rest) (hcalled : s.timers.called = false)
    (hsignal : (s.header t).signalState = 0) :
    ∃ s', Interrupted s₀ s' cur w t ∧ s'.timers.firing = [] ∧ (s'.header t).signalState = 0 := by
  induction rest generalizing s with
  | nil => exact ⟨s, h, hfiring, hsignal⟩
  | cons n rest ih =>
    obtain ⟨s₁, h₁, hfiring₁, hcalled₁, hkept⟩ := h.fire hfiring hcalled
    obtain ⟨s₂, h₂, hfiring₂, hcalled₂, hsignal₂⟩ := h₁.rearm hfiring₁ hcalled₁ fun hne => by
      rw [hkept t hne]
      exact hsignal
    exact ih h₂ hfiring₂ hcalled₂ hsignal₂

/-! ## The queue moves on -/

/-- The processor is given up to the first thread of the queue. -/
theorem yield_turn (hinv : WaitInv s p) (hreach : Reach (· = s₀) WaitStep (LeavesAlone t w) s)
    (hfiring : s.timers.firing = []) {next : Tid} {rest : List Tid} (hqueue : p.queue 0 = next :: rest) :
    ∃ sched p', Reach (· = s₀) WaitStep (LeavesAlone t w) { s with sched := sched } ∧
      WaitInv { s with sched := sched } p' ∧ sched.current 0 = some next ∧
        ∃ more, p'.queue 0 = rest ++ more := by
  obtain ⟨cur, hcur⟩ := hinv.repr.running 0 hinv.on
  obtain ⟨sched, p', hyield, hrepr, hturn⟩ := kiYieldProcessor_turn hinv.repr hinv.on hcur
  have hstep : WaitStep s .yieldProcessor { s with sched := sched } := by
    apply waitStep_of 0 hcur
    simp [waitStepOf, WaitSys.idleTick, WaitSys.withSched, hfiring, hyield]
  have hreach' := hreach.step
    (show LeavesAlone t w s .yieldProcessor by simp [LeavesAlone, WaitAction.object]) hstep
  have hinv' := (hturn.toSwitched.still hinv hrepr).inv
  rcases hturn.turn with ⟨hempty, -⟩ | ⟨next', rest', hqueue', hnext, -, hmore⟩
  · rw [hqueue] at hempty
    cases hempty
  · rw [hqueue, List.cons.injEq] at hqueue'
    obtain ⟨rfl, rfl⟩ := hqueue'
    exact ⟨sched, p', hreach', hinv', hnext, _, hmore⟩

/-- The threads in front give the processor up until `w` has it. -/
theorem queued_dispatched (front : List Tid) {back : List Tid} (hinv : WaitInv s p)
    (hreach : Reach (· = s₀) WaitStep (LeavesAlone t w) s) (hfiring : s.timers.firing = [])
    (hqueue : p.queue 0 = front ++ w :: back) :
    ∃ sched p', Reach (· = s₀) WaitStep (LeavesAlone t w) { s with sched := sched } ∧
      WaitInv { s with sched := sched } p' ∧ sched.current 0 = some w := by
  induction front generalizing s p back with
  | nil =>
    obtain ⟨sched, p', hreach', hinv', hcur', -⟩ := yield_turn hinv hreach hfiring hqueue
    exact ⟨sched, p', hreach', hinv', hcur'⟩
  | cons u front ih =>
    obtain ⟨sched, p', hreach', hinv', -, more, hqueue'⟩ := yield_turn hinv hreach hfiring hqueue
    have hfront : p'.queue 0 = front ++ w :: (back ++ more) := hqueue'.trans (List.append_assoc ..)
    obtain ⟨sched₂, p₂, hreach₂, hinv₂, hcur₂⟩ := ih hinv' hreach' hfiring hfront
    exact ⟨sched₂, p₂, hreach₂, hinv₂, hcur₂⟩

/-! ## The timer that woke is the timer that is armed again -/

/-- A thread the tick has woken goes back to sleep. -/
theorem woken_not_served {rest : List Nat} (hinv : WaitInv s₁ p)
    (hcur : s₁.sched.current 0 = some cur) (hfiring : s₁.timers.firing = t :: rest)
    (hcalled : s₁.timers.called = true) (hperiod : 0 < (s₁.timers.timer t).period)
    (hlast : LastLinked s₁.timers) (hwaiting : s₁.waiting w = some t)
    {l : List Tid} (hpending : s₁.sched.pending cur = l.map (⟨·, none⟩) ++ old) (hw : w ∈ l) :
    ¬ServedNext s₁ t w := by
  obtain ⟨sched₂, p₂, hreach₂, hinv₂, hcur₂, hqueue₂⟩ :=
    batch_inserted l hinv (show Reach (· = s₁) WaitStep (LeavesAlone t w) s₁ from .start rfl) hcur hpending
  have hstart : Interrupted s₁ { s₁ with sched := sched₂ } cur w t :=
    ⟨hreach₂, ⟨p₂, hinv₂, hqueue₂ w (.inr hw)⟩, hcur₂, hlast, hwaiting, hperiod⟩
  obtain ⟨s₃, h₃, hfiring₃, hcalled₃, hsignal₃⟩ :=
    hstart.rearm hfiring hcalled fun hne => absurd rfl hne
  obtain ⟨s₄, h₄, hfiring₄, hsignal₄⟩ := h₃.finish rest hfiring₃ hcalled₃ hsignal₃
  obtain ⟨p₄, hinv₄, hw₄⟩ := h₄.queued
  obtain ⟨front, back, hqueue₄⟩ := List.append_of_mem hw₄
  obtain ⟨sched₅, p₅, hreach₅, hinv₅, hcur₅⟩ := queued_dispatched front hinv₄ h₄.reach hfiring₄ hqueue₄
  intro hserved
  obtain ⟨s₆, hpass⟩ := hserved _ hreach₅ hcur₅ hfiring₄
  have halive := hinv₅.alive w (by rw [h₄.waiting]; simp)
  have hrunning := (hinv₅.active w hcur₅).resolve_right halive.2
  rcases waitPass_cases hinv₅ hcur₅ hrunning t none with ⟨hup, -⟩ | ⟨-, hstay, -⟩ |
    ⟨-, -, sched, p', hsleep, -⟩
  · exact hup hsignal₄
  · rcases hstay with hnone | hidle
    · exact hnone rfl
    · exact halive.1 hidle
  · rw [hpass] at hsleep
    cases hsleep

theorem wakeBudget_pos (wakeAll : Bool) : ∃ k, wakeBudget wakeAll 0 = k + 1 := by
  cases wakeAll
  · exact ⟨0, rfl⟩
  · exact ⟨15, rfl⟩

theorem tickFire_head {fuel : Nat} (hfiring : s.timers.firing.head? = some t)
    (hrun : waitStepOf fuel cur s .tickFire = some s') :
    ∃ rest timers, s' = { s with timers := timers }.setOwed cur (.timer t :: s.owed cur) ∧
      timers.firing = t :: rest ∧ timers.called = true ∧ timers.timer = s.timers.timer ∧
      timers.links = s.timers.links ∧ timers.legacy = s.timers.legacy := by
  obtain ⟨rest, hfiring⟩ := List.head?_eq_some_iff.1 hfiring
  obtain ⟨timers, hfire, rfl⟩ := Option.map_eq_some_iff.1 hrun
  refine ⟨rest, timers, by rw [hfiring], ?_⟩
  simp only [tickFire, hfiring] at hfire
  split at hfire
  · cases hfire
  · cases hfire
    exact ⟨hfiring, rfl, rfl, rfl, rfl⟩

/-- The tick wakes the first threads that sleep on the timer, and one at least. -/
theorem timer_wake (hinv : WaitInv s p) (hcur : s.sched.current 0 = some cur) {rest : List Waker}
    (howed : s.owed cur = .timer t :: rest) (hwake : WaitStep s .wake s') :
    ∃ p' k old, WaitInv s' p' ∧ s'.sched.current 0 = some cur ∧ s'.timers = s.timers ∧
      s'.waiting = s.waiting ∧
      s'.sched.pending cur = ((sleepers s p t).take (k + 1)).map (⟨·, none⟩) ++ old ∧
      sleepers s' p' t = (sleepers s p t).drop (k + 1) := by
  obtain ⟨fuel, hwake⟩ := hwake
  obtain ⟨cur', hcur', hrun⟩ := Option.bind_eq_some_iff.1 hwake
  obtain rfl := Option.some.inj (hcur'.symm.trans hcur)
  obtain ⟨waker, rest', sched, p', howed', rfl, hawoke⟩ := wakeOwed_awoke hinv hcur hrun
  rw [howed, List.cons.injEq] at howed'
  obtain ⟨rfl, rfl⟩ := howed'
  obtain ⟨k, hk⟩ := wakeBudget_pos ((Waker.timer t).wakeAll s)
  have hleft := hawoke.sleepers_eq
  have hpending := hawoke.pending
  rw [hk] at hleft hpending
  exact ⟨p', k, _, hawoke.inv.congr rfl rfl rfl rfl, hawoke.current.trans hcur, rfl, rfl, hpending, hleft⟩

/-- On one processor, when the tick expires a periodic timer. -/
theorem periodicExpiry_served_iff (h : Reach WaitBooted WaitStep (fun _ _ => True) s)
    (hfiring : s.timers.firing.head? = some t) (hperiod : 0 < (s.timers.timer t).period)
    (hfire : WaitStep s .tickFire s₁) (hwake : WaitStep s₁ .wake s₂) :
    ExpiryServed s s₂ t ↔ ∀ w, ¬SleepsOn s t w := by
  obtain ⟨p, hinv⟩ := waitRun_inv h
  obtain ⟨fuel, hfire⟩ := hfire
  obtain ⟨cur, hcur, hrun⟩ := Option.bind_eq_some_iff.1 hfire
  obtain ⟨rest, timers, hs₁, hfiring₁, hcalled₁, htimer, hlinks, hlegacy⟩ := tickFire_head hfiring hrun
  have hinv₁ : WaitInv s₁ p := hinv.congr (hs₁ ▸ rfl) (hs₁ ▸ rfl) (hs₁ ▸ hlegacy) (hs₁ ▸ rfl)
  have howed : s₁.owed cur = .timer t :: s.owed cur := by
    rw [hs₁]
    exact Function.update_self ..
  obtain ⟨p₂, k, old, hinv₂, hcur₂, htimers₂, hwaiting₂, hpending₂, hsleepers₂⟩ :=
    timer_wake hinv₁ (show s₁.sched.current 0 = some cur from hs₁ ▸ hcur) howed hwake
  have hsame : sleepers s₁ p t = sleepers s p t := by
    rw [hs₁]
    rfl
  rw [hsame] at hpending₂ hsleepers₂
  have hafter : ∀ w, SleepsOn s₂ t w ↔ w ∈ (sleepers s p t).drop (k + 1) := fun w => by
    rw [hinv₂.sleepsOn_iff, hsleepers₂]
  constructor
  · intro hserved w hw
    rw [hinv.sleepsOn_iff] at hw
    cases hlist : sleepers s p t with
    | nil =>
      rw [hlist] at hw
      cases hw
    | cons first others =>
      have hfirst : first ∈ sleepers s p t := hlist ▸ List.mem_cons_self
      have hgone : ¬SleepsOn s₂ t first := by
        have hnodup : (first :: others).Nodup := hlist ▸ hinv.waitList_nodup.filter _
        rw [hafter, hlist, List.drop_succ_cons]
        exact fun hmem => (List.nodup_cons.1 hnodup).1 (List.mem_of_mem_drop hmem)
      have hwaiting : s₂.waiting first = some t := by
        obtain ⟨hmem, hobject⟩ := List.mem_filter.1 hfirst
        rw [hwaiting₂, show s₁.waiting = s.waiting from hs₁ ▸ rfl, hinv.blocked first hmem]
        simpa [waitsOn] using hobject
      have htimers : s₂.timers = timers := htimers₂.trans (hs₁ ▸ rfl)
      have hlast : LastLinked s₂.timers := by
        unfold LastLinked
        rw [htimers, hlinks]
        exact waitRun_last h
      have hperiod₂ : 0 < (s₂.timers.timer t).period := by
        rw [htimers, htimer]
        exact hperiod
      have htaken : first ∈ (sleepers s p t).take (k + 1) := by simp [hlist]
      exact woken_not_served hinv₂ hcur₂ (htimers ▸ hfiring₁) (htimers ▸ hcalled₁) hperiod₂ hlast hwaiting
        hpending₂ htaken (hserved.served first (hinv.sleepsOn_iff.2 hfirst) hgone)
  · intro hnone
    have hempty : sleepers s p t = [] :=
      List.eq_nil_iff_forall_not_mem.2 fun w hw => hnone w (hinv.sleepsOn_iff.2 hw)
    refine ⟨fun w hw => absurd hw (hnone w), fun _ w hw => ?_, fun _ hw => ?_⟩
    · rw [hafter, hempty] at hw
      simp at hw
    · obtain ⟨w, hw⟩ := hw
      exact absurd hw (hnone w)

/-- A thread sleeps on a periodic timer that is due, and the tick begins. -/
def periodicDue : WaitSys :=
  afterWaits [.initTimer 7 .notification, .setTimer 7 0 10 0, .spawn (-1), .mark, .insert,
    .yieldProcessor, .wait 7 none, .tickStart] bootedWaits

theorem periodicDue_reach : Reach WaitBooted WaitStep (fun _ _ => True) periodicDue :=
  waitRun_reach (afterWaits_run (by decide +kernel))

theorem periodicDue_sleeps : SleepsOn periodicDue 7 (.worker 0) := by
  have hring : periodicDue.sched.links.Ring .waitHead ([Tid.worker 0].map .waitLink) := by
    refine ⟨by simp, ?_, ?_, ?_, ?_⟩ <;> decide +kernel
  exact ⟨⟨_, hring, List.mem_cons_self⟩, by decide +kernel⟩

theorem periodicExpiry_served_iff_one : ∃ s₁ s₂, WaitStep periodicDue .tickFire s₁ ∧ WaitStep s₁ .wake s₂ ∧
    SleepsOn periodicDue 7 (.worker 0) ∧
      (ExpiryServed periodicDue s₂ 7 ↔ ∀ w, ¬SleepsOn periodicDue 7 w) := by
  have hfire := afterWaits_step (s := periodicDue) (a := .tickFire) (by decide +kernel)
  have hwake := afterWaits_step (s := afterWaits [.tickFire] periodicDue) (a := .wake) (by decide +kernel)
  exact ⟨_, _, hfire, hwake, periodicDue_sleeps,
    periodicExpiry_served_iff periodicDue_reach (by decide +kernel) (by decide +kernel) hfire hwake⟩

/-- Steps with which the interrupt ends and threads give the processor up. -/
def WaitAction.passesOn : WaitAction → Bool
  | .mark => true
  | .insert => true
  | .tickRearm => true
  | .yieldProcessor => true
  | _ => false

theorem leavesAlone_passesOn {a : WaitAction} (h : a.passesOn = true) (t : Nat) (w : Tid) (s : WaitSys) :
    LeavesAlone t w s a := by
  cases a <;> simp_all [LeavesAlone, WaitAction.passesOn, WaitAction.object]

def passOnStep (s : WaitSys) (a : WaitAction) : Option WaitSys :=
  if a.passesOn then waitStep 16 s a else none

/-- The sleeper is woken, checks, and sleeps again. -/
theorem periodicExpiry_sleeps_again : ∃ s s₁ s₂, Reach WaitBooted WaitStep (fun _ _ => True) s ∧
    s.timers.firing.head? = some 7 ∧ 0 < (s.timers.timer 7).period ∧ WaitStep s .tickFire s₁ ∧
      WaitStep s₁ .wake s₂ ∧ ¬ExpiryServed s s₂ 7 := by
  have hfire := afterWaits_step (s := periodicDue) (a := .tickFire) (by decide +kernel)
  have hwake := afterWaits_step (s := afterWaits [.tickFire] periodicDue) (a := .wake) (by decide +kernel)
  refine ⟨_, _, _, periodicDue_reach, by decide +kernel, by decide +kernel, hfire, hwake, fun hserved => ?_⟩
  have hring : (afterWaits [.wake] (afterWaits [.tickFire] periodicDue)).sched.links.Ring .waitHead
      ([].map .waitLink) := by
    refine ⟨by simp, ?_, ?_⟩ <;> decide +kernel
  have hgone : ¬SleepsOn (afterWaits [.wake] (afterWaits [.tickFire] periodicDue)) 7 (.worker 0) := by
    rintro ⟨⟨l, hring', hmem⟩, -⟩
    rw [List.map_eq_nil_iff.1 (hring'.unique hring)] at hmem
    cases hmem
  have hafter : ((runSteps passOnStep [.mark, .insert, .tickRearm, .yieldProcessor]
      (afterWaits [.wake] (afterWaits [.tickFire] periodicDue))).map fun s =>
        (s.sched.current 0, s.timers.firing, (waitPass (.worker 0) 7 none s).map Prod.fst)) =
          some (some (.worker 0), [], some none) := by
    decide +kernel
  obtain ⟨s', hrun, hs'⟩ := Option.map_eq_some_iff.1 hafter
  simp only [Prod.mk.injEq] at hs'
  obtain ⟨hcur, hfiring, hpass⟩ := hs'
  obtain ⟨s'', hdone⟩ := hserved.served _ periodicDue_sleeps hgone s'
    (runGuarded_reach (fun s _ hok => leavesAlone_passesOn hok 7 (.worker 0) s)
      (fun _ _ _ hstep => ⟨16, hstep⟩) (.start rfl) hrun) hcur hfiring
  rw [hdone] at hpass
  cases hpass

end MeuOS.Ke
