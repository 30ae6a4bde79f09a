import MeuOS.Ex.ResourceMoves

/-! Runs of the resource: every step is a move of the thread that takes it, and the event is a
flag that is handed over. -/
namespace MeuOS.Ex

open MeuOS.Lib MeuOS.Ke

structure ResourceInv (s : ResourceSys) (p : Placement) (h : HandOff Tid) (E N : Nat) : Prop where
  event : s.resource.exclusiveEvent ≠ 0
  hands : Hands s.sys p s.resource.exclusiveEvent h
  raised : h.Raised
  entrance : Entrance s.resource.activeCount h.signal s.phase E N
  waiting : ∀ t, (∃ mode, s.phase t = .waiting mode) ↔
    s.sys.waiting t = some s.resource.exclusiveEvent
  waking : ∀ t, Waker.event s.resource.exclusiveEvent ∈ s.sys.owed t → s.phase t = .waking
  idle : s.phase (.idle 0) = .outside

/-- The thread `cur` made a move to `x`. -/
structure Stepped (s s' : ResourceSys) (p' : Placement) (h h' : HandOff Tid) (cur : Tid)
    (x : ResourcePhase) : Prop where
  move : Move s.resource.activeCount h.signal (s.phase cur) s'.resource.activeCount h'.signal x
  phase : s'.phase = Function.update s.phase cur x
  event : s'.resource.exclusiveEvent = s.resource.exclusiveEvent
  hands : Hands s'.sys p' s.resource.exclusiveEvent h'
  raised : h'.Raised
  waiting : (∃ mode, x = .waiting mode) ↔ s'.sys.waiting cur = some s.resource.exclusiveEvent
  waking : Waker.event s.resource.exclusiveEvent ∈ s'.sys.owed cur → x = .waking
  others : ∀ t, t ≠ cur → (s'.sys.waiting t = some s.resource.exclusiveEvent ↔
    s.sys.waiting t = some s.resource.exclusiveEvent) ∧
      (Waker.event s.resource.exclusiveEvent ∈ s'.sys.owed t →
        Waker.event s.resource.exclusiveEvent ∈ s.sys.owed t)
  worker : cur = .idle 0 → x = .outside

variable {s s' : ResourceSys} {p p' : Placement} {h h' : HandOff Tid} {E N : Nat} {cur t : Tid}
  {x : ResourcePhase}

theorem ResourceInv.stepped (hi : ResourceInv s p h E N) (hs : Stepped s s' p' h h' cur x) :
    ∃ E' N', ResourceInv s' p' h' E' N' := by
  obtain ⟨E', N', hentrance⟩ := hi.entrance.move hs.move
  rw [← hs.phase] at hentrance
  refine ⟨E', N', hs.event ▸ hi.event, hs.event.symm ▸ hs.hands, hs.raised, hentrance, fun t => ?_,
    fun t ht => ?_, ?_⟩
  · rw [hs.event, hs.phase]
    by_cases heq : t = cur
    · subst heq
      rw [Function.update_self]
      exact hs.waiting
    · rw [Function.update_of_ne heq, (hs.others t heq).1]
      exact hi.waiting t
  · rw [hs.event] at ht
    rw [hs.phase]
    by_cases heq : t = cur
    · subst heq
      rw [Function.update_self]
      exact hs.waking ht
    · rw [Function.update_of_ne heq]
      exact hi.waking t ((hs.others t heq).2 ht)
  · rw [hs.phase]
    by_cases heq : cur = .idle 0
    · subst heq
      rw [Function.update_self]
      exact hs.worker rfl
    · rw [Function.update_of_ne (Ne.symm heq)]
      exact hi.idle

/-- Who is in a call is a worker. -/
theorem ResourceInv.worker (hi : ResourceInv s p h E N) (hcall : s.phase cur ≠ .outside) :
    cur ≠ .idle 0 := by
  rintro rfl
  exact hcall hi.idle

/-! ## Steps -/

/-- A step that only works on the resource. -/
theorem ResourceInv.code (hi : ResourceInv s p h E N) (hsys : s'.sys = s.sys)
    (hphase : s'.phase = Function.update s.phase cur x)
    (hevent : s'.resource.exclusiveEvent = s.resource.exclusiveEvent)
    (hold : (∀ mode, s.phase cur ≠ .waiting mode) ∧ s.phase cur ≠ .waking)
    (hnew : ∀ mode, x ≠ .waiting mode) (hworker : cur ≠ .idle 0)
    (hmove : Move s.resource.activeCount h.signal (s.phase cur) s'.resource.activeCount h.signal x) :
    Stepped s s' p h h cur x where
  move := hmove
  phase := hphase
  event := hevent
  hands := hsys ▸ hi.hands
  raised := hi.raised
  waiting := by
    rw [hsys, ← hi.waiting cur]
    exact iff_of_false (fun ⟨mode, hx⟩ => hnew mode hx) fun ⟨mode, hx⟩ => hold.1 mode hx
  waking ht := by
    rw [hsys] at ht
    exact absurd (hi.waking cur ht) hold.2
  others t _ := by
    rw [hsys]
    exact ⟨.rfl, id⟩
  worker heq := absurd heq hworker

/-- The current thread is in its own code of a call, or holds the resource. -/
def ResourcePhase.runs : ResourcePhase → Bool
  | .outside => false
  | .waiting _ => false
  | .waking => false
  | _ => true

theorem ResourceInv.inside (hi : ResourceInv s p h E N) {y : ResourcePhase} (hphase : s.phase cur = y)
    (hruns : y.runs = true) (hsys : s'.sys = s.sys) (hphases : s'.phase = Function.update s.phase cur x)
    (hevent : s'.resource.exclusiveEvent = s.resource.exclusiveEvent)
    (hnew : ∀ mode, x ≠ .waiting mode)
    (hmove : Move s.resource.activeCount h.signal y s'.resource.activeCount h.signal x) :
    ∃ p' h' x, Stepped s s' p' h h' cur x := by
  subst hphase
  refine ⟨p, h, x, hi.code hsys hphases hevent ⟨fun mode hold => ?_, fun hold => ?_⟩ hnew
    (hi.worker fun hold => ?_) hmove⟩
  · rw [hold] at hruns
    cases hruns
  · rw [hold] at hruns
    cases hruns
  · rw [hold] at hruns
    cases hruns

/-- A thread that was waiting or is to wait made a pass. -/
theorem ResourceInv.passed (hi : ResourceInv s p h E N) {mode : ResourceMode}
    (hbehind : s.phase cur = .failed mode ∨ s.phase cur = .waiting mode)
    (hphase : s'.phase = Function.update s.phase cur
      (ResourcePhase.after s.resource.exclusiveEvent s'.sys cur (.waiting mode)))
    (hresource : s'.resource = s.resource) (hhands : Hands s'.sys p' s.resource.exclusiveEvent h')
    (hpassed : Passed s.sys s'.sys cur s.resource.exclusiveEvent h h') :
    Stepped s s' p' h h' cur
      (ResourcePhase.after s.resource.exclusiveEvent s'.sys cur (.waiting mode)) where
  move := by
    have hpass := hpassed.waiting
    rw [hresource, hpassed.down]
    cases hup : h.signal with
    | true =>
      rw [hup, if_pos rfl] at hpass
      have hafter : ResourcePhase.after s.resource.exclusiveEvent s'.sys cur (.waiting mode) =
        .trying mode true := if_pos hpass
      rw [hafter]
      exact .pass (s.phase cur) mode hbehind rfl
    | false =>
      rw [hup, if_neg Bool.false_ne_true] at hpass
      have hafter : ResourcePhase.after s.resource.exclusiveEvent s'.sys cur (.waiting mode) =
        .waiting mode := if_neg (by simp [hpass])
      rw [hafter]
      exact .sleep (s.phase cur) mode hbehind rfl
  phase := hphase
  event := by rw [hresource]
  hands := hhands
  raised hup := by
    rw [hpassed.down] at hup
    cases hup
  waiting := by
    have hpass := hpassed.waiting
    unfold ResourcePhase.after
    split at hpass <;> simp [hpass]
  waking ht := by
    rw [hpassed.owed] at ht
    rw [hi.waking cur ht] at hbehind
    rcases hbehind with hphase | hphase <;> cases hphase
  others t ht := by
    rw [hpassed.others t ht, hpassed.owed]
    exact ⟨.rfl, id⟩
  worker heq := by
    refine absurd heq (hi.worker ?_)
    rcases hbehind with hphase | hphase <;> simp [hphase]

theorem ResourceInv.signal_step (hi : ResourceInv s p h E N) (hphase : s.phase cur = .signalling)
    {fuel : Nat} (hrun : s.signal fuel cur = some s') :
    ∃ h', Stepped s s' p h h' cur .waking := by
  obtain ⟨sys, hset, rfl⟩ := Option.map_eq_some_iff.1 hrun
  obtain ⟨⟨h', hafter, hup, hraised⟩, hwaiting, howed⟩ := hi.hands.set_step hi.event hset
  have hnone : s.sys.waiting cur ≠ some s.resource.exclusiveEvent := by
    rw [ne_eq, ← hi.waiting cur, hphase]
    simp
  have hmem : Waker.event s.resource.exclusiveEvent ∈ sys.owed cur := by
    rw [howed, Function.update_self]
    exact List.mem_cons_self
  refine ⟨h', ?_, ?_, rfl, hafter, hraised, ?_, fun _ => rfl, fun t ht => ?_,
    fun heq => absurd heq (hi.worker (by simp [hphase]))⟩
  · rw [hphase, hup]
    exact .set
  · simp [ResourceSys.advance, ResourceSys.goTo, ResourcePhase.after, hmem]
  · change _ ↔ sys.waiting cur = _
    rw [hwaiting]
    exact iff_of_false (by simp) hnone
  · change (sys.waiting t = _ ↔ _) ∧ (_ ∈ sys.owed t → _)
    rw [hwaiting, howed, Function.update_of_ne ht]
    exact ⟨.rfl, id⟩

/-- The system's steps leave the resource alone, unless a woken thread looks at the event. -/
theorem ResourceInv.system_step (hi : ResourceInv s p h E N) (hcur : s.sys.sched.current 0 = some cur)
    {fuel : Nat} {a : WaitAction} (hspares : Spares s.resource.exclusiveEvent s.sys a)
    {sys : WaitSys} (hsys : waitStepOf fuel cur s.sys a = some sys) :
    ∃ p' h' x, Stepped s (s.advance cur sys) p' h h' cur x := by
  rcases hi.hands.spare hspares hcur hsys with ⟨p', h', hafter, hspared⟩ |
    ⟨hwaiting, p', h', hafter, hpassed⟩
  · have hstays : (s.phase cur).after s.resource.exclusiveEvent sys cur = s.phase cur ∨
        (s.phase cur = .waking ∧ (s.phase cur).after s.resource.exclusiveEvent sys cur = .outside ∧
          Waker.event s.resource.exclusiveEvent ∉ sys.owed cur) := by
      cases hphase : s.phase cur with
      | waiting mode =>
        left
        have hstill := (hspared.waiting cur).2 ((hi.waiting cur).1 ⟨mode, hphase⟩)
        simp [ResourcePhase.after, hstill]
      | waking =>
        by_cases hmem : Waker.event s.resource.exclusiveEvent ∈ sys.owed cur
        · exact .inl (if_pos hmem)
        · exact .inr ⟨rfl, if_neg hmem, hmem⟩
      | _ => exact .inl rfl
    refine ⟨p', h', _, ?_, rfl, rfl, hafter, hspared.raised hi.raised, ?_, fun hmem => ?_,
      fun t _ => ⟨hspared.waiting t, hspared.owed t⟩, fun heq => ?_⟩
    · change Move _ _ _ s.resource.activeCount _ _
      rw [hspared.signal]
      rcases hstays with hsame | ⟨hold, hnew, -⟩
      · rw [hsame]
        exact .stay _
      · rw [hnew, hold]
        exact .woken
    · change _ ↔ sys.waiting cur = _
      rw [hspared.waiting cur, ← hi.waiting cur]
      rcases hstays with hsame | ⟨hold, hnew, -⟩
      · rw [hsame]
      · rw [hnew, hold]
        simp
    · rcases hstays with hsame | ⟨-, -, hnot⟩
      · rw [hsame]
        exact hi.waking cur (hspared.owed cur hmem)
      · exact absurd hmem hnot
    · have houtside : s.phase cur = .outside := heq ▸ hi.idle
      rw [houtside]
      rfl
  · obtain ⟨mode, hphase⟩ := (hi.waiting cur).2 hwaiting
    refine ⟨p', h', _, hi.passed (.inr hphase) ?_ rfl hafter hpassed⟩
    simp [ResourceSys.advance, ResourceSys.goTo, hphase]

/-- The next step of a call. -/
theorem ResourceInv.next_step (hi : ResourceInv s p h E N) (hcur : s.sys.sched.current 0 = some cur)
    {fuel : Nat} (hrun : s.next fuel cur = some s') : ∃ p' h' x, Stepped s s' p' h h' cur x := by
  unfold ResourceSys.next at hrun
  split at hrun
  case h_1 wait hphase =>
    cases hrun
    unfold ResourceSys.claim
    split
    case isTrue hfree => exact hi.inside hphase rfl rfl rfl rfl (by simp) (.claim wait hfree)
    case isFalse hheld =>
      exact hi.inside hphase rfl rfl rfl rfl (by cases wait <;> simp) (.fail .exclusive wait hheld nofun)
  case h_2 wait hphase =>
    cases hrun
    unfold ResourceSys.load
    split
    case isTrue hopen => exact hi.inside hphase rfl rfl rfl rfl (by simp) (.load wait hopen)
    case isFalse hclosed =>
      have hneg : s.resource.activeCount < 0 := Int.not_le.1 hclosed
      exact hi.inside hphase rfl rfl rfl rfl (by cases wait <;> simp)
        (.fail .shared wait (Int.ne_of_lt hneg) fun _ => hneg)
  case h_3 wait seen hphase =>
    cases hrun
    unfold ResourceSys.join
    split
    case isTrue hsame =>
      subst hsame
      exact hi.inside hphase rfl rfl rfl rfl (by simp) (.join wait)
    case isFalse hchanged =>
      exact hi.inside hphase rfl rfl rfl rfl (by simp) (.lose wait seen hchanged)
  case h_4 mode hphase =>
    obtain ⟨sys, hwait, rfl⟩ := Option.map_eq_some_iff.1 hrun
    have hidle : cur ≠ .idle 0 := hi.worker (by simp [hphase])
    obtain ⟨p', h', hafter, hpassed⟩ := hi.hands.enter hi.event hcur (.inl hidle) hwait
    refine ⟨p', h', _, hi.passed (.inl hphase) ?_ rfl hafter hpassed⟩
    simp [ResourceSys.advance, ResourceSys.goTo]
  case h_5 hphase =>
    cases hrun
    exact hi.inside hphase rfl rfl rfl rfl (by simp) .own
  case h_6 mode seen hphase =>
    cases hrun
    unfold ResourceSys.giveBack
    split
    case isTrue hexclusive =>
      subst hexclusive
      exact hi.inside hphase rfl rfl rfl rfl (by simp) (.disown mode)
    case isFalse hother =>
      split
      case isTrue hshared => exact hi.inside hphase rfl rfl rfl rfl (by simp) (.leave mode seen hshared)
      case isFalse hneither =>
        exact hi.inside hphase rfl rfl rfl rfl (by simp) (.skip mode seen ⟨hother, hneither⟩)
  case h_7 hphase =>
    cases hrun
    exact hi.inside hphase rfl rfl rfl rfl (by simp) .free
  case h_8 hphase =>
    obtain ⟨h', hstepped⟩ := hi.signal_step hphase hrun
    exact ⟨p, h', _, hstepped⟩
  case h_9 => cases hrun

theorem resourceStep_stepped (hi : ResourceInv s p h E N) (hcur : s.sys.sched.current 0 = some cur)
    {fuel : Nat} {a : ResourceAction} (hrun : resourceStepOf fuel cur s a = some s') :
    ∃ p' h' x, Stepped s s' p' h h' cur x := by
  have hlegacy := hi.hands.inv.legacy
  have henter : ∀ (mode : ResourceMode) (wait : Bool), s.canCall cur = true →
      Stepped s (s.enterLoop mode wait cur) p h h cur (.trying mode wait) := by
    intro mode wait hcall
    unfold ResourceSys.canCall at hcall
    simp only [Bool.and_eq_true, decide_eq_true_eq] at hcall
    obtain ⟨⟨-, hphase⟩, hcan⟩ := hcall
    have hsame : s.enterLoop mode wait cur = s.goTo cur (.trying mode wait) := by
      unfold ResourceSys.enterLoop
      rw [hlegacy]
      rfl
    rw [hsame]
    refine hi.code rfl rfl rfl (by simp [hphase]) (by simp) (hi.hands.inv.can_block hcur hcan) ?_
    rw [hphase]
    exact .enter mode wait
  cases a with
  | acquireExclusive wait =>
    simp only [resourceStepOf, Option.ite_none_right_eq_some, Option.some.injEq] at hrun
    obtain ⟨hcall, rfl⟩ := hrun
    exact ⟨p, h, _, henter .exclusive wait hcall⟩
  | acquireShared wait =>
    simp only [resourceStepOf, Option.ite_none_right_eq_some, Option.some.injEq] at hrun
    obtain ⟨hcall, rfl⟩ := hrun
    exact ⟨p, h, _, henter .shared wait hcall⟩
  | release =>
    simp only [resourceStepOf, Option.ite_none_right_eq_some] at hrun
    obtain ⟨mode, hheld, rfl⟩ := Option.map_eq_some_iff.1 hrun.2
    have hphase : s.phase cur = .holding mode := by
      cases hold : s.phase cur <;> simp [hold, ResourcePhase.held] at hheld ⊢
      exact hheld
    have hsame : exReleaseResourceLite mode cur s =
        s.goTo cur (.releasing mode s.resource.activeCount) := by
      unfold exReleaseResourceLite
      rw [hlegacy]
      rfl
    rw [hsame]
    exact hi.inside hphase rfl rfl rfl rfl (by simp) (.release mode)
  | next =>
    simp only [resourceStepOf, Option.ite_none_right_eq_some] at hrun
    exact hi.next_step hcur hrun.2
  | system b =>
    simp only [resourceStepOf, Option.ite_none_right_eq_some] at hrun
    obtain ⟨⟨hspares, -⟩, hrun⟩ := hrun
    obtain ⟨sys, hsys, rfl⟩ := Option.map_eq_some_iff.1 hrun
    exact hi.system_step hcur hspares hsys

/-- Only the exchange gets a thread from the load into the resource. -/
theorem joins_next {fuel : Nat} {a : ResourceAction} {wait : Bool} {seen : Int}
    (hrun : resourceStepOf fuel cur s a = some s') (hloaded : s.phase cur = .loaded wait seen)
    (hjoined : s'.phase cur = .holding .shared) : a = .next := by
  cases a with
  | acquireExclusive | acquireShared =>
    simp [resourceStepOf, ResourceSys.canCall, hloaded] at hrun
  | release => simp [resourceStepOf, hloaded, ResourcePhase.held] at hrun
  | next => rfl
  | system b =>
    simp only [resourceStepOf, Option.ite_none_right_eq_some] at hrun
    obtain ⟨sys, -, rfl⟩ := Option.map_eq_some_iff.1 hrun.2
    simp [ResourceSys.advance, ResourceSys.goTo, hloaded, ResourcePhase.after] at hjoined

/-! ## Runs -/

theorem resourceStart_inv (hs : ResourceStart s) :
    (∃ p h, ResourceInv s p h 0 0) ∧ s.resource.activeCount = 0 := by
  obtain ⟨event, sem, sys, hevent, hsem, hreach, hnobody, hnone, rfl⟩ := hs
  obtain ⟨p, hinv⟩ := waitRun_inv hreach
  have hinit : keInitializeEvent event 1 false sys = sys.setHeader event ⟨1, 0⟩ := if_neg hevent
  have hfresh := hands_fresh hinv hevent hnobody hnone
  obtain ⟨h, hdown, hhands⟩ := hfresh
  have hall : Hands (keInitializeSemaphore sem 0 (keInitializeEvent event 1 false sys)) p event h ∧
      (keInitializeSemaphore sem 0 (keInitializeEvent event 1 false sys)).waiting = sys.waiting ∧
        (keInitializeSemaphore sem 0 (keInitializeEvent event 1 false sys)).owed = sys.owed := by
    unfold keInitializeSemaphore
    split
    · exact ⟨hhands, by rw [hinit]; rfl, by rw [hinit]; rfl⟩
    · exact ⟨hhands.setHeader hsem _, by rw [hinit]; rfl, by rw [hinit]; rfl⟩
  obtain ⟨hsys, hwaiting, howed⟩ := hall
  refine ⟨⟨p, h, hevent, hsys, fun hup => ?_, ⟨headcount_zero fun _ => rfl, headcount_zero fun _ => rfl,
    .inl ⟨rfl, rfl⟩, fun _ => trivial, nofun⟩, fun t => ?_, fun t ht => ?_, rfl⟩, rfl⟩
  · rw [hdown] at hup
    cases hup
  · change _ ↔ (keInitializeSemaphore sem 0 (keInitializeEvent event 1 false sys)).waiting t = some event
    rw [hwaiting]
    exact iff_of_false nofun (hnobody t)
  · change Waker.event event ∈ (keInitializeSemaphore sem 0 _).owed t at ht
    rw [howed] at ht
    exact absurd rfl (hnone t _ ht)

theorem resourceStep_inv {a : ResourceAction} (hi : ResourceInv s p h E N)
    (hstep : ResourceStep s a s') : ∃ cur p' h' x, s.sys.sched.current 0 = some cur ∧
      Stepped s s' p' h h' cur x ∧ (∀ wait seen, s.phase cur = .loaded wait seen →
        x = .holding .shared → a = .next) ∧ ∃ E' N', ResourceInv s' p' h' E' N' := by
  obtain ⟨fuel, hstep⟩ := hstep
  obtain ⟨cur, hcur, hrun⟩ := Option.bind_eq_some_iff.1 hstep
  obtain ⟨p', h', x, hs⟩ := resourceStep_stepped hi hcur hrun
  refine ⟨cur, p', h', x, hcur, hs, fun wait seen hloaded hx => ?_, hi.stepped hs⟩
  exact joins_next hrun hloaded (by rw [hs.phase, Function.update_self, hx])

theorem resourceReach_inv {guard : ResourceSys → ResourceAction → Prop}
    (hreach : Reach ResourceStart ResourceStep guard s) : ∃ p h E N, ResourceInv s p h E N := by
  apply hreach.invariant
  · intro s hs
    obtain ⟨⟨p, h, hi⟩, -⟩ := resourceStart_inv hs
    exact ⟨p, h, 0, 0, hi⟩
  · rintro s a s' ⟨p, h, E, N, hi⟩ - hstep
    obtain ⟨cur, p', h', x, -, -, -, E', N', hi'⟩ := resourceStep_inv hi hstep
    exact ⟨p', h', E', N', hi'⟩

/-- From the exchange of the acquire to the store of the release. -/
def HoldsExclusive (s : ResourceSys) (t : Tid) : Prop := (s.phase t).holdsExclusive = true

/-- The count says who has the resource. -/
structure CountRight (s : ResourceSys) : Prop where
  exclusive : s.resource.activeCount = -1 ↔ ∃ t, HoldsExclusive s t
  one : ∀ t u, HoldsExclusive s t → HoldsExclusive s u → t = u
  shared : s.resource.activeCount ≠ -1 → ∃ n : Nat, s.resource.activeCount = n ∧
    Headcount s.phase ResourcePhase.holdsShared n
  apart : ∀ t u, HoldsExclusive s t → (s.phase u).holdsShared = false

theorem ResourceInv.countRight (hi : ResourceInv s p h E N) : CountRight s := by
  obtain ⟨hexclusive, hshared, hholders, -, -⟩ := hi.entrance
  refine ⟨⟨fun hcount => ?_, fun ⟨t, ht⟩ => ?_⟩, fun t u ht hu => ?_, fun hcount => ?_, fun t u ht => ?_⟩
  · exact hexclusive.exists_of_pos (by omega)
  · have hpos := hexclusive.pos ht
    omega
  · exact hexclusive.unique (by omega) ht hu
  · exact ⟨N, by omega, hshared⟩
  · have hpos := hexclusive.pos ht
    by_contra hu
    rw [Bool.not_eq_false] at hu
    have hother := hshared.pos hu
    omega

/-- Every thread that is in a call sleeps in its wait. -/
def Settled (s : ResourceSys) : Prop :=
  ∀ t, s.phase t = .outside ∨ (∃ mode, s.phase t = .holding mode) ∨
    SleepsOn s.sys s.resource.exclusiveEvent t

/-- The thread is blocked inside `ExAcquireResourceSharedLite`. -/
def BlockedShared (s : ResourceSys) (t : Tid) : Prop :=
  s.phase t = .waiting .shared ∧ SleepsOn s.sys s.resource.exclusiveEvent t

theorem ResourceInv.sleeps_waiting (hi : ResourceInv s p h E N)
    (ht : SleepsOn s.sys s.resource.exclusiveEvent t) : ∃ mode, s.phase t = .waiting mode := by
  rw [hi.hands.inv.sleepsOn_iff, hi.hands.inv.mem_sleepers] at ht
  exact (hi.waiting t).2 ht.2

theorem ResourceInv.rests (hi : ResourceInv s p h E N) (hsettled : Settled s) (t : Tid) :
    s.phase t = .outside ∨ (∃ mode, s.phase t = .holding mode) ∨
      (∃ mode, s.phase t = .waiting mode) ∧ SleepsOn s.sys s.resource.exclusiveEvent t := by
  rcases hsettled t with hphase | hphase | hsleeps
  · exact .inl hphase
  · exact .inr (.inl hphase)
  · exact .inr (.inr ⟨hi.sleeps_waiting hsleeps, hsleeps⟩)

/-- A free resource that has come to rest has no waiter, of either kind. -/
theorem ResourceInv.free_settled (hi : ResourceInv s p h E N) (hsettled : Settled s)
    (hfree : s.resource.activeCount = 0) : ¬SleepsOn s.sys s.resource.exclusiveEvent t := by
  intro ht
  obtain ⟨mode, hphase⟩ := hi.sleeps_waiting ht
  have hasleep : t ∈ h.asleep := by
    rw [hi.hands.asleep]
    exact hi.hands.inv.sleepsOn_iff.1 ht
  have hup : h.signal = true := by
    rcases hi.entrance.token ⟨t, by rw [hphase]; rfl⟩ with hheld | hup | ⟨u, hu⟩
    · exact absurd hfree hheld
    · exact hup
    · rcases hi.rests hsettled u with hrest | ⟨m, hrest⟩ | ⟨⟨m, hrest⟩, -⟩ <;> rw [hrest] at hu <;> cases hu
  rcases hi.raised hup with howed | hawake | hnobody
  · obtain ⟨u, hu⟩ := List.exists_mem_of_ne_nil _ howed
    have hwaking : s.phase u = .waking := by
      apply hi.waking u
      rw [← List.count_pos_iff, ← hi.hands.owed u]
      exact List.count_pos_iff.2 hu
    rcases hi.rests hsettled u with hrest | ⟨m, hrest⟩ | ⟨⟨m, hrest⟩, -⟩ <;> rw [hwaking] at hrest <;>
      cases hrest
  · obtain ⟨u, hu⟩ := List.exists_mem_of_ne_nil _ hawake
    obtain ⟨hwait, hout⟩ := (hi.hands.awake u).1 hu
    obtain ⟨m, hwaits⟩ := (hi.waiting u).2 hwait
    rcases hi.rests hsettled u with hrest | ⟨m', hrest⟩ | ⟨-, hsleeps⟩
    · rw [hwaits] at hrest
      cases hrest
    · rw [hwaits] at hrest
      cases hrest
    · exact hout (hi.hands.inv.repr.inWaitList_iff.1 hsleeps.1)
  · rw [hnobody] at hasleep
    cases hasleep

/-! ## Readers that wait together -/

/-- No thread gets the resource shared while another one is in the wait of a shared acquire. -/
def ReadersApart (s : ResourceSys) : ResourceAction → Prop
  | .next => ∀ cur, s.sys.sched.current 0 = some cur →
      ∀ wait, s.phase cur = .loaded wait s.resource.activeCount →
        ∀ t, t ≠ cur → (s.phase t).sharedBehind = false
  | _ => True

theorem resourceReach_noneBehind (hreach : Reach ResourceStart ResourceStep ReadersApart s) :
    (∃ p h E N, ResourceInv s p h E N) ∧ NoneBehind s.resource.activeCount s.phase := by
  apply hreach.invariant
  · intro s hs
    obtain ⟨⟨p, h, hi⟩, hcount⟩ := resourceStart_inv hs
    refine ⟨⟨p, h, 0, 0, hi⟩, fun hpos => ?_⟩
    rw [hcount] at hpos
    cases hpos
  · rintro s a s' ⟨⟨p, h, E, N, hi⟩, hnone⟩ hok hstep
    obtain ⟨cur, p', h', x, hcur, hs, hnext, E', N', hi'⟩ := resourceStep_inv hi hstep
    refine ⟨⟨p', h', E', N', hi'⟩, ?_⟩
    rw [hs.phase]
    refine hnone.move (hi.entrance.seen cur) hs.move fun hx wait hloaded => ?_
    obtain rfl := hnext wait _ hloaded hx
    exact hok cur hcur wait hloaded

/-- The count is right, and a resource that is free or held shared and has come to rest has no
thread blocked in a shared acquire. -/
theorem resource_sound (hreach : Reach ResourceStart ResourceStep ReadersApart s) :
    CountRight s ∧ (Settled s → (∀ t, ¬HoldsExclusive s t) → ∀ t, ¬BlockedShared s t) := by
  obtain ⟨⟨p, h, E, N, hi⟩, hnone⟩ := resourceReach_noneBehind hreach
  refine ⟨hi.countRight, fun hsettled hopen t ht => ?_⟩
  have hclosed : s.resource.activeCount ≠ -1 := fun hcount =>
    let ⟨u, hu⟩ := hi.countRight.exclusive.1 hcount
    hopen u hu
  obtain ⟨n, hn, -⟩ := hi.countRight.shared hclosed
  by_cases hfree : s.resource.activeCount = 0
  · exact hi.free_settled hsettled hfree ht.2
  · have hbehind := hnone (by omega) t
    rw [ht.1] at hbehind
    cases hbehind

def bootedResource : ResourceSys := exInitializeResourceLite 5 6 bootedWaits

theorem bootedResource_start : ResourceStart bootedResource :=
  ⟨5, 6, bootedWaits, by decide, by decide, .start bootedWaits_booted, fun _ => nofun, fun _ _ => nofun, rfl⟩

/-- Only threads of the list run, and among them no reader passes another. -/
def ApartOn (L : List Tid) (s : ResourceSys) : ResourceAction → Prop
  | .next => ∃ cur ∈ L, s.sys.sched.current 0 = some cur ∧
      ∀ wait, s.phase cur = .loaded wait s.resource.activeCount →
        ∀ t ∈ L, t ≠ cur → (s.phase t).sharedBehind = false
  | _ => ∃ cur ∈ L, s.sys.sched.current 0 = some cur

instance (L : List Tid) (s : ResourceSys) (a : ResourceAction) : Decidable (ApartOn L s a) := by
  cases a <;> unfold ApartOn <;> infer_instance

/-- Only threads of the list run. -/
def RunsOn (L : List Tid) (s : ResourceSys) (_ : ResourceAction) : Prop :=
  ∃ cur ∈ L, s.sys.sched.current 0 = some cur

instance (L : List Tid) (s : ResourceSys) (a : ResourceAction) : Decidable (RunsOn L s a) :=
  inferInstanceAs (Decidable (∃ cur ∈ L, s.sys.sched.current 0 = some cur))

/-- Who never ran is in no call. -/
theorem outside_of_unseen {L : List Tid} (hreach : Reach ResourceStart ResourceStep (RunsOn L) s) :
    ∀ t, t ∉ L → s.phase t = .outside := by
  have hinv : (∃ p h E N, ResourceInv s p h E N) ∧ ∀ t, t ∉ L → s.phase t = .outside := by
    apply hreach.invariant
    · intro s hs
      obtain ⟨⟨p, h, hi⟩, -⟩ := resourceStart_inv hs
      obtain ⟨event, sem, sys, -, -, -, -, -, rfl⟩ := hs
      exact ⟨⟨p, h, 0, 0, hi⟩, fun _ _ => rfl⟩
    · rintro s a s' ⟨⟨p, h, E, N, hi⟩, hout⟩ ⟨cur, hmem, hcur⟩ hstep
      obtain ⟨cur', p', h', x, hcur', hs, -, E', N', hi'⟩ := resourceStep_inv hi hstep
      obtain rfl := Option.some.inj (hcur.symm.trans hcur')
      refine ⟨⟨p', h', E', N', hi'⟩, fun t ht => ?_⟩
      have hne : t ≠ cur := fun heq => ht (heq ▸ hmem)
      rw [hs.phase, Function.update_of_ne hne]
      exact hout t ht
  exact hinv.2

theorem ApartOn.runsOn {L : List Tid} {a : ResourceAction} (h : ApartOn L s a) : RunsOn L s a := by
  cases a with
  | next =>
    obtain ⟨cur, hmem, hcur, -⟩ := h
    exact ⟨cur, hmem, hcur⟩
  | _ => exact h

theorem readersApart_of_listed {L : List Tid} (hreach : Reach ResourceStart ResourceStep (ApartOn L) s) :
    Reach ResourceStart ResourceStep ReadersApart s := by
  induction hreach with
  | start hs => exact .start hs
  | @step s s' a hbefore hok hstep ih =>
    refine .step ih ?_ hstep
    cases a with
    | next =>
      obtain ⟨cur, -, hcur, happ⟩ := hok
      intro cur' hcur' wait hloaded t ht
      obtain rfl := Option.some.inj (hcur.symm.trans hcur')
      by_cases hmem : t ∈ L
      · exact happ wait hloaded t hmem ht
      · rw [outside_of_unseen (hbefore.mono fun _ _ h => h.runsOn) t hmem]
        rfl
    | _ => trivial

/-- The idle thread creates `n` threads and gives the processor up. -/
def resourceThreads (n : Nat) : List ResourceAction :=
  (List.replicate n [.system (.spawn (-1)), .system .mark, .system .insert]).flatten ++
    [.system .yieldProcessor]

/-- The first thread takes the resource exclusively, the next `n` wait for it shared, the first
gives it back, and the second gets it. -/
def handOverResource (n : Nat) : List ResourceAction :=
  resourceThreads (n + 1) ++ [.acquireExclusive true, .next, .next, .system .yieldProcessor] ++
    (List.replicate n [.acquireShared true, .next, .next]).flatten ++
      [.system .yieldProcessor, .release, .next, .next, .next, .system .wake, .system .mark,
        .system .insert, .system .yieldProcessor, .system .yieldProcessor, .system .retry, .next, .next]

def apartStep (L : List Tid) (s : ResourceSys) (a : ResourceAction) : Option ResourceSys :=
  if ApartOn L s a then resourceStep 16 s a else none

theorem resource_sound_oneReader : ∃ s,
    runSteps (apartStep [.idle 0, .worker 0, .worker 1]) (handOverResource 1) bootedResource = some s ∧
      s.resource.activeCount = 1 ∧ s.phase (.worker 1) = .holding .shared ∧ CountRight s ∧ Settled s ∧
        ∀ t, ¬BlockedShared s t := by
  have hstate : (runSteps (apartStep [.idle 0, .worker 0, .worker 1]) (handOverResource 1)
      bootedResource).map (fun s => (s.resource.activeCount, s.phase (.idle 0), s.phase (.worker 0),
        s.phase (.worker 1))) = some (1, .outside, .outside, .holding .shared) := by
    decide +kernel
  obtain ⟨s, hrun, hs⟩ := Option.map_eq_some_iff.1 hstate
  simp only [Prod.mk.injEq] at hs
  obtain ⟨hcount, hidle, hwriter, hreader⟩ := hs
  have hlisted : Reach ResourceStart ResourceStep (ApartOn [.idle 0, .worker 0, .worker 1]) s :=
    runGuarded_reach (fun _ _ => id) (fun _ _ _ hstep => ⟨16, hstep⟩) (.start bootedResource_start) hrun
  have hothers := outside_of_unseen (hlisted.mono fun _ _ h => h.runsOn)
  have hsettled : Settled s := by
    intro t
    by_cases hmem : t ∈ [Tid.idle 0, .worker 0, .worker 1]
    · simp only [List.mem_cons, List.not_mem_nil, or_false] at hmem
      rcases hmem with rfl | rfl | rfl
      · exact .inl hidle
      · exact .inl hwriter
      · exact .inr (.inl ⟨.shared, hreader⟩)
    · exact .inl (hothers t hmem)
  obtain ⟨hright, hblocked⟩ := resource_sound (readersApart_of_listed hlisted)
  refine ⟨s, hrun, hcount, hreader, hright, hsettled, hblocked hsettled fun t ht => ?_⟩
  have hclosed := hright.exclusive.2 ⟨t, ht⟩
  omega

def runsOnStep (L : List Tid) (s : ResourceSys) (a : ResourceAction) : Option ResourceSys :=
  if RunsOn L s a then resourceStep 16 s a else none

/-- Two threads wait shared behind the one that has the resource, and its release wakes one of
them. -/
theorem second_reader_blocked : ∃ s, Reach ResourceStart ResourceStep (fun _ _ => True) s ∧ Settled s ∧
    (∀ t, ¬HoldsExclusive s t) ∧ s.resource.activeCount = 1 ∧ BlockedShared s (.worker 2) := by
  have hstate : (runSteps (runsOnStep [.idle 0, .worker 0, .worker 1, .worker 2]) (handOverResource 2)
      bootedResource).map (fun s => (s.resource.activeCount, s.resource.exclusiveEvent,
        [Tid.idle 0, .worker 0, .worker 1, .worker 2].map s.phase, s.sys.sched.links.next .waitHead,
          (s.sys.sched.thread (.worker 2)).waitObject)) = some (1, 5,
            [.outside, .outside, .holding .shared, .waiting .shared], some (.waitLink (.worker 2)), 5) := by
    decide +kernel
  obtain ⟨s, hrun, hs⟩ := Option.map_eq_some_iff.1 hstate
  simp only [Prod.mk.injEq, List.map_cons, List.map_nil, List.cons.injEq, and_true] at hs
  obtain ⟨hcount, hevent, ⟨hidle, hwriter, hreader, hsecond⟩, hfirst, hobject⟩ := hs
  have hlisted : Reach ResourceStart ResourceStep (RunsOn [.idle 0, .worker 0, .worker 1, .worker 2]) s :=
    runGuarded_reach (fun _ _ => id) (fun _ _ _ hstep => ⟨16, hstep⟩) (.start bootedResource_start) hrun
  obtain ⟨p, h, E, N, hi⟩ := resourceReach_inv hlisted
  have hsleeps : SleepsOn s.sys s.resource.exclusiveEvent (.worker 2) :=
    ⟨hi.hands.inv.repr.first_waits hfirst, hobject.trans hevent.symm⟩
  refine ⟨s, hlisted.mono fun _ _ _ => trivial, fun t => ?_, fun t ht => ?_, hcount, hsecond, hsleeps⟩
  · by_cases hmem : t ∈ [Tid.idle 0, .worker 0, .worker 1, .worker 2]
    · simp only [List.mem_cons, List.not_mem_nil, or_false] at hmem
      rcases hmem with rfl | rfl | rfl | rfl
      · exact .inl hidle
      · exact .inl hwriter
      · exact .inr (.inl ⟨.shared, hreader⟩)
      · exact .inr (.inr hsleeps)
    · exact .inl (outside_of_unseen hlisted t hmem)
  · have hclosed := hi.countRight.exclusive.2 ⟨t, ht⟩
    omega

end MeuOS.Ex
