import MeuOS.Ke.SchedSteps
import MeuOS.Lib.Run

/-! Runs of the scheduler on any number of processors. -/
namespace MeuOS.Ke

open MeuOS.Lib

/-- The steps the scheduler is written for: a thread is readied once by its creator, on a
processor that runs; the idle thread neither sleeps nor exits; and nobody wakes an object
while a thread that waits for it is still on its way off its processor. -/
def StepOk (s : Sched) : Action → Prop
  | .initProcessor cpu => cpu < maxCpus ∧ s.online cpu = false
  | .readyThread _ t => (∃ n < s.created, t = .worker n) ∧ (s.thread t).state = .new ∧
      (∀ u, ∀ r ∈ s.pending u, r.thread ≠ t) ∧ AffinityOk s t
  | .blockCurrent cpu _ => s.online cpu = true ∧
      ∀ t, s.current cpu = some t → t ≠ .idle cpu ∧ (s.thread t).state = .running
  | .exit cpu => s.online cpu = true ∧
      ∀ t, s.current cpu = some t → t ≠ .idle cpu ∧ (s.thread t).state = .running
  | .wake _ obj _ => ∀ c t, s.online c = true → s.current c = some t →
      (s.thread t).state = .waiting → (s.thread t).waitObject ≠ obj
  | _ => True

/-- A step some processor can take in its turn. -/
def CanStep (s : Sched) : Action → Prop
  | .readyThread cpu _ => s.online cpu = true
  | .wake cpu _ _ => s.online cpu = true
  | .mark cpu => ∃ u t rest, s.current cpu = some u ∧ s.pending u = ⟨t, none⟩ :: rest
  | .insert cpu => ∃ u t c rest, s.current cpu = some u ∧ s.pending u = ⟨t, some c⟩ :: rest
  | _ => True

/-! ## What holds in every state -/

def InReadyQueue (s : Sched) (c : Nat) (t : Tid) : Prop :=
  ∃ l : List Tid, s.links.Ring (.readyHead c) (l.map .readyLink) ∧ t ∈ l

def InWaitList (s : Sched) (t : Tid) : Prop :=
  ∃ l : List Tid, s.links.Ring .waitHead (l.map .waitLink) ∧ t ∈ l

def OnCpu (s : Sched) (c : Nat) (t : Tid) : Prop := s.online c = true ∧ s.current c = some t

/-- Where a thread is, read off the links, the processors and the unfinished calls. A
thread that has just gone to sleep is on its processor until it gives it up. -/
def At (s : Sched) (t : Tid) : Place → Prop
  | .out => False
  | .current c => OnCpu s c t
  | .queued c => s.online c = true ∧ InReadyQueue s c t
  | .waiting => InWaitList s t ∧ ∀ c, ¬OnCpu s c t
  | .readying u => ((s.pending u).map Readying.thread).count t = 1

structure SchedSound (s : Sched) : Prop where
  ready_lists : ∀ c, s.online c = true → ∃ l : List Tid, s.links.Ring (.readyHead c) (l.map .readyLink)
  wait_list : ∃ l : List Tid, s.links.Ring .waitHead (l.map .waitLink)
  placed : ∀ t, (s.thread t).state ≠ .new → (s.thread t).state ≠ .terminated → ∃! pl, At s t pl
  asleep : ∀ c t, OnCpu s c t → (InWaitList s t ↔ (s.thread t).state = .waiting)
  idle : ∀ c, s.online c = true → At s (.idle c) (.current c) ∨ At s (.idle c) (.queued c)
  finished : ∀ t pl, (s.thread t).state = .terminated → At s t pl → ∃ c, pl = .current c

variable {s s' : Sched} {p : Placement} {t : Tid}

theorem Represents.inReadyQueue_iff (h : Represents s p) {c : Nat} (hon : s.online c = true) :
    InReadyQueue s c t ↔ p.place t = .queued c := by
  rw [h.queued]
  constructor
  · rintro ⟨l, hring, ht⟩
    have heq := hring.unique (h.lists.ready c hon)
    rwa [List.map_injective_iff.2 (fun _ _ h => Node.readyLink.inj h) heq] at ht
  · exact fun ht => ⟨p.queue c, h.lists.ready c hon, ht⟩

theorem Represents.inWaitList_iff (h : Represents s p) : InWaitList s t ↔ t ∈ p.waitList := by
  constructor
  · rintro ⟨l, hring, ht⟩
    have heq := hring.unique h.lists.wait
    rwa [List.map_injective_iff.2 (fun _ _ h => Node.waitLink.inj h) heq] at ht
  · exact fun ht => ⟨p.waitList, h.lists.wait, ht⟩

/-- The places of a placement are the places of its states. -/
theorem Represents.at_iff (h : Represents s p) {pl : Place} :
    At s t pl ↔ pl ≠ .out ∧ p.place t = pl := by
  cases pl with
  | out => simp [At]
  | current c => simp [At, OnCpu, h.current c t]
  | queued c =>
    simp only [At, ne_eq, reduceCtorEq, not_false_eq_true, true_and]
    constructor
    · rintro ⟨hon, hq⟩
      exact (h.inReadyQueue_iff hon).1 hq
    · intro hp
      have hon := h.queue_online c t ((h.queued c t).1 hp)
      exact ⟨hon, (h.inReadyQueue_iff hon).2 hp⟩
  | waiting =>
    simp only [At, ne_eq, reduceCtorEq, not_false_eq_true, true_and, h.inWaitList_iff]
    have hcur : ∀ c, OnCpu s c t ↔ p.place t = .current c := fun c => (h.current c t).symm
    simp only [hcur, h.waiting t]
    grind
  | readying u =>
    simp only [At, ne_eq, reduceCtorEq, not_false_eq_true, true_and, h.readying u t]
    exact ⟨fun hc => List.count_pos_iff.1 (by omega),
      List.count_eq_one_of_mem (h.pending_nodup u)⟩

theorem Represents.sound (h : Represents s p) : SchedSound s := by
  refine ⟨fun c hc => ⟨_, h.lists.ready c hc⟩, ⟨_, h.lists.wait⟩, fun t hnew hterm => ?_,
    fun c t hc => ?_, fun c hc => ?_, fun t pl hterm hat => ?_⟩
  · have hout : p.place t ≠ .out := by
      intro hp
      rcases h.out t hp with hs | hs
      · exact hnew hs
      · exact hterm hs
    exact ⟨p.place t, h.at_iff.2 ⟨hout, rfl⟩, fun pl hpl => (h.at_iff.1 hpl).2.symm⟩
  · have hp := (h.current c t).2 hc
    rw [h.inWaitList_iff, h.waiting t, hp]
    simp
  · simp only [h.at_iff, ne_eq, reduceCtorEq, not_false_eq_true, true_and]
    exact (h.idle c hc).2.2
  · obtain ⟨hout, rfl⟩ := h.at_iff.1 hat
    rcases h.terminated t hterm with hp | hp
    · exact absurd hp hout
    · exact hp

/-! ## Runs -/

/-- After boot the idle thread is on processor 0 and every list is empty. -/
theorem booted_repr (h : Booted s) : ∃ p, Represents s p := by
  subst h
  have hon : ∀ c, (kiInitProcessor 0 zeroSched).online c = true ↔ c = 0 := by
    intro c
    by_cases heq : c = 0
    · subst heq
      decide
    · simp [kiInitProcessor, maxCpus, Sched.online, heq, zeroSched]
  have hcur : ∀ c, c ≠ 0 → (kiInitProcessor 0 zeroSched).current c = none := by
    intro c hc
    simp [kiInitProcessor, maxCpus, Sched.current, hc, zeroSched]
  have hthread : ∀ t, t ≠ .idle 0 → (kiInitProcessor 0 zeroSched).thread t = zeroThread := by
    intro t ht
    simp [kiInitProcessor, maxCpus, ht, zeroSched]
  have hidle : ((kiInitProcessor 0 zeroSched).thread (.idle 0)).state = .running := rfl
  refine ⟨⟨fun t => if t = .idle 0 then .current 0 else .out, fun _ => [], []⟩,
    ⟨⟨fun c hc => ?_, ?_, by simp⟩, fun c hc => ?_, fun c t => ?_, by grind, by simp, fun t => ?_,
    fun u t => ?_, fun u => ?_, fun u r hr => ?_, fun t ht => ?_, fun t ht => ?_, fun t ht => ?_,
    fun c hc => ?_, fun c hc => ?_, fun t ht => ?_, fun n hn => ?_, rfl⟩⟩
  · obtain rfl := (hon c).1 hc
    apply (Links.ring_initHead (zeroSched.links.initHead .waitHead) (.readyHead 0)).congr
    · intro x hx
      rw [List.mem_singleton.1 hx]
      rfl
    · intro x hx
      rw [List.mem_singleton.1 hx]
      rfl
  · apply (Links.ring_initHead zeroSched.links .waitHead).congr
    · intro x hx
      rw [List.mem_singleton.1 hx]
      rfl
    · intro x hx
      rw [List.mem_singleton.1 hx]
      rfl
  · obtain rfl := (hon c).1 hc
    exact ⟨.idle 0, rfl⟩
  · by_cases hc : c = 0
    · subst hc
      have : (kiInitProcessor 0 zeroSched).current 0 = some (.idle 0) := rfl
      have := (hon 0).2 rfl
      grind
    · have := hcur c hc
      grind
  · by_cases ht : t = .idle 0
    · subst ht
      simp [hidle]
    · simp [ht]
  · have hnone : (kiInitProcessor 0 zeroSched).pending u = [] := rfl
    rw [hnone]
    grind
  · exact List.nodup_nil
  · cases hr
  · have hne : t ≠ .idle 0 := by grind
    rw [hthread t hne]
    exact .inl rfl
  · by_cases hne : t = .idle 0
    · subst hne
      rw [hidle] at ht
      cases ht
    · exact .inl (if_neg hne)
  · by_cases hne : t = .idle 0
    · exact .inr ⟨0, if_pos hne⟩
    · exact .inl (if_neg hne)
  · obtain rfl := (hon c).1 hc
    exact ⟨rfl, rfl, .inl rfl⟩
  · have hne : c ≠ 0 := by
      rintro rfl
      rw [(hon 0).2 rfl] at hc
      cases hc
    have hne' : Tid.idle c ≠ .idle 0 := by simpa using hne
    rw [hthread _ hne']
    exact ⟨if_neg hne', rfl⟩
  · obtain rfl : t = .idle 0 := by grind
    exact .inr (.inr rfl)
  · rw [hthread (.worker n) (by simp)]
    exact ⟨by simp, rfl⟩

theorem schedStep_repr (h : Represents s p) {a : Action} (hok : StepOk s a) (hstep : SchedStep s a s') :
    (∃ p', Represents s' p') ∧ Keeps s s' := by
  obtain ⟨fuel, hrun⟩ := hstep
  cases a with
  | initProcessor cpu =>
    cases hrun
    exact kiInitProcessor_spec h hok.1 hok.2
  | create affinity =>
    cases hrun
    obtain ⟨hrepr, hkeeps⟩ := kiCreateThread_spec h affinity
    exact ⟨⟨p, hrepr⟩, hkeeps⟩
  | readyThread cpu t =>
    obtain ⟨cur, hcur, rfl⟩ := Option.map_eq_some_iff.1 hrun
    obtain ⟨⟨n, hn, hworker⟩, hnew, hfree, haff⟩ := hok
    exact ⟨h.readyThread hworker hn hnew hfree haff, Keeps.of_states (fun _ => rfl) rfl⟩
  | mark cpu =>
    obtain ⟨cur, hcur, hrun⟩ := Option.bind_eq_some_iff.1 hrun
    exact readyMark_spec h hrun
  | insert cpu =>
    obtain ⟨cur, hcur, hrun⟩ := Option.bind_eq_some_iff.1 hrun
    exact readyInsert_spec h hrun
  | quantumEnd cpu =>
    obtain ⟨s₁, hrun₁, hspec⟩ := kiQuantumEnd_spec h cpu
    obtain rfl : s₁ = s' := Option.some.inj (hrun₁.symm.trans hrun)
    exact hspec
  | yieldProcessor cpu =>
    obtain ⟨s₁, hrun₁, hspec⟩ := kiYieldProcessor_spec h cpu
    obtain rfl : s₁ = s' := Option.some.inj (hrun₁.symm.trans hrun)
    exact hspec
  | blockCurrent cpu obj =>
    obtain ⟨cur, hcur⟩ := h.running cpu hok.1
    obtain ⟨hidle, hrunning⟩ := hok.2 cur hcur
    obtain ⟨s₁, hrun₁, hspec⟩ := kiBlockCurrent_spec h obj hok.1 hcur hidle hrunning
    obtain rfl : s₁ = s' := Option.some.inj (hrun₁.symm.trans hrun)
    exact hspec
  | wake cpu obj wakeAll => exact kiWake_spec h hok hrun
  | exit cpu =>
    cases hrun
    obtain ⟨cur, hcur⟩ := h.running cpu hok.1
    obtain ⟨hidle, hrunning⟩ := hok.2 cur hcur
    exact kiThreadExit_spec h hok.1 hcur hidle hrunning

theorem schedRun_repr (h : Reach Booted SchedStep StepOk s) : ∃ p, Represents s p := by
  apply h.invariant (fun s hs => booted_repr hs)
  rintro s a s' ⟨p, hp⟩ hok hstep
  exact (schedStep_repr hp hok hstep).1

/-- No step faults: every link it follows is there, and the walk of `ki_wake` ends. -/
theorem schedStep_returns (h : Represents s p) {a : Action} (hok : StepOk s a) (hcan : CanStep s a) :
    ∃ s', SchedStep s a s' := by
  cases a with
  | initProcessor cpu => exact ⟨_, 0, rfl⟩
  | create affinity => exact ⟨_, 0, rfl⟩
  | readyThread cpu t =>
    obtain ⟨cur, hcur⟩ := h.running cpu hcan
    exact ⟨_, 0, by simp only [schedStep, hcur, Option.map_some]; rfl⟩
  | mark cpu =>
    obtain ⟨u, t, rest, hcur, hpending⟩ := hcan
    exact ⟨_, 0, by simp only [schedStep, hcur, Option.bind_some, readyMark, hpending]; rfl⟩
  | insert cpu =>
    obtain ⟨u, t, c, rest, hcur, hpending⟩ := hcan
    obtain ⟨hon, -⟩ := h.target u ⟨t, some c⟩ (hpending ▸ List.mem_cons_self) c rfl
    have hplace : p.place t = .readying u := (h.readying u t).2 (by simp [hpending])
    have hfresh : ∀ c, t ∉ p.queue c := h.not_queued (by simp [hplace])
    obtain ⟨links, hinsert, -⟩ := h.lists.push hon hfresh
    exact ⟨_, 0, by
      simp only [schedStep, hcur, Option.bind_some, readyInsert, hpending, hinsert, Option.map_some]
      rfl⟩
  | quantumEnd cpu =>
    obtain ⟨s', hrun, -⟩ := kiQuantumEnd_spec h cpu
    exact ⟨s', 0, hrun⟩
  | yieldProcessor cpu =>
    obtain ⟨s', hrun, -⟩ := kiYieldProcessor_spec h cpu
    exact ⟨s', 0, hrun⟩
  | blockCurrent cpu obj =>
    obtain ⟨cur, hcur⟩ := h.running cpu hok.1
    obtain ⟨hidle, hrunning⟩ := hok.2 cur hcur
    obtain ⟨s', hrun, -⟩ := kiBlockCurrent_spec h obj hok.1 hcur hidle hrunning
    exact ⟨s', 0, hrun⟩
  | wake cpu obj wakeAll =>
    obtain ⟨fuel, s', hrun⟩ := kiWake_returns h wakeAll hok hcan
    exact ⟨s', fuel, hrun⟩
  | exit cpu => exact ⟨_, 0, rfl⟩

/-! ## A thread that sleeps and is woken -/

def booted : Sched := kiInitProcessor 0 zeroSched

def schedRun (fuel : Nat) : List Action → Sched → Option Sched
  | [], s => some s
  | a :: l, s => (schedStep fuel s a).bind (schedRun fuel l)

/-- A thread is created and readied, takes the processor, and goes to sleep. -/
def sleepRun : List Action :=
  [.create 0, .readyThread 0 (.worker 0), .mark 0, .insert 0, .quantumEnd 0, .blockCurrent 0 1]

/-- It gives the processor up, and the idle thread wakes what it waits for. -/
def wakeRun : List Action := sleepRun ++ [.yieldProcessor 0, .wake 0 1 true]

/-- The state a run leads to. -/
def afterRun (l : List Action) : Sched := (schedRun 4 l booted).getD booted

theorem schedRun_append (fuel : Nat) (l : List Action) (a : Action) (s : Sched) :
    schedRun fuel (l ++ [a]) s = (schedRun fuel l s).bind fun s => schedStep fuel s a := by
  induction l generalizing s with
  | nil => simp [schedRun]
  | cons b l ih =>
    simp only [List.cons_append, schedRun, Option.bind_assoc]
    congr 1
    funext s'
    exact ih s'

/-- A run that goes through can be extended by one step. -/
theorem afterRun_step {l : List Action} {a : Action}
    (h : (schedRun 4 (l ++ [a]) booted).isSome = true) :
    SchedStep (afterRun l) a (afterRun (l ++ [a])) := by
  refine ⟨4, ?_⟩
  obtain ⟨s', hs'⟩ := Option.isSome_iff_exists.1 h
  have hbind := hs'
  rw [schedRun_append] at hbind
  obtain ⟨s₁, hs₁, hstep⟩ := Option.bind_eq_some_iff.1 hbind
  simp only [afterRun, hs', hs₁, Option.getD_some, hstep]

theorem sleepRun_reach : Reach Booted SchedStep StepOk (afterRun sleepRun) := by
  have h0 : Reach Booted SchedStep StepOk (afterRun []) := .start rfl
  have h1 := h0.step (a := Action.create 0) trivial (afterRun_step (by decide +kernel))
  have hfree : StepOk (afterRun [.create 0]) (.readyThread 0 (.worker 0)) := by
    refine ⟨⟨0, by decide +kernel, rfl⟩, by decide +kernel, fun u r hr => ?_, ?_⟩
    · have hnil : (afterRun [.create 0]).pending u = [] := rfl
      rw [hnil] at hr
      cases hr
    · exact .inr (.inr (by decide +kernel))
  have h2 := h1.step hfree (afterRun_step (by decide +kernel))
  have h3 := h2.step (a := Action.mark 0) trivial (afterRun_step (by decide +kernel))
  have h4 := h3.step (a := Action.insert 0) trivial (afterRun_step (by decide +kernel))
  have h5 := h4.step (a := Action.quantumEnd 0) trivial (afterRun_step (by decide +kernel))
  refine h5.step (a := Action.blockCurrent 0 1) ⟨by decide +kernel, fun t ht => ?_⟩
    (afterRun_step (by decide +kernel))
  have hcur : (afterRun [.create 0, .readyThread 0 (.worker 0), .mark 0, .insert 0,
      .quantumEnd 0]).current 0 = some (.worker 0) := by decide +kernel
  obtain rfl : .worker 0 = t := Option.some.inj (hcur.symm.trans ht)
  exact ⟨by decide, by decide +kernel⟩

theorem wakeRun_reach : Reach Booted SchedStep StepOk (afterRun wakeRun) := by
  have h1 := sleepRun_reach.step (a := Action.yieldProcessor 0) trivial (afterRun_step (by decide +kernel))
  refine h1.step (a := Action.wake 0 1 true) (fun c t hon hcur => ?_) (afterRun_step (by decide +kernel))
  cases c with
  | zero =>
    have hidle : (afterRun (sleepRun ++ [.yieldProcessor 0])).current 0 = some (.idle 0) := by
      decide +kernel
    obtain rfl : .idle 0 = t := Option.some.inj (hidle.symm.trans hcur)
    intro hstate
    exact absurd hstate (by decide +kernel)
  | succ c =>
    have hoff : (afterRun (sleepRun ++ [.yieldProcessor 0])).online (c + 1) = false := rfl
    rw [hoff] at hon
    cases hon

/-- In every state of every run, each thread that was readied and has not terminated is in
exactly one place, the lists are well formed, and no step faults or brings a terminated
thread back. -/
theorem schedRun_sound (h : Reach Booted SchedStep StepOk s) :
    SchedSound s ∧ ∀ a, StepOk s a →
      (CanStep s a → ∃ s', SchedStep s a s') ∧ ∀ s', SchedStep s a s' → Keeps s s' := by
  obtain ⟨p, hp⟩ := schedRun_repr h
  exact ⟨hp.sound, fun a hok => ⟨fun hcan => schedStep_returns hp hok hcan,
    fun s' hstep => (schedStep_repr hp hok hstep).2⟩⟩

theorem schedRun_sound_sleep :
    SchedSound (afterRun sleepRun) ∧ ∀ a, StepOk (afterRun sleepRun) a →
      (CanStep (afterRun sleepRun) a → ∃ s', SchedStep (afterRun sleepRun) a s') ∧
        ∀ s', SchedStep (afterRun sleepRun) a s' → Keeps (afterRun sleepRun) s' :=
  schedRun_sound sleepRun_reach

/-- A thread that has gone to sleep is in the wait list and still current; one that
`ki_wake` has taken out of the wait list is, until it is readied, in no list and on no
processor. -/
theorem schedRun_halfway :
    (∃ s t, Reach Booted SchedStep StepOk s ∧ (s.thread t).state ≠ .new ∧
      (s.thread t).state ≠ .terminated ∧ OnCpu s 0 t ∧ InWaitList s t) ∧
    (∃ s t, Reach Booted SchedStep StepOk s ∧ (s.thread t).state ≠ .new ∧
      (s.thread t).state ≠ .terminated ∧ (∀ c, ¬OnCpu s c t) ∧
      (∀ c, s.online c = true → ¬InReadyQueue s c t) ∧ ¬InWaitList s t) := by
  constructor
  · obtain ⟨p, hp⟩ := schedRun_repr sleepRun_reach
    have hcur : OnCpu (afterRun sleepRun) 0 (.worker 0) := by
      constructor
      · decide +kernel
      · decide +kernel
    have hstate : ((afterRun sleepRun).thread (.worker 0)).state = .waiting := by decide +kernel
    refine ⟨_, .worker 0, sleepRun_reach, by rw [hstate]; decide, by rw [hstate]; decide, hcur, ?_⟩
    exact (hp.sound.asleep 0 _ hcur).2 hstate
  · obtain ⟨p, hp⟩ := schedRun_repr wakeRun_reach
    have hstate : ((afterRun wakeRun).thread (.worker 0)).state = .waiting := by decide +kernel
    have hmem : Tid.worker 0 ∈ ((afterRun wakeRun).pending (.idle 0)).map Readying.thread := by
      decide +kernel
    have hplace : p.place (.worker 0) = .readying (.idle 0) := (hp.readying _ _).2 hmem
    refine ⟨_, .worker 0, wakeRun_reach, by rw [hstate]; decide, by rw [hstate]; decide,
      fun c hc => ?_, fun c hon hq => ?_, fun hw => ?_⟩
    · rw [(hp.current c _).2 hc] at hplace
      cases hplace
    · rw [(hp.inReadyQueue_iff hon).1 hq] at hplace
      cases hplace
    · have := (hp.waiting _).1 (hp.inWaitList_iff.1 hw)
      rw [hplace] at this
      simp at this

end MeuOS.Ke
