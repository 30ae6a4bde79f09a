import MeuOS.Ke.TimerRuns
import MeuOS.Ke.WaitSteps

/-! Runs of threads that wait and are woken, and what a wake of all waiters leaves. -/
namespace MeuOS.Ke

open MeuOS.Lib

variable {s s' : WaitSys} {p p' : Placement} {cur t : Tid} {obj : Nat}

theorem waitBooted_inv (h : WaitBooted s) : ∃ p, WaitInv s p := by
  obtain ⟨hbooted, ⟨s₀, htimers, hlegacy, -⟩, hp4, hwaiting, -, -⟩ := h
  obtain ⟨p, hrepr⟩ := booted_repr hbooted
  have hcur : s.sched.current 0 = some (.idle 0) := by
    rw [hbooted]
    rfl
  have hnone : p.waitList = [] := by
    apply List.eq_nil_iff_forall_not_mem.2
    intro t ht
    have hempty : s.sched.links.Ring .waitHead [] := by
      rw [hbooted]
      apply (Links.ring_initHead zeroSched.links .waitHead).congr
      · intro x hx
        rw [List.mem_singleton.1 hx]
        rfl
      · intro x hx
        rw [List.mem_singleton.1 hx]
        rfl
    have hsame := hrepr.lists.wait.unique hempty
    rw [List.map_eq_nil_iff] at hsame
    rw [hsame] at ht
    cases ht
  refine ⟨p, hrepr, fun c hc => ?_, fun t ht => ?_, ?_, fun t ht => absurd (hwaiting t) ht, ?_, hp4⟩
  · by_contra hne
    rw [hbooted] at hc
    simp [kiInitProcessor, maxCpus, Sched.online, hne, zeroSched] at hc
  · rw [hcur, Option.some.injEq] at ht
    subst ht
    left
    rw [hbooted]
    rfl
  · rw [hnone]
    simp
  · rw [htimers]
    exact hlegacy

/-- A thread in a wait that has the processor runs. -/
theorem WaitInv.retry_running (h : WaitInv s p) (hcur : s.sched.current 0 = some cur)
    (hwaiting : s.waiting cur ≠ none) : (s.sched.thread cur).state = .running := by
  rcases h.active cur hcur with hrunning | hterm
  · exact hrunning
  · exact absurd hterm (h.alive cur hwaiting).2

/-- What a call of the wait or a further pass comes to. -/
theorem waitStep_pass (h : WaitInv s p) {a : WaitAction} (hcur : s.sched.current 0 = some cur)
    {fuel : Nat} (hrun : waitStepOf fuel cur s a = some s') :
    (∀ obj timeout, a = .wait obj timeout → s.waiting cur = none ∧ (s.sched.thread cur).state = .running ∧
      ∃ status, keWaitForSingleObject cur obj timeout s = some (status, s')) ∧
    (a = .retry → ∃ obj, s.waiting cur = some obj ∧ s.timers.firing = [] ∧
      (s.sched.thread cur).state = .running ∧
      ∃ status, waitPass cur obj none s = some (status, s')) := by
  constructor
  · rintro obj timeout rfl
    simp only [waitStepOf, Option.ite_none_right_eq_some] at hrun
    obtain ⟨-, hwaiting, hrunning⟩ := h.free_running hrun.1
    obtain ⟨⟨status, s₁⟩, hpass, rfl⟩ := Option.map_eq_some_iff.1 hrun.2
    exact ⟨hwaiting, hrunning, status, hpass⟩
  · rintro rfl
    simp only [waitStepOf] at hrun
    split at hrun
    case h_1 obj hwaiting =>
      simp only [Option.ite_none_right_eq_some] at hrun
      obtain ⟨⟨status, s₁⟩, hpass, rfl⟩ := Option.map_eq_some_iff.1 hrun.2
      have hidle : s.timers.firing = [] := by simpa [WaitSys.idleTick] using hrun.1
      exact ⟨obj, hwaiting, hidle, h.retry_running hcur (by simp [hwaiting]), status, hpass⟩
    case h_2 => cases hrun

theorem waitPass_inv (h : WaitInv s p) (hcur : s.sched.current 0 = some cur)
    (hrunning : (s.sched.thread cur).state = .running) {timeout : Option Int}
    {status : Option WaitStatus} (hrun : waitPass cur obj timeout s = some (status, s')) :
    ∃ p', WaitInv s' p' := by
  rcases waitPass_cases h hcur hrunning obj timeout with ⟨-, hpass⟩ | ⟨-, -, st, hpass⟩ |
    ⟨-, -, sched, p', hpass, hslept⟩
  · obtain rfl := congrArg Prod.snd (Option.some.inj (hpass.symm.trans hrun))
    exact ⟨p, (h.leave hcur).congr rfl rfl rfl rfl⟩
  · obtain rfl := congrArg Prod.snd (Option.some.inj (hpass.symm.trans hrun))
    exact ⟨p, h.leave hcur⟩
  · obtain rfl := congrArg Prod.snd (Option.some.inj (hpass.symm.trans hrun))
    exact ⟨p', hslept.inv⟩

theorem waitStep_inv (h : WaitInv s p) {a : WaitAction} (hstep : WaitStep s a s') :
    ∃ p', WaitInv s' p' := by
  obtain ⟨fuel, hrun⟩ := hstep
  obtain ⟨cur, hcur, hrun⟩ := Option.bind_eq_some_iff.1 hrun
  cases hmoves : a.moves with
  | false =>
    obtain ⟨-, p', hstill⟩ := waitStep_still h hmoves hcur hrun
    exact ⟨p', hstill.inv⟩
  | true =>
    obtain ⟨hwait, hretry⟩ := waitStep_pass h hcur hrun
    cases a with
    | wait o timeout =>
      obtain ⟨-, hrunning, status, hcall⟩ := hwait o timeout rfl
      unfold keWaitForSingleObject at hcall
      split at hcall
      · cases hcall
        exact ⟨p, h⟩
      · have hentered : WaitInv (s.note (.entered cur o)) p := h.congr rfl rfl rfl rfl
        exact waitPass_inv hentered hcur hrunning hcall
    | retry =>
      obtain ⟨obj, -, -, hrunning, status, hpass⟩ := hretry rfl
      exact waitPass_inv h hcur hrunning hpass
    | wake =>
      obtain ⟨w, rest, sched, p', -, rfl, hawoke⟩ := wakeOwed_awoke h hcur hrun
      exact ⟨p', hawoke.inv.congr rfl rfl rfl rfl⟩
    | _ => cases hmoves

theorem waitRun_inv {guard : WaitSys → WaitAction → Prop} (h : Reach WaitBooted WaitStep guard s) :
    ∃ p, WaitInv s p := by
  apply h.invariant (fun s hs => waitBooted_inv hs)
  rintro s a s' ⟨p, hp⟩ - hstep
  exact waitStep_inv hp hstep

/-! ## A wake of all waiters -/

/-- The thread is in the wait list, on `obj`. -/
def SleepsOn (s : WaitSys) (obj : Nat) (t : Tid) : Prop :=
  InWaitList s.sched t ∧ (s.sched.thread t).waitObject = obj

theorem WaitInv.sleepsOn_iff (h : WaitInv s p) : SleepsOn s obj t ↔ t ∈ sleepers s p obj := by
  unfold SleepsOn sleepers
  rw [h.repr.inWaitList_iff, List.mem_filter]
  simp [waitsOn]

/-- No more threads than the batch of `ki_wake` holds sleep on `obj`. -/
def FitsBatch (s : WaitSys) (obj : Nat) : Prop :=
  ∃ l : List Tid, l.length ≤ 16 ∧ ∀ t, SleepsOn s obj t → t ∈ l

theorem WaitInv.fitsBatch_iff (h : WaitInv s p) : FitsBatch s obj ↔ (sleepers s p obj).length ≤ 16 := by
  constructor
  · rintro ⟨l, hlength, hl⟩
    have hnodup : (sleepers s p obj).Nodup := h.waitList_nodup.filter _
    have hsub : (sleepers s p obj) ⊆ l := fun t ht => hl t (h.sleepsOn_iff.2 ht)
    exact Nat.le_trans (hnodup.length_le_of_subset hsub) hlength
  · exact fun hlength => ⟨sleepers s p obj, hlength, fun t ht => h.sleepsOn_iff.1 ht⟩

/-- The calls that wake every waiter. -/
def WakesAll (s : WaitSys) : Waker → Prop
  | .event e => (s.header e).type = 0
  | .semaphore _ => True
  | .timer t => (s.header t).type = 8
  | .threadExit _ => True

theorem WakesAll.wakeAll {w : Waker} (h : WakesAll s w) : w.wakeAll s = true := by
  cases w with
  | event e =>
    have htype : (s.header e).type = 0 := h
    simp [Waker.wakeAll, htype]
  | semaphore sem => rfl
  | timer t =>
    have htype : (s.header t).type = 8 := h
    simp [Waker.wakeAll, htype]
  | threadExit t => rfl

/-- Who still sleeps on an object after a wake of it. -/
theorem Awoke.sleepers_eq {wakeAll : Bool} (h : Awoke s s' p p' cur obj wakeAll) :
    sleepers s' p' obj = (sleepers s p obj).drop (wakeBudget wakeAll 0) := by
  have hsame : sleepers s' p' obj = p'.waitList.filter (waitsOn s.sched obj) := by
    apply List.filter_congr
    intro t ht
    unfold waitsOn
    rw [h.waitObject t ht]
  rw [hsame, h.waitList]
  exact takeUpTo_snd

/-- After the wake nobody sleeps on the object exactly when the batch held all. -/
theorem wakeAll_leaves_none_iff (h : Reach WaitBooted WaitStep (fun _ _ => True) s)
    (hcur : s.sched.current 0 = some cur) {w : Waker} {rest : List Waker} (howed : s.owed cur = w :: rest)
    (hall : WakesAll s w) :
    (∃ s', WaitStep s .wake s') ∧
      ∀ s', WaitStep s .wake s' → ((∀ t, ¬SleepsOn s' (w.object s) t) ↔ FitsBatch s (w.object s)) := by
  obtain ⟨p, hinv⟩ := waitRun_inv h
  constructor
  · obtain ⟨sched, -, -, hwake⟩ := hinv.wake hcur (w.object s) (w.wakeAll s)
    refine ⟨{ s with sched := sched }.setOwed cur rest, p.waitList.length + 1, ?_⟩
    rw [waitStep, hcur, Option.bind_some, waitStepOf, wakeOwed, howed]
    simp only [hwake _ (Nat.lt_succ_self _), Option.map_some]
  · rintro s' ⟨fuel, hrun⟩
    rw [waitStep, hcur, Option.bind_some] at hrun
    obtain ⟨w', rest', sched, p', howed', rfl, hawoke⟩ := wakeOwed_awoke hinv hcur hrun
    rw [howed] at howed'
    cases howed'
    rw [hall.wakeAll] at hawoke
    have hafter : WaitInv ({ s with sched := sched }.setOwed cur rest) p' :=
      hawoke.inv.congr rfl rfl rfl rfl
    have hleft : sleepers ({ s with sched := sched }.setOwed cur rest) p' (w.object s) =
        (sleepers s p (w.object s)).drop 16 := hawoke.sleepers_eq
    rw [hinv.fitsBatch_iff]
    simp only [hafter.sleepsOn_iff, hleft]
    rw [← List.eq_nil_iff_forall_not_mem, List.drop_eq_nil_iff]

/-- Who stands first in the wait list is in it. -/
theorem Represents.first_waits {s : Sched} (hr : Represents s p)
    (hfirst : s.links.next .waitHead = some (.waitLink t)) : InWaitList s t := by
  rw [hr.inWaitList_iff]
  rw [hr.lists.wait.next_head] at hfirst
  cases hlist : p.waitList with
  | nil => simp [hlist] at hfirst
  | cons u l =>
    have hu : u = t := by simpa [hlist] using hfirst
    rw [hu]
    exact List.mem_cons_self

def bootedWaits : WaitSys :=
  ⟨booted, bootedTimers, true, fun _ => 4096, fun _ => none, fun _ => [], []⟩

theorem bootedWaits_booted : WaitBooted bootedWaits :=
  ⟨rfl, bootedTimers_booted, rfl, fun _ => rfl, fun _ => rfl, rfl⟩

theorem waitRun_reach {fuel : Nat} {l : List WaitAction}
    (hrun : runSteps (waitStep fuel) l bootedWaits = some s) :
    Reach WaitBooted WaitStep (fun _ _ => True) s :=
  runSteps_reach (fun _ _ _ hstep => ⟨trivial, fuel, hstep⟩) (.start bootedWaits_booted) hrun

def afterWaits (l : List WaitAction) (s : WaitSys) : WaitSys := (runSteps (waitStep 16) l s).getD s

theorem afterWaits_run {l : List WaitAction} (hsome : (runSteps (waitStep 16) l s).isSome = true) :
    runSteps (waitStep 16) l s = some (afterWaits l s) :=
  (Option.getD_of_ne_none (Option.isSome_iff_ne_none.1 hsome) s).symm

theorem afterWaits_step {a : WaitAction} (hsome : (waitStep 16 s a).isSome = true) :
    WaitStep s a (afterWaits [a] s) := by
  obtain ⟨s', hstep⟩ := Option.isSome_iff_exists.1 hsome
  refine ⟨16, ?_⟩
  simp [afterWaits, runSteps, hstep]

/-- `n` threads are created and go to sleep on `obj`; then the idle thread runs. -/
def sleepActions (n obj : Nat) : List WaitAction :=
  (List.replicate n [WaitAction.spawn (-1), .mark, .insert]).flatten ++ [.yieldProcessor] ++
    List.replicate n (.wait obj none)

theorem wakeAll_leaves_none_iff_two : ∃ s,
    runSteps (waitStep 8) (sleepActions 2 5 ++ [.setEvent 5]) bootedWaits = some s ∧
      s.owed (.idle 0) = [.event 5] ∧ (∃ s', WaitStep s .wake s') ∧
        ∀ s', WaitStep s .wake s' → ((∀ t, ¬SleepsOn s' 5 t) ↔ FitsBatch s 5) := by
  have hstate : (runSteps (waitStep 8) (sleepActions 2 5 ++ [.setEvent 5]) bootedWaits).map
      (fun s => (s.sched.current 0, s.owed (.idle 0), (s.header 5).type)) =
        some (some (.idle 0), [.event 5], 0) := by
    decide +kernel
  obtain ⟨s, hrun, hs⟩ := Option.map_eq_some_iff.1 hstate
  simp only [Prod.mk.injEq] at hs
  obtain ⟨hcur, howed, htype⟩ := hs
  obtain ⟨hstep, hiff⟩ := wakeAll_leaves_none_iff (waitRun_reach hrun) hcur howed htype
  exact ⟨s, hrun, howed, hstep, hiff⟩

/-- Seventeen threads sleep on a notification event that is set. -/
theorem wakeAll_leaves_seventeenth : ∃ s s', Reach WaitBooted WaitStep (fun _ _ => True) s ∧
    s.sched.current 0 = some (.idle 0) ∧ s.owed (.idle 0) = [.event 5] ∧ WakesAll s (.event 5) ∧
      WaitStep s .wake s' ∧ SleepsOn s' 5 (.worker 16) := by
  have hset : (runSteps (waitStep 40) (sleepActions 17 5 ++ [.setEvent 5]) bootedWaits).map
      (fun s => (s.sched.current 0, s.owed (.idle 0), (s.header 5).type)) =
        some (some (.idle 0), [.event 5], 0) := by
    decide +kernel
  have hwake : ((runSteps (waitStep 40) (sleepActions 17 5 ++ [.setEvent 5]) bootedWaits).bind
      fun s => waitStep 40 s .wake).map
        (fun s => (s.sched.links.next .waitHead, (s.sched.thread (.worker 16)).waitObject)) =
          some (some (.waitLink (.worker 16)), 5) := by
    decide +kernel
  obtain ⟨s, hrun, hs⟩ := Option.map_eq_some_iff.1 hset
  simp only [Prod.mk.injEq] at hs
  obtain ⟨hcur, howed, htype⟩ := hs
  rw [hrun, Option.bind_some] at hwake
  obtain ⟨s', hstep, hs'⟩ := Option.map_eq_some_iff.1 hwake
  obtain ⟨hfirst, hobject⟩ := Prod.mk.inj hs'
  have hreach := waitRun_reach hrun
  obtain ⟨p, hinv⟩ := waitRun_inv hreach
  obtain ⟨p', hinv'⟩ := waitStep_inv hinv ⟨40, hstep⟩
  exact ⟨s, s', hreach, hcur, howed, htype, ⟨40, hstep⟩, hinv'.repr.first_waits hfirst, hobject⟩

end MeuOS.Ke
