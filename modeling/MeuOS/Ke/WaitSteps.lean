import MeuOS.Ke.SchedRuns
import MeuOS.Ke.Wait

/-! What a step does to the threads that sleep on one processor. -/
namespace MeuOS.Ke

open MeuOS.Lib

/-- A sleeping thread is in the wait it went to sleep in, and the current thread is awake. -/
structure WaitInv (s : WaitSys) (p : Placement) : Prop where
  repr : Represents s.sched p
  uni : ∀ c, s.sched.online c = true → c = 0
  active : ∀ t, s.sched.current 0 = some t →
    (s.sched.thread t).state = .running ∨ (s.sched.thread t).state = .terminated
  blocked : ∀ t ∈ p.waitList, s.waiting t = some (s.sched.thread t).waitObject
  alive : ∀ t, s.waiting t ≠ none → t ≠ .idle 0 ∧ (s.sched.thread t).state ≠ .terminated
  legacy : s.timers.legacy = false
  preempts : s.p4Active = true

variable {s s' : WaitSys} {p p' : Placement} {cur t : Tid} {obj : Nat} {sched : Sched}

theorem WaitInv.on (h : WaitInv s p) : s.sched.online 0 = true := h.repr.boot

theorem WaitInv.not_asleep (h : WaitInv s p) (hcur : s.sched.current 0 = some cur) :
    cur ∉ p.waitList := by
  intro hmem
  rcases (h.repr.waiting cur).1 hmem with hplace | ⟨-, hstate⟩
  · rw [(h.repr.current 0 cur).2 ⟨h.on, hcur⟩] at hplace
    cases hplace
  · have := h.active cur hcur
    rw [hstate] at this
    simp at this

/-- No thread is between going to sleep and giving the processor up. -/
theorem WaitInv.none_halfway (h : WaitInv s p) (obj : Nat) : ∀ c t, s.sched.online c = true →
    s.sched.current c = some t → (s.sched.thread t).state = .waiting →
      (s.sched.thread t).waitObject ≠ obj := by
  intro c t hon hcur hstate
  obtain rfl := h.uni c hon
  have := h.active t hcur
  rw [hstate] at this
  simp at this

theorem WaitInv.place_waiting (h : WaitInv s p) (ht : t ∈ p.waitList) : p.place t = .waiting := by
  rcases (h.repr.waiting t).1 ht with hplace | ⟨⟨c, hplace⟩, hstate⟩
  · exact hplace
  · obtain ⟨hon, hcur⟩ := (h.repr.current c t).1 hplace
    obtain rfl := h.uni c hon
    exact absurd ht (h.not_asleep hcur)

theorem WaitInv.free_running (_ : WaitInv s p) (hfree : s.free cur = true) :
    s.timers.firing = [] ∧ s.waiting cur = none ∧ (s.sched.thread cur).state = .running := by
  simpa [WaitSys.free, WaitSys.idleTick, and_assoc] using hfree

/-- The scheduler did something to threads that are not asleep. -/
theorem WaitInv.withSched (h : WaitInv s p) (hrepr : Represents sched p')
    (hlist : p'.waitList = p.waitList)
    (hobject : ∀ t ∈ p.waitList, (sched.thread t).waitObject = (s.sched.thread t).waitObject)
    (hon : sched.online = s.sched.online)
    (hactive : ∀ t, sched.current 0 = some t →
      (sched.thread t).state = .running ∨ (sched.thread t).state = .terminated)
    (hfinished : ∀ t, s.waiting t ≠ none → (sched.thread t).state = .terminated →
      (s.sched.thread t).state = .terminated) : WaitInv { s with sched := sched } p' where
  repr := hrepr
  uni c hc := h.uni c (by rwa [hon] at hc)
  active := hactive
  blocked t ht := by
    rw [hlist] at ht
    rw [hobject t ht]
    exact h.blocked t ht
  alive t ht := ⟨(h.alive t ht).1, fun hterm => (h.alive t ht).2 (hfinished t ht hterm)⟩
  legacy := h.legacy
  preempts := h.preempts

/-- Whatever is not the scheduler's and not a wait may change. -/
theorem WaitInv.congr (h : WaitInv s p) (hsched : s'.sched = s.sched) (hwaiting : s'.waiting = s.waiting)
    (hlegacy : s'.timers.legacy = s.timers.legacy) (hp4 : s'.p4Active = s.p4Active) : WaitInv s' p where
  repr := hsched ▸ h.repr
  uni := hsched ▸ h.uni
  active := hsched ▸ h.active
  blocked := by
    rw [hsched, hwaiting]
    exact h.blocked
  alive := by
    rw [hsched, hwaiting]
    exact h.alive
  legacy := hlegacy.trans h.legacy
  preempts := hp4.trans h.preempts

/-- The current thread is through with its wait. -/
theorem WaitInv.leave (h : WaitInv s p) (hcur : s.sched.current 0 = some cur) :
    WaitInv (s.setWaiting cur none) p where
  repr := h.repr
  uni := h.uni
  active := h.active
  blocked t ht := by
    have hne : t ≠ cur := fun heq => h.not_asleep hcur (heq ▸ ht)
    show Function.update s.waiting cur none t = _
    rw [Function.update_of_ne hne]
    exact h.blocked t ht
  alive t ht := by
    apply h.alive t
    intro hnone
    apply ht
    show Function.update s.waiting cur none t = none
    rw [Function.update_apply]
    split
    · rfl
    · exact hnone
  legacy := h.legacy
  preempts := h.preempts

/-! ## Steps of the scheduler -/

/-- A step after which the same threads sleep on the same objects. -/
structure Still (s s' : WaitSys) (p p' : Placement) : Prop where
  inv : WaitInv s' p'
  waitList : p'.waitList = p.waitList
  waitObject : ∀ t ∈ p.waitList, (s'.sched.thread t).waitObject = (s.sched.thread t).waitObject

theorem Switched.still (h : WaitInv s p) (hrepr : Represents sched p')
    (hswitch : Switched s.sched sched p p' 0) : Still s { s with sched := sched } p p' := by
  refine ⟨h.withSched hrepr hswitch.waitList (fun t _ => hswitch.waitObject t) hswitch.online ?_
    fun t _ => hswitch.finished t, hswitch.waitList, fun t _ => hswitch.waitObject t⟩
  intro t ht
  rcases hswitch.active t ht with ⟨hcur, hsame⟩ | hrunning
  · rw [hsame]
    exact h.active t hcur
  · exact .inl hrunning

theorem quantumEnd_still (h : WaitInv s p) (hrun : s.withSched (kiQuantumEnd 0 s.sched) = some s') :
    ∃ sched p', s' = { s with sched := sched } ∧ Still s s' p p' := by
  obtain ⟨sched, p', hend, hrepr, -, hswitch⟩ := kiQuantumEnd_switch h.repr 0
  rw [WaitSys.withSched, hend, Option.map_some, Option.some.injEq] at hrun
  subst hrun
  exact ⟨sched, p', rfl, hswitch.still h hrepr⟩

theorem yieldProcessor_still (h : WaitInv s p) (hcur : s.sched.current 0 = some cur)
    (hrun : s.withSched (kiYieldProcessor 0 s.sched) = some s') :
    ∃ sched p', s' = { s with sched := sched } ∧ Still s s' p p' := by
  obtain ⟨sched, p', hyield, hrepr, hturn⟩ := kiYieldProcessor_turn h.repr h.on hcur
  rw [WaitSys.withSched, hyield, Option.map_some, Option.some.injEq] at hrun
  subst hrun
  exact ⟨sched, p', rfl, hturn.toSwitched.still h hrepr⟩

/-- A thread that is neither current nor asleep changed. -/
theorem WaitInv.still_of_place (h : WaitInv s p) (t : Tid) (hrepr : Represents sched p')
    (hlist : p'.waitList = p.waitList) (hprcb : sched.prcb = s.sched.prcb)
    (hplace : p.place t ≠ .waiting) (hcur : p.place t ≠ .current 0)
    (hother : ∀ u, u ≠ t → sched.thread u = s.sched.thread u)
    (hstate : (sched.thread t).state ≠ .terminated) : Still s { s with sched := sched } p p' := by
  have hobject : ∀ u ∈ p.waitList, (sched.thread u).waitObject = (s.sched.thread u).waitObject := by
    intro u hu
    rw [hother u]
    rintro rfl
    exact hplace (h.place_waiting hu)
  refine ⟨h.withSched hrepr hlist hobject ?_ ?_ ?_, hlist, hobject⟩
  · unfold Sched.online
    rw [hprcb]
  · intro u hu
    have hcurrent : s.sched.current 0 = some u := by
      unfold Sched.current at hu ⊢
      rwa [hprcb] at hu
    rw [hother u]
    · exact h.active u hcurrent
    · rintro rfl
      exact hcur ((h.repr.current 0 u).2 ⟨h.on, hcurrent⟩)
  · intro u _ hterm
    by_cases heq : u = t
    · subst heq
      exact absurd hterm hstate
    · rwa [hother u heq] at hterm

theorem WaitInv.mark (h : WaitInv s p) {rest : List Readying}
    (hpending : s.sched.pending cur = ⟨t, none⟩ :: rest) :
    ∃ sched target, readyMark cur s.sched = some sched ∧ s.sched.online target = true ∧
      sched.pending cur = ⟨t, some target⟩ :: rest ∧ sched.prcb = s.sched.prcb ∧
      Still s { s with sched := sched } p p := by
  obtain ⟨sched, target, hmark, hon, hrepr, -, hpending', hprcb, hother, -, hready⟩ :=
    readyMark_place h.repr hpending
  have hplace : p.place t = .readying cur := (h.repr.readying cur t).2 (by simp [hpending])
  refine ⟨sched, target, hmark, hon, ?_, hprcb, h.still_of_place t hrepr rfl hprcb (by simp [hplace])
    (by simp [hplace]) hother (by simp [hready])⟩
  rw [hpending', Function.update_self]

theorem mark_still (h : WaitInv s p) (hrun : s.withSched (readyMark cur s.sched) = some s') :
    ∃ sched, s' = { s with sched := sched } ∧ Still s s' p p := by
  obtain ⟨sched, hmark, rfl⟩ := Option.map_eq_some_iff.1 hrun
  obtain ⟨t, rest, hpending⟩ := readyMark_pending hmark
  obtain ⟨sched', target, hmark', -, -, -, hstill⟩ := h.mark hpending
  obtain rfl := Option.some.inj (hmark'.symm.trans hmark)
  exact ⟨sched', rfl, hstill⟩

theorem WaitInv.insert (h : WaitInv s p) {target : Nat} {rest : List Readying}
    (hpending : s.sched.pending cur = ⟨t, some target⟩ :: rest) :
    ∃ sched, readyInsert cur s.sched = some sched ∧ sched.pending cur = rest ∧
      sched.prcb = s.sched.prcb ∧ Still s { s with sched := sched } p
        ⟨Function.update p.place t (.queued target),
          Function.update p.queue target (p.queue target ++ [t]), p.waitList⟩ := by
  obtain ⟨sched, hinsert, hrepr, hpending', hprcb, hthread⟩ := readyInsert_place h.repr hpending
  have hplace : p.place t = .readying cur := (h.repr.readying cur t).2 (by simp [hpending])
  have halive : (s.sched.thread t).state ≠ .terminated :=
    (h.repr.off_processor (by simp [hplace]) (by simp [hplace]) (by simp [hplace])).2.1
  refine ⟨sched, hinsert, ?_, hprcb, h.still_of_place t hrepr rfl hprcb (by simp [hplace])
    (by simp [hplace]) (fun u _ => by rw [hthread]) (by rwa [hthread])⟩
  rw [hpending', Function.update_self]

theorem insert_still (h : WaitInv s p) (hrun : s.withSched (readyInsert cur s.sched) = some s') :
    ∃ sched p', s' = { s with sched := sched } ∧ Still s s' p p' := by
  obtain ⟨sched, hinsert, rfl⟩ := Option.map_eq_some_iff.1 hrun
  obtain ⟨t, target, rest, hpending⟩ := readyInsert_pending hinsert
  obtain ⟨sched', hinsert', -, -, hstill⟩ := h.insert hpending
  obtain rfl := Option.some.inj (hinsert'.symm.trans hinsert)
  exact ⟨sched', _, rfl, hstill⟩

theorem spawn_still (h : WaitInv s p) (cur : Tid) {affinity : Int}
    (haff : affinity < 0 ∨ (maxCpus : Int) ≤ affinity ∨ affinity = 0) :
    ∃ p', Still s { s with sched := spawn cur affinity s.sched } p p' := by
  have hout := (h.repr.uncreated s.sched.created (Nat.le_refl _)).1
  obtain ⟨hrepr, -⟩ := kiCreateThread_spec h.repr affinity
  have hthread : (kiCreateThread affinity s.sched).thread (.worker s.sched.created) =
      { state := .new, cpuAffinity := affinity, cpuCurrent := -1, waitObject := 0
        quantum := quantumDefault } := Function.update_self ..
  have hok : AffinityOk (kiCreateThread affinity s.sched) (.worker s.sched.created) := by
    unfold AffinityOk
    rw [hthread]
    rcases haff with hneg | hbig | hzero
    · exact .inl hneg
    · exact .inr (.inl hbig)
    · exact .inr (.inr (by simpa [hzero] using hrepr.boot))
  have hfree : ∀ u, ∀ r ∈ (kiCreateThread affinity s.sched).pending u,
      r.thread ≠ .worker s.sched.created := by
    intro u r hr heq
    have := (h.repr.readying u r.thread).2 (List.mem_map_of_mem hr)
    rw [heq, hout] at this
    cases this
  have hready := hrepr.readyThread_place cur rfl (Nat.lt_succ_self _) (by rw [hthread])
    hfree hok
  exact ⟨_, h.still_of_place (.worker s.sched.created) hready rfl rfl (by simp [hout]) (by simp [hout])
    (fun u hu => Function.update_of_ne hu ..)
    (by show ((kiCreateThread affinity s.sched).thread (.worker s.sched.created)).state ≠ _
        rw [hthread]
        simp)⟩

/-! ## Going to sleep -/

/-- The thread `cur` went to sleep on `obj`, behind all others. -/
structure Slept (s s' : WaitSys) (p p' : Placement) (cur : Tid) (obj : Nat) : Prop where
  inv : WaitInv s' p'
  waitList : p'.waitList = p.waitList ++ [cur]
  object : (s'.sched.thread cur).waitObject = obj
  waitObject : ∀ t ∈ p.waitList, (s'.sched.thread t).waitObject = (s.sched.thread t).waitObject

theorem WaitInv.kiCanBlock_eq (h : WaitInv s p) (hcur : s.sched.current 0 = some cur) :
    kiCanBlock s = decide (cur ≠ .idle 0) := by
  unfold kiCanBlock
  rw [h.preempts, hcur, (h.repr.idle 0 h.on).1]
  simp

theorem WaitInv.sleep (h : WaitInv s p) (hcur : s.sched.current 0 = some cur) (hidle : cur ≠ .idle 0)
    (hrunning : (s.sched.thread cur).state = .running) (obj : Nat) :
    ∃ sched p', (kiBlockCurrent 0 obj s.sched).bind (kiYieldProcessor 0) = some sched ∧
      Slept s ({ s with sched := sched }.setWaiting cur (some obj)) p p' cur obj := by
  obtain ⟨s₁, hblock, hrepr₁, -, hprcb, -, hother, hobject, hwaiting⟩ :=
    kiBlockCurrent_place h.repr obj h.on hcur hidle hrunning
  have hon₁ : s₁.online = s.sched.online := by
    unfold Sched.online
    rw [hprcb]
  have hcur₁ : s₁.current 0 = some cur := by
    unfold Sched.current
    rw [hprcb]
    exact hcur
  obtain ⟨s₂, p₂, hyield, hrepr₂, hturn⟩ :=
    kiYieldProcessor_turn hrepr₁ (by rw [hon₁]; exact h.on) hcur₁
  have hobject₂ : ∀ t ∈ p.waitList, (s₂.thread t).waitObject = (s.sched.thread t).waitObject := by
    intro t ht
    rw [hturn.waitObject, hother t]
    rintro rfl
    exact h.not_asleep hcur ht
  have hnext : ∀ t, s₂.current 0 = some t → (s₂.thread t).state = .running := by
    intro t ht
    rcases hturn.turn with ⟨hempty, -⟩ | ⟨next, rest, -, hnext, hstate, -⟩
    · exact absurd (hrepr₁.idle_current (by rw [hon₁]; exact h.on) hcur₁ hempty) hidle
    · rw [hnext, Option.some.injEq] at ht
      exact ht ▸ hstate
  have hlist : p₂.waitList = p.waitList ++ [cur] := hturn.waitList
  refine ⟨s₂, p₂, by rw [hblock, Option.bind_some, hyield], ⟨hrepr₂, fun c hc => ?_,
    fun t ht => .inl (hnext t ht), fun t ht => ?_, fun t ht => ?_, h.legacy, h.preempts⟩, hlist,
    ?_, hobject₂⟩
  · apply h.uni c
    rw [← hon₁, ← hturn.online]
    exact hc
  · rw [hlist, List.mem_append, List.mem_singleton] at ht
    show Function.update s.waiting cur (some obj) t = some (s₂.thread t).waitObject
    rcases ht with ht | rfl
    · have hne : t ≠ cur := fun heq => h.not_asleep hcur (heq ▸ ht)
      rw [Function.update_of_ne hne, hobject₂ t ht]
      exact h.blocked t ht
    · rw [Function.update_self, hturn.waitObject, hobject]
  · have hfinished := hturn.finished t
    by_cases heq : t = cur
    · subst heq
      refine ⟨hidle, fun hterm => ?_⟩
      have hstop := hfinished hterm
      rw [hwaiting] at hstop
      cases hstop
    · have hne : s.waiting t ≠ none := by
        simpa [WaitSys.setWaiting, heq] using ht
      refine ⟨(h.alive t hne).1, fun hterm => (h.alive t hne).2 ?_⟩
      rw [← hother t heq]
      exact hfinished hterm
  · show (s₂.thread cur).waitObject = obj
    rw [hturn.waitObject, hobject]

/-- A pass returns with the signal, or without it where the thread may not sleep, or the
thread goes to sleep. -/
theorem waitPass_cases (h : WaitInv s p) (hcur : s.sched.current 0 = some cur)
    (hrunning : (s.sched.thread cur).state = .running) (obj : Nat) (timeout : Option Int) :
    ((s.header obj).signalState ≠ 0 ∧ waitPass cur obj timeout s = some (some .success,
      ((s.setHeader obj (scConsume (s.header obj))).setWaiting cur none).note (.satisfied cur obj))) ∨
    ((s.header obj).signalState = 0 ∧ (timeout ≠ none ∨ cur = .idle 0) ∧
      ∃ status, waitPass cur obj timeout s = some (some status, s.setWaiting cur none)) ∨
    ((s.header obj).signalState = 0 ∧ timeout = none ∧ ∃ sched p',
      waitPass cur obj timeout s = some (none, { s with sched := sched }.setWaiting cur (some obj)) ∧
        Slept s ({ s with sched := sched }.setWaiting cur (some obj)) p p' cur obj) := by
  unfold waitPass
  by_cases hsignal : (s.header obj).signalState = 0
  · rw [if_neg (not_not.2 hsignal)]
    refine .inr ?_
    by_cases hpoll : timeout = some 0
    · exact .inl ⟨hsignal, .inl (by simp [hpoll]), .timeout, if_pos hpoll⟩
    · rw [if_neg hpoll]
      by_cases hstay : timeout ≠ none ∨ cur = .idle 0
      · refine .inl ⟨hsignal, hstay, .success, if_pos ?_⟩
        rw [h.kiCanBlock_eq hcur]
        simpa [h.legacy] using hstay
      · have hsleep : timeout = none ∧ cur ≠ .idle 0 := by tauto
        obtain ⟨sched, p', hblock, hslept⟩ := h.sleep hcur hsleep.2 hrunning obj
        refine .inr ⟨hsignal, hsleep.1, sched, p', ?_, hslept⟩
        rw [if_neg (by rw [h.kiCanBlock_eq hcur]; simpa [h.legacy] using hstay), hblock,
          Option.map_some]
  · exact .inl ⟨hsignal, if_pos hsignal⟩

/-! ## Waking -/

/-- The waiters of `obj` in the order they went to sleep. -/
def sleepers (s : WaitSys) (p : Placement) (obj : Nat) : List Tid :=
  p.waitList.filter (waitsOn s.sched obj)

/-- `ki_wake` took the first waiters of `obj`, as many as its batch holds. -/
structure Awoke (s s' : WaitSys) (p p' : Placement) (cur : Tid) (obj : Nat) (wakeAll : Bool) : Prop where
  inv : WaitInv s' p'
  waitList : p'.waitList = (takeWaiters s.sched obj (wakeBudget wakeAll 0) p.waitList).2
  waitObject : ∀ t ∈ p'.waitList, (s'.sched.thread t).waitObject = (s.sched.thread t).waitObject
  pending : s'.sched.pending cur =
    ((sleepers s p obj).take (wakeBudget wakeAll 0)).map (fun t => ⟨t, none⟩) ++ s.sched.pending cur
  queue : p'.queue = p.queue
  current : s'.sched.current 0 = s.sched.current 0

theorem WaitInv.waitList_nodup (h : WaitInv s p) : p.waitList.Nodup :=
  List.Nodup.of_map _ (List.nodup_cons.1 h.repr.lists.wait.nodup).2

theorem WaitInv.wake (h : WaitInv s p) (hcur : s.sched.current 0 = some cur) (obj : Nat)
    (wakeAll : Bool) :
    ∃ sched p', Awoke s { s with sched := sched } p p' cur obj wakeAll ∧
      ∀ fuel, p.waitList.length < fuel → kiWake fuel 0 obj wakeAll s.sched = some sched := by
  obtain ⟨sched, p', hwoken, hrun⟩ := kiWake_woken h.repr wakeAll (h.none_halfway obj) hcur
  have hkept : ∀ t ∈ p'.waitList, t ∈ p.waitList ∧
      t ∉ (takeWaiters s.sched obj (wakeBudget wakeAll 0) p.waitList).1 := by
    intro t ht
    rw [hwoken.waitList] at ht
    have hnodup := h.waitList_nodup
    exact ⟨takeUpTo_snd_sublist.subset ht, fun ht' => takeUpTo_apart hnodup ht' ht⟩
  have hcurrent : sched.current 0 = s.sched.current 0 := by
    unfold Sched.current
    rw [hwoken.prcb]
  have hobject : ∀ t ∈ p'.waitList, (sched.thread t).waitObject = (s.sched.thread t).waitObject :=
    fun t ht => hwoken.waitObject t (hkept t ht).2
  refine ⟨sched, p', ⟨⟨hwoken.repr, fun c hc => h.uni c ?_, fun t ht => ?_, fun t ht => ?_,
    fun t ht => ?_, h.legacy, h.preempts⟩, hwoken.waitList, hobject, ?_, hwoken.queue, hcurrent⟩, hrun⟩
  · unfold Sched.online at hc ⊢
    rwa [hwoken.prcb] at hc
  · rw [hcurrent] at ht
    rw [hwoken.state]
    exact h.active t ht
  · rw [hobject t ht]
    exact h.blocked t (hkept t ht).1
  · rw [hwoken.state]
    exact h.alive t ht
  · rw [hwoken.pending, Function.update_self, takeWaiters, takeUpTo_fst]
    rfl

theorem wakeOwed_awoke (h : WaitInv s p) (hcur : s.sched.current 0 = some cur) {fuel : Nat}
    (hrun : wakeOwed fuel cur s = some s') :
    ∃ w rest sched p', s.owed cur = w :: rest ∧ s' = { s with sched := sched }.setOwed cur rest ∧
      Awoke s { s with sched := sched } p p' cur (w.object s) (w.wakeAll s) := by
  unfold wakeOwed at hrun
  split at hrun
  case h_1 w rest howed =>
    obtain ⟨sched, hwake, rfl⟩ := Option.map_eq_some_iff.1 hrun
    obtain ⟨sched', p', hawoke, hlong⟩ := h.wake hcur (w.object s) (w.wakeAll s)
    have hsame := hlong (fuel + (p.waitList.length + 1)) (by omega)
    rw [kiWake_mono hwake, Option.some.injEq] at hsame
    subst hsame
    exact ⟨w, rest, sched, p', howed, rfl, hawoke⟩
  case h_2 => cases hrun

theorem exit_still (h : WaitInv s p) (hcur : s.sched.current 0 = some cur) (hfree : s.free cur = true)
    (hidle : some cur ≠ (s.sched.prcb 0).idleThread) : Still s (kiRing3ThreadExit cur s) p p := by
  obtain ⟨-, hwaiting, hrunning⟩ := h.free_running hfree
  have hne : cur ≠ .idle 0 := by
    rintro rfl
    exact hidle (h.repr.idle 0 h.on).1.symm
  obtain ⟨hrepr, -⟩ := kiThreadExit_place h.repr h.on hcur hne hrunning
  have hexit : kiThreadExit 0 s.sched =
      s.sched.setThread cur { s.sched.thread cur with state := .terminated } := by
    unfold kiThreadExit
    rw [hcur]
  have hobject : ∀ t, ((kiThreadExit 0 s.sched).thread t).waitObject = (s.sched.thread t).waitObject := by
    intro t
    rw [hexit]
    by_cases heq : t = cur
    · subst heq
      simp [Sched.setThread]
    · simp [Sched.setThread, heq]
  have hinv : WaitInv { s with sched := kiThreadExit 0 s.sched } p := by
    refine h.withSched hrepr rfl (fun t _ => hobject t) (by rw [hexit]; rfl) (fun t ht => ?_)
      fun t ht hterm => ?_
    · have hcurrent : s.sched.current 0 = some t := by
        rw [hexit] at ht
        exact ht
      rw [hcur, Option.some.injEq] at hcurrent
      subst hcurrent
      right
      rw [hexit]
      simp [Sched.setThread]
    · have hother : t ≠ cur := by
        rintro rfl
        exact ht hwaiting
      rw [hexit] at hterm
      simpa [Sched.setThread, hother] using hterm
  exact ⟨hinv.congr rfl rfl rfl rfl, rfl, fun t _ => hobject t⟩

/-- The object a step works on. -/
def WaitAction.object (s : WaitSys) : WaitAction → Option Nat
  | .wait obj _ => some obj
  | .retry => (s.sched.current 0).bind s.waiting
  | .initEvent e _ _ => some e
  | .setEvent e => some e
  | .resetEvent e => some e
  | .initSemaphore sem _ => some sem
  | .releaseSemaphore sem _ => some sem
  | .exit => (s.sched.current 0).map s.threadObject
  | .wake => (s.sched.current 0).bind fun cur => (s.owed cur).head?.map (Waker.object s)
  | .initTimer t _ => some t
  | .setTimer t _ _ _ => some t
  | .cancelTimer t => some t
  | .tickFire => s.timers.firing.head?
  | .tickRearm => s.timers.firing.head?
  | _ => none

/-- The steps that put threads to sleep or wake them. -/
def WaitAction.moves : WaitAction → Bool
  | .wait _ _ => true
  | .retry => true
  | .wake => true
  | _ => false

/-- What a step on timers keeps. -/
structure TimersKept (timers timers' : TimerSys) (t : Option Nat) : Prop where
  legacy : timers'.legacy = timers.legacy
  header : ∀ obj, t ≠ some obj → timers'.header obj = timers.header obj

theorem keInitializeTimerEx_kept (timers : TimerSys) (n : Nat) (type : TimerType) :
    TimersKept timers (keInitializeTimerEx n type timers) (some n) := by
  unfold keInitializeTimerEx
  by_cases hnull : n = 0
  · rw [if_pos hnull]
    exact ⟨rfl, fun _ _ => rfl⟩
  · rw [if_neg hnull]
    cases hlegacy : timers.legacy with
    | true =>
      simp only [TimerSys.setTimer, TimerSys.setHeader, hlegacy, if_true]
      refine ⟨hlegacy.symm, fun obj hobj => ?_⟩
      have hne : obj ≠ n := fun heq => hobj (heq ▸ rfl)
      simp [hne]
    | false =>
      simp only [TimerSys.setTimer, TimerSys.setHeader, hlegacy, Bool.false_eq_true, if_false]
      refine ⟨hlegacy.symm, fun obj hobj => ?_⟩
      have hne : obj ≠ n := fun heq => hobj (heq ▸ rfl)
      simp [hne]

theorem keSetTimerEx_kept {timers timers' : TimerSys} {n : Nat} {due period : Int} {dpc : Nat} {b : Bool}
    (hrun : keSetTimerEx n due period dpc timers = some (b, timers')) :
    TimersKept timers timers' (some n) := by
  unfold keSetTimerEx at hrun
  split at hrun
  · cases hrun
    exact ⟨rfl, fun _ _ => rfl⟩
  · split at hrun
    · cases hrun
      exact ⟨rfl, fun _ _ => rfl⟩
    · obtain ⟨L₁, -, hrest⟩ := Option.bind_eq_some_iff.1 hrun
      obtain ⟨L₂, -, heq⟩ := Option.map_eq_some_iff.1 hrest
      cases heq
      refine ⟨rfl, fun obj hobj => ?_⟩
      have hne : obj ≠ n := fun heq => hobj (heq ▸ rfl)
      simp [TimerSys.signal, TimerSys.setHeader, TimerSys.setTimer, hne]

theorem keCancelTimer_kept {timers timers' : TimerSys} {n : Nat} {b : Bool}
    (hrun : keCancelTimer n timers = some (b, timers')) : TimersKept timers timers' (some n) := by
  unfold keCancelTimer at hrun
  split at hrun
  · cases hrun
    exact ⟨rfl, fun _ _ => rfl⟩
  · split at hrun
    · cases hrun
      exact ⟨rfl, fun _ _ => rfl⟩
    · obtain ⟨L₁, -, heq⟩ := Option.map_eq_some_iff.1 hrun
      cases heq
      exact ⟨rfl, fun _ _ => rfl⟩

theorem tickStart_kept {timers timers' : TimerSys} {fuel : Nat} (hrun : tickStart fuel timers = some timers') :
    TimersKept timers timers' none := by
  unfold tickStart at hrun
  split at hrun
  · cases hrun
  · simp only at hrun
    split at hrun
    · cases hrun
      exact ⟨rfl, fun _ _ => rfl⟩
    · obtain ⟨r, -, heq⟩ := Option.map_eq_some_iff.1 hrun
      cases heq
      exact ⟨rfl, fun _ _ => rfl⟩

theorem tickFire_kept {timers timers' : TimerSys} (hrun : tickFire timers = some timers') :
    TimersKept timers timers' timers.firing.head? := by
  unfold tickFire at hrun
  split at hrun
  case h_1 t rest hfiring =>
    split at hrun
    · cases hrun
    · cases hrun
      refine ⟨rfl, fun obj hobj => ?_⟩
      have hne : obj ≠ t := by
        rintro rfl
        rw [hfiring] at hobj
        exact hobj rfl
      simp [TimerSys.signal, TimerSys.setHeader, hne]
  case h_2 => cases hrun

theorem tickRearm_kept {timers timers' : TimerSys} (hrun : tickRearm timers = some timers') :
    TimersKept timers timers' timers.firing.head? := by
  unfold tickRearm at hrun
  split at hrun
  case h_1 t rest hfiring =>
    split at hrun
    · cases hrun
    · split at hrun
      · obtain ⟨L, -, heq⟩ := Option.map_eq_some_iff.1 hrun
        cases heq
        refine ⟨rfl, fun obj hobj => ?_⟩
        have hne : obj ≠ t := by
          rintro rfl
          rw [hfiring] at hobj
          exact hobj rfl
        simp [TimerSys.signal, TimerSys.setHeader, TimerSys.setTimer, hne]
      · cases hrun
        exact ⟨rfl, fun _ _ => rfl⟩
  case h_2 => cases hrun

/-- What a step on one object keeps of everything outside the scheduler. -/
structure BooksKept (s s' : WaitSys) (cur : Tid) (obj : Option Nat) : Prop where
  waiting : s'.waiting = s.waiting
  legacy : s'.timers.legacy = s.timers.legacy
  p4Active : s'.p4Active = s.p4Active
  threadObject : s'.threadObject = s.threadObject
  header : ∀ o, obj ≠ some o → s'.header o = s.header o
  owed : s'.owed = s.owed ∨ ∃ w, s'.owed = Function.update s.owed cur (w :: s.owed cur) ∧
    obj = some (w.object s)
  history : s'.history = s.history ∨ ∃ e, s'.history = e :: s.history ∧
    ((∃ n, e = .set n ∧ obj = some n) ∨ ∃ n i, e = .released n i ∧ obj = some n)

theorem booksKept_sched (s : WaitSys) (cur : Tid) (sched : Sched) :
    BooksKept s { s with sched := sched } cur none :=
  ⟨rfl, rfl, rfl, rfl, fun _ _ => rfl, .inl rfl, .inl rfl⟩

theorem TimersKept.books {timers : TimerSys} {o : Option Nat} (h : TimersKept s.timers timers o) (cur : Tid) :
    BooksKept s { s with timers := timers } cur o :=
  ⟨rfl, h.legacy, rfl, rfl, h.header, .inl rfl, .inl rfl⟩

theorem booksKept_header (s : WaitSys) (cur : Tid) (o : Nat) (hdr : DispatcherHeader) :
    BooksKept s (s.setHeader o hdr) cur (some o) := by
  refine ⟨rfl, rfl, rfl, rfl, fun obj hobj => ?_, .inl rfl, .inl rfl⟩
  have hne : obj ≠ o := fun heq => hobj (heq ▸ rfl)
  simp [WaitSys.header, WaitSys.setHeader, TimerSys.setHeader, hne]

/-- A call that signals `o`, leaves a note and has a wake to do. -/
theorem booksKept_signal (s : WaitSys) (cur : Tid) {o : Nat} (n : Int) {e : WaitEvent} {w : Waker}
    (hnote : e = .set o ∨ ∃ i, e = .released o i) (hw : w.object s = o) :
    BooksKept s (((s.signal o n).note e).setOwed cur (w :: s.owed cur)) cur (some o) := by
  have hkept := booksKept_header s cur o { s.header o with signalState := n }
  refine ⟨rfl, rfl, rfl, rfl, hkept.header, .inr ⟨w, rfl, by rw [hw]⟩, .inr ⟨e, rfl, ?_⟩⟩
  rcases hnote with rfl | ⟨i, rfl⟩
  · exact .inl ⟨o, rfl, rfl⟩
  · exact .inr ⟨o, i, rfl, rfl⟩

theorem BooksKept.same (s : WaitSys) (cur : Tid) (o : Option Nat) : BooksKept s s cur o :=
  ⟨rfl, rfl, rfl, rfl, fun _ _ => rfl, .inl rfl, .inl rfl⟩

theorem keSetEvent_kept (hlegacy : s.timers.legacy = false) (e : Nat) :
    BooksKept s (keSetEvent cur e s) cur (some e) := by
  unfold keSetEvent
  by_cases hnull : e = 0
  · rw [if_pos hnull]
    exact .same s cur _
  · rw [if_neg hnull]
    have hoff : ((s.signal e 1).note (.set e)).timers.legacy = false := hlegacy
    simp only [hoff, Bool.false_eq_true, if_false]
    exact booksKept_signal s cur 1 (.inl rfl) rfl

theorem keReleaseSemaphore_kept (hlegacy : s.timers.legacy = false) (sem : Nat) (adj : Int) :
    BooksKept s (keReleaseSemaphore cur sem adj s) cur (some sem) := by
  unfold keReleaseSemaphore
  by_cases hnull : sem = 0
  · rw [if_pos hnull]
    exact .same s cur _
  · rw [if_neg hnull]
    have hoff : ((s.signal sem (Int.bmod ((s.header sem).signalState + adj) 4294967296)).note
      (.released sem adj)).timers.legacy = false := hlegacy
    simp only [hoff, Bool.false_eq_true, if_false]
    exact booksKept_signal s cur _ (.inr ⟨adj, rfl⟩) rfl

theorem expireTimer_kept (hrun : expireTimer cur s = some s') :
    BooksKept s s' cur s.timers.firing.head? ∧ s'.sched = s.sched := by
  obtain ⟨timers, hfire, heq⟩ := Option.map_eq_some_iff.1 hrun
  have hkept := tickFire_kept hfire
  split at heq
  case h_1 t rest hfiring =>
    subst heq
    exact ⟨⟨rfl, hkept.legacy, rfl, rfl, hkept.header, .inr ⟨.timer t, rfl, by rw [hfiring]; rfl⟩,
      .inl rfl⟩, rfl⟩
  case h_2 hfiring =>
    unfold tickFire at hfire
    rw [hfiring] at hfire
    cases hfire

theorem WaitInv.still_of_sched (h : WaitInv s p) (hsched : s'.sched = s.sched)
    {o : Option Nat} (hkept : BooksKept s s' cur o) : Still s s' p p :=
  ⟨h.congr hsched hkept.waiting hkept.legacy hkept.p4Active, rfl, fun _ _ => by rw [hsched]⟩

/-- A step that neither waits nor wakes leaves the sleepers alone, and it touches the books
of one object at most. -/
theorem waitStep_still (h : WaitInv s p) {a : WaitAction} (hmoves : a.moves = false)
    (hcur : s.sched.current 0 = some cur) {fuel : Nat} (hrun : waitStepOf fuel cur s a = some s') :
    BooksKept s s' cur (a.object s) ∧ ∃ p', Still s s' p p' := by
  have hsame : ∀ {o : Option Nat}, s'.sched = s.sched → BooksKept s s' cur o →
      BooksKept s s' cur o ∧ ∃ p', Still s s' p p' :=
    fun hsched hkept => ⟨hkept, p, h.still_of_sched hsched hkept⟩
  cases a with
  | spawn affinity =>
    simp only [waitStepOf, Option.ite_none_right_eq_some, Option.some.injEq] at hrun
    obtain ⟨⟨-, haff⟩, rfl⟩ := hrun
    exact ⟨booksKept_sched s cur _, spawn_still h cur haff⟩
  | mark =>
    obtain ⟨sched, rfl, hstill⟩ := mark_still h hrun
    exact ⟨booksKept_sched s cur sched, p, hstill⟩
  | insert =>
    obtain ⟨sched, p', rfl, hstill⟩ := insert_still h hrun
    exact ⟨booksKept_sched s cur sched, p', hstill⟩
  | quantumEnd =>
    simp only [waitStepOf, Option.ite_none_right_eq_some] at hrun
    obtain ⟨sched, p', rfl, hstill⟩ := quantumEnd_still h hrun.2
    exact ⟨booksKept_sched s cur sched, p', hstill⟩
  | yieldProcessor =>
    simp only [waitStepOf, Option.ite_none_right_eq_some] at hrun
    obtain ⟨sched, p', rfl, hstill⟩ := yieldProcessor_still h hcur hrun.2
    exact ⟨booksKept_sched s cur sched, p', hstill⟩
  | initEvent e type state =>
    simp only [waitStepOf, Option.ite_none_right_eq_some, Option.some.injEq] at hrun
    obtain ⟨-, rfl⟩ := hrun
    unfold keInitializeEvent
    split
    · exact ⟨.same s cur _, p, h.still_of_sched rfl (.same s cur none)⟩
    · exact ⟨booksKept_header s cur e _, p, h.still_of_sched rfl (booksKept_header s cur e _)⟩
  | setEvent e =>
    simp only [waitStepOf, Option.ite_none_right_eq_some, Option.some.injEq] at hrun
    obtain ⟨-, rfl⟩ := hrun
    refine hsame ?_ (keSetEvent_kept h.legacy e)
    unfold keSetEvent
    split
    · rfl
    · simp only
      split <;> rfl
  | resetEvent e =>
    simp only [waitStepOf, Option.ite_none_right_eq_some, Option.some.injEq] at hrun
    obtain ⟨-, rfl⟩ := hrun
    unfold keResetEvent
    split
    · exact ⟨.same s cur _, p, h.still_of_sched rfl (.same s cur none)⟩
    · exact ⟨booksKept_header s cur e _, p, h.still_of_sched rfl (booksKept_header s cur e _)⟩
  | initSemaphore sem count =>
    simp only [waitStepOf, Option.ite_none_right_eq_some, Option.some.injEq] at hrun
    obtain ⟨-, rfl⟩ := hrun
    unfold keInitializeSemaphore
    split
    · exact ⟨.same s cur _, p, h.still_of_sched rfl (.same s cur none)⟩
    · exact ⟨booksKept_header s cur sem _, p, h.still_of_sched rfl (booksKept_header s cur sem _)⟩
  | releaseSemaphore sem adj =>
    simp only [waitStepOf, Option.ite_none_right_eq_some, Option.some.injEq] at hrun
    obtain ⟨-, rfl⟩ := hrun
    refine hsame ?_ (keReleaseSemaphore_kept h.legacy sem adj)
    unfold keReleaseSemaphore
    split
    · rfl
    · simp only
      split <;> rfl
  | exit =>
    simp only [waitStepOf, Option.ite_none_right_eq_some, Option.some.injEq] at hrun
    obtain ⟨⟨hfree, hidle⟩, rfl⟩ := hrun
    refine ⟨⟨rfl, rfl, rfl, rfl, fun _ _ => rfl, .inr ⟨.threadExit cur, rfl, ?_⟩, .inl rfl⟩, p,
      exit_still h hcur hfree hidle⟩
    simp [WaitAction.object, hcur, Waker.object]
  | initTimer n type =>
    simp only [waitStepOf, Option.ite_none_right_eq_some, Option.some.injEq] at hrun
    obtain ⟨-, rfl⟩ := hrun
    exact hsame rfl ((keInitializeTimerEx_kept s.timers n type).books cur)
  | setTimer n due period dpc =>
    simp only [waitStepOf, Option.ite_none_right_eq_some] at hrun
    obtain ⟨timers, hset, rfl⟩ := Option.map_eq_some_iff.1 hrun.2
    obtain ⟨r, hr, rfl⟩ := Option.map_eq_some_iff.1 hset
    exact hsame rfl ((keSetTimerEx_kept hr).books cur)
  | cancelTimer n =>
    simp only [waitStepOf, Option.ite_none_right_eq_some] at hrun
    obtain ⟨timers, hcancel, rfl⟩ := Option.map_eq_some_iff.1 hrun.2
    obtain ⟨r, hr, rfl⟩ := Option.map_eq_some_iff.1 hcancel
    exact hsame rfl ((keCancelTimer_kept hr).books cur)
  | tickStart =>
    obtain ⟨timers, htick, rfl⟩ := Option.map_eq_some_iff.1 hrun
    exact hsame rfl ((tickStart_kept htick).books cur)
  | tickFire =>
    obtain ⟨hkept, hsched⟩ := expireTimer_kept hrun
    exact hsame hsched hkept
  | tickRearm =>
    obtain ⟨timers, htick, rfl⟩ := Option.map_eq_some_iff.1 hrun
    exact hsame rfl ((tickRearm_kept htick).books cur)
  | wait | retry | wake => cases hmoves

end MeuOS.Ke
