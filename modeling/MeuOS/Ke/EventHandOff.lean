import MeuOS.Ke.WaitRuns
import MeuOS.Lib.HandOff

/-! Synchronization events and semaphores. What the threads see of one event is a flag that
is handed over, as long as it is set only while it is down and no newcomer takes it from the
threads that wait for it. -/
namespace MeuOS.Ke

open MeuOS.Lib

/-- How often the event was set. -/
def setsOf (e : Nat) (l : List WaitEvent) : Nat := l.count (.set e)

/-- How many waits on the object were called. -/
def entriesOf (obj : Nat) : List WaitEvent → Nat
  | [] => 0
  | .entered _ o :: l => (if o = obj then 1 else 0) + entriesOf obj l
  | _ :: l => entriesOf obj l

/-- The threads whose waits were satisfied, the last one first. -/
def satisfiedOf (obj : Nat) : List WaitEvent → List Tid
  | [] => []
  | .satisfied t o :: l => if o = obj then t :: satisfiedOf obj l else satisfiedOf obj l
  | _ :: l => satisfiedOf obj l

/-- The sum of the adjustments. -/
def releasedOf (sem : Nat) : List WaitEvent → Int
  | [] => 0
  | .released o adj :: l => (if o = sem then adj else 0) + releasedOf sem l
  | _ :: l => releasedOf sem l

/-- The state from which the events are counted. -/
def WaitSys.counted (s : WaitSys) : WaitSys := { s with history := [] }

/-- The event is only waited for without a timeout, by threads that can sleep, and set: set
while it is down, and not waited for anew while it is up and a thread is in its wait. -/
def EventOk (e : Nat) (s : WaitSys) : WaitAction → Prop
  | .wait obj timeout => obj = e → timeout = none ∧ kiCanBlock s = true ∧
      ((s.header e).signalState ≠ 0 → ∀ t, s.waiting t ≠ some e)
  | .setEvent o => o = e → (s.header e).signalState = 0
  | .retry => True
  | .wake => True
  | a => a.object s ≠ some e

/-- The semaphore is only waited for and released, and its count stays a LONG that is not
negative. -/
def SemaphoreOk (sem : Nat) (s : WaitSys) : WaitAction → Prop
  | .wait _ _ => True
  | .releaseSemaphore o adj => o = sem →
      0 ≤ (s.header sem).signalState + adj ∧ (s.header sem).signalState + adj < 2147483648
  | .retry => True
  | .wake => True
  | a => a.object s ≠ some sem

/-- Every thread in a wait on the object sleeps, and no call has a wake of it to do. -/
def Quiet (s : WaitSys) (obj : Nat) : Prop :=
  (∀ t, s.waiting t = some obj → SleepsOn s obj t) ∧ ∀ t, ∀ w ∈ s.owed t, w.object s ≠ obj

variable {s s' : WaitSys} {p p' : Placement} {cur t : Tid} {obj e : Nat} {h : HandOff Tid}

/-! ## The event as a flag -/

/-- What the event, its waiters and the outstanding wakes are to the flag. -/
structure Hands (s : WaitSys) (p : Placement) (e : Nat) (h : HandOff Tid) : Prop where
  inv : WaitInv s p
  header : s.header e = ⟨1, if h.signal then 1 else 0⟩
  asleep : h.asleep = sleepers s p e
  nodup : h.awake.Nodup
  awake : ∀ t, t ∈ h.awake ↔ s.waiting t = some e ∧ t ∉ p.waitList
  owed : ∀ t, h.owed.count t = (s.owed t).count (.event e)
  only : ∀ t, ∀ w ∈ s.owed t, w.object s = e → w = .event e
  sets : h.sets = setsOf e s.history
  entered : h.entered = entriesOf e s.history
  done : h.done = satisfiedOf e s.history

theorem Still.sleepers_eq (h : Still s s' p p') (obj : Nat) : sleepers s' p' obj = sleepers s p obj := by
  unfold sleepers
  rw [h.waitList]
  apply List.filter_congr
  intro t ht
  unfold waitsOn
  rw [h.waitObject t ht]

/-- A step on another object that moves nobody. -/
theorem Hands.still (hh : Hands s p e h) (hstill : Still s s' p p') {o : Option Nat}
    (hkept : BooksKept s s' cur o) (ho : o ≠ some e) : Hands s' p' e h where
  inv := hstill.inv
  header := (hkept.header e ho).trans hh.header
  asleep := hh.asleep.trans (hstill.sleepers_eq e).symm
  nodup := hh.nodup
  awake t := by
    rw [hkept.waiting, hstill.waitList]
    exact hh.awake t
  owed t := by
    rw [hh.owed t]
    rcases hkept.owed with hsame | ⟨w, hnew, hw⟩
    · rw [hsame]
    · rw [hnew]
      by_cases heq : t = cur
      · subst heq
        have hne : w ≠ .event e := by
          rintro rfl
          exact ho hw
        rw [Function.update_self, List.count_cons_of_ne hne]
      · rw [Function.update_of_ne heq]
  only t w hw hobject := by
    have hobject' : ∀ w : Waker, w.object s' = w.object s := by
      intro w
      cases w <;> simp [Waker.object, hkept.threadObject]
    rw [hobject'] at hobject
    rcases hkept.owed with hsame | ⟨w', hnew, hw'⟩
    · rw [hsame] at hw
      exact hh.only t w hw hobject
    · rw [hnew] at hw
      by_cases heq : t = cur
      · subst heq
        rw [Function.update_self] at hw
        rcases List.mem_cons.1 hw with rfl | hw
        · rw [hobject] at hw'
          exact absurd hw' ho
        · exact hh.only t w hw hobject
      · rw [Function.update_of_ne heq] at hw
        exact hh.only t w hw hobject
  sets := by
    rw [hh.sets]
    rcases hkept.history with hsame | ⟨x, hnew, ⟨n, rfl, hn⟩ | ⟨n, i, rfl, hn⟩⟩
    · rw [hsame]
    · have hne : n ≠ e := fun heq => ho (heq ▸ hn)
      rw [hnew, setsOf, setsOf, List.count_cons_of_ne (by simpa using hne)]
    · rw [hnew, setsOf, setsOf, List.count_cons_of_ne (by simp)]
  entered := by
    rw [hh.entered]
    rcases hkept.history with hsame | ⟨x, hnew, ⟨n, rfl, -⟩ | ⟨n, i, rfl, -⟩⟩
    · rw [hsame]
    · rw [hnew]
      rfl
    · rw [hnew]
      rfl
  done := by
    rw [hh.done]
    rcases hkept.history with hsame | ⟨x, hnew, ⟨n, rfl, -⟩ | ⟨n, i, rfl, -⟩⟩
    · rw [hsame]
    · rw [hnew]
      rfl
    · rw [hnew]
      rfl

theorem Hands.congr_history (hh : Hands s p e h) (x : WaitEvent) (hset : x ≠ .set e)
    (hentered : ∀ t, x ≠ .entered t e) (hdone : ∀ t, x ≠ .satisfied t e) : Hands (s.note x) p e h where
  inv := hh.inv.congr rfl rfl rfl rfl
  header := hh.header
  asleep := hh.asleep
  nodup := hh.nodup
  awake := hh.awake
  owed := hh.owed
  only t w hw hobject := hh.only t w hw (by cases w <;> exact hobject)
  sets := by
    rw [hh.sets]
    exact (List.count_cons_of_ne hset).symm
  entered := by
    rw [hh.entered]
    cases x with
    | entered t o =>
      have hne : o ≠ e := fun heq => hentered t (heq ▸ rfl)
      simp [WaitSys.note, entriesOf, hne]
    | _ => rfl
  done := by
    rw [hh.done]
    cases x with
    | satisfied t o =>
      have hne : o ≠ e := fun heq => hdone t (heq ▸ rfl)
      simp [WaitSys.note, satisfiedOf, hne]
    | _ => rfl

/-- A thread that is in no wait on the event ends a wait. -/
theorem Hands.leave (hh : Hands s p e h) (hcur : s.sched.current 0 = some cur)
    (hother : s.waiting cur ≠ some e) : Hands (s.setWaiting cur none) p e h where
  inv := hh.inv.leave hcur
  header := hh.header
  asleep := hh.asleep
  nodup := hh.nodup
  awake t := by
    rw [hh.awake t]
    by_cases heq : t = cur
    · subst heq
      simp [WaitSys.setWaiting, hother]
    · simp [WaitSys.setWaiting, heq]
  owed := hh.owed
  only t w hw hobject := hh.only t w hw (by cases w <;> exact hobject)
  sets := hh.sets
  entered := hh.entered
  done := hh.done

/-- Another object's header changed. -/
theorem Hands.setHeader (hh : Hands s p e h) (hobj : obj ≠ e) (hdr : DispatcherHeader) :
    Hands (s.setHeader obj hdr) p e h :=
  hh.still (hh.inv.still_of_sched rfl (booksKept_header s (.idle 0) obj hdr))
    (booksKept_header s (.idle 0) obj hdr) (by simpa using hobj)

theorem Slept.sleepers_eq (h : Slept s s' p p' cur obj) (o : Nat) :
    sleepers s' p' o = sleepers s p o ++ if obj = o then [cur] else [] := by
  have hold : p.waitList.filter (waitsOn s'.sched o) = p.waitList.filter (waitsOn s.sched o) := by
    apply List.filter_congr
    intro t ht
    unfold waitsOn
    rw [h.waitObject t ht]
  unfold sleepers
  rw [h.waitList, List.filter_append, hold]
  congr 1
  by_cases heq : obj = o <;> simp [waitsOn, h.object, heq]

/-- A thread went to sleep, on the event or on something else. -/
theorem Hands.sleep (hh : Hands s p e h) {sched : Sched} (hcur : s.sched.current 0 = some cur)
    (hslept : Slept s ({ s with sched := sched }.setWaiting cur (some obj)) p p' cur obj)
    (hother : obj ≠ e → s.waiting cur ≠ some e) :
    Hands ({ s with sched := sched }.setWaiting cur (some obj)) p' e
      { h with awake := h.awake.erase cur, asleep := h.asleep ++ if obj = e then [cur] else [] } where
  inv := hslept.inv
  header := hh.header
  asleep := by
    rw [hslept.sleepers_eq, ← hh.asleep]
  nodup := hh.nodup.erase cur
  awake t := by
    have hout := hh.inv.not_asleep hcur
    rw [hh.nodup.mem_erase_iff, hh.awake t, hslept.waitList]
    by_cases heq : t = cur
    · subst heq
      simp
    · simp [WaitSys.setWaiting, heq]
  owed := hh.owed
  only t w hw hobject := hh.only t w hw (by cases w <;> exact hobject)
  sets := hh.sets
  entered := hh.entered
  done := hh.done

/-- A pass on something else. -/
theorem Hands.pass_other (hh : Hands s p e h) (hcur : s.sched.current 0 = some cur)
    (hrunning : (s.sched.thread cur).state = .running) (hobj : obj ≠ e) (hother : s.waiting cur ≠ some e)
    {timeout : Option Int} {status : Option WaitStatus}
    (hrun : waitPass cur obj timeout s = some (status, s')) : ∃ p', Hands s' p' e h := by
  rcases waitPass_cases hh.inv hcur hrunning obj timeout with ⟨-, hpass⟩ | ⟨-, -, st, hpass⟩ |
    ⟨-, -, sched, p', hpass, hslept⟩
  · obtain rfl := congrArg Prod.snd (Option.some.inj (hpass.symm.trans hrun))
    have hleft := (hh.setHeader hobj (scConsume (s.header obj))).leave hcur hother
    exact ⟨p, hleft.congr_history _ (by simp) (by simp) (by simpa using hobj)⟩
  · obtain rfl := congrArg Prod.snd (Option.some.inj (hpass.symm.trans hrun))
    exact ⟨p, hh.leave hcur hother⟩
  · obtain rfl := congrArg Prod.snd (Option.some.inj (hpass.symm.trans hrun))
    have hfree : cur ∉ h.awake := fun hmem => hother ((hh.awake cur).1 hmem).1
    have hsleep := hh.sleep hcur hslept fun _ => hother
    rw [if_neg hobj, List.append_nil, List.erase_of_not_mem hfree] at hsleep
    exact ⟨p', hsleep⟩

/-- A pass on the event takes it down when it is up, and goes to sleep when it is not. -/
theorem Hands.pass_event (hh : Hands s p e h) (hcur : s.sched.current 0 = some cur)
    (hrunning : (s.sched.thread cur).state = .running) (hidle : cur ≠ .idle 0 ∨ h.signal = true)
    {status : Option WaitStatus} (hrun : waitPass cur e none s = some (status, s')) :
    (h.signal = true ∧ Hands s' p e
      { h with signal := false, awake := h.awake.erase cur, done := cur :: h.done }) ∨
    (h.signal = false ∧ ∃ p', Hands s' p' e
      { h with awake := h.awake.erase cur, asleep := h.asleep ++ [cur] }) := by
  rcases waitPass_cases hh.inv hcur hrunning e none with ⟨hup, hpass⟩ | ⟨hlow, hstay, -⟩ |
    ⟨hdown, -, sched, p', hpass, hslept⟩
  · obtain rfl := congrArg Prod.snd (Option.some.inj (hpass.symm.trans hrun))
    have hsignal : h.signal = true := by
      by_contra hfalse
      rw [hh.header, if_neg hfalse] at hup
      exact hup rfl
    refine .inl ⟨hsignal, ?_⟩
    have hkept := booksKept_header s cur e (scConsume (s.header e))
    have hstill : Still s (s.setHeader e (scConsume (s.header e))) p p := hh.inv.still_of_sched rfl hkept
    have hinv : WaitInv ((s.setHeader e (scConsume (s.header e))).setWaiting cur none) p :=
      hstill.inv.leave hcur
    constructor
    case inv => exact hinv.congr rfl rfl rfl rfl
    case header =>
      rw [hh.header]
      simp [WaitSys.note, WaitSys.setWaiting, WaitSys.setHeader, WaitSys.header, TimerSys.setHeader,
        scConsume]
    case asleep => exact hh.asleep
    case nodup => exact hh.nodup.erase cur
    case awake =>
      intro t
      rw [hh.nodup.mem_erase_iff, hh.awake t]
      by_cases heq : t = cur
      · subst heq
        simp [WaitSys.note, WaitSys.setWaiting]
      · simp [WaitSys.note, WaitSys.setWaiting, WaitSys.setHeader, heq]
    case owed => exact hh.owed
    case only => exact fun t w hw hobject => hh.only t w hw (by cases w <;> exact hobject)
    case sets =>
      rw [hh.sets]
      exact (List.count_cons_of_ne (by simp)).symm
    case entered => exact hh.entered
    case done =>
      rw [hh.done]
      simp [WaitSys.note, WaitSys.setWaiting, WaitSys.setHeader, satisfiedOf]
  · rcases hstay with hnone | hcur
    · exact absurd rfl hnone
    · rcases hidle with hidle | hup
      · exact absurd hcur hidle
      · rw [hh.header, if_pos hup] at hlow
        cases hlow
  · obtain rfl := congrArg Prod.snd (Option.some.inj (hpass.symm.trans hrun))
    have hsignal : h.signal = false := by
      by_contra htrue
      rw [Bool.not_eq_false] at htrue
      rw [hh.header, if_pos htrue] at hdown
      cases hdown
    have hsleep := hh.sleep hcur hslept fun hne => absurd rfl hne
    rw [if_pos rfl] at hsleep
    exact .inr ⟨hsignal, p', hsleep⟩

/-- The event is set. -/
theorem Hands.set (hh : Hands s p e h) (he : e ≠ 0) (cur : Tid) :
    Hands (keSetEvent cur e s) p e
      { h with signal := true, owed := cur :: h.owed, sets := h.sets + 1 } := by
  have hkept : BooksKept s (keSetEvent cur e s) cur (some e) := keSetEvent_kept hh.inv.legacy e
  have hset : keSetEvent cur e s =
      ((s.signal e 1).note (.set e)).setOwed cur (.event e :: s.owed cur) := by
    have hoff : ((s.signal e 1).note (.set e)).timers.legacy = false := hh.inv.legacy
    unfold keSetEvent
    simp only [if_neg he, hoff, Bool.false_eq_true, if_false]
    rfl
  rw [hset] at hkept ⊢
  constructor
  case inv => exact hh.inv.congr rfl hkept.waiting hkept.legacy hkept.p4Active
  case header =>
    have hsignal : (((s.signal e 1).note (.set e)).setOwed cur (.event e :: s.owed cur)).header e =
        { s.header e with signalState := 1 } := Function.update_self ..
    rw [hsignal, hh.header]
    rfl
  case asleep => exact hh.asleep
  case nodup => exact hh.nodup
  case awake => exact hh.awake
  case owed =>
    intro t
    simp only [WaitSys.setOwed]
    by_cases heq : t = cur
    · subst heq
      rw [Function.update_self, List.count_cons_self, List.count_cons_self, hh.owed t]
    · rw [Function.update_of_ne heq, List.count_cons_of_ne (Ne.symm heq)]
      exact hh.owed t
  case only =>
    intro t w hw hobject
    simp only [WaitSys.setOwed] at hw
    have hobject' : w.object s = e := by cases w <;> exact hobject
    by_cases heq : t = cur
    · subst heq
      rw [Function.update_self] at hw
      rcases List.mem_cons.1 hw with rfl | hw
      · rfl
      · exact hh.only t w hw hobject'
    · rw [Function.update_of_ne heq] at hw
      exact hh.only t w hw hobject'
  case sets =>
    rw [hh.sets]
    exact (List.count_cons_self ..).symm
  case entered => exact hh.entered
  case done => exact hh.done

theorem WaitInv.mem_sleepers (h : WaitInv s p) :
    t ∈ sleepers s p obj ↔ t ∈ p.waitList ∧ s.waiting t = some obj := by
  unfold sleepers
  rw [List.mem_filter]
  constructor
  · rintro ⟨ht, hobject⟩
    rw [h.blocked t ht]
    exact ⟨ht, by simpa [waitsOn] using hobject⟩
  · rintro ⟨ht, hwaiting⟩
    rw [h.blocked t ht, Option.some.injEq] at hwaiting
    exact ⟨ht, by simp [waitsOn, hwaiting]⟩

/-- Who sleeps on something else goes on sleeping. -/
theorem Awoke.sleepers_other {wakeAll : Bool} (h : Awoke s s' p p' cur obj wakeAll) {o : Nat}
    (ho : o ≠ obj) : sleepers s' p' o = sleepers s p o := by
  have hsame : sleepers s' p' o = p'.waitList.filter (waitsOn s.sched o) := by
    apply List.filter_congr
    intro t ht
    unfold waitsOn
    rw [h.waitObject t ht]
  rw [hsame, h.waitList]
  apply takeUpTo_other
  intro t ht
  have heq : (s.sched.thread t).waitObject = o := by simpa [waitsOn] using ht
  simpa [waitsOn, heq] using ho

/-- One outstanding wake of `cur` is done. -/
theorem count_owed_rest {w : Waker} {rest : List Waker} (howed : s.owed cur = w :: rest)
    (u : Tid) : (Function.update s.owed cur rest u).count (.event e) =
      (s.owed u).count (.event e) - if u = cur ∧ w = .event e then 1 else 0 := by
  by_cases heq : u = cur
  · subst heq
    rw [Function.update_self, howed]
    by_cases hw : w = .event e
    · simp [hw]
    · simp [hw, List.count_cons_of_ne hw]
  · simp [heq]

/-- A wake of the event is one step of the flag, and a wake of something else none. -/
theorem Hands.wake (hh : Hands s p e h) (hcur : s.sched.current 0 = some cur) {fuel : Nat}
    (hrun : wakeOwed fuel cur s = some s') :
    ∃ p' h', Hands s' p' e h' ∧ (h' = h ∨ HandOff.Step h h') := by
  obtain ⟨w, rest, sched, p', howed, rfl, hawoke⟩ := wakeOwed_awoke hh.inv hcur hrun
  have hinv : WaitInv ({ s with sched := sched }.setOwed cur rest) p' :=
    hawoke.inv.congr rfl rfl rfl rfl
  have honly : ∀ u, ∀ w' ∈ Function.update s.owed cur rest u, w'.object s = e → w' = .event e := by
    intro u w' hw' hobject
    by_cases heq : u = cur
    · subst heq
      rw [Function.update_self] at hw'
      exact hh.only u w' (howed ▸ List.mem_cons_of_mem w hw') hobject
    · rw [Function.update_of_ne heq] at hw'
      exact hh.only u w' hw' hobject
  have hsleepers : ∀ u, s.waiting u = some e →
      (u ∈ p'.waitList ↔ u ∈ sleepers ({ s with sched := sched }.setOwed cur rest) p' e) :=
    fun u hu => by
      rw [hinv.mem_sleepers]
      exact ⟨fun hmem => ⟨hmem, hu⟩, fun hmem => hmem.1⟩
  have hbefore : ∀ u, s.waiting u = some e → (u ∈ p.waitList ↔ u ∈ h.asleep) := fun u hu => by
    rw [hh.asleep, hh.inv.mem_sleepers]
    exact ⟨fun hmem => ⟨hmem, hu⟩, fun hmem => hmem.1⟩
  by_cases hw : w = .event e
  · subst hw
    have hone : (Waker.event e).wakeAll s = false := by
      simp [Waker.wakeAll, hh.header]
    rw [hone] at hawoke
    have hmem : cur ∈ h.owed := by
      rw [← List.count_pos_iff, hh.owed cur, howed]
      simp
    have howed' : ∀ u, (h.owed.erase cur).count u =
        (Function.update s.owed cur rest u).count (.event e) := by
      intro u
      rw [count_owed_rest howed, List.count_erase, hh.owed u]
      by_cases heq : u = cur
      · subst heq
        simp
      · simp [heq, Ne.symm heq]
    have hdrop : sleepers ({ s with sched := sched }.setOwed cur rest) p' e = h.asleep.drop 1 := by
      rw [hh.asleep]
      exact hawoke.sleepers_eq
    cases hasleep : h.asleep with
    | nil =>
      refine ⟨p', { h with owed := h.owed.erase cur }, ⟨hinv, hh.header, ?_, hh.nodup, fun u => ?_,
        howed', fun u w' hw' hobject => honly u w' hw' (by cases w' <;> exact hobject), hh.sets,
        hh.entered, hh.done⟩, .inr (.wakeNone h cur hmem hasleep)⟩
      · rw [hdrop, hasleep]
        rfl
      · rw [hh.awake u]
        apply and_congr_right
        intro hu
        rw [hbefore u hu, hsleepers u hu, hdrop, hasleep]
        simp
    | cons a l =>
      have hnodup : (a :: l).Nodup := by
        rw [← hasleep, hh.asleep]
        exact hh.inv.waitList_nodup.filter _
      have hfirst : a ∈ p.waitList ∧ s.waiting a = some e := by
        rw [← hh.inv.mem_sleepers, ← hh.asleep, hasleep]
        exact List.mem_cons_self
      refine ⟨p', { h with owed := h.owed.erase cur, asleep := l, awake := a :: h.awake }, ⟨hinv,
        hh.header, ?_, ?_, fun u => ?_, howed',
        fun u w' hw' hobject => honly u w' hw' (by cases w' <;> exact hobject), hh.sets, hh.entered,
        hh.done⟩, .inr (.wakeFirst h cur a l hmem hasleep)⟩
      · rw [hdrop, hasleep]
        rfl
      · rw [List.nodup_cons]
        exact ⟨fun ha => ((hh.awake a).1 ha).2 hfirst.1, hh.nodup⟩
      · rw [List.mem_cons, hh.awake u]
        constructor
        · rintro (rfl | ⟨hu, hout⟩)
          · rw [hsleepers u hfirst.2, hdrop, hasleep]
            exact ⟨hfirst.2, (List.nodup_cons.1 hnodup).1⟩
          · refine ⟨hu, fun hmem' => hout ?_⟩
            rw [hsleepers u hu, hdrop, hasleep] at hmem'
            rw [hbefore u hu, hasleep]
            exact List.mem_cons_of_mem a hmem'
        · rintro ⟨hu, hout⟩
          rw [hsleepers u hu, hdrop, hasleep] at hout
          by_cases heq : u = a
          · exact .inl heq
          · refine .inr ⟨hu, ?_⟩
            rw [hbefore u hu, hasleep, List.mem_cons]
            tauto
  · have hne : e ≠ w.object s := by
      intro heq
      exact hw (hh.only cur w (howed ▸ List.mem_cons_self) heq.symm)
    have hkept : sleepers ({ s with sched := sched }.setOwed cur rest) p' e = h.asleep := by
      rw [hh.asleep]
      exact hawoke.sleepers_other hne
    refine ⟨p', h, ⟨hinv, hh.header, hkept.symm, hh.nodup, fun u => ?_, fun u => ?_,
      fun u w' hw' hobject => honly u w' hw' (by cases w' <;> exact hobject), hh.sets, hh.entered,
      hh.done⟩, .inl rfl⟩
    · rw [hh.awake u]
      apply and_congr_right
      intro hu
      rw [hbefore u hu, hsleepers u hu, hkept]
    · rw [hh.owed u]
      have hcount : (Function.update s.owed cur rest u).count (.event e) =
          (s.owed u).count (.event e) := by
        rw [count_owed_rest howed, if_neg fun hboth => hw hboth.2, Nat.sub_zero]
      exact hcount.symm

theorem WaitInv.can_block (h : WaitInv s p) (hcur : s.sched.current 0 = some cur)
    (hcan : kiCanBlock s = true) : cur ≠ .idle 0 := by
  rw [h.kiCanBlock_eq hcur] at hcan
  exact of_decide_eq_true hcan

/-- Every step is one of the flag's, or none. -/
theorem Hands.step (hh : Hands s p e h) (he : e ≠ 0) {a : WaitAction} (hok : EventOk e s a)
    (hstep : WaitStep s a s') : ∃ p' h', Hands s' p' e h' ∧ (h' = h ∨ HandOff.Step h h') := by
  obtain ⟨fuel, hstep⟩ := hstep
  obtain ⟨cur, hcur, hrun⟩ := Option.bind_eq_some_iff.1 hstep
  have hother : a.moves = false → a.object s ≠ some e →
      ∃ p' h', Hands s' p' e h' ∧ (h' = h ∨ HandOff.Step h h') := by
    intro hmoves hobj
    obtain ⟨hkept, p', hstill⟩ := waitStep_still hh.inv hmoves hcur hrun
    exact ⟨p', h, hh.still hstill hkept hobj, .inl rfl⟩
  obtain ⟨hwait, hretry⟩ := waitStep_pass hh.inv hcur hrun
  cases a with
  | wait obj timeout =>
    obtain ⟨hwaiting, hrunning, status, hcall⟩ := hwait obj timeout rfl
    have hnone : ∀ o, s.waiting cur ≠ some o := by simp [hwaiting]
    unfold keWaitForSingleObject at hcall
    split at hcall
    · cases hcall
      exact ⟨p, h, hh, .inl rfl⟩
    · by_cases hobj : obj = e
      · subst hobj
        obtain ⟨rfl, hcan, hnobody⟩ := hok rfl
        have hidle := hh.inv.can_block hcur hcan
        have hentered : Hands (s.note (.entered cur obj)) p obj { h with entered := h.entered + 1 } := by
          refine ⟨hh.inv.congr rfl rfl rfl rfl, hh.header, hh.asleep, hh.nodup, hh.awake, hh.owed,
            fun t w hw hobject => hh.only t w hw (by cases w <;> exact hobject), ?_, ?_, ?_⟩
          · rw [hh.sets]
            exact (List.count_cons_of_ne (by simp)).symm
          · simp [WaitSys.note, entriesOf, hh.entered, Nat.add_comm]
          · rw [hh.done]
            rfl
        have hfree : h.awake.erase cur = h.awake :=
          List.erase_of_not_mem fun hmem => hnone obj ((hh.awake cur).1 hmem).1
        rcases hentered.pass_event hcur hrunning (.inl hidle) hcall with ⟨hup, hafter⟩ | ⟨hdown, p', hafter⟩
        · have hraised : (s.header obj).signalState ≠ 0 := by
            rw [hh.header, if_pos hup]
            simp
          have hasleep : h.asleep = [] := by
            apply List.eq_nil_iff_forall_not_mem.2
            intro t ht
            rw [hh.asleep, hh.inv.mem_sleepers] at ht
            exact hnobody hraised t ht.2
          have hawake : h.awake = [] := by
            apply List.eq_nil_iff_forall_not_mem.2
            intro t ht
            exact hnobody hraised t ((hh.awake t).1 ht).1
          simp only [hfree] at hafter
          exact ⟨p, _, hafter, .inr (.enterPass h cur hup ⟨hasleep, hawake⟩)⟩
        · simp only [hfree] at hafter
          exact ⟨p', _, hafter, .inr (.enterSleep h cur hdown)⟩
      · have hnoted := hh.congr_history (.entered cur obj) (by simp) (by simpa using hobj) (by simp)
        obtain ⟨p', hafter⟩ := hnoted.pass_other hcur hrunning hobj (hnone e) hcall
        exact ⟨p', h, hafter, .inl rfl⟩
  | retry =>
    obtain ⟨obj, hwaiting, -, hrunning, status, hpass⟩ := hretry rfl
    by_cases hobj : obj = e
    · subst hobj
      have hidle := (hh.inv.alive cur (by simp [hwaiting])).1
      have hmem : cur ∈ h.awake := (hh.awake cur).2 ⟨hwaiting, hh.inv.not_asleep hcur⟩
      rcases hh.pass_event hcur hrunning (.inl hidle) hpass with ⟨hup, hafter⟩ | ⟨hdown, p', hafter⟩
      · exact ⟨p, _, hafter, .inr (.pass h cur hmem hup)⟩
      · exact ⟨p', _, hafter, .inr (.sleepAgain h cur hmem hdown)⟩
    · obtain ⟨p', hafter⟩ := hh.pass_other hcur hrunning hobj (by simpa [hwaiting] using hobj) hpass
      exact ⟨p', h, hafter, .inl rfl⟩
  | wake => exact hh.wake hcur hrun
  | setEvent o =>
    by_cases hobj : o = e
    · subst hobj
      simp only [waitStepOf, Option.ite_none_right_eq_some, Option.some.injEq] at hrun
      obtain ⟨-, rfl⟩ := hrun
      have hdown : h.signal = false := by
        have hlow := hok rfl
        by_contra htrue
        rw [Bool.not_eq_false] at htrue
        rw [hh.header, if_pos htrue] at hlow
        cases hlow
      exact ⟨p, _, hh.set he cur, .inr (.set h cur hdown)⟩
    · exact hother rfl (by simpa [WaitAction.object] using hobj)
  | _ => exact hother rfl hok

/-! ## Semaphores -/

/-- Satisfied waits and the count make up for what was there and what was released. -/
structure SemaphoreInv (s : WaitSys) (sem : Nat) (c : Int) : Prop where
  type : (s.header sem).type = 5
  nonneg : 0 ≤ (s.header sem).signalState
  sum : (satisfiedOf sem s.history).length + (s.header sem).signalState = c + releasedOf sem s.history

variable {sem : Nat} {c : Int}

theorem SemaphoreInv.congr (h : SemaphoreInv s sem c) (hheader : s'.header sem = s.header sem)
    (hsatisfied : satisfiedOf sem s'.history = satisfiedOf sem s.history)
    (hreleased : releasedOf sem s'.history = releasedOf sem s.history) : SemaphoreInv s' sem c where
  type := by rw [hheader]; exact h.type
  nonneg := by rw [hheader]; exact h.nonneg
  sum := by rw [hheader, hsatisfied, hreleased]; exact h.sum

theorem SemaphoreInv.pass (h : SemaphoreInv s sem c) (hinv : WaitInv s p)
    (hcur : s.sched.current 0 = some cur) (hrunning : (s.sched.thread cur).state = .running)
    {timeout : Option Int} {status : Option WaitStatus}
    (hrun : waitPass cur obj timeout s = some (status, s')) : SemaphoreInv s' sem c := by
  rcases waitPass_cases hinv hcur hrunning obj timeout with ⟨hup, hpass⟩ | ⟨-, -, st, hpass⟩ |
    ⟨-, -, sched, p', hpass, -⟩
  · obtain rfl := congrArg Prod.snd (Option.some.inj (hpass.symm.trans hrun))
    by_cases hobj : obj = sem
    · subst hobj
      have hpos : 0 < (s.header obj).signalState := by
        have := h.nonneg
        omega
      have hheader : (((s.setHeader obj (scConsume (s.header obj))).setWaiting cur none).note
          (.satisfied cur obj)).header obj =
            { s.header obj with signalState := (s.header obj).signalState - 1 } := by
        have hself : (((s.setHeader obj (scConsume (s.header obj))).setWaiting cur none).note
            (.satisfied cur obj)).header obj = scConsume (s.header obj) := Function.update_self ..
        rw [hself, scConsume, if_neg (by rw [h.type]; decide), if_pos h.type, if_pos hpos]
      have hsatisfied : satisfiedOf obj (((s.setHeader obj (scConsume (s.header obj))).setWaiting cur
          none).note (.satisfied cur obj)).history = cur :: satisfiedOf obj s.history := if_pos rfl
      refine ⟨?_, ?_, ?_⟩
      · rw [hheader]
        exact h.type
      · rw [hheader]
        show 0 ≤ (s.header obj).signalState - 1
        omega
      · rw [hheader, hsatisfied, List.length_cons]
        have := h.sum
        show ((satisfiedOf obj s.history).length + 1 : Nat) + ((s.header obj).signalState - 1) =
          c + releasedOf obj s.history
        omega
    · refine h.congr ?_ (if_neg hobj) rfl
      exact (booksKept_header s cur obj (scConsume (s.header obj))).header sem (by simpa using hobj)
  · obtain rfl := congrArg Prod.snd (Option.some.inj (hpass.symm.trans hrun))
    exact h.congr rfl rfl rfl
  · obtain rfl := congrArg Prod.snd (Option.some.inj (hpass.symm.trans hrun))
    exact h.congr rfl rfl rfl

theorem SemaphoreInv.release (h : SemaphoreInv s sem c) (hsem : sem ≠ 0) {adj : Int}
    (hok : 0 ≤ (s.header sem).signalState + adj ∧ (s.header sem).signalState + adj < 2147483648)
    (hlegacy : s.timers.legacy = false) (cur : Tid) :
    SemaphoreInv (keReleaseSemaphore cur sem adj s) sem c := by
  have hwrap : Int.bmod ((s.header sem).signalState + adj) 4294967296 =
      (s.header sem).signalState + adj := by
    apply Int.bmod_eq_of_le <;> omega
  have hrelease : keReleaseSemaphore cur sem adj s =
      ((s.signal sem ((s.header sem).signalState + adj)).note (.released sem adj)).setOwed cur
        (.semaphore sem :: s.owed cur) := by
    have hoff : ((s.signal sem ((s.header sem).signalState + adj)).note
      (.released sem adj)).timers.legacy = false := hlegacy
    unfold keReleaseSemaphore
    simp only [if_neg hsem, hwrap, hoff, Bool.false_eq_true, if_false]
    rfl
  have hheader : (keReleaseSemaphore cur sem adj s).header sem =
      { s.header sem with signalState := (s.header sem).signalState + adj } := by
    rw [hrelease]
    exact Function.update_self ..
  have hreleased : releasedOf sem (keReleaseSemaphore cur sem adj s).history =
      adj + releasedOf sem s.history := by
    rw [hrelease]
    show (if sem = sem then adj else 0) + releasedOf sem s.history = _
    rw [if_pos rfl]
  have hsatisfied : satisfiedOf sem (keReleaseSemaphore cur sem adj s).history =
      satisfiedOf sem s.history := by
    rw [hrelease]
    rfl
  refine ⟨?_, ?_, ?_⟩
  · rw [hheader]
    exact h.type
  · rw [hheader]
    exact hok.1
  · rw [hheader, hreleased, hsatisfied]
    have := h.sum
    show ((satisfiedOf sem s.history).length : Int) + ((s.header sem).signalState + adj) =
      c + (adj + releasedOf sem s.history)
    omega

theorem SemaphoreInv.step (h : SemaphoreInv s sem c) (hinv : WaitInv s p) (hsem : sem ≠ 0)
    {a : WaitAction} (hok : SemaphoreOk sem s a) (hstep : WaitStep s a s') : SemaphoreInv s' sem c := by
  obtain ⟨fuel, hstep⟩ := hstep
  obtain ⟨cur, hcur, hrun⟩ := Option.bind_eq_some_iff.1 hstep
  have hother : a.moves = false → a.object s ≠ some sem → SemaphoreInv s' sem c := by
    intro hmoves hobj
    obtain ⟨hkept, -⟩ := waitStep_still hinv hmoves hcur hrun
    rcases hkept.history with hsame | ⟨x, hnew, ⟨n, rfl, -⟩ | ⟨n, i, rfl, hn⟩⟩
    · exact h.congr (hkept.header sem hobj) (by rw [hsame]) (by rw [hsame])
    · exact h.congr (hkept.header sem hobj) (by rw [hnew]; rfl) (by rw [hnew]; rfl)
    · refine h.congr (hkept.header sem hobj) (by rw [hnew]; rfl) ?_
      have hne : n ≠ sem := fun heq => hobj (heq ▸ hn)
      rw [hnew]
      show (if n = sem then i else 0) + releasedOf sem s.history = _
      rw [if_neg hne, Int.zero_add]
  obtain ⟨hwait, hretry⟩ := waitStep_pass hinv hcur hrun
  cases a with
  | wait o timeout =>
    obtain ⟨-, hrunning, status, hcall⟩ := hwait o timeout rfl
    unfold keWaitForSingleObject at hcall
    split at hcall
    · cases hcall
      exact h
    · have hnoted : SemaphoreInv (s.note (.entered cur o)) sem c := h.congr rfl rfl rfl
      have hinv' : WaitInv (s.note (.entered cur o)) p := hinv.congr rfl rfl rfl rfl
      exact hnoted.pass hinv' hcur hrunning hcall
  | retry =>
    obtain ⟨o, -, -, hrunning, status, hpass⟩ := hretry rfl
    exact h.pass hinv hcur hrunning hpass
  | wake =>
    obtain ⟨w, rest, sched, p', -, rfl, -⟩ := wakeOwed_awoke hinv hcur hrun
    exact h.congr rfl rfl rfl
  | releaseSemaphore o adj =>
    by_cases hobj : o = sem
    · subst hobj
      simp only [waitStepOf, Option.ite_none_right_eq_some, Option.some.injEq] at hrun
      obtain ⟨-, rfl⟩ := hrun
      exact h.release hsem (hok rfl) hinv.legacy cur
    · exact hother rfl (by simpa [WaitAction.object] using hobj)
  | _ => exact hother rfl hok

/-! ## Runs -/

theorem hands_start (hinv : WaitInv s p) (hheader : s.header e = ⟨1, 0⟩) (hquiet : Quiet s e) :
    Hands s.counted p e (HandOff.start (sleepers s p e)) where
  inv := hinv.congr rfl rfl rfl rfl
  header := hheader
  asleep := rfl
  nodup := List.nodup_nil
  awake t := by
    constructor
    · exact fun ht => absurd ht List.not_mem_nil
    · rintro ⟨ht, hout⟩
      exact absurd (hinv.mem_sleepers.1 (hinv.sleepsOn_iff.1 (hquiet.1 t ht))).1 hout
  owed t := by
    symm
    rw [HandOff.start, List.count_nil, List.count_eq_zero]
    intro hmem
    exact hquiet.2 t _ hmem rfl
  only t w hw hobject := by
    have hobject' : w.object s = e := by cases w <;> exact hobject
    exact absurd hobject' (hquiet.2 t w hw)
  sets := rfl
  entered := rfl
  done := rfl

theorem eventRun_hands (hinv : WaitInv s p) (he : e ≠ 0) (hheader : s.header e = ⟨1, 0⟩)
    (hquiet : Quiet s e) (hrun : Reach (· = s.counted) WaitStep (EventOk e) s') :
    ∃ p' h, Hands s' p' e h ∧ Relation.ReflTransGen HandOff.Step (HandOff.start (sleepers s p e)) h := by
  apply hrun.invariant
  · rintro _ rfl
    exact ⟨p, _, hands_start hinv hheader hquiet, .refl⟩
  · rintro s₁ a s₂ ⟨p₁, h₁, hh, hsteps⟩ hok hstep
    obtain ⟨p₂, h₂, hh₂, rfl | hone⟩ := hh.step he hok hstep
    · exact ⟨p₂, h₂, hh₂, hsteps⟩
    · exact ⟨p₂, h₂, hh₂, hsteps.tail hone⟩

theorem Hands.quiet (hh : Hands s p e h) (hquiet : Quiet s e) : h.owed = [] ∧ h.awake = [] := by
  constructor
  · apply List.eq_nil_iff_forall_not_mem.2
    intro t ht
    rw [← List.count_pos_iff, hh.owed t, List.count_pos_iff] at ht
    exact hquiet.2 t _ ht rfl
  · apply List.eq_nil_iff_forall_not_mem.2
    intro t ht
    obtain ⟨hwaiting, hout⟩ := (hh.awake t).1 ht
    exact hout (hh.inv.mem_sleepers.1 (hh.inv.sleepsOn_iff.1 (hquiet.1 t hwaiting))).1

/-- On one processor: an event on which `orig` sleep at first, and a semaphore. -/
theorem handOff_conserved (h : Reach WaitBooted WaitStep (fun _ _ => True) s) :
    (∀ e ≠ 0, s.header e = ⟨1, 0⟩ → Quiet s e → ∀ orig : List Tid, orig.Nodup →
      (∀ t, t ∈ orig ↔ SleepsOn s e t) →
        ∀ s', Reach (· = s.counted) WaitStep (EventOk e) s' → Quiet s' e →
          (satisfiedOf e s'.history).length =
              min (setsOf e s'.history) (orig.length + entriesOf e s'.history) ∧
            (orig.length ≤ setsOf e s'.history → ∀ t ∈ orig, t ∈ satisfiedOf e s'.history)) ∧
    (∀ sem ≠ 0, (s.header sem).type = 5 → 0 ≤ (s.header sem).signalState →
      ∀ s', Reach (· = s.counted) WaitStep (SemaphoreOk sem) s' →
        (satisfiedOf sem s'.history).length + (s'.header sem).signalState =
          (s.header sem).signalState + releasedOf sem s'.history) := by
  obtain ⟨p, hinv⟩ := waitRun_inv h
  constructor
  · intro e he hheader hquiet orig hnodup horig s' hrun hquiet'
    obtain ⟨p', flag, hh, hsteps⟩ := eventRun_hands hinv he hheader hquiet hrun
    obtain ⟨howed, hawake⟩ := hh.quiet hquiet'
    have hsame : orig.Perm (sleepers s p e) := by
      apply (List.perm_ext_iff_of_nodup hnodup (hinv.waitList_nodup.filter _)).2
      intro t
      rw [horig t, hinv.sleepsOn_iff]
      rfl
    rw [hsame.length_eq, ← hh.done, ← hh.sets, ← hh.entered]
    refine ⟨HandOff.conserved hsteps howed hawake, fun hsets t ht => ?_⟩
    exact HandOff.first_served hsteps howed hawake hsets t (hsame.mem_iff.1 ht)
  · intro sem hsem htype hnonneg s' hrun
    have hstart : SemaphoreInv s.counted sem (s.header sem).signalState := by
      refine ⟨htype, hnonneg, ?_⟩
      show ((0 : Nat) : Int) + (s.header sem).signalState = (s.header sem).signalState + 0
      omega
    have hboth : (∃ p', WaitInv s' p') ∧ SemaphoreInv s' sem (s.header sem).signalState := by
      apply hrun.invariant
      · rintro _ rfl
        exact ⟨⟨p, hinv.congr rfl rfl rfl rfl⟩, hstart⟩
      · rintro s₁ a s₂ ⟨⟨p₁, hinv₁⟩, hsum⟩ hok hstep
        exact ⟨waitStep_inv hinv₁ hstep, hsum.step hinv₁ hsem hok hstep⟩
    exact hboth.2.sum

/-! ## One waiter, and two -/

/-- `EventOk` where nobody waits for a raised event. -/
def EventOkNow (e : Nat) (s : WaitSys) : WaitAction → Prop
  | .wait obj timeout => obj = e →
      timeout = none ∧ kiCanBlock s = true ∧ (s.header e).signalState = 0
  | .setEvent o => o = e → (s.header e).signalState = 0
  | .retry => True
  | .wake => True
  | a => a.object s ≠ some e

instance (e : Nat) (s : WaitSys) (a : WaitAction) : Decidable (EventOkNow e s a) := by
  cases a <;> unfold EventOkNow <;> infer_instance

theorem EventOkNow.ok {a : WaitAction} (h : EventOkNow e s a) : EventOk e s a := by
  cases a with
  | wait obj timeout =>
    intro hobj
    obtain ⟨htimeout, hcan, hdown⟩ := h hobj
    exact ⟨htimeout, hcan, fun hup => absurd hdown hup⟩
  | _ => exact h

def eventGuardedStep (e : Nat) (s : WaitSys) (a : WaitAction) : Option WaitSys :=
  if EventOkNow e s a then waitStep 16 s a else none

theorem eventRun_reach {l : List WaitAction} (hrun : runSteps (eventGuardedStep e) l s = some s') :
    Reach (· = s) WaitStep (EventOk e) s' :=
  runGuarded_reach (fun _ _ hok => hok.ok) (fun _ _ _ hstep => ⟨16, hstep⟩) (.start rfl) hrun

/-- A synchronization event and a semaphore; `n` threads sleep on the event. -/
def sleepersBoot (n : Nat) : List WaitAction :=
  [.initEvent 5 1 false, .initSemaphore 6 2] ++ sleepActions n 5

/-- The event is set once and its one sleeper runs. -/
def handOver : List WaitAction := [.setEvent 5, .wake, .mark, .insert, .yieldProcessor, .retry]

theorem oneSleeper_sleeps : SleepsOn (afterWaits (sleepersBoot 1) bootedWaits) 5 t ↔ t = .worker 0 := by
  have hring : (afterWaits (sleepersBoot 1) bootedWaits).sched.links.Ring .waitHead
      ([Tid.worker 0].map .waitLink) := by
    refine ⟨by simp, ?_, ?_, ?_, ?_⟩ <;> decide +kernel
  constructor
  · rintro ⟨⟨l, hring', ht⟩, -⟩
    have hl : l = [.worker 0] :=
      List.map_injective_iff.2 (fun _ _ h => Node.waitLink.inj h) (hring'.unique hring)
    rw [hl, List.mem_singleton] at ht
    exact ht
  · rintro rfl
    exact ⟨⟨_, hring, List.mem_cons_self⟩, by decide +kernel⟩

theorem handOff_conserved_one : ∃ s' s'',
    runSteps (eventGuardedStep 5) handOver (afterWaits (sleepersBoot 1) bootedWaits).counted = some s' ∧
    (satisfiedOf 5 s'.history).length = min (setsOf 5 s'.history) (1 + entriesOf 5 s'.history) ∧
    (1 ≤ setsOf 5 s'.history → ∀ t ∈ [Tid.worker 0], t ∈ satisfiedOf 5 s'.history) ∧
    waitStep 16 (afterWaits (sleepersBoot 1) bootedWaits).counted (.releaseSemaphore 6 3) = some s'' ∧
    (satisfiedOf 6 s''.history).length + (s''.header 6).signalState = 2 + releasedOf 6 s''.history := by
  have hreach := waitRun_reach (afterWaits_run (s := bootedWaits) (l := sleepersBoot 1) (by decide +kernel))
  obtain ⟨hevent, hsemaphore⟩ := handOff_conserved hreach
  have hwaiting : (afterWaits (sleepersBoot 1) bootedWaits).waiting =
      Function.update (fun _ => none) (.worker 0) (some 5) := rfl
  have howed : (afterWaits (sleepersBoot 1) bootedWaits).owed = fun _ => [] := rfl
  have hquiet : Quiet (afterWaits (sleepersBoot 1) bootedWaits) 5 := by
    constructor
    · intro t ht
      rw [hwaiting] at ht
      rw [oneSleeper_sleeps]
      by_contra hne
      rw [Function.update_of_ne hne] at ht
      cases ht
    · rw [howed]
      simp
  have hwaiting' : (runSteps (eventGuardedStep 5) handOver
      (afterWaits (sleepersBoot 1) bootedWaits).counted).map (·.waiting) =
        some (Function.update (Function.update (fun _ => none) (.worker 0) (some 5)) (.worker 0) none) :=
    rfl
  have howed' : (runSteps (eventGuardedStep 5) handOver
      (afterWaits (sleepersBoot 1) bootedWaits).counted).map (·.owed) =
        some (Function.update (Function.update (fun _ => []) (.idle 0) [.event 5]) (.idle 0) []) :=
    rfl
  obtain ⟨s', hrun, hs'⟩ := Option.map_eq_some_iff.1 hwaiting'
  rw [hrun, Option.map_some, Option.some.injEq] at howed'
  have hquiet' : Quiet s' 5 := by
    constructor
    · intro t ht
      rw [hs', Function.update_idem] at ht
      by_cases heq : t = .worker 0
      · subst heq
        simp at ht
      · rw [Function.update_of_ne heq] at ht
        cases ht
    · intro t w hw
      rw [howed', Function.update_idem] at hw
      by_cases heq : t = .idle 0
      · subst heq
        simp at hw
      · rw [Function.update_of_ne heq] at hw
        cases hw
  have hone : ∀ t, t ∈ [Tid.worker 0] ↔ SleepsOn (afterWaits (sleepersBoot 1) bootedWaits) 5 t :=
    fun t => List.mem_singleton.trans oneSleeper_sleeps.symm
  have hserved := hevent 5 (by decide) (by decide +kernel) hquiet [.worker 0] (by simp) hone s'
    (eventRun_reach hrun) hquiet'
  obtain ⟨s'', hrelease⟩ := Option.isSome_iff_exists.1 (show (waitStep 16
    (afterWaits (sleepersBoot 1) bootedWaits).counted (.releaseSemaphore 6 3)).isSome = true from
      by decide +kernel)
  have hcount : ((afterWaits (sleepersBoot 1) bootedWaits).header 6) = ⟨5, 2⟩ := by decide +kernel
  have hok : SemaphoreOk 6 (afterWaits (sleepersBoot 1) bootedWaits).counted (.releaseSemaphore 6 3) := by
    intro
    show 0 ≤ ((afterWaits (sleepersBoot 1) bootedWaits).header 6).signalState + 3 ∧
      ((afterWaits (sleepersBoot 1) bootedWaits).header 6).signalState + 3 < 2147483648
    rw [hcount]
    decide
  have hsum := hsemaphore 6 (by decide) (by rw [hcount]) (by rw [hcount]; decide) s''
    (Reach.step (.start rfl) hok ⟨16, hrelease⟩)
  rw [hcount] at hsum
  exact ⟨s', s'', hrun, hserved.1, hserved.2, hrelease, hsum⟩

/-- The event is set twice before the first of its two sleepers runs; then both run. -/
def setTwice : List WaitAction :=
  [.setEvent 5, .wake, .mark, .insert, .setEvent 5, .wake, .mark, .insert, .yieldProcessor, .retry,
    .yieldProcessor, .retry]

/-- Two threads sleep, the event is set twice, and one of them sleeps for good. -/
theorem handOff_loses_second : ∃ s s', Reach WaitBooted WaitStep (fun _ _ => True) s ∧
    s.header 5 = ⟨1, 0⟩ ∧ Quiet s 5 ∧ SleepsOn s 5 (.worker 0) ∧ SleepsOn s 5 (.worker 1) ∧
      runSteps (waitStep 16) setTwice s.counted = some s' ∧ Quiet s' 5 ∧
        setsOf 5 s'.history = 2 ∧ (satisfiedOf 5 s'.history).length = 1 ∧ SleepsOn s' 5 (.worker 1) := by
  have hreach := waitRun_reach (afterWaits_run (s := bootedWaits) (l := sleepersBoot 2) (by decide +kernel))
  have hrun : runSteps (waitStep 16) setTwice (afterWaits (sleepersBoot 2) bootedWaits).counted =
      some (afterWaits setTwice (afterWaits (sleepersBoot 2) bootedWaits).counted) :=
    afterWaits_run (by decide +kernel)
  have hring : (afterWaits (sleepersBoot 2) bootedWaits).sched.links.Ring .waitHead
      ([Tid.worker 0, .worker 1].map .waitLink) := by
    refine ⟨by simp, ?_, ?_, ?_, ?_, ?_, ?_⟩ <;> decide +kernel
  have hring' : (afterWaits setTwice (afterWaits (sleepersBoot 2) bootedWaits).counted).sched.links.Ring
      .waitHead ([Tid.worker 1].map .waitLink) := by
    refine ⟨by simp, ?_, ?_, ?_, ?_⟩ <;> decide +kernel
  have hwaiting : (afterWaits (sleepersBoot 2) bootedWaits).waiting = Function.update
      (Function.update (fun _ => none) (.worker 0) (some 5)) (.worker 1) (some 5) := rfl
  have howed : (afterWaits (sleepersBoot 2) bootedWaits).owed = fun _ => [] := rfl
  have hwaiting' : (afterWaits setTwice (afterWaits (sleepersBoot 2) bootedWaits).counted).waiting =
      Function.update (Function.update (Function.update (Function.update (fun _ => none)
        (.worker 0) (some 5)) (.worker 1) (some 5)) (.worker 0) none) (.worker 1) (some 5) := rfl
  have howed' : (afterWaits setTwice (afterWaits (sleepersBoot 2) bootedWaits).counted).owed =
      Function.update (Function.update (Function.update (Function.update (fun _ => [])
        (.idle 0) [.event 5]) (.idle 0) []) (.idle 0) [.event 5]) (.idle 0) [] := rfl
  have hfirst : SleepsOn (afterWaits (sleepersBoot 2) bootedWaits) 5 (.worker 0) :=
    ⟨⟨_, hring, by simp⟩, by decide +kernel⟩
  have hsecond : SleepsOn (afterWaits (sleepersBoot 2) bootedWaits) 5 (.worker 1) :=
    ⟨⟨_, hring, by simp⟩, by decide +kernel⟩
  have hlast : SleepsOn (afterWaits setTwice (afterWaits (sleepersBoot 2) bootedWaits).counted) 5
      (.worker 1) := ⟨⟨_, hring', by simp⟩, by decide +kernel⟩
  refine ⟨_, _, hreach, by decide +kernel, ⟨?_, by simp [howed]⟩, hfirst, hsecond, hrun, ⟨?_, ?_⟩,
    by decide +kernel, by decide +kernel, hlast⟩
  · intro t ht
    rw [hwaiting] at ht
    by_cases heq : t = .worker 1
    · rw [heq]
      exact hsecond
    · by_cases heq' : t = .worker 0
      · rw [heq']
        exact hfirst
      · simp [heq, heq'] at ht
  · intro t ht
    rw [hwaiting'] at ht
    by_cases heq : t = .worker 1
    · rw [heq]
      exact hlast
    · by_cases heq' : t = .worker 0 <;> simp [heq, heq'] at ht
  · intro t w hw
    rw [howed'] at hw
    by_cases heq : t = .idle 0 <;> simp [heq] at hw

end MeuOS.Ke
