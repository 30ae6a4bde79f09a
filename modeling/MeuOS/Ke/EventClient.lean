import MeuOS.Ke.EventHandOff

/-! What a lock built on a synchronization event of its own sees of the event: its threads
enter the wait, set the event, and everything else leaves it alone. -/
namespace MeuOS.Ke

open MeuOS.Lib

/-- The steps that go on with a wait or a wake. -/
def WaitAction.goesOn : WaitAction → Bool
  | .retry => true
  | .wake => true
  | _ => false

/-- The step uses the event in no call of its own. -/
def Spares (e : Nat) (s : WaitSys) (a : WaitAction) : Prop :=
  a.goesOn = true ∨ a.object s ≠ some e

instance (e : Nat) (s : WaitSys) (a : WaitAction) : Decidable (Spares e s a) :=
  inferInstanceAs (Decidable (_ ∨ _))

/-- Calls that a thread makes only between those of the lock. -/
def ownCall : WaitAction → Bool
  | .spawn _ => true
  | .wait _ _ => true
  | .exit => true
  | _ => false

variable {s s' : WaitSys} {p p' : Placement} {cur t : Tid} {obj e : Nat} {h h' : HandOff Tid}

/-! ## The wait -/

theorem waitPass_kept {timeout : Option Int} {status : Option WaitStatus}
    (hrun : waitPass cur obj timeout s = some (status, s')) :
    s'.owed = s.owed ∧ ∀ t, t ≠ cur → s'.waiting t = s.waiting t := by
  unfold waitPass at hrun
  split at hrun
  · cases hrun
    exact ⟨rfl, fun t ht => Function.update_of_ne ht ..⟩
  · split at hrun
    · cases hrun
      exact ⟨rfl, fun t ht => Function.update_of_ne ht ..⟩
    · split at hrun
      · cases hrun
        exact ⟨rfl, fun t ht => Function.update_of_ne ht ..⟩
      · obtain ⟨sched, -, heq⟩ := Option.map_eq_some_iff.1 hrun
        cases heq
        exact ⟨rfl, fun t ht => Function.update_of_ne ht ..⟩

/-- Whoever passes is through with the wait. -/
theorem waitPass_up {timeout : Option Int} {status : Option WaitStatus}
    (hup : (s.header obj).signalState ≠ 0) (hrun : waitPass cur obj timeout s = some (status, s')) :
    s'.waiting cur = none := by
  unfold waitPass at hrun
  rw [if_pos hup] at hrun
  cases hrun
  exact Function.update_self ..

theorem waitPass_other (hobj : obj ≠ e) {timeout : Option Int} {status : Option WaitStatus}
    (hrun : waitPass cur obj timeout s = some (status, s')) : s'.waiting cur ≠ some e := by
  unfold waitPass at hrun
  have hnone : ∀ s₁ : WaitSys, (s₁.setWaiting cur none).waiting cur ≠ some e := by
    intro s₁
    simp [WaitSys.setWaiting]
  split at hrun
  · cases hrun
    exact hnone _
  · split at hrun
    · cases hrun
      exact hnone _
    · split at hrun
      · cases hrun
        exact hnone _
      · obtain ⟨sched, -, heq⟩ := Option.map_eq_some_iff.1 hrun
        cases heq
        simpa [WaitSys.setWaiting] using hobj

/-- A pass of one of the lock's threads: it takes the event down and is through, or it goes
to sleep. -/
structure Passed (s s' : WaitSys) (cur : Tid) (e : Nat) (h h' : HandOff Tid) : Prop where
  down : h'.signal = false
  waiting : if h.signal then s'.waiting cur = none else s'.waiting cur = some e
  owed : s'.owed = s.owed
  others : ∀ t, t ≠ cur → s'.waiting t = s.waiting t

theorem Hands.passed (hh : Hands s p e h) (hcur : s.sched.current 0 = some cur)
    (hrunning : (s.sched.thread cur).state = .running) (hidle : cur ≠ .idle 0 ∨ h.signal = true)
    {status : Option WaitStatus} (hrun : waitPass cur e none s = some (status, s')) :
    ∃ p' h', Hands s' p' e h' ∧ Passed s s' cur e h h' := by
  obtain ⟨howed, hothers⟩ := waitPass_kept hrun
  rcases hh.pass_event hcur hrunning hidle hrun with ⟨hup, hafter⟩ | ⟨hdown, p', hafter⟩
  · have hraised : (s.header e).signalState ≠ 0 := by
      rw [hh.header, if_pos hup]
      decide
    refine ⟨p, _, hafter, rfl, ?_, howed, hothers⟩
    rw [if_pos hup]
    exact waitPass_up hraised hrun
  · refine ⟨p', _, hafter, hdown, ?_, howed, hothers⟩
    have hmem : cur ∈ h.asleep ++ [cur] := by simp
    rw [if_neg (by simp [hdown])]
    exact (hafter.inv.mem_sleepers.1 (hafter.asleep ▸ hmem)).2

/-- A thread that does not have to wait in vain enters the wait. -/
theorem Hands.enter (hh : Hands s p e h) (he : e ≠ 0) (hcur : s.sched.current 0 = some cur)
    (hidle : cur ≠ .idle 0 ∨ h.signal = true) {fuel : Nat}
    (hrun : waitStepOf fuel cur s (.wait e none) = some s') :
    ∃ p' h', Hands s' p' e h' ∧ Passed s s' cur e h h' := by
  obtain ⟨-, hrunning, status, hcall⟩ := (waitStep_pass hh.inv hcur hrun).1 e none rfl
  unfold keWaitForSingleObject at hcall
  rw [if_neg he] at hcall
  have hentered : Hands (s.note (.entered cur e)) p e { h with entered := h.entered + 1 } := by
    refine ⟨hh.inv.congr rfl rfl rfl rfl, hh.header, hh.asleep, hh.nodup, hh.awake, hh.owed,
      fun t w hw hobject => hh.only t w hw (by cases w <;> exact hobject), ?_, ?_, ?_⟩
    · rw [hh.sets]
      exact (List.count_cons_of_ne (by simp)).symm
    · simp [WaitSys.note, entriesOf, hh.entered, Nat.add_comm]
    · rw [hh.done]
      rfl
  obtain ⟨p', h', hafter, hpassed⟩ := hentered.passed hcur hrunning hidle hcall
  exact ⟨p', h', hafter, hpassed.down, hpassed.waiting, hpassed.owed, hpassed.others⟩

/-! ## Everything else -/

/-- The event, its waiters and the wakes of it stay, but that a wake may be done. -/
structure Spared (s s' : WaitSys) (cur : Tid) (e : Nat) (h h' : HandOff Tid) : Prop where
  signal : h'.signal = h.signal
  raised : h.Raised → h'.Raised
  waiting : ∀ t, s'.waiting t = some e ↔ s.waiting t = some e
  owed : ∀ t, .event e ∈ s'.owed t → .event e ∈ s.owed t
  others : ∀ t, t ≠ cur → (.event e ∈ s'.owed t ↔ .event e ∈ s.owed t)

/-- The books were kept for another object. -/
theorem BooksKept.spared {o : Option Nat} (hkept : BooksKept s s' cur o) (ho : o ≠ some e) :
    Spared s s' cur e h h := by
  have howed : ∀ t, .event e ∈ s'.owed t ↔ .event e ∈ s.owed t := by
    intro t
    rcases hkept.owed with hsame | ⟨w, hnew, hw⟩
    · rw [hsame]
    · rw [hnew]
      by_cases heq : t = cur
      · subst heq
        have hne : .event e ≠ w := by
          rintro rfl
          exact ho hw
        rw [Function.update_self, List.mem_cons]
        simp [hne]
      · rw [Function.update_of_ne heq]
  exact ⟨rfl, id, fun t => by rw [hkept.waiting], fun t => (howed t).1, fun t _ => howed t⟩

theorem wakeOwed_kept {fuel : Nat} (hrun : wakeOwed fuel cur s = some s') :
    s'.timers = s.timers ∧ s'.waiting = s.waiting ∧
      ∃ w rest, s.owed cur = w :: rest ∧ s'.owed = Function.update s.owed cur rest := by
  unfold wakeOwed at hrun
  split at hrun
  case h_1 w rest howed =>
    obtain ⟨sched, -, rfl⟩ := Option.map_eq_some_iff.1 hrun
    exact ⟨rfl, rfl, w, rest, howed, rfl⟩
  case h_2 => cases hrun

theorem Hands.spared_wake (hh : Hands s p e h) (hcur : s.sched.current 0 = some cur) {fuel : Nat}
    (hrun : wakeOwed fuel cur s = some s') : ∃ p' h', Hands s' p' e h' ∧ Spared s s' cur e h h' := by
  obtain ⟨htimers, hwaiting, w, rest, howed, hnew⟩ := wakeOwed_kept hrun
  obtain ⟨p', h', hafter, hstep⟩ := hh.wake hcur hrun
  have hheader : s'.header e = s.header e := by
    unfold WaitSys.header
    rw [htimers]
  have hsignal : h'.signal = h.signal := by
    rw [hafter.header, hh.header] at hheader
    cases hold : h.signal <;> cases hnow : h'.signal <;> simp [hold, hnow] at hheader ⊢
  refine ⟨p', h', hafter, hsignal, fun hraised => ?_, fun t => by rw [hwaiting], fun t ht => ?_,
    fun t ht => ?_⟩
  · rcases hstep with rfl | hstep
    · exact hraised
    · exact hstep.raised
  · rw [hnew] at ht
    by_cases heq : t = cur
    · subst heq
      rw [Function.update_self] at ht
      rw [howed]
      exact List.mem_cons_of_mem w ht
    · rwa [Function.update_of_ne heq] at ht
  · rw [hnew, Function.update_of_ne ht]

/-- A step that spares the event leaves it alone, unless a woken thread looks at it again. -/
theorem Hands.spare (hh : Hands s p e h) {a : WaitAction} (hspares : Spares e s a)
    (hcur : s.sched.current 0 = some cur) {fuel : Nat} (hrun : waitStepOf fuel cur s a = some s') :
    (∃ p' h', Hands s' p' e h' ∧ Spared s s' cur e h h') ∨
      (s.waiting cur = some e ∧ ∃ p' h', Hands s' p' e h' ∧ Passed s s' cur e h h') := by
  obtain ⟨hwait, hretry⟩ := waitStep_pass hh.inv hcur hrun
  have hother : ∀ {s₁ : WaitSys} {o : Nat} {timeout : Option Int} {status : Option WaitStatus},
      Hands s₁ p e h → s₁.sched = s.sched → s₁.waiting = s.waiting → s₁.owed = s.owed → o ≠ e →
        s.waiting cur ≠ some e → (s.sched.thread cur).state = .running →
          waitPass cur o timeout s₁ = some (status, s') →
            ∃ p' h', Hands s' p' e h' ∧ Spared s s' cur e h h' := by
    intro s₁ o timeout status hh₁ hsched hwaiting howed ho hnone hrunning hpass
    rw [← hsched] at hcur hrunning
    rw [← hwaiting] at hnone
    obtain ⟨p', hafter⟩ := hh₁.pass_other hcur hrunning ho hnone hpass
    obtain ⟨howed', hothers⟩ := waitPass_kept hpass
    rw [howed] at howed'
    refine ⟨p', h, hafter, rfl, id, fun t => ?_, fun t => by rw [howed']; exact id,
      fun t _ => by rw [howed']⟩
    rw [← hwaiting]
    by_cases heq : t = cur
    · subst heq
      exact iff_of_false (waitPass_other ho hpass) hnone
    · rw [hothers t heq]
  have hstill : a.moves = false → a.object s ≠ some e →
      ∃ p' h', Hands s' p' e h' ∧ Spared s s' cur e h h' := by
    intro hmoves hobj
    obtain ⟨hkept, p', hstill⟩ := waitStep_still hh.inv hmoves hcur hrun
    exact ⟨p', h, hh.still hstill hkept hobj, hkept.spared hobj⟩
  cases a with
  | wait o timeout =>
    obtain ⟨hwaiting, hrunning, status, hcall⟩ := hwait o timeout rfl
    have ho : o ≠ e := by simpa [Spares, WaitAction.goesOn, WaitAction.object] using hspares
    have hnone : s.waiting cur ≠ some e := by simp [hwaiting]
    left
    unfold keWaitForSingleObject at hcall
    split at hcall
    · cases hcall
      exact ⟨p, h, hh, rfl, id, fun _ => .rfl, fun _ => id, fun _ _ => .rfl⟩
    · have hnoted := hh.congr_history (.entered cur o) (by simp) (by simpa using ho) (by simp)
      exact hother hnoted rfl rfl rfl ho hnone hrunning hcall
  | retry =>
    obtain ⟨o, hwaiting, -, hrunning, status, hpass⟩ := hretry rfl
    by_cases ho : o = e
    · subst ho
      have hidle := (hh.inv.alive cur (by simp [hwaiting])).1
      exact .inr ⟨hwaiting, hh.passed hcur hrunning (.inl hidle) hpass⟩
    · have hnone : s.waiting cur ≠ some e := by simpa [hwaiting] using ho
      exact .inl (hother hh rfl rfl rfl ho hnone hrunning hpass)
  | wake => exact .inl (hh.spared_wake hcur hrun)
  | _ => exact .inl (hstill rfl (hspares.resolve_left Bool.false_ne_true))

/-- A thread of the lock sets the event and has the wake to do. -/
theorem Hands.set_step (hh : Hands s p e h) (he : e ≠ 0) {fuel : Nat}
    (hrun : waitStepOf fuel cur s (.setEvent e) = some s') :
    (∃ h', Hands s' p e h' ∧ h'.signal = true ∧ h'.Raised) ∧ s'.waiting = s.waiting ∧
      s'.owed = Function.update s.owed cur (.event e :: s.owed cur) := by
  simp only [waitStepOf, Option.ite_none_right_eq_some, Option.some.injEq] at hrun
  obtain ⟨-, rfl⟩ := hrun
  have hset : keSetEvent cur e s = ((s.signal e 1).note (.set e)).setOwed cur (.event e :: s.owed cur) := by
    have hoff : ((s.signal e 1).note (.set e)).timers.legacy = false := hh.inv.legacy
    unfold keSetEvent
    simp only [if_neg he, hoff, Bool.false_eq_true, if_false]
    rfl
  refine ⟨⟨_, hh.set he cur, rfl, fun _ => .inl (by simp)⟩, ?_, ?_⟩ <;> rw [hset] <;> rfl

/-- An event that was just initialized, at an address in no use. -/
theorem hands_fresh (hinv : WaitInv s p) (he : e ≠ 0) (hnobody : ∀ t, s.waiting t ≠ some e)
    (hnone : ∀ t, ∀ w ∈ s.owed t, w.object s ≠ e) :
    ∃ h, h.signal = false ∧ Hands (keInitializeEvent e 1 false s) p e h := by
  have hinit : keInitializeEvent e 1 false s = s.setHeader e ⟨1, 0⟩ := if_neg he
  have hempty : sleepers s p e = [] := by
    apply List.eq_nil_iff_forall_not_mem.2
    intro t ht
    exact hnobody t (hinv.mem_sleepers.1 ht).2
  refine ⟨⟨false, [], [], [], setsOf e s.history, entriesOf e s.history, satisfiedOf e s.history⟩, rfl, ?_⟩
  rw [hinit]
  refine ⟨hinv.congr rfl rfl rfl rfl, Function.update_self .., hempty.symm, List.nodup_nil, fun t => ?_,
    fun t => ?_, fun t w hw hobject => ?_, rfl, rfl, rfl⟩
  · exact iff_of_false List.not_mem_nil fun ht => hnobody t ht.1
  · symm
    rw [List.count_nil, List.count_eq_zero]
    exact fun hmem => hnone t _ hmem rfl
  · have hobject' : w.object s = e := by cases w <;> exact hobject
    exact absurd hobject' (hnone t w hw)

end MeuOS.Ke
