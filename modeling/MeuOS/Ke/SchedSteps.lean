import MeuOS.Ke.Placement
import MeuOS.Lib.Batch

/-! Every step of the scheduler moves the placement. -/
namespace MeuOS.Ke

open MeuOS.Lib

/-- Any processor, or one that runs. -/
def AffinityOk (s : Sched) (t : Tid) : Prop :=
  (s.thread t).cpuAffinity < 0 ∨ (maxCpus : Int) ≤ (s.thread t).cpuAffinity ∨
    s.online (s.thread t).cpuAffinity.toNat = true

structure Represents (s : Sched) (p : Placement) : Prop where
  lists : Lists s.links s.online p.queue p.waitList
  running : ∀ c, s.online c = true → ∃ t, s.current c = some t
  current : ∀ c t, p.place t = .current c ↔ s.online c = true ∧ s.current c = some t
  queued : ∀ c t, p.place t = .queued c ↔ t ∈ p.queue c
  queue_online : ∀ c t, t ∈ p.queue c → s.online c = true
  waiting : ∀ t, t ∈ p.waitList ↔
    p.place t = .waiting ∨ (∃ c, p.place t = .current c) ∧ (s.thread t).state = .waiting
  readying : ∀ u t, p.place t = .readying u ↔ t ∈ (s.pending u).map Readying.thread
  pending_nodup : ∀ u, ((s.pending u).map Readying.thread).Nodup
  target : ∀ u, ∀ r ∈ s.pending u, ∀ c, r.target = some c →
    s.online c = true ∧ (s.thread r.thread).state ≠ .new
  out : ∀ t, p.place t = .out → (s.thread t).state = .new ∨ (s.thread t).state = .terminated
  new : ∀ t, (s.thread t).state = .new → p.place t = .out ∨ ∃ u, p.place t = .readying u
  terminated : ∀ t, (s.thread t).state = .terminated →
    p.place t = .out ∨ ∃ c, p.place t = .current c
  idle : ∀ c, s.online c = true → (s.prcb c).idleThread = some (.idle c) ∧
    (s.thread (.idle c)).state = .running ∧
    (p.place (.idle c) = .current c ∨ p.place (.idle c) = .queued c)
  asleep : ∀ c, s.online c = false →
    p.place (.idle c) = .out ∧ (s.thread (.idle c)).state = .new
  affinity : ∀ t, p.place t ≠ .out → AffinityOk s t
  uncreated : ∀ n, s.created ≤ n →
    p.place (.worker n) = .out ∧ (s.thread (.worker n)).state = .new
  boot : s.online 0 = true

/-- A thread that has terminated stays so, and no processor takes it up. -/
def Keeps (s s' : Sched) : Prop :=
  ∀ t, (s.thread t).state = .terminated → (s'.thread t).state = .terminated ∧
    ∀ c, s'.current c = some t → s.current c = some t

variable {s s' : Sched} {p p' : Placement} {cpu : Nat} {t u cur next : Tid}

theorem Keeps.refl (s : Sched) : Keeps s s := fun _ h => ⟨h, fun _ hc => hc⟩

/-- The state, the affinity and the wait are all the placement sees of a thread. -/
theorem Represents.setThread (h : Represents s p) {k : KiThread} (hstate : k.state = (s.thread t).state)
    (haffinity : k.cpuAffinity = (s.thread t).cpuAffinity) : Represents (s.setThread t k) p := by
  have hs : ∀ u, ((s.setThread t k).thread u).state = (s.thread u).state := by
    intro u
    by_cases heq : u = t
    · subst heq
      simp [Sched.setThread, hstate]
    · simp [Sched.setThread, heq]
  have ha : ∀ u, ((s.setThread t k).thread u).cpuAffinity = (s.thread u).cpuAffinity := by
    intro u
    by_cases heq : u = t
    · subst heq
      simp [Sched.setThread, haffinity]
    · simp [Sched.setThread, heq]
  refine ⟨h.lists, h.running, h.current, h.queued, h.queue_online, fun u => ?_, h.readying,
    h.pending_nodup, fun u r hr c hc => ?_, fun u hu => ?_, fun u hu => ?_, fun u hu => ?_,
    fun c hc => ?_, fun c hc => ?_, fun u hu => ?_, fun n hn => ?_, h.boot⟩
  · rw [hs]
    exact h.waiting u
  · rw [hs]
    exact h.target u r hr c hc
  · rw [hs]
    exact h.out u hu
  · rw [hs] at hu
    exact h.new u hu
  · rw [hs] at hu
    exact h.terminated u hu
  · rw [hs]
    exact h.idle c hc
  · rw [hs]
    exact h.asleep c hc
  · unfold AffinityOk
    rw [ha]
    exact h.affinity u hu
  · rw [hs]
    exact h.uncreated n hn

/-! ## Giving up the processor -/

/-- Where the thread that gives the processor up goes. -/
def leavePlace (s : Sched) (cpu : Nat) (cur : Tid) : Place :=
  match (s.thread cur).state with
  | .terminated => .out
  | .waiting => .waiting
  | _ => .queued cpu

/-- What of it goes back to the ready queue. -/
def leaveBack (s : Sched) (cur : Tid) : List Tid :=
  match (s.thread cur).state with
  | .terminated => []
  | .waiting => []
  | _ => [cur]

def Placement.swap (p : Placement) (s : Sched) (cpu : Nat) (cur next : Tid) (rest : List Tid) :
    Placement :=
  { place := Function.update (Function.update p.place cur (leavePlace s cpu cur)) next (.current cpu)
    queue := Function.update p.queue cpu (rest ++ leaveBack s cur)
    waitList := p.waitList }

theorem Represents.idle_current (h : Represents s p) (hon : s.online cpu = true) (hcur : s.current cpu = some cur)
    (hq : p.queue cpu = []) : cur = .idle cpu := by
  obtain ⟨-, -, hplace⟩ := h.idle cpu hon
  rcases hplace with hplace | hplace
  · have := ((h.current cpu _).1 hplace).2
    rw [hcur] at this
    exact Option.some.inj this
  · have := (h.queued cpu _).1 hplace
    rw [hq] at this
    cases this

theorem leave_cases (s : Sched) (cpu : Nat) (cur : Tid) :
    ((s.thread cur).state = .terminated ∧ leavePlace s cpu cur = .out ∧ leaveBack s cur = []) ∨
    ((s.thread cur).state = .waiting ∧ leavePlace s cpu cur = .waiting ∧ leaveBack s cur = []) ∨
    ((s.thread cur).state ≠ .terminated ∧ (s.thread cur).state ≠ .waiting ∧
      leavePlace s cpu cur = .queued cpu ∧ leaveBack s cur = [cur]) := by
  unfold leavePlace leaveBack
  cases (s.thread cur).state <;> simp

/-- The processor goes from `cur` to the first thread of its queue. -/
theorem Represents.swap (h : Represents s p) (hon : s.online cpu = true) (hcur : s.current cpu = some cur)
    {rest : List Tid} (hq : p.queue cpu = next :: rest)
    (hlists : Lists s'.links s.online (p.swap s cpu cur next rest).queue p.waitList)
    (hother : ∀ t, t ≠ next → t ≠ cur → s'.thread t = s.thread t)
    (hcurstate : (s'.thread cur).state = (s.thread cur).state ∨
      (s'.thread cur).state = .ready ∧ cur ≠ .idle cpu ∧ (s.thread cur).state ≠ .waiting ∧
        (s.thread cur).state ≠ .terminated)
    (hnextstate : (s'.thread next).state = .running)
    (haffinity : ∀ t, (s'.thread t).cpuAffinity = (s.thread t).cpuAffinity)
    (hprcb : s'.prcb = Function.update s.prcb cpu { s.prcb cpu with currentThread := some next })
    (hpending : s'.pending = s.pending) (hcreated : s'.created = s.created) :
    Represents s' (p.swap s cpu cur next rest) := by
  have hplace : p.place cur = .current cpu := (h.current cpu cur).2 ⟨hon, hcur⟩
  have hnext : p.place next = .queued cpu := (h.queued cpu next).2 (hq ▸ List.mem_cons_self)
  have hne : next ≠ cur := by
    rintro rfl
    rw [hplace] at hnext
    cases hnext
  have hrest : next ∉ rest := by
    have := (h.lists.ready cpu hon).nodup
    rw [hq] at this
    intro hmem
    simp [hmem] at this
  have hon' : s'.online = s.online := by
    funext c
    by_cases heq : c = cpu
    · subst heq
      simp [Sched.online, hprcb]
    · simp [Sched.online, hprcb, heq]
  have hcur' : ∀ c, s'.current c = if c = cpu then some next else s.current c := by
    intro c
    by_cases heq : c = cpu
    · subst heq
      simp [Sched.current, hprcb]
    · simp [Sched.current, hprcb, heq]
  have hidle' : ∀ c, (s'.prcb c).idleThread = (s.prcb c).idleThread := by
    intro c
    by_cases heq : c = cpu
    · subst heq
      simp [hprcb]
    · simp [hprcb, heq]
  have hplace' : ∀ t, (p.swap s cpu cur next rest).place t =
      if t = next then .current cpu else if t = cur then leavePlace s cpu cur else p.place t := by
    intro t
    simp only [Placement.swap, Function.update_apply]
  have hqueue' : ∀ c, (p.swap s cpu cur next rest).queue c =
      if c = cpu then rest ++ leaveBack s cur else p.queue c := by
    intro c
    simp only [Placement.swap, Function.update_apply]
  have hleave := leave_cases s cpu cur
  constructor
  · rw [hon']
    exact hlists
  · intro c hc
    rw [hon'] at hc
    rw [hcur']
    split
    · exact ⟨next, rfl⟩
    · exact h.running c hc
  · intro c t
    rw [hplace', hon', hcur']
    have := h.current c t
    grind
  · intro c t
    rw [hplace', hqueue']
    have := h.queued c t
    grind
  · intro c t ht
    rw [hqueue'] at ht
    rw [hon']
    have := h.queue_online c t
    grind
  · intro t
    have := h.waiting t
    simp only [Placement.swap]
    grind
  · intro u t
    rw [hplace', hpending]
    have := h.readying u t
    grind
  · rw [hpending]
    exact h.pending_nodup
  · intro u r hr c hc
    rw [hpending] at hr
    rw [hon']
    obtain ⟨hc', hnew⟩ := h.target u r hr c hc
    refine ⟨hc', ?_⟩
    by_cases hrn : r.thread = next
    · rw [hrn, hnextstate]
      simp
    · by_cases hrc : r.thread = cur
      · grind
      · rw [hother _ hrn hrc]
        exact hnew
  · intro t ht
    rw [hplace'] at ht
    have := h.out t
    grind
  · intro t ht
    rw [hplace']
    have := h.new t
    grind
  · intro t ht
    rw [hplace']
    have := h.terminated t
    grind
  · intro c hc
    rw [hon'] at hc
    rw [hidle', hplace']
    have := h.idle c hc
    grind
  · intro c hc
    rw [hon'] at hc
    rw [hplace']
    obtain ⟨hout, hnew⟩ := h.asleep c hc
    have hnn : Tid.idle c ≠ next := by grind
    have hnc : Tid.idle c ≠ cur := by grind
    rw [if_neg hnn, if_neg hnc, hother _ hnn hnc]
    exact ⟨hout, hnew⟩
  · intro t ht
    rw [hplace'] at ht
    unfold AffinityOk
    rw [haffinity, hon']
    apply h.affinity t
    grind
  · intro n hn
    rw [hcreated] at hn
    rw [hplace']
    obtain ⟨hout, hnew⟩ := h.uncreated n hn
    have hnn : Tid.worker n ≠ next := by grind
    have hnc : Tid.worker n ≠ cur := by grind
    rw [if_neg hnn, if_neg hnc, hother _ hnn hnc]
    exact ⟨hout, hnew⟩
  · rw [hon']
    exact h.boot

theorem Represents.popped (h : Represents s p) (hon : s.online cpu = true) (hcur : s.current cpu = some cur)
    (hq : p.queue cpu ≠ []) :
    ∃ next rest links, p.queue cpu = next :: rest ∧ next ≠ cur ∧
      kiPickNextLocked cpu s = some (next, { s with links := links }) ∧
      Lists links s.online (Function.update p.queue cpu rest) p.waitList := by
  obtain ⟨next, rest, hcons⟩ := List.exists_cons_of_ne_nil hq
  obtain ⟨links, hpop, hlists⟩ := h.lists.pop hon hcons
  refine ⟨next, rest, links, hcons, ?_, ?_, hlists⟩
  · rintro rfl
    have hnext := (h.queued cpu next).2 (hcons ▸ List.mem_cons_self)
    rw [(h.current cpu next).2 ⟨hon, hcur⟩] at hnext
    cases hnext
  · simp only [kiPickNextLocked, hpop, Option.bind_some]

theorem Lists.back {links : Links Node} {queue : Nat → List Tid} {waitList rest : List Tid}
    {on : Nat → Bool} (h : Lists links on (Function.update queue cpu rest) waitList)
    (hon : on cpu = true) (ht : ∀ c, t ∉ queue c) (htrest : t ∉ rest) :
    ∃ L', links.insertTail (.readyHead cpu) (.readyLink t) = some L' ∧
      Lists L' on (Function.update queue cpu (rest ++ [t])) waitList := by
  have hfresh : ∀ c, t ∉ Function.update queue cpu rest c := by
    intro c
    rw [Function.update_apply]
    split
    · exact htrest
    · exact ht c
  obtain ⟨L', hinsert, hlists⟩ := h.push hon hfresh
  rw [Function.update_self, Function.update_idem] at hlists
  exact ⟨L', hinsert, hlists⟩

/-- The thread that gives the processor up is put where `leavePlace` says. -/
theorem requeue_spec (isIdle : Bool) {queue : Nat → List Tid} {waitList rest : List Tid}
    {on : Nat → Bool} (h : Lists s.links on (Function.update queue cpu rest) waitList)
    (hon : on cpu = true) (ht : ∀ c, cur ∉ queue c) (htrest : cur ∉ rest) :
    ∃ s', requeue cpu cur isIdle s = some s' ∧
      Lists s'.links on (Function.update queue cpu (rest ++ leaveBack s cur)) waitList ∧
      (∀ t, t ≠ cur → s'.thread t = s.thread t) ∧
      ((s'.thread cur).state = (s.thread cur).state ∨ (s'.thread cur).state = .ready ∧
        isIdle = false ∧ (s.thread cur).state ≠ .waiting ∧ (s.thread cur).state ≠ .terminated) ∧
      (s'.thread cur).cpuAffinity = (s.thread cur).cpuAffinity ∧
      (s'.thread cur).waitObject = (s.thread cur).waitObject ∧
      s'.prcb = s.prcb ∧ s'.pending = s.pending ∧ s'.created = s.created := by
  have hleave := leave_cases s cpu cur
  unfold requeue
  by_cases hback : (s.thread cur).state ≠ .terminated ∧ (s.thread cur).state ≠ .waiting
  · obtain ⟨links, hinsert, hlists⟩ := h.back hon ht htrest
    have hone : leaveBack s cur = [cur] := by grind
    rw [if_pos hback, hone]
    cases isIdle with
    | true =>
      exact ⟨{ s with links := links }, by simp [hinsert], hlists, fun _ _ => rfl, .inl rfl, rfl,
        rfl, rfl, rfl, rfl⟩
    | false =>
      refine ⟨{ s.setThread cur { s.thread cur with state := .ready } with links := links },
        by simp [Sched.setThread, hinsert], hlists, fun t hne => Function.update_of_ne hne ..,
        .inr ⟨?_, rfl, hback.2, hback.1⟩, ?_, ?_, rfl, rfl, rfl⟩
      · simp [Sched.setThread]
      · simp [Sched.setThread]
      · simp [Sched.setThread]
  · have hnil : leaveBack s cur = [] := by grind
    rw [if_neg hback, hnil, List.append_nil]
    exact ⟨s, rfl, h, fun _ _ => rfl, .inl rfl, rfl, rfl, rfl, rfl, rfl⟩

/-- What a switch leaves alone. -/
structure Switched (s s' : Sched) (p p' : Placement) (cpu : Nat) : Prop where
  waitList : p'.waitList = p.waitList
  waitObject : ∀ t, (s'.thread t).waitObject = (s.thread t).waitObject
  pending : s'.pending = s.pending
  online : s'.online = s.online
  active : ∀ t, s'.current cpu = some t →
    (s.current cpu = some t ∧ (s'.thread t).state = (s.thread t).state) ∨
      (s'.thread t).state = .running
  finished : ∀ t, (s'.thread t).state = .terminated → (s.thread t).state = .terminated

/-- The processor went to the first thread of its queue, if there was one. -/
structure Turned (s s' : Sched) (p p' : Placement) (cpu : Nat) (cur : Tid) : Prop
    extends Switched s s' p p' cpu where
  keeps : Keeps s s'
  turn : (p.queue cpu = [] ∧ s'.current cpu = s.current cpu) ∨
    ∃ next rest, p.queue cpu = next :: rest ∧ s'.current cpu = some next ∧
      (s'.thread next).state = .running ∧ p'.queue cpu = rest ++ leaveBack s cur

theorem Turned.refl (h : p.queue cpu = []) : Turned s s p p cpu cur where
  waitList := rfl
  waitObject _ := rfl
  pending := rfl
  online := rfl
  active _ ht := .inl ⟨ht, rfl⟩
  finished _ ht := ht
  keeps := Keeps.refl s
  turn := .inl ⟨h, rfl⟩

theorem kiSwapThread_turn (h : Represents s p) (hon : s.online cpu = true)
    (hcur : s.current cpu = some cur) (isIdle : Bool) (hidle : isIdle = true ↔ cur = .idle cpu) :
    ∃ s' p', kiSwapThread cpu cur isIdle s = some s' ∧ Represents s' p' ∧ Turned s s' p p' cpu cur := by
  by_cases hq : p.queue cpu = []
  · refine ⟨s, p, ?_, h, Turned.refl hq⟩
    have hring := h.lists.ready cpu hon
    rw [hq, List.map_nil] at hring
    obtain rfl := h.idle_current hon hcur hq
    simp [kiSwapThread, kiPickNextLocked, hring.popHead_nil, (h.idle cpu hon).1]
  · obtain ⟨next, rest, links, hcons, hne, hpick, hlists⟩ := h.popped hon hcur hq
    have hnextq : p.place next = .queued cpu := (h.queued cpu next).2 (hcons ▸ List.mem_cons_self)
    have hcurplace : p.place cur = .current cpu := (h.current cpu cur).2 ⟨hon, hcur⟩
    have hout : ∀ c, cur ∉ p.queue c := by
      intro c hc
      have := (h.queued c cur).2 hc
      rw [hcurplace] at this
      cases this
    obtain ⟨s₁, hrequeue, hlists₁, hother, hstate, haff, hobject, hprcb, hpending, hcreated⟩ :=
      requeue_spec (s := { s with links := links }) isIdle hlists hon hout
        fun hc => hout cpu (hcons ▸ List.mem_cons_of_mem next hc)
    have hrunning : ((dispatch cpu next s₁).thread next).state = .running := by
      simp [dispatch, Sched.setThread, Sched.setPrcb]
    have hcurrent : (dispatch cpu next s₁).current cpu = some next := by
      simp [dispatch, Sched.current, Sched.setPrcb]
    refine ⟨dispatch cpu next s₁, p.swap s cpu cur next rest, ?_, h.swap hon hcur hcons hlists₁ ?_ ?_
      hrunning ?_ ?_ hpending hcreated, ⟨⟨rfl, fun t => ?_, hpending, ?_, fun t ht => ?_, fun t ht => ?_⟩, ?_,
      .inr ⟨next, rest, hcons, hcurrent, hrunning, ?_⟩⟩⟩
    · simp only [kiSwapThread, hpick, Option.bind_some, if_neg hne, hrequeue, Option.map_some]
    · intro t htn htc
      simp only [dispatch, Sched.setThread, Sched.setPrcb, Function.update_of_ne htn, hother t htc]
    · have hcurne : cur ≠ next := hne.symm
      simp only [dispatch, Sched.setThread, Sched.setPrcb, Function.update_of_ne hcurne]
      have := hidle
      grind
    · intro t
      by_cases htn : t = next
      · subst htn
        simp [dispatch, Sched.setThread, Sched.setPrcb, hother t hne]
      · simp only [dispatch, Sched.setThread, Sched.setPrcb, Function.update_of_ne htn]
        by_cases htc : t = cur
        · subst htc
          exact haff
        · rw [hother t htc]
    · simp only [dispatch, Sched.setThread, Sched.setPrcb, hprcb]
    · by_cases htn : t = next
      · subst htn
        simp [dispatch, Sched.setThread, Sched.setPrcb, hother t hne]
      · simp only [dispatch, Sched.setThread, Sched.setPrcb, Function.update_of_ne htn]
        by_cases htc : t = cur
        · subst htc
          exact hobject
        · rw [hother t htc]
    · funext c
      by_cases heq : c = cpu
      · subst heq
        simp [dispatch, Sched.online, Sched.setPrcb, Sched.setThread, hprcb]
      · simp [dispatch, Sched.online, Sched.setPrcb, Sched.setThread, hprcb, heq]
    · obtain rfl := Option.some.inj (hcurrent.symm.trans ht)
      exact .inr hrunning
    · by_cases htn : t = next
      · subst htn
        rw [hrunning] at ht
        cases ht
      · simp only [dispatch, Sched.setThread, Sched.setPrcb, Function.update_of_ne htn] at ht
        by_cases htc : t = cur
        · subst htc
          have := ht
          grind
        · rwa [hother t htc] at ht
    · intro t hterm
      have htn : t ≠ next := by
        rintro rfl
        have := h.terminated t hterm
        rw [hnextq] at this
        simp at this
      refine ⟨?_, fun c hc => ?_⟩
      · simp only [dispatch, Sched.setThread, Sched.setPrcb, Function.update_of_ne htn]
        by_cases htc : t = cur
        · subst htc
          have := hterm
          grind
        · rw [hother t htc]
          exact hterm
      · by_cases heq : c = cpu
        · subst heq
          simp [dispatch, Sched.current, Sched.setPrcb, Ne.symm htn] at hc
        · simpa [dispatch, Sched.current, Sched.setPrcb, Sched.setThread, heq, hprcb] using hc
    · exact Function.update_self ..

theorem Keeps.of_states (hstate : ∀ t, (s'.thread t).state = (s.thread t).state)
    (hprcb : s'.prcb = s.prcb) : Keeps s s' := by
  intro t hterm
  refine ⟨(hstate t).trans hterm, fun c hc => ?_⟩
  unfold Sched.current at hc ⊢
  rwa [hprcb] at hc

theorem Keeps.trans {s'' : Sched} (h : Keeps s s') (h' : Keeps s' s'') : Keeps s s'' :=
  fun t ht => ⟨(h' t (h t ht).1).1, fun c hc => (h t ht).2 c ((h' t (h t ht).1).2 c hc)⟩

theorem keeps_setThread {k : KiThread}
    (hstate : (s.thread t).state = .terminated → k.state = .terminated) :
    Keeps s (s.setThread t k) := by
  intro u hterm
  refine ⟨?_, fun c hc => hc⟩
  by_cases heq : u = t
  · subst heq
    simpa [Sched.setThread] using hstate hterm
  · simpa [Sched.setThread, heq] using hterm

/-- The quantum is all that changes besides the switch. -/
theorem Switched.of_setThread {k : KiThread} (h : Switched (s.setThread t k) s' p p' cpu)
    (hobject : k.waitObject = (s.thread t).waitObject) (hstate : k.state = (s.thread t).state) :
    Switched s s' p p' cpu where
  waitList := h.waitList
  waitObject u := by
    rw [h.waitObject]
    by_cases heq : u = t
    · subst heq
      simp [Sched.setThread, hobject]
    · simp [Sched.setThread, heq]
  pending := h.pending
  online := h.online
  active u hu := by
    rcases h.active u hu with ⟨hcur, hsame⟩ | hrunning
    · refine .inl ⟨hcur, ?_⟩
      rw [hsame]
      by_cases heq : u = t
      · subst heq
        simp [Sched.setThread, hstate]
      · simp [Sched.setThread, heq]
    · exact .inr hrunning
  finished u hu := by
    have hold := h.finished u hu
    by_cases heq : u = t
    · subst heq
      rw [← hstate]
      simpa [Sched.setThread] using hold
    · simpa [Sched.setThread, heq] using hold

theorem leaveBack_setThread {k : KiThread} (hstate : k.state = (s.thread t).state) :
    leaveBack (s.setThread t k) cur = leaveBack s cur := by
  unfold leaveBack
  by_cases heq : cur = t
  · subst heq
    simp [Sched.setThread, hstate]
  · simp [Sched.setThread, heq]

theorem Turned.of_setThread {k : KiThread} (h : Turned (s.setThread t k) s' p p' cpu cur)
    (hobject : k.waitObject = (s.thread t).waitObject) (hstate : k.state = (s.thread t).state) :
    Turned s s' p p' cpu cur where
  toSwitched := h.toSwitched.of_setThread hobject hstate
  keeps := Keeps.trans (keeps_setThread fun hterm => hstate.trans hterm) h.keeps
  turn := by
    rw [← leaveBack_setThread hstate]
    exact h.turn

/-- The switch happens when the quantum is used up, and always from the idle thread. -/
theorem kiQuantumEnd_turn (h : Represents s p) (hon : s.online cpu = true)
    (hcur : s.current cpu = some cur) (hquantum : cur = .idle cpu ∨ (s.thread cur).quantum - 1 ≤ 0) :
    ∃ s' p', kiQuantumEnd cpu s = some s' ∧ Represents s' p' ∧ Turned s s' p p' cpu cur := by
  have hidle := (h.idle cpu hon).1
  unfold kiQuantumEnd
  rw [if_neg (by simp [hon]), hcur, hidle]
  simp only [Option.some_or, Option.bind_some, Option.some.injEq]
  by_cases heq : cur = .idle cpu
  · rw [if_pos heq]
    exact kiSwapThread_turn h hon hcur true (by simp [heq])
  · rw [if_neg heq, if_pos (by tauto)]
    obtain ⟨s', p', hrun, hrepr, hturn⟩ := kiSwapThread_turn (h.setThread (t := cur)
      (k := { s.thread cur with quantum := quantumDefault }) rfl rfl) hon hcur false (by simp [heq])
    exact ⟨s', p', hrun, hrepr, hturn.of_setThread rfl rfl⟩

theorem kiQuantumEnd_switch (h : Represents s p) (cpu : Nat) :
    ∃ s' p', kiQuantumEnd cpu s = some s' ∧ Represents s' p' ∧ Keeps s s' ∧ Switched s s' p p' cpu := by
  by_cases hon : s.online cpu = true
  · obtain ⟨cur, hcur⟩ := h.running cpu hon
    by_cases hquantum : cur = .idle cpu ∨ (s.thread cur).quantum - 1 ≤ 0
    · obtain ⟨s', p', hrun, hrepr, hturn⟩ := kiQuantumEnd_turn h hon hcur hquantum
      exact ⟨s', p', hrun, hrepr, hturn.keeps, hturn.toSwitched⟩
    · have hleft : ¬(s.thread cur).quantum - 1 ≤ 0 := fun hq => hquantum (.inr hq)
      have hrun : kiQuantumEnd cpu s = some
          (s.setThread cur { s.thread cur with quantum := (s.thread cur).quantum - 1 }) := by
        unfold kiQuantumEnd
        rw [if_neg (by simp [hon]), hcur, (h.idle cpu hon).1]
        simp only [Option.some_or, Option.bind_some, Option.some.injEq]
        rw [if_neg fun heq => hquantum (.inl heq), if_neg hleft]
      have hsame : Switched (s.setThread cur { s.thread cur with quantum := (s.thread cur).quantum - 1 })
          (s.setThread cur { s.thread cur with quantum := (s.thread cur).quantum - 1 }) p p cpu :=
        ⟨rfl, fun _ => rfl, rfl, rfl, fun t ht => .inl ⟨ht, rfl⟩, fun _ ht => ht⟩
      exact ⟨_, p, hrun, h.setThread rfl rfl, keeps_setThread fun hterm => hterm,
        hsame.of_setThread rfl rfl⟩
  · have hrun : kiQuantumEnd cpu s = some s := if_pos (by simpa using hon)
    exact ⟨s, p, hrun, h, Keeps.refl s, rfl, fun _ => rfl, rfl, rfl, fun t ht => .inl ⟨ht, rfl⟩,
      fun _ ht => ht⟩

theorem kiQuantumEnd_spec (h : Represents s p) (cpu : Nat) :
    ∃ s', kiQuantumEnd cpu s = some s' ∧ (∃ p', Represents s' p') ∧ Keeps s s' := by
  obtain ⟨s', p', hrun, hrepr, hkeeps, -⟩ := kiQuantumEnd_switch h cpu
  exact ⟨s', hrun, ⟨p', hrepr⟩, hkeeps⟩

theorem kiYieldProcessor_turn (h : Represents s p) (hon : s.online cpu = true)
    (hcur : s.current cpu = some cur) :
    ∃ s' p', kiYieldProcessor cpu s = some s' ∧ Represents s' p' ∧ Turned s s' p p' cpu cur := by
  have hused : cur = .idle cpu ∨
      ((s.setThread cur { s.thread cur with quantum := 0 }).thread cur).quantum - 1 ≤ 0 := by
    simp [Sched.setThread]
  unfold kiYieldProcessor
  rw [hcur]
  obtain ⟨s', p', hrun, hrepr, hturn⟩ := kiQuantumEnd_turn (h.setThread (t := cur)
    (k := { s.thread cur with quantum := 0 }) rfl rfl) hon hcur hused
  exact ⟨s', p', hrun, hrepr, hturn.of_setThread rfl rfl⟩

theorem kiYieldProcessor_spec (h : Represents s p) (cpu : Nat) :
    ∃ s', kiYieldProcessor cpu s = some s' ∧ (∃ p', Represents s' p') ∧ Keeps s s' := by
  by_cases hon : s.online cpu = true
  · obtain ⟨cur, hcur⟩ := h.running cpu hon
    obtain ⟨s', p', hrun, hrepr, hturn⟩ := kiYieldProcessor_turn h hon hcur
    exact ⟨s', hrun, ⟨p', hrepr⟩, hturn.keeps⟩
  · unfold kiYieldProcessor
    cases hcur : s.current cpu with
    | none => exact kiQuantumEnd_spec h cpu
    | some cur =>
      have h' := h.setThread (t := cur) (k := { s.thread cur with quantum := 0 }) rfl rfl
      obtain ⟨s', hrun, hrepr, hkeeps⟩ := kiQuantumEnd_spec h' cpu
      refine ⟨s', hrun, hrepr, Keeps.trans (keeps_setThread ?_) hkeeps⟩
      exact fun hterm => hterm

/-! ## Readying -/

theorem roundRobinLoop_online (hboot : s.online 0 = true) (pick left i : Nat) :
    s.online (roundRobinLoop s pick left i) = true := by
  induction left generalizing i with
  | zero => exact hboot
  | succ left ih =>
    unfold roundRobinLoop
    simp only
    split
    · assumption
    · exact ih (i + 1)

theorem readyTarget_online (h : Represents s p) (haff : AffinityOk s t) :
    s.online (readyTarget t s).1 = true := by
  unfold readyTarget
  simp only
  split
  · exact roundRobinLoop_online h.boot _ _ _
  · unfold AffinityOk at haff
    tauto

/-- What has no place among the lists stays out of them. -/
theorem Represents.not_queued (h : Represents s p) (ht : ∀ c, p.place t ≠ .queued c) (c : Nat) :
    t ∉ p.queue c :=
  fun hc => ht c ((h.queued c t).2 hc)

theorem readyMark_repr (h : Represents s p) {waker : Tid} {rest : List Readying}
    (hpending : s.pending waker = ⟨t, none⟩ :: rest) {k : KiThread} {target rr : Nat}
    (hstate : k.state = .ready) (haff : k.cpuAffinity = (s.thread t).cpuAffinity)
    (htarget : s.online target = true) :
    Represents (({ s with rrCpu := rr }.setThread t k).setPending waker (⟨t, some target⟩ :: rest)) p := by
  have hplace : p.place t = .readying waker :=
    (h.readying waker t).2 (by simp [hpending])
  have hthread : ∀ u, (({ s with rrCpu := rr }.setThread t k).setPending waker
      (⟨t, some target⟩ :: rest)).thread u = if u = t then k else s.thread u := by
    intro u
    simp only [Sched.setPending, Sched.setThread, Function.update_apply]
  have hpend : ∀ u, (({ s with rrCpu := rr }.setThread t k).setPending waker
      (⟨t, some target⟩ :: rest)).pending u =
        if u = waker then ⟨t, some target⟩ :: rest else s.pending u := by
    intro u
    simp only [Sched.setPending, Sched.setThread, Function.update_apply]
  have hmap : ∀ u, ((({ s with rrCpu := rr }.setThread t k).setPending waker
      (⟨t, some target⟩ :: rest)).pending u).map Readying.thread =
        (s.pending u).map Readying.thread := by
    intro u
    rw [hpend]
    split
    · subst_vars
      simp [hpending]
    · rfl
  refine ⟨h.lists, h.running, h.current, h.queued, h.queue_online, fun u => ?_, fun u v => ?_,
    fun u => ?_, fun u r hr c hc => ?_, fun u hu => ?_, fun u hu => ?_, fun u hu => ?_,
    fun c hc => ?_, fun c hc => ?_, fun u hu => ?_, fun n hn => ?_, h.boot⟩
  · rw [hthread]
    have := h.waiting u
    grind
  · rw [hmap]
    exact h.readying u v
  · rw [hmap]
    exact h.pending_nodup u
  · rw [hpend] at hr
    split at hr
    · subst_vars
      rcases List.mem_cons.1 hr with rfl | hr
      · obtain rfl := Option.some.inj hc
        exact ⟨htarget, by simp [hthread, hstate]⟩
      · obtain ⟨hon, hnew⟩ := h.target _ r (hpending ▸ List.mem_cons_of_mem _ hr) c hc
        refine ⟨hon, ?_⟩
        rw [hthread]
        grind
    · obtain ⟨hon, hnew⟩ := h.target u r hr c hc
      refine ⟨hon, ?_⟩
      rw [hthread]
      grind
  · rw [hthread]
    have := h.out u hu
    grind
  · rw [hthread] at hu
    have := h.new u
    grind
  · rw [hthread] at hu
    have := h.terminated u
    grind
  · obtain ⟨hidle, hstate', hplace'⟩ := h.idle c hc
    refine ⟨hidle, ?_, hplace'⟩
    rw [hthread, if_neg (by grind)]
    exact hstate'
  · rw [hthread, if_neg]
    · exact h.asleep c hc
    · have := (h.asleep c hc).1
      grind
  · have hsame : (if u = t then k else s.thread u).cpuAffinity = (s.thread u).cpuAffinity := by grind
    unfold AffinityOk
    rw [hthread, hsame]
    exact h.affinity u hu
  · rw [hthread, if_neg]
    · exact h.uncreated n hn
    · have := (h.uncreated n hn).1
      grind

theorem readyMark_place (h : Represents s p) {waker : Tid} {rest : List Readying}
    (hpending : s.pending waker = ⟨t, none⟩ :: rest) :
    ∃ s' target, readyMark waker s = some s' ∧ s.online target = true ∧ Represents s' p ∧ Keeps s s' ∧
      s'.pending = Function.update s.pending waker (⟨t, some target⟩ :: rest) ∧ s'.prcb = s.prcb ∧
      (∀ u, u ≠ t → s'.thread u = s.thread u) ∧
      (s'.thread t).waitObject = (s.thread t).waitObject ∧ (s'.thread t).state = .ready := by
  have hplace : p.place t = .readying waker :=
    (h.readying waker t).2 (by simp [hpending])
  have htarget := readyTarget_online h (h.affinity t (by rw [hplace]; simp))
  obtain ⟨rr, hrr⟩ : ∃ rr, (readyTarget t s).2 = { s with rrCpu := rr } := by
    unfold readyTarget
    simp only
    split
    · exact ⟨_, rfl⟩
    · exact ⟨s.rrCpu, rfl⟩
  unfold readyMark
  rw [hpending]
  simp only [hrr]
  refine ⟨_, (readyTarget t s).1, rfl, htarget, readyMark_repr h hpending rfl rfl htarget,
    fun u hterm => ⟨?_, fun c hc => hc⟩, rfl, rfl, fun u hu => ?_, ?_, ?_⟩
  · have hne : u ≠ t := by
      rintro rfl
      have := h.terminated u hterm
      rw [hplace] at this
      simp at this
    simpa [Sched.setPending, Sched.setThread, hne] using hterm
  · simp [Sched.setPending, Sched.setThread, hu]
  · simp [Sched.setPending, Sched.setThread]
  · simp [Sched.setPending, Sched.setThread]

theorem readyMark_pending {waker : Tid} (hrun : readyMark waker s = some s') :
    ∃ t rest, s.pending waker = ⟨t, none⟩ :: rest := by
  unfold readyMark at hrun
  split at hrun
  case h_1 t rest hpending => exact ⟨t, rest, hpending⟩
  case h_2 => cases hrun

theorem readyMark_spec (h : Represents s p) {waker : Tid} (hrun : readyMark waker s = some s') :
    (∃ p', Represents s' p') ∧ Keeps s s' := by
  obtain ⟨t, rest, hpending⟩ := readyMark_pending hrun
  obtain ⟨s₁, target, hrun₁, -, hrepr, hkeeps, -⟩ := readyMark_place h hpending
  obtain rfl := Option.some.inj (hrun₁.symm.trans hrun)
  exact ⟨⟨p, hrepr⟩, hkeeps⟩

/-- A thread on no processor moves into a ready queue or into somebody's calls. -/
theorem Represents.relocate (h : Represents s p) {p' : Placement} {pl : Place}
    (hlists : Lists s'.links s.online p'.queue p'.waitList)
    (hplace : ∀ u, p'.place u = if u = t then pl else p.place u)
    (hpl : (∃ c, pl = .queued c ∧ s.online c = true) ∨ ∃ u, pl = .readying u)
    (hoff : ∀ c, p.place t ≠ .current c) (hidle : ∀ c, s.online c = true → t ≠ .idle c)
    (hterm : (s.thread t).state ≠ .terminated)
    (hstate : (s'.thread t).state = (s.thread t).state)
    (hnew : (s.thread t).state = .new → ∃ u, pl = .readying u)
    (hidleout : ∀ c, s.online c = false → t ≠ .idle c) (hmade : ∀ n, s.created ≤ n → t ≠ .worker n)
    (hthread : ∀ u, u ≠ t → s'.thread u = s.thread u)
    (haff : (s'.thread t).cpuAffinity = (s.thread t).cpuAffinity) (hok : AffinityOk s t)
    (hprcb : s'.prcb = s.prcb) (hcreated : s'.created = s.created)
    (hqueue : ∀ c u, u ∈ p'.queue c ↔ if u = t then pl = .queued c else u ∈ p.queue c)
    (hwait : ∀ u, u ∈ p'.waitList ↔ u ≠ t ∧ u ∈ p.waitList)
    (hpend : ∀ w u, u ∈ (s'.pending w).map Readying.thread ↔
      if u = t then pl = .readying w else u ∈ (s.pending w).map Readying.thread)
    (hnodup : ∀ w, ((s'.pending w).map Readying.thread).Nodup)
    (htarget : ∀ w, ∀ r ∈ s'.pending w, r ∈ s.pending w ∨ r.target = none) : Represents s' p' := by
  have hon : s'.online = s.online := by
    unfold Sched.online
    rw [hprcb]
  have hcur : s'.current = s.current := by
    unfold Sched.current
    rw [hprcb]
  constructor
  · rw [hon]
    exact hlists
  · rw [hon, hcur]
    exact h.running
  · intro c u
    rw [hon, hcur, hplace]
    have := h.current c u
    grind
  · intro c u
    rw [hplace, hqueue]
    have := h.queued c u
    grind
  · intro c u hu
    rw [hqueue] at hu
    rw [hon]
    have := h.queue_online c u
    grind
  · intro u
    rw [hwait, hplace]
    have := h.waiting u
    grind
  · intro u v
    rw [hplace, hpend]
    have := h.readying u v
    grind
  · exact hnodup
  · intro u r hr c hc
    rw [hon]
    rcases htarget u r hr with hold | hnone
    · obtain ⟨hc', hold'⟩ := h.target u r hold c hc
      refine ⟨hc', ?_⟩
      by_cases hrt : r.thread = t
      · rw [hrt, hstate, ← hrt]
        exact hold'
      · rw [hthread _ hrt]
        exact hold'
    · rw [hnone] at hc
      cases hc
  · intro u hu
    rw [hplace] at hu
    have := h.out u
    grind
  · intro u hu
    rw [hplace]
    have := h.new u
    grind
  · intro u hu
    rw [hplace]
    have := h.terminated u
    grind
  · intro c hc
    rw [hon] at hc
    rw [hplace, hprcb, if_neg (hidle c hc).symm, hthread _ (hidle c hc).symm]
    exact h.idle c hc
  · intro c hc
    rw [hon] at hc
    rw [hplace, if_neg (hidleout c hc).symm, hthread _ (hidleout c hc).symm]
    exact h.asleep c hc
  · intro u hu
    rw [hplace] at hu
    unfold AffinityOk
    rw [hon]
    by_cases heq : u = t
    · subst heq
      rw [haff]
      exact hok
    · rw [hthread u heq]
      exact h.affinity u (by simpa [heq] using hu)
  · intro n hn
    rw [hcreated] at hn
    rw [hplace, if_neg (hmade n hn).symm, hthread _ (hmade n hn).symm]
    exact h.uncreated n hn
  · rw [hon]
    exact h.boot

/-- A thread with a place among the lists is neither an idle thread nor finished. -/
theorem Represents.off_processor (h : Represents s p) (hout : p.place t ≠ .out)
    (hcur : ∀ c, p.place t ≠ .current c) (hq : ∀ c, p.place t ≠ .queued c) :
    (∀ c, s.online c = true → t ≠ .idle c) ∧ (s.thread t).state ≠ .terminated ∧
      (∀ c, s.online c = false → t ≠ .idle c) ∧ (∀ n, s.created ≤ n → t ≠ .worker n) ∧
      AffinityOk s t := by
  refine ⟨?_, ?_, ?_, ?_, h.affinity t hout⟩
  · rintro c hc rfl
    rcases (h.idle c hc).2.2 with hp | hp
    · exact hcur c hp
    · exact hq c hp
  · intro hterm
    rcases h.terminated t hterm with hp | ⟨c, hp⟩
    · exact hout hp
    · exact hcur c hp
  · rintro c hc rfl
    exact hout (h.asleep c hc).1
  · rintro n hn rfl
    exact hout (h.uncreated n hn).1

theorem readyInsert_place (h : Represents s p) {waker : Tid} {target : Nat} {rest : List Readying}
    (hpending : s.pending waker = ⟨t, some target⟩ :: rest) :
    ∃ s', readyInsert waker s = some s' ∧
      Represents s' ⟨Function.update p.place t (.queued target),
        Function.update p.queue target (p.queue target ++ [t]), p.waitList⟩ ∧
      s'.pending = Function.update s.pending waker rest ∧ s'.prcb = s.prcb ∧ s'.thread = s.thread := by
  have hplace : p.place t = .readying waker := (h.readying waker t).2 (by simp [hpending])
  obtain ⟨hon, hnew⟩ := h.target waker ⟨t, some target⟩ (hpending ▸ List.mem_cons_self) target rfl
  have hfresh : ∀ c, t ∉ p.queue c := h.not_queued (by simp [hplace])
  obtain ⟨links, hinsert, hlists⟩ := h.lists.push hon hfresh
  obtain ⟨hidle, hterm, hasleep, hmade, hok⟩ :=
    h.off_processor (t := t) (by simp [hplace]) (by simp [hplace]) (by simp [hplace])
  unfold readyInsert
  rw [hpending]
  simp only [hinsert, Option.map_some, Option.some.injEq, exists_eq_left']
  have hnodup := h.pending_nodup waker
  rw [hpending, List.map_cons, List.nodup_cons] at hnodup
  refine ⟨?_, rfl, rfl, rfl⟩
  apply h.relocate (t := t) hlists (fun u => Function.update_apply ..)
  · exact .inl ⟨target, rfl, hon⟩
  · simp [hplace]
  · exact hidle
  · exact hterm
  · rfl
  · exact fun hn => absurd hn hnew
  · exact hasleep
  · exact hmade
  · exact fun _ _ => rfl
  · rfl
  · exact hok
  · rfl
  · rfl
  · intro c u
    simp only [Function.update_apply]
    have := hfresh c
    grind
  · intro u
    have := (h.waiting t).1
    grind
  · intro w u
    have := h.readying w t
    simp only [Sched.setPending, Function.update_apply]
    grind
  · intro w
    have := h.pending_nodup w
    simp only [Sched.setPending, Function.update_apply]
    grind
  · intro w r hr
    simp only [Sched.setPending, Function.update_apply] at hr
    grind

theorem readyInsert_pending {waker : Tid} (hrun : readyInsert waker s = some s') :
    ∃ t target rest, s.pending waker = ⟨t, some target⟩ :: rest := by
  unfold readyInsert at hrun
  split at hrun
  case h_1 t target rest hpending => exact ⟨t, target, rest, hpending⟩
  case h_2 => cases hrun

theorem readyInsert_spec (h : Represents s p) {waker : Tid} (hrun : readyInsert waker s = some s') :
    (∃ p', Represents s' p') ∧ Keeps s s' := by
  obtain ⟨t, target, rest, hpending⟩ := readyInsert_pending hrun
  obtain ⟨s₁, hrun₁, hrepr, -, hprcb, hthread⟩ := readyInsert_place h hpending
  obtain rfl := Option.some.inj (hrun₁.symm.trans hrun)
  exact ⟨⟨_, hrepr⟩, Keeps.of_states (fun t => by rw [hthread]) hprcb⟩

/-- `ki_ready_thread` called for a thread that was created and never readied. -/
theorem Represents.readyThread_place (h : Represents s p) (caller : Tid) {n : Nat} (hworker : t = .worker n)
    (hn : n < s.created) (hnew : (s.thread t).state = .new)
    (hfree : ∀ u, ∀ r ∈ s.pending u, r.thread ≠ t) (hok : AffinityOk s t) :
    Represents (s.setPending caller (⟨t, none⟩ :: s.pending caller))
      { p with place := Function.update p.place t (.readying caller) } := by
  have hnot : ∀ u, t ∉ (s.pending u).map Readying.thread := by
    intro u hu
    obtain ⟨r, hr, heq⟩ := List.mem_map.1 hu
    exact hfree u r hr heq
  have hplace : p.place t = .out := by
    rcases h.new t hnew with hp | ⟨u, hp⟩
    · exact hp
    · exact absurd ((h.readying u t).1 hp) (hnot u)
  apply h.relocate (t := t)
  · exact h.lists
  · exact fun u => Function.update_apply ..
  · exact .inr ⟨caller, rfl⟩
  · simp [hplace]
  · simp [hworker]
  · simp [hnew]
  · rfl
  · exact fun _ => ⟨caller, rfl⟩
  · simp [hworker]
  · rintro m hm rfl
    cases hworker
    omega
  · exact fun _ _ => rfl
  · rfl
  · exact hok
  · rfl
  · rfl
  · intro c u
    have := h.queued c t
    grind
  · intro u
    have := h.waiting t
    grind
  · intro w u
    have := hnot w
    simp only [Sched.setPending, Function.update_apply]
    grind
  · intro w
    have := hnot w
    have := h.pending_nodup w
    simp only [Sched.setPending, Function.update_apply]
    grind
  · intro w r hr
    simp only [Sched.setPending, Function.update_apply] at hr
    grind

theorem Represents.readyThread (h : Represents s p) {caller : Tid} {n : Nat} (hworker : t = .worker n)
    (hn : n < s.created) (hnew : (s.thread t).state = .new)
    (hfree : ∀ u, ∀ r ∈ s.pending u, r.thread ≠ t) (hok : AffinityOk s t) :
    ∃ p', Represents (s.setPending caller (⟨t, none⟩ :: s.pending caller)) p' :=
  ⟨_, h.readyThread_place caller hworker hn hnew hfree hok⟩

/-! ## Waiting -/

/-- The batch a waker has collected, in front of what it had to do before. -/
def withBatch (s : Sched) (waker : Tid) (batch : List Tid) (old : List Readying) : Sched :=
  s.setPending waker ((batch.map fun t => ⟨t, none⟩) ++ old)

/-- One waiter is taken out of the wait list. -/
theorem Represents.takeWaiter {waker : Tid} {batch : List Tid} {old : List Readying}
    (h : Represents (withBatch s waker batch old) p) {kept rest : List Tid}
    (hwaitList : p.waitList = kept ++ t :: rest) (hplace : p.place t = .waiting) :
    ∃ links p', s.links.unlink (.waitLink t) = some links ∧ p'.waitList = kept ++ rest ∧
      p'.queue = p.queue ∧ (∀ u, u ≠ t → p'.place u = p.place u) ∧
      Represents (withBatch ({ s with links := links }.setThread t { s.thread t with waitObject := 0 })
        waker (batch ++ [t]) old) p' := by
  have hlists := h.lists
  rw [hwaitList] at hlists
  obtain ⟨links, hunlink, hlists'⟩ := hlists.unlink
  have hnodup : (kept ++ t :: rest).Nodup := by
    have := (List.nodup_cons.1 h.lists.wait.nodup).2
    rw [hwaitList] at this
    exact List.Nodup.of_map _ this
  obtain ⟨hidle, hterm, hasleep, hmade, hok⟩ :=
    h.off_processor (t := t) (by simp [hplace]) (by simp [hplace]) (by simp [hplace])
  have hwaiting : (s.thread t).state ≠ .new := by
    intro hn
    have := h.new t hn
    rw [hplace] at this
    simp at this
  refine ⟨links, ⟨Function.update p.place t (.readying waker), p.queue, kept ++ rest⟩, hunlink, rfl,
    rfl, fun u hu => Function.update_of_ne hu .., ?_⟩
  apply h.relocate (t := t) hlists' (fun u => Function.update_apply ..)
  · exact .inr ⟨waker, rfl⟩
  · simp [hplace]
  · exact hidle
  · exact hterm
  · simp [withBatch, Sched.setPending, Sched.setThread]
  · exact fun _ => ⟨waker, rfl⟩
  · exact hasleep
  · exact hmade
  · intro u hu
    simp [withBatch, Sched.setPending, Sched.setThread, hu]
  · simp [withBatch, Sched.setPending, Sched.setThread]
  · exact hok
  · rfl
  · rfl
  · intro c u
    have := h.queued c t
    grind
  · intro u
    rw [hwaitList]
    grind
  · intro w u
    have := h.readying w t
    simp only [withBatch, Sched.setPending, Sched.setThread, Function.update_apply] at this ⊢
    grind
  · intro w
    have hw := h.pending_nodup w
    have := h.readying w t
    simp only [withBatch, Sched.setPending, Sched.setThread, Function.update_apply] at hw this ⊢
    grind
  · intro w r hr
    simp only [withBatch, Sched.setPending, Sched.setThread, Function.update_apply] at hr ⊢
    grind

/-- More fuel does not change what the walk finds. -/
theorem kiWakeLoop_mono {obj : Nat} {wakeAll : Bool} {fuel more n : Nat} {e : Option Node}
    {r : List Tid × Sched} (hrun : kiWakeLoop obj wakeAll fuel e n s = some r) :
    kiWakeLoop obj wakeAll (fuel + more) e n s = some r := by
  induction fuel generalizing e n s r with
  | zero => simp [kiWakeLoop] at hrun
  | succ fuel ih =>
    rw [Nat.add_right_comm]
    unfold kiWakeLoop at hrun ⊢
    cases e with
    | none => exact hrun
    | some node =>
      cases node with
      | waitHead => exact hrun
      | readyLink u => exact hrun
      | readyHead c => exact hrun
      | waitLink u =>
        simp only at hrun ⊢
        split at hrun
        · rename_i hfull
          rw [if_pos hfull]
          exact hrun
        · rename_i hfull
          rw [if_neg hfull]
          split at hrun
          · rename_i hobj
            rw [if_pos hobj]
            cases hunlink : s.links.unlink (.waitLink u) with
            | none => simp [hunlink] at hrun
            | some links =>
              simp only [hunlink, Option.bind_some] at hrun ⊢
              cases wakeAll with
              | false => exact hrun
              | true =>
                simp only [if_true] at hrun ⊢
                obtain ⟨r', hr', heq⟩ := Option.map_eq_some_iff.1 hrun
                rw [ih hr', Option.map_some, heq]
          · rename_i hobj
            rw [if_neg hobj]
            exact ih hrun

theorem kiWake_mono {obj : Nat} {wakeAll : Bool} {fuel more : Nat}
    (hrun : kiWake fuel cpu obj wakeAll s = some s') :
    kiWake (fuel + more) cpu obj wakeAll s = some s' := by
  unfold kiWake at hrun ⊢
  obtain ⟨waker, hcur, hrest⟩ := Option.bind_eq_some_iff.1 hrun
  obtain ⟨r, hloop, heq⟩ := Option.map_eq_some_iff.1 hrest
  rw [hcur, Option.bind_some, kiWakeLoop_mono hloop, Option.map_some, heq]

/-- How many more waiters a walk that has `n` in its batch may take. -/
def wakeBudget (wakeAll : Bool) (n : Nat) : Nat := if wakeAll then 16 - n else min 1 (16 - n)

def waitsOn (s : Sched) (obj : Nat) (t : Tid) : Bool := (s.thread t).waitObject = obj

/-- The waiters of `obj` that a walk over `l` takes, and the ones it leaves. -/
def takeWaiters (s : Sched) (obj m : Nat) (l : List Tid) : List Tid × List Tid :=
  takeUpTo (waitsOn s obj) m l

/-- The walk over what is left of the wait list ends, and moves every waiter it takes into
the batch. -/
theorem kiWakeLoop_spec {obj : Nat} (wakeAll : Bool) {waker : Tid} {old : List Readying}
    (rest : List Tid) {kept batch : List Tid} (n : Nat) {fuel : Nat} (hfuel : rest.length < fuel)
    (h : Represents (withBatch s waker batch old) p) (hlist : p.waitList = kept ++ rest)
    (hasleep : ∀ t ∈ rest, (s.thread t).waitObject = obj → p.place t = .waiting) :
    ∃ more s' p', kiWakeLoop obj wakeAll fuel (some ((rest.map Node.waitLink).headD .waitHead)) n s =
        some (more, s') ∧ Represents (withBatch s' waker (batch ++ more) old) p' ∧
      s'.prcb = s.prcb ∧ (∀ t, (s'.thread t).state = (s.thread t).state) ∧ s'.pending = s.pending ∧
      more = (takeWaiters s obj (wakeBudget wakeAll n) rest).1 ∧
      p'.waitList = kept ++ (takeWaiters s obj (wakeBudget wakeAll n) rest).2 ∧ p'.queue = p.queue ∧
      ∀ t, t ∉ more → (s'.thread t).waitObject = (s.thread t).waitObject := by
  induction rest generalizing s p kept batch n fuel with
  | nil =>
    obtain ⟨k, rfl⟩ : ∃ k, fuel = k + 1 := ⟨fuel - 1, by simp at hfuel; omega⟩
    exact ⟨[], s, p, rfl, by simpa using h, rfl, fun _ => rfl, rfl, by simp [takeWaiters],
      by simpa [takeWaiters] using hlist, rfl, fun _ _ => rfl⟩
  | cons t rest ih =>
    obtain ⟨k, rfl⟩ : ∃ k, fuel = k + 1 := ⟨fuel - 1, by simp at hfuel; omega⟩
    have hfuel' : rest.length < k := by simpa using hfuel
    have hnext : s.links.next (.waitLink t) = some ((rest.map Node.waitLink).headD .waitHead) := by
      have hring := h.lists.wait
      rw [hlist, List.map_append, List.map_cons] at hring
      exact hring.next_entry
    simp only [List.map_cons, List.headD_cons]
    unfold kiWakeLoop
    by_cases hfull : 16 ≤ n
    · have hzero : wakeBudget wakeAll n = 0 := by
        unfold wakeBudget
        cases wakeAll <;> simp [Nat.sub_eq_zero_of_le hfull]
      exact ⟨[], s, p, if_pos hfull, by simpa using h, rfl, fun _ => rfl, rfl,
        by simp [takeWaiters, hzero], by simpa [takeWaiters, hzero] using hlist, rfl, fun _ _ => rfl⟩
    · simp only [if_neg hfull]
      by_cases hobj : (s.thread t).waitObject = obj
      · have hmatch : waitsOn s obj t = true := by simpa [waitsOn] using hobj
        rw [if_pos hobj]
        obtain ⟨links, p₁, hunlink, hlist₁, hqueue₁, hplace₁, h₁⟩ :=
          h.takeWaiter hlist (hasleep t List.mem_cons_self hobj)
        rw [hunlink, Option.bind_some]
        cases wakeAll with
        | false =>
          have hone : takeWaiters s obj (wakeBudget false n) (t :: rest) = ([t], rest) := by
            have hbudget : wakeBudget false n = 0 + 1 := by
              simp only [wakeBudget, Bool.false_eq_true, if_false]
              omega
            rw [hbudget, takeWaiters, takeUpTo_match hmatch, takeUpTo_zero]
          rw [hone]
          refine ⟨[t], _, p₁, rfl, h₁, rfl, fun u => ?_, rfl, rfl, hlist₁, hqueue₁, fun u hu => ?_⟩
          · simp only [Sched.setThread, Function.update_apply]
            grind
          · have hne : u ≠ t := by simpa using hu
            simp [Sched.setThread, hne]
        | true =>
          have hnodup : (kept ++ t :: rest).Nodup := by
            have := (List.nodup_cons.1 h.lists.wait.nodup).2
            rw [hlist] at this
            exact List.Nodup.of_map _ this
          have hfresh : t ∉ rest := by
            rw [List.nodup_append] at hnodup
            exact (List.nodup_cons.1 hnodup.2.1).1
          have hobject : ∀ u, u ≠ t → (({ s with links := links }.setThread t
              { s.thread t with waitObject := 0 }).thread u).waitObject = (s.thread u).waitObject :=
            fun u hu => by simp [Sched.setThread, hu]
          have hasleep₁ : ∀ u ∈ rest, ((({ s with links := links }.setThread t
              { s.thread t with waitObject := 0 }).thread u).waitObject = obj) →
                p₁.place u = .waiting := by
            intro u hu hwait
            have hne : u ≠ t := fun heq => hfresh (heq ▸ hu)
            rw [hplace₁ u hne]
            apply hasleep u (List.mem_cons_of_mem t hu)
            rwa [hobject u hne] at hwait
          obtain ⟨more, s', p', hrun, h', hprcb, hstate, hpending, hmore, hkept, hqueue, hsame⟩ :=
            ih (n + 1) hfuel' h₁ hlist₁ hasleep₁
          have hrest : takeWaiters ({ s with links := links }.setThread t
              { s.thread t with waitObject := 0 }) obj (wakeBudget true (n + 1)) rest =
                takeWaiters s obj (wakeBudget true (n + 1)) rest := by
            apply takeUpTo_congr
            intro u hu
            unfold waitsOn
            rw [hobject u fun heq => hfresh (heq ▸ hu)]
          have htake : takeWaiters s obj (wakeBudget true n) (t :: rest) =
              (t :: (takeWaiters s obj (wakeBudget true (n + 1)) rest).1,
                (takeWaiters s obj (wakeBudget true (n + 1)) rest).2) := by
            have hbudget : wakeBudget true n = wakeBudget true (n + 1) + 1 := by
              simp only [wakeBudget, if_true]
              omega
            rw [hbudget, takeWaiters, takeUpTo_match hmatch]
            rfl
          rw [hrest] at hmore hkept
          refine ⟨t :: more, s', p', ?_, by simpa using h', hprcb, fun u => ?_, hpending, ?_, ?_,
            hqueue.trans hqueue₁, fun u hu => ?_⟩
          · rw [if_pos rfl, hnext, hrun, Option.map_some]
          · rw [hstate]
            simp only [Sched.setThread, Function.update_apply]
            grind
          · rw [htake, hmore]
          · rw [htake, hkept]
          · rw [List.mem_cons, not_or] at hu
            rw [hsame u hu.2, hobject u hu.1]
      · have hpass : waitsOn s obj t = false := by simpa [waitsOn] using hobj
        rw [if_neg hobj, hnext]
        have hlist' : p.waitList = (kept ++ [t]) ++ rest := by simpa using hlist
        obtain ⟨more, s', p', hrun, h', hprcb, hstate, hpending, hmore, hkept, hqueue, hsame⟩ :=
          ih n hfuel' h hlist' fun u hu hwait => hasleep u (List.mem_cons_of_mem t hu) hwait
        refine ⟨more, s', p', hrun, h', hprcb, hstate, hpending, ?_, ?_, hqueue, hsame⟩
        · rw [hmore, takeWaiters, takeWaiters, takeUpTo_pass hpass]
        · rw [hkept, takeWaiters, takeWaiters, takeUpTo_pass hpass, List.append_assoc]
          rfl

/-- What `ki_wake` does besides the wait list. -/
structure Woken (s s' : Sched) (p p' : Placement) (waker : Tid) (obj : Nat) (wakeAll : Bool) : Prop where
  repr : Represents s' p'
  prcb : s'.prcb = s.prcb
  state : ∀ t, (s'.thread t).state = (s.thread t).state
  pending : s'.pending = Function.update s.pending waker
    (((takeWaiters s obj (wakeBudget wakeAll 0) p.waitList).1.map fun t => ⟨t, none⟩) ++ s.pending waker)
  waitList : p'.waitList = (takeWaiters s obj (wakeBudget wakeAll 0) p.waitList).2
  queue : p'.queue = p.queue
  waitObject : ∀ t, t ∉ (takeWaiters s obj (wakeBudget wakeAll 0) p.waitList).1 →
    (s'.thread t).waitObject = (s.thread t).waitObject

/-- The walk of `ki_wake` ends, and it takes the first waiters of an object no thread is
about to sleep on. -/
theorem kiWake_woken (h : Represents s p) {obj : Nat} (wakeAll : Bool)
    (hasleep : ∀ c t, s.online c = true → s.current c = some t →
      (s.thread t).state = .waiting → (s.thread t).waitObject ≠ obj) {waker : Tid}
    (hcur : s.current cpu = some waker) :
    ∃ s' p', Woken s s' p p' waker obj wakeAll ∧
      ∀ fuel, p.waitList.length < fuel → kiWake fuel cpu obj wakeAll s = some s' := by
  have h' : Represents (withBatch s waker [] (s.pending waker)) p := by
    have hsame : withBatch s waker [] (s.pending waker) = s := by
      simp [withBatch, Sched.setPending]
    rwa [hsame]
  have hplace : ∀ t ∈ p.waitList, (s.thread t).waitObject = obj → p.place t = .waiting := by
    intro t ht hobj
    rcases (h.waiting t).1 ht with hp | ⟨⟨c, hp⟩, hstate⟩
    · exact hp
    · exact absurd hobj (hasleep c t ((h.current c t).1 hp).1 ((h.current c t).1 hp).2 hstate)
  have hfirst : s.links.next .waitHead = some ((p.waitList.map Node.waitLink).headD .waitHead) :=
    h.lists.wait.next_head
  obtain ⟨more, s₁, p', hloop, hrepr, hprcb, hstate, hpending, hmore, hkept, hqueue, hsame⟩ :=
    kiWakeLoop_spec wakeAll p.waitList 0 (Nat.lt_succ_self _) h' (List.nil_append _).symm hplace
  rw [← hfirst] at hloop
  refine ⟨withBatch s₁ waker ([] ++ more) (s.pending waker), p', ⟨hrepr, hprcb, hstate, ?_, hkept, hqueue, ?_⟩,
    fun fuel hfuel => ?_⟩
  · rw [← hmore, ← hpending]
    rfl
  · rw [← hmore]
    exact hsame
  · obtain ⟨extra, rfl⟩ := Nat.exists_eq_add_of_le hfuel
    rw [kiWake, hcur, Option.bind_some, kiWakeLoop_mono hloop, Option.map_some, ← hpending]
    rfl

/-- `ki_wake` of an object no thread is about to sleep on. -/
theorem kiWake_spec (h : Represents s p) {obj fuel : Nat} {wakeAll : Bool}
    (hasleep : ∀ c t, s.online c = true → s.current c = some t →
      (s.thread t).state = .waiting → (s.thread t).waitObject ≠ obj)
    (hrun : kiWake fuel cpu obj wakeAll s = some s') : (∃ p', Represents s' p') ∧ Keeps s s' := by
  cases hcur : s.current cpu with
  | none => simp [kiWake, hcur] at hrun
  | some waker =>
    obtain ⟨s₁, p₁, hwoken, hlong⟩ := kiWake_woken h wakeAll hasleep hcur
    have hsame := hlong (fuel + (p.waitList.length + 1)) (by omega)
    rw [kiWake_mono hrun, Option.some.injEq] at hsame
    subst hsame
    exact ⟨⟨p₁, hwoken.repr⟩, Keeps.of_states hwoken.state hwoken.prcb⟩

/-- The walk of `ki_wake` ends. -/
theorem kiWake_returns (h : Represents s p) {obj : Nat} (wakeAll : Bool)
    (hasleep : ∀ c t, s.online c = true → s.current c = some t →
      (s.thread t).state = .waiting → (s.thread t).waitObject ≠ obj) (hon : s.online cpu = true) :
    ∃ fuel s', kiWake fuel cpu obj wakeAll s = some s' := by
  obtain ⟨waker, hcur⟩ := h.running cpu hon
  obtain ⟨s', -, -, hlong⟩ := kiWake_woken h wakeAll hasleep hcur
  exact ⟨p.waitList.length + 1, s', hlong _ (Nat.lt_succ_self _)⟩

/-- The current thread of a processor falls asleep or terminates. -/
theorem Represents.stop (h : Represents s p) (s' : Sched) {waitList : List Tid} (hon : s.online cpu = true)
    (hcur : s.current cpu = some cur) (hidle : cur ≠ .idle cpu)
    (hrunning : (s.thread cur).state = .running)
    (hlists : Lists s'.links s.online p.queue waitList)
    (hstate : (s'.thread cur).state = .terminated ∧ waitList = p.waitList ∨
      (s'.thread cur).state = .waiting ∧ waitList = p.waitList ++ [cur])
    (hthread : ∀ u, u ≠ cur → s'.thread u = s.thread u)
    (haff : (s'.thread cur).cpuAffinity = (s.thread cur).cpuAffinity)
    (hprcb : s'.prcb = s.prcb) (hpending : s'.pending = s.pending)
    (hcreated : s'.created = s.created) :
    Represents s' { p with waitList := waitList } ∧ Keeps s s' := by
  have hplace : p.place cur = .current cpu := (h.current cpu cur).2 ⟨hon, hcur⟩
  have hon' : s'.online = s.online := by
    unfold Sched.online
    rw [hprcb]
  have hcur' : s'.current = s.current := by
    unfold Sched.current
    rw [hprcb]
  have hnotidle : ∀ c, s.online c = true → cur ≠ .idle c := by
    rintro c hc rfl
    rcases (h.idle c hc).2.2 with hp | hp
    · rw [hplace] at hp
      cases hp
      exact hidle rfl
    · rw [hplace] at hp
      cases hp
  refine ⟨?_, fun t hterm => ⟨?_, fun c hc => ?_⟩⟩
  · constructor
    · rw [hon']
      exact hlists
    · rw [hon', hcur']
      exact h.running
    · rw [hon', hcur']
      exact h.current
    · exact h.queued
    · rw [hon']
      exact h.queue_online
    · intro u
      have := h.waiting u
      by_cases heq : u = cur <;> grind
    · rw [hpending]
      exact h.readying
    · rw [hpending]
      exact h.pending_nodup
    · intro u r hr c hc
      rw [hpending] at hr
      rw [hon']
      obtain ⟨hc', hnew⟩ := h.target u r hr c hc
      refine ⟨hc', ?_⟩
      by_cases hrc : r.thread = cur
      · grind
      · rw [hthread _ hrc]
        exact hnew
    · intro u hu
      have := h.out u hu
      by_cases heq : u = cur <;> grind
    · intro u hu
      have := h.new u
      by_cases heq : u = cur <;> grind
    · intro u hu
      have := h.terminated u
      by_cases heq : u = cur <;> grind
    · intro c hc
      rw [hon'] at hc
      rw [hprcb, hthread _ (hnotidle c hc).symm]
      exact h.idle c hc
    · intro c hc
      rw [hon'] at hc
      have hne : Tid.idle c ≠ cur := by
        intro heq
        have := (h.asleep c hc).1
        rw [heq, hplace] at this
        cases this
      rw [hthread _ hne]
      exact h.asleep c hc
    · intro u hu
      unfold AffinityOk
      rw [hon']
      have hsame : (s'.thread u).cpuAffinity = (s.thread u).cpuAffinity := by
        by_cases heq : u = cur <;> grind
      rw [hsame]
      exact h.affinity u hu
    · intro n hn
      rw [hcreated] at hn
      have hne : Tid.worker n ≠ cur := by
        intro heq
        have := (h.uncreated n hn).1
        rw [heq, hplace] at this
        cases this
      rw [hthread _ hne]
      exact h.uncreated n hn
    · rw [hon']
      exact h.boot
  · have hne : t ≠ cur := by
      rintro rfl
      rw [hrunning] at hterm
      cases hterm
    rw [hthread t hne]
    exact hterm
  · rwa [hcur'] at hc

/-- The current thread of `cpu` goes to sleep at the end of the wait list. -/
theorem kiBlockCurrent_place (h : Represents s p) (obj : Nat) (hon : s.online cpu = true)
    (hcur : s.current cpu = some cur) (hidle : cur ≠ .idle cpu)
    (hrunning : (s.thread cur).state = .running) :
    ∃ s', kiBlockCurrent cpu obj s = some s' ∧
      Represents s' { p with waitList := p.waitList ++ [cur] } ∧ Keeps s s' ∧ s'.prcb = s.prcb ∧
      s'.pending = s.pending ∧ (∀ t, t ≠ cur → s'.thread t = s.thread t) ∧
      (s'.thread cur).waitObject = obj ∧ (s'.thread cur).state = .waiting := by
  have hfresh : cur ∉ p.waitList := by
    intro hmem
    have := (h.waiting cur).1 hmem
    rw [(h.current cpu cur).2 ⟨hon, hcur⟩, hrunning] at this
    simp at this
  obtain ⟨links, hinsert, hlists⟩ := h.lists.block hfresh
  simp only [kiBlockCurrent, hcur, hinsert, Option.map_some, Option.some.injEq, exists_eq_left']
  obtain ⟨hrepr, hkeeps⟩ := h.stop ({ s with links := links }.setThread cur
    { s.thread cur with waitObject := obj, state := .waiting }) hon hcur hidle hrunning hlists
    (.inr ⟨by simp [Sched.setThread], rfl⟩) (fun u hu => by simp [Sched.setThread, hu])
    (by simp [Sched.setThread]) rfl rfl rfl
  exact ⟨hrepr, hkeeps, rfl, rfl, fun t ht => by simp [Sched.setThread, ht],
    by simp [Sched.setThread], by simp [Sched.setThread]⟩

theorem kiBlockCurrent_spec (h : Represents s p) (obj : Nat) (hon : s.online cpu = true)
    (hcur : s.current cpu = some cur) (hidle : cur ≠ .idle cpu)
    (hrunning : (s.thread cur).state = .running) :
    ∃ s', kiBlockCurrent cpu obj s = some s' ∧ (∃ p', Represents s' p') ∧ Keeps s s' := by
  obtain ⟨s', hrun, hrepr, hkeeps, -⟩ := kiBlockCurrent_place h obj hon hcur hidle hrunning
  exact ⟨s', hrun, ⟨_, hrepr⟩, hkeeps⟩

theorem kiThreadExit_place (h : Represents s p) (hon : s.online cpu = true)
    (hcur : s.current cpu = some cur) (hidle : cur ≠ .idle cpu)
    (hrunning : (s.thread cur).state = .running) :
    Represents (kiThreadExit cpu s) p ∧ Keeps s (kiThreadExit cpu s) := by
  simp only [kiThreadExit, hcur]
  exact h.stop (s.setThread cur { s.thread cur with state := .terminated }) hon hcur hidle hrunning
    h.lists (.inl ⟨by simp [Sched.setThread], rfl⟩) (fun u hu => by simp [Sched.setThread, hu])
    (by simp [Sched.setThread]) rfl rfl rfl

theorem kiThreadExit_spec (h : Represents s p) (hon : s.online cpu = true)
    (hcur : s.current cpu = some cur) (hidle : cur ≠ .idle cpu)
    (hrunning : (s.thread cur).state = .running) :
    (∃ p', Represents (kiThreadExit cpu s) p') ∧ Keeps s (kiThreadExit cpu s) := by
  obtain ⟨hrepr, hkeeps⟩ := kiThreadExit_place h hon hcur hidle hrunning
  exact ⟨⟨p, hrepr⟩, hkeeps⟩

/-! ## New threads and processors -/

theorem zeroLinks_outside (L : Links Node) {x : Node} (h : x ≠ .readyLink t) (h' : x ≠ .waitLink t) :
    (zeroLinks L t).next x = L.next x ∧ (zeroLinks L t).prev x = L.prev x := by
  simp [zeroLinks, Links.setNext, Links.setPrev, h, h']

/-- The links of a thread in no list may be set to zero. -/
theorem Represents.zeroLinks (h : Represents s p) (ht : p.place t = .out) :
    Lists (zeroLinks s.links t) s.online p.queue p.waitList := by
  apply h.lists.congr
  intro x hready hwait
  apply zeroLinks_outside
  · rintro rfl
    obtain ⟨c, hc⟩ := hready t rfl
    rw [(h.queued c t).2 hc] at ht
    cases ht
  · rintro rfl
    rcases (h.waiting t).1 (hwait t rfl) with hp | ⟨⟨c, hp⟩, -⟩
    · rw [hp] at ht
      cases ht
    · rw [hp] at ht
      cases ht

theorem kiCreateThread_spec (h : Represents s p) (affinity : Int) :
    Represents (kiCreateThread affinity s) p ∧ Keeps s (kiCreateThread affinity s) := by
  obtain ⟨hout, hfresh⟩ := h.uncreated s.created (Nat.le_refl _)
  have hother : ∀ u, u ≠ .worker s.created →
      (kiCreateThread affinity s).thread u = s.thread u := fun u hu => Function.update_of_ne hu ..
  have hnew : ((kiCreateThread affinity s).thread (.worker s.created)).state = .new := by
    simp [kiCreateThread]
  have hpending : ∀ u, ∀ r ∈ s.pending u, r.thread ≠ .worker s.created := by
    intro u r hr heq
    have := (h.readying u r.thread).2 (List.mem_map_of_mem hr)
    rw [heq, hout] at this
    cases this
  refine ⟨⟨h.zeroLinks hout, h.running, h.current, h.queued, h.queue_online, fun u => ?_, h.readying,
    h.pending_nodup, fun u r hr c hc => ?_, fun u hu => ?_, fun u hu => ?_, fun u hu => ?_,
    fun c hc => ?_, fun c hc => ?_, fun u hu => ?_, fun n hn => ?_, h.boot⟩,
    fun u hterm => ⟨?_, fun c hc => hc⟩⟩
  · have := h.waiting u
    by_cases heq : u = .worker s.created <;> grind
  · obtain ⟨hon, hold⟩ := h.target u r hr c hc
    refine ⟨hon, ?_⟩
    rw [hother _ (hpending u r hr)]
    exact hold
  · have := h.out u hu
    by_cases heq : u = .worker s.created <;> grind
  · have := h.new u
    by_cases heq : u = .worker s.created <;> grind
  · have := h.terminated u
    by_cases heq : u = .worker s.created <;> grind
  · rw [hother _ (by simp)]
    exact h.idle c hc
  · rw [hother _ (by simp)]
    exact h.asleep c hc
  · have hne : u ≠ .worker s.created := by
      rintro rfl
      exact hu hout
    unfold AffinityOk
    rw [hother u hne]
    exact h.affinity u hu
  · have hle : s.created + 1 ≤ n := hn
    rw [hother _ (by simp; omega)]
    exact h.uncreated n (by omega)
  · have hne : u ≠ .worker s.created := by
      rintro rfl
      rw [hfresh] at hterm
      cases hterm
    rw [hother u hne]
    exact hterm

/-- The list heads of a processor that comes up. -/
theorem Represents.initLists (h : Represents s p) (hoff : s.online cpu = false) :
    Lists (MeuOS.Ke.zeroLinks (s.links.initHead (.readyHead cpu)) (.idle cpu))
      (Function.update s.online cpu true) p.queue p.waitList := by
  have hzero := h.zeroLinks (h.asleep cpu hoff).1
  have hframe : ∀ x, x ≠ .readyHead cpu →
      (MeuOS.Ke.zeroLinks (s.links.initHead (.readyHead cpu)) (.idle cpu)).next x =
        (MeuOS.Ke.zeroLinks s.links (.idle cpu)).next x ∧
      (MeuOS.Ke.zeroLinks (s.links.initHead (.readyHead cpu)) (.idle cpu)).prev x =
        (MeuOS.Ke.zeroLinks s.links (.idle cpu)).prev x := by
    intro x hx
    simp [MeuOS.Ke.zeroLinks, Links.initHead, Links.setNext, Links.setPrev, Function.update_apply, hx]
  have hempty : p.queue cpu = [] := by
    rw [List.eq_nil_iff_forall_not_mem]
    intro u hu
    have := h.queue_online cpu u hu
    rw [hoff] at this
    cases this
  refine ⟨fun c hc => ?_, ?_, hzero.apart⟩
  · by_cases heq : c = cpu
    · subst heq
      rw [hempty]
      apply (Links.ring_initHead s.links (.readyHead c)).congr
      · intro x hx
        rw [List.mem_singleton.1 hx]
        exact (zeroLinks_outside _ (by simp) (by simp)).1
      · intro x hx
        rw [List.mem_singleton.1 hx]
        exact (zeroLinks_outside _ (by simp) (by simp)).2
    · rw [Function.update_of_ne heq] at hc
      have hne : ∀ x ∈ Node.readyHead c :: (p.queue c).map Node.readyLink, x ≠ .readyHead cpu := by
        rintro x hx rfl
        simp [Ne.symm heq] at hx
      exact (hzero.ready c hc).congr (fun x hx => (hframe x (hne x hx)).1)
        fun x hx => (hframe x (hne x hx)).2
  · have hne : ∀ x ∈ Node.waitHead :: p.waitList.map Node.waitLink, x ≠ .readyHead cpu := by
      rintro x hx rfl
      simp at hx
    exact hzero.wait.congr (fun x hx => (hframe x (hne x hx)).1) fun x hx => (hframe x (hne x hx)).2

/-- A processor comes up with its idle thread on it. -/
theorem kiInitProcessor_spec (h : Represents s p) (hlt : cpu < maxCpus) (hoff : s.online cpu = false) :
    (∃ p', Represents (kiInitProcessor cpu s) p') ∧ Keeps s (kiInitProcessor cpu s) := by
  obtain ⟨hout, hfresh⟩ := h.asleep cpu hoff
  have hzero : cpu ≠ 0 := by
    rintro rfl
    rw [h.boot] at hoff
    cases hoff
  have hinit : kiInitProcessor cpu s = { s with
      links := MeuOS.Ke.zeroLinks (s.links.initHead (.readyHead cpu)) (.idle cpu)
      cpuCount := s.cpuCount + 1
      thread := Function.update s.thread (.idle cpu) ⟨.running, cpu, cpu, 0, quantumDefault⟩
      prcb := Function.update s.prcb cpu ⟨some (.idle cpu), some (.idle cpu), true⟩ } := by
    unfold kiInitProcessor
    rw [if_neg (by omega)]
    simp only [if_neg hzero]
  have hon' : (kiInitProcessor cpu s).online = Function.update s.online cpu true := by
    funext c
    rw [hinit]
    by_cases heq : c = cpu
    · subst heq
      simp [Sched.online]
    · simp [Sched.online, heq]
  have hcur' : ∀ c, (kiInitProcessor cpu s).current c =
      if c = cpu then some (.idle cpu) else s.current c := by
    intro c
    rw [hinit]
    by_cases heq : c = cpu
    · subst heq
      simp [Sched.current]
    · simp [Sched.current, heq]
  have hidle' : ∀ c, ((kiInitProcessor cpu s).prcb c).idleThread =
      if c = cpu then some (.idle cpu) else (s.prcb c).idleThread := by
    intro c
    rw [hinit]
    by_cases heq : c = cpu
    · subst heq
      simp
    · simp [heq]
  have hthread' : ∀ u, (kiInitProcessor cpu s).thread u =
      if u = .idle cpu then ⟨.running, cpu, cpu, 0, quantumDefault⟩ else s.thread u := by
    intro u
    rw [hinit]
    exact Function.update_apply ..
  have hpending : (kiInitProcessor cpu s).pending = s.pending := by rw [hinit]
  have hcreated : (kiInitProcessor cpu s).created = s.created := by rw [hinit]
  have hlinks : (kiInitProcessor cpu s).links =
      MeuOS.Ke.zeroLinks (s.links.initHead (.readyHead cpu)) (.idle cpu) := by rw [hinit]
  have hplace' : ∀ u, Function.update p.place (.idle cpu) (.current cpu) u =
      if u = .idle cpu then .current cpu else p.place u := fun u => Function.update_apply ..
  generalize kiInitProcessor cpu s = s' at *
  refine ⟨⟨{ p with place := Function.update p.place (.idle cpu) (.current cpu) }, ?_⟩,
    fun u hterm => ⟨?_, fun c hc => ?_⟩⟩
  · constructor
    · rw [hlinks, hon']
      exact h.initLists hoff
    · intro c hc
      rw [hon', Function.update_apply] at hc
      rw [hcur']
      split
      · exact ⟨_, rfl⟩
      · exact h.running c (by simpa [*] using hc)
    · intro c u
      simp only [hon', hcur', hplace', Function.update_apply]
      have := h.current c u
      grind
    · intro c u
      simp only [hplace']
      have := h.queued c u
      grind
    · intro c u hu
      have := h.queue_online c u hu
      rw [hon', Function.update_apply]
      grind
    · intro u
      simp only [hplace', hthread']
      have := h.waiting u
      grind
    · intro u v
      simp only [hplace', hpending]
      have := h.readying u v
      grind
    · rw [hpending]
      exact h.pending_nodup
    · intro u r hr c hc
      rw [hpending] at hr
      obtain ⟨hc', hnew⟩ := h.target u r hr c hc
      rw [hon', hthread', Function.update_apply]
      grind
    · intro u hu
      simp only [hplace'] at hu
      rw [hthread']
      have := h.out u
      grind
    · intro u hu
      rw [hthread'] at hu
      simp only [hplace']
      have := h.new u
      grind
    · intro u hu
      rw [hthread'] at hu
      simp only [hplace']
      have := h.terminated u
      grind
    · intro c hc
      rw [hon', Function.update_apply] at hc
      simp only [hidle', hthread', hplace']
      have := h.idle c
      grind
    · intro c hc
      rw [hon', Function.update_apply] at hc
      simp only [hthread', hplace']
      have := h.asleep c
      grind
    · intro u hu
      simp only [hplace'] at hu
      unfold AffinityOk
      rw [hon', hthread']
      have := h.affinity u
      unfold AffinityOk at this
      simp only [Function.update_apply]
      grind
    · intro n hn
      rw [hcreated] at hn
      simp only [hthread', hplace']
      have := h.uncreated n hn
      grind
    · rw [hon', Function.update_of_ne hzero.symm]
      exact h.boot
  · rw [hthread', if_neg]
    · exact hterm
    · rintro rfl
      rw [hfresh] at hterm
      cases hterm
  · rw [hcur'] at hc
    split at hc
    · obtain rfl := Option.some.inj hc
      rw [hfresh] at hterm
      cases hterm
    · exact hc

end MeuOS.Ke
