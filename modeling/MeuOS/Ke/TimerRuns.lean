import MeuOS.Ke.Timer
import MeuOS.Lib.Run

/-! Runs of the timer list. Between a timer's expiry and the end of its turn in the batch it
is in no list, and the tick will put it back whatever happens meanwhile. -/
namespace MeuOS.Ke

open MeuOS.Lib

/-- The tick is going to arm the timer again. -/
def Rearming (s : TimerSys) (t : Nat) : Prop := t ∈ s.firing ∧ 0 < (s.timer t).period

/-- A timer in the list is not initialised again, and while the tick has a timer in its batch
that timer is not armed to be periodic, and not cancelled when it is periodic. -/
def TimerStepOk (s : TimerSys) : TimerAction → Prop
  | .initTimer t _ => timerSet s.links t = false
  | .set t _ period _ => t ∈ s.firing → period ≤ 0
  | .cancel t => ¬Rearming s t
  | _ => True

instance (s : TimerSys) (a : TimerAction) : Decidable (TimerStepOk s a) :=
  match a with
  | .initTimer t _ => inferInstanceAs (Decidable (timerSet s.links t = false))
  | .set t _ period _ => inferInstanceAs (Decidable (t ∈ s.firing → period ≤ 0))
  | .cancel t => inferInstanceAs (Decidable (¬(t ∈ s.firing ∧ 0 < (s.timer t).period)))
  | .tickStart | .tickFire | .tickRearm => inferInstanceAs (Decidable True)

/-- A step there is something to do for. -/
def TimerCanStep (s : TimerSys) : TimerAction → Prop
  | .tickStart => s.firing = []
  | .tickFire => s.firing ≠ [] ∧ s.called = false
  | .tickRearm => s.firing ≠ [] ∧ s.called = true
  | _ => True

variable {s s' : TimerSys} {l : List Nat} {t : Nat} {L L' : Links TimerNode}

/-- Armed for good, or not at all, since the cancel `log` starts after. -/
def SinceCancel (t : Nat) (log : List TimerEvent) : Prop := ∀ b, .set t b ∉ log

/-- The list holds `l`, and no link says otherwise. -/
structure TimerList (L : Links TimerNode) (l : List Nat) : Prop where
  ring : L.Ring .head (l.map .entry)
  linked : ∀ t, L.next (.entry t) ≠ none ↔ t ∈ l

theorem TimerList.nodup (h : TimerList L l) : l.Nodup :=
  List.Nodup.of_map _ (List.nodup_cons.1 h.ring.nodup).2

theorem TimerList.timerSet_iff (h : TimerList L l) : timerSet L t = true ↔ t ∈ l := by
  rw [← h.linked t]
  unfold timerSet
  rw [Option.isSome_iff_ne_none]

theorem TimerList.timerSet_eq (h : TimerList L l) (t : Nat) : timerSet L t = decide (t ∈ l) := by
  by_cases ht : t ∈ l
  · rw [decide_eq_true ht, h.timerSet_iff]
    exact ht
  · rw [decide_eq_false ht, ← Bool.not_eq_true, h.timerSet_iff]
    exact ht

theorem TimerList.unlink (h : TimerList L l) (t : Nat) :
    ∃ L', timerUnlink L t = some L' ∧ TimerList L' (l.erase t) := by
  unfold timerUnlink
  cases hnext : L.next (.entry t) with
  | none =>
    have hout : t ∉ l := fun hmem => (h.linked t).2 hmem hnext
    exact ⟨L, rfl, by rw [List.erase_of_not_mem hout]; exact h⟩
  | some n =>
    have hmem : t ∈ l := (h.linked t).1 (by simp [hnext])
    obtain ⟨l₁, l₂, rfl⟩ := List.append_of_mem hmem
    have hnodup := h.nodup
    have hfree : t ∉ l₁ := by
      rw [List.nodup_append] at hnodup
      intro ht
      exact hnodup.2.2 t ht t List.mem_cons_self rfl
    have hring := h.ring
    rw [List.map_append, List.map_cons] at hring
    obtain ⟨L', hdetach, hring', hframe⟩ := hring.detach
    refine ⟨L'.setNext (.entry t) none, by rw [hdetach]; rfl, ?_⟩
    rw [List.erase_append_right _ hfree, List.erase_cons_head]
    have hmid := (List.nodup_cons.1 (List.nodup_middle.1 hnodup)).1
    have hne : ∀ x ∈ TimerNode.head :: (l₁ ++ l₂).map TimerNode.entry, x ≠ .entry t := by
      rintro x hx rfl
      apply hmid
      simpa using hx
    refine ⟨?_, fun u => ?_⟩
    · rw [← List.map_append] at hring'
      exact hring'.congr (fun x hx => Function.update_of_ne (hne x hx) ..) fun x hx => rfl
    · by_cases heq : u = t
      · subst heq
        simp only [Links.setNext, Function.update_self, ne_eq, not_true, false_iff]
        exact hmid
      · have hentry : TimerNode.entry u ≠ .entry t := by simpa using heq
        simp only [Links.setNext]
        rw [Function.update_of_ne hentry]
        have hkept : u ∈ l₁ ++ l₂ ↔ u ∈ l₁ ++ t :: l₂ := by simp [heq]
        by_cases hu : u ∈ l₁ ++ l₂
        · obtain ⟨a, b, hab⟩ := List.append_of_mem hu
          rw [← List.map_append, hab, List.map_append, List.map_cons] at hring'
          rw [hring'.next_entry]
          simp [hu]
        · have hout : u ∉ l₁ ++ t :: l₂ := fun hmem => hu (hkept.2 hmem)
          have hsame := (hframe (.entry u) (by simpa using hout)).1
          rw [hsame, h.linked u]
          exact ⟨fun hmem => absurd hmem hout, fun hmem => absurd hmem hu⟩

theorem TimerList.link (h : TimerList L l) (ht : t ∉ l) :
    ∃ L', timerLink L t = some L' ∧ TimerList L' (l ++ [t]) := by
  have hentry : TimerNode.entry t ∉ TimerNode.head :: l.map TimerNode.entry := by simpa using ht
  obtain ⟨L', hinsert, hring, hframe⟩ := h.ring.insertTail hentry
  have hring' : L'.Ring .head ((l ++ [t]).map .entry) := by simpa using hring
  refine ⟨L', hinsert, hring', fun u => ?_⟩
  by_cases hu : u ∈ l ++ [t]
  · obtain ⟨a, b, hab⟩ := List.append_of_mem hu
    have hring'' := hring'
    rw [hab, List.map_append, List.map_cons] at hring''
    rw [hring''.next_entry]
    simp [hu]
  · have hout : u ∉ l ∧ u ≠ t := by simpa using hu
    have hsame := (hframe (.entry u) (by simpa using hout.1) (by simpa using hout.2)).1
    rw [hsame, h.linked u]
    exact ⟨fun hmem => absurd hmem hout.1, fun hmem => absurd hmem hu⟩

/-- The batch is a part of the list, and what is left of the list is the rest. What is due is in
the batch, unless that is full. -/
theorem expireLoop_spec (timer : Nat → Ktimer) (ticks : Nat) (rest : List Nat) {kept : List Nat}
    (n : Nat) {fuel : Nat} (hfuel : rest.length < fuel) (h : TimerList L (kept ++ rest)) :
    ∃ batch L', expireLoop timer ticks fuel (some ((rest.map TimerNode.entry).headD .head)) n L =
        some (batch, L') ∧ batch.Nodup ∧ (∀ t ∈ batch, t ∈ rest ∧ (timer t).dueTime ≤ ticks) ∧
      ((∀ t ∈ rest, t ∉ batch → ticks < (timer t).dueTime) ∨ 16 ≤ n + batch.length) ∧
      ∃ l', TimerList L' l' ∧ ∀ t, t ∈ l' ↔ t ∈ kept ++ rest ∧ t ∉ batch := by
  induction rest generalizing kept n fuel L with
  | nil =>
    obtain ⟨k, rfl⟩ : ∃ k, fuel = k + 1 := ⟨fuel - 1, by simp at hfuel; omega⟩
    exact ⟨[], L, rfl, List.nodup_nil, by simp, .inl (by simp), _, h, by simp⟩
  | cons t rest ih =>
    obtain ⟨k, rfl⟩ : ∃ k, fuel = k + 1 := ⟨fuel - 1, by simp at hfuel; omega⟩
    have hfuel' : rest.length < k := by simpa using hfuel
    have hnext : L.next (.entry t) = some ((rest.map TimerNode.entry).headD .head) := by
      have hring := h.ring
      rw [List.map_append, List.map_cons] at hring
      exact hring.next_entry
    simp only [List.map_cons, List.headD_cons]
    unfold expireLoop
    by_cases hfull : 16 ≤ n
    · exact ⟨[], L, if_pos hfull, List.nodup_nil, by simp, .inr hfull, _, h, by simp⟩
    · simp only [if_neg hfull]
      rw [hnext]
      by_cases hdue : (timer t).dueTime ≤ ticks
      · rw [if_pos hdue]
        have hnodup := h.nodup
        have hfree : t ∉ kept := by
          rw [List.nodup_append] at hnodup
          intro ht
          exact hnodup.2.2 t ht t List.mem_cons_self rfl
        have hgone : t ∉ kept ++ rest := (List.nodup_cons.1 (List.nodup_middle.1 hnodup)).1
        obtain ⟨L₁, hunlink, h₁⟩ := h.unlink t
        rw [List.erase_append_right _ hfree, List.erase_cons_head] at h₁
        obtain ⟨batch, L', hrun, hbatch, hsub, hlate, l', hl', hmem⟩ := ih (n + 1) hfuel' h₁
        refine ⟨t :: batch, L', ?_, ?_, ?_, ?_, l', hl', fun u => ?_⟩
        · rw [hunlink, Option.bind_some, hrun]
          rfl
        · rw [List.nodup_cons]
          exact ⟨fun ht => hgone (List.mem_append_right _ (hsub t ht).1), hbatch⟩
        · intro u hu
          rcases List.mem_cons.1 hu with rfl | hu
          · exact ⟨List.mem_cons_self, hdue⟩
          · exact ⟨List.mem_cons_of_mem t (hsub u hu).1, (hsub u hu).2⟩
        · refine hlate.imp (fun hlate u hu hout => ?_) fun hmany => ?_
          · rcases List.mem_cons.1 hu with rfl | hu
            · exact absurd List.mem_cons_self hout
            · exact hlate u hu fun hin => hout (List.mem_cons_of_mem t hin)
          · rw [List.length_cons]
            omega
        · rw [hmem u]
          simp only [List.mem_append, List.mem_cons, not_or]
          constructor
          · rintro ⟨hu, hub⟩
            refine ⟨by tauto, fun heq => hgone ?_, hub⟩
            rw [← heq]
            exact List.mem_append.2 hu
          · tauto
      · rw [if_neg hdue]
        have h₁ : TimerList L ((kept ++ [t]) ++ rest) := by simpa using h
        obtain ⟨batch, L', hrun, hbatch, hsub, hlate, l', hl', hmem⟩ := ih n hfuel' h₁
        refine ⟨batch, L', hrun, hbatch, fun u hu => ⟨List.mem_cons_of_mem t (hsub u hu).1, (hsub u hu).2⟩,
          hlate.imp_left fun hlate u hu hout => ?_, l', hl', fun u => ?_⟩
        · rcases List.mem_cons.1 hu with rfl | hu
          · exact Nat.not_le.1 hdue
          · exact hlate u hu hout
        · rw [hmem u]
          simp

/-! ## One step -/

/-- What holds between the steps: a timer the tick will arm again is in no list, and one that
was cancelled is neither in the list nor about to be put there. -/
structure TimerInv (s : TimerSys) (l : List Nat) : Prop where
  ready : s.ready = true
  legacy : s.legacy = false
  list : TimerList s.links l
  batch : s.firing.Nodup
  out : ∀ t, Rearming s t → t ∉ l
  cancelled : ∀ t post pre b, s.log = post ++ .cancelled t b :: pre → SinceCancel t post →
    t ∉ l ∧ ¬Rearming s t ∧ (.tick ∈ post → t ∉ s.firing) ∧
      ∀ p₂ p₁, post = p₂ ++ .fired t :: p₁ → .tick ∉ p₁

theorem cons_eq_append_cons {α : Type} {a b : α} {log post pre : List α}
    (h : a :: log = post ++ b :: pre) :
    (post = [] ∧ a = b ∧ log = pre) ∨ ∃ post', post = a :: post' ∧ log = post' ++ b :: pre := by
  cases post with
  | nil =>
    cases h
    exact .inl ⟨rfl, rfl, rfl⟩
  | cons c post =>
    cases h
    exact .inr ⟨post, rfl, rfl⟩

/-- An event that is not about the cancelled timer. -/
theorem TimerInv.later (h : TimerInv s l) {e : TimerEvent} {post pre : List TimerEvent} {b : Bool}
    (hlog : s.log = post ++ .cancelled t b :: pre) (hsince : SinceCancel t (e :: post))
    (hfired : e = .fired t → .tick ∉ post) :
    t ∉ l ∧ ¬Rearming s t ∧ (.tick ∈ post → t ∉ s.firing) ∧
      ∀ p₂ p₁, e :: post = p₂ ++ .fired t :: p₁ → .tick ∉ p₁ := by
  obtain ⟨hout, hre, hbatch, hold⟩ := h.cancelled t post pre b hlog
    fun b' hmem => hsince b' (List.mem_cons_of_mem e hmem)
  refine ⟨hout, hre, hbatch, fun p₂ p₁ heq => ?_⟩
  rcases cons_eq_append_cons heq with ⟨-, he, rfl⟩ | ⟨p₂', -, hpost⟩
  · exact hfired he
  · exact hold p₂' p₁ hpost

theorem keInitializeTimerEx_inv (h : TimerInv s l) (type : TimerType) (hunset : timerSet s.links t = false) :
    TimerInv (keInitializeTimerEx t type s) l := by
  have hfree : t ∉ l := fun hmem => by
    rw [h.list.timerSet_iff.2 hmem] at hunset
    cases hunset
  unfold keInitializeTimerEx
  by_cases hnull : t = 0
  · rw [if_pos hnull]
    exact h
  · have hperiod : ∀ u, Rearming (s.setTimer t ⟨0, 0, 0⟩) u → Rearming s u := by
      rintro u ⟨hmem, hpos⟩
      refine ⟨hmem, ?_⟩
      by_cases heq : u = t
      · subst heq
        simp [TimerSys.setTimer] at hpos
      · simpa [TimerSys.setTimer, heq] using hpos
    have hlist : TimerList ((s.links.setNext (.entry t) none).setPrev (.entry t) none) l := by
      refine ⟨?_, fun u => ?_⟩
      · have hne : ∀ x ∈ TimerNode.head :: l.map TimerNode.entry, x ≠ .entry t := by
          rintro x hx rfl
          exact hfree (by simpa using hx)
        exact h.list.ring.congr (fun x hx => Function.update_of_ne (hne x hx) ..)
          fun x hx => Function.update_of_ne (hne x hx) ..
      · by_cases heq : u = t
        · subst heq
          simp [Links.setNext, Links.setPrev, hfree]
        · have hentry : TimerNode.entry u ≠ .entry t := by simpa using heq
          simp only [Links.setNext, Links.setPrev]
          rw [Function.update_of_ne hentry]
          exact h.list.linked u
    have hleg : s.legacy = false := h.legacy
    rw [if_neg hnull]
    simp only [TimerSys.setTimer, TimerSys.setHeader, hleg, Bool.false_eq_true, if_false]
    refine ⟨h.ready, rfl, hlist, h.batch, fun u hu => h.out u (hperiod u hu), ?_⟩
    intro u post pre b hlog hsince
    obtain ⟨hout, hre, hrest⟩ := h.cancelled u post pre b hlog hsince
    exact ⟨hout, fun hu => hre (hperiod u hu), hrest⟩

/-- Arming a timer that the tick is not going to arm. -/
theorem keSetTimerEx_spec (h : TimerInv s l) (ht : t ≠ 0) (due : Int) {period : Int} (dpc : Nat)
    (hok : t ∈ s.firing → period ≤ 0) :
    ∃ s', keSetTimerEx t due period dpc s = some (timerSet s.links t, s') ∧
      TimerInv s' (l.erase t ++ [t]) := by
  obtain ⟨L₁, hunlink, h₁⟩ := h.list.unlink t
  obtain ⟨L₂, hlink, h₂⟩ := h₁.link h.list.nodup.not_mem_erase
  have hrun : keSetTimerEx t due period dpc s = some (timerSet s.links t,
      { (s.setTimer t ⟨dueToTick s.ticks due, dpc, period⟩).signal t 0 with
        links := L₂, log := .set t (timerSet s.links t) :: s.log }) := by
    unfold keSetTimerEx
    rw [if_neg ht, if_neg (by simp [h.legacy, h.ready])]
    simp only [hunlink, Option.bind_some, hlink, Option.map_some]
  refine ⟨_, hrun, ?_⟩
  have hre : ∀ u, Rearming (s.setTimer t ⟨dueToTick s.ticks due, dpc, period⟩) u →
      u ≠ t ∧ Rearming s u := by
    rintro u ⟨hmem, hpos⟩
    by_cases heq : u = t
    · subst heq
      have hnot := hok hmem
      simp only [TimerSys.setTimer, Function.update_self] at hpos
      omega
    · exact ⟨heq, hmem, by simpa [TimerSys.setTimer, heq] using hpos⟩
  have hother : ∀ u ≠ t, u ∉ l → u ∉ l.erase t ++ [t] := by
    intro u hu hout hmem
    rcases List.mem_append.1 hmem with hmem | hmem
    · exact hout (List.mem_of_mem_erase hmem)
    · exact hu (List.mem_singleton.1 hmem)
  refine ⟨h.ready, h.legacy, h₂, h.batch, fun u hu => hother u (hre u hu).1 (h.out u (hre u hu).2), ?_⟩
  intro u post pre b hlog hsince
  rcases cons_eq_append_cons hlog with ⟨-, heq, -⟩ | ⟨post', rfl, hold⟩
  · cases heq
  · have hne : u ≠ t := by
      rintro rfl
      exact hsince _ List.mem_cons_self
    obtain ⟨hout, hnot, hbatch, hfired⟩ := h.later hold hsince nofun
    exact ⟨hother u hne hout, fun hu => hnot (hre u hu).2, fun htick => hbatch (by simpa using htick),
      hfired⟩

theorem keCancelTimer_spec (h : TimerInv s l) (ht : t ≠ 0) (hok : ¬Rearming s t) :
    ∃ s', keCancelTimer t s = some (timerSet s.links t, s') ∧ TimerInv s' (l.erase t) := by
  obtain ⟨L₁, hunlink, h₁⟩ := h.list.unlink t
  have hrun : keCancelTimer t s = some (timerSet s.links t,
      { s with links := L₁, log := .cancelled t (timerSet s.links t) :: s.log }) := by
    unfold keCancelTimer
    rw [if_neg ht, if_neg (by simp [h.legacy, h.ready])]
    simp only [hunlink, Option.map_some]
  refine ⟨_, hrun, h.ready, h.legacy, h₁, h.batch,
    fun u hu hmem => h.out u hu (List.mem_of_mem_erase hmem), ?_⟩
  intro u post pre b hlog hsince
  rcases cons_eq_append_cons hlog with ⟨rfl, heq, -⟩ | ⟨post', rfl, hold⟩
  · cases heq
    exact ⟨h.list.nodup.not_mem_erase, hok, fun htick => absurd htick List.not_mem_nil,
      fun p₂ p₁ heq => by simp at heq⟩
  · obtain ⟨hout, hnot, hbatch, hfired⟩ := h.later hold hsince nofun
    exact ⟨fun hmem => hout (List.mem_of_mem_erase hmem), hnot,
      fun htick => hbatch (by simpa using htick), hfired⟩

/-- What the tick does to the list: only due timers go, and all of them do unless the batch is
full. -/
structure TickTook (s s' : TimerSys) (l l' : List Nat) : Prop where
  ticks : s'.ticks = (s.ticks + 1) % 2 ^ 64
  timer : s'.timer = s.timer
  kept : ∀ t, t ∈ l' ↔ t ∈ l ∧ t ∉ s'.firing
  took : ∀ t ∈ s'.firing, t ∈ l ∧ (s.timer t).dueTime ≤ s'.ticks
  late : (∀ t ∈ l', s'.ticks < (s.timer t).dueTime) ∨ 16 ≤ s'.firing.length

theorem tickStart_spec (h : TimerInv s l) (hidle : s.firing = []) {fuel : Nat} (hfuel : l.length < fuel) :
    ∃ s' l', tickStart fuel s = some s' ∧ TimerInv s' l' ∧ TickTook s s' l l' := by
  have hfirst : s.links.next .head = some ((l.map TimerNode.entry).headD .head) := h.list.ring.next_head
  have hnone : TimerList s.links ([] ++ l) := h.list
  obtain ⟨batch, L', hloop, hnodup, hsub, hlate, l', hlist, hmem⟩ := expireLoop_spec s.timer
    ((s.ticks + 1) % 2 ^ 64) l 0 hfuel hnone
  have hrun : tickStart fuel s = some { s with
      ticks := (s.ticks + 1) % 2 ^ 64, log := .tick :: s.log, links := L', firing := batch
      called := false } := by
    unfold tickStart
    rw [if_neg (by simp [hidle])]
    simp only [h.ready, Bool.true_eq_false, if_false, hfirst, hloop, Option.map_some]
  have htook : TickTook s { s with
      ticks := (s.ticks + 1) % 2 ^ 64, log := .tick :: s.log, links := L', firing := batch
      called := false } l l' := by
    refine ⟨rfl, rfl, hmem, hsub, hlate.imp (fun hlate t ht => ?_) fun hmany => ?_⟩
    · obtain ⟨hin, hout⟩ := (hmem t).1 ht
      exact hlate t hin hout
    · rwa [Nat.zero_add] at hmany
  refine ⟨_, l', hrun, ⟨h.ready, h.legacy, hlist, hnodup, fun u hu hul => ((hmem u).1 hul).2 hu.1, ?_⟩, htook⟩
  intro u post pre b hlog hsince
  rcases cons_eq_append_cons hlog with ⟨-, heq, -⟩ | ⟨post', rfl, hold⟩
  · cases heq
  · obtain ⟨hout, -, -, hfired⟩ := h.later hold hsince nofun
    have hbatch : u ∉ batch := fun hu => hout (hsub u hu).1
    exact ⟨fun hul => hout (by simpa using ((hmem u).1 hul).1), fun hu => hbatch hu.1,
      fun _ => hbatch, hfired⟩

theorem expireLoop_mono {timer : Nat → Ktimer} {ticks fuel fuel' : Nat} {e : Option TimerNode} {n : Nat}
    {r : List Nat × Links TimerNode} (h : expireLoop timer ticks fuel e n L = some r)
    (hle : fuel ≤ fuel') : expireLoop timer ticks fuel' e n L = some r := by
  induction fuel generalizing fuel' e n L r with
  | zero => cases h
  | succ fuel ih =>
    obtain ⟨k, rfl⟩ : ∃ k, fuel' = k + 1 := ⟨fuel' - 1, by omega⟩
    have hle' : fuel ≤ k := by omega
    match e, h with
    | none, h => exact h
    | some .head, h => exact h
    | some (.entry t), h =>
      unfold expireLoop at h ⊢
      by_cases hfull : 16 ≤ n
      · rw [if_pos hfull] at h ⊢
        exact h
      · simp only [if_neg hfull] at h ⊢
        by_cases hdue : (timer t).dueTime ≤ ticks
        · rw [if_pos hdue] at h ⊢
          obtain ⟨L₁, hunlink, hrest⟩ := Option.bind_eq_some_iff.1 h
          obtain ⟨q, hloop, hq⟩ := Option.map_eq_some_iff.1 hrest
          rw [hunlink, Option.bind_some, ih hloop hle', Option.map_some, hq]
        · rw [if_neg hdue] at h ⊢
          exact ih h hle'

theorem tickStart_inv (h : TimerInv s l) {fuel : Nat} (hrun : tickStart fuel s = some s') :
    ∃ l', TimerInv s' l' ∧ TickTook s s' l l' := by
  have hidle : s.firing = [] := by
    by_contra hbusy
    unfold tickStart at hrun
    rw [if_pos hbusy] at hrun
    cases hrun
  obtain ⟨s₁, l', hlong, hinv, htook⟩ := tickStart_spec h hidle (Nat.le_max_right fuel (l.length + 1))
  have hsame : tickStart (max fuel (l.length + 1)) s = some s' := by
    unfold tickStart at hrun ⊢
    rw [if_neg (by simp [hidle])] at hrun ⊢
    simp only [h.ready, Bool.true_eq_false, if_false] at hrun ⊢
    obtain ⟨r, hloop, hr⟩ := Option.map_eq_some_iff.1 hrun
    rw [expireLoop_mono hloop (Nat.le_max_left ..), Option.map_some, hr]
  rw [hsame, Option.some.injEq] at hlong
  subst hlong
  exact ⟨l', hinv, htook⟩

theorem tickFire_spec (h : TimerInv s l) (hrun : tickFire s = some s') : TimerInv s' l := by
  unfold tickFire at hrun
  split at hrun
  case h_1 t rest hfiring =>
    split at hrun
    case isTrue => cases hrun
    case isFalse hcalled =>
      simp only [Option.some.injEq] at hrun
      subst hrun
      split
      case isTrue hdpc =>
        refine ⟨h.ready, h.legacy, h.list, h.batch, h.out, ?_⟩
        intro u post pre b hlog hsince
        rcases cons_eq_append_cons hlog with ⟨-, heq, -⟩ | ⟨post', rfl, hold⟩
        · cases heq
        · have hfirst : TimerEvent.fired t = .fired u → .tick ∉ post' := by
            intro heq htick
            cases heq
            have hsince' : SinceCancel t post' := fun b' hb' => hsince b' (List.mem_cons_of_mem _ hb')
            exact (h.cancelled t post' pre b hold hsince').2.2.1 htick (by simp [hfiring])
          obtain ⟨hout, hnot, hbatch, hfired⟩ := h.later hold hsince hfirst
          exact ⟨hout, hnot, fun htick => hbatch (by simpa using htick), hfired⟩
      case isFalse => exact ⟨h.ready, h.legacy, h.list, h.batch, h.out, h.cancelled⟩
  case h_2 => cases hrun

theorem tickRearm_spec (h : TimerInv s l) {rest : List Nat} (hfiring : s.firing = t :: rest)
    (hcalled : s.called = true) : ∃ s', tickRearm s = some s' ∧
      TimerInv s' (if 0 < (s.timer t).period then l ++ [t] else l) := by
  have hbatch := h.batch
  rw [hfiring, List.nodup_cons] at hbatch
  unfold tickRearm
  rw [hfiring]
  simp only [hcalled, Bool.true_eq_false, if_false]
  by_cases hperiod : 0 < (s.timer t).period
  · have hre : Rearming s t := ⟨by simp [hfiring], hperiod⟩
    obtain ⟨L', hlink, hlist⟩ := h.list.link (h.out t hre)
    rw [if_pos hperiod, if_pos hperiod, hlink]
    refine ⟨_, rfl, h.ready, h.legacy, hlist, hbatch.2, ?_, ?_⟩
    · rintro u ⟨hu, hpos⟩ hmem
      have hne : u ≠ t := by
        rintro rfl
        exact hbatch.1 hu
      have hold : Rearming s u := by
        refine ⟨by rw [hfiring]; exact List.mem_cons_of_mem t hu, ?_⟩
        simpa [TimerSys.setTimer, TimerSys.signal, TimerSys.setHeader, hne] using hpos
      rcases List.mem_append.1 hmem with hmem | hmem
      · exact h.out u hold hmem
      · exact hne (List.mem_singleton.1 hmem)
    · intro u post pre b hlog hsince
      obtain ⟨hout, hnot, hsafe, hfired⟩ := h.cancelled u post pre b hlog hsince
      have hne : u ≠ t := by
        rintro rfl
        exact hnot hre
      refine ⟨fun hmem => ?_, ?_, fun htick hu => ?_, hfired⟩
      · rcases List.mem_append.1 hmem with hmem | hmem
        · exact hout hmem
        · exact hne (List.mem_singleton.1 hmem)
      · rintro ⟨hu, hpos⟩
        refine hnot ⟨by rw [hfiring]; exact List.mem_cons_of_mem t hu, ?_⟩
        simpa [TimerSys.setTimer, TimerSys.signal, TimerSys.setHeader, hne] using hpos
      · exact hsafe htick (by rw [hfiring]; exact List.mem_cons_of_mem t hu)
  · rw [if_neg hperiod, if_neg hperiod]
    have hsub : ∀ u, Rearming { s with firing := rest, called := false } u → Rearming s u :=
      fun u hu => ⟨by rw [hfiring]; exact List.mem_cons_of_mem t hu.1, hu.2⟩
    refine ⟨_, rfl, h.ready, h.legacy, h.list, hbatch.2, fun u hu => h.out u (hsub u hu), ?_⟩
    intro u post pre b hlog hsince
    obtain ⟨hout, hnot, hsafe, hfired⟩ := h.cancelled u post pre b hlog hsince
    exact ⟨hout, fun hu => hnot (hsub u hu),
      fun htick hu => hsafe htick (by rw [hfiring]; exact List.mem_cons_of_mem t hu), hfired⟩

/-! ## Runs -/

theorem timersBooted_inv (h : TimersBooted s) : TimerInv s [] := by
  obtain ⟨s₀, rfl, hlegacy, hfiring, hlog, hnext⟩ := h
  have hlist : TimerList (s₀.links.initHead .head) [] := by
    refine ⟨Links.ring_initHead s₀.links .head, fun u => ?_⟩
    simp [Links.initHead, Links.setNext, Links.setPrev, hnext u]
  refine ⟨rfl, hlegacy, hlist, ?_, fun u _ => List.not_mem_nil, ?_⟩
  · show s₀.firing.Nodup
    rw [hfiring]
    exact List.nodup_nil
  · intro u post pre b hcancelled
    have hnil : s₀.log = post ++ .cancelled u b :: pre := hcancelled
    rw [hlog] at hnil
    simp at hnil

theorem timerStep_inv (h : TimerInv s l) {a : TimerAction} (hok : TimerStepOk s a)
    (hstep : TimerStep s a s') : ∃ l', TimerInv s' l' := by
  obtain ⟨fuel, hstep⟩ := hstep
  cases a with
  | initTimer t type =>
    cases hstep
    exact ⟨l, keInitializeTimerEx_inv h type hok⟩
  | set t due period dpc =>
    by_cases ht : t = 0
    · have hrun : keSetTimerEx t due period dpc s = some (false, s) := if_pos ht
      simp only [timerStep, hrun, Option.map_some, Option.some.injEq] at hstep
      exact ⟨l, hstep ▸ h⟩
    · obtain ⟨s₁, hrun, hinv⟩ := keSetTimerEx_spec h ht due dpc hok
      simp only [timerStep, hrun, Option.map_some, Option.some.injEq] at hstep
      exact ⟨_, hstep ▸ hinv⟩
  | cancel t =>
    by_cases ht : t = 0
    · have hrun : keCancelTimer t s = some (false, s) := if_pos ht
      simp only [timerStep, hrun, Option.map_some, Option.some.injEq] at hstep
      exact ⟨l, hstep ▸ h⟩
    · obtain ⟨s₁, hrun, hinv⟩ := keCancelTimer_spec h ht hok
      simp only [timerStep, hrun, Option.map_some, Option.some.injEq] at hstep
      exact ⟨_, hstep ▸ hinv⟩
  | tickStart =>
    obtain ⟨l', hinv, -⟩ := tickStart_inv h hstep
    exact ⟨l', hinv⟩
  | tickFire => exact ⟨l, tickFire_spec h hstep⟩
  | tickRearm =>
    cases hfiring : s.firing with
    | nil =>
      simp only [timerStep, tickRearm, hfiring] at hstep
      cases hstep
    | cons t rest =>
      cases hcalled : s.called with
      | false =>
        simp only [timerStep, tickRearm, hfiring, hcalled] at hstep
        cases hstep
      | true =>
        obtain ⟨s₁, hrun, hinv⟩ := tickRearm_spec h hfiring hcalled
        simp only [timerStep, hrun, Option.some.injEq] at hstep
        exact ⟨_, hstep ▸ hinv⟩

theorem timerRun_inv (h : Reach TimersBooted TimerStep TimerStepOk s) : ∃ l, TimerInv s l := by
  apply h.invariant (fun s hs => ⟨[], timersBooted_inv hs⟩)
  rintro s a s' ⟨l, hl⟩ hok hstep
  exact timerStep_inv hl hok hstep

/-- The timers of `l` are pending and no others, and what the calls do about it. -/
structure TimerSound (s : TimerSys) (l : List Nat) : Prop where
  list : TimerList s.links l
  nodup : l.Nodup
  set : ∀ t ≠ 0, ∀ due period dpc, TimerStepOk s (.set t due period dpc) →
    ∃ s', keSetTimerEx t due period dpc s = some (decide (t ∈ l), s') ∧
      ∃ l', TimerList s'.links l' ∧ ∀ u, u ∈ l' ↔ u ∈ l ∨ u = t
  cancel : ∀ t ≠ 0, TimerStepOk s (.cancel t) →
    ∃ s', keCancelTimer t s = some (decide (t ∈ l), s') ∧
      ∃ l', TimerList s'.links l' ∧ ∀ u, u ∈ l' ↔ u ∈ l ∧ u ≠ t
  cancelled : ∀ t post pre b, s.log = post ++ .cancelled t b :: pre → SinceCancel t post →
    t ∉ l ∧ ∀ p₂ p₁, post = p₂ ++ .fired t :: p₁ → .tick ∉ p₁
  steps : ∀ a, TimerStepOk s a → TimerCanStep s a → ∃ s', TimerStep s a s'

theorem TimerInv.sound (h : TimerInv s l) : TimerSound s l where
  list := h.list
  nodup := h.list.nodup
  set t ht due period dpc hok := by
    obtain ⟨s', hrun, hinv⟩ := keSetTimerEx_spec h ht due dpc hok
    refine ⟨s', ?_, _, hinv.list, fun u => ?_⟩
    · rw [hrun, h.list.timerSet_eq t]
    · rw [List.mem_append, List.mem_singleton, h.list.nodup.mem_erase_iff]
      tauto
  cancel t ht hok := by
    obtain ⟨s', hrun, hinv⟩ := keCancelTimer_spec h ht hok
    refine ⟨s', ?_, _, hinv.list, fun u => ?_⟩
    · rw [hrun, h.list.timerSet_eq t]
    · rw [h.list.nodup.mem_erase_iff, and_comm]
  cancelled t post pre b hlog hsince := by
    obtain ⟨hout, -, -, hfired⟩ := h.cancelled t post pre b hlog hsince
    exact ⟨hout, hfired⟩
  steps a hok hcan := by
    cases a with
    | initTimer t type => exact ⟨_, 0, rfl⟩
    | set t due period dpc =>
      by_cases ht : t = 0
      · exact ⟨s, 0, by rw [timerStep, show keSetTimerEx t due period dpc s = _ from if_pos ht]; rfl⟩
      · obtain ⟨s', hrun, -⟩ := keSetTimerEx_spec h ht due dpc hok
        exact ⟨s', 0, by rw [timerStep, hrun]; rfl⟩
    | cancel t =>
      by_cases ht : t = 0
      · exact ⟨s, 0, by rw [timerStep, show keCancelTimer t s = _ from if_pos ht]; rfl⟩
      · obtain ⟨s', hrun, -⟩ := keCancelTimer_spec h ht hok
        exact ⟨s', 0, by rw [timerStep, hrun]; rfl⟩
    | tickStart =>
      obtain ⟨s', -, hrun, -⟩ := tickStart_spec h hcan (Nat.lt_succ_self l.length)
      exact ⟨s', l.length + 1, hrun⟩
    | tickFire =>
      obtain ⟨hbusy, hcalled⟩ := hcan
      obtain ⟨t, rest, hfiring⟩ := List.exists_cons_of_ne_nil hbusy
      exact ⟨_, 0, by simp only [timerStep, tickFire, hfiring, hcalled]; rfl⟩
    | tickRearm =>
      obtain ⟨hbusy, hcalled⟩ := hcan
      obtain ⟨t, rest, hfiring⟩ := List.exists_cons_of_ne_nil hbusy
      obtain ⟨s', hrun, -⟩ := tickRearm_spec h hfiring hcalled
      exact ⟨s', 0, hrun⟩

/-- In every order of the calls and the steps of the tick. -/
theorem timerRun_sound (h : Reach TimersBooted TimerStep TimerStepOk s) : ∃ l, TimerSound s l := by
  obtain ⟨l, hl⟩ := timerRun_inv h
  exact ⟨l, hl.sound⟩

def bootedTimers : TimerSys :=
  kiInitializeTimerSubsystem ⟨fun _ => ⟨0, 0⟩, ⟨fun _ => none, fun _ => none⟩, fun _ => ⟨0, 0, 0⟩, 0,
    false, false, [], false, []⟩

theorem bootedTimers_booted : TimersBooted bootedTimers :=
  ⟨_, rfl, rfl, rfl, rfl, fun _ => rfl⟩

def timerGuardedStep (s : TimerSys) (a : TimerAction) : Option TimerSys :=
  if TimerStepOk s a then timerStep 8 s a else none

/-- Timer 5 is periodic and has a DPC, timer 6 is set and then cancelled. -/
def timerActions : List TimerAction :=
  [.initTimer 5 .synchronization, .set 5 0 10 77, .initTimer 6 .notification, .set 6 (-300000) 0 0,
    .tickStart, .tickFire, .cancel 6, .tickRearm]

theorem timerRun_sound_periodic : ∃ s l, runSteps timerGuardedStep timerActions bootedTimers = some s ∧
    s.log = [.cancelled 6 true, .fired 5, .tick, .set 6 false, .set 5 false] ∧ TimerSound s l := by
  have hlog : (runSteps timerGuardedStep timerActions bootedTimers).map TimerSys.log =
      some [.cancelled 6 true, .fired 5, .tick, .set 6 false, .set 5 false] := by
    decide +kernel
  obtain ⟨s, hrun, hs⟩ := Option.map_eq_some_iff.1 hlog
  have hreach : Reach TimersBooted TimerStep TimerStepOk s :=
    runGuarded_reach (fun _ _ => id) (fun _ _ _ hstep => ⟨8, hstep⟩) (.start bootedTimers_booted) hrun
  obtain ⟨l, hl⟩ := timerRun_sound hreach
  exact ⟨s, l, hrun, hs, hl⟩

/-- The DPC routine of a periodic timer arms it again. -/
def rearmedActions : List TimerAction :=
  [.initTimer 5 .notification, .set 5 0 10 77, .tickStart, .tickFire, .set 5 0 10 77, .tickRearm]

/-- The tick links the timer a second time, and it follows itself. -/
theorem rearmed_timer_in_no_list : ∃ s, Reach TimersBooted TimerStep (fun _ _ => True) s ∧
    runSteps (timerStep 8) rearmedActions bootedTimers = some s ∧
      ¬∃ l : List Nat, s.links.Ring .head (l.map .entry) := by
  have hloop : (runSteps (timerStep 8) rearmedActions bootedTimers).map
      (fun s => (s.links.next .head, s.links.next (.entry 5))) =
        some (some (.entry 5), some (.entry 5)) := by
    decide +kernel
  obtain ⟨s, hrun, hs⟩ := Option.map_eq_some_iff.1 hloop
  obtain ⟨hhead, hself⟩ := Prod.mk.inj hs
  have hreach : Reach TimersBooted TimerStep (fun _ _ => True) s :=
    runSteps_reach (fun _ _ _ h => ⟨trivial, 8, h⟩) (.start bootedTimers_booted) hrun
  refine ⟨s, hreach, hrun, ?_⟩
  rintro ⟨l, hring⟩
  rw [hring.next_head] at hhead
  cases l with
  | nil => simp at hhead
  | cons t rest =>
    have ht : t = 5 := by simpa using hhead
    subst ht
    have hfirst : s.links.Ring .head ([] ++ .entry 5 :: rest.map TimerNode.entry) := hring
    have hnext : s.links.next (.entry 5) = some ((rest.map TimerNode.entry).headD .head) :=
      hfirst.next_entry
    rw [hself] at hnext
    cases rest with
    | nil => simp at hnext
    | cons u rest =>
      have hu : u = 5 := by simpa using hnext.symm
      subst hu
      have hnodup := hring.nodup
      simp at hnodup

end MeuOS.Ke
