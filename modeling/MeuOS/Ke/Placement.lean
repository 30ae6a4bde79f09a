import MeuOS.Ke.Sched

/-! Where the threads are. A placement gives every thread one place and every list its
entries; a state of the scheduler represents it when its links, its processors and its
unfinished calls say the same. -/
namespace MeuOS.Ke

open MeuOS.Lib

inductive Place
  | out
  | current (cpu : Nat)
  | queued (cpu : Nat)
  | waiting
  | readying (waker : Tid)
  deriving DecidableEq, Repr

structure Placement where
  place : Tid → Place
  queue : Nat → List Tid
  waitList : List Tid

/-- The ready queues and the wait list are well-formed circular lists, and no thread is in
two queues. -/
structure Lists (L : Links Node) (on : Nat → Bool) (queue : Nat → List Tid)
    (waitList : List Tid) : Prop where
  ready : ∀ c, on c = true → L.Ring (.readyHead c) ((queue c).map .readyLink)
  wait : L.Ring .waitHead (waitList.map .waitLink)
  apart : ∀ c c' t, t ∈ queue c → t ∈ queue c' → c = c'

variable {L L' : Links Node} {on : Nat → Bool} {queue : Nat → List Tid} {waitList : List Tid}
  {cpu : Nat} {t : Tid}

/-- A ready queue changed, and with it only links of its own. -/
theorem Lists.setQueue (h : Lists L on queue waitList) {l : List Tid} (hon : on cpu = true)
    (hring : L'.Ring (.readyHead cpu) (l.map .readyLink))
    (hframe : ∀ x, x ≠ .readyHead cpu → (∀ t, x = .readyLink t → t ∉ queue cpu ∧ t ∉ l) →
      L'.next x = L.next x ∧ L'.prev x = L.prev x)
    (hapart : ∀ c, c ≠ cpu → ∀ t ∈ l, t ∉ queue c) :
    Lists L' on (Function.update queue cpu l) waitList := by
  have hwait : ∀ x ∈ Node.waitHead :: waitList.map Node.waitLink,
      L'.next x = L.next x ∧ L'.prev x = L.prev x := by
    intro x hx
    apply hframe
    · rintro rfl
      simp at hx
    · rintro t rfl
      simp at hx
  refine ⟨fun c hc => ?_, h.wait.congr (fun x hx => (hwait x hx).1) fun x hx => (hwait x hx).2,
    fun c c' t ht ht' => ?_⟩
  · by_cases heq : c = cpu
    · subst heq
      rw [Function.update_self]
      exact hring
    · rw [Function.update_of_ne heq]
      have hother : ∀ x ∈ Node.readyHead c :: (queue c).map Node.readyLink,
          L'.next x = L.next x ∧ L'.prev x = L.prev x := by
        intro x hx
        apply hframe
        · rintro rfl
          simp [Ne.symm heq] at hx
        · rintro t rfl
          have ht : t ∈ queue c := by simpa using hx
          exact ⟨fun h' => heq (h.apart c cpu t ht h'), fun h' => hapart c heq t h' ht⟩
      exact (h.ready c hc).congr (fun x hx => (hother x hx).1) fun x hx => (hother x hx).2
  · by_cases heq : c = cpu
    · subst heq
      by_cases heq' : c' = c
      · exact heq'.symm
      · rw [Function.update_self] at ht
        rw [Function.update_of_ne heq'] at ht'
        exact absurd ht' (hapart c' heq' t ht)
    · rw [Function.update_of_ne heq] at ht
      by_cases heq' : c' = cpu
      · subst heq'
        rw [Function.update_self] at ht'
        exact absurd ht (hapart c heq t ht')
      · rw [Function.update_of_ne heq'] at ht'
        exact h.apart c c' t ht ht'

/-- The wait list changed, and with it only links of its own. -/
theorem Lists.setWaitList (h : Lists L on queue waitList) {l : List Tid}
    (hring : L'.Ring .waitHead (l.map .waitLink))
    (hframe : ∀ x, x ≠ .waitHead → (∀ t, x ≠ .waitLink t) →
      L'.next x = L.next x ∧ L'.prev x = L.prev x) :
    Lists L' on queue l := by
  refine ⟨fun c hc => ?_, hring, h.apart⟩
  have hother : ∀ x ∈ Node.readyHead c :: (queue c).map Node.readyLink,
      L'.next x = L.next x ∧ L'.prev x = L.prev x := by
    intro x hx
    apply hframe
    · rintro rfl
      simp at hx
    · rintro t rfl
      simp at hx
  exact (h.ready c hc).congr (fun x hx => (hother x hx).1) fun x hx => (hother x hx).2

theorem Lists.pop (h : Lists L on queue waitList) (hon : on cpu = true) {rest : List Tid}
    (hq : queue cpu = t :: rest) :
    ∃ L', L.popHead (.readyHead cpu) = some (some (.readyLink t), L') ∧
      Lists L' on (Function.update queue cpu rest) waitList := by
  have hring := h.ready cpu hon
  rw [hq, List.map_cons] at hring
  obtain ⟨L', hpop, hring', hframe⟩ := hring.popHead_cons
  refine ⟨L', hpop, h.setQueue hon hring' (fun x hx hlink => hframe x ?_) ?_⟩
  · simp only [List.mem_cons, List.mem_map, not_or, not_exists, not_and]
    refine ⟨hx, ?_, fun u hu heq => (hlink u heq.symm).2 hu⟩
    rintro rfl
    exact (hlink t rfl).1 (hq ▸ List.mem_cons_self)
  · intro c hc u hu hu'
    exact hc (h.apart c cpu u hu' (hq ▸ List.mem_cons_of_mem t hu))

theorem Lists.push (h : Lists L on queue waitList) (hon : on cpu = true)
    (ht : ∀ c, t ∉ queue c) :
    ∃ L', L.insertTail (.readyHead cpu) (.readyLink t) = some L' ∧
      Lists L' on (Function.update queue cpu (queue cpu ++ [t])) waitList := by
  have hentry : Node.readyLink t ∉ Node.readyHead cpu :: (queue cpu).map Node.readyLink := by
    simpa using ht cpu
  obtain ⟨L', hinsert, hring, hframe⟩ := (h.ready cpu hon).insertTail hentry
  refine ⟨L', hinsert, h.setQueue hon (by simpa using hring) (fun x hx hlink => hframe x ?_ ?_) ?_⟩
  · simp only [List.mem_cons, List.mem_map, not_or, not_exists, not_and]
    exact ⟨hx, fun u hu heq => (hlink u heq.symm).1 hu⟩
  · rintro rfl
    exact (hlink t rfl).2 (by simp)
  · intro c hc u hu hu'
    rcases List.mem_append.1 hu with hmem | hmem
    · exact hc (h.apart c cpu u hu' hmem)
    · rw [List.mem_singleton.1 hmem] at hu'
      exact ht c hu'

theorem Lists.block (h : Lists L on queue waitList) (ht : t ∉ waitList) :
    ∃ L', L.insertTail .waitHead (.waitLink t) = some L' ∧
      Lists L' on queue (waitList ++ [t]) := by
  have hentry : Node.waitLink t ∉ Node.waitHead :: waitList.map Node.waitLink := by simpa using ht
  obtain ⟨L', hinsert, hring, hframe⟩ := h.wait.insertTail hentry
  refine ⟨L', hinsert, h.setWaitList (by simpa using hring) fun x hx hlink => hframe x ?_ (hlink t)⟩
  simp only [List.mem_cons, List.mem_map, not_or, not_exists, not_and]
  exact ⟨hx, fun u _ heq => hlink u heq.symm⟩

theorem Lists.unlink {l₁ l₂ : List Tid} (h : Lists L on queue (l₁ ++ t :: l₂)) :
    ∃ L', L.unlink (.waitLink t) = some L' ∧ Lists L' on queue (l₁ ++ l₂) := by
  have hring := h.wait
  rw [List.map_append, List.map_cons] at hring
  obtain ⟨L', hunlink, hring', hframe⟩ := hring.unlink
  refine ⟨L', hunlink, h.setWaitList (by simpa using hring') fun x hx hlink => hframe x ?_⟩
  simp only [List.mem_cons, List.mem_append, List.mem_map, not_or, not_exists, not_and]
  exact ⟨hx, fun u _ heq => hlink u heq.symm, hlink t, fun u _ heq => hlink u heq.symm⟩

/-- Links of threads in no list may change. -/
theorem Lists.congr (h : Lists L on queue waitList)
    (hframe : ∀ x, (∀ u, x = .readyLink u → ∃ c, u ∈ queue c) →
      (∀ u, x = .waitLink u → u ∈ waitList) → L'.next x = L.next x ∧ L'.prev x = L.prev x) :
    Lists L' on queue waitList := by
  refine ⟨fun c hc => ?_, ?_, h.apart⟩
  · have hother : ∀ x ∈ Node.readyHead c :: (queue c).map Node.readyLink,
        L'.next x = L.next x ∧ L'.prev x = L.prev x := by
      intro x hx
      apply hframe
      · rintro u rfl
        exact ⟨c, by simpa using hx⟩
      · rintro u rfl
        simp at hx
    exact (h.ready c hc).congr (fun x hx => (hother x hx).1) fun x hx => (hother x hx).2
  · have hother : ∀ x ∈ Node.waitHead :: waitList.map Node.waitLink,
        L'.next x = L.next x ∧ L'.prev x = L.prev x := by
      intro x hx
      apply hframe
      · rintro u rfl
        simp at hx
      · rintro u rfl
        simpa using hx
    exact h.wait.congr (fun x hx => (hother x hx).1) fun x hx => (hother x hx).2

end MeuOS.Ke
