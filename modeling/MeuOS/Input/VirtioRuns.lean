import Mathlib.Data.List.Nodup
import MeuOS.Input.VirtioInput
import MeuOS.Lib.FreeRing
import MeuOS.Win32.QueueRuns

/-! Every history of the event queue. The device takes available buffers when it likes, completes
those it holds in any order, and may put entries into the used ring that belong to no buffer; the
driver polls one entry at a time. -/
namespace MeuOS.Input

open MeuOS.Lib MeuOS.Win32

/-- A used entry and the event in its buffer. -/
structure Completion where
  elem : VqUsedElem
  event : InputEvent

/-- The device has had the first `taken` of the buffers `published`, and holds those it has not
completed; the driver has had the first `polled` of the entries `completed`. -/
structure VirtioWorld where
  queue : EventQueue
  tablet : Tablet
  lastAvail : Nat
  holding : List Nat
  published : List Nat
  taken : Nat
  completed : List Completion
  polled : Nat
  handled : List InputEvent

inductive VirtioOp
  /-- The device reads the next available buffer. -/
  | take
  | complete (id len : Nat) (event : InputEvent)
  /-- A used entry that names no buffer. -/
  | stray (id len : Nat)
  | poll
  | outside (wm : Wm)

/-- Neither polled nor taken back: the used entries. -/
def VirtioWorld.waiting (w : VirtioWorld) : List Completion := w.completed.drop w.polled

/-- There is a used slot that holds no waiting entry. -/
def VirtioWorld.UsedRoom (w : VirtioWorld) : Prop := w.completed.length < w.polled + w.queue.qsize

/-- The device completes what it holds. It overwrites no used entry that waits, which it can only do
where entries wait that name no buffer. -/
def virtioAllowed (w : VirtioWorld) : VirtioOp → Prop
  | .take => w.lastAvail ≠ w.queue.availIdx
  | .complete id _ _ => id ∈ w.holding ∧ ((∀ c ∈ w.waiting, c.elem.id < w.queue.qsize) ∨ w.UsedRoom)
  | .stray id _ => w.queue.qsize ≤ id ∧ w.UsedRoom
  | _ => True

/-- The device puts an entry into the used ring. -/
def EventQueue.putUsed (q : EventQueue) (elem : VqUsedElem) : EventQueue :=
  { q with
    usedRing := Function.update q.usedRing (q.usedIdx % q.qsize) elem
    usedIdx := (q.usedIdx + 1) % 2 ^ 16 }

def virtioStep (scr : Screen) (w : VirtioWorld) : VirtioOp → VirtioWorld
  | .take =>
      { w with
        lastAvail := (w.lastAvail + 1) % 2 ^ 16
        holding := w.holding ++ [w.queue.availRing (w.lastAvail % w.queue.qsize)]
        taken := w.taken + 1 }
  | .complete id len event =>
      { w with
        queue := { w.queue with evbuf := Function.update w.queue.evbuf id event }.putUsed ⟨id, len⟩
        holding := w.holding.erase id
        completed := w.completed ++ [⟨⟨id, len⟩, event⟩] }
  | .stray id len =>
      { w with
        queue := w.queue.putUsed ⟨id, len⟩
        completed := w.completed ++ [⟨⟨id, len⟩, ⟨0, 0, 0⟩⟩] }
  | .poll =>
      let id := (w.queue.usedRing (w.queue.lastUsed % w.queue.qsize)).id
      match pollTurn w.queue with
      | none => w
      | some (queue, handled) =>
          { w with
            queue := queue
            tablet := handled.toList.foldl (handleEvent scr) w.tablet
            published := if id < w.queue.qsize then w.published ++ [id] else w.published
            polled := w.polled + 1
            handled := w.handled ++ handled.toList }
  | .outside wm => { w with tablet := { w.tablet with wm := wm } }

def VirtioStart (devQsize : Nat) (w : VirtioWorld) : Prop :=
  (∃ descPhys availPhys usedPhys evbPhys,
    eventqSetup devQsize descPhys availPhys usedPhys evbPhys = some w.queue) ∧
  w.lastAvail = 0 ∧ w.holding = [] ∧ w.published = List.range w.queue.qsize ∧ w.taken = 0 ∧
  w.completed = [] ∧ w.polled = 0 ∧ w.handled = []

def VirtioReach (scr : Screen) (devQsize : Nat) : VirtioWorld → Prop :=
  Reach (VirtioStart devQsize) (fun w op w' => virtioAllowed w op ∧ w' = virtioStep scr w op)
    fun _ _ => True

namespace VirtioWorld

/-- The buffers the device may fill. -/
def available (w : VirtioWorld) : List Nat := w.published.drop w.taken ++ w.holding

/-- The buffers of the used entries that wait. -/
def returned (w : VirtioWorld) : List Nat :=
  (w.waiting.map fun c => c.elem.id).filter fun id => id < w.queue.qsize

end VirtioWorld

/-- The events of used entries that are in order. -/
def goodEvents (qsize : Nat) (cs : List Completion) : List InputEvent :=
  (cs.filter fun c => c.elem.id < qsize ∧ eventSize ≤ c.elem.len).map Completion.event

structure VirtioInv (w : VirtioWorld) : Prop where
  size : 0 < w.queue.qsize ∧ w.queue.qsize ≤ vqSize ∧ w.queue.qsize ∣ 2 ^ 16
  avail : FreeRing (2 ^ 16) w.queue.qsize w.queue.availRing w.published w.taken w.lastAvail w.queue.availIdx
  used : FreeRing (2 ^ 16) w.queue.qsize w.queue.usedRing (w.completed.map Completion.elem) w.polled
    w.queue.lastUsed w.queue.usedIdx
  buffers : (w.available ++ w.returned).Perm (List.range w.queue.qsize)
  events : ∀ c ∈ w.waiting, c.elem.id < w.queue.qsize → w.queue.evbuf c.elem.id = c.event
  handled : w.handled = goodEvents w.queue.qsize (w.completed.take w.polled)

section Steps

variable {scr : Screen} {w : VirtioWorld} {op : VirtioOp}

theorem VirtioInv.lengths (h : VirtioInv w) :
    (w.published.length - w.taken) + w.holding.length + w.returned.length = w.queue.qsize := by
  have hlen := h.buffers.length_eq
  unfold VirtioWorld.available at hlen
  rw [List.length_append, List.length_append, List.length_drop, List.length_range] at hlen
  exact hlen

theorem VirtioInv.lt_wrap (h : VirtioInv w) : w.queue.qsize < 2 ^ 16 :=
  Nat.lt_of_le_of_lt h.size.2.1 (by decide)

theorem take_inv (hinv : VirtioInv w) (hsome : w.lastAvail ≠ w.queue.availIdx) :
    VirtioInv (virtioStep scr w .take) := by
  have hlt : w.taken < w.published.length :=
    Nat.lt_of_le_of_ne hinv.avail.done_le fun heq =>
      hsome ((hinv.avail.empty_iff hinv.lt_wrap).2 heq)
  refine ⟨hinv.size, hinv.avail.pop hlt, hinv.used, ?_, hinv.events, hinv.handled⟩
  -- the first available buffer moves behind the others
  refine List.Perm.trans (List.Perm.append_right _ ?_) hinv.buffers
  unfold VirtioWorld.available virtioStep
  dsimp only
  rw [hinv.avail.front hlt, ← List.append_assoc, List.drop_eq_getElem_cons hlt, List.cons_append]
  exact List.perm_append_singleton _ _

theorem waiting_snoc (h : w.polled ≤ w.completed.length) (c : Completion) :
    (w.completed ++ [c]).drop w.polled = w.waiting ++ [c] :=
  List.drop_append_of_le_length h

theorem VirtioInv.polled_le (hinv : VirtioInv w) : w.polled ≤ w.completed.length := by
  have hle := hinv.used.done_le
  rwa [List.length_map] at hle

theorem VirtioInv.putUsed (hinv : VirtioInv w) (hroom : w.UsedRoom) (elem : VqUsedElem) :
    FreeRing (2 ^ 16) w.queue.qsize (Function.update w.queue.usedRing (w.queue.usedIdx % w.queue.qsize) elem)
      (w.completed.map Completion.elem ++ [elem]) w.polled w.queue.lastUsed
      ((w.queue.usedIdx + 1) % 2 ^ 16) := by
  refine hinv.used.push hinv.size.2.2 ?_ elem
  rw [List.length_map]
  exact hroom

theorem goodEvents_take (hinv : VirtioInv w) (c : Completion) :
    (w.completed ++ [c]).take w.polled = w.completed.take w.polled :=
  List.take_append_of_le_length hinv.polled_le

theorem stray_inv (hinv : VirtioInv w) {id : Nat} (hid : w.queue.qsize ≤ id) (len : Nat)
    (hroom : w.UsedRoom) : VirtioInv (virtioStep scr w (.stray id len)) := by
  have hwaiting : (virtioStep scr w (.stray id len)).waiting = w.waiting ++ [⟨⟨id, len⟩, ⟨0, 0, 0⟩⟩] :=
    waiting_snoc hinv.polled_le _
  refine ⟨hinv.size, hinv.avail, ?_, ?_, ?_, ?_⟩
  · have hput := hinv.putUsed hroom ⟨id, len⟩
    simpa only [virtioStep, EventQueue.putUsed, List.map_append, List.map_cons, List.map_nil] using hput
  · have hreturned : (virtioStep scr w (.stray id len)).returned = w.returned := by
      unfold VirtioWorld.returned
      rw [hwaiting, List.map_append, List.filter_append]
      have hnone : [id].filter (fun id => decide (id < w.queue.qsize)) = [] :=
        List.filter_cons_of_neg (by simpa using hid)
      exact (congrArg _ hnone).trans (List.append_nil _)
    rw [hreturned]
    exact hinv.buffers
  · rw [hwaiting]
    intro c hc hlt
    rcases List.mem_append.1 hc with hold | hnew
    · exact hinv.events c hold hlt
    · rw [List.mem_singleton.1 hnew] at hlt
      exact absurd hlt (Nat.not_lt.2 hid)
  · simp only [virtioStep, EventQueue.putUsed]
    rw [goodEvents_take hinv]
    exact hinv.handled

/-- A used entry waits for each buffer that is neither available nor held, so that where all entries
name buffers a used slot is free while the device holds one. -/
theorem VirtioInv.usedRoom (hinv : VirtioInv w) {id : Nat} (hid : id ∈ w.holding)
    (hroom : (∀ c ∈ w.waiting, c.elem.id < w.queue.qsize) ∨ w.UsedRoom) : w.UsedRoom := by
  rcases hroom with hall | hroom
  · have hreturned : w.returned.length = w.waiting.length := by
      unfold VirtioWorld.returned
      rw [List.filter_eq_self.2 fun id hid => ?_, List.length_map]
      obtain ⟨c, hc, rfl⟩ := List.mem_map.1 hid
      exact decide_eq_true (hall c hc)
    have hwaiting : w.waiting.length = w.completed.length - w.polled := List.length_drop
    have hpos := List.length_pos_of_mem hid
    have hlengths := hinv.lengths
    have hle := hinv.polled_le
    unfold VirtioWorld.UsedRoom
    omega
  · exact hroom

theorem mem_returned {c : Completion} (hc : c ∈ w.waiting) (hid : c.elem.id < w.queue.qsize) :
    c.elem.id ∈ w.returned :=
  List.mem_filter.2 ⟨List.mem_map.2 ⟨c, hc, rfl⟩, decide_eq_true hid⟩

theorem complete_inv (hinv : VirtioInv w) {id : Nat} (hid : id ∈ w.holding) (len : Nat)
    (event : InputEvent) (hroom : w.UsedRoom) :
    VirtioInv (virtioStep scr w (.complete id len event)) := by
  have hwaiting : (virtioStep scr w (.complete id len event)).waiting = w.waiting ++ [⟨⟨id, len⟩, event⟩] :=
    waiting_snoc hinv.polled_le _
  have hlt : id < w.queue.qsize := by
    have hmem : id ∈ w.available ++ w.returned :=
      List.mem_append_left _ (List.mem_append_right _ hid)
    exact List.mem_range.1 (hinv.buffers.mem_iff.1 hmem)
  have hnodup : (w.available ++ w.returned).Nodup := hinv.buffers.nodup_iff.2 List.nodup_range
  refine ⟨hinv.size, hinv.avail, ?_, ?_, ?_, ?_⟩
  · have hput := hinv.putUsed hroom ⟨id, len⟩
    simpa only [virtioStep, EventQueue.putUsed, List.map_append, List.map_cons, List.map_nil] using hput
  · -- the buffer moves from those held to those returned
    have hreturned : (virtioStep scr w (.complete id len event)).returned = w.returned ++ [id] := by
      unfold VirtioWorld.returned
      rw [hwaiting, List.map_append, List.filter_append]
      have hone : [id].filter (fun id => decide (id < w.queue.qsize)) = [id] :=
        List.filter_eq_self.2 fun i hi => decide_eq_true ((List.mem_singleton.1 hi).symm ▸ hlt)
      exact congrArg _ hone
    rw [hreturned]
    refine List.Perm.trans ?_ hinv.buffers
    unfold VirtioWorld.available virtioStep EventQueue.putUsed
    dsimp only
    rw [List.append_assoc, List.append_assoc]
    refine List.Perm.append_left _ ?_
    calc w.holding.erase id ++ (w.returned ++ [id])
        = (w.holding.erase id ++ w.returned) ++ [id] := (List.append_assoc ..).symm
      _ |>.Perm (id :: (w.holding.erase id ++ w.returned)) := List.perm_append_singleton _ _
      _ |>.Perm (w.holding ++ w.returned) := (List.perm_cons_erase hid).symm.append_right _
  · rw [hwaiting]
    intro c hc hclt
    simp only [virtioStep, EventQueue.putUsed]
    rcases List.mem_append.1 hc with hold | hnew
    · -- a buffer that is held is in no entry that waits
      have hne : c.elem.id ≠ id := fun heq =>
        hnodup.disjoint (List.mem_append_right _ hid) (heq ▸ mem_returned hold hclt)
      rw [Function.update_of_ne hne]
      exact hinv.events c hold hclt
    · rw [List.mem_singleton.1 hnew, Function.update_self]
  · simp only [virtioStep, EventQueue.putUsed]
    rw [goodEvents_take hinv]
    exact hinv.handled

/-! ### Polling -/

theorem goodEvents_append (q : Nat) (cs cs' : List Completion) :
    goodEvents q (cs ++ cs') = goodEvents q cs ++ goodEvents q cs' := by
  unfold goodEvents
  rw [List.filter_append, List.map_append]

/-- The next entry to be polled, if there is one. -/
theorem VirtioInv.next (hinv : VirtioInv w) :
    (pollTurn w.queue = none ∧ w.waiting = []) ∨
      ∃ c rest, w.waiting = c :: rest ∧ w.queue.lastUsed ≠ w.queue.usedIdx ∧
        w.queue.usedRing (w.queue.lastUsed % w.queue.qsize) = c.elem ∧
        w.completed.take (w.polled + 1) = w.completed.take w.polled ++ [c] ∧
        w.completed.drop (w.polled + 1) = rest ∧ w.polled < w.completed.length := by
  have hle := hinv.polled_le
  have hempty := hinv.used.empty_iff hinv.lt_wrap
  rw [List.length_map] at hempty
  rcases Nat.lt_or_ge w.polled w.completed.length with hlt | hge
  · refine Or.inr ⟨w.completed[w.polled], w.completed.drop (w.polled + 1), ?_, ?_, ?_, ?_, rfl, hlt⟩
    · exact List.drop_eq_getElem_cons hlt
    · exact fun heq => absurd (hempty.1 heq) (Nat.ne_of_lt hlt)
    · have hfront := hinv.used.front (by rwa [List.length_map])
      rw [hfront, List.getElem_map]
    · exact List.take_succ_eq_append_getElem hlt
  · have hlast : w.queue.lastUsed = w.queue.usedIdx := hempty.2 (Nat.le_antisymm hle hge)
    exact Or.inl ⟨if_pos hlast, List.drop_eq_nil_of_le hge⟩

theorem pollTurn_inside {q : EventQueue} {elem : VqUsedElem} (hsome : q.lastUsed ≠ q.usedIdx)
    (helem : q.usedRing (q.lastUsed % q.qsize) = elem) (hid : elem.id < q.qsize) :
    pollTurn q =
      some
        ({ q with
            lastUsed := (q.lastUsed + 1) % 2 ^ 16
            availRing := Function.update q.availRing (q.availIdx % q.qsize) elem.id
            availIdx := (q.availIdx + 1) % 2 ^ 16 },
          if eventSize ≤ elem.len then some (q.evbuf elem.id) else none) := by
  unfold pollTurn
  simp [hsome, helem, hid]

theorem pollTurn_outside {q : EventQueue} {elem : VqUsedElem} (hsome : q.lastUsed ≠ q.usedIdx)
    (helem : q.usedRing (q.lastUsed % q.qsize) = elem) (hid : q.qsize ≤ elem.id) :
    pollTurn q = some ({ q with lastUsed := (q.lastUsed + 1) % 2 ^ 16 }, none) := by
  unfold pollTurn
  simp [hsome, helem, Nat.not_lt.2 hid]

theorem goodEvents_one (q : Nat) (c : Completion) :
    goodEvents q [c] = if c.elem.id < q ∧ eventSize ≤ c.elem.len then [c.event] else [] := by
  unfold goodEvents
  by_cases hgood : c.elem.id < q ∧ eventSize ≤ c.elem.len <;> simp [hgood]

/-- Polling an entry that names a buffer. -/
theorem virtioStep_inside {c : Completion} (hsome : w.queue.lastUsed ≠ w.queue.usedIdx)
    (helem : w.queue.usedRing (w.queue.lastUsed % w.queue.qsize) = c.elem)
    (hid : c.elem.id < w.queue.qsize) (hevent : w.queue.evbuf c.elem.id = c.event) :
    virtioStep scr w .poll =
      { w with
        queue :=
          { w.queue with
            lastUsed := (w.queue.lastUsed + 1) % 2 ^ 16
            availRing := Function.update w.queue.availRing (w.queue.availIdx % w.queue.qsize) c.elem.id
            availIdx := (w.queue.availIdx + 1) % 2 ^ 16 }
        tablet := (goodEvents w.queue.qsize [c]).foldl (handleEvent scr) w.tablet
        published := w.published ++ [c.elem.id]
        polled := w.polled + 1
        handled := w.handled ++ goodEvents w.queue.qsize [c] } := by
  unfold virtioStep
  rw [pollTurn_inside hsome helem hid, helem, goodEvents_one, hevent]
  by_cases hlen : eventSize ≤ c.elem.len <;> simp [hid, hlen]

/-- Polling an entry that names none. -/
theorem virtioStep_outside {c : Completion} (hsome : w.queue.lastUsed ≠ w.queue.usedIdx)
    (helem : w.queue.usedRing (w.queue.lastUsed % w.queue.qsize) = c.elem)
    (hid : w.queue.qsize ≤ c.elem.id) :
    virtioStep scr w .poll =
      { w with
        queue := { w.queue with lastUsed := (w.queue.lastUsed + 1) % 2 ^ 16 }
        polled := w.polled + 1
        handled := w.handled ++ goodEvents w.queue.qsize [c] } := by
  unfold virtioStep
  rw [pollTurn_outside hsome helem hid, helem, goodEvents_one]
  simp [Nat.not_lt.2 hid]

theorem returned_cons {c : Completion} {rest : List Completion} (hwaiting : w.waiting = c :: rest) :
    w.returned = (if c.elem.id < w.queue.qsize then [c.elem.id] else []) ++
      (rest.map fun c => c.elem.id).filter fun id => id < w.queue.qsize := by
  unfold VirtioWorld.returned
  rw [hwaiting, List.map_cons, List.filter_cons]
  by_cases hid : c.elem.id < w.queue.qsize <;> simp [hid]

/-- The entry's buffer moves from those returned to the end of the available ring. -/
theorem poll_inv (hinv : VirtioInv w) : VirtioInv (virtioStep scr w .poll) := by
  rcases hinv.next with ⟨hnone, -⟩ | ⟨c, rest, hwaiting, hsome, helem, htake, hdrop, hlt⟩
  · have hstep : virtioStep scr w .poll = w := by
      unfold virtioStep
      rw [hnone]
    rw [hstep]
    exact hinv
  · have hused := hinv.used.pop (by rwa [List.length_map])
    have hreturned := returned_cons hwaiting
    have hevents : ∀ c' ∈ rest, c'.elem.id < w.queue.qsize → w.queue.evbuf c'.elem.id = c'.event :=
      fun c' hc' => hinv.events c' (hwaiting ▸ List.mem_cons_of_mem c hc')
    have hhandled : w.handled ++ goodEvents w.queue.qsize [c] =
        goodEvents w.queue.qsize (w.completed.take (w.polled + 1)) := by
      rw [htake, goodEvents_append, hinv.handled]
    rcases Nat.lt_or_ge c.elem.id w.queue.qsize with hid | hid
    · have hroom : w.published.length < w.taken + w.queue.qsize := by
        have hlengths := hinv.lengths
        have hle := hinv.avail.done_le
        rw [hreturned, if_pos hid, List.length_append, List.length_singleton] at hlengths
        omega
      rw [virtioStep_inside hsome helem hid (hinv.events c (hwaiting ▸ List.mem_cons_self) hid)]
      refine ⟨hinv.size, hinv.avail.push hinv.size.2.2 hroom _, hused, ?_, ?_, hhandled⟩
      · refine List.Perm.trans ?_ hinv.buffers
        rw [hreturned, if_pos hid]
        unfold VirtioWorld.available VirtioWorld.returned VirtioWorld.waiting
        dsimp only
        rw [hdrop, List.drop_append_of_le_length hinv.avail.done_le]
        simp only [List.append_assoc]
        refine List.Perm.append_left _ ?_
        rw [← List.append_assoc, ← List.append_assoc]
        exact List.perm_append_comm.append_right _
      · unfold VirtioWorld.waiting
        dsimp only
        rw [hdrop]
        exact hevents
    · rw [virtioStep_outside hsome helem hid]
      refine ⟨hinv.size, hinv.avail, hused, ?_, ?_, hhandled⟩
      · have hsame : w.returned = (rest.map fun c => c.elem.id).filter fun id => id < w.queue.qsize := by
          rw [hreturned, if_neg (Nat.not_lt.2 hid), List.nil_append]
        have hbuffers := hinv.buffers
        rw [hsame] at hbuffers
        unfold VirtioWorld.returned VirtioWorld.waiting
        dsimp only
        rw [hdrop]
        exact hbuffers
      · unfold VirtioWorld.waiting
        dsimp only
        rw [hdrop]
        exact hevents

theorem virtioStep_inv (hinv : VirtioInv w) (hallowed : virtioAllowed w op) : VirtioInv (virtioStep scr w op) := by
  cases op with
  | take => exact take_inv hinv hallowed
  | complete id len event =>
    exact complete_inv hinv hallowed.1 len event (hinv.usedRoom hallowed.1 hallowed.2)
  | stray id len => exact stray_inv hinv hallowed.1 len hallowed.2
  | poll => exact poll_inv hinv
  | outside wm => exact ⟨hinv.size, hinv.avail, hinv.used, hinv.buffers, hinv.events, hinv.handled⟩

end Steps

theorem eventqSetup_eq {devQsize descPhys availPhys usedPhys evbPhys : Nat} {q : EventQueue}
    (h : eventqSetup devQsize descPhys availPhys usedPhys evbPhys = some q) :
    0 < devQsize ∧ q.qsize = min devQsize vqSize ∧ q.lastUsed = 0 ∧ q.availIdx = q.qsize ∧
      q.availRing = (fun i => if i < q.qsize then i else 0) ∧ q.usedIdx = 0 := by
  unfold eventqSetup at h
  by_cases hzero : devQsize = 0
  · rw [if_pos hzero] at h
    cases h
  · rw [if_neg hzero] at h
    dsimp only at h
    split at h
    · cases h
    · cases h
      refine ⟨Nat.pos_of_ne_zero hzero, ?_, rfl, rfl, rfl, rfl⟩
      dsimp only
      split <;> omega

theorem virtioStart_inv {devQsize : Nat} (hsize : min devQsize vqSize ∣ 2 ^ 16) {w : VirtioWorld}
    (h : VirtioStart devQsize w) : VirtioInv w := by
  obtain ⟨⟨descPhys, availPhys, usedPhys, evbPhys, hsetup⟩, hlastAvail, hholding, hpublished, htaken,
    hcompleted, hpolled, hhandled⟩ := h
  obtain ⟨hpos, hq, hlastUsed, havailIdx, havailRing, husedIdx⟩ := eventqSetup_eq hsetup
  have hle : w.queue.qsize ≤ vqSize := by
    rw [hq]
    exact Nat.min_le_right _ _
  have hwrap : w.queue.qsize < 2 ^ 16 := Nat.lt_of_le_of_lt hle (by decide)
  refine ⟨⟨?_, hle, hq ▸ hsize⟩, ⟨?_, ?_, ?_, ?_, ?_⟩, ⟨?_, ?_, ?_, ?_, ?_⟩, ?_, ?_, ?_⟩
  · rw [hq]
    exact Nat.lt_min.2 ⟨hpos, by decide⟩
  · rw [htaken]
    exact Nat.zero_le _
  · rw [hpublished, htaken, List.length_range, Nat.zero_add]
  · rw [hlastAvail, htaken, Nat.zero_mod]
  · rw [havailIdx, hpublished, List.length_range, Nat.mod_eq_of_lt hwrap]
  · intro k hk _
    simp only [hpublished, List.length_range] at hk
    simp only [hpublished, List.getElem_range, havailRing]
    rw [Nat.mod_eq_of_lt (Nat.lt_trans hk hwrap), Nat.mod_eq_of_lt hk, if_pos hk]
  · rw [hpolled]
    exact Nat.zero_le _
  · rw [hcompleted]
    exact Nat.zero_le _
  · rw [hlastUsed, hpolled, Nat.zero_mod]
  · rw [husedIdx, hcompleted]
    rfl
  · intro k hk
    rw [hcompleted] at hk
    exact absurd hk (Nat.not_lt_zero k)
  · unfold VirtioWorld.available VirtioWorld.returned VirtioWorld.waiting
    rw [hpublished, htaken, hholding, hcompleted, hpolled]
    simp
  · unfold VirtioWorld.waiting
    rw [hcompleted]
    simp
  · rw [hhandled, hcompleted, hpolled]
    rfl

section Runs

variable {scr : Screen} {devQsize : Nat} {w : VirtioWorld}

theorem virtioReach_inv (hrun : VirtioReach scr devQsize w) (hsize : min devQsize vqSize ∣ 2 ^ 16) :
    VirtioInv w := by
  refine hrun.invariant (fun w hstart => virtioStart_inv hsize hstart) fun w op w' hinv _ hstep => ?_
  obtain ⟨hallowed, rfl⟩ := hstep
  exact virtioStep_inv hinv hallowed

/-- A whole call takes as many turns as entries wait. -/
theorem pollTurns_run (hsize : min devQsize vqSize ∣ 2 ^ 16) (n : Nat) :
    ∀ {w : VirtioWorld}, VirtioReach scr devQsize w → w.waiting.length = n →
      ∃ w', VirtioReach scr devQsize w' ∧ (pollTurns n w.queue).1 = w'.queue ∧
        (pollTurns n w.queue).2.foldl (handleEvent scr) w.tablet = w'.tablet ∧
        w'.completed = w.completed ∧ w'.polled = w.completed.length := by
  induction n with
  | zero =>
    intro w hrun hn
    have hle := (virtioReach_inv hrun hsize).polled_le
    have hlen : w.completed.length - w.polled = 0 := List.length_drop.symm.trans hn
    exact ⟨w, hrun, rfl, rfl, rfl, by omega⟩
  | succ n ih =>
    intro w hrun hn
    rcases (virtioReach_inv hrun hsize).next with ⟨-, hnil⟩ | ⟨c, rest, hwaiting, hsome, -, -, hdrop, hlt⟩
    · rw [hnil] at hn
      cases hn
    · have hnext : VirtioReach scr devQsize (virtioStep scr w .poll) :=
        .step (a := .poll) hrun trivial ⟨trivial, rfl⟩
      cases hturn : pollTurn w.queue with
      | none =>
        unfold pollTurn at hturn
        rw [if_neg hsome] at hturn
        dsimp only at hturn
        split at hturn <;> cases hturn
      | some r =>
        obtain ⟨q, handled⟩ := r
        have hpolled : (virtioStep scr w .poll).polled = w.polled + 1 := by
          unfold virtioStep
          rw [hturn]
        have hcompleted : (virtioStep scr w .poll).completed = w.completed := by
          unfold virtioStep
          rw [hturn]
        have hqueue : (virtioStep scr w .poll).queue = q := by
          unfold virtioStep
          rw [hturn]
        have htablet : (virtioStep scr w .poll).tablet = handled.toList.foldl (handleEvent scr) w.tablet := by
          unfold virtioStep
          rw [hturn]
        have hlen : (virtioStep scr w .poll).waiting.length = n := by
          unfold VirtioWorld.waiting
          rw [hcompleted, hpolled, hdrop]
          rw [hwaiting, List.length_cons] at hn
          exact Nat.succ.inj hn
        obtain ⟨w', hreach, hqueue', htablet', hcompleted', hpolled'⟩ := ih hnext hlen
        rw [hqueue] at hqueue' htablet'
        rw [htablet] at htablet'
        rw [hcompleted] at hcompleted' hpolled'
        refine ⟨w', hreach, ?_, ?_, hcompleted', hpolled'⟩
        · unfold pollTurns
          rw [hturn]
          exact hqueue'
        · unfold pollTurns
          rw [hturn]
          dsimp only
          rw [List.foldl_append]
          exact htablet'

theorem virtioInputPoll_run (hrun : VirtioReach scr devQsize w) (hsize : min devQsize vqSize ∣ 2 ^ 16) :
    ∃ w', VirtioReach scr devQsize w' ∧ virtioInputPoll scr w.queue w.tablet = (w'.queue, w'.tablet) ∧
      w'.completed = w.completed ∧ w'.polled = w.completed.length := by
  have hinv := virtioReach_inv hrun hsize
  have hturns : (w.queue.usedIdx + 2 ^ 16 - w.queue.lastUsed) % 2 ^ 16 = w.waiting.length := by
    have hround := hinv.used.round
    have hle := hinv.polled_le
    have hwrap := hinv.lt_wrap
    have hlen : w.waiting.length = w.completed.length - w.polled := List.length_drop
    rw [List.length_map] at hround
    rw [hinv.used.reader_eq, hinv.used.writer_eq, List.length_map, hlen]
    omega
  obtain ⟨w', hreach, hqueue, htablet, hcompleted, hpolled⟩ := pollTurns_run hsize _ hrun rfl
  refine ⟨w', hreach, ?_, hcompleted, hpolled⟩
  unfold virtioInputPoll
  rw [hturns]
  exact Prod.ext hqueue htablet

/-- What polling does with the first entry that waits: an event that is too short is not handled, but
its buffer goes back. -/
theorem virtioStep_poll (hrun : VirtioReach scr devQsize w) (hsize : min devQsize vqSize ∣ 2 ^ 16)
    {c : Completion} {rest : List Completion} (hwaiting : w.waiting = c :: rest) :
    (virtioStep scr w .poll).waiting = rest ∧
      (virtioStep scr w .poll).handled = w.handled ++ goodEvents w.queue.qsize [c] ∧
      (virtioStep scr w .poll).published =
        w.published ++ if c.elem.id < w.queue.qsize then [c.elem.id] else [] := by
  have hinv := virtioReach_inv hrun hsize
  rcases hinv.next with ⟨-, hnil⟩ | ⟨c', rest', hwaiting', hsome, helem, -, hdrop, -⟩
  · rw [hnil] at hwaiting
    cases hwaiting
  · rw [hwaiting] at hwaiting'
    obtain ⟨rfl, rfl⟩ := List.cons.inj hwaiting'
    rcases Nat.lt_or_ge c.elem.id w.queue.qsize with hid | hid
    · rw [virtioStep_inside hsome helem hid (hinv.events c (hwaiting ▸ List.mem_cons_self) hid), if_pos hid]
      exact ⟨hdrop, rfl, rfl⟩
    · rw [virtioStep_outside hsome helem hid, if_neg (Nat.not_lt.2 hid), List.append_nil]
      exact ⟨hdrop, rfl, rfl⟩

/-- In every history, events are handled once each and in the order they are completed, every buffer
is in one place, and the device finds in the available ring what was put there. -/
theorem event_ring (hrun : VirtioReach scr devQsize w) (hsize : min devQsize vqSize ∣ 2 ^ 16) :
    w.handled = goodEvents w.queue.qsize (w.completed.take w.polled) ∧
      (w.available ++ w.returned).Perm (List.range w.queue.qsize) ∧
      (∀ k (h : k < w.published.length), w.taken ≤ k →
        w.queue.availRing (k % 2 ^ 16 % w.queue.qsize) = w.published[k]) ∧
      (∀ c rest, w.waiting = c :: rest →
        (virtioStep scr w .poll).waiting = rest ∧
          (virtioStep scr w .poll).handled = w.handled ++ goodEvents w.queue.qsize [c] ∧
          (virtioStep scr w .poll).published =
            w.published ++ if c.elem.id < w.queue.qsize then [c.elem.id] else []) ∧
      ∃ w', VirtioReach scr devQsize w' ∧ virtioInputPoll scr w.queue w.tablet = (w'.queue, w'.tablet) ∧
        w'.completed = w.completed ∧ w'.polled = w.completed.length := by
  have hinv := virtioReach_inv hrun hsize
  exact ⟨hinv.handled, hinv.buffers, hinv.avail.held, fun c rest hwaiting => virtioStep_poll hrun hsize hwaiting,
    virtioInputPoll_run hrun hsize⟩

end Runs

/-! ## One event at a time -/

def startQueue (qsize : Nat) : EventQueue :=
  ⟨qsize, 0, fun i => if i < qsize then ⟨4096 + i * eventSize, eventSize, virtqDescFWrite, 0⟩ else ⟨0, 0, 0, 0⟩,
    qsize, fun i => if i < qsize then i else 0, 0, fun _ => ⟨0, 0⟩, fun _ => ⟨0, 0, 0⟩⟩

def startWorld (qsize : Nat) : VirtioWorld :=
  ⟨startQueue qsize, ⟨0, 0, false, 0, wmInit⟩, 0, [], List.range qsize, 0, [], 0, []⟩

def report : InputEvent := ⟨evSyn, synReport, 0⟩

/-- The device takes a buffer and completes it, and the driver polls. -/
def oneEvent (scr : Screen) (w : VirtioWorld) : VirtioWorld :=
  virtioStep scr
    (virtioStep scr (virtioStep scr w .take)
      (.complete (w.queue.availRing (w.lastAvail % w.queue.qsize)) eventSize report)) .poll

theorem startWorld_reached (scr : Screen) {qsize : Nat} (hpos : 0 < qsize) (hle : qsize ≤ vqSize) :
    VirtioReach scr qsize (startWorld qsize) := by
  refine .start ⟨⟨1, 1, 1, 4096, ?_⟩, rfl, rfl, rfl, rfl, rfl, rfl, rfl⟩
  unfold eventqSetup
  rw [if_neg (Nat.pos_iff_ne_zero.1 hpos)]
  simp [Nat.not_lt.2 hle, startWorld, startQueue]

/-- Nothing is held or waits, and there is something to take. -/
structure Between (w : VirtioWorld) : Prop where
  size : 0 < w.queue.qsize
  some : w.lastAvail ≠ w.queue.availIdx
  holding : w.holding = []
  polled : w.completed.length = w.polled
  lastUsed : w.queue.lastUsed = w.queue.usedIdx
  usedIdx : w.queue.usedIdx < 2 ^ 16
  inside : w.queue.availRing (w.lastAvail % w.queue.qsize) < w.queue.qsize

theorem oneEvent_reached {scr : Screen} {devQsize : Nat} {w : VirtioWorld} (h : Between w)
    (hrun : VirtioReach scr devQsize w) : VirtioReach scr devQsize (oneEvent scr w) := by
  have htake : VirtioReach scr devQsize (virtioStep scr w .take) :=
    .step (a := .take) hrun trivial ⟨h.some, rfl⟩
  refine .step (a := .poll) (.step (a := .complete _ eventSize report) htake trivial ⟨⟨?_, ?_⟩, rfl⟩) trivial
    ⟨trivial, rfl⟩
  · exact List.mem_append_right _ (List.mem_singleton.2 rfl)
  · refine Or.inr ?_
    have hpos := h.size
    have hpolled := h.polled
    show w.completed.length < w.polled + w.queue.qsize
    omega

/-- The buffer goes to the end of the available ring, whatever its slot holds. -/
theorem oneEvent_eq {scr : Screen} {w : VirtioWorld} (h : Between w) :
    let id := w.queue.availRing (w.lastAvail % w.queue.qsize)
    let w' := oneEvent scr w
    w'.queue.qsize = w.queue.qsize ∧
      w'.queue.availRing = Function.update w.queue.availRing (w.queue.availIdx % w.queue.qsize) id ∧
      w'.queue.availIdx = (w.queue.availIdx + 1) % 2 ^ 16 ∧
      w'.lastAvail = (w.lastAvail + 1) % 2 ^ 16 ∧
      w'.published = w.published ++ [id] ∧ w'.taken = w.taken + 1 ∧ w'.holding = [] ∧
      w'.completed.length = w'.polled ∧ w'.queue.lastUsed = w'.queue.usedIdx ∧
      w'.queue.usedIdx < 2 ^ 16 := by
  intro id w'
  have hne : w.queue.lastUsed ≠ (w.queue.usedIdx + 1) % 2 ^ 16 := by
    have hlt := h.usedIdx
    rw [h.lastUsed]
    omega
  have hw' : w' = _ :=
    @virtioStep_inside scr (virtioStep scr (virtioStep scr w .take) (.complete id eventSize report))
      ⟨⟨id, eventSize⟩, report⟩ hne (by simp [virtioStep, EventQueue.putUsed, h.lastUsed]) h.inside
      (by simp [virtioStep, EventQueue.putUsed])
  rw [hw']
  simp [virtioStep, EventQueue.putUsed, h.holding, h.polled, h.lastUsed, Nat.mod_lt, id]

theorem startWorld_between {qsize : Nat} (hpos : 0 < qsize) : Between (startWorld qsize) := by
  refine ⟨hpos, Nat.ne_of_lt hpos, rfl, rfl, rfl, Nat.two_pow_pos 16, ?_⟩
  show (if 0 % qsize < qsize then 0 % qsize else 0) < qsize
  rw [Nat.zero_mod, if_pos hpos]
  exact hpos

/-- An event in a queue of sixty-four. -/
theorem event_ring_one : (oneEvent modeScreen (startWorld 64)).handled = [report] := by
  have hrun : VirtioReach modeScreen 64 _ := oneEvent_reached (startWorld_between (by decide))
    (startWorld_reached modeScreen (by decide) (by decide))
  exact (event_ring hrun (by decide)).1

/-- A queue of three after `n` events. -/
structure ThreeAfter (n : Nat) (w : VirtioWorld) : Prop where
  between : Between w
  qsize : w.queue.qsize = 3
  availRing : ∀ i < 3, w.queue.availRing i = i
  availIdx : w.queue.availIdx = (n + 3) % 2 ^ 16
  lastAvail : w.lastAvail = n % 2 ^ 16
  published : w.published = (List.range (n + 3)).map (· % 3)
  taken : w.taken = n

theorem ThreeAfter.next {scr : Screen} {n : Nat} {w : VirtioWorld} (h : ThreeAfter n w) (hn : n + 3 < 2 ^ 16) :
    ThreeAfter (n + 1) (oneEvent scr w) := by
  have hid : w.queue.availRing (w.lastAvail % w.queue.qsize) = n % 3 := by
    have hsmall : n % 2 ^ 16 = n := Nat.mod_eq_of_lt (by omega)
    rw [h.lastAvail, hsmall, h.qsize, h.availRing _ (Nat.mod_lt _ (by decide))]
  obtain ⟨hqsize, havailRing, havailIdx, hlastAvail, hpublished, htaken, hholding, hpolled, hlastUsed, husedIdx⟩ :=
    @oneEvent_eq scr w h.between
  rw [hid] at havailRing hpublished
  rw [h.qsize] at hqsize havailRing
  have hring : ∀ i < 3, (oneEvent scr w).queue.availRing i = i := by
    intro i hi
    rw [havailRing, h.availIdx, Nat.mod_eq_of_lt hn, Nat.add_mod_right]
    by_cases hsame : i = n % 3
    · rw [hsame, Function.update_self]
    · rw [Function.update_of_ne hsame, h.availRing i hi]
  have hnext : (oneEvent scr w).lastAvail = (n + 1) % 2 ^ 16 := by
    rw [hlastAvail, h.lastAvail, Nat.mod_add_mod]
  have hidx : (oneEvent scr w).queue.availIdx = (n + 1 + 3) % 2 ^ 16 := by
    rw [havailIdx, h.availIdx, Nat.mod_add_mod]
  refine ⟨⟨?_, ?_, hholding, hpolled, hlastUsed, husedIdx, ?_⟩, hqsize, hring, hidx, hnext, ?_, ?_⟩
  · rw [hqsize]
    decide
  · rw [hnext, hidx]
    omega
  · rw [hqsize, hring _ (Nat.mod_lt _ (by decide))]
    exact Nat.mod_lt _ (by decide)
  · have hlast : (n + 3) % 3 = n % 3 := Nat.add_mod_right n 3
    rw [hpublished, h.published, show n + 1 + 3 = (n + 3) + 1 by omega, @List.range_succ (n + 3),
      List.map_append, List.map_singleton, hlast]
  · rw [htaken, h.taken]

theorem threeAfter_reached (scr : Screen) (n : Nat) (hn : n + 3 ≤ 2 ^ 16) :
    ∃ w, VirtioReach scr 3 w ∧ ThreeAfter n w := by
  induction n with
  | zero =>
    refine ⟨startWorld 3, startWorld_reached scr (by decide) (by decide), startWorld_between (by decide), rfl,
      ?_, rfl, rfl, by decide, rfl⟩
    intro i hi
    exact if_pos hi
  | succ n ih =>
    obtain ⟨w, hrun, hafter⟩ := ih (by omega)
    exact ⟨oneEvent scr w, oneEvent_reached hafter.between hrun, hafter.next (by omega)⟩

/-- Where the counter wraps, the driver's place in a ring of three jumps back, and the buffer goes into
a slot that the device has yet to read. -/
theorem available_slot_overwritten : ∃ w, VirtioReach modeScreen 3 w ∧
    ∃ k, ∃ h : k < w.published.length, w.taken ≤ k ∧
      w.queue.availRing (k % 2 ^ 16 % w.queue.qsize) ≠ w.published[k] := by
  obtain ⟨w, hrun, hafter⟩ := threeAfter_reached modeScreen 65533 (by decide)
  have hid : w.queue.availRing (w.lastAvail % w.queue.qsize) = 1 := by
    rw [hafter.lastAvail, hafter.qsize]
    exact hafter.availRing 1 (by decide)
  obtain ⟨hqsize, havailRing, -, -, hpublished, htaken, -⟩ := @oneEvent_eq modeScreen w hafter.between
  rw [hid, hafter.availIdx, hafter.qsize] at havailRing
  rw [hid, hafter.published] at hpublished
  have hlen : 65535 < (oneEvent modeScreen w).published.length := by
    rw [hpublished]
    simp
  refine ⟨oneEvent modeScreen w, oneEvent_reached hafter.between hrun, 65535, hlen, ?_, ?_⟩
  · rw [htaken, hafter.taken]
    decide
  · have hslot : (oneEvent modeScreen w).queue.availRing (65535 % 2 ^ 16 % (oneEvent modeScreen w).queue.qsize) = 1 := by
      rw [hqsize, hafter.qsize, havailRing]
      exact Function.update_self ..
    have hwritten : (oneEvent modeScreen w).published[65535] = 0 := by
      simp [hpublished]
    rw [hslot, hwritten]
    decide

end MeuOS.Input
