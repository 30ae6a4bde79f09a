import MeuOS.Ps.Indexes

/-! Histories of process and thread ids. What the `PspCidTable` holds and what the list of
objects holds are both told by how an object was created and whether it has ended, so a
lookup is right exactly when one of the two holds each live object and none holds another. -/
namespace MeuOS.Ps

open MeuOS.Lib MeuOS.Mm
open MeuOS.Ob (objectHeader maxObjects)

/-! ## Histories -/

/-- `Terminated`. -/
def PsState.ended (s : PsState) : CidKind → Nat → Bool
  | .process, body => (s.process body).terminated
  | .thread, body => (s.thread body).terminated

def PsState.nextId (s : PsState) : CidKind → Nat
  | .process => s.sNextPid
  | .thread => s.sNextTid

/-- A process not yet terminated, or a thread of one. -/
def PsState.live (s : PsState) : CidKind → Nat → Prop
  | .process, p => s.objType p = obTypeProcess ∧ (s.process p).terminated = false
  | .thread, t => s.objType t = obTypeThread ∧ (s.thread t).process ≠ 0 ∧
      (s.process (s.thread t).process).terminated = false

structure PsWorld where
  ps : PsState
  /-- The objects for which the table had a free entry when they were created. -/
  indexed : Nat → Bool

inductive PsOp
  | createProcess (hdr : Nat)
  | createThread (hdr proc : Nat)
  /-- An object of another type. -/
  | createObject (hdr type : Nat)
  | terminateProcess (proc status : Nat)
  | createSystemThread (startRoutine : Nat)
  | systemThreadReturns (tid : Nat)

def psStep (w : PsWorld) : PsOp → PsWorld
  | .createProcess hdr =>
      { ps := (psCreateProcess w.ps hdr).1
        indexed := Function.update w.indexed (hdr + objectHeader) (cidFindFree w.ps).isSome }
  | .createThread hdr proc =>
      { ps := (psCreateThread w.ps hdr proc).1
        indexed := Function.update w.indexed (hdr + objectHeader) (cidFindFree w.ps).isSome }
  | .createObject hdr type => { w with ps := (obCreateObject w.ps hdr type).1 }
  | .terminateProcess proc status => { w with ps := psTerminateProcess w.ps proc status }
  | .createSystemThread startRoutine =>
      let r := Ob.psCreateSystemThread w.ps.sTid startRoutine
      { w with ps := { w.ps with sTid := r.1, running := r.2.2.toList ++ w.ps.running } }
  | .systemThreadReturns tid => { w with ps := { w.ps with running := w.ps.running.erase tid } }

/-- What `kmalloc` answers: nothing, or a block of the heap that no object is in. -/
def Answer (s : PsState) (hdr : Nat) : Prop :=
  hdr ≠ 0 → heapBase ≤ hdr ∧ hdr + objectHeader < heapBase + heapSize ∧
    s.objType (hdr + objectHeader) = 0

/-- A process that is passed is one. -/
def IsProcess (s : PsState) (proc : Nat) : Prop := proc = 0 ∨ s.objType proc = obTypeProcess

def Proper (w : PsWorld) : PsOp → Prop
  | .createProcess hdr => Answer w.ps hdr
  | .createThread hdr proc => Answer w.ps hdr ∧ IsProcess w.ps proc
  | .createObject hdr type =>
      Answer w.ps hdr ∧ type ≠ 0 ∧ type ≠ obTypeProcess ∧ type ≠ obTypeThread
  | .terminateProcess proc _ => IsProcess w.ps proc
  | _ => True

/-- The objects of a kind. -/
def objectsOf (objType : Nat → Nat) (k : CidKind) : Finset Nat :=
  (Finset.Ico heapBase (heapBase + heapSize)).filter fun b => objType b = k.obType

structure PsInv (w : PsWorld) : Prop where
  room : w.ps.sAll.length ≤ maxObjects
  heap : ∀ b, w.ps.objType b ≠ 0 → heapBase ≤ b ∧ b < heapBase + heapSize
  count : ∀ k, w.ps.nextId k = 1 + (objectsOf w.ps.objType k).card
  ids : ∀ k b, w.ps.objType b = k.obType → 0 < w.ps.clientId k b ∧ w.ps.clientId k b < w.ps.nextId k
  distinct : ∀ k b b', w.ps.objType b = k.obType → w.ps.objType b' = k.obType →
    w.ps.clientId k b = w.ps.clientId k b' → b = b'
  table : ∀ k c b, Holds w.ps k c b ↔ w.ps.objType b = k.obType ∧ w.ps.clientId k b = c ∧
    w.indexed b = true ∧ w.ps.ended k b = false
  one : OneEntry w.ps
  first : ∀ p, w.ps.objType p = obTypeProcess →
    (w.ps.process p).thread = 0 ∨ w.ps.objType (w.ps.process p).thread = obTypeThread

/-- What creating an object of a kind does. -/
structure Born (k : CidKind) (body : Nat) (s s' : PsState) : Prop where
  objType : s'.objType = Function.update s.objType body k.obType
  sAll : s'.sAll = if s.sAll.length < maxObjects then s.sAll ++ [body] else s.sAll
  clientId : ∀ k' b, s'.clientId k' b = if k' = k ∧ b = body then s.nextId k else s.clientId k' b
  ended : ∀ k' b, s'.ended k' b = if k' = k ∧ b = body then false else s.ended k' b
  nextId : ∀ k', s'.nextId k' = if k' = k then (s.nextId k + 1) % 2 ^ 32 else s.nextId k'
  one : OneEntry s'
  holds : ∀ k' c b, Holds s' k' c b ↔
    Holds s k' c b ∨ (cidFindFree s).isSome = true ∧ k' = k ∧ c = s.nextId k ∧ b = body

section Creation

variable {w : PsWorld} {s s' : PsState} {k k' : CidKind} {body hdr proc : Nat}

theorem CidKind.obType_ne_zero (k : CidKind) : k.obType ≠ 0 := by
  cases k <;> decide

theorem CidKind.obType_inj (h : k.obType = k'.obType) : k = k' := by
  cases k <;> cases k' <;> first | rfl | exact absurd h (by decide)

theorem PsInv.nextId_small (h : PsInv w) (k : CidKind) :
    0 < w.ps.nextId k ∧ w.ps.nextId k + 1 < 2 ^ 32 := by
  have hcard : (objectsOf w.ps.objType k).card ≤ (Finset.Ico heapBase (heapBase + heapSize)).card :=
    Finset.card_filter_le ..
  rw [Nat.card_Ico, Nat.add_sub_cancel_left] at hcard
  have hsize : heapSize = 16777216 := rfl
  have hcount := h.count k
  omega

/-- The ids still to be given have no entry. -/
theorem PsInv.fresh (h : PsInv w) (k : CidKind) (b : Nat) : ¬Holds w.ps k (w.ps.nextId k) b := by
  intro hholds
  obtain ⟨htype, hid, -⟩ := (h.table k _ b).mp hholds
  have hlt := (h.ids k b htype).2
  omega

theorem objectsOf_update (hbody : heapBase ≤ body ∧ body < heapBase + heapSize)
    {objType : Nat → Nat} (hfree : objType body = 0) {type : Nat} (k : CidKind) :
    (objectsOf (Function.update objType body type) k).card =
      (objectsOf objType k).card + if type = k.obType then 1 else 0 := by
  have hnot : body ∉ objectsOf objType k := fun hmem => by
    have htype := (Finset.mem_filter.mp hmem).2
    rw [hfree] at htype
    exact k.obType_ne_zero htype.symm
  have hmem : ∀ b, b ∈ objectsOf (Function.update objType body type) k ↔
      b ∈ objectsOf objType k ∨ b = body ∧ type = k.obType := fun b => by
    unfold objectsOf
    rw [Finset.mem_filter, Finset.mem_filter, Finset.mem_Ico]
    by_cases hb : b = body
    · subst hb
      rw [Function.update_self]
      simp [hbody, hfree, k.obType_ne_zero.symm]
    · rw [Function.update_of_ne hb]
      simp [hb]
  by_cases htype : type = k.obType
  · have heq : objectsOf (Function.update objType body type) k = insert body (objectsOf objType k) := by
      ext b
      rw [hmem, Finset.mem_insert]
      simp [htype, or_comm]
    rw [heq, Finset.card_insert_of_notMem hnot, if_pos htype]
  · have heq : objectsOf (Function.update objType body type) k = objectsOf objType k := by
      ext b
      rw [hmem]
      simp [htype]
    rw [heq, if_neg htype, Nat.add_zero]

theorem psInv_born (h : PsInv w) (hbody : heapBase ≤ body ∧ body < heapBase + heapSize)
    (hfree : w.ps.objType body = 0) (hborn : Born k body w.ps s')
    (hfirst : ∀ p, s'.objType p = obTypeProcess →
      (s'.process p).thread = 0 ∨ s'.objType (s'.process p).thread = obTypeThread) :
    PsInv ⟨s', Function.update w.indexed body (cidFindFree w.ps).isSome⟩ := by
  obtain ⟨hpos, hsmall⟩ := h.nextId_small k
  -- an object of a kind is the new one, or an old one
  have hkind : ∀ k' b, s'.objType b = k'.obType → (k' = k ∧ b = body) ∨
      ¬(k' = k ∧ b = body) ∧ b ≠ body ∧ w.ps.objType b = k'.obType := fun k' b htype => by
    rw [hborn.objType] at htype
    by_cases hb : b = body
    · rw [hb, Function.update_self] at htype
      exact .inl ⟨(CidKind.obType_inj htype).symm, hb⟩
    · rw [Function.update_of_ne hb] at htype
      exact .inr ⟨fun hboth => hb hboth.2, hb, htype⟩
  refine ⟨?_, fun b hb => ?_, fun k' => ?_, fun k' b htype => ?_, fun k' b b' htype htype' hid => ?_,
    fun k' c b => ?_, hborn.one, hfirst⟩
  · change s'.sAll.length ≤ maxObjects
    rw [hborn.sAll]
    have hroom := h.room
    split
    · rw [List.length_append, List.length_singleton]
      omega
    · exact hroom
  · change s'.objType b ≠ 0 at hb
    rw [hborn.objType] at hb
    by_cases hbb : b = body
    · exact hbb ▸ hbody
    · rw [Function.update_of_ne hbb] at hb
      exact h.heap b hb
  · change s'.nextId k' = 1 + (objectsOf s'.objType k').card
    rw [hborn.nextId, hborn.objType, objectsOf_update hbody hfree, h.count k]
    rw [h.count k] at hsmall
    by_cases hk : k' = k
    · rw [if_pos hk, hk, if_pos rfl]
      omega
    · rw [if_neg hk, if_neg fun heq => hk (CidKind.obType_inj heq).symm]
      exact h.count k'
  · change 0 < s'.clientId k' b ∧ s'.clientId k' b < s'.nextId k'
    rw [hborn.clientId, hborn.nextId]
    rcases hkind k' b htype with hnew | ⟨hnot, -, hold⟩
    · rw [if_pos hnew, if_pos hnew.1]
      omega
    · rw [if_neg hnot]
      obtain ⟨hlow, hhigh⟩ := h.ids k' b hold
      split
      · rename_i hk
        rw [hk] at hlow hhigh ⊢
        omega
      · exact ⟨hlow, hhigh⟩
  · change s'.clientId k' b = s'.clientId k' b' at hid
    rw [hborn.clientId, hborn.clientId] at hid
    rcases hkind k' b htype with hnew | ⟨hnot, -, hold⟩ <;>
      rcases hkind k' b' htype' with hnew' | ⟨hnot', -, hold'⟩
    · exact hnew.2.trans hnew'.2.symm
    · rw [if_pos hnew, if_neg hnot', ← hnew.1] at hid
      have hlt := (h.ids k' b' hold').2
      omega
    · rw [if_neg hnot, if_pos hnew', ← hnew'.1] at hid
      have hlt := (h.ids k' b hold).2
      omega
    · rw [if_neg hnot, if_neg hnot'] at hid
      exact h.distinct k' b b' hold hold' hid
  · change Holds s' k' c b ↔ s'.objType b = k'.obType ∧ s'.clientId k' b = c ∧
      Function.update w.indexed body _ b = true ∧ s'.ended k' b = false
    rw [hborn.holds, hborn.clientId, hborn.ended, h.table]
    by_cases hnew : k' = k ∧ b = body
    · rw [if_pos hnew, if_pos hnew, hborn.objType, hnew.1, hnew.2, Function.update_self,
        Function.update_self]
      simp only [hfree, k.obType_ne_zero.symm, false_and, false_or, and_true, true_and]
      exact ⟨fun ⟨hsome, hc⟩ => ⟨hc.symm, hsome⟩, fun ⟨hc, hsome⟩ => ⟨hsome, hc.symm⟩⟩
    · rw [if_neg hnew, if_neg hnew, hborn.objType]
      by_cases hb : b = body
      · have hk : k' ≠ k := fun hk => hnew ⟨hk, hb⟩
        rw [hb, Function.update_self, Function.update_self]
        simp only [hfree, k'.obType_ne_zero.symm, hk, false_and, and_false, or_false, false_iff]
        rintro ⟨heq, -⟩
        exact hk (CidKind.obType_inj heq).symm
      · rw [Function.update_of_ne hb, Function.update_of_ne hb]
        simp [hb]

/-- The table aside, insertion changes nothing. -/
theorem cidInsert_eq (k : CidKind) (s : PsState) (body : Nat) : (cidInsert k s body).2 =
    { s with
      cidEntries := (cidInsert k s body).2.cidEntries
      handleCount := (cidInsert k s body).2.handleCount } := by
  unfold cidInsert
  split
  · rfl
  · split <;> rfl

theorem cidFindEntry_fresh (h : ∀ b, ¬Holds s k body b) : cidFindEntry s body k = none := by
  cases hfind : cidFindEntry s body k with
  | none => rfl
  | some i =>
    obtain ⟨hi, hcid, hkind, hne⟩ := cidFindEntry_some hfind
    exact absurd (holds_of_entry hi hcid hne hkind) (h _)

/-- A new object, not yet in the table. -/
structure Made (k : CidKind) (body : Nat) (s s' : PsState) : Prop where
  objType : s'.objType = Function.update s.objType body k.obType
  sAll : s'.sAll = if s.sAll.length < maxObjects then s.sAll ++ [body] else s.sAll
  clientId : ∀ k' b, s'.clientId k' b = if k' = k ∧ b = body then s.nextId k else s.clientId k' b
  ended : ∀ k' b, s'.ended k' b = if k' = k ∧ b = body then false else s.ended k' b
  nextId : ∀ k', s'.nextId k' = if k' = k then (s.nextId k + 1) % 2 ^ 32 else s.nextId k'
  entries : s'.cidEntries = s.cidEntries

theorem Made.born (h : PsInv w) (hbody : body ≠ 0) (hmade : Made k body w.ps s') :
    Born k body w.ps (cidInsert k s' body).2 := by
  have hid : s'.clientId k body = w.ps.nextId k := by
    rw [hmade.clientId, if_pos ⟨rfl, rfl⟩]
  have hsame : ∀ k' c b, Holds s' k' c b ↔ Holds w.ps k' c b := fun k' c b => by
    unfold Holds
    rw [hmade.entries]
  have hfree : cidFindFree s' = cidFindFree w.ps := by
    unfold cidFindFree
    rw [hmade.entries]
  have hone : OneEntry s' := by
    unfold OneEntry
    rw [hmade.entries]
    exact h.one
  have hfresh : cidFindEntry s' (s'.clientId k body) k = none :=
    cidFindEntry_fresh fun b hb => h.fresh k b (hid ▸ (hsame k _ b).mp hb)
  obtain ⟨hone', hholds⟩ := cidInsert_holds hfresh hbody (hid ▸ (h.nextId_small k).1.ne') hone
  have heq := cidInsert_eq k s' body
  refine ⟨?_, ?_, fun k' b => ?_, fun k' b => ?_, fun k' => ?_, hone', fun k' c b => ?_⟩
  · rw [heq]
    exact hmade.objType
  · rw [heq]
    exact hmade.sAll
  · have hkept : (cidInsert k s' body).2.clientId k' b = s'.clientId k' b := by
      rw [heq]
      cases k' <;> rfl
    rw [hkept, hmade.clientId]
  · have hkept : (cidInsert k s' body).2.ended k' b = s'.ended k' b := by
      rw [heq]
      cases k' <;> rfl
    rw [hkept, hmade.ended]
  · have hkept : (cidInsert k s' body).2.nextId k' = s'.nextId k' := by
      rw [heq]
      cases k' <;> rfl
    rw [hkept, hmade.nextId]
  · rw [hholds, hsame, hfree, hid]

theorem obCreateObject_eq (s : PsState) (hhdr : hdr ≠ 0) (type : Nat) : obCreateObject s hdr type =
    ({ s with
      objType := Function.update s.objType (hdr + objectHeader) type
      sAll := if s.sAll.length < maxObjects then s.sAll ++ [hdr + objectHeader] else s.sAll },
      hdr + objectHeader) :=
  if_neg hhdr

theorem createProcess_born (h : PsInv w) (hhdr : hdr ≠ 0) :
    Born .process (hdr + objectHeader) w.ps (psCreateProcess w.ps hdr).1 ∧
      ∀ p, ((psCreateProcess w.ps hdr).1.process p).thread =
        if p = hdr + objectHeader then 0 else (w.ps.process p).thread := by
  have hbody : hdr + objectHeader ≠ 0 := by omega
  unfold psCreateProcess
  rw [obCreateObject_eq w.ps hhdr]
  dsimp only
  rw [if_neg hbody]
  refine ⟨Made.born h hbody ⟨rfl, rfl, fun k' b => ?_, fun k' b => ?_, fun k' => ?_, rfl⟩, fun p => ?_⟩
  · cases k' with
    | thread => rfl
    | process =>
      change (Function.update w.ps.process _ _ b).processId = _
      by_cases hb : b = hdr + objectHeader
      · rw [hb, Function.update_self, if_pos ⟨rfl, rfl⟩]
        rfl
      · rw [Function.update_of_ne hb, if_neg fun hboth => hb hboth.2]
        rfl
  · cases k' with
    | thread => rfl
    | process =>
      change (Function.update w.ps.process _ _ b).terminated = _
      by_cases hb : b = hdr + objectHeader
      · rw [hb, Function.update_self, if_pos ⟨rfl, rfl⟩]
      · rw [Function.update_of_ne hb, if_neg fun hboth => hb hboth.2]
        rfl
  · cases k' <;> rfl
  · rw [show cidInsertProcess = cidInsert .process from rfl, cidInsert_eq]
    change (Function.update w.ps.process _ _ p).thread = _
    by_cases hp : p = hdr + objectHeader
    · rw [hp, Function.update_self, if_pos rfl]
    · rw [Function.update_of_ne hp, if_neg hp]

theorem countThread_frame (s : PsState) (proc t : Nat) : countThread s proc t =
    { s with process := (countThread s proc t).process } ∧
    ∀ p, ((countThread s proc t).process p).processId = (s.process p).processId ∧
      ((countThread s proc t).process p).terminated = (s.process p).terminated ∧
      ((countThread s proc t).process p).thread =
        if p = proc ∧ proc ≠ 0 ∧ (s.process p).thread = 0 then t else (s.process p).thread := by
  unfold countThread
  by_cases hproc : proc = 0
  · rw [if_pos hproc]
    exact ⟨rfl, fun p => ⟨rfl, rfl, (if_neg fun hall => hall.2.1 hproc).symm⟩⟩
  · rw [if_neg hproc]
    refine ⟨rfl, fun p => ?_⟩
    by_cases hp : p = proc
    · subst hp
      dsimp only
      rw [Function.update_self]
      refine ⟨rfl, rfl, ?_⟩
      by_cases hthread : (s.process p).thread = 0
      · rw [if_pos hthread, if_pos ⟨rfl, hproc, hthread⟩]
      · rw [if_neg hthread, if_neg fun hall => hthread hall.2.2]
    · dsimp only
      rw [Function.update_of_ne hp, if_neg fun hall => hp hall.1]
      exact ⟨rfl, rfl, rfl⟩

theorem createThread_born (h : PsInv w) (hhdr : hdr ≠ 0) (proc : Nat) :
    Born .thread (hdr + objectHeader) w.ps (psCreateThread w.ps hdr proc).1 ∧
    (∀ p, ((psCreateThread w.ps hdr proc).1.process p).terminated = (w.ps.process p).terminated ∧
      ((psCreateThread w.ps hdr proc).1.process p).thread =
        if p = proc ∧ proc ≠ 0 ∧ (w.ps.process p).thread = 0 then hdr + objectHeader
        else (w.ps.process p).thread) ∧
    ∀ t, ((psCreateThread w.ps hdr proc).1.thread t).process =
      if t = hdr + objectHeader then proc else (w.ps.thread t).process := by
  have hbody : hdr + objectHeader ≠ 0 := by omega
  unfold psCreateThread
  rw [obCreateObject_eq w.ps hhdr]
  dsimp only
  rw [if_neg hbody, show cidInsertThread = cidInsert .thread from rfl]
  obtain ⟨hframe, hproc⟩ := countThread_frame
    { w.ps with
      objType := Function.update w.ps.objType (hdr + objectHeader) obTypeThread
      sAll := if w.ps.sAll.length < maxObjects then w.ps.sAll ++ [hdr + objectHeader] else w.ps.sAll
      sNextTid := (w.ps.sNextTid + 1) % 2 ^ 32
      thread := Function.update w.ps.thread (hdr + objectHeader)
        { threadId := w.ps.sNextTid, process := proc, exitStatus := 0, terminated := false } }
    proc (hdr + objectHeader)
  refine ⟨Made.born h hbody ⟨?_, ?_, fun k' b => ?_, fun k' b => ?_, fun k' => ?_, ?_⟩, fun p => ?_,
    fun t => ?_⟩
  · rw [hframe]
    rfl
  · rw [hframe]
  · cases k' with
    | process => exact (hproc b).1
    | thread =>
      rw [hframe]
      change (Function.update w.ps.thread _ _ b).threadId = _
      by_cases hb : b = hdr + objectHeader
      · rw [hb, Function.update_self, if_pos ⟨rfl, rfl⟩]
        rfl
      · rw [Function.update_of_ne hb, if_neg fun hboth => hb hboth.2]
        rfl
  · cases k' with
    | process => exact (hproc b).2.1
    | thread =>
      rw [hframe]
      change (Function.update w.ps.thread _ _ b).terminated = _
      by_cases hb : b = hdr + objectHeader
      · rw [hb, Function.update_self, if_pos ⟨rfl, rfl⟩]
      · rw [Function.update_of_ne hb, if_neg fun hboth => hb hboth.2]
        rfl
  · rw [hframe]
    cases k' <;> rfl
  · rw [hframe]
  · rw [cidInsert_eq]
    exact (hproc p).2
  · rw [cidInsert_eq, hframe]
    change (Function.update w.ps.thread _ _ t).process = _
    by_cases ht : t = hdr + objectHeader
    · rw [ht, Function.update_self, if_pos rfl]
    · rw [Function.update_of_ne ht, if_neg ht]

end Creation

section Termination

variable {w : PsWorld} {s s' : PsState} {k : CidKind} {body hdr proc : Nat}

theorem cidRemove_eq (k : CidKind) (s : PsState) (cid : Nat) : cidRemove k s cid =
    { s with
      cidEntries := (cidRemove k s cid).cidEntries
      handleCount := (cidRemove k s cid).handleCount } := by
  unfold cidRemove
  split <;> rfl

/-- What ending an object of a kind does, and nothing else. -/
structure Ended (k : CidKind) (body : Nat) (s s' : PsState) : Prop where
  objType : s'.objType = s.objType
  sAll : s'.sAll = s.sAll
  clientId : ∀ k' b, s'.clientId k' b = s.clientId k' b
  nextId : ∀ k', s'.nextId k' = s.nextId k'
  main : ∀ p, (s'.process p).thread = (s.process p).thread
  ended : ∀ k' b, s'.ended k' b = if k' = k ∧ b = body then true else s.ended k' b
  one : OneEntry s'
  holds : ∀ k' c b, Holds s' k' c b ↔ Holds s k' c b ∧ ¬(k' = k ∧ c = s.clientId k body)

theorem psInv_ended (h : PsInv w) (htype : w.ps.objType body = k.obType)
    (hend : Ended k body w.ps s') : PsInv ⟨s', w.indexed⟩ := by
  refine ⟨?_, ?_, fun k' => ?_, fun k' b => ?_, fun k' b b' => ?_, fun k' c b => ?_, hend.one,
    fun p => ?_⟩
  · change s'.sAll.length ≤ _
    rw [hend.sAll]
    exact h.room
  · change ∀ b, s'.objType b ≠ 0 → _
    rw [hend.objType]
    exact h.heap
  · change s'.nextId k' = 1 + (objectsOf s'.objType k').card
    rw [hend.nextId, hend.objType]
    exact h.count k'
  · change s'.objType b = _ → 0 < s'.clientId k' b ∧ s'.clientId k' b < s'.nextId k'
    rw [hend.objType, hend.clientId, hend.nextId]
    exact h.ids k' b
  · change s'.objType b = _ → s'.objType b' = _ → s'.clientId k' b = s'.clientId k' b' → _
    rw [hend.objType, hend.clientId, hend.clientId]
    exact h.distinct k' b b'
  · change Holds s' k' c b ↔ s'.objType b = _ ∧ s'.clientId k' b = c ∧ _ ∧ s'.ended k' b = false
    rw [hend.holds, hend.objType, hend.clientId, hend.ended, h.table]
    by_cases hthis : k' = k ∧ b = body
    · obtain ⟨rfl, rfl⟩ := hthis
      simp only [and_self, if_true, Bool.true_eq_false, and_false, iff_false, true_and]
      rintro ⟨⟨-, hid, -⟩, hnot⟩
      exact hnot hid.symm
    · rw [if_neg hthis]
      refine ⟨And.left, fun hall => ⟨hall, ?_⟩⟩
      rintro ⟨rfl, rfl⟩
      exact hthis ⟨rfl, h.distinct k' b body hall.1 htype hall.2.1⟩
  · change s'.objType p = _ → (s'.process p).thread = 0 ∨ s'.objType (s'.process p).thread = _
    rw [hend.objType, hend.main]
    exact h.first p

theorem terminateThread_ended (hone : OneEntry s) {t : Nat} (ht : t ≠ 0) (status : Nat) :
    Ended .thread t s (terminateThread s t status) ∧
      (terminateThread s t status).process = s.process := by
  unfold terminateThread
  rw [if_neg ht]
  dsimp only
  let marked : PsState := { s with
    thread := Function.update s.thread t { s.thread t with terminated := true, exitStatus := status } }
  have hid : ∀ b, (marked.thread b).threadId = (s.thread b).threadId := fun b => by
    by_cases hb : b = t
    · change (Function.update s.thread t _ b).threadId = _
      rw [hb, Function.update_self]
    · change (Function.update s.thread t _ b).threadId = _
      rw [Function.update_of_ne hb]
  obtain ⟨hone', hholds⟩ := cidRemove_holds (s := marked) hone .thread (marked.thread t).threadId
  have heq := cidRemove_eq .thread marked (marked.thread t).threadId
  change Ended .thread t s (cidRemove .thread marked (marked.thread t).threadId) ∧
    (cidRemove .thread marked (marked.thread t).threadId).process = s.process
  refine ⟨⟨?_, ?_, fun k' b => ?_, fun k' => ?_, fun p => ?_, fun k' b => ?_, hone', fun k' c b => ?_⟩, ?_⟩
  · rw [heq]
  · rw [heq]
  · rw [heq]
    cases k' with
    | process => rfl
    | thread => exact hid b
  · rw [heq]
    cases k' <;> rfl
  · rw [heq]
  · rw [heq]
    cases k' with
    | process => rfl
    | thread =>
      change (Function.update s.thread t _ b).terminated = _
      by_cases hb : b = t
      · rw [hb, Function.update_self, if_pos ⟨rfl, rfl⟩]
      · rw [Function.update_of_ne hb, if_neg fun hboth => hb hboth.2]
        rfl
  · rw [hholds, hid]
    rfl
  · rw [heq]

theorem cidRemove_process (s : PsState) (process : Nat → Eprocess) (k : CidKind) (cid : Nat) :
    cidRemove k { s with process := process } cid = { cidRemove k s cid with process := process } := by
  have hsame : cidFindEntry { s with process := process } cid k = cidFindEntry s cid k := rfl
  unfold cidRemove
  rw [hsame]
  cases cidFindEntry s cid k <;> rfl

/-- Ending a thread and changing a process do not meet. -/
theorem terminateThread_process (s : PsState) (process : Nat → Eprocess) (t status : Nat) :
    terminateThread { s with process := process } t status =
      { terminateThread s t status with process := process } := by
  unfold terminateThread
  split
  · rfl
  · let marked : PsState := { s with
      thread := Function.update s.thread t { s.thread t with terminated := true, exitStatus := status } }
    exact cidRemove_process marked process .thread (marked.thread t).threadId

theorem terminateProcess_eq (s : PsState) (hproc : proc ≠ 0) (status : Nat) :
    psTerminateProcess s proc status =
      let p := s.process proc
      cidRemoveProcess
        { terminateThread s p.thread status with
          process := Function.update s.process proc
            { p with terminated := true, exitStatus := status, activeThreads := p.activeThreads - 1 } }
        p.processId := by
  unfold psTerminateProcess
  rw [if_neg hproc]
  dsimp only
  rw [terminateThread_process, Function.update_self]
  dsimp only
  rw [Function.update_self, Function.update_idem, Function.update_self]

theorem terminateProcess_ended {u : PsState} (hone : OneEntry u) (hu : u.process = s.process)
    (status : Nat) :
    Ended .process proc u (cidRemoveProcess
        { u with
          process := Function.update s.process proc
            { s.process proc with
              terminated := true
              exitStatus := status
              activeThreads := (s.process proc).activeThreads - 1 } }
        (s.process proc).processId) := by
  let marked : PsState := { u with
    process := Function.update s.process proc
      { s.process proc with
        terminated := true
        exitStatus := status
        activeThreads := (s.process proc).activeThreads - 1 } }
  have hid : ∀ b, (marked.process b).processId = (u.process b).processId ∧
      (marked.process b).thread = (u.process b).thread := fun b => by
    change (Function.update s.process proc _ b).processId = _ ∧
      (Function.update s.process proc _ b).thread = _
    rw [hu]
    by_cases hb : b = proc
    · rw [hb, Function.update_self]
      exact ⟨rfl, rfl⟩
    · rw [Function.update_of_ne hb]
      exact ⟨rfl, rfl⟩
  obtain ⟨hone', hholds⟩ := cidRemove_holds (s := marked) hone .process (s.process proc).processId
  have heq := cidRemove_eq .process marked (s.process proc).processId
  change Ended .process proc u (cidRemove .process marked (s.process proc).processId)
  refine ⟨?_, ?_, fun k' b => ?_, fun k' => ?_, fun p => ?_, fun k' b => ?_, hone', fun k' c b => ?_⟩
  · rw [heq]
  · rw [heq]
  · rw [heq]
    cases k' with
    | process => exact (hid b).1
    | thread => rfl
  · rw [heq]
    cases k' <;> rfl
  · rw [heq]
    exact (hid p).2
  · rw [heq]
    cases k' with
    | thread => rfl
    | process =>
      change (Function.update s.process proc _ b).terminated = if _ then true else (u.process b).terminated
      rw [hu]
      by_cases hb : b = proc
      · rw [hb, Function.update_self, if_pos ⟨rfl, rfl⟩]
      · rw [Function.update_of_ne hb, if_neg fun hboth => hb hboth.2]
  · rw [hholds, ← hu]
    rfl

theorem psInv_terminateProcess (h : PsInv w) (hproc : IsProcess w.ps proc) (status : Nat) :
    PsInv ⟨psTerminateProcess w.ps proc status, w.indexed⟩ := by
  by_cases hzero : proc = 0
  · unfold psTerminateProcess
    rw [if_pos hzero]
    exact h
  · have htype : w.ps.objType proc = obTypeProcess := hproc.resolve_left hzero
    rw [terminateProcess_eq w.ps hzero]
    dsimp only
    by_cases ht : (w.ps.process proc).thread = 0
    · have hu : terminateThread w.ps (w.ps.process proc).thread status = w.ps := if_pos ht
      rw [hu]
      exact psInv_ended h htype (terminateProcess_ended h.one rfl status)
    · have hthread := (h.first proc htype).resolve_left ht
      obtain ⟨hend, hsame⟩ := terminateThread_ended h.one ht status
      have hmid := psInv_ended (k := .thread) h hthread hend
      have htype' : (terminateThread w.ps (w.ps.process proc).thread status).objType proc =
          obTypeProcess := by
        rw [hend.objType]
        exact htype
      exact psInv_ended (k := .process) (w := ⟨terminateThread w.ps _ status, w.indexed⟩) hmid htype'
        (terminateProcess_ended hend.one hsame status)

theorem psInv_createObject (h : PsInv w) {type : Nat} (hanswer : Answer w.ps hdr)
    (htype : type ≠ obTypeProcess ∧ type ≠ obTypeThread) :
    PsInv ⟨(obCreateObject w.ps hdr type).1, w.indexed⟩ := by
  by_cases hhdr : hdr = 0
  · unfold obCreateObject
    rw [if_pos hhdr]
    exact h
  · obtain ⟨hlow, hhigh, hfree⟩ := hanswer hhdr
    rw [obCreateObject_eq w.ps hhdr]
    have hnot : ∀ k : CidKind, type ≠ k.obType := fun k => by
      cases k
      · exact htype.1
      · exact htype.2
    have hkind : ∀ (k : CidKind) b,
        Function.update w.ps.objType (hdr + objectHeader) type b = k.obType ↔
          w.ps.objType b = k.obType := fun k b => by
      by_cases hb : b = hdr + objectHeader
      · rw [hb, Function.update_self, hfree]
        exact ⟨fun heq => absurd heq (hnot k), fun heq => absurd heq.symm k.obType_ne_zero⟩
      · rw [Function.update_of_ne hb]
    refine ⟨?_, fun b hb => ?_, fun k => ?_, fun k b hb => ?_, fun k b b' hb hb' => ?_, fun k c b => ?_,
      h.one, fun p hp => ?_⟩
    · dsimp only
      have hroom := h.room
      split
      · rw [List.length_append, List.length_singleton]
        omega
      · exact hroom
    · change Function.update w.ps.objType (hdr + objectHeader) type b ≠ 0 at hb
      by_cases hbody : b = hdr + objectHeader
      · omega
      · rw [Function.update_of_ne hbody] at hb
        exact h.heap b hb
    · change w.ps.nextId k = 1 + (objectsOf (Function.update _ _ _) k).card
      rw [objectsOf_update ⟨by omega, hhigh⟩ hfree, if_neg (hnot k)]
      exact h.count k
    · exact h.ids k b ((hkind k b).mp hb)
    · exact h.distinct k b b' ((hkind k b).mp hb) ((hkind k b').mp hb')
    · exact (h.table k c b).trans (and_congr_left fun _ => (hkind k b).symm)
    · rcases h.first p ((hkind .process p).mp hp) with hnone | hthread
      · exact .inl hnone
      · exact .inr ((hkind .thread _).mpr hthread)

/-- What was said of an address with no object in it does not matter. -/
theorem psInv_indexed (h : PsInv w) (hfree : w.ps.objType body = 0) (free : Bool) :
    PsInv ⟨w.ps, Function.update w.indexed body free⟩ := by
  refine ⟨h.room, h.heap, h.count, h.ids, h.distinct, fun k c b => ?_, h.one, h.first⟩
  rw [h.table]
  dsimp only
  by_cases hb : b = body
  · rw [hb, hfree]
    simp [k.obType_ne_zero.symm]
  · rw [Function.update_of_ne hb]

theorem PsInv.noObject (h : PsInv w) : w.ps.objType objectHeader = 0 := by
  by_contra hne
  have hlow := (h.heap _ hne).1
  exact absurd hlow (by decide)

/-- Objects stay what they are. -/
theorem Born.keeps (hborn : Born k body s s') (k' : CidKind) (hfree : s.objType body = 0) {b : Nat}
    (hb : s.objType b = k'.obType) : s'.objType b = k'.obType := by
  have hne : b ≠ body := fun heq => by
    rw [heq, hfree] at hb
    exact k'.obType_ne_zero hb.symm
  rw [hborn.objType, Function.update_of_ne hne, hb]

theorem psStep_inv (h : PsInv w) {op : PsOp} (hop : Proper w op) : PsInv (psStep w op) := by
  cases op with
  | createProcess hdr =>
    by_cases hhdr : hdr = 0
    · subst hhdr
      exact psInv_indexed h h.noObject _
    · obtain ⟨hlow, hhigh, hfree⟩ := hop hhdr
      obtain ⟨hborn, hmain⟩ := createProcess_born h hhdr
      refine psInv_born h ⟨by omega, hhigh⟩ hfree hborn fun p hp => ?_
      rw [hmain p]
      split
      · exact .inl rfl
      · rename_i hne
        rw [hborn.objType, Function.update_of_ne hne] at hp
        exact (h.first p hp).imp_right (hborn.keeps .thread hfree)
  | createThread hdr proc =>
    by_cases hhdr : hdr = 0
    · subst hhdr
      exact psInv_indexed h h.noObject _
    · obtain ⟨hlow, hhigh, hfree⟩ := hop.1 hhdr
      obtain ⟨hborn, hprocess, -⟩ := createThread_born h hhdr proc
      refine psInv_born h ⟨by omega, hhigh⟩ hfree hborn fun p hp => ?_
      rw [(hprocess p).2]
      split
      · rw [hborn.objType, Function.update_self]
        exact .inr rfl
      · have hne : p ≠ hdr + objectHeader := fun heq => by
          rw [heq, hborn.objType, Function.update_self] at hp
          exact absurd hp (by decide)
        rw [hborn.objType, Function.update_of_ne hne] at hp
        exact (h.first p hp).imp_right (hborn.keeps .thread hfree)
  | createObject hdr type => exact psInv_createObject h hop.1 hop.2.2
  | terminateProcess proc status => exact psInv_terminateProcess h hop status
  | createSystemThread | systemThreadReturns =>
    refine ⟨h.room, h.heap, fun k => ?_, fun k => ?_, fun k => ?_, fun k => ?_, h.one, h.first⟩
    · cases k with
      | process => exact h.count .process
      | thread => exact h.count .thread
    · cases k with
      | process => exact h.ids .process
      | thread => exact h.ids .thread
    · cases k with
      | process => exact h.distinct .process
      | thread => exact h.distinct .thread
    · cases k with
      | process => exact h.table .process
      | thread => exact h.table .thread

end Termination

/-! ## What a lookup finds -/

/-- A lookup succeeds for the ids of live objects, with the object, and for no other. -/
def LookupRight (s : PsState) (k : CidKind) (handle : Nat) : Prop :=
  ∀ b, psLookup k s handle = (statusSuccess, b) ↔ s.live k b ∧ s.clientId k b = handle % 2 ^ 32

/-- Table and enumeration answer alike. -/
def PathsAgree (s : PsState) (k : CidKind) (handle : Nat) : Prop :=
  cidLookup k s (handle % 2 ^ 32) = enumLookup k s (handle % 2 ^ 32)

/-- No two live threads have the same id, those of `PsCreateSystemThread` included. -/
structure NoTwins (s : PsState) : Prop where
  threads : ∀ t t', s.live .thread t → s.live .thread t' →
    s.clientId .thread t = s.clientId .thread t' → t = t'
  system : s.running.Nodup
  apart : ∀ t, s.live .thread t → s.clientId .thread t ∉ s.running

section Lookups

variable {w : PsWorld} {s : PsState} {k : CidKind} {handle b : Nat}

theorem objType_of_live (h : s.live k b) : s.objType b = k.obType := by
  cases k
  · exact h.1
  · exact h.1

theorem PsInv.ne_zero (h : PsInv w) (htype : w.ps.objType b = k.obType) : b ≠ 0 := fun hb => by
  have hlow := (h.heap b (htype ▸ k.obType_ne_zero)).1
  rw [hb] at hlow
  exact absurd hlow (by decide)

theorem lookup_iff (h : PsInv w) (k : CidKind) (handle b : Nat) :
    psLookup k w.ps handle = (statusSuccess, b) ↔
      w.ps.objType b = k.obType ∧ w.ps.clientId k b = handle % 2 ^ 32 ∧
        (b ∈ w.ps.sAll ∨ w.indexed b = true ∧ w.ps.ended k b = false) := by
  have htable : ∀ {b}, b ≠ 0 → (cidLookup k w.ps (handle % 2 ^ 32) = b ↔ _) := fun hb =>
    (cidLookup_iff h.one hb).trans (h.table k _ _)
  have hlist : ∀ {b}, b ≠ 0 → (enumLookup k w.ps (handle % 2 ^ 32) = b ↔ _) := fun hb =>
    enumLookup_iff h.room (h.distinct k) hb
  unfold psLookup
  dsimp only
  by_cases hhit : cidLookup k w.ps (handle % 2 ^ 32) = 0
  · have hnot : w.ps.objType b = k.obType → w.ps.clientId k b = handle % 2 ^ 32 →
        ¬(w.indexed b = true ∧ w.ps.ended k b = false) := fun htype hid hin => by
      have hb := h.ne_zero htype
      have hfound := (htable hb).mpr ⟨htype, hid, hin⟩
      exact hb (hfound.symm.trans hhit)
    rw [if_neg (not_not_intro hhit)]
    by_cases hfound : enumLookup k w.ps (handle % 2 ^ 32) = 0
    · rw [if_neg (not_not_intro hfound)]
      constructor
      · intro heq
        exact absurd (Prod.mk.inj heq).1 (by decide)
      · rintro ⟨htype, hid, hin | hin⟩
        · have hb := h.ne_zero htype
          exact absurd (((hlist hb).mpr ⟨hin, htype, hid⟩).symm.trans hfound) hb
        · exact absurd hin (hnot htype hid)
    · rw [if_pos hfound]
      constructor
      · intro heq
        have hb : enumLookup k w.ps (handle % 2 ^ 32) = b := (Prod.mk.inj heq).2
        obtain ⟨hin, htype, hid⟩ := (hlist (hb ▸ hfound)).mp hb
        exact ⟨htype, hid, .inl hin⟩
      · rintro ⟨htype, hid, hin | hin⟩
        · rw [(hlist (h.ne_zero htype)).mpr ⟨hin, htype, hid⟩]
        · exact absurd hin (hnot htype hid)
  · rw [if_pos hhit]
    obtain ⟨htype, hid, hin⟩ := (htable hhit).mp rfl
    constructor
    · intro heq
      have hb := (Prod.mk.inj heq).2
      subst hb
      exact ⟨htype, hid, .inr hin⟩
    · rintro ⟨htype', hid', -⟩
      rw [h.distinct k _ b htype htype' (hid.trans hid'.symm)]

theorem lookupRight_iff (h : PsInv w) (k : CidKind) (handle : Nat) :
    LookupRight w.ps k handle ↔
      ∀ b, w.ps.objType b = k.obType → w.ps.clientId k b = handle % 2 ^ 32 →
        (w.ps.live k b ↔ b ∈ w.ps.sAll ∨ w.indexed b = true ∧ w.ps.ended k b = false) := by
  unfold LookupRight
  constructor
  · intro hright b htype hid
    have hb := hright b
    rw [lookup_iff h] at hb
    exact ⟨fun hlive => (hb.mpr ⟨hlive, hid⟩).2.2, fun hin => (hb.mp ⟨htype, hid, hin⟩).1⟩
  · intro hcond b
    rw [lookup_iff h]
    constructor
    · rintro ⟨htype, hid, hin⟩
      exact ⟨(hcond b htype hid).mpr hin, hid⟩
    · rintro ⟨hlive, hid⟩
      have htype := objType_of_live hlive
      exact ⟨htype, hid, (hcond b htype hid).mp hlive⟩

theorem pathsAgree_iff (h : PsInv w) (k : CidKind) (handle : Nat) :
    PathsAgree w.ps k handle ↔
      ∀ b, w.ps.objType b = k.obType → w.ps.clientId k b = handle % 2 ^ 32 →
        (w.indexed b = true ∧ w.ps.ended k b = false ↔ b ∈ w.ps.sAll) := by
  have htable : ∀ {b}, b ≠ 0 → (cidLookup k w.ps (handle % 2 ^ 32) = b ↔ _) := fun hb =>
    (cidLookup_iff h.one hb).trans (h.table k _ _)
  have hlist : ∀ {b}, b ≠ 0 → (enumLookup k w.ps (handle % 2 ^ 32) = b ↔ _) := fun hb =>
    enumLookup_iff h.room (h.distinct k) hb
  unfold PathsAgree
  constructor
  · intro hagree b htype hid
    have hb := h.ne_zero htype
    constructor
    · intro hin
      exact ((hlist hb).mp (hagree ▸ (htable hb).mpr ⟨htype, hid, hin⟩)).1
    · intro hin
      exact ((htable hb).mp (hagree ▸ (hlist hb).mpr ⟨hin, htype, hid⟩)).2.2
  · intro hcond
    by_cases hhit : cidLookup k w.ps (handle % 2 ^ 32) = 0
    · rw [hhit]
      by_contra hne
      obtain ⟨hin, htype, hid⟩ := (hlist fun h0 => hne h0.symm).mp rfl
      have hfound := (htable fun h0 => hne h0.symm).mpr ⟨htype, hid, (hcond _ htype hid).mpr hin⟩
      exact hne (hhit.symm.trans hfound)
    · obtain ⟨htype, hid, hin⟩ := (htable hhit).mp rfl
      exact ((hlist hhit).mpr ⟨(hcond _ htype hid).mp hin, htype, hid⟩).symm

end Lookups

/-! ## Every history -/

/-- There is room in both indexes. -/
def Room (s : PsState) : Prop := s.sAll.length < maxObjects ∧ (cidFindFree s).isSome = true

/-- Both indexes have room for every process and thread, a thread is created in a process
that has not ended and under an id that no system thread runs under, and the other way
round, and no process is terminated. -/
def Tidy (s : PsState) : PsOp → Prop
  | .createProcess hdr => hdr ≠ 0 → Room s
  | .createThread hdr proc => hdr ≠ 0 →
      Room s ∧ proc ≠ 0 ∧ s.live .process proc ∧ s.sNextTid ∉ s.running
  | .terminateProcess proc _ => proc = 0
  | .createSystemThread startRoutine => startRoutine ≠ 0 →
      (s.sTid + 1) % 2 ^ 32 ∉ s.running ∧
        ∀ t, s.live .thread t → s.clientId .thread t ≠ (s.sTid + 1) % 2 ^ 32
  | _ => True

structure TidyInv (w : PsWorld) : Prop where
  all : ∀ k b, w.ps.objType b = k.obType → b ∈ w.ps.sAll ∧ w.indexed b = true ∧
    w.ps.ended k b = false ∧ w.ps.live k b
  system : w.ps.running.Nodup
  apart : ∀ t, w.ps.objType t = obTypeThread → w.ps.clientId .thread t ∉ w.ps.running

def psInit : PsState :=
  { objType := fun _ => 0
    sAll := []
    process := fun _ => ⟨0, 0, 0, 0, false, 0⟩
    thread := fun _ => ⟨0, 0, 0, false⟩
    cidEntries := fun _ => ⟨0, false, 0⟩
    handleCount := 0
    sNextPid := 1
    sNextTid := 1
    sTid := 100
    running := [] }

def psStart : PsWorld := ⟨psInit, fun _ => false⟩

/-- Histories whose operations all meet `guard`. -/
def PsReach (guard : PsWorld → PsOp → Prop) : PsWorld → Prop :=
  Reach (· = psStart) (fun w op w' => w' = psStep w op) guard

section Histories

variable {w : PsWorld} {s s' : PsState} {k : CidKind} {body hdr : Nat}

theorem psStart_inv : PsInv psStart := by
  have hnone : ∀ k : CidKind, (0 : Nat) ≠ k.obType := fun k => k.obType_ne_zero.symm
  refine ⟨Nat.zero_le _, fun b hb => absurd rfl hb, fun k => ?_, fun k b hb => absurd hb (hnone k),
    fun k b _ hb => absurd hb (hnone k), fun k c b => ?_, fun i j _ _ hne => absurd rfl hne,
    fun p hp => absurd hp (hnone .process)⟩
  · have hempty : objectsOf psStart.ps.objType k = ∅ :=
      Finset.filter_eq_empty_iff.mpr fun b _ => hnone k
    rw [hempty]
    cases k <;> rfl
  · constructor
    · rintro ⟨hc, i, -, hentry⟩
      exact absurd (CidEntry.mk.inj hentry).1.symm hc
    · rintro ⟨htype, -⟩
      exact absurd htype (hnone k)

theorem psReach_inv (hrun : PsReach Proper w) : PsInv w := by
  apply hrun.invariant
  · rintro _ rfl
    exact psStart_inv
  · rintro w op _ hinv hop rfl
    exact psStep_inv hinv hop

theorem Born.listed (hborn : Born k body s s') (hroom : s.sAll.length < maxObjects) :
    s'.sAll = s.sAll ++ [body] :=
  hborn.sAll.trans (if_pos hroom)

/-- A new object in a tidy history; `hlive` says that what was live still is, and that it is. -/
theorem tidyInv_born (h : TidyInv w) (hroom : Room w.ps)
    (hborn : Born k body w.ps s') (hrunning : s'.running = w.ps.running)
    (hlive : ∀ k' b, s'.objType b = k'.obType → (k' = k ∧ b = body ∨ w.ps.live k' b) → s'.live k' b)
    (hid : k = .thread → w.ps.sNextTid ∉ w.ps.running) :
    TidyInv ⟨s', Function.update w.indexed body (cidFindFree w.ps).isSome⟩ := by
  have hold : ∀ (k' : CidKind) (b : Nat), s'.objType b = k'.obType → b ≠ body → w.ps.objType b = k'.obType :=
    fun k' b htype hb => by
      rw [hborn.objType, Function.update_of_ne hb] at htype
      exact htype
  have hnew : ∀ k' : CidKind, s'.objType body = k'.obType → k' = k := fun k' htype => by
    rw [hborn.objType, Function.update_self] at htype
    exact (CidKind.obType_inj htype).symm
  refine ⟨fun k' b htype => ?_, ?_, fun t htype => ?_⟩
  · change b ∈ s'.sAll ∧ Function.update w.indexed body _ b = true ∧ s'.ended k' b = false ∧ s'.live k' b
    rw [hborn.listed hroom.1, hborn.ended, List.mem_append, List.mem_singleton]
    by_cases hb : b = body
    · have hk := hnew k' (hb ▸ htype)
      rw [if_pos ⟨hk, hb⟩, hb, Function.update_self]
      exact ⟨.inr rfl, hroom.2, rfl, hlive k' body (hb ▸ htype) (.inl ⟨hk, rfl⟩)⟩
    · obtain ⟨hin, hindexed, hended, hwas⟩ := h.all k' b (hold k' b htype hb)
      rw [if_neg fun hboth => hb hboth.2, Function.update_of_ne hb]
      exact ⟨.inl hin, hindexed, hended, hlive k' b htype (.inr hwas)⟩
  · change s'.running.Nodup
    rw [hrunning]
    exact h.system
  · change s'.clientId .thread t ∉ s'.running
    rw [hrunning, hborn.clientId]
    split
    · rename_i hthis
      rw [← hthis.1]
      exact hid hthis.1.symm
    · rename_i hthis
      by_cases ht : t = body
      · exact absurd ⟨hnew .thread (ht ▸ htype), ht⟩ hthis
      · exact h.apart t (hold .thread t htype ht)

theorem createProcess_frame (hhdr : hdr ≠ 0) : (psCreateProcess s hdr).1.thread = s.thread ∧
    (psCreateProcess s hdr).1.running = s.running := by
  unfold psCreateProcess
  rw [obCreateObject_eq s hhdr]
  dsimp only
  rw [if_neg (by omega), show cidInsertProcess = cidInsert .process from rfl, cidInsert_eq]
  exact ⟨rfl, rfl⟩

theorem createThread_frame (hhdr : hdr ≠ 0) (proc : Nat) :
    (psCreateThread s hdr proc).1.running = s.running := by
  unfold psCreateThread
  rw [obCreateObject_eq s hhdr]
  dsimp only
  rw [if_neg (by omega), show cidInsertThread = cidInsert .thread from rfl, cidInsert_eq]
  dsimp only
  rw [(countThread_frame ..).1]

theorem tidyInv_indexed (h : TidyInv w) (hfree : w.ps.objType body = 0) (free : Bool) :
    TidyInv ⟨w.ps, Function.update w.indexed body free⟩ := by
  refine ⟨fun k b htype => ?_, h.system, h.apart⟩
  have hb : b ≠ body := fun heq => by
    change w.ps.objType b = _ at htype
    rw [heq, hfree] at htype
    exact k.obType_ne_zero htype.symm
  change b ∈ w.ps.sAll ∧ Function.update w.indexed body free b = true ∧ _
  rw [Function.update_of_ne hb]
  exact h.all k b htype

/-- Processes and threads stay live while they stay what they are and no process ends. -/
theorem live_congr {b : Nat} (hlive : s.live k b) (htype : s'.objType b = k.obType)
    (hended : ∀ p, (s.process p).terminated = false → (s'.process p).terminated = false)
    (howner : k = .thread → (s'.thread b).process = (s.thread b).process) : s'.live k b := by
  cases k with
  | process => exact ⟨htype, hended b hlive.2⟩
  | thread =>
    obtain ⟨-, hne, hrunning⟩ := hlive
    change s'.objType b = _ ∧ (s'.thread b).process ≠ 0 ∧ _
    rw [howner rfl]
    exact ⟨htype, hne, hended _ hrunning⟩

theorem tidy_createProcess (hinv : PsInv w) (h : TidyInv w) (hop : Proper w (.createProcess hdr))
    (htidy : Tidy w.ps (.createProcess hdr)) : TidyInv (psStep w (.createProcess hdr)) := by
  by_cases hhdr : hdr = 0
  · subst hhdr
    exact tidyInv_indexed h hinv.noObject _
  · obtain ⟨-, -, hfree⟩ := hop hhdr
    obtain ⟨hborn, -⟩ := createProcess_born hinv hhdr
    obtain ⟨hthread, hrunning⟩ := createProcess_frame (s := w.ps) hhdr
    have hended : ∀ p, (w.ps.process p).terminated = false ∨ p = hdr + objectHeader →
        ((psCreateProcess w.ps hdr).1.process p).terminated = false := fun p hp => by
      have hnow := hborn.ended .process p
      by_cases hthis : p = hdr + objectHeader
      · rw [if_pos ⟨rfl, hthis⟩] at hnow
        exact hnow
      · rw [if_neg fun hboth => hthis hboth.2] at hnow
        exact hnow.trans (hp.resolve_right hthis)
    refine tidyInv_born h (htidy hhdr) hborn hrunning (fun k' b htype hlive => ?_) nofun
    rcases hlive with ⟨rfl, rfl⟩ | hlive
    · exact ⟨htype, hended _ (.inr rfl)⟩
    · exact live_congr hlive htype (fun p hp => hended p (.inl hp)) fun _ => by rw [hthread]

theorem tidy_createThread (hinv : PsInv w) (h : TidyInv w) {proc : Nat}
    (hop : Proper w (.createThread hdr proc)) (htidy : Tidy w.ps (.createThread hdr proc)) :
    TidyInv (psStep w (.createThread hdr proc)) := by
  by_cases hhdr : hdr = 0
  · subst hhdr
    exact tidyInv_indexed h hinv.noObject _
  · obtain ⟨-, -, hfree⟩ := hop.1 hhdr
    obtain ⟨hroom, hproc, hlive, hid⟩ := htidy hhdr
    obtain ⟨hborn, hprocess, howner⟩ := createThread_born hinv hhdr proc
    refine tidyInv_born h hroom hborn (createThread_frame hhdr proc) (fun k' b htype hwas => ?_)
      fun _ => hid
    rcases hwas with ⟨rfl, rfl⟩ | hwas
    · refine ⟨htype, ?_⟩
      rw [howner, if_pos rfl, (hprocess proc).1]
      exact ⟨hproc, hlive.2⟩
    · refine live_congr hwas htype (fun p hp => (hprocess p).1.trans hp) fun hk => ?_
      have hb : b ≠ hdr + objectHeader := fun heq => by
        have hzero := objType_of_live hwas
        rw [heq, hfree] at hzero
        exact k'.obType_ne_zero hzero.symm
      rw [howner, if_neg hb]

theorem tidy_createObject (h : TidyInv w) {type : Nat} (hop : Proper w (.createObject hdr type)) :
    TidyInv (psStep w (.createObject hdr type)) := by
  obtain ⟨-, -, hnotProcess, hnotThread⟩ := hop
  change TidyInv ⟨(obCreateObject w.ps hdr type).1, w.indexed⟩
  by_cases hhdr : hdr = 0
  · unfold obCreateObject
    rw [if_pos hhdr]
    exact h
  · rw [obCreateObject_eq w.ps hhdr]
    have hold : ∀ (k : CidKind) (b : Nat),
        Function.update w.ps.objType (hdr + objectHeader) type b = k.obType →
        w.ps.objType b = k.obType := fun k b htype => by
      by_cases hb : b = hdr + objectHeader
      · rw [hb, Function.update_self] at htype
        cases k
        · exact absurd htype hnotProcess
        · exact absurd htype hnotThread
      · rw [Function.update_of_ne hb] at htype
        exact htype
    refine ⟨fun k b htype => ?_, h.system, fun t htype => h.apart t (hold .thread t htype)⟩
    obtain ⟨hin, hindexed, hended, hlive⟩ := h.all k b (hold k b htype)
    refine ⟨?_, hindexed, ?_, live_congr hlive htype (fun _ hp => hp) fun _ => rfl⟩
    · dsimp only
      split
      · exact List.mem_append_left _ hin
      · exact hin
    · cases k with
      | process => exact hended
      | thread => exact hended

/-- System threads come and go without touching anything else. -/
theorem tidyInv_running (h : TidyInv w) (sTid : Nat) {running : List Nat} (hnodup : running.Nodup)
    (hapart : ∀ t, w.ps.objType t = obTypeThread → w.ps.clientId .thread t ∉ running) :
    TidyInv ⟨{ w.ps with sTid := sTid, running := running }, w.indexed⟩ := by
  refine ⟨fun k b htype => ?_, hnodup, hapart⟩
  obtain ⟨hin, hindexed, hended, hlive⟩ := h.all k b htype
  refine ⟨hin, hindexed, ?_, live_congr hlive htype (fun _ hp => hp) fun _ => rfl⟩
  cases k with
  | process => exact hended
  | thread => exact hended

theorem tidy_createSystemThread (h : TidyInv w) {startRoutine : Nat}
    (htidy : Tidy w.ps (.createSystemThread startRoutine)) :
    TidyInv (psStep w (.createSystemThread startRoutine)) := by
  by_cases hstart : startRoutine = 0
  · have hnothing : psStep w (.createSystemThread startRoutine) = w := by
      unfold psStep
      dsimp only
      rw [show Ob.psCreateSystemThread w.ps.sTid startRoutine = (w.ps.sTid, 0xC000000D, none) from
        if_pos hstart]
      rfl
    rw [hnothing]
    exact h
  · have hminted : psStep w (.createSystemThread startRoutine) =
        ⟨{ w.ps with
            sTid := (w.ps.sTid + 1) % 2 ^ 32
            running := (w.ps.sTid + 1) % 2 ^ 32 :: w.ps.running }, w.indexed⟩ := by
      unfold psStep
      dsimp only
      rw [show Ob.psCreateSystemThread w.ps.sTid startRoutine =
        ((w.ps.sTid + 1) % 2 ^ 32, 0, some ((w.ps.sTid + 1) % 2 ^ 32)) from if_neg hstart]
      rfl
    rw [hminted]
    obtain ⟨hnew, hother⟩ := htidy hstart
    refine tidyInv_running h _ (List.nodup_cons.mpr ⟨hnew, h.system⟩) fun t htype hmem => ?_
    rcases List.mem_cons.mp hmem with heq | hmem
    · exact hother t (h.all .thread t htype).2.2.2 heq
    · exact h.apart t htype hmem

theorem tidyStep_inv (hinv : PsInv w) (h : TidyInv w) {op : PsOp} (hop : Proper w op)
    (htidy : Tidy w.ps op) : TidyInv (psStep w op) := by
  cases op with
  | createProcess hdr => exact tidy_createProcess hinv h hop htidy
  | createThread hdr proc => exact tidy_createThread hinv h hop htidy
  | createObject hdr type => exact tidy_createObject h hop
  | terminateProcess proc status =>
    have hzero : proc = 0 := htidy
    have hsame : psTerminateProcess w.ps proc status = w.ps := if_pos hzero
    change TidyInv ⟨psTerminateProcess w.ps proc status, w.indexed⟩
    rw [hsame]
    exact h
  | createSystemThread startRoutine => exact tidy_createSystemThread h htidy
  | systemThreadReturns tid =>
    exact tidyInv_running h _ (h.system.erase tid) fun t htype hmem =>
      h.apart t htype (List.mem_of_mem_erase hmem)

theorem psReach_tidy (hrun : PsReach (fun w op => Proper w op ∧ Tidy w.ps op) w) : TidyInv w := by
  have hboth : PsInv w ∧ TidyInv w := by
    apply hrun.invariant
    · rintro _ rfl
      exact ⟨psStart_inv, fun k b htype => absurd htype k.obType_ne_zero.symm, .nil,
        fun t htype => absurd htype CidKind.thread.obType_ne_zero.symm⟩
    · rintro w op _ ⟨hinv, htidyInv⟩ ⟨hop, htidy⟩ rfl
      exact ⟨psStep_inv hinv hop, tidyStep_inv hinv htidyInv hop htidy⟩
  exact hboth.2

/-- When lookups are right and when the two ways agree, in every state; and in a tidy history
they always do, and ids are told apart. -/
theorem lookup_exact (hrun : PsReach Proper w) :
    (∀ k handle, LookupRight w.ps k handle ↔
      ∀ b, w.ps.objType b = k.obType → w.ps.clientId k b = handle % 2 ^ 32 →
        (w.ps.live k b ↔ b ∈ w.ps.sAll ∨ w.indexed b = true ∧ w.ps.ended k b = false)) ∧
    (∀ k handle, PathsAgree w.ps k handle ↔
      ∀ b, w.ps.objType b = k.obType → w.ps.clientId k b = handle % 2 ^ 32 →
        (w.indexed b = true ∧ w.ps.ended k b = false ↔ b ∈ w.ps.sAll)) ∧
    (PsReach (fun w op => Proper w op ∧ Tidy w.ps op) w →
      (∀ k handle, LookupRight w.ps k handle ∧ PathsAgree w.ps k handle) ∧ NoTwins w.ps) := by
  have hinv := psReach_inv hrun
  refine ⟨lookupRight_iff hinv, pathsAgree_iff hinv, fun htidyRun => ?_⟩
  have htidy := psReach_tidy htidyRun
  refine ⟨fun k handle => ⟨(lookupRight_iff hinv k handle).mpr fun b htype _ => ?_,
    (pathsAgree_iff hinv k handle).mpr fun b htype _ => ?_⟩, fun t t' ht ht' hid => ?_, htidy.system,
    fun t ht => htidy.apart t ht.1⟩
  · obtain ⟨hin, -, -, hlive⟩ := htidy.all k b htype
    exact ⟨fun _ => .inl hin, fun _ => hlive⟩
  · obtain ⟨hin, hindexed, hended, -⟩ := htidy.all k b htype
    exact ⟨fun _ => hin, fun _ => ⟨hindexed, hended⟩⟩
  · exact hinv.distinct .thread t t' ht.1 ht'.1 hid

/-- The first process, and its end. -/
def oneProcess : PsWorld := psStep psStart (.createProcess 0x2000018)

def oneTerminated : PsWorld := psStep oneProcess (.terminateProcess 0x2000068 0)

theorem oneProcess_proper : Proper psStart (.createProcess 0x2000018) :=
  fun _ => ⟨by decide, by decide, rfl⟩

theorem oneProcess_reach : PsReach Proper oneProcess := .step (.start rfl) oneProcess_proper rfl

theorem lookup_exact_oneProcess : PsReach Proper oneProcess ∧
    PsReach (fun w op => Proper w op ∧ Tidy w.ps op) oneProcess ∧
    LookupRight oneProcess.ps .process 1 := by
  have hroom : Room psStart.ps := ⟨by decide, by decide +kernel⟩
  have htidy : PsReach (fun w op => Proper w op ∧ Tidy w.ps op) oneProcess :=
    .step (.start rfl) ⟨oneProcess_proper, fun _ => hroom⟩ rfl
  exact ⟨oneProcess_reach, htidy, (((lookup_exact oneProcess_reach).2.2 htidy).1 .process 1).1⟩

theorem oneTerminated_reach : PsReach Proper oneTerminated :=
  have hproper : Proper oneProcess (.terminateProcess 0x2000068 0) := Or.inr (by decide +kernel)
  .step oneProcess_reach hproper rfl

/-- The terminated process is still found, by the enumeration and not by the table. -/
theorem terminated_found : PsReach Proper oneTerminated ∧
    (oneTerminated.ps.process 0x2000068).terminated = true ∧
    psLookupProcessByProcessId oneTerminated.ps 1 = (statusSuccess, 0x2000068) ∧
    ¬PathsAgree oneTerminated.ps .process 1 ∧ ¬LookupRight oneTerminated.ps .process 1 := by
  have hfound : psLookup .process oneTerminated.ps 1 = (statusSuccess, 0x2000068) := by decide +kernel
  have hended : (oneTerminated.ps.process 0x2000068).terminated = true := by decide +kernel
  have htable : cidLookup .process oneTerminated.ps (1 % 2 ^ 32) = 0 := by decide +kernel
  have hlist : enumLookup .process oneTerminated.ps (1 % 2 ^ 32) = 0x2000068 := by decide +kernel
  refine ⟨oneTerminated_reach, hended, hfound, fun hagree => ?_, fun hright => ?_⟩
  · unfold PathsAgree at hagree
    rw [htable, hlist] at hagree
    cases hagree
  · have hlive : oneTerminated.ps.live .process 0x2000068 := ((hright 0x2000068).mp hfound).1
    exact absurd (hended.symm.trans hlive.2) (by decide)

end Histories

end MeuOS.Ps
