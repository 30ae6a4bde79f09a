import MeuOS.Display.VirtQueue

/-! Every history of the control queue. -/
namespace MeuOS.Display

open MeuOS.Lib

section Lists

variable {desc desc' : Nat → VqDesc} {p : Nat} {l c : List Nat}

theorem FreeFrom.congr (h : FreeFrom desc p l) (hsame : ∀ d ∈ l, desc' d = desc d) : FreeFrom desc' p l := by
  induction l generalizing p with
  | nil => exact h
  | cons d l ih =>
    obtain ⟨hp, hne, hrest⟩ := h
    refine ⟨hp, hne, ?_⟩
    rw [hsame d List.mem_cons_self]
    exact ih hrest fun e he => hsame e (List.mem_cons_of_mem _ he)

theorem Chained.congr (h : Chained desc c) (hsame : ∀ d ∈ c, desc' d = desc d) : Chained desc' c := by
  induction c with
  | nil => exact h
  | cons d c ih =>
    have hd := hsame d List.mem_cons_self
    cases c with
    | nil =>
      show (desc' d).flags &&& virtqDescFNext = 0
      rw [hd]
      exact h
    | cons e c =>
      obtain ⟨hflag, hnext, hrest⟩ := h
      refine ⟨?_, ?_, ih hrest fun e he => hsame e (List.mem_cons_of_mem _ he)⟩
      · rw [hd]
        exact hflag
      · rw [hd]
        exact hnext

end Lists

/-- The free list `free` and the chains `cs` share out the descriptors; the flags of a free one are clear. -/
structure QueueInv (q : VirtioQueue) (free : List Nat) (cs : List (List Nat)) : Prop where
  size : q.size ≤ virtioVqSize
  list : q.FreeList free
  chained : ∀ c ∈ cs, Chained q.desc c
  parts : (free ++ cs.flatten).Perm (List.range q.size)
  count : q.numFree = free.length
  clear : ∀ d ∈ free, (q.desc d).flags = 0

section Queue

variable {q : VirtioQueue} {free : List Nat} {cs rest : List (List Nat)} {c : List Nat} {h r : Nat}

theorem QueueInv.perm (hq : QueueInv q free cs) (hcs : cs.Perm rest) : QueueInv q free rest :=
  ⟨hq.size, hq.list, fun c hc => hq.chained c (hcs.mem_iff.2 hc), (hcs.flatten.append_left free).symm.trans hq.parts,
    hq.count, hq.clear⟩

theorem QueueInv.nodup (hq : QueueInv q free cs) : (free ++ cs.flatten).Nodup :=
  hq.parts.nodup_iff.2 List.nodup_range

theorem QueueInv.inside (hq : QueueInv q free cs) {d : Nat} (hd : d ∈ free ++ cs.flatten) :
    d < q.size ∧ d ≠ virtqDescFreeEnd := by
  have hlt := List.mem_range.1 (hq.parts.mem_iff.1 hd)
  have hsize := hq.size
  unfold virtioVqSize at hsize
  unfold virtqDescFreeEnd
  exact ⟨hlt, by omega⟩

theorem QueueInv.length (hq : QueueInv q free cs) : free.length + cs.flatten.length = q.size := by
  have hlen := hq.parts.length_eq
  rwa [List.length_append, List.length_range] at hlen

/-- What the free descriptors and the chains do not depend on. -/
theorem QueueInv.congr {q' : VirtioQueue} (hq : QueueInv q free cs) (hsize : q'.size = q.size)
    (hdesc : q'.desc = q.desc) (hnext : q'.nextFreeDesc = q.nextFreeDesc) (hcount : q'.numFree = q.numFree) :
    QueueInv q' free cs := by
  obtain ⟨hs, hlist, hchained, hparts, hnum, hclear⟩ := hq
  refine ⟨?_, ?_, ?_, ?_, ?_, ?_⟩
  · rwa [hsize]
  · unfold VirtioQueue.FreeList
    rwa [hdesc, hnext]
  · rwa [hdesc]
  · rwa [hsize]
  · rwa [hcount]
  · rwa [hdesc]

/-- Neither the rings nor the size differ. -/
structure SameRings (q q' : VirtioQueue) : Prop where
  size : q'.size = q.size
  lastUsed : q'.lastUsedIdx = q.lastUsedIdx
  avail : q'.availIdx = q.availIdx ∧ q'.availRing = q.availRing
  used : q'.usedIdx = q.usedIdx ∧ q'.usedRing = q.usedRing

theorem SameRings.trans {q₁ q₂ q₃ : VirtioQueue} (h : SameRings q₁ q₂) (h' : SameRings q₂ q₃) : SameRings q₁ q₃ where
  size := h'.size.trans h.size
  lastUsed := h'.lastUsed.trans h.lastUsed
  avail := ⟨h'.avail.1.trans h.avail.1, h'.avail.2.trans h.avail.2⟩
  used := ⟨h'.used.1.trans h.used.1, h'.used.2.trans h.used.2⟩

theorem giveBack_rings (q : VirtioQueue) (h : Nat) : SameRings q (q.giveBack h) := ⟨rfl, rfl, ⟨rfl, rfl⟩, ⟨rfl, rfl⟩⟩

theorem link_rings (q : VirtioQueue) (h r : Nat) (cmd : GpuCommand) : SameRings q (q.link h r cmd) :=
  ⟨rfl, rfl, ⟨rfl, rfl⟩, ⟨rfl, rfl⟩⟩

/-! ## Allocation -/

theorem allocDesc_nil (hq : QueueInv q [] cs) : virtioQueueAllocDesc q = (q, virtqDescFreeEnd) :=
  if_pos hq.count

theorem allocDesc_cons (hq : QueueInv q (h :: free) cs) :
    virtioQueueAllocDesc q = ({ q with nextFreeDesc := (q.desc h).next, numFree := q.numFree - 1 }, h) := by
  obtain ⟨hhead, hne, -⟩ := hq.list
  have hsome : q.numFree ≠ 0 := by
    rw [hq.count]
    exact Nat.succ_ne_zero _
  unfold virtioQueueAllocDesc
  rw [if_neg hsome, hhead, if_neg hne]

theorem allocDesc_spec (hq : QueueInv q (h :: free) cs) :
    ∃ q', virtioQueueAllocDesc q = (q', h) ∧ QueueInv q' free ([h] :: cs) ∧ SameRings q q' := by
  refine ⟨_, allocDesc_cons hq, ⟨hq.size, hq.list.2.2, ?_, ?_, ?_, fun d hd => ?_⟩, rfl, rfl, ⟨rfl, rfl⟩, ⟨rfl, rfl⟩⟩
  · refine List.forall_mem_cons.2 ⟨?_, hq.chained⟩
    show (q.desc h).flags &&& virtqDescFNext = 0
    rw [hq.clear h List.mem_cons_self, Nat.zero_and]
  · exact List.perm_middle.trans hq.parts
  · show q.numFree - 1 = free.length
    rw [hq.count]
    rfl
  · exact hq.clear d (List.mem_cons_of_mem _ hd)

/-! ## Links -/

theorem QueueInv.link (hq : QueueInv q free ([h] :: [r] :: cs)) (cmd : GpuCommand) :
    QueueInv (q.link h r cmd) free ([h, r] :: cs) := by
  have hnodup : (h :: r :: (free ++ cs.flatten)).Nodup := by
    refine (List.Perm.nodup_iff ?_).1 hq.nodup
    exact List.perm_middle.trans (List.Perm.cons h List.perm_middle)
  obtain ⟨hh, hr⟩ := List.nodup_cons.1 hnodup
  have hr := (List.nodup_cons.1 hr).1
  have hne : h ≠ r := fun heq => hh (heq ▸ List.mem_cons_self)
  have hkept : ∀ d ∈ free ++ cs.flatten, (q.link h r cmd).desc d = q.desc d := by
    intro d hd
    have hdr : d ≠ r := fun heq => hr (heq ▸ hd)
    have hdh : d ≠ h := fun heq => hh (heq ▸ List.mem_cons_of_mem _ hd)
    exact (Function.update_of_ne hdr ..).trans (Function.update_of_ne hdh ..)
  have hfree : ∀ d ∈ free, (q.link h r cmd).desc d = q.desc d := fun d hd => hkept d (List.mem_append_left _ hd)
  have hat_h : (q.link h r cmd).desc h = ⟨cmd.reqBuf, cmd.reqLen, virtqDescFNext, r⟩ :=
    (Function.update_of_ne hne ..).trans (Function.update_self ..)
  have hat_r : (q.link h r cmd).desc r = ⟨cmd.respBuf, cmd.respLen, virtqDescFWrite, 0⟩ := Function.update_self ..
  refine ⟨hq.size, hq.list.congr hfree, List.forall_mem_cons.2 ⟨⟨?_, ?_, ?_⟩, fun c hc => ?_⟩, hq.parts, hq.count,
    fun d hd => ?_⟩
  · rw [hat_h]
    show virtqDescFNext &&& virtqDescFNext ≠ 0
    decide
  · rw [hat_h]
  · show ((q.link h r cmd).desc r).flags &&& virtqDescFNext = 0
    rw [hat_r]
    show virtqDescFWrite &&& virtqDescFNext = 0
    decide
  · refine (hq.chained c (List.mem_cons_of_mem _ (List.mem_cons_of_mem _ hc))).congr fun d hd => ?_
    exact hkept d (List.mem_append_right _ (List.mem_flatten.2 ⟨c, hc, hd⟩))
  · rw [hfree d hd]
    exact hq.clear d hd

/-! ## Freeing -/

/-- Of the chain `h :: c` the head has been given back; what is left of it is still a chain. -/
theorem QueueInv.giveBack {cs' : List (List Nat)} (hq : QueueInv q free ((h :: c) :: cs))
    (hflat : cs'.flatten = c ++ cs.flatten) (hchained : ∀ c ∈ cs', Chained q.desc c) :
    QueueInv (q.giveBack h) (h :: free) cs' := by
  have hperm : (free ++ ((h :: c) :: cs).flatten).Perm (h :: (free ++ cs'.flatten)) := by
    rw [hflat]
    exact List.perm_middle
  have hnot := (List.nodup_cons.1 (hperm.nodup_iff.1 hq.nodup)).1
  have hkept : ∀ d ∈ free ++ cs'.flatten, (q.giveBack h).desc d = q.desc d := fun d hd =>
    Function.update_of_ne (ne_of_mem_of_not_mem hd hnot) ..
  have hself : (q.giveBack h).desc h = { q.desc h with next := q.nextFreeDesc, flags := 0 } := Function.update_self ..
  have hend := (hq.inside (hperm.mem_iff.2 List.mem_cons_self)).2
  have hroom : free.length + 1 < 2 ^ 16 := by
    have hlen := hperm.symm.trans hq.parts |>.length_eq
    have hsize := hq.size
    unfold virtioVqSize at hsize
    rw [List.length_cons, List.length_append, List.length_range] at hlen
    omega
  refine ⟨hq.size, ⟨rfl, hend, ?_⟩, fun c hc => ?_, hperm.symm.trans hq.parts, ?_,
    List.forall_mem_cons.2 ⟨?_, fun d hd => ?_⟩⟩
  · rw [hself]
    exact hq.list.congr fun d hd => hkept d (List.mem_append_left _ hd)
  · refine (hchained c hc).congr fun d hd => ?_
    exact hkept d (List.mem_append_right _ (List.mem_flatten.2 ⟨c, hc, hd⟩))
  · show (q.numFree + 1) % 2 ^ 16 = _
    rw [hq.count, Nat.mod_eq_of_lt hroom, List.length_cons]
  · rw [hself]
  · rw [hkept d (List.mem_append_left _ hd)]
    exact hq.clear d hd

theorem freeLoop_spec {fuel : Nat} (hq : QueueInv q free ((h :: c) :: cs)) (hfuel : c.length < fuel) :
    ∃ q', freeLoop fuel q h = some q' ∧ QueueInv q' ((h :: c).reverse ++ free) cs ∧ SameRings q q' := by
  induction c generalizing q h free fuel with
  | nil =>
    obtain ⟨fuel, rfl⟩ := Nat.exists_eq_succ_of_ne_zero (Nat.ne_of_gt hfuel)
    obtain ⟨hlast, hchained⟩ := List.forall_mem_cons.1 hq.chained
    refine ⟨q.giveBack h, ?_, hq.giveBack rfl hchained, rfl, rfl, ⟨rfl, rfl⟩, ⟨rfl, rfl⟩⟩
    exact if_pos hlast
  | cons e c ih =>
    obtain ⟨fuel, rfl⟩ := Nat.exists_eq_succ_of_ne_zero (Nat.ne_of_gt (Nat.zero_lt_of_lt hfuel))
    obtain ⟨⟨hflag, hnext, hrest⟩, hchained⟩ := List.forall_mem_cons.1 hq.chained
    have hgiven : QueueInv (q.giveBack h) (h :: free) ((e :: c) :: cs) :=
      hq.giveBack rfl (List.forall_mem_cons.2 ⟨hrest, hchained⟩)
    obtain ⟨q', hloop, hq', hsame⟩ := ih hgiven (Nat.lt_of_succ_lt_succ hfuel)
    have hmem : e ∈ (h :: free) ++ ((e :: c) :: cs).flatten := List.mem_append_right _ List.mem_cons_self
    have hinside : ¬(q.giveBack h).size ≤ e := Nat.not_le.2 (hgiven.inside hmem).1
    refine ⟨q', ?_, ?_, (giveBack_rings q h).trans hsame⟩
    · rw [freeLoop, if_neg hflag, hnext, if_neg hinside, hloop]
    · rwa [List.reverse_cons, List.append_assoc]

theorem freeDescChain_spec (hq : QueueInv q free (c :: cs)) (hhead : c.head? = some h) :
    ∃ q', virtioQueueFreeDescChain q h = some q' ∧ QueueInv q' (c.reverse ++ free) cs ∧ SameRings q q' := by
  obtain ⟨c, rfl⟩ := List.head?_eq_some_iff.1 hhead
  have hmem : h ∈ free ++ ((h :: c) :: cs).flatten := List.mem_append_right _ List.mem_cons_self
  have hinside : ¬q.size ≤ h := Nat.not_le.2 (hq.inside hmem).1
  have hlen := hq.length
  rw [List.flatten_cons, List.length_append, List.length_cons] at hlen
  unfold virtioQueueFreeDescChain
  rw [if_neg hinside]
  exact freeLoop_spec hq (by omega)

/-! ## Answers -/

/-- The entry that is waited for names the chain `c`. -/
theorem waitResponse_spec (hq : QueueInv q free (c :: cs))
    (hhead : c.head? = some (q.usedRing (q.lastUsedIdx % q.size)).id) (hwaits : q.lastUsedIdx ≠ q.usedIdx) :
    ∃ q', virtioQueueWaitResponse q = some (q', (q.usedRing (q.lastUsedIdx % q.size)).len) ∧
      QueueInv q' (c.reverse ++ free) cs ∧
      SameRings { q with lastUsedIdx := (q.lastUsedIdx + 1) % 2 ^ 16 } q' := by
  generalize helem : q.usedRing (q.lastUsedIdx % q.size) = elem at hhead
  have hmem : elem.id ∈ free ++ (c :: cs).flatten := by
    obtain ⟨c, rfl⟩ := List.head?_eq_some_iff.1 hhead
    exact List.mem_append_right _ List.mem_cons_self
  have hlt := (hq.inside hmem).1
  have hword : elem.id % 2 ^ 16 = elem.id := by
    have hsize := hq.size
    unfold virtioVqSize at hsize
    exact Nat.mod_eq_of_lt (by omega)
  have hnext : QueueInv { q with lastUsedIdx := (q.lastUsedIdx + 1) % 2 ^ 16 } free (c :: cs) :=
    hq.congr rfl rfl rfl rfl
  obtain ⟨q', hfreed, hq', hsame⟩ := freeDescChain_spec hnext hhead
  refine ⟨q', ?_, hq', hsame⟩
  unfold virtioQueueWaitResponse
  rw [if_neg hwaits, helem]
  show Option.map _ (if elem.id < q.size then _ else _) = _
  rw [if_pos hlt, hword, hfreed]
  rfl

/-! ## Exchanges with the device -/

/-- With nothing to answer the counters agree; the chain that was submitted is the next one in the available ring,
or its answer the next in the used ring. -/
inductive Exchange (q : VirtioQueue) (seen : Nat) : Option Nat → Prop
  | quiet (hread : seen = q.availIdx) (hwaited : q.lastUsedIdx = q.usedIdx) : Exchange q seen none
  | submitted {h : Nat} (hnext : q.availRing (seen % q.size) = h) (havail : q.availIdx = (seen + 1) % 2 ^ 16)
      (hwaited : q.lastUsedIdx = q.usedIdx) : Exchange q seen (some h)
  | answered {h : Nat} (hread : seen = q.availIdx) (hnext : (q.usedRing (q.lastUsedIdx % q.size)).id = h)
      (hused : q.usedIdx = (q.lastUsedIdx + 1) % 2 ^ 16) : Exchange q seen (some h)

theorem Exchange.congr {q' : VirtioQueue} {seen : Nat} {sent : Option Nat} (he : Exchange q seen sent)
    (hsame : SameRings q q') : Exchange q' seen sent := by
  obtain ⟨hsize, hlast, ⟨havail, havailRing⟩, hused, husedRing⟩ := hsame
  cases he with
  | quiet hread hwaited => exact .quiet (by rw [hread, havail]) (by rw [hlast, hused, hwaited])
  | submitted hnext hidx hwaited =>
    exact .submitted (by rw [havailRing, hsize, hnext]) (by rw [havail, hidx]) (by rw [hlast, hused, hwaited])
  | answered hread hnext hidx =>
    exact .answered (by rw [hread, havail]) (by rw [husedRing, hlast, hsize, hnext]) (by rw [hused, hlast, hidx])

variable {seen : Nat}

theorem Exchange.submit (he : Exchange q seen none) (h : Nat) :
    Exchange (virtioQueueSubmit q h) seen (some h) := by
  obtain ⟨hread, hwaited⟩ := he
  refine .submitted ?_ (by rw [hread]; rfl) hwaited
  rw [hread]
  exact Function.update_self ..

theorem Exchange.answer {sent : Option Nat} (he : Exchange q seen sent) (hsome : seen ≠ q.availIdx) (len : Nat) :
    Exchange (q.answer seen len) ((seen + 1) % 2 ^ 16) sent := by
  cases he with
  | quiet hread => exact absurd hread hsome
  | answered hread => exact absurd hread hsome
  | submitted hnext havail hwaited =>
    refine .answered havail.symm ?_ (by rw [show (q.answer seen len).lastUsedIdx = q.usedIdx from hwaited]; rfl)
    show (Function.update q.usedRing (q.usedIdx % q.size) _ (q.lastUsedIdx % q.size)).id = _
    rw [hwaited, Function.update_self, hnext]

/-- Only for an answer the polling ends. -/
theorem Exchange.wait {sent : Option Nat} (he : Exchange q seen sent) (hwaits : q.lastUsedIdx ≠ q.usedIdx) :
    sent = some (q.usedRing (q.lastUsedIdx % q.size)).id ∧
      Exchange { q with lastUsedIdx := (q.lastUsedIdx + 1) % 2 ^ 16 } seen none := by
  cases he with
  | quiet _ hwaited => exact absurd hwaited hwaits
  | submitted _ _ hwaited => exact absurd hwaited hwaits
  | answered hread hnext hused => exact ⟨by rw [hnext], .quiet hread hused.symm⟩

theorem Exchange.waits {q : VirtioQueue} (he : Exchange q seen none) (h len : Nat) :
    ((virtioQueueSubmit q h).answer seen len).lastUsedIdx ≠ ((virtioQueueSubmit q h).answer seen len).usedIdx := by
  obtain ⟨-, hwaited⟩ := he
  show q.lastUsedIdx ≠ (q.usedIdx + 1) % 2 ^ 16
  omega

/-! ## Commands -/

/-- A chain that is submitted is answered and freed. -/
theorem submit_spec (hq : QueueInv q free (c :: cs)) (hhead : c.head? = some h) (he : Exchange q seen none)
    (len : Nat) :
    ∃ q' written, virtioQueueWaitResponse ((virtioQueueSubmit q h).answer seen len) = some (q', written) ∧
      QueueInv q' (c.reverse ++ free) cs ∧ Exchange q' ((seen + 1) % 2 ^ 16) none := by
  have hq' : QueueInv ((virtioQueueSubmit q h).answer seen len) free (c :: cs) := hq.congr rfl rfl rfl rfl
  have hread : seen ≠ (virtioQueueSubmit q h).availIdx := by
    obtain ⟨hread, -⟩ := he
    show seen ≠ (q.availIdx + 1) % 2 ^ 16
    omega
  have hwaits := he.waits h len
  obtain ⟨hsent, hdone⟩ := ((he.submit h).answer hread len).wait hwaits
  obtain ⟨q', hwait, hinv, hsame⟩ := waitResponse_spec hq' (hhead.trans hsent) hwaits
  exact ⟨q', _, hwait, hinv, hdone.congr hsame⟩

/-- A command gives back what it took. -/
theorem sendCmd_spec (hq : QueueInv q free cs) (he : Exchange q seen none) (queuesOk : Bool) (cmd : GpuCommand)
    (ans : GpuAnswer) :
    ∃ q' seen' type free', virtioGpuSendCmd queuesOk cmd ans q seen = some (q', seen', type) ∧
      QueueInv q' free' cs ∧ Exchange q' seen' none ∧ free'.Perm free := by
  unfold virtioGpuSendCmd
  cases queuesOk with
  | false => exact ⟨q, seen, 0, free, rfl, hq, he, .refl _⟩
  | true =>
    rw [Bool.not_true, if_neg Bool.false_ne_true]
    cases free with
    | nil =>
      refine ⟨q, seen, 0, [], ?_, hq, he, .refl _⟩
      simp [allocDesc_nil hq, freeAllocated]
    | cons h free =>
      have hne := hq.list.2.1
      obtain ⟨q₁, halloc, hq₁, hsame⟩ := allocDesc_spec hq
      have he := he.congr hsame
      cases free with
      | nil =>
        -- the second descriptor is missing, and the first goes back
        obtain ⟨q', hfreed, hq', hsame⟩ := freeDescChain_spec hq₁ rfl
        refine ⟨q', seen, 0, [h], ?_, hq', he.congr hsame, .refl _⟩
        simp [halloc, allocDesc_nil hq₁, freeAllocated, hne, hfreed]
      | cons r free =>
        have hne' := hq₁.list.2.1
        obtain ⟨q₂, halloc', hq₂, hsame⟩ := allocDesc_spec hq₁
        have he := he.congr hsame
        have hlinked := (hq₂.perm (List.Perm.swap ..)).link cmd
        have he : Exchange (q₂.link h r cmd) seen none := he.congr (link_rings q₂ h r cmd)
        obtain ⟨q', written, hwait, hq', hdone⟩ := submit_spec hlinked rfl he ans.len
        refine ⟨q', (seen + 1) % 2 ^ 16, ans.type, [r, h] ++ free, ?_, hq', hdone, List.Perm.swap ..⟩
        simp [halloc, halloc', hne, hne', hwait]

end Queue

/-! ## Steps -/

/-- The invariant of a history: the submitted chain is one of those in flight. -/
structure GpuInv (w : GpuWorld) (free : List Nat) : Prop where
  queue : QueueInv w.queue free w.chains
  exchange : Exchange w.queue w.lastAvail w.sent
  sent : ∀ h, w.sent = some h → ∃ c ∈ w.chains, c.head? = some h

section Steps

variable {w w' : GpuWorld} {free : List Nat} {h : Nat}

/-- The chain with the head `h`, and the others. -/
theorem without_perm (hh : ∃ c ∈ w.chains, c.head? = some h) :
    ∃ c, c.head? = some h ∧ w.chains.Perm (c :: w.without h) := by
  obtain ⟨c, hc, hhead⟩ := hh
  obtain ⟨c', pre, post, -, hhead', hchains, hrest⟩ := 
    @List.exists_of_eraseP _ (fun c => c.head? = some h) _ _ hc (decide_eq_true hhead)
  refine ⟨c', of_decide_eq_true hhead', ?_⟩
  rw [GpuWorld.without, hrest, hchains]
  exact List.perm_middle

/-- Another chain is still there. -/
theorem mem_without {x : Nat} (hh : ∃ c ∈ w.chains, c.head? = some h) (hx : ∃ c ∈ w.chains, c.head? = some x)
    (hne : x ≠ h) : ∃ c ∈ w.without h, c.head? = some x := by
  obtain ⟨c, hhead, hperm⟩ := without_perm hh
  obtain ⟨c', hc', hhead'⟩ := hx
  obtain rfl | hrest := List.mem_cons.1 (hperm.mem_iff.1 hc')
  · exact absurd (Option.some.inj (hhead'.symm.trans hhead)) hne
  · exact ⟨c', hrest, hhead'⟩

theorem some_mem_heads : some h ∈ w.chains.map List.head? ↔ ∃ c ∈ w.chains, c.head? = some h := List.mem_map

theorem GpuInv.alloc (hw : GpuInv w free) (hstep : gpuStep w .alloc = some w') : ∃ free', GpuInv w' free' := by
  cases hstep
  cases free with
  | nil =>
    refine ⟨[], ?_⟩
    rw [allocDesc_nil hw.queue, if_pos rfl]
    exact hw
  | cons h free =>
    obtain ⟨q', halloc, hq', hsame⟩ := allocDesc_spec hw.queue
    refine ⟨free, ?_⟩
    rw [halloc, if_neg hw.queue.list.2.1]
    refine ⟨hq', hw.exchange.congr hsame, fun x hx => ?_⟩
    obtain ⟨c, hc, hhead⟩ := hw.sent x hx
    exact ⟨c, List.mem_cons_of_mem _ hc, hhead⟩

theorem GpuInv.link {r : Nat} {cmd : GpuCommand} (hw : GpuInv w free)
    (hstep : gpuStep w (.link h r cmd) = some w') : GpuInv w' free := by
  obtain ⟨⟨hh, hr, hsent, hsent'⟩, heq⟩ := Option.ite_none_right_eq_some.1 hstep
  cases heq
  have hperm : w.chains.Perm ([h] :: [r] :: (w.chains.erase [h]).erase [r]) :=
    (List.perm_cons_erase hh).trans ((List.perm_cons_erase hr).cons _)
  refine ⟨(hw.queue.perm hperm).link cmd, hw.exchange.congr (link_rings _ h r cmd), fun x hx => ?_⟩
  obtain ⟨c, hc, hhead⟩ := hw.sent x hx
  have hne : ∀ d, w.sent ≠ some d → c ≠ [d] := fun d hd heq => by
    rw [heq] at hhead
    exact hd (hx.trans hhead.symm)
  have hmem := (List.mem_erase_of_ne (hne h hsent)).2 hc
  exact ⟨c, List.mem_cons_of_mem _ ((List.mem_erase_of_ne (hne r hsent')).2 hmem), hhead⟩

theorem GpuInv.submit (hw : GpuInv w free) (hstep : gpuStep w (.submit h) = some w') : GpuInv w' free := by
  obtain ⟨⟨hnone, hh⟩, heq⟩ := Option.ite_none_right_eq_some.1 hstep
  cases heq
  have hquiet := hw.exchange
  rw [hnone] at hquiet
  refine ⟨hw.queue.congr rfl rfl rfl rfl, hquiet.submit h, fun x hx => ?_⟩
  cases hx
  exact some_mem_heads.1 hh

theorem GpuInv.answer {len : Nat} (hw : GpuInv w free) (hstep : gpuStep w (.answer len) = some w') :
    GpuInv w' free := by
  obtain ⟨hsome, heq⟩ := Option.ite_none_right_eq_some.1 hstep
  cases heq
  exact ⟨hw.queue.congr rfl rfl rfl rfl, hw.exchange.answer hsome len, hw.sent⟩

/-- When the polling ends, the chain that was submitted is free. -/
theorem GpuInv.waits (hw : GpuInv w free) (hwaits : w.queue.lastUsedIdx ≠ w.queue.usedIdx) :
    ∃ h c q len, w.sent = some h ∧ h = (w.queue.usedRing (w.queue.lastUsedIdx % w.queue.size)).id ∧
      c.head? = some h ∧ w.chains.Perm (c :: w.without h) ∧ virtioQueueWaitResponse w.queue = some (q, len) ∧
      QueueInv q (c.reverse ++ free) (w.without h) ∧ Exchange q w.lastAvail none := by
  obtain ⟨hsent, hdone⟩ := hw.exchange.wait hwaits
  obtain ⟨c, hhead, hperm⟩ := without_perm (hw.sent _ hsent)
  obtain ⟨q, hwait, hq, hsame⟩ := waitResponse_spec (hw.queue.perm hperm) hhead hwaits
  exact ⟨_, c, q, _, hsent, rfl, hhead, hperm, hwait, hq, hdone.congr hsame⟩

theorem GpuInv.wait (hw : GpuInv w free) (hstep : gpuStep w .wait = some w') : ∃ free', GpuInv w' free' := by
  obtain ⟨⟨q', len'⟩, hdone, rfl⟩ := Option.map_eq_some_iff.1 hstep
  by_cases hwaits : w.queue.lastUsedIdx = w.queue.usedIdx
  · unfold virtioQueueWaitResponse at hdone
    rw [if_pos hwaits] at hdone
    cases hdone
  obtain ⟨h, c, q, len, -, rfl, -, -, hwait, hq, hquiet⟩ := hw.waits hwaits
  cases hwait.symm.trans hdone
  refine ⟨_, hq, hquiet, fun x hx => ?_⟩
  cases hx

theorem GpuInv.freed (hw : GpuInv w free) (hstep : gpuStep w (.free h) = some w') : ∃ free', GpuInv w' free' := by
  obtain ⟨⟨hh, hsent⟩, hfreed⟩ := Option.ite_none_right_eq_some.1 hstep
  have hh := some_mem_heads.1 hh
  obtain ⟨q, hq, rfl⟩ := Option.map_eq_some_iff.1 hfreed
  obtain ⟨c, hhead, hperm⟩ := without_perm hh
  obtain ⟨q', hq', hinv, hsame⟩ := freeDescChain_spec (hw.queue.perm hperm) hhead
  cases hq'.symm.trans hq
  refine ⟨_, hinv, hw.exchange.congr hsame, fun x hx => mem_without hh (hw.sent x hx) fun heq => ?_⟩
  rw [heq] at hx
  exact hsent hx

theorem GpuInv.sendCmd {queuesOk : Bool} {cmd : GpuCommand} {ans : GpuAnswer} (hw : GpuInv w free)
    (hstep : gpuStep w (.sendCmd queuesOk cmd ans) = some w') : ∃ free', GpuInv w' free' := by
  obtain ⟨hnone, hsend⟩ := Option.ite_none_right_eq_some.1 hstep
  obtain ⟨p, hp, rfl⟩ := Option.map_eq_some_iff.1 hsend
  have hquiet := hw.exchange
  rw [hnone] at hquiet
  obtain ⟨q, seen, type, free', hsent, hq, hdone, -⟩ := sendCmd_spec hw.queue hquiet queuesOk cmd ans
  cases hsent.symm.trans hp
  refine ⟨free', hq, ?_, hw.sent⟩
  show Exchange q seen w.sent
  rwa [hnone]

theorem gpuStep_inv {op : GpuOp} (hw : GpuInv w free) (hstep : gpuStep w op = some w') :
    ∃ free', GpuInv w' free' := by
  cases op with
  | alloc => exact hw.alloc hstep
  | link h r cmd => exact ⟨free, hw.link hstep⟩
  | submit h => exact ⟨free, hw.submit hstep⟩
  | answer len => exact ⟨free, hw.answer hstep⟩
  | wait => exact hw.wait hstep
  | free h => exact hw.freed hstep
  | sendCmd queuesOk cmd ans => exact hw.sendCmd hstep

end Steps

section Runs

variable {devQsize : Nat} {w : GpuWorld}

/-- The free list of a new queue goes through all descriptors in order. -/
theorem freeFrom_range {desc : Nat → VqDesc} {size : Nat} (hsize : size ≤ virtioVqSize)
    (hnext : ∀ i < size, (desc i).next = if i + 1 < size then i + 1 else virtqDescFreeEnd) {n i : Nat}
    (hi : i + (n + 1) = size) : FreeFrom desc i (List.range' i (n + 1)) := by
  have hne : i ≠ virtqDescFreeEnd := by
    unfold virtioVqSize at hsize
    unfold virtqDescFreeEnd
    omega
  induction n generalizing i with
  | zero =>
    refine ⟨rfl, hne, ?_⟩
    rw [hnext i (by omega), if_neg (by omega)]
    rfl
  | succ n ih =>
    refine ⟨rfl, hne, ?_⟩
    rw [hnext i (by omega), if_pos (by omega)]
    refine ih (by omega) ?_
    unfold virtioVqSize at hsize
    unfold virtqDescFreeEnd
    omega

theorem queueInit_inv {descPhys availPhys usedPhys : Nat} {q : VirtioQueue}
    (hinit : virtioQueueInit devQsize descPhys availPhys usedPhys = some q) :
    QueueInv q (List.range q.size) [] ∧ Exchange q 0 none := by
  unfold virtioQueueInit at hinit
  obtain ⟨hsome, hinit⟩ := Option.ite_none_left_eq_some.1 hinit
  obtain ⟨-, hinit⟩ := Option.ite_none_left_eq_some.1 hinit
  generalize hqsize : (if virtioVqSize < devQsize then virtioVqSize else devQsize) = size at hinit
  have hbounds : 0 < size ∧ size ≤ virtioVqSize := by
    unfold virtioVqSize at hqsize ⊢
    split at hqsize
    all_goals omega
  cases hinit
  refine ⟨⟨hbounds.2, ?_, fun c hc => absurd hc List.not_mem_nil, ?_, ?_, fun _ _ => rfl⟩, .quiet rfl rfl⟩
  · obtain ⟨n, rfl⟩ := Nat.exists_eq_add_one.2 hbounds.1
    unfold VirtioQueue.FreeList
    rw [List.range_eq_range']
    refine freeFrom_range hbounds.2 (fun i hi => ?_) (Nat.zero_add _)
    show (if i < n + 1 - 1 then i + 1 else if i = n + 1 - 1 then virtqDescFreeEnd else 0) = _
    split
    · rw [if_pos (by omega)]
    · rw [if_pos (by omega), if_neg (by omega)]
  · rw [List.flatten_nil, List.append_nil]
  · rw [List.length_range]

theorem gpuStart_inv (hstart : GpuStart devQsize w) : GpuInv w (List.range w.queue.size) := by
  obtain ⟨⟨descPhys, availPhys, usedPhys, hinit⟩, hseen, hchains, hsent⟩ := hstart
  obtain ⟨hq, hquiet⟩ := queueInit_inv hinit
  refine ⟨?_, ?_, fun h hh => ?_⟩
  · rwa [hchains]
  · rwa [hseen, hsent]
  · cases hsent.symm.trans hh

theorem gpuReach_inv (hrun : GpuReach devQsize w) : ∃ free, GpuInv w free := by
  apply hrun.invariant
  · intro w hstart
    exact ⟨_, gpuStart_inv hstart⟩
  · intro w op w' ⟨free, hw⟩ _ hstep
    exact gpuStep_inv hw hstep

theorem GpuInv.allocSound {free : List Nat} (hw : GpuInv w free) : AllocSound w free := by
  have hq := hw.queue
  cases free with
  | nil =>
    refine ⟨?_, fun hne => absurd ?_ hne⟩
    all_goals rw [allocDesc_nil hq]
    exact ⟨fun _ => rfl, fun _ => rfl⟩
  | cons h free =>
    have hat : (virtioQueueAllocDesc w.queue).2 = h := by rw [allocDesc_cons hq]
    have hne := hq.list.2.1
    unfold AllocSound
    rw [hat]
    refine ⟨⟨fun heq => absurd heq hne, fun heq => absurd heq (List.cons_ne_nil _ _)⟩, fun _ =>
      ⟨List.mem_cons_self, fun hflight => ?_⟩⟩
    exact (List.nodup_cons.1 hq.nodup).1 (List.mem_append_right _ hflight)

/-- In every history the descriptors are shared out between the free list and the chains in flight, and each
operation treats them as such. -/
theorem descriptors_managed (hrun : GpuReach devQsize w) :
    ∃ free, SharedOut w free ∧ AllocSound w free ∧ FreeSound w free ∧ WaitSound w free ∧ SendSound w free := by
  obtain ⟨free, hw⟩ := gpuReach_inv hrun
  have hq := hw.queue
  refine ⟨free, ⟨hq.list, hq.chained, hq.parts, hq.count⟩, hw.allocSound, fun c hc h hhead => ?_, fun hwaits => ?_,
    fun hnone queuesOk cmd ans => ?_⟩
  · obtain ⟨q, hfreed, hq', -⟩ := freeDescChain_spec (hq.perm (List.perm_cons_erase hc)) hhead
    exact ⟨q, hfreed, hq'.list⟩
  · obtain ⟨h, c, q, len, hsent, -, hhead, hperm, hwait, hq', -⟩ := hw.waits hwaits
    exact ⟨h, c, q, len, hsent, hperm.mem_iff.2 List.mem_cons_self, hhead, hwait, hq'.list⟩
  · have hquiet := hw.exchange
    rw [hnone] at hquiet
    obtain ⟨q, seen, type, free', hsend, hq', -, hperm⟩ := sendCmd_spec hq hquiet queuesOk cmd ans
    exact ⟨q, seen, type, free', hsend, hq'.list, hperm⟩

end Runs

/-- One of two descriptors is held and the command fails; then both are used for one. -/
theorem descriptors_managed_two :
    ∃ w free, w.chains = [[0, 1]] ∧ SharedOut w free ∧ AllocSound w free ∧ FreeSound w free ∧ WaitSound w free ∧
      SendSound w free := by
  obtain ⟨w, hrun, hchains⟩ := Option.map_eq_some_iff.1 (show
    ((virtioQueueInit 2 1 1 1).bind fun q => runSteps gpuStep
      [.alloc, .sendCmd true ⟨4096, 24, 8192, 24⟩ ⟨24, 0x1100⟩, .free 0, .alloc, .alloc,
        .link 0 1 ⟨4096, 24, 8192, 24⟩, .submit 0, .answer 24] ⟨q, 0, [], none⟩).map GpuWorld.chains =
      some [[0, 1]] by decide)
  obtain ⟨q, hinit, hrun⟩ := Option.bind_eq_some_iff.1 hrun
  have hreach : GpuReach 2 w :=
    runSteps_reach (fun _ _ _ hstep => ⟨trivial, hstep⟩) (.start ⟨⟨1, 1, 1, hinit⟩, rfl, rfl, rfl⟩) hrun
  obtain ⟨free, hsound⟩ := descriptors_managed hreach
  exact ⟨w, free, hchains, hsound⟩

end MeuOS.Display
