import MeuOS.Ex.Lookaside

/-! Runs of a lookaside list by any number of threads. The blocks of the heap behind a run are the cached entries, in
their order, the live ones, and those of others. -/
namespace MeuOS.Ex

open MeuOS.Lib MeuOS.Mm

/-- A thread in `kmalloc` looks for the right size, and what it has seen is still so. -/
def Call.Ok (m : Mem) (n : Nat) (bs : List Block) : Call → Prop
  | .search k b => k = n ∧ ∃ suf, Searching m n bs b suf
  | .take k b => k = n ∧ ∃ c suf, Searching m n bs b (c :: suf) ∧ c.free = true ∧ n ≤ c.size
  | _ => True

theorem Call.Ok.frame {m m' : Mem} {n : Nat} {bs : List Block} {c : Call} (h : c.Ok m n bs)
    (hagree : ∀ b ∈ bs, Mem.Agree m m' b.addr (b.addr + blockHeader)) : c.Ok m' n bs := by
  cases c with
  | idle => trivial
  | miss => trivial
  | search k b =>
    obtain ⟨rfl, suf, hs⟩ := h
    exact ⟨rfl, suf, hs.frame hagree⟩
  | take k b =>
    obtain ⟨rfl, c, suf, hs, hfree, hsize⟩ := h
    exact ⟨rfl, c, suf, hs.frame hagree, hfree, hsize⟩

/-- What an entry takes in the heap. -/
def entrySize (size : Nat) : Nat := roundUp16 (if size % 2 ^ 32 ≠ 0 then size % 2 ^ 32 else 16)

/-- An entry has room for a link, and for what it was asked for. -/
theorem entrySize_spec (size : Nat) : 16 ≤ entrySize size ∧ size % 2 ^ 32 ≤ entrySize size ∧
    entrySize size + 15 < 2 ^ 64 ∧ roundUp16 (entrySize size) = entrySize size := by
  have hlt := Nat.mod_lt size (show 2 ^ 32 > 0 by decide)
  unfold entrySize roundUp16
  split <;> omega

theorem Call.Ok.outside {m : Mem} {n : Nat} {bs : List Block} {c : Call} (h : c.inside = false) : c.Ok m n bs := by
  cases c with
  | idle => trivial
  | miss => trivial
  | search k b => cases h
  | take k b => cases h

structure LookInv (others : List Alloc) (size tag : Nat) (s : LookWorld) (as cs : List Alloc) (bs : List Block) :
    Prop where
  heap : HeapInv ⟨s.heap, cs ++ (as ++ others)⟩ bs
  live : (as.map Alloc.ptr).Perm s.live
  cached : cs.map Alloc.ptr = s.cached
  room : ∀ a ∈ cs ++ as, entrySize size ≤ a.granted
  linked : Linked s.heap.mem.rd64 s.list.listHead s.cached
  depth : s.list.depth = s.cached.length
  narrowed : s.list.size = size % 2 ^ 32
  tag : s.list.tag = tag % 2 ^ 32
  alone : ∀ t u, (s.call t).inside = true → (s.call u).inside = true → t = u
  calls : ∀ t, (s.call t).Ok s.heap.mem (entrySize size) bs

section Step

variable {others : List Alloc} {size tag : Nat} {s s' : LookWorld} {as cs : List Alloc} {bs : List Block}

theorem LookInv.missSize (h : LookInv others size tag s as cs bs) : roundUp16 (missSize s.list) = entrySize size := by
  unfold Ex.missSize entrySize
  rw [h.narrowed]

theorem LookInv.holds (h : LookInv others size tag s as cs bs) : Mm.Holds s.heap (cs ++ (as ++ others)) := ⟨bs, h.heap⟩

theorem LookInv.mem (_h : LookInv others size tag s as cs bs) {a : Alloc} (ha : a ∈ cs ++ as) :
    a ∈ cs ++ (as ++ others) := by
  rw [← List.append_assoc]
  exact List.mem_append_left _ ha

theorem LookInv.bytes (h : LookInv others size tag s as cs bs) {a : Alloc} (ha : a ∈ cs ++ as) :
    s.bytes a.ptr = a.granted := h.heap.granted (h.mem ha)

theorem LookInv.live_alloc (h : LookInv others size tag s as cs bs) {p : Nat} (hp : p ∈ s.live) :
    ∃ a ∈ as, a.ptr = p := List.mem_map.mp (h.live.mem_iff.mpr hp)

/-- The links lie in the entries. -/
theorem LookInv.links_kept (h : LookInv others size tag s as cs bs) {m : Mem}
    (hkept : ∀ c ∈ cs, c.Kept s.heap.mem m) : Linked m.rd64 s.list.listHead s.cached := by
  refine h.linked.congr fun q hq => ?_
  obtain ⟨c, hc, rfl⟩ := List.mem_map.mp (h.cached ▸ hq)
  have hroom := h.room c (List.mem_append_left _ hc)
  have hlink := (entrySize_spec size).1
  exact (Mem.rd64_congr ((hkept c hc).mono (Nat.le_refl _) (by omega))).symm

theorem LookInv.head_lt (h : LookInv others size tag s as cs bs) : s.list.listHead < 256 ^ 8 := by
  have hlinked := h.linked
  have hcached := h.cached
  cases cs with
  | nil =>
    rw [← hcached] at hlinked
    rw [show s.list.listHead = 0 from hlinked]
    decide
  | cons c cs =>
    rw [← hcached] at hlinked
    have hbounds := h.holds.bounds (List.mem_cons_self ..)
    rw [show s.list.listHead = c.ptr from hlinked.1]
    simp only [heapBase, heapSize] at hbounds
    omega

theorem LookInv.length_lt (h : LookInv others size tag s as cs bs) : s.cached.length < heapSize := by
  have hbounds : ∀ q ∈ s.cached, heapBase + 1 ≤ q ∧ q < heapBase + heapSize := fun q hq => by
    obtain ⟨c, hc, rfl⟩ := List.mem_map.mp (h.cached ▸ hq)
    have hbounds := h.holds.bounds (List.mem_append_left _ hc)
    have hroom := h.room c (List.mem_append_left _ hc)
    have hlink := (entrySize_spec size).1
    simp only [blockHeader] at hbounds
    omega
  have hlen := length_le_of_nodup h.linked.nodup hbounds
  simp only [heapBase, heapSize] at hlen ⊢
  omega

theorem lookInv_start {h : Heap} (hinv : HeapInv ⟨h, others⟩ bs) (hs : LookStart h size tag s) :
    LookInv others size tag s [] [] bs := by
  subst hs
  exact ⟨hinv, .nil, rfl, nofun, rfl, rfl, rfl, rfl, fun _ _ h => absurd h Bool.false_ne_true, fun _ => trivial⟩

/-! ## What a step does -/

theorem allocate_cases {t : Nat} (hstep : lookStep s (.allocate t) = some s') :
    if (popEntry s.heap.mem s.list).2 = 0 then s' = s.setCall t .miss
    else s' = { s with
      list := (popEntry s.heap.mem s.list).1
      live := (popEntry s.heap.mem s.list).2 :: s.live
      cached := s.cached.erase (popEntry s.heap.mem s.list).2 } := by
  rw [lookStep] at hstep
  split at hstep
  · dsimp only at hstep
    split at hstep
    · rename_i hnull
      rw [if_pos hnull]
      exact (Option.some.inj hstep).symm
    · rename_i hhit
      rw [if_neg hhit]
      exact (Option.some.inj hstep).symm
  · cases hstep

theorem kmalloc_cases {t : Nat} (hstep : lookStep s (.kmalloc t) = some s') :
    s' = s.setCall t (.search (roundUp16 (missSize s.list)) s.heap.sHead) := by
  rw [lookStep] at hstep
  split at hstep
  · exact (Option.some.inj hstep).symm
  · cases hstep

theorem look_cases {t : Nat} (hstep : lookStep s (.look t) = some s') :
    ∃ n b, s.call t = .search n b ∧ s' = s.setCall t (lookTurn s.heap.mem n b) := by
  rw [lookStep] at hstep
  split at hstep
  · rename_i hcall
    exact ⟨_, _, hcall, (Option.some.inj hstep).symm⟩
  · cases hstep

theorem take_cases {t : Nat} (hstep : lookStep s (.take t) = some s') :
    ∃ n b, s.call t = .take n b ∧
      s' = { s.setCall t .idle with
        heap := { s.heap with mem := takeBlock s.heap.mem b n }
        live := (b + blockHeader) :: s.live } := by
  rw [lookStep] at hstep
  split at hstep
  · rename_i hcall
    exact ⟨_, _, hcall, (Option.some.inj hstep).symm⟩
  · cases hstep

theorem free_cases {p : Nat} (hstep : lookStep s (.free p) = some s') : p ∈ s.live ∧
    s' = { s with
      heap := { s.heap with mem := (pushEntry s.heap.mem s.list p).1 }
      list := (pushEntry s.heap.mem s.list p).2
      live := s.live.erase p
      cached := p :: s.cached } := by
  rw [lookStep] at hstep
  split at hstep
  · rename_i hp
    exact ⟨hp, (Option.some.inj hstep).symm⟩
  · cases hstep

theorem store_cases {p i : Nat} {v : UInt8} (hstep : lookStep s (.store p i v) = some s') :
    p ∈ s.live ∧ i < s.bytes p ∧ s' = { s with heap := { s.heap with mem := s.heap.mem.put (p + i) v } } := by
  rw [lookStep] at hstep
  split at hstep
  · rename_i hheld
    exact ⟨hheld.1, hheld.2, (Option.some.inj hstep).symm⟩
  · cases hstep

/-! ## The entries -/

/-- The heap and the list stay as they are. -/
theorem LookInv.setCall (h : LookInv others size tag s as cs bs) {t : Nat} {c : Call}
    (hok : c.Ok s.heap.mem (entrySize size) bs)
    (halone : c.inside = true → (s.call t).inside = true ∨ ∀ u, (s.call u).inside = false) :
    LookInv others size tag (s.setCall t c) as cs bs where
  heap := h.heap
  live := h.live
  cached := h.cached
  room := h.room
  linked := h.linked
  depth := h.depth
  narrowed := h.narrowed
  tag := h.tag
  alone := fun u v hu hv => by
    have hinside : ∀ w, ((s.setCall t c).call w).inside = true →
        w = t ∧ c.inside = true ∨ w ≠ t ∧ (s.call w).inside = true := fun w hw => by
      by_cases hwt : w = t
      · subst hwt
        rw [LookWorld.setCall_same] at hw
        exact .inl ⟨rfl, hw⟩
      · rw [LookWorld.setCall_other s c hwt] at hw
        exact .inr ⟨hwt, hw⟩
    rcases hinside u hu with ⟨rfl, hc⟩ | ⟨-, hu'⟩ <;> rcases hinside v hv with ⟨rfl, hc'⟩ | ⟨-, hv'⟩
    · rfl
    · rcases halone hc with ht | hnone
      · exact h.alone _ _ ht hv'
      · exact absurd (hnone v) (by rw [hv']; exact Bool.noConfusion)
    · rcases halone hc' with ht | hnone
      · exact h.alone _ _ hu' ht
      · exact absurd (hnone u) (by rw [hu']; exact Bool.noConfusion)
    · exact h.alone _ _ hu' hv'
  calls := fun u => by
    by_cases hut : u = t
    · subst hut
      rw [LookWorld.setCall_same]
      exact hok
    · rw [LookWorld.setCall_other s c hut]
      exact h.calls u

theorem LookInv.allocate (h : LookInv others size tag s as cs bs) {t : Nat}
    (hstep : lookStep s (.allocate t) = some s') :
    ∃ as' cs', LookInv others size tag s' as' cs' bs := by
  have hstep := allocate_cases hstep
  have hlinked := h.linked
  have hcached := h.cached
  have hdepth := h.depth
  cases cs with
  | nil =>
    rw [← hcached] at hlinked
    have hnull : s.list.listHead = 0 := hlinked
    have hpop : (popEntry s.heap.mem s.list).2 = 0 := by
      unfold popEntry
      rw [hnull]
      rfl
    rw [if_pos hpop] at hstep
    subst hstep
    exact ⟨as, [], h.setCall trivial fun hin => absurd hin Bool.false_ne_true⟩
  | cons c cs =>
    rw [← hcached] at hlinked hdepth
    obtain ⟨hhead, hne, hrest⟩ := hlinked
    have hpop : popEntry s.heap.mem s.list =
        ({ s.list with listHead := s.heap.mem.rd64 c.ptr, depth := (cs.map Alloc.ptr).length }, c.ptr) := by
      unfold popEntry
      dsimp only
      rw [hhead, if_pos hne, hdepth, List.map_cons, List.length_cons, if_pos (Nat.succ_ne_zero _), Nat.add_sub_cancel]
    rw [hpop, if_neg hne, ← hcached] at hstep
    subst hstep
    have hmid : (c :: cs ++ (as ++ others)).Perm (cs ++ (c :: as ++ others)) := List.perm_middle.symm
    have hmem : (c :: cs ++ as).Perm (cs ++ c :: as) := List.perm_middle.symm
    refine ⟨c :: as, cs, h.heap.perm hmid, h.live.cons _, ?_, fun a ha => h.room a (hmem.mem_iff.mpr ha), ?_, ?_,
      h.narrowed, h.tag, h.alone, h.calls⟩
    · exact (List.erase_cons_head ..).symm
    · rw [List.map_cons, List.erase_cons_head]
      exact hrest
    · rw [List.map_cons, List.erase_cons_head]

theorem LookInv.frame (h : LookInv others size tag s as cs bs) {a : Alloc} {m : Mem} (ha : a ∈ as)
    (hkept : ∀ i, i < a.ptr ∨ a.ptr + a.granted ≤ i → m i = s.heap.mem i) :
    HeapInv ⟨{ s.heap with mem := m }, cs ++ (as ++ others)⟩ bs ∧ Linked m.rd64 s.list.listHead s.cached ∧
      ∀ t, (s.call t).Ok m (entrySize size) bs := by
  have hmem := h.mem (List.mem_append_right cs ha)
  have hheaders := h.heap.headers_kept hmem hkept
  refine ⟨h.heap.frame hmem hkept, h.links_kept fun c hc => ?_, fun t => (h.calls t).frame hheaders⟩
  refine (h.holds.store hmem hkept).2 c (h.mem (List.mem_append_left _ hc)) ?_
  have hapart := (List.pairwise_append.mp h.heap.ptr_inj).2.2 c hc a (List.mem_append_left _ ha)
  exact hapart

theorem LookInv.free (h : LookInv others size tag s as cs bs) {p : Nat} (hstep : lookStep s (.free p) = some s') :
    ∃ as' cs', LookInv others size tag s' as' cs' bs := by
  obtain ⟨hp, rfl⟩ := free_cases hstep
  obtain ⟨a, ha, rfl⟩ := h.live_alloc hp
  have hroom := h.room a (List.mem_append_right _ ha)
  have hlink := (entrySize_spec size).1
  have hkept : ∀ i, i < a.ptr ∨ a.ptr + a.granted ≤ i →
      s.heap.mem.write a.ptr 8 s.list.listHead i = s.heap.mem i := fun i hi => Mem.write_outside _ _ (by omega)
  obtain ⟨hheap, hlinked, hcalls⟩ := h.frame ha hkept
  obtain ⟨pre, post, rfl⟩ := List.append_of_mem ha
  have hmove : (cs ++ (pre ++ a :: post ++ others)).Perm (a :: cs ++ (pre ++ post ++ others)) :=
    ((List.perm_middle.append_right others).append_left cs).trans List.perm_middle
  have hlive : ((pre ++ post).map Alloc.ptr).Perm (s.live.erase a.ptr) := by
    have hcons : (a.ptr :: (pre ++ post).map Alloc.ptr).Perm (a.ptr :: s.live.erase a.ptr) :=
      ((List.perm_middle.map Alloc.ptr).symm.trans h.live).trans (List.perm_cons_erase hp)
    exact hcons.cons_inv
  have hlen := h.length_lt
  have hhead := h.head_lt
  refine ⟨pre ++ post, a :: cs, hheap.perm hmove, hlive, congrArg _ h.cached, fun c hc => h.room c ?_, ?_, ?_,
    h.narrowed, h.tag, h.alone, hcalls⟩
  · have hback : (a :: cs ++ (pre ++ post)).Perm (cs ++ (pre ++ a :: post)) :=
      List.perm_middle.symm.trans (List.perm_middle.symm.append_left cs)
    exact hback.mem_iff.mp hc
  · refine ⟨rfl, ?_, ?_⟩
    · have hbounds := h.holds.bounds (h.mem (List.mem_append_right _ ha))
      simp only [blockHeader] at hbounds
      omega
    · have hhead : (s.heap.mem.write a.ptr 8 s.list.listHead).rd64 a.ptr = s.list.listHead :=
        Mem.read_write_of_lt _ h.head_lt
      rw [show (pushEntry s.heap.mem s.list a.ptr).1.rd64 a.ptr = _ from hhead]
      exact hlinked
  · have hdepth := h.depth
    simp only [heapSize] at hlen
    show (s.list.depth + 1) % 2 ^ 32 = s.cached.length + 1
    omega

theorem LookInv.store (h : LookInv others size tag s as cs bs) {p i : Nat} {v : UInt8}
    (hstep : lookStep s (.store p i v) = some s') : LookInv others size tag s' as cs bs := by
  obtain ⟨hp, hi, rfl⟩ := store_cases hstep
  obtain ⟨a, ha, rfl⟩ := h.live_alloc hp
  rw [h.bytes (List.mem_append_right _ ha)] at hi
  have hkept : ∀ j, j < a.ptr ∨ a.ptr + a.granted ≤ j → s.heap.mem.put (a.ptr + i) v j = s.heap.mem j :=
    fun j hj => Mem.put_other _ _ (by omega)
  obtain ⟨hheap, hlinked, hcalls⟩ := h.frame ha hkept
  exact ⟨hheap, h.live, h.cached, h.room, hlinked, h.depth, h.narrowed, h.tag, h.alone, hcalls⟩

theorem LookInv.kmalloc (h : LookInv others size tag s as cs bs) {t : Nat} (hguard : Alone s (.kmalloc t))
    (hstep : lookStep s (.kmalloc t) = some s') : LookInv others size tag s' as cs bs := by
  obtain rfl := kmalloc_cases hstep
  exact h.setCall ⟨h.missSize, bs, .start h.heap⟩ fun _ => .inr hguard

theorem LookInv.look (h : LookInv others size tag s as cs bs) {t : Nat} (hstep : lookStep s (.look t) = some s') :
    LookInv others size tag s' as cs bs := by
  obtain ⟨n, b, hcall, rfl⟩ := look_cases hstep
  obtain ⟨rfl, suf, hs⟩ : n = entrySize size ∧ ∃ suf, Searching s.heap.mem (entrySize size) bs b suf := by
    have hok := h.calls t
    rwa [hcall] at hok
  refine h.setCall ?_ fun _ => .inl (by rw [hcall]; rfl)
  unfold lookTurn
  cases suf with
  | nil =>
    rw [if_pos (show b = 0 from hs.here)]
    trivial
  | cons c suf =>
    obtain ⟨-, hne, hsize, hfree, -⟩ := hs.here
    rw [if_neg hne, hfree, hsize]
    by_cases hfit : c.free = true ∧ entrySize size ≤ c.size
    · rw [if_pos hfit]
      exact ⟨rfl, c, suf, hs, hfit.1, hfit.2⟩
    · rw [if_neg hfit]
      exact ⟨rfl, suf, hs.next hfit⟩

theorem LookInv.take (h : LookInv others size tag s as cs bs) {t : Nat} (hstep : lookStep s (.take t) = some s') :
    ∃ as' bs', LookInv others size tag s' as' cs bs' := by
  obtain ⟨n, b, hcall, rfl⟩ := take_cases hstep
  obtain ⟨-, -, hfits, hround⟩ := entrySize_spec size
  have hok := h.calls t
  rw [hcall] at hok
  obtain ⟨rfl, c, suf, hs, hfree, hsize⟩ := hok
  have hk := kmalloc_take h.heap hround hs hfree hsize
  have hnone : ∀ u, ((s.setCall t .idle).call u).inside = false := fun u => by
    by_cases hu : u = t
    · rw [hu, LookWorld.setCall_same]
      rfl
    · rw [LookWorld.setCall_other s _ hu]
      exact Bool.eq_false_iff.mpr fun hin => hu (h.alone u t hin (by rw [hcall]; rfl))
  rcases h.holds.kmalloc hfits with hnull | ⟨m', a, hk', -, hroom, -, ⟨bs', hinv⟩, hkept⟩
  · have hzero := congrArg Prod.snd (Option.some.inj (hk.symm.trans hnull))
    simp only [blockHeader] at hzero
    omega
  · obtain ⟨hmem, hptr⟩ := Prod.mk.inj (Option.some.inj (hk.symm.trans hk'))
    obtain rfl : takeBlock s.heap.mem b (entrySize size) = m' := congrArg Heap.mem hmem
    refine ⟨a :: as, bs', hinv.perm List.perm_middle.symm, ?_, h.cached, fun c hc => ?_,
      h.links_kept fun c hc => hkept c (List.mem_append_left _ hc), h.depth, h.narrowed, h.tag,
      fun u _ hu => absurd hu (Bool.eq_false_iff.mp (hnone u)), fun u => .outside (hnone u)⟩
    · show ((a :: as).map Alloc.ptr).Perm ((b + blockHeader) :: s.live)
      rw [List.map_cons, ← hptr]
      exact h.live.cons _
    · rcases List.mem_cons.mp (List.perm_middle.mem_iff.mp hc) with rfl | hc
      · exact hroom
      · exact h.room c hc

theorem lookInv_step (h : LookInv others size tag s as cs bs) {op : LookOp} (hguard : Alone s op)
    (hstep : lookStep s op = some s') : ∃ as' cs' bs', LookInv others size tag s' as' cs' bs' := by
  cases op with
  | allocate t =>
    obtain ⟨as', cs', h'⟩ := h.allocate hstep
    exact ⟨as', cs', bs, h'⟩
  | kmalloc t => exact ⟨as, cs, bs, h.kmalloc hguard hstep⟩
  | look t => exact ⟨as, cs, bs, h.look hstep⟩
  | take t =>
    obtain ⟨as', bs', h'⟩ := h.take hstep
    exact ⟨as', cs, bs', h'⟩
  | free p =>
    obtain ⟨as', cs', h'⟩ := h.free hstep
    exact ⟨as', cs', bs, h'⟩
  | store p i v => exact ⟨as, cs, bs, h.store hstep⟩

/-! ## What holds between the steps -/

theorem LookInv.sound (h : LookInv others size tag s as cs bs) : LookSound size s where
  disjoint := by
    have hpairs : (as.map Alloc.ptr).Pairwise fun p q => p + s.bytes p ≤ q ∨ q + s.bytes q ≤ p := by
      rw [List.pairwise_map]
      have hne := (List.pairwise_append.mp (List.pairwise_append.mp h.heap.ptr_inj).2.1).1
      refine hne.imp_of_mem fun {a b} ha hb hab => ?_
      have ha := List.mem_append_right cs ha
      have hb := List.mem_append_right cs hb
      rw [h.bytes ha, h.bytes hb]
      exact h.holds.apart (h.mem ha) (h.mem hb) hab
    exact h.live.pairwise hpairs fun hpq => hpq.symm
  room := fun p hp => by
    obtain ⟨a, ha, rfl⟩ := h.live_alloc hp
    have ha := List.mem_append_right cs ha
    have hbounds := h.holds.bounds (h.mem ha)
    have hroom := h.room a ha
    have hsize := (entrySize_spec size).2.1
    rw [h.bytes ha]
    simp only [heapBase, heapSize, blockHeader] at hbounds
    constructor
    · intro hle
      omega
    · intro hlt
      rw [Nat.mod_eq_of_lt hlt] at hsize
      omega
  recent := by
    have hpop : (popEntry s.heap.mem s.list).2 = s.list.listHead := by
      unfold popEntry
      dsimp only
      split
      · rfl
      · rename_i hnull
        exact (not_not.mp hnull).symm
    have hlinked := h.linked
    rw [hpop]
    cases hc : s.cached with
    | nil =>
      rw [hc] at hlinked
      exact hlinked
    | cons q l =>
      rw [hc] at hlinked
      exact hlinked.1
  entry := fun hzero => by
    obtain ⟨c, hc, hptr⟩ := List.mem_map.mp (h.cached ▸ hzero)
    have hbounds := h.holds.bounds (List.mem_append_left _ hc)
    simp only [blockHeader] at hbounds
    omega
  depth := h.depth

/-- Every entry is freed, and the links behind it are read before. -/
theorem deleteLoop_spec {h : Heap} {rest : List Alloc} {p fuel : Nat} (hh : Mm.Holds h (cs ++ rest))
    (hlinked : Linked h.mem.rd64 p (cs.map Alloc.ptr)) (hroom : ∀ c ∈ cs, 8 ≤ c.granted) (hfuel : cs.length < fuel) :
    ∃ h', deleteLoop fuel h p = some (h', cs.map Alloc.ptr) ∧ Mm.Holds h' rest := by
  induction cs generalizing h p fuel with
  | nil =>
    obtain ⟨fuel, rfl⟩ := Nat.exists_eq_add_of_lt hfuel
    obtain rfl : p = 0 := hlinked
    exact ⟨h, by simp [deleteLoop], hh⟩
  | cons c cs ih =>
    obtain ⟨fuel, rfl⟩ : ∃ k, fuel = k + 1 := ⟨fuel - 1, by omega⟩
    obtain ⟨rfl, hne, hrest⟩ := hlinked
    obtain ⟨m', hfree, hholds, hkept⟩ := hh.kfree (List.mem_cons_self ..)
    have hdistinct : ∀ a ∈ cs ++ rest, (a.ptr != c.ptr) = true := by
      obtain ⟨bs, hinv⟩ := hh
      exact fun a ha => bne_iff_ne.mpr ((List.pairwise_cons.mp hinv.ptr_inj).1 a ha).symm
    have hleft : (c :: cs ++ rest).filter (fun a => a.ptr != c.ptr) = cs ++ rest := by
      rw [List.cons_append, List.filter_cons_of_neg (by rw [bne_self_eq_false]; exact Bool.false_ne_true),
        List.filter_eq_self.mpr hdistinct]
    rw [hleft] at hholds
    have hlinked' : Linked m'.rd64 (h.mem.rd64 c.ptr) (cs.map Alloc.ptr) := hrest.congr fun q hq => by
      obtain ⟨d, hd, rfl⟩ := List.mem_map.mp hq
      have hsame := hkept d (List.mem_cons_of_mem _ (List.mem_append_left _ hd))
      have hlink := hroom d (List.mem_cons_of_mem _ hd)
      exact (Mem.rd64_congr (hsame.mono (Nat.le_refl _) (by omega))).symm
    obtain ⟨h', hloop, hend⟩ := ih hholds hlinked' (fun d hd => hroom d (List.mem_cons_of_mem _ hd))
      (Nat.lt_of_succ_lt_succ hfuel)
    refine ⟨h', ?_, hend⟩
    rw [deleteLoop, if_neg hne, hfree]
    dsimp only [Option.bind_some]
    rw [hloop]
    rfl

theorem LookInv.delete (h : LookInv others size tag s as cs bs) : DeleteSound others size tag s := by
  have hlinked := h.linked
  have hlen := h.length_lt
  rw [← h.cached] at hlinked hlen
  rw [List.length_map] at hlen
  obtain ⟨h', hloop, hend⟩ := deleteLoop_spec h.holds hlinked (fun c hc => by
    have hroom := h.room c (List.mem_append_left _ hc)
    have hlink := (entrySize_spec size).1
    omega) hlen
  refine ⟨h', { s.list with listHead := 0 }, as, ?_, h.linked.nodup, h.live, hend, ?_⟩
  · unfold exDeleteNPagedLookasideList
    rw [hloop, h.cached]
    rfl
  · unfold exInitializeNPagedLookasideList
    rw [NpagedLookasideList.mk.injEq, h.narrowed, h.tag, h.depth, List.length_eq_zero_iff]
    exact ⟨fun hsame => hsame.2.2.2, fun hnil => ⟨rfl, rfl, rfl, hnil⟩⟩

end Step

theorem lookInv_run {h : Heap} {others : List Alloc} {size tag : Nat} {s : LookWorld} (hh : Mm.Holds h others)
    (hrun : LookRun h size tag Alone s) : ∃ as cs bs, LookInv others size tag s as cs bs := by
  obtain ⟨bs, hinv⟩ := hh
  induction hrun with
  | start hs => exact ⟨[], [], bs, lookInv_start hinv hs⟩
  | step _ hguard hstep ih =>
    obtain ⟨as, cs, bs, hs⟩ := ih
    exact lookInv_step hs hguard hstep

/-- In every run in which no thread enters `kmalloc` while another is in it, the entries are sound, and the list can
be deleted. -/
theorem lookaside_runs {h : Heap} {others : List Alloc} {size tag : Nat} {s : LookWorld} (hh : Mm.Holds h others)
    (hrun : LookRun h size tag Alone s) : LookSound size s ∧ DeleteSound others size tag s := by
  obtain ⟨as, cs, bs, hs⟩ := lookInv_run hh hrun
  exact ⟨hs.sound, hs.delete⟩

/-- A list for entries of `size` bytes over a fresh heap. -/
def firstList (size : Nat) : LookWorld :=
  ⟨heapInit fun _ => 0, exInitializeNPagedLookasideList size 0, fun _ => .idle, [], []⟩

theorem firstList_run {size : Nat} {ops : List LookOp} {s : LookWorld}
    (hrun : runSteps lookStep ops (firstList size) = some s) :
    LookRun (heapInit fun _ => 0) size 0 (fun _ _ => True) s :=
  runSteps_reach (fun _ _ _ hstep => ⟨trivial, hstep⟩) (.start rfl) hrun

theorem lookaside_runs_first :
    ∃ s, s.live = [heapBase + blockHeader] ∧ LookSound 64 s ∧ DeleteSound [] 64 0 s := by
  have hmissed : LookRun (heapInit fun _ => 0) 64 0 Alone ((firstList 64).setCall 0 .miss) :=
    .step (.start rfl) trivial (a := .allocate 0) rfl
  have halone : Alone ((firstList 64).setCall 0 .miss) (.kmalloc 0) := fun u => by
    by_cases hu : u = 0
    · rw [hu, LookWorld.setCall_same]
      rfl
    · rw [LookWorld.setCall_other _ _ hu]
      rfl
  obtain ⟨s, hrun, hlive⟩ := Option.map_eq_some_iff.mp (show (runSteps lookStep [.look 0, .take 0]
    (((firstList 64).setCall 0 .miss).setCall 0 (.search 64 heapBase))).map LookWorld.live =
      some [heapBase + blockHeader] by decide +kernel)
  have htaken : LookRun (heapInit fun _ => 0) 64 0 Alone s := by
    obtain ⟨s₁, hlook, hrest⟩ := Option.bind_eq_some_iff.mp hrun
    obtain ⟨s₂, htake, hend⟩ := Option.bind_eq_some_iff.mp hrest
    cases hend
    have hlooked : LookRun (heapInit fun _ => 0) 64 0 Alone s₁ :=
      .step (.step hmissed halone rfl) trivial (a := .look 0) hlook
    exact .step hlooked trivial (a := .take 0) htake
  exact ⟨s, hlive, lookaside_runs ⟨_, heapInit_inv _⟩ htaken⟩

/-- A list that had an entry in it does not become the initial one when it is deleted; an entry of 4 GiB and 8 bytes
has 16; two threads in `kmalloc` get the same block. -/
theorem lookaside_fails :
    (∃ s h' l' freed, LookRun (heapInit fun _ => 0) 64 0 (fun _ _ => True) s ∧
      exDeleteNPagedLookasideList s.heap s.list = some (h', l', freed) ∧ l' ≠ exInitializeNPagedLookasideList 64 0) ∧
    (∃ s, LookRun (heapInit fun _ => 0) (2 ^ 32 + 8) 0 (fun _ _ => True) s ∧
      ∃ p ∈ s.live, s.bytes p < 2 ^ 32 + 8) ∧
    ∃ s, LookRun (heapInit fun _ => 0) 64 0 (fun _ _ => True) s ∧
      s.live = [heapBase + blockHeader, heapBase + blockHeader] := by
  refine ⟨?_, ?_, ?_⟩
  · obtain ⟨⟨h', l', freed⟩, hrun, hdepth⟩ := Option.map_eq_some_iff.mp (show ((runSteps lookStep
      [.allocate 0, .kmalloc 0, .look 0, .take 0, .free (heapBase + blockHeader)] (firstList 64)).bind
        fun s => exDeleteNPagedLookasideList s.heap s.list).map (fun r => r.2.1.depth) = some 1 by decide +kernel)
    obtain ⟨s, hrun, hdelete⟩ := Option.bind_eq_some_iff.mp hrun
    refine ⟨s, h', l', freed, firstList_run hrun, hdelete, fun hsame => ?_⟩
    rw [hsame] at hdepth
    cases hdepth
  · obtain ⟨s, hrun, hs⟩ := Option.map_eq_some_iff.mp (show (runSteps lookStep
      [.allocate 0, .kmalloc 0, .look 0, .take 0] (firstList (2 ^ 32 + 8))).map
        (fun s => (s.live, s.live.map s.bytes)) = some ([heapBase + blockHeader], [16]) by decide +kernel)
    obtain ⟨hlive, hbytes⟩ := Prod.mk.inj hs
    rw [hlive, List.map_singleton] at hbytes
    refine ⟨s, firstList_run hrun, _, hlive ▸ List.mem_singleton_self _, ?_⟩
    rw [List.head_eq_of_cons_eq hbytes]
    decide
  · obtain ⟨s, hrun, hs⟩ := Option.map_eq_some_iff.mp (show (runSteps lookStep
      [.allocate 0, .kmalloc 0, .allocate 1, .kmalloc 1, .look 0, .look 1, .take 0, .take 1] (firstList 64)).map
        LookWorld.live = some [heapBase + blockHeader, heapBase + blockHeader] by decide +kernel)
    exact ⟨s, firstList_run hrun, hs⟩

end MeuOS.Ex
