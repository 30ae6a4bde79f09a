import MeuOS.Cm.Registry

/-! Where keys live and what a handle to one designates. Every key the path walk meets
is a heap block in use, so the `OBJECT_HEADER` the handle table reaches for lies in
front of that block, in memory the key does not own. -/
namespace MeuOS.Cm

open MeuOS.Lib MeuOS.Mm MeuOS.Ob

@[simp] theorem mem_setMem (s : RegState) (m : Mem) : (s.setMem m).mem = m := rfl

@[simp] theorem heap_setMem (s : RegState) (m : Mem) :
    (s.setMem m).heap = { s.heap with mem := m } := rfl

@[simp] theorem heap_setHeap (s : RegState) (h : Heap) : (s.setHeap h).heap = h := rfl

/-! ## The tree -/

/-- `j` is on the list of children of `k`. -/
inductive ChildOf (m : Mem) (k : Nat) : Nat → Prop
  | first : m.rd64 (childrenAt k) ≠ 0 → ChildOf m k (m.rd64 (childrenAt k))
  | next {j : Nat} : ChildOf m k j → m.rd64 (siblingAt j) ≠ 0 → ChildOf m k (m.rd64 (siblingAt j))

inductive Below (m : Mem) (k : Nat) : Nat → Prop
  | refl : Below m k k
  | child {i j : Nat} : Below m k i → ChildOf m i j → Below m k j

theorem Below.trans {m : Mem} {k i j : Nat} (h : Below m k i) (h' : Below m i j) : Below m k j := by
  induction h' with
  | refl => exact h
  | child _ hchild ih => exact ih.child hchild

theorem childOf_of_leaf {m : Mem} {k j : Nat} (hleaf : m.rd64 (childrenAt k) = 0) :
    ¬ ChildOf m k j := by
  intro h
  induction h with
  | first hne => exact hne hleaf
  | next _ _ ih => exact ih

theorem below_of_leaf {m : Mem} {k j : Nat} (hleaf : m.rd64 (childrenAt k) = 0)
    (h : Below m k j) : j = k := by
  induction h with
  | refl => rfl
  | child _ hchild ih =>
    subst ih
    exact absurd hchild (childOf_of_leaf hleaf)

/-- `live` lists the heap blocks in use. -/
def Owns (s : RegState) (live : List Alloc) : Prop := ∃ bs, HeapInv ⟨s.heap, live⟩ bs

/-- A block in use that holds a `REG_KEY`. -/
def KeyBlock (live : List Alloc) (k : Nat) : Prop := ∃ a ∈ live, a.ptr = k ∧ regKeySize ≤ a.granted

/-- The heap is sound and everything below `k` is a key in a block of its own. -/
def Subtree (s : RegState) (k : Nat) : Prop :=
  ∃ live, Owns s live ∧ ∀ j, Below s.mem k j → KeyBlock live j

/-- The registry proper: `s_root` and every key handle stand on top of a subtree. -/
structure KeyTree (s : RegState) : Prop where
  root : s.sRoot ≠ 0 → Subtree s s.sRoot
  handle : ∀ v, obHandleToObject s.ob v obTypeRegkey ≠ 0 →
    Subtree s (obHandleToObject s.ob v obTypeRegkey)

theorem Subtree.le {s : RegState} {k : Nat} (h : Subtree s k) : heapBase + blockHeader ≤ k := by
  obtain ⟨live, ⟨bs, hinv⟩, hkeys⟩ := h
  obtain ⟨a, ha, rfl, -⟩ := hkeys _ .refl
  obtain ⟨b, hb, -, hptr, -⟩ := hinv.live_block a ha
  have hlo := (tiles_bounds hinv.tiles hb).1
  rw [hptr, Block.payload]
  omega

/-! ## One component of a path -/

theorem findByName_childOf {m : Mem} {k fuel p j : Nat} {name : List UInt8}
    (h : findByName m siblingAt name fuel p = some j) (hj : j ≠ 0) (hp : p ≠ 0 → ChildOf m k p) :
    ChildOf m k j := by
  induction fuel generalizing p with
  | zero => cases h
  | succ fuel ih =>
    unfold findByName at h
    by_cases hnull : p = 0
    · rw [if_pos hnull] at h
      cases h
      exact absurd rfl hj
    · rw [if_neg hnull] at h
      split at h
      · cases h
        exact hp hnull
      · exact ih h fun hne => (hp hnull).next hne

theorem regFindChild_childOf {m : Mem} {k j : Nat} {name : List UInt8}
    (h : regFindChild m k name = some j) (hj : j ≠ 0) : ChildOf m k j :=
  findByName_childOf h hj .first

theorem regKmalloc_owns {s s' : RegState} {live : List Alloc} {n p : Nat} (h : Owns s live)
    (hfits : n + 15 < 2 ^ 64) (hrun : regKmalloc s n = some (s', p)) (hp : p ≠ 0) :
    ∃ a, a.ptr = p ∧ n ≤ a.granted ∧ Owns s' (a :: live) := by
  obtain ⟨bs, hinv⟩ := h
  obtain ⟨⟨heap, q⟩, hk, heq⟩ := Option.map_eq_some_iff.mp hrun
  cases heq
  have hn : n < 2 ^ 64 := by omega
  have hstep : heapStep ⟨s.heap, live⟩ (.kmalloc n) =
      some ⟨heap, ⟨q, n, blockSize heap.mem (q - blockHeader)⟩ :: live⟩ := by
    simp only [heapStep, if_pos hn, hk, Option.map_some, if_neg hp]
  obtain ⟨bs', hinv'⟩ := kmalloc_inv hinv hfits hstep
  exact ⟨_, rfl, hinv'.room _ (List.mem_cons_self ..), bs', hinv'⟩

/-- Stores into a block in use. -/
theorem Owns.store {s : RegState} {live : List Alloc} {a : Alloc} {m : Mem} (h : Owns s live)
    (ha : a ∈ live) (hkept : ∀ i, i < a.ptr ∨ a.ptr + a.granted ≤ i → m i = s.mem i) :
    Owns (s.setMem m) live := by
  obtain ⟨bs, hinv⟩ := h
  exact ⟨bs, hinv.frame ha hkept⟩

theorem Owns.apart {s : RegState} {live : List Alloc} {a c : Alloc} (h : Owns s (c :: live))
    (ha : a ∈ live) : c.ptr + c.granted ≤ a.ptr ∨ a.ptr + a.granted ≤ c.ptr := by
  obtain ⟨bs, hinv⟩ := h
  exact ((List.pairwise_cons.mp hinv.sound.disjoint).1 a ha).2

theorem strcpyn_outside (m : Mem) {dst max i : Nat} (src : List UInt8) (hmax : 0 < max)
    (h : i < dst ∨ dst + max ≤ i) : strcpyn m dst src max i = m i := by
  have hlen : (src.take (max - 1)).length ≤ max - 1 := List.length_take_le ..
  unfold strcpyn
  rw [Mem.put_other _ _ (by omega), Mem.blit_outside _ _ (by omega)]

theorem writeKey_outside (m : Mem) {k i : Nat} (name : List UInt8) (parent : Nat)
    (h : i < k ∨ k + regKeySize ≤ i) : writeKey m k name parent i = m i := by
  simp only [regKeySize] at h
  simp (disch := omega) only [writeKey, parentAt, childrenAt, siblingAt, valuesAt,
    Mem.write_outside]
  exact strcpyn_outside m name (by decide) (by simp only [maxName]; omega)

theorem writeKey_children (m : Mem) (k : Nat) (name : List UInt8) (parent : Nat) :
    (writeKey m k name parent).rd64 (childrenAt k) = 0 := by
  simp (disch := omega) only [writeKey, childrenAt, siblingAt, valuesAt, Mem.rd64,
    Mem.read_write_of_disjoint, Mem.read_write_of_lt]

theorem regAllocKey_owns {s s' : RegState} {live : List Alloc} {name : List UInt8} {parent c : Nat}
    (h : Owns s live) (hrun : regAllocKey s name parent = some (s', c)) (hc : c ≠ 0) :
    ∃ a, a.ptr = c ∧ regKeySize ≤ a.granted ∧ Owns s' (a :: live) ∧
      s'.mem.rd64 (childrenAt c) = 0 := by
  obtain ⟨⟨s₁, p⟩, hk, heq⟩ := Option.map_eq_some_iff.mp hrun
  simp only at heq
  split at heq
  case isTrue => cases heq; exact absurd rfl hc
  case isFalse hp =>
    cases heq
    obtain ⟨a, rfl, hroom, howns⟩ := regKmalloc_owns h (by decide) hk hp
    exact ⟨a, rfl, hroom, howns.store (List.mem_cons_self ..)
      fun i hi => writeKey_outside _ _ _ (by omega), writeKey_children ..⟩

theorem linkChild_children (m : Mem) {k c : Nat} (h : c + regKeySize ≤ k ∨ k + regKeySize ≤ c) :
    (linkChild m k c).rd64 (childrenAt c) = m.rd64 (childrenAt c) := by
  simp only [regKeySize] at h
  simp (disch := omega) only [linkChild, childrenAt, siblingAt, Mem.rd64,
    Mem.read_write_of_disjoint]

theorem Owns.linkChild {s : RegState} {live : List Alloc} {a c : Alloc} (h : Owns s (c :: live))
    (ha : a ∈ live) (hroom : regKeySize ≤ a.granted) (hcroom : regKeySize ≤ c.granted) :
    Owns (s.setMem (linkChild s.mem a.ptr c.ptr)) (c :: live) := by
  simp only [regKeySize] at hroom hcroom
  have hsib : Owns (s.setMem (s.mem.write (siblingAt c.ptr) 8 (s.mem.rd64 (childrenAt a.ptr))))
      (c :: live) :=
    h.store (List.mem_cons_self ..) fun i hi =>
      Mem.write_outside _ _ (by simp only [siblingAt]; omega)
  exact hsib.store (List.mem_cons_of_mem _ ha) fun i hi =>
    Mem.write_outside _ _ (by simp only [childrenAt]; omega)

/-- A step along the path, with or without creation, leads to the top of a subtree. -/
theorem nextKey_subtree {s s' : RegState} {k nxt : Nat} {name : List UInt8} {create : Bool}
    (h : Subtree s k) (hrun : nextKey s k name create = some (s', nxt)) (hnxt : nxt ≠ 0) :
    Subtree s' nxt := by
  have hfound : ∀ {j}, regFindChild s.mem k name = some j → j ≠ 0 → Subtree s j := by
    intro j hj hne
    obtain ⟨live, howns, hkeys⟩ := h
    have hchild := regFindChild_childOf hj hne
    exact ⟨live, howns, fun i hi => hkeys i ((Below.refl.child hchild).trans hi)⟩
  unfold nextKey at hrun
  split at hrun
  case isFalse =>
    obtain ⟨j, hj, heq⟩ := Option.map_eq_some_iff.mp hrun
    cases heq
    exact hfound hj hnxt
  case isTrue =>
    obtain ⟨j, hj, hrun⟩ := Option.bind_eq_some_iff.mp hrun
    split at hrun
    case isTrue hne => cases hrun; exact hfound hj hne
    case isFalse =>
      obtain ⟨⟨s₁, c⟩, halloc, heq⟩ := Option.map_eq_some_iff.mp hrun
      simp only at heq
      split at heq
      case isTrue => cases heq; exact absurd rfl hnxt
      case isFalse hc =>
        cases heq
        obtain ⟨live, howns, hkeys⟩ := h
        obtain ⟨a, ha, rfl, hroom⟩ := hkeys _ .refl
        obtain ⟨b, rfl, hbroom, howns', hleaf⟩ := regAllocKey_owns howns halloc hc
        have hapart := howns'.apart ha
        refine ⟨_, howns'.linkChild ha hroom hbroom, fun j hj => ?_⟩
        -- the new key has no children, so nothing else is below it
        have hleaf' : (linkChild s₁.mem a.ptr b.ptr).rd64 (childrenAt b.ptr) = 0 := by
          rw [linkChild_children _ (by omega), hleaf]
        rw [below_of_leaf hleaf' hj]
        exact ⟨b, List.mem_cons_self .., rfl, hbroom⟩

theorem resolveLoop_subtree {create : Bool} {fuel : Nat} {s s' : RegState} {k k' : Nat}
    {path : List UInt8} (h : Subtree s k)
    (hrun : resolveLoop create fuel s k path = some (s', k')) (hk : k' ≠ 0) : Subtree s' k' := by
  induction fuel generalizing s k path with
  | zero =>
    cases path with
    | nil => cases hrun; exact h
    | cons c cs => cases hrun
  | succ fuel ih =>
    cases path with
    | nil => cases hrun; exact h
    | cons c cs =>
      unfold resolveLoop at hrun
      split at hrun
      case isTrue => exact ih h hrun
      case isFalse =>
        obtain ⟨⟨s₁, nxt⟩, hnext, hrest⟩ := Option.bind_eq_some_iff.mp hrun
        simp only at hrest
        split at hrest
        case isTrue => cases hrest; exact absurd rfl hk
        case isFalse hnxt => exact ih (nextKey_subtree h hnext hnxt) hrest

theorem regResolvePath_subtree {s s' : RegState} {oa : ObjectAttributes} {path : List UInt8}
    {create : Bool} {k : Nat} (h : KeyTree s)
    (hrun : regResolvePath s (baseKey s oa) path create = some (s', k)) (hk : k ≠ 0) :
    Subtree s' k := by
  have hbase : baseKey s oa ≠ 0 → Subtree s (baseKey s oa) := by
    unfold baseKey
    simp only
    split
    · exact h.root
    · split
      · exact h.root
      case isFalse hopen => exact fun _ => h.handle _ hopen
  have hstart : (if baseKey s oa = 0 then s.sRoot else baseKey s oa) ≠ 0 →
      Subtree s (if baseKey s oa = 0 then s.sRoot else baseKey s oa) := by
    split
    · exact h.root
    · exact hbase
  unfold regResolvePath at hrun
  simp only at hrun
  generalize (if baseKey s oa = 0 then s.sRoot else baseKey s oa) = start at hrun hstart
  by_cases hnull : start = 0
  · rw [if_pos hnull] at hrun
    cases hrun
    exact absurd rfl hk
  · rw [if_neg hnull] at hrun
    exact resolveLoop_subtree (hstart hnull) hrun hk

/-! ## Handles -/

/-- What a handle `h` to the key `k` is for: `s₁` is the state before
`ob_create_handle` and `s₂` the one after it. The key's own memory is its heap block,
header included. -/
structure DesignatesKey (s₁ s₂ : RegState) (h k : Nat) : Prop where
  resolves : obHandleToObject s₂.ob h obTypeRegkey = k
  creates : ∀ i, i + blockHeader < k ∨ k + regKeySize ≤ i → s₂.mem i = s₁.mem i
  closes : ∀ i, i + blockHeader < k ∨ k + regKeySize ≤ i → (ntCloseKey s₂ h).mem i = s₂.mem i
  returned : ∀ (name : Option UnicodeString) (type size : Nat) (data : Mem) (s₃ : RegState),
    type < 4294967296 → size < 4294967296 →
    ntSetValueKey s₂ h name type (some data) size = some (s₃, statusSuccess) →
    ∀ h' length, obHandleToObject s₃.ob h' obTypeRegkey = k → 15 + size ≤ length →
    ∃ reply info, ntQueryValueKey s₃ h' name true length = some reply ∧
      reply.status = statusSuccess ∧ reply.info = some info ∧ info.type = type ∧
      info.dataLength = size ∧ ∀ i < size, (info.data.getD [])[i]? = some (data i)

/-- Some index of the handle table is free. -/
def SlotFree (s : RegState) : Prop := ∃ i, 1 ≤ i ∧ i < maxHandles ∧ s.ob.sHandles i = 0

theorem openHandle_full {s : RegState} (k : Nat) (h : ¬ SlotFree s) : openHandle s k = (s, 0) := by
  have hnone : freeSlotLoop s.ob.sHandles (maxHandles - 1) 1 = none :=
    freeSlotLoop_none.mpr fun j hlo hhi hfree =>
      h ⟨j, hlo, by simp only [maxHandles] at hhi ⊢; omega, hfree⟩
  simp only [openHandle, obCreateHandle, hnone]

/-- With a free slot the handle names `k`, and the words 72 and 76 bytes in front of
`k` are incremented. -/
theorem openHandle_free {s : RegState} {k : Nat} (h : SlotFree s) (hk : k ≠ 0) :
    ∃ i, 1 ≤ i ∧ i < maxHandles ∧ (openHandle s k).2 = i * 4 ∧
      (openHandle s k).1.ob.sHandles i = k ∧
      (openHandle s k).1.mem = incr (incr s.mem (handleCountAt k)) (refCountAt k) := by
  cases hslot : freeSlotLoop s.ob.sHandles (maxHandles - 1) 1 with
  | none =>
    obtain ⟨i, hlo, hhi, hfree⟩ := h
    exact absurd hfree (freeSlotLoop_none.mp hslot i hlo
      (by simp only [maxHandles] at hhi ⊢; omega))
  | some i =>
    obtain ⟨hlo, hhi, -⟩ := freeSlotLoop_some hslot
    refine ⟨i, hlo, by simp only [maxHandles] at hhi ⊢; omega, ?_, ?_, ?_⟩ <;>
      simp [openHandle, obCreateHandle, hslot, obReferenceObject, hk, RegState.mem]

/-- The words the handle table counts in are in front of the block of the key. -/
theorem header_outside {k : Nat} (h : heapBase + blockHeader ≤ k) :
    typeAt k + 80 = k ∧ refCountAt k + 76 = k ∧ handleCountAt k + 72 = k := by
  simp only [heapBase, blockHeader] at h
  simp only [typeAt, refCountAt, handleCountAt, objectHeader]
  omega

theorem openHandle_resolves {s : RegState} {k : Nat} (h : heapBase + blockHeader ≤ k) :
    obHandleToObject (openHandle s k).1.ob (openHandle s k).2 obTypeRegkey = k ↔
      SlotFree s ∧ objType s.mem k = obTypeRegkey := by
  have hk : k ≠ 0 := by
    simp only [heapBase] at h
    omega
  by_cases hslot : SlotFree s
  · obtain ⟨htype, href, hcount⟩ := header_outside h
    obtain ⟨i, hlo, hhi, heq, hentry, hmem⟩ := openHandle_free hslot hk
    have hsame : objType (openHandle s k).1.ob.mem k = objType s.mem k := by
      have hmem' : (openHandle s k).1.ob.mem = incr (incr s.mem (handleCountAt k)) (refCountAt k) :=
        hmem
      unfold objType
      rw [hmem', incr, rd32_addInt32_of_disjoint _ (by omega), incr,
        rd32_addInt32_of_disjoint _ (by omega)]
    rw [heq, obHandleToObject_mul_four hlo hhi hentry hk, hsame]
    simp only [hslot, true_and]
    simp [obTypeRegkey, obTypeNone, Ne.symm hk]
  · rw [openHandle_full k hslot]
    have hzero : obHandleToObject s.ob 0 obTypeRegkey = 0 := by
      simp [obHandleToObject, handleEntry, handleSlot]
    simp only [hslot, false_and, iff_false, hzero]
    exact Ne.symm hk

/-- A handle from a free slot has counted in a word of some other block. -/
theorem openHandle_overwrites {s : RegState} {k : Nat} (h : heapBase + blockHeader ≤ k)
    (hslot : SlotFree s) :
    ¬ ∀ i, i + blockHeader < k ∨ k + regKeySize ≤ i → (openHandle s k).1.mem i = s.mem i := by
  have hk : k ≠ 0 := by
    simp only [heapBase] at h
    omega
  obtain ⟨-, href, hcount⟩ := header_outside h
  obtain ⟨-, -, -, -, -, hmem⟩ := openHandle_free hslot hk
  intro hkept
  have hword : (openHandle s k).1.mem.rd32 (handleCountAt k) = s.mem.rd32 (handleCountAt k) :=
    Mem.rd32_congr fun i _ hhi => hkept i (by simp only [blockHeader]; omega)
  have hlt := s.mem.rd32_lt (handleCountAt k)
  rw [hmem, incr, rd32_addInt32_of_disjoint _ (by omega), incr, addInt32,
    Mem.rd32_write _ _ (Nat.mod_lt _ (by decide))] at hword
  omega

theorem openHandle_not_designates {s : RegState} {k : Nat} (h : heapBase + blockHeader ≤ k) :
    ¬ DesignatesKey s (openHandle s k).1 (openHandle s k).2 k := by
  intro hd
  have hslot := ((openHandle_resolves h).mp hd.resolves).1
  exact openHandle_overwrites h hslot hd.creates

/-! ## The services -/

inductive KeyCall
  | createKey (disposition : Bool)
  | openKey

def KeyCall.creates : KeyCall → Bool
  | .createKey _ => true
  | .openKey => false

def KeyCall.run (s : RegState) (keyHandle : Bool) (oa : Option ObjectAttributes) :
    KeyCall → Option (RegState × KeyReply)
  | .createKey disposition => ntCreateKey s keyHandle disposition oa
  | .openKey => ntOpenKey s keyHandle oa

/-- The key a path names, and the state once that key exists. -/
def KeyCall.resolve (s : RegState) (oa : ObjectAttributes) (call : KeyCall) :
    Option (RegState × Nat) :=
  oa.objectName.bind fun name => regResolvePath s (baseKey s oa) (pathOf name) call.creates

theorem keyCall_success {s s₂ : RegState} {keyHandle : Bool} {oa : Option ObjectAttributes}
    {call : KeyCall} {reply : KeyReply} (hrun : call.run s keyHandle oa = some (s₂, reply))
    (hok : reply.status = statusSuccess) :
    ∃ oa', oa = some oa' ∧ ∃ s₁ k, call.resolve s oa' = some (s₁, k) ∧ k ≠ 0 ∧
      s₂ = (openHandle s₁ k).1 ∧ reply.keyHandle = some (openHandle s₁ k).2 := by
  cases keyHandle with
  | false => cases call <;> cases hrun <;> cases hok
  | true =>
    cases oa with
    | none => cases call <;> cases hrun <;> cases hok
    | some oa =>
      obtain ⟨rootDirectory, objectName⟩ := oa
      cases objectName with
      | none => cases call <;> cases hrun <;> cases hok
      | some name =>
        refine ⟨_, rfl, ?_⟩
        cases call with
        | createKey disposition =>
          obtain ⟨existed, -, hrun⟩ := Option.bind_eq_some_iff.mp hrun
          obtain ⟨⟨s₁, k⟩, hres, heq⟩ := Option.map_eq_some_iff.mp hrun
          simp only at heq
          split at heq
          case isTrue => cases heq; cases hok
          case isFalse hk => cases heq; exact ⟨s₁, k, hres, hk, rfl, rfl⟩
        | openKey =>
          obtain ⟨⟨s₁, k⟩, hres, heq⟩ := Option.map_eq_some_iff.mp hrun
          simp only at heq
          split at heq
          case isTrue => cases heq; cases hok
          case isFalse hk => cases heq; exact ⟨s₁, k, hres, hk, rfl, rfl⟩

/-- No successful call leaves a handle that designates its key: the handle resolves only
when the bytes 80 in front of the key happen to read as the registry type, and
creating it has written in front of the block of the key. -/
theorem keyHandle_never_designates (s s₂ : RegState) (call : KeyCall) (keyHandle : Bool)
    (oa : Option ObjectAttributes) (reply : KeyReply) (htree : KeyTree s)
    (hrun : call.run s keyHandle oa = some (s₂, reply)) (hok : reply.status = statusSuccess) :
    ∃ oa', oa = some oa' ∧ ∃ s₁ k h, call.resolve s oa' = some (s₁, k) ∧
      reply.keyHandle = some h ∧ ¬ DesignatesKey s₁ s₂ h k ∧
      (obHandleToObject s₂.ob h obTypeRegkey = k ↔
        SlotFree s₁ ∧ objType s₁.mem k = obTypeRegkey) := by
  obtain ⟨oa', rfl, s₁, k, hres, hk, rfl, hreply⟩ := keyCall_success hrun hok
  obtain ⟨name, -, hpath⟩ := Option.bind_eq_some_iff.mp hres
  have hle := (regResolvePath_subtree htree hpath hk).le
  exact ⟨oa', rfl, s₁, k, _, hres, hreply, openHandle_not_designates hle, openHandle_resolves hle⟩

/-! ## The registry right after boot -/

def bareRegistry : RegState :=
  ⟨⟨(heapInit fun _ => 0).mem, fun _ => 0, [], []⟩, heapBase, 0⟩

/-- `s_root = reg_alloc_key("\\Registry", 0)` on a fresh heap. -/
def bootRegistry : RegState :=
  match regAllocKey bareRegistry [92, 82, 101, 103, 105, 115, 116, 114, 121] 0 with
  | some (s, k) => { s with sRoot := k }
  | none => bareRegistry

theorem regAllocKey_keeps {s s' : RegState} {name : List UInt8} {parent c : Nat}
    (hrun : regAllocKey s name parent = some (s', c)) : s'.ob.sHandles = s.ob.sHandles := by
  obtain ⟨⟨s₁, p⟩, hk, heq⟩ := Option.map_eq_some_iff.mp hrun
  obtain ⟨r, -, heq'⟩ := Option.map_eq_some_iff.mp hk
  cases heq'
  simp only at heq
  split at heq <;> cases heq <;> rfl

theorem bootRegistry_keyTree : KeyTree bootRegistry := by
  have hroot : (regAllocKey bareRegistry [92, 82, 101, 103, 105, 115, 116, 114, 121] 0).map
      Prod.snd = some 33554456 := by decide +kernel
  obtain ⟨⟨s, k⟩, hrun, hk⟩ := Option.map_eq_some_iff.mp hroot
  have hbare : Owns bareRegistry [] := ⟨_, heapInit_inv fun _ => 0⟩
  have hboot : bootRegistry = { s with sRoot := k } := by simp only [bootRegistry, hrun]
  have hempty := regAllocKey_keeps hrun
  rw [hboot]
  refine ⟨fun hne => ?_, fun v hv => absurd ?_ hv⟩
  · obtain ⟨a, rfl, hroom, ⟨bs, hinv⟩, hleaf⟩ :=
      regAllocKey_owns hbare hrun hne
    refine ⟨[a], ⟨bs, hinv⟩, fun j hj => ?_⟩
    rw [below_of_leaf hleaf hj]
    exact ⟨a, List.mem_cons_self .., rfl, hroom⟩
  · simp only [obHandleToObject, handleEntry, hempty, bareRegistry]
    cases handleSlot v <;> rfl

/-- `RtlInitUnicodeString(&name, L"A")` with no root directory. -/
def nameA : ObjectAttributes := ⟨0, some ⟨2, some fun _ => 65⟩⟩

theorem bootRegistry_createA :
    ((KeyCall.createKey true).run bootRegistry true (some nameA)).map (fun r =>
      (r.2.status, r.2.keyHandle, obHandleToObject r.1.ob 4 obTypeRegkey)) =
        some (statusSuccess, some 4, 0) := by
  decide +kernel

/-- Creating the key A right after boot reports success with a handle that resolves to
nothing. -/
theorem keyHandle_boot_createA :
    ¬ ∀ (s s₁ s₂ : RegState) (call : KeyCall) (keyHandle : Bool) (oa : ObjectAttributes)
      (reply : KeyReply) (k h : Nat), KeyTree s →
      call.run s keyHandle (some oa) = some (s₂, reply) → reply.status = statusSuccess →
      call.resolve s oa = some (s₁, k) → reply.keyHandle = some h → DesignatesKey s₁ s₂ h k := by
  intro hall
  obtain ⟨⟨s₂, reply⟩, hrun, heq⟩ := Option.map_eq_some_iff.mp bootRegistry_createA
  simp only [Prod.mk.injEq] at heq
  obtain ⟨hok, hreply, hnull⟩ := heq
  obtain ⟨oa, hoa, s₁, k, hres, hk, rfl, -⟩ := keyCall_success hrun hok
  cases hoa
  have hd := hall _ s₁ _ _ _ _ _ k 4 bootRegistry_keyTree hrun hok hres hreply
  exact hk (hd.resolves.symm.trans hnull)

theorem keyHandle_never_designates_boot : ∃ s₂ reply, KeyTree bootRegistry ∧
    (KeyCall.createKey true).run bootRegistry true (some nameA) = some (s₂, reply) ∧
    reply.status = statusSuccess ∧ ∃ s₁ k h,
      (KeyCall.createKey true).resolve bootRegistry nameA = some (s₁, k) ∧
      reply.keyHandle = some h ∧ ¬ DesignatesKey s₁ s₂ h k := by
  obtain ⟨⟨s₂, reply⟩, hrun, heq⟩ := Option.map_eq_some_iff.mp bootRegistry_createA
  have hok : reply.status = statusSuccess := congrArg Prod.fst heq
  obtain ⟨oa, hoa, s₁, k, h, hres, hreply, hnot, -⟩ :=
    keyHandle_never_designates _ _ _ _ _ _ bootRegistry_keyTree hrun hok
  cases hoa
  exact ⟨s₂, reply, bootRegistry_keyTree, hrun, hok, s₁, k, h, hres, hreply, hnot⟩

end MeuOS.Cm
