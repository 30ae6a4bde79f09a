import MeuOS.Cm.KeyHandles
import MeuOS.Lib.CString
import MeuOS.Lib.Linked
import MeuOS.Mm.HeapClient

/-! The tree of keys with their values: what each block is for, and that every operation of the
registry keeps it. -/
namespace MeuOS.Cm

open MeuOS.Lib MeuOS.Mm

/-- What a block holds: a key with the keys above it, a value of a key, or the data of a value. -/
inductive Role
  | key (above : List Nat)
  | value (key : Nat)
  | data (value : Nat)

def Role.size : Role → Nat
  | .key _ => regKeySize
  | .value _ => regValueSize
  | .data _ => 0

/-- The records a pointer leads to through one of their fields. -/
def Chained (m : Mem) (linkAt : Nat → Nat) (p : Nat) (l : List Nat) : Prop :=
  Linked (fun q => m.rd64 (linkAt q)) p l

/-- `filling` is the value that is being set, if any: its data is not there yet. -/
structure RegTree (s : RegState) (live : List Alloc) (role : Nat → Option Role)
    (filling : Option Nat) : Prop where
  holds : Holds s.heap live
  block : ∀ p r, role p = some r → ∃ a ∈ live, a.ptr = p ∧ r.size ≤ a.granted
  kids : ∀ k above, role k = some (.key above) → ∃ l,
    Chained s.mem siblingAt (s.mem.rd64 (childrenAt k)) l ∧ ∀ c ∈ l, role c = some (.key (k :: above))
  vals : ∀ k above, role k = some (.key above) → ∃ l,
    Chained s.mem nextAt (s.mem.rd64 (valuesAt k)) l ∧ ∀ v ∈ l, role v = some (.value k)
  data : ∀ v k, role v = some (.value k) → filling ≠ some v →
    s.mem.rd64 (dataAt v) = 0 ∨ role (s.mem.rd64 (dataAt v)) = some (.data v)

/-- The registry: the tree, and its root. -/
structure RegWellFormed (s : RegState) : Prop where
  tree : ∃ live role, RegTree s live role none ∧ role s.sRoot = some (.key [])

/-- Keys stay where they are, with their names. -/
def KeysKept (m m' : Mem) (role role' : Nat → Option Role) : Prop :=
  ∀ k above, role k = some (.key above) →
    role' k = some (.key above) ∧ Mem.Agree m m' k (k + maxName)

theorem KeysKept.refl (m : Mem) (role : Nat → Option Role) : KeysKept m m role role :=
  fun _ _ hk => ⟨hk, fun _ _ _ => rfl⟩

theorem KeysKept.trans {m m' m'' : Mem} {role role' role'' : Nat → Option Role}
    (h : KeysKept m m' role role') (h' : KeysKept m' m'' role' role'') : KeysKept m m'' role role'' := by
  intro k above hk
  obtain ⟨hk', hname⟩ := h k above hk
  obtain ⟨hk'', hname'⟩ := h' k above hk'
  exact ⟨hk'', fun i hlo hhi => (hname i hlo hhi).trans (hname' i hlo hhi)⟩

/-- The bytes of every record are the same. -/
def RecordsKept (m m' : Mem) (role : Nat → Option Role) : Prop :=
  ∀ p r, role p = some r → Mem.Agree m m' p (p + r.size)

section Frame

variable {s s' : RegState} {live live' : List Alloc} {role : Nat → Option Role} {filling : Option Nat}

theorem RecordsKept.keys {m m' : Mem} (h : RecordsKept m m' role) : KeysKept m m' role role :=
  fun k above hk => ⟨hk, (h k _ hk).mono (Nat.le_refl _)
    (by simp only [Role.size, regKeySize, maxName]; omega)⟩

theorem RecordsKept.rd64 {m m' : Mem} {p a : Nat} {r : Role} (h : RecordsKept m m' role)
    (hp : role p = some r) (hlo : p ≤ a) (hhi : a + 8 ≤ p + r.size) : m'.rd64 a = m.rd64 a :=
  (Mem.rd64_congr ((h p r hp).mono hlo hhi)).symm

/-- Nothing of the tree is written. -/
theorem RegTree.congr (h : RegTree s live role filling) (hholds : Holds s'.heap live')
    (hlive : ∀ a ∈ live, (∃ r, role a.ptr = some r) → a ∈ live')
    (hkept : RecordsKept s.mem s'.mem role) : RegTree s' live' role filling := by
  refine ⟨hholds, fun p r hp => ?_, fun k above hk => ?_, fun k above hk => ?_, fun v k hv hne => ?_⟩
  · obtain ⟨a, ha, rfl, hroom⟩ := h.block p r hp
    exact ⟨a, hlive a ha ⟨r, hp⟩, rfl, hroom⟩
  · obtain ⟨l, hl, hkeys⟩ := h.kids k above hk
    refine ⟨l, ?_, hkeys⟩
    rw [hkept.rd64 hk (by simp only [childrenAt]; omega)
      (by simp only [childrenAt, Role.size, regKeySize]; omega)]
    exact hl.congr fun q hq => hkept.rd64 (hkeys q hq) (by simp only [siblingAt]; omega)
      (by simp only [siblingAt, Role.size, regKeySize]; omega)
  · obtain ⟨l, hl, hvalues⟩ := h.vals k above hk
    refine ⟨l, ?_, hvalues⟩
    rw [hkept.rd64 hk (by simp only [valuesAt]; omega)
      (by simp only [valuesAt, Role.size, regKeySize]; omega)]
    exact hl.congr fun q hq => hkept.rd64 (hvalues q hq) (by simp only [nextAt]; omega)
      (by simp only [nextAt, Role.size, regValueSize]; omega)
  · rw [hkept.rd64 hv (by simp only [dataAt]; omega)
      (by simp only [dataAt, Role.size, regValueSize]; omega)]
    exact h.data v k hv hne

theorem RegTree.records_of_blocks {m : Mem} (h : RegTree s live role filling)
    (hkept : ∀ a ∈ live, (∃ r, role a.ptr = some r) → a.Kept s.mem m) : RecordsKept s.mem m role := by
  intro p r hp
  obtain ⟨a, ha, rfl, hroom⟩ := h.block p r hp
  exact (hkept a ha ⟨r, hp⟩).mono (Nat.le_refl _) (by omega)

/-- Records in two blocks. -/
theorem RegTree.apart (h : RegTree s live role filling) {p q : Nat} {r r' : Role}
    (hp : role p = some r) (hq : role q = some r') (hne : p ≠ q) :
    p + r.size ≤ q ∨ q + r'.size ≤ p := by
  obtain ⟨a, ha, rfl, hroom⟩ := h.block p r hp
  obtain ⟨c, hc, rfl, hroom'⟩ := h.block q r' hq
  have hsep := h.holds.apart ha hc hne
  omega

theorem RegTree.pos (h : RegTree s live role filling) {p : Nat} {r : Role} (hp : role p = some r) :
    heapBase + blockHeader ≤ p ∧ p + r.size ≤ heapBase + heapSize := by
  obtain ⟨a, ha, rfl, hroom⟩ := h.block p r hp
  have hbounds := h.holds.bounds ha
  omega

/-- A list of records is no longer than the heap. -/
theorem RegTree.length_lt {m : Mem} {linkAt : Nat → Nat} {p : Nat} {l : List Nat} {r : Role}
    (h : RegTree s live role filling) (hl : Chained m linkAt p l) (hsize : 0 < r.size)
    (hroles : ∀ q ∈ l, role q = some r) : l.length < heapSize := by
  have hlength : l.length ≤ heapBase + heapSize - (heapBase + blockHeader) :=
    length_le_of_nodup hl.nodup fun q hq => by
      obtain ⟨hlo, hhi⟩ := h.pos (hroles q hq)
      exact ⟨hlo, by omega⟩
  simp only [heapBase, heapSize, blockHeader] at hlength ⊢
  omega

end Frame

/-! ## Names in memory -/

/-- Names that `strcmpci` does not tell apart. -/
def SameName (a b : List UInt8) : Prop := a.map toLower = b.map toLower

theorem strcmpci_eq_zero {m : Mem} {a : Nat} {l n : List UInt8} (h : m.Str a l) (hl : 0 ∉ l) :
    strcmpci m a n = 0 ↔ SameName l n := by
  unfold SameName
  induction n generalizing a l with
  | nil =>
    unfold strcmpci
    rw [List.map_nil, List.map_eq_nil_iff]
    cases l with
    | nil =>
      rw [if_pos (Mem.str_nil.1 h)]
      exact iff_of_true rfl rfl
    | cons c l =>
      have hc := (Mem.str_cons.1 h).1
      rw [if_neg (by rw [hc]; exact fun h0 => hl (h0 ▸ List.mem_cons_self))]
      exact iff_of_false Nat.one_ne_zero (List.cons_ne_nil _ _)
  | cons d n ih =>
    unfold strcmpci
    cases l with
    | nil =>
      rw [if_pos (.inl (Mem.str_nil.1 h))]
      exact iff_of_false Nat.one_ne_zero (List.cons_ne_nil _ _).symm
    | cons c l =>
      obtain ⟨hc, hrest⟩ := Mem.str_cons.1 h
      have hc0 : c ≠ 0 := fun h0 => hl (h0 ▸ List.mem_cons_self)
      rw [List.map_cons, List.map_cons, List.cons.injEq, hc]
      by_cases hcd : toLower c = toLower d
      · rw [if_neg (by rintro (h0 | hne); exacts [hc0 h0, hne hcd]), and_iff_right hcd]
        exact ih hrest fun h0 => hl (List.mem_cons_of_mem _ h0)
      · rw [if_pos (.inr hcd)]
        exact iff_of_false Nat.one_ne_zero fun hboth => hcd hboth.1

/-- One record has one name. -/
theorem strcmpci_same {m : Mem} {a : Nat} {n n' : List UInt8} (h : strcmpci m a n = 0)
    (h' : strcmpci m a n' = 0) : SameName n n' := by
  unfold SameName
  induction n generalizing a n' with
  | nil =>
    cases n' with
    | nil => rfl
    | cons d n' =>
      unfold strcmpci at h h'
      have hend : m a = 0 := by
        by_contra hne
        rw [if_neg hne] at h
        exact Nat.one_ne_zero h
      rw [if_pos (.inl hend)] at h'
      exact absurd h' Nat.one_ne_zero
  | cons c n ih =>
    unfold strcmpci at h
    by_cases hbad : m a = 0 ∨ toLower (m a) ≠ toLower c
    · rw [if_pos hbad] at h
      exact absurd h Nat.one_ne_zero
    rw [if_neg hbad] at h
    obtain ⟨hne, hc⟩ := not_or.1 hbad
    cases n' with
    | nil =>
      unfold strcmpci at h'
      rw [if_neg hne] at h'
      exact absurd h' Nat.one_ne_zero
    | cons d n' =>
      unfold strcmpci at h'
      by_cases hbad' : m a = 0 ∨ toLower (m a) ≠ toLower d
      · rw [if_pos hbad'] at h'
        exact absurd h' Nat.one_ne_zero
      rw [if_neg hbad'] at h'
      rw [List.map_cons, List.map_cons, ← not_not.1 hc, ← not_not.1 (not_or.1 hbad').2, ih h h']

theorem strcmpci_congr {m m' : Mem} {a : Nat} {n : List UInt8}
    (h : Mem.Agree m m' a (a + n.length + 1)) : strcmpci m' a n = strcmpci m a n := by
  induction n generalizing a with
  | nil =>
    unfold strcmpci
    rw [h a (Nat.le_refl _) (by simp only [List.length_nil]; omega)]
  | cons c n ih =>
    simp only [List.length_cons] at h
    unfold strcmpci
    rw [h a (Nat.le_refl _) (by omega), ih (h.mono (by omega) (by omega))]

theorem strcpyn_str (m : Mem) (dst : Nat) {n : List UInt8} {max : Nat} (hn : n.length < max) :
    (strcpyn m dst n max).Str dst n := by
  unfold strcpyn
  dsimp only
  rw [List.take_of_length_le (by omega)]
  intro i hi
  rcases Nat.lt_or_eq_of_le hi with hlt | rfl
  · rw [Mem.put_other _ _ (by omega), Mem.blit_inside _ _ (by omega) (by omega),
      Nat.add_sub_cancel_left]
  · rw [Mem.put_same, List.getD_eq_getElem?_getD, List.getElem?_eq_none (Nat.le_refl _)]
    rfl

/-! ## Searching -/

theorem findByName_linked {m : Mem} {linkAt : Nat → Nat} {name : List UInt8} {fuel p : Nat}
    {l : List Nat} (h : Chained m linkAt p l) (hfuel : l.length < fuel) :
    findByName m linkAt name fuel p = some ((l.find? fun q => strcmpci m q name = 0).getD 0) := by
  induction l generalizing p fuel with
  | nil =>
    obtain ⟨fuel, rfl⟩ : ∃ k, fuel = k + 1 := ⟨fuel - 1, by omega⟩
    exact if_pos h
  | cons q l ih =>
    obtain ⟨fuel, rfl⟩ : ∃ k, fuel = k + 1 := ⟨fuel - 1, by omega⟩
    obtain ⟨rfl, hne, hrest⟩ := h
    unfold findByName
    rw [if_neg hne]
    by_cases hmatch : strcmpci m p name = 0
    · rw [if_pos hmatch, List.find?_cons]
      simp only [hmatch, decide_true, Option.getD_some]
    · rw [if_neg hmatch, List.find?_cons]
      simp only [hmatch, decide_false]
      exact ih hrest (Nat.lt_of_succ_lt_succ hfuel)

/-- The record found is one of the list, under that name. -/
theorem find_named {m : Mem} {name : List UInt8} {l : List Nat} {j : Nat}
    (hfind : (l.find? fun q => strcmpci m q name = 0).getD 0 = j) (hj : j ≠ 0) :
    j ∈ l ∧ strcmpci m j name = 0 := by
  cases hl : l.find? fun q => strcmpci m q name = 0 with
  | none =>
    rw [hl] at hfind
    exact absurd hfind.symm hj
  | some q =>
    rw [hl] at hfind
    obtain rfl : q = j := hfind
    have hmatch := List.find?_some (p := fun q => decide (strcmpci m q name = 0)) hl
    exact ⟨List.mem_of_find?_eq_some hl, of_decide_eq_true hmatch⟩

section Search

variable {s : RegState} {live : List Alloc} {role : Nat → Option Role} {filling : Option Nat}
  {k : Nat} {above : List Nat}

theorem RegTree.findChild (h : RegTree s live role filling) (hk : role k = some (.key above))
    (name : List UInt8) : ∃ j, regFindChild s.mem k name = some j ∧
      (j ≠ 0 → role j = some (.key (k :: above)) ∧ strcmpci s.mem j name = 0) := by
  obtain ⟨l, hl, hkeys⟩ := h.kids k above hk
  refine ⟨_, findByName_linked hl (h.length_lt (r := .key (k :: above)) hl (Nat.succ_pos 95) hkeys), fun hj => ?_⟩
  obtain ⟨hmem, hname⟩ := find_named rfl hj
  exact ⟨hkeys _ hmem, hname⟩

theorem RegTree.findValue (h : RegTree s live role filling) (hk : role k = some (.key above))
    (name : List UInt8) : ∃ v, regFindValue s.mem k name = some v ∧
      (v ≠ 0 → role v = some (.value k) ∧ strcmpci s.mem v name = 0) := by
  obtain ⟨l, hl, hvalues⟩ := h.vals k above hk
  refine ⟨_, findByName_linked hl (h.length_lt (r := .value k) hl (Nat.succ_pos 87) hvalues), fun hv => ?_⟩
  obtain ⟨hmem, hname⟩ := find_named rfl hv
  exact ⟨hvalues _ hmem, hname⟩

end Search

/-! ## Blocks that come and go -/

section Blocks

variable {s : RegState} {live : List Alloc} {role : Nat → Option Role} {filling : Option Nat}

/-- A new block has no role yet. -/
theorem RegTree.kmalloc {n : Nat} (h : RegTree s live role filling) (hfits : n + 15 < 2 ^ 64) :
    regKmalloc s n = some (s, 0) ∨ ∃ m a, regKmalloc s n = some (s.setMem m, a.ptr) ∧ a.ptr ≠ 0 ∧
      n ≤ a.granted ∧ role a.ptr = none ∧ RegTree (s.setMem m) (a :: live) role filling ∧
      RecordsKept s.mem m role := by
  rcases h.holds.kmalloc hfits with hnull | ⟨m, a, hrun, hne, hroom, hnew, hholds, hkept⟩
  · refine .inl ?_
    unfold regKmalloc
    rw [hnull]
    rfl
  · refine .inr ⟨m, a, ?_, hne, hroom, ?_, ?_, ?_⟩
    · unfold regKmalloc
      rw [hrun]
      rfl
    · cases hrole : role a.ptr with
      | none => rfl
      | some r =>
        obtain ⟨c, hc, hptr, -⟩ := h.block a.ptr r hrole
        exact absurd hptr (hnew c hc)
    · exact h.congr hholds (fun c hc _ => List.mem_cons_of_mem _ hc)
        (h.records_of_blocks fun c hc _ => hkept c hc)
    · exact h.records_of_blocks fun c hc _ => hkept c hc

/-- Stores into a block without a role. -/
theorem RegTree.store {m : Mem} {a : Alloc} (h : RegTree s live role filling) (ha : a ∈ live)
    (hrole : role a.ptr = none) (hout : ∀ i, i < a.ptr ∨ a.ptr + a.granted ≤ i → m i = s.mem i) :
    RegTree (s.setMem m) live role filling ∧ RecordsKept s.mem m role := by
  obtain ⟨hholds, hkept⟩ := h.holds.store ha hout
  have hrecords : RecordsKept s.mem m role := h.records_of_blocks fun c hc hr => by
    refine hkept c hc fun heq => ?_
    obtain ⟨r, hr⟩ := hr
    rw [heq, hrole] at hr
    cases hr
  exact ⟨h.congr hholds (fun c hc _ => hc) hrecords, hrecords⟩

/-- Stores into a record, into none of its links. -/
theorem RegTree.holds_store {m : Mem} {p : Nat} {r : Role} (h : RegTree s live role filling)
    (hp : role p = some r) (hout : ∀ i, i < p ∨ p + r.size ≤ i → m i = s.mem i) :
    Holds (s.setMem m).heap live ∧ ∀ q r', role q = some r' → q ≠ p → Mem.Agree s.mem m q (q + r'.size) := by
  obtain ⟨a, ha, rfl, hroom⟩ := h.block p r hp
  obtain ⟨hholds, -⟩ := h.holds.store ha fun i hi => hout i (by omega)
  refine ⟨hholds, fun q r' hq hne i hlo hhi => ?_⟩
  have hsep := h.apart hq hp hne
  exact (hout i (by omega)).symm

end Blocks

/-! ## A record in front of a list -/

/-- `new`, whose link is at `linkAt`, goes in front of the list that starts in `headAt`. -/
def push (m : Mem) (headAt linkAt new : Nat) : Mem :=
  (m.write linkAt 8 (m.rd64 headAt)).write headAt 8 new

section Push

variable {s : RegState} {live : List Alloc} {role : Nat → Option Role} {filling : Option Nat}
  {k : Nat} {above : List Nat} {a : Alloc} {linkAt headAt : Nat}

/-- A block without a role, the place of a link in it, and the head of a list in a key. -/
structure Pushing (s : RegState) (live : List Alloc) (role : Nat → Option Role) (k : Nat)
    (above : List Nat) (a : Alloc) (linkAt headAt : Nat) : Prop where
  key : role k = some (.key above)
  new : a ∈ live
  unused : role a.ptr = none
  link : a.ptr ≤ linkAt ∧ linkAt + 8 ≤ a.ptr + a.granted
  head : k + maxName ≤ headAt ∧ headAt + 8 ≤ k + regKeySize

theorem Pushing.apart (hp : Pushing s live role k above a linkAt headAt)
    (h : RegTree s live role filling) {q : Nat} {r : Role} (hq : role q = some r) :
    q ≠ a.ptr ∧ (q + r.size ≤ a.ptr ∨ a.ptr + a.granted ≤ q) := by
  obtain ⟨c, hc, rfl, hroom⟩ := h.block q r hq
  have hne : c.ptr ≠ a.ptr := fun heq => by
    rw [heq, hp.unused] at hq
    cases hq
  have hsep := h.holds.apart hc hp.new hne
  exact ⟨hne, by omega⟩

theorem Pushing.holds (hp : Pushing s live role k above a linkAt headAt)
    (h : RegTree s live role filling) :
    Holds (s.setMem (push s.mem headAt linkAt a.ptr)).heap live := by
  have hlink := hp.link
  have hhead := hp.head
  have hfirst : Holds (s.setMem (s.mem.write linkAt 8 (s.mem.rd64 headAt))).heap live :=
    (h.holds.store hp.new fun i hi => Mem.write_outside _ _ (by omega)).1
  obtain ⟨c, hc, rfl, hroom⟩ := h.block k _ hp.key
  simp only [Role.size] at hroom
  exact (hfirst.store hc fun i hi => Mem.write_outside _ _ (by omega)).1

theorem Pushing.head_eq (hp : Pushing s live role k above a linkAt headAt)
    (h : RegTree s live role filling) : (push s.mem headAt linkAt a.ptr).rd64 headAt = a.ptr := by
  have hbounds := h.holds.bounds hp.new
  simp only [heapBase, heapSize] at hbounds
  simp (disch := omega) only [push, Mem.rd64, Mem.read_write_of_lt]

theorem Pushing.link_eq (hp : Pushing s live role k above a linkAt headAt)
    (h : RegTree s live role filling) :
    (push s.mem headAt linkAt a.ptr).rd64 linkAt = s.mem.rd64 headAt := by
  have hlink := hp.link
  have hhead := hp.head
  have hsep := (hp.apart h hp.key).2
  simp only [Role.size] at hsep
  unfold push Mem.rd64
  rw [Mem.read_write_of_disjoint _ _ (by omega), Mem.read_write_of_lt _ (Mem.read_lt ..)]

/-- Every other word of a record. -/
theorem Pushing.other_eq (hp : Pushing s live role k above a linkAt headAt)
    (h : RegTree s live role filling) {q x : Nat} {r : Role} (hq : role q = some r)
    (hx : q ≤ x ∧ x + 8 ≤ q + r.size) (hother : x + 8 ≤ headAt ∨ headAt + 8 ≤ x ∨ q ≠ k) :
    (push s.mem headAt linkAt a.ptr).rd64 x = s.mem.rd64 x := by
  have hlink := hp.link
  have hhead := hp.head
  have hsep := (hp.apart h hq).2
  have hkey : q = k ∨ q + r.size ≤ k ∨ k + regKeySize ≤ q :=
    or_iff_not_imp_left.2 fun hne => h.apart hq hp.key hne
  unfold push Mem.rd64
  rw [Mem.read_write_of_disjoint _ _ (by omega), Mem.read_write_of_disjoint _ _ (by omega)]

theorem Pushing.keysKept {r : Role} (hp : Pushing s live role k above a linkAt headAt)
    (h : RegTree s live role filling) :
    KeysKept s.mem (push s.mem headAt linkAt a.ptr) role (Function.update role a.ptr (some r)) := by
  intro j above' hj
  have hlink := hp.link
  have hhead := hp.head
  obtain ⟨hne, hsep⟩ := hp.apart h hj
  have hkey : j = k ∨ j + regKeySize ≤ k ∨ k + regKeySize ≤ j :=
    or_iff_not_imp_left.2 fun hne => h.apart hj hp.key hne
  refine ⟨(Function.update_of_ne hne ..).trans hj, fun i hlo hhi => ?_⟩
  simp only [Role.size, regKeySize, maxName] at hsep hkey hhi hhead
  unfold push
  rw [Mem.write_outside _ _ (by omega), Mem.write_outside _ _ (by omega)]

theorem Pushing.block {r : Role} (hp : Pushing s live role k above a linkAt headAt)
    (h : RegTree s live role filling) (hroom : r.size ≤ a.granted) (p : Nat) (r' : Role)
    (hr : Function.update role a.ptr (some r) p = some r') :
    ∃ c ∈ live, c.ptr = p ∧ r'.size ≤ c.granted := by
  by_cases hnew : p = a.ptr
  · subst hnew
    rw [Function.update_self] at hr
    cases hr
    exact ⟨a, hp.new, rfl, hroom⟩
  · rw [Function.update_of_ne hnew] at hr
    exact h.block p r' hr

/-- The lists of another key, and those of the same key that start elsewhere. -/
theorem Pushing.chained (hp : Pushing s live role k above a linkAt headAt)
    (h : RegTree s live role filling) {j fieldAt : Nat} {nextOf : Nat → Nat} {l : List Nat}
    {r r' : Role} (hj : role j = some r) (hfield : j ≤ fieldAt ∧ fieldAt + 8 ≤ j + r.size)
    (hother : fieldAt + 8 ≤ headAt ∨ headAt + 8 ≤ fieldAt ∨ j ≠ k)
    (hl : Chained s.mem nextOf (s.mem.rd64 fieldAt) l) (hroles : ∀ q ∈ l, role q = some r')
    (hnext : ∀ q, q ≤ nextOf q ∧ nextOf q + 8 ≤ q + r'.size)
    (hlinks : ∀ q ∈ l, nextOf q + 8 ≤ headAt ∨ headAt + 8 ≤ nextOf q ∨ q ≠ k) :
    Chained (push s.mem headAt linkAt a.ptr) nextOf
      ((push s.mem headAt linkAt a.ptr).rd64 fieldAt) l := by
  rw [hp.other_eq h hj hfield hother]
  exact hl.congr fun q hq => hp.other_eq h (hroles q hq) (hnext q) (hlinks q hq)

/-- The list that gets the new record. -/
theorem Pushing.grown (hp : Pushing s live role k above a linkAt headAt)
    (h : RegTree s live role filling) {nextOf : Nat → Nat} {l : List Nat} {r' : Role}
    (hlink : nextOf a.ptr = linkAt) (hne : a.ptr ≠ 0)
    (hl : Chained s.mem nextOf (s.mem.rd64 headAt) l) (hroles : ∀ q ∈ l, role q = some r')
    (hnext : ∀ q, q ≤ nextOf q ∧ nextOf q + 8 ≤ q + r'.size)
    (hlinks : ∀ q ∈ l, nextOf q + 8 ≤ headAt ∨ headAt + 8 ≤ nextOf q ∨ q ≠ k) :
    Chained (push s.mem headAt linkAt a.ptr) nextOf
      ((push s.mem headAt linkAt a.ptr).rd64 headAt) (a.ptr :: l) := by
  refine ⟨hp.head_eq h, hne, ?_⟩
  dsimp only
  rw [hlink, hp.link_eq h]
  exact hl.congr fun q hq => hp.other_eq h (hroles q hq) (hnext q) (hlinks q hq)

theorem value_ne_key {role : Nat → Option Role} {v j : Nat} {above : List Nat}
    (hv : role v = some (.value j)) (hk : role k = some (.key above)) : v ≠ k := by
  rintro rfl
  rw [hv] at hk
  cases hk

theorem Pushing.data (hp : Pushing s live role k above a linkAt headAt)
    (h : RegTree s live role filling) {v j : Nat} {r : Role} (hv : role v = some (.value j))
    (hother : dataAt v + 8 ≤ headAt ∨ headAt + 8 ≤ dataAt v ∨ v ≠ k)
    (hdata : s.mem.rd64 (dataAt v) = 0 ∨ role (s.mem.rd64 (dataAt v)) = some (.data v)) :
    (push s.mem headAt linkAt a.ptr).rd64 (dataAt v) = 0 ∨
      Function.update role a.ptr (some r) ((push s.mem headAt linkAt a.ptr).rd64 (dataAt v)) =
        some (.data v) := by
  rw [hp.other_eq h hv (by simp only [dataAt, Role.size, regValueSize]; omega) hother]
  refine hdata.imp_right fun hrole => ?_
  rw [Function.update_of_ne (hp.apart h hrole).1]
  exact hrole

/-- A new key, without children and without values. -/
theorem RegTree.addKey (h : RegTree s live role filling)
    (hp : Pushing s live role k above a (siblingAt a.ptr) (childrenAt k)) (hne : a.ptr ≠ 0)
    (hroom : regKeySize ≤ a.granted) (hkids : s.mem.rd64 (childrenAt a.ptr) = 0)
    (hvals : s.mem.rd64 (valuesAt a.ptr) = 0) :
    RegTree (s.setMem (linkChild s.mem k a.ptr)) live
      (Function.update role a.ptr (some (.key (k :: above)))) filling := by
  have hsep := (hp.apart h hp.key).2
  have hnew : ∀ x, a.ptr ≤ x → x + 8 ≤ a.ptr + regKeySize → x + 8 ≤ siblingAt a.ptr ∨
      siblingAt a.ptr + 8 ≤ x → (push s.mem (childrenAt k) (siblingAt a.ptr) a.ptr).rd64 x = s.mem.rd64 x := by
    intro x hlo hhi hx
    simp only [Role.size, regKeySize] at hsep hroom hhi
    unfold push Mem.rd64
    rw [Mem.read_write_of_disjoint _ _ (by simp only [childrenAt]; omega),
      Mem.read_write_of_disjoint _ _ (by omega)]
  refine ⟨hp.holds h, hp.block h hroom, fun j above' hj => ?_, fun j above' hj => ?_,
    fun v j hv hfill => ?_⟩
  · by_cases hj' : j = a.ptr
    · subst hj'
      rw [Function.update_self] at hj
      cases hj
      refine ⟨[], ?_, fun q hq => absurd hq List.not_mem_nil⟩
      exact (hnew _ (by simp only [childrenAt]; omega) (by simp only [childrenAt, regKeySize]; omega)
        (by simp only [childrenAt, siblingAt]; omega)).trans hkids
    · rw [Function.update_of_ne hj'] at hj
      obtain ⟨l, hl, hkeys⟩ := h.kids j above' hj
      have hkept : ∀ q ∈ l, Function.update role a.ptr (some (.key (k :: above))) q =
          some (.key (j :: above')) := fun q hq => by
        rw [Function.update_of_ne (hp.apart h (hkeys q hq)).1]
        exact hkeys q hq
      have hnext : ∀ q, q ≤ siblingAt q ∧ siblingAt q + 8 ≤ q + (Role.key (j :: above')).size :=
        fun q => by simp only [siblingAt, Role.size, regKeySize]; omega
      have hlinks : ∀ q ∈ l, siblingAt q + 8 ≤ childrenAt k ∨ childrenAt k + 8 ≤ siblingAt q ∨ q ≠ k :=
        fun q _ => by simp only [siblingAt, childrenAt]; omega
      by_cases hk : j = k
      · subst hk
        obtain rfl : above' = above := by
          have heq := hj.symm.trans hp.key
          cases heq
          rfl
        refine ⟨a.ptr :: l, hp.grown h rfl hne hl hkeys hnext hlinks, fun q hq => ?_⟩
        rcases List.mem_cons.1 hq with rfl | hq
        · exact Function.update_self ..
        · exact hkept q hq
      · exact ⟨l, hp.chained h hj (by simp only [childrenAt, Role.size, regKeySize]; omega)
          (.inr (.inr hk)) hl hkeys hnext hlinks, hkept⟩
  · by_cases hj' : j = a.ptr
    · subst hj'
      refine ⟨[], ?_, fun q hq => absurd hq List.not_mem_nil⟩
      exact (hnew _ (by simp only [valuesAt]; omega) (by simp only [valuesAt, regKeySize]; omega)
        (by simp only [valuesAt, siblingAt]; omega)).trans hvals
    · rw [Function.update_of_ne hj'] at hj
      obtain ⟨l, hl, hvalues⟩ := h.vals j above' hj
      refine ⟨l, hp.chained h hj (by simp only [valuesAt, Role.size, regKeySize]; omega)
        (by simp only [valuesAt, childrenAt]; omega) hl hvalues
        (fun q => by simp only [nextAt, Role.size, regValueSize]; omega)
        (fun q hq => .inr (.inr (value_ne_key (hvalues q hq) hp.key))), fun q hq => ?_⟩
      rw [Function.update_of_ne (hp.apart h (hvalues q hq)).1]
      exact hvalues q hq
  · have hv' : v ≠ a.ptr := by
      rintro rfl
      rw [Function.update_self] at hv
      cases hv
    rw [Function.update_of_ne hv'] at hv
    refine hp.data h hv (.inr (.inr (value_ne_key hv hp.key))) (h.data v j hv hfill)

/-- A new value, before its data. -/
theorem RegTree.addValue (h : RegTree s live role none)
    (hp : Pushing s live role k above a (nextAt a.ptr) (valuesAt k)) (hne : a.ptr ≠ 0)
    (hroom : regValueSize ≤ a.granted) :
    RegTree (s.setMem (push s.mem (valuesAt k) (nextAt a.ptr) a.ptr)) live
      (Function.update role a.ptr (some (.value k))) (some a.ptr) := by
  have hold : ∀ {j : Nat} {above' : List Nat}, Function.update role a.ptr (some (.value k)) j =
      some (.key above') → role j = some (.key above') := by
    intro j above' hj
    by_cases hj' : j = a.ptr
    · subst hj'
      rw [Function.update_self] at hj
      cases hj
    · rwa [Function.update_of_ne hj'] at hj
  refine ⟨hp.holds h, hp.block h hroom, fun j above' hj => ?_, fun j above' hj => ?_,
    fun v j hv hfill => ?_⟩
  · have hj := hold hj
    obtain ⟨l, hl, hkeys⟩ := h.kids j above' hj
    refine ⟨l, hp.chained h hj (by simp only [childrenAt, Role.size, regKeySize]; omega)
      (by simp only [valuesAt, childrenAt]; omega) hl hkeys
      (fun q => by simp only [siblingAt, Role.size, regKeySize]; omega)
      (fun q _ => by simp only [siblingAt, valuesAt]; omega), fun q hq => ?_⟩
    rw [Function.update_of_ne (hp.apart h (hkeys q hq)).1]
    exact hkeys q hq
  · have hj := hold hj
    obtain ⟨l, hl, hvalues⟩ := h.vals j above' hj
    have hkept : ∀ q ∈ l, Function.update role a.ptr (some (.value k)) q = some (.value j) :=
      fun q hq => by
        rw [Function.update_of_ne (hp.apart h (hvalues q hq)).1]
        exact hvalues q hq
    have hnext : ∀ q, q ≤ nextAt q ∧ nextAt q + 8 ≤ q + (Role.value j).size :=
      fun q => by simp only [nextAt, Role.size, regValueSize]; omega
    have hlinks : ∀ q ∈ l, nextAt q + 8 ≤ valuesAt k ∨ valuesAt k + 8 ≤ nextAt q ∨ q ≠ k :=
      fun q hq => .inr (.inr (value_ne_key (hvalues q hq) hp.key))
    by_cases hk : j = k
    · subst hk
      refine ⟨a.ptr :: l, hp.grown h rfl hne hl hvalues hnext hlinks, fun q hq => ?_⟩
      rcases List.mem_cons.1 hq with rfl | hq
      · exact Function.update_self ..
      · exact hkept q hq
    · exact ⟨l, hp.chained h hj (by simp only [valuesAt, Role.size, regKeySize]; omega)
        (.inr (.inr hk)) hl hvalues hnext hlinks, hkept⟩
  · have hv' : v ≠ a.ptr := fun heq => hfill (congrArg some heq.symm)
    rw [Function.update_of_ne hv'] at hv
    refine hp.data h hv (.inr (.inr (value_ne_key hv hp.key))) (h.data v j hv fun hnone => by cases hnone)

end Push

end MeuOS.Cm
