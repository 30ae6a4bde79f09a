import MeuOS.Cm.RegTree

/-! The operations of the registry on a well-formed tree: they run to their end, and leave one. -/
namespace MeuOS.Cm

open MeuOS.Lib MeuOS.Mm

/-! ## Keys -/

section Operations

variable {s : RegState} {live : List Alloc} {role : Nat → Option Role} {k : Nat} {above : List Nat}

/-- What an operation leaves: a tree, with the keys there were. -/
structure RegStep (s : RegState) (role : Nat → Option Role) (s' : RegState)
    (role' : Nat → Option Role) : Prop where
  tree : ∃ live', RegTree s' live' role' none
  kept : KeysKept s.mem s'.mem role role'
  root : s'.sRoot = s.sRoot

theorem RegTree.same (h : RegTree s live role none) : RegStep s role s role :=
  ⟨⟨live, h⟩, .refl _ _, rfl⟩

theorem RegStep.trans {s' s'' : RegState} {role' role'' : Nat → Option Role}
    (h : RegStep s role s' role') (h' : RegStep s' role' s'' role'') : RegStep s role s'' role'' :=
  ⟨h'.tree, h.kept.trans h'.kept, h'.root.trans h.root⟩

theorem writeKey_values (m : Mem) (k : Nat) (name : List UInt8) (parent : Nat) :
    (writeKey m k name parent).rd64 (valuesAt k) = 0 := by
  simp (disch := omega) only [writeKey, valuesAt, Mem.rd64, Mem.read_write_of_lt]

theorem writeKey_name (m : Mem) (k : Nat) {name : List UInt8} (parent : Nat)
    (hname : name.length < maxName) : (writeKey m k name parent).Str k name := by
  refine (strcpyn_str m k hname).congr fun i hlo hhi => ?_
  simp only [maxName] at hname
  simp (disch := omega) only [writeKey, parentAt, childrenAt, siblingAt, valuesAt, Mem.write_outside]

theorem RegTree.newChild {a : Alloc} {name : List UInt8} (h : RegTree s (a :: live) role none)
    (hk : role k = some (.key above)) (hne : a.ptr ≠ 0) (hroom : regKeySize ≤ a.granted)
    (hunused : role a.ptr = none) (hshort : name.length < maxName) (hname : 0 ∉ name) :
    let s' := s.setMem (linkChild (writeKey s.mem a.ptr name k) k a.ptr)
    RegStep s role s' (Function.update role a.ptr (some (.key (k :: above)))) ∧
      strcmpci s'.mem a.ptr name = 0 := by
  have hout : ∀ i, i < a.ptr ∨ a.ptr + a.granted ≤ i → writeKey s.mem a.ptr name k i = s.mem i :=
    fun i hi => writeKey_outside s.mem name k (by omega)
  obtain ⟨htree, hrecords⟩ := h.store List.mem_cons_self hunused hout
  have hp : Pushing (s.setMem (writeKey s.mem a.ptr name k)) (a :: live) role k above a
      (siblingAt a.ptr) (childrenAt k) :=
    ⟨hk, List.mem_cons_self, hunused, by simp only [siblingAt, regKeySize] at hroom ⊢; omega,
      by simp only [childrenAt, maxName, regKeySize]; omega⟩
  have hlinked := htree.addKey hp hne hroom (writeKey_children ..) (writeKey_values ..)
  refine ⟨⟨⟨_, hlinked⟩, hrecords.keys.trans (hp.keysKept htree), rfl⟩, ?_⟩
  -- the links are behind the name
  have hsep := (hp.apart htree hk).2
  have hstr : (linkChild (writeKey s.mem a.ptr name k) k a.ptr).Str a.ptr name := by
    refine (writeKey_name s.mem a.ptr k hshort).congr fun i hlo hhi => ?_
    simp only [Role.size, regKeySize, maxName] at hsep hroom hshort
    unfold linkChild
    rw [Mem.write_outside _ _ (by simp only [childrenAt]; omega),
      Mem.write_outside _ _ (by simp only [siblingAt]; omega)]
  exact (strcmpci_eq_zero hstr hname).2 rfl

/-- The child there is, or a new one; or no memory, and no change. -/
theorem RegTree.getOrCreateChild (h : RegTree s live role none) (hk : role k = some (.key above))
    {name : List UInt8} (hshort : name.length < maxName) (hname : 0 ∉ name) :
    ∃ s' c, regGetOrCreateChild s k name = some (s', c) ∧
      ∃ role', RegStep s role s' role' ∧ (c ≠ 0 → role' c = some (.key (k :: above)) ∧
        strcmpci s'.mem c name = 0) := by
  obtain ⟨j, hfind, hchild⟩ := h.findChild hk name
  unfold regGetOrCreateChild
  rw [hfind, Option.bind_some]
  by_cases hj : j ≠ 0
  · rw [if_pos hj]
    exact ⟨s, j, rfl, role, h.same, fun _ => hchild hj⟩
  rw [if_neg hj]
  unfold regAllocKey
  rcases h.kmalloc (show regKeySize + 15 < 2 ^ 64 by decide) with
    hnull | ⟨m, a, hrun, hne, hroom, hunused, htree, hrecords⟩
  · rw [hnull]
    exact ⟨s, 0, rfl, role, h.same, fun hc => absurd rfl hc⟩
  obtain ⟨hstep, hnamed⟩ := htree.newChild hk hne hroom hunused hshort hname
  refine ⟨_, a.ptr, ?_, _, ⟨hstep.tree, hrecords.keys.trans hstep.kept, hstep.root⟩,
    fun _ => ⟨Function.update_self .., hnamed⟩⟩
  rw [hrun, Option.map_some]
  dsimp only
  rw [if_neg hne, Option.map_some]
  dsimp only
  rw [if_neg hne]
  rfl

/-! ## Values

The old data goes or a new value comes, and then the data is filled in. -/

variable {v p : Nat} {filling : Option Nat}

theorem RegTree.opened (h : RegTree s live role none) (v : Nat) : RegTree s live role (some v) :=
  { h with data := fun v' k hv' _ => h.data v' k hv' fun hnone => by cases hnone }

/-- The data of a value is given up. -/
theorem RegTree.dropData (h : RegTree s live role none) (hp : role p = some (.data v)) :
    RegTree s live (Function.update role p none) (some v) := by
  have hold : ∀ {q r}, Function.update role p none q = some r → role q = some r := by
    intro q r hq
    by_cases hqp : q = p
    · rw [hqp, Function.update_self] at hq
      cases hq
    · rwa [Function.update_of_ne hqp] at hq
  have hother : ∀ {q r}, role q = some r → (∀ v', r ≠ .data v') →
      Function.update role p none q = some r := by
    intro q r hq hr
    have hqp : q ≠ p := by
      rintro rfl
      rw [hp] at hq
      cases hq
      exact hr v rfl
    rw [Function.update_of_ne hqp, hq]
  refine ⟨h.holds, fun q r hq => h.block q r (hold hq), fun j above' hj => ?_, fun j above' hj => ?_,
    fun v' j hv' hfill => ?_⟩
  · obtain ⟨l, hl, hkeys⟩ := h.kids j above' (hold hj)
    exact ⟨l, hl, fun q hq => hother (hkeys q hq) fun _ heq => by cases heq⟩
  · obtain ⟨l, hl, hvalues⟩ := h.vals j above' (hold hj)
    exact ⟨l, hl, fun q hq => hother (hvalues q hq) fun _ heq => by cases heq⟩
  · refine (h.data v' j (hold hv') fun hnone => by cases hnone).imp_right fun hdata => ?_
    have hne : s.mem.rd64 (dataAt v') ≠ p := by
      intro heq
      rw [heq, hp] at hdata
      cases hdata
      exact hfill rfl
    rw [Function.update_of_ne hne, hdata]

/-- Stores into the value that is being set, but not into its link. -/
theorem RegTree.valueStore {m : Mem} (h : RegTree s live role (some v))
    (hv : role v = some (.value k)) (hout : ∀ i, i < v ∨ v + regValueSize ≤ i → m i = s.mem i)
    (hnext : m.rd64 (nextAt v) = s.mem.rd64 (nextAt v)) :
    RegTree (s.setMem m) live role (some v) ∧ KeysKept s.mem m role role := by
  obtain ⟨hholds, hkept⟩ := h.holds_store hv hout
  have hkey : ∀ {j above'}, role j = some (.key above') → Mem.Agree s.mem m j (j + regKeySize) :=
    fun {j above'} hj => hkept j _ hj (value_ne_key hv hj).symm
  refine ⟨⟨hholds, h.block, fun j above' hj => ?_, fun j above' hj => ?_, fun v' j hv' hfill => ?_⟩,
    fun j above' hj => ⟨hj, (hkey hj).mono (Nat.le_refl _) (by simp only [maxName, regKeySize]; omega)⟩⟩
  · obtain ⟨l, hl, hkeys⟩ := h.kids j above' hj
    refine ⟨l, ?_, hkeys⟩
    have hhead : m.rd64 (childrenAt j) = s.mem.rd64 (childrenAt j) :=
      (Mem.rd64_congr ((hkey hj).mono (by simp only [childrenAt]; omega)
        (by simp only [childrenAt, regKeySize]; omega))).symm
    rw [mem_setMem, hhead]
    exact hl.congr fun q hq => (Mem.rd64_congr ((hkey (hkeys q hq)).mono
      (by simp only [siblingAt]; omega) (by simp only [siblingAt, regKeySize]; omega))).symm
  · obtain ⟨l, hl, hvalues⟩ := h.vals j above' hj
    refine ⟨l, ?_, hvalues⟩
    have hhead : m.rd64 (valuesAt j) = s.mem.rd64 (valuesAt j) :=
      (Mem.rd64_congr ((hkey hj).mono (by simp only [valuesAt]; omega)
        (by simp only [valuesAt, regKeySize]; omega))).symm
    rw [mem_setMem, hhead]
    refine hl.congr fun q hq => ?_
    by_cases hqv : q = v
    · rw [hqv]
      exact hnext
    · exact (Mem.rd64_congr ((hkept q _ (hvalues q hq) hqv).mono (by simp only [nextAt]; omega)
        (by simp only [nextAt, Role.size, regValueSize]; omega))).symm
  · have hne : v' ≠ v := fun heq => hfill (congrArg some heq.symm)
    have hsame : m.rd64 (dataAt v') = s.mem.rd64 (dataAt v') :=
      (Mem.rd64_congr ((hkept v' _ hv' hne).mono (by simp only [dataAt]; omega)
        (by simp only [dataAt, Role.size, regValueSize]; omega))).symm
    rw [mem_setMem, hsame]
    exact h.data v' j hv' hfill

/-- The value has its data, or none. -/
theorem RegTree.filled (h : RegTree s live role (some v))
    (hdata : s.mem.rd64 (dataAt v) = 0 ∨ role (s.mem.rd64 (dataAt v)) = some (.data v)) :
    RegTree s live role none := by
  refine { h with data := fun v' j hv' _ => ?_ }
  by_cases hne : v' = v
  · rw [hne]
    exact hdata
  · exact h.data v' j hv' fun heq => hne (Option.some.inj heq).symm

/-- A block without a role becomes data. -/
theorem RegTree.addData {a : Alloc} (h : RegTree s live role filling) (ha : a ∈ live)
    (hunused : role a.ptr = none) (v : Nat) :
    RegTree s live (Function.update role a.ptr (some (.data v))) filling := by
  have hold : ∀ {q r}, Function.update role a.ptr (some (.data v)) q = some r →
      (∀ v', r ≠ .data v') → role q = some r := by
    intro q r hq hr
    by_cases hqp : q = a.ptr
    · rw [hqp, Function.update_self] at hq
      cases hq
      exact absurd rfl (hr v)
    · rwa [Function.update_of_ne hqp] at hq
  have hkept : ∀ {q r}, role q = some r → Function.update role a.ptr (some (.data v)) q = some r := by
    intro q r hq
    have hqp : q ≠ a.ptr := by
      rintro rfl
      rw [hunused] at hq
      cases hq
    rw [Function.update_of_ne hqp, hq]
  refine ⟨h.holds, fun q r hq => ?_, fun j above' hj => ?_, fun j above' hj => ?_,
    fun v' j hv' hfill => ?_⟩
  · by_cases hqp : q = a.ptr
    · rw [hqp, Function.update_self] at hq
      cases hq
      exact ⟨a, ha, hqp.symm, Nat.zero_le _⟩
    · rw [Function.update_of_ne hqp] at hq
      exact h.block q r hq
  · obtain ⟨l, hl, hkeys⟩ := h.kids j above' (hold hj fun _ heq => by cases heq)
    exact ⟨l, hl, fun q hq => hkept (hkeys q hq)⟩
  · obtain ⟨l, hl, hvalues⟩ := h.vals j above' (hold hj fun _ heq => by cases heq)
    exact ⟨l, hl, fun q hq => hkept (hvalues q hq)⟩
  · exact (h.data v' j (hold hv' fun _ heq => by cases heq) hfill).imp_right hkept

/-- Data has no links, so any bytes will do. -/
theorem RegTree.dataStore {m : Mem} {a : Alloc} (h : RegTree s live role filling) (ha : a ∈ live)
    (hp : role a.ptr = some (.data v)) (hout : ∀ i, i < a.ptr ∨ a.ptr + a.granted ≤ i → m i = s.mem i) :
    RegTree (s.setMem m) live role filling ∧ RecordsKept s.mem m role := by
  obtain ⟨hholds, hkept⟩ := h.holds.store ha hout
  have hrecords : RecordsKept s.mem m role := by
    intro q r hq
    by_cases hqp : q = a.ptr
    · rw [hqp, hp] at hq
      cases hq
      exact fun i hlo hhi => absurd hlo (by simp only [Role.size] at hhi; omega)
    · obtain ⟨c, hc, rfl, hroom⟩ := h.block q r hq
      exact (hkept c hc hqp).mono (Nat.le_refl _) (by omega)
  exact ⟨h.congr hholds (fun c hc _ => hc) hrecords, hrecords⟩

theorem KeysKept.of_subset {m : Mem} {role' : Nat → Option Role}
    (h : ∀ j above', role j = some (.key above') → role' j = some (.key above')) :
    KeysKept m m role role' :=
  fun j above' hj => ⟨h j above' hj, fun _ _ _ => rfl⟩

theorem keysKept_update {m : Mem} {r : Option Role} (hp : ∀ above', role p ≠ some (.key above')) :
    KeysKept m m role (Function.update role p r) := by
  refine .of_subset fun j above' hj => ?_
  have hne : j ≠ p := by
    rintro rfl
    exact hp above' hj
  rw [Function.update_of_ne hne, hj]

/-- A value whose old data is gone. -/
structure SlotStep (s : RegState) (role : Nat → Option Role) (k v : Nat) (s' : RegState)
    (role' : Nat → Option Role) : Prop where
  tree : ∃ live', RegTree s' live' role' (some v)
  value : role' v = some (.value k)
  kept : KeysKept s.mem s'.mem role role'
  root : s'.sRoot = s.sRoot

theorem RegTree.valueSlot_old (h : RegTree s live role none) (hv : role v = some (.value k))
    (hdata : s.mem.rd64 (dataAt v) ≠ 0) :
    ∃ s' role', regKfree s (s.mem.rd64 (dataAt v)) = some s' ∧ SlotStep s role k v s' role' := by
  have hp := (h.data v k hv fun hnone => by cases hnone).resolve_left hdata
  generalize s.mem.rd64 (dataAt v) = p at hp
  obtain ⟨a, ha, rfl, -⟩ := h.block p _ hp
  obtain ⟨m, hrun, hholds, hkept⟩ := h.holds.kfree ha
  have hdropped := h.dropData hp
  have hrecords : RecordsKept s.mem m (Function.update role a.ptr none) :=
    hdropped.records_of_blocks fun c hc _ => hkept c hc
  have hvne : v ≠ a.ptr := by
    intro heq
    rw [heq, hp] at hv
    cases hv
  refine ⟨s.setMem m, _, ?_, ⟨⟨_, hdropped.congr hholds (fun c hc hr => ?_) hrecords⟩, ?_,
    (keysKept_update fun above' hk => ?_).trans hrecords.keys, rfl⟩⟩
  · unfold regKfree
    rw [hrun]
    rfl
  · refine List.mem_filter.2 ⟨hc, bne_iff_ne.2 fun heq => ?_⟩
    obtain ⟨r, hr⟩ := hr
    rw [heq, Function.update_self] at hr
    cases hr
  · rw [Function.update_of_ne hvne, hv]
  · rw [hp] at hk
    cases hk

theorem RegTree.valueSlot_new {a : Alloc} (name : List UInt8) (h : RegTree s (a :: live) role none)
    (hk : role k = some (.key above)) (hne : a.ptr ≠ 0) (hroom : regValueSize ≤ a.granted)
    (hunused : role a.ptr = none) :
    SlotStep s role k a.ptr
      (s.setMem (push (strcpyn s.mem a.ptr name maxName) (valuesAt k) (nextAt a.ptr) a.ptr))
      (Function.update role a.ptr (some (.value k))) := by
  have hout : ∀ i, i < a.ptr ∨ a.ptr + a.granted ≤ i → strcpyn s.mem a.ptr name maxName i = s.mem i :=
    fun i hi => strcpyn_outside s.mem name (by decide)
      (by simp only [regValueSize, maxName] at hroom ⊢; omega)
  obtain ⟨htree, hrecords⟩ := h.store List.mem_cons_self hunused hout
  have hp : Pushing (s.setMem (strcpyn s.mem a.ptr name maxName)) (a :: live) role k above a
      (nextAt a.ptr) (valuesAt k) :=
    ⟨hk, List.mem_cons_self, hunused, by simp only [nextAt, regValueSize] at hroom ⊢; omega,
      by simp only [valuesAt, maxName, regKeySize]; omega⟩
  exact ⟨⟨_, htree.addValue hp hne hroom⟩, Function.update_self ..,
    hrecords.keys.trans (hp.keysKept htree), rfl⟩

theorem RegTree.valueSlot (h : RegTree s live role none) (hk : role k = some (.key above))
    (name : List UInt8) :
    valueSlot s k name = some (s, 0) ∨
      ∃ s' v role', valueSlot s k name = some (s', v) ∧ v ≠ 0 ∧ SlotStep s role k v s' role' := by
  obtain ⟨v, hfind, hvalue⟩ := h.findValue hk name
  unfold Cm.valueSlot
  rw [hfind, Option.bind_some]
  by_cases hv : v ≠ 0
  · rw [if_pos hv]
    dsimp only
    obtain ⟨hrole, -⟩ := hvalue hv
    by_cases hdata : s.mem.rd64 (dataAt v) ≠ 0
    · obtain ⟨s', role', hfree, hstep⟩ := h.valueSlot_old hrole hdata
      rw [if_pos hdata, hfree]
      exact .inr ⟨s', v, role', rfl, hv, hstep⟩
    · rw [if_neg hdata]
      exact .inr ⟨s, v, role, rfl, hv, ⟨⟨live, h.opened v⟩, hrole, .refl _ _, rfl⟩⟩
  · rw [if_neg hv]
    rcases h.kmalloc (show regValueSize + 15 < 2 ^ 64 by decide) with
      hnull | ⟨m, a, hrun, hne, hroom, hunused, htree, hrecords⟩
    · rw [hnull]
      exact .inl rfl
    · obtain ⟨⟨live', htree'⟩, hvalue', hkept, hroot⟩ :=
        htree.valueSlot_new name hk hne hroom hunused
      refine .inr ⟨_, a.ptr, _, ?_, hne, ⟨⟨live', htree'⟩, hvalue', hrecords.keys.trans hkept, hroot⟩⟩
      rw [hrun, Option.map_some]
      dsimp only
      rw [if_neg hne]
      rfl

/-- The last stores of `reg_set_value`, with the block for the data, if there is one. -/
theorem RegTree.fillData (data : Option Mem) (size : Nat) (h : RegTree s live role (some v))
    (hv : role v = some (.value k)) (hp : p = 0 ∨ ∃ a ∈ live, a.ptr = p ∧ role p = none ∧ size ≤ a.granted) :
    let m := s.mem.write (dataAt v) 8 p
    let s' := match data with
      | some bytes => s.setMem (if p = 0 then m else m.blit p size bytes)
      | none => s.setMem m
    ∃ role', RegStep s role s' role' := by
  have hout : ∀ i, i < v ∨ v + regValueSize ≤ i → s.mem.write (dataAt v) 8 p i = s.mem i :=
    fun i hi => Mem.write_outside _ _ (by simp only [dataAt, regValueSize] at hi ⊢; omega)
  have hnext : (s.mem.write (dataAt v) 8 p).rd64 (nextAt v) = s.mem.rd64 (nextAt v) := by
    unfold Mem.rd64
    rw [Mem.read_write_of_disjoint _ _ (by simp only [dataAt, nextAt]; omega)]
  obtain ⟨hstored, hkept⟩ := h.valueStore hv hout hnext
  have hread : p < 2 ^ 64 → (s.mem.write (dataAt v) 8 p).rd64 (dataAt v) = p := fun hlt => by
    unfold Mem.rd64
    rw [Mem.read_write_of_lt _ (by omega)]
  dsimp only
  rcases hp with rfl | ⟨a, ha, rfl, hunused, hroom⟩
  · refine ⟨role, ⟨live, ?_⟩, ?_, ?_⟩
    · have hfilled := hstored.filled (.inl (hread (by decide)))
      cases data with
      | none => exact hfilled
      | some bytes => exact hfilled
    · cases data with
      | none => exact hkept
      | some bytes => exact hkept
    · cases data <;> rfl
  · have hbounds := h.holds.bounds ha
    have hne : a.ptr ≠ 0 := by
      simp only [heapBase] at hbounds
      omega
    have hvalue : Function.update role a.ptr (some (.data v)) a.ptr = some (.data v) :=
      Function.update_self ..
    have hpointer := hread (by simp only [heapBase, heapSize] at hbounds; omega)
    have hfilled := (hstored.addData ha hunused v).filled (.inr (by
      rw [mem_setMem, hpointer]
      exact hvalue))
    have hroles : KeysKept s.mem (s.mem.write (dataAt v) 8 a.ptr) role
        (Function.update role a.ptr (some (.data v))) :=
      hkept.trans (keysKept_update fun above' hk => by
        rw [hunused] at hk
        cases hk)
    cases data with
    | none => exact ⟨_, ⟨live, hfilled⟩, hroles, rfl⟩
    | some bytes =>
      dsimp only
      rw [if_neg hne]
      have hblit : ∀ i, i < a.ptr ∨ a.ptr + a.granted ≤ i →
          (s.mem.write (dataAt v) 8 a.ptr).blit a.ptr size bytes i =
            s.mem.write (dataAt v) 8 a.ptr i :=
        fun i hi => Mem.blit_outside _ _ (by omega)
      obtain ⟨hdone, hrecords⟩ := hfilled.dataStore ha hvalue hblit
      exact ⟨_, ⟨live, hdone⟩, hroles.trans hrecords.keys, rfl⟩

/-- `v->type` and `v->size`. -/
theorem RegTree.valueHeader (h : RegTree s live role (some v)) (hv : role v = some (.value k))
    (type size : Nat) :
    RegTree (s.setMem ((s.mem.write (valueTypeAt v) 4 type).write (sizeAt v) 4 size)) live role (some v) ∧
      KeysKept s.mem ((s.mem.write (valueTypeAt v) 4 type).write (sizeAt v) 4 size) role role := by
  refine h.valueStore hv (fun i hi => ?_) ?_
  · simp only [regValueSize] at hi
    rw [Mem.write_outside _ _ (by simp only [sizeAt]; omega),
      Mem.write_outside _ _ (by simp only [valueTypeAt]; omega)]
  · unfold Mem.rd64
    rw [Mem.read_write_of_disjoint _ _ (by simp only [sizeAt, nextAt]; omega),
      Mem.read_write_of_disjoint _ _ (by simp only [valueTypeAt, nextAt]; omega)]

theorem RegTree.setValue (h : RegTree s live role none) (hk : role k = some (.key above))
    (name : List UInt8) (type : Nat) (data : Option Mem) {size : Nat} (hsize : size + 15 < 2 ^ 64) :
    ∃ s' v role', regSetValue s k name type data size = some (s', v) ∧ RegStep s role s' role' := by
  unfold regSetValue
  rcases h.valueSlot hk name with hnull | ⟨s₁, v, role₁, hslot, hv, ⟨live₁, htree⟩, hvalue, hkept, hroot⟩
  · rw [hnull]
    exact ⟨s, 0, role, rfl, h.same⟩
  rw [hslot, Option.bind_some]
  dsimp only
  rw [if_neg hv]
  obtain ⟨hstored, hkept'⟩ := htree.valueHeader hvalue type size
  have hbefore := hkept.trans hkept'
  by_cases hzero : size = 0
  · obtain ⟨role', hstep⟩ := hstored.fillData data size hvalue (.inl rfl)
    rw [if_pos hzero]
    exact ⟨_, v, role', by cases data <;> rfl, hstep.tree, hbefore.trans hstep.kept,
      hstep.root.trans hroot⟩
  · rw [if_neg hzero]
    rcases hstored.kmalloc hsize with hnull | ⟨m', a, hrun, hne, hroom, hunused, htree', hrecords⟩
    · obtain ⟨role', hstep⟩ := hstored.fillData data size hvalue (.inl rfl)
      rw [hnull]
      exact ⟨_, v, role', by cases data <;> rfl, hstep.tree, hbefore.trans hstep.kept,
        hstep.root.trans hroot⟩
    · obtain ⟨role', hstep⟩ := htree'.fillData data size hvalue
        (.inr ⟨a, List.mem_cons_self, rfl, hunused, hroom⟩)
      rw [hrun]
      exact ⟨_, v, role', by cases data <;> rfl, hstep.tree,
        (hbefore.trans hrecords.keys).trans hstep.kept, hstep.root.trans hroot⟩

end Operations

end MeuOS.Cm
