import MeuOS.Ps.Process

/-! The two indexes. An enumeration by number is the list of the objects of a type, in which
the lookup looks for the id; the table holds at most one entry for an id. -/
namespace MeuOS.Ps

open MeuOS.Ob (maxObjects)

/-! ## The enumeration -/

/-- The objects of a kind in the list. -/
def filed (s : PsState) (k : CidKind) : List Nat :=
  s.sAll.filter fun b => b != 0 && s.objType b == k.obType

section Enumeration

variable {s : PsState} {k : CidKind} {cid body : Nat}

theorem enumLoop_eq (objType : Nat → Nat) (type index : Nat) (l : List Nat) {seen : Nat}
    (h : seen ≤ index) : enumLoop objType type index l seen =
      ((l.filter fun b => b != 0 && objType b == type)[index - seen]?).getD 0 := by
  induction l generalizing seen with
  | nil => rfl
  | cons b l ih =>
    unfold enumLoop
    by_cases hskip : b = 0 ∨ objType b ≠ type
    · rw [if_pos hskip, ih h, List.filter_cons_of_neg]
      simpa [or_iff_not_imp_left] using hskip
    · rw [if_neg hskip, List.filter_cons_of_pos (by simpa [not_or] using hskip)]
      by_cases hhere : seen = index
      · rw [if_pos hhere, hhere, Nat.sub_self]
        rfl
      · obtain ⟨n, hn⟩ : ∃ n, index - seen = n + 1 := ⟨index - seen - 1, by omega⟩
        rw [if_neg hhere, ih (by omega), hn, List.getElem?_cons_succ]
        congr 2
        omega

/-- Looking through an enumeration is looking through its list. -/
theorem lookupLoop_eq {l : List Nat} {enum : Nat → Nat} (idOf : Nat → Nat) (cid : Nat)
    (henum : ∀ i, enum i = (l[i]?).getD 0) (hl : ∀ b ∈ l, b ≠ 0) {fuel i : Nat}
    (hfuel : l.length < fuel + i) :
    lookupLoop enum idOf cid fuel i = ((l.drop i).find? fun b => idOf b == cid).getD 0 := by
  induction fuel generalizing i with
  | zero =>
    rw [List.drop_eq_nil_of_le (by omega)]
    rfl
  | succ fuel ih =>
    unfold lookupLoop
    rw [henum i]
    by_cases hi : i < l.length
    · have hget : (l[i]?).getD 0 = l[i] := by rw [List.getElem?_eq_getElem hi, Option.getD_some]
      rw [hget, if_neg (hl _ (List.getElem_mem hi)), List.drop_eq_getElem_cons hi]
      by_cases hid : idOf l[i] = cid
      · rw [if_pos hid, List.find?_cons_of_pos (by simpa using hid), Option.getD_some]
      · rw [if_neg hid, List.find?_cons_of_neg (by simpa using hid), ih (by omega)]
    · rw [List.getElem?_eq_none (by omega), List.drop_eq_nil_of_le (by omega)]
      rfl

theorem enumLookup_eq (hroom : s.sAll.length ≤ maxObjects) (k : CidKind) (cid : Nat) :
    enumLookup k s cid = ((filed s k).find? fun b => s.clientId k b == cid).getD 0 := by
  have hnonzero : ∀ b ∈ filed s k, b ≠ 0 := fun b hb => by
    have htest := (List.mem_filter.mp hb).2
    simp only [Bool.and_eq_true, bne_iff_ne] at htest
    exact htest.1
  have hshort : (filed s k).length ≤ s.sAll.length := List.length_filter_le ..
  unfold enumLookup
  rw [lookupLoop_eq (l := filed s k) (s.clientId k) cid (fun i => ?_) hnonzero (by omega), List.drop_zero]
  exact enumLoop_eq s.objType k.obType i s.sAll (Nat.zero_le i)

/-- Where ids are told apart, the enumeration finds the objects in the list. -/
theorem enumLookup_iff (hroom : s.sAll.length ≤ maxObjects)
    (hdistinct : ∀ b b', s.objType b = k.obType → s.objType b' = k.obType →
      s.clientId k b = s.clientId k b' → b = b') (hbody : body ≠ 0) :
    enumLookup k s cid = body ↔
      body ∈ s.sAll ∧ s.objType body = k.obType ∧ s.clientId k body = cid := by
  have hmem : ∀ b, b ∈ filed s k ↔ b ∈ s.sAll ∧ b ≠ 0 ∧ s.objType b = k.obType := fun b => by
    unfold filed
    rw [List.mem_filter, Bool.and_eq_true, bne_iff_ne, beq_iff_eq]
  rw [enumLookup_eq hroom]
  cases hfind : (filed s k).find? fun b => s.clientId k b == cid with
  | none =>
    have hnot := List.find?_eq_none.mp hfind
    constructor
    · intro h
      exact absurd h.symm hbody
    · rintro ⟨hin, htype, hid⟩
      exact absurd (beq_iff_eq.mpr hid) (hnot body ((hmem body).mpr ⟨hin, hbody, htype⟩))
  | some b =>
    have hid : s.clientId k b = cid := by simpa using List.find?_some hfind
    obtain ⟨hin, -, htype⟩ := (hmem b).mp (List.mem_of_find?_eq_some hfind)
    rw [Option.getD_some]
    constructor
    · rintro rfl
      exact ⟨hin, htype, hid⟩
    · rintro ⟨-, htype', hid'⟩
      exact hdistinct b body htype htype' (hid.trans hid'.symm)

end Enumeration

/-! ## The table -/

/-- An entry of the table. -/
def Holds (s : PsState) (k : CidKind) (cid body : Nat) : Prop :=
  cid ≠ 0 ∧ ∃ i < cidMaxEntries, s.cidEntries i = ⟨cid, k.isThread, body⟩

/-- An id has one entry. -/
def OneEntry (s : PsState) : Prop :=
  ∀ i j, i < cidMaxEntries → j < cidMaxEntries → (s.cidEntries i).cid ≠ 0 →
    (s.cidEntries i).cid = (s.cidEntries j).cid →
    (s.cidEntries i).isThread = (s.cidEntries j).isThread → i = j

section Table

variable {s : PsState} {k k' : CidKind} {cid c body b i : Nat}

theorem CidKind.isThread_inj (h : k.isThread = k'.isThread) : k = k' := by
  cases k <;> cases k' <;> first | rfl | cases h

theorem cidFindEntry_some (h : cidFindEntry s cid k = some i) :
    i < cidMaxEntries ∧ (s.cidEntries i).cid = cid ∧ (s.cidEntries i).isThread = k.isThread ∧
      cid ≠ 0 := by
  unfold cidFindEntry at h
  split at h
  · cases h
  · have htest := List.find?_some h
    rw [Bool.and_eq_true, beq_iff_eq, beq_iff_eq] at htest
    exact ⟨List.mem_range.mp (List.mem_of_find?_eq_some h), htest.1, htest.2, ‹_›⟩

theorem cidFindEntry_none (h : cidFindEntry s cid k = none) (body : Nat) : ¬Holds s k cid body := by
  rintro ⟨hne, i, hi, hentry⟩
  unfold cidFindEntry at h
  rw [if_neg hne] at h
  have hnot := List.find?_eq_none.mp h i (List.mem_range.mpr hi)
  rw [hentry] at hnot
  simp at hnot

theorem cidFindFree_some (h : cidFindFree s = some i) :
    i < cidMaxEntries ∧ (s.cidEntries i).cid = 0 := by
  unfold cidFindFree at h
  have htest := List.find?_some h
  exact ⟨List.mem_range.mp (List.mem_of_find?_eq_some h), beq_iff_eq.mp htest⟩

theorem holds_of_entry (hi : i < cidMaxEntries) (hcid : (s.cidEntries i).cid = cid) (hne : cid ≠ 0)
    (hkind : (s.cidEntries i).isThread = k.isThread) : Holds s k cid (s.cidEntries i).object :=
  ⟨hne, i, hi, by rw [← hcid, ← hkind]⟩

theorem cidLookup_iff (hone : OneEntry s) (hbody : body ≠ 0) :
    cidLookup k s cid = body ↔ Holds s k cid body := by
  unfold cidLookup
  cases hfind : cidFindEntry s cid k with
  | none =>
    constructor
    · intro h
      exact absurd h.symm hbody
    · intro h
      exact absurd h (cidFindEntry_none hfind body)
  | some i =>
    obtain ⟨hi, hcid, hkind, hne⟩ := cidFindEntry_some hfind
    constructor
    · rintro rfl
      exact holds_of_entry hi hcid hne hkind
    · rintro ⟨-, j, hj, hentry⟩
      have hij : i = j := by
        apply hone i j hi hj (hcid ▸ hne)
        · rw [hcid, hentry]
        · rw [hkind, hentry]
      dsimp only
      rw [hij, hentry]

/-- An entry put where a free one was. -/
theorem cidInsert_holds (hfresh : cidFindEntry s (s.clientId k body) k = none) (hbody : body ≠ 0)
    (hid : s.clientId k body ≠ 0) (hone : OneEntry s) :
    OneEntry (cidInsert k s body).2 ∧ ∀ k' c b, Holds (cidInsert k s body).2 k' c b ↔
      Holds s k' c b ∨
        (cidFindFree s).isSome = true ∧ k' = k ∧ c = s.clientId k body ∧ b = body := by
  unfold cidInsert
  rw [if_neg (by simp [hbody, hid]), hfresh, Option.none_or]
  cases hfree : cidFindFree s with
  | none => exact ⟨hone, fun k' c b => by simp⟩
  | some i =>
    obtain ⟨hi, hzero⟩ := cidFindFree_some hfree
    have hother : ∀ j < cidMaxEntries, (s.cidEntries j).cid = s.clientId k body →
        (s.cidEntries j).isThread ≠ k.isThread := fun j hj hcid hkind =>
      cidFindEntry_none hfresh _ (holds_of_entry hj hcid hid hkind)
    refine ⟨fun a b ha hb hne hcid hkind => ?_, fun k' c b => ?_⟩
    · dsimp only at hne hcid hkind
      by_cases hai : a = i <;> by_cases hbi : b = i
      · rw [hai, hbi]
      · rw [hai, Function.update_self, Function.update_of_ne hbi] at hcid hkind
        exact absurd hkind.symm (hother b hb hcid.symm)
      · rw [hbi, Function.update_self, Function.update_of_ne hai] at hcid hkind
        exact absurd hkind (hother a ha hcid)
      · rw [Function.update_of_ne hai] at hne hcid hkind
        rw [Function.update_of_ne hbi] at hcid hkind
        exact hone a b ha hb hne hcid hkind
    · unfold Holds
      dsimp only
      constructor
      · rintro ⟨hne, j, hj, hentry⟩
        by_cases hji : j = i
        · rw [hji, Function.update_self, CidEntry.mk.injEq] at hentry
          exact .inr ⟨rfl, (CidKind.isThread_inj hentry.2.1).symm, hentry.1.symm, hentry.2.2.symm⟩
        · rw [Function.update_of_ne hji] at hentry
          exact .inl ⟨hne, j, hj, hentry⟩
      · rintro (⟨hne, j, hj, hentry⟩ | ⟨-, rfl, rfl, rfl⟩)
        · have hji : j ≠ i := fun heq => by
            rw [heq] at hentry
            rw [hentry] at hzero
            exact hne hzero
          exact ⟨hne, j, hj, by rw [Function.update_of_ne hji, hentry]⟩
        · exact ⟨hid, i, hi, Function.update_self ..⟩

theorem cidRemove_holds (hone : OneEntry s) (k : CidKind) (cid : Nat) :
    OneEntry (cidRemove k s cid) ∧
      ∀ k' c b, Holds (cidRemove k s cid) k' c b ↔ Holds s k' c b ∧ ¬(k' = k ∧ c = cid) := by
  unfold cidRemove
  cases hfind : cidFindEntry s cid k with
  | none =>
    refine ⟨hone, fun k' c b => ⟨fun h => ⟨h, ?_⟩, And.left⟩⟩
    rintro ⟨rfl, rfl⟩
    exact cidFindEntry_none hfind b h
  | some i =>
    obtain ⟨hi, hcid, hkind, hne⟩ := cidFindEntry_some hfind
    refine ⟨fun a b ha hb hnz heq hk => ?_, fun k' c b => ?_⟩
    · dsimp only at hnz heq hk
      have hai : a ≠ i := fun h => by
        rw [h, Function.update_self] at hnz
        exact hnz rfl
      rw [Function.update_of_ne hai] at hnz heq hk
      have hbi : b ≠ i := fun h => by
        rw [h, Function.update_self] at heq
        exact hnz heq
      rw [Function.update_of_ne hbi] at heq hk
      exact hone a b ha hb hnz heq hk
    · unfold Holds
      dsimp only
      constructor
      · rintro ⟨hnz, j, hj, hentry⟩
        have hji : j ≠ i := fun h => by
          rw [h, Function.update_self, CidEntry.mk.injEq] at hentry
          exact hnz hentry.1.symm
        rw [Function.update_of_ne hji] at hentry
        refine ⟨⟨hnz, j, hj, hentry⟩, ?_⟩
        rintro ⟨rfl, rfl⟩
        apply hji
        apply hone j i hj hi
        · rw [hentry]
          exact hnz
        · rw [hentry, hcid]
        · rw [hentry, hkind]
      · rintro ⟨⟨hnz, j, hj, hentry⟩, hnot⟩
        have hji : j ≠ i := fun h => by
          rw [h] at hentry
          rw [hentry] at hcid hkind
          exact hnot ⟨CidKind.isThread_inj hkind, hcid⟩
        exact ⟨hnz, j, hj, by rw [Function.update_of_ne hji, hentry]⟩

end Table

end MeuOS.Ps
