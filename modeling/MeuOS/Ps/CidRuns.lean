import MeuOS.Lib.Slots
import MeuOS.Ps.Indexes

/-! Every history of the client-ID table. Each kind has a map of its own from ids to objects,
and the exported count is kept beside the array. -/
namespace MeuOS.Ps

open MeuOS.Lib

/-- `last` is the object an id was last inserted for and not removed since, 0 for none. `again`
counts the inserts that found the id in the table. -/
structure CidWorld where
  ps : PsState
  last : CidKind → Nat → Nat
  again : Nat

inductive CidOp
  | insert (k : CidKind) (body : Nat)
  | remove (k : CidKind) (cid : Nat)
  | lookup (k : CidKind) (cid : Nat)
  /-- Objects come and go and are given their ids. -/
  | outside (ps : PsState)

namespace CidWorld

/-- The map of one kind after a store. -/
def record (w : CidWorld) (k : CidKind) (cid body : Nat) : CidKind → Nat → Nat :=
  Function.update w.last k (Function.update (w.last k) cid body)

end CidWorld

def cidStep (w : CidWorld) : CidOp → CidWorld
  | .insert k body =>
      let r := cidInsert k w.ps body
      if r.1 = 1 then
        { ps := r.2
          last := w.record k (w.ps.clientId k body) body
          again := if w.last k (w.ps.clientId k body) = 0 then w.again else w.again + 1 }
      else { w with ps := r.2 }
  | .remove k cid => { w with ps := cidRemove k w.ps cid, last := w.record k cid 0 }
  | .lookup _ _ => w
  | .outside ps => { w with ps := ps }

/-- Only the calls touch the table. -/
def cidAllowed (w : CidWorld) : CidOp → Prop
  | .outside ps => ps.cidEntries = w.ps.cidEntries ∧ ps.handleCount = w.ps.handleCount
  | _ => True

def CidStep (w : CidWorld) (op : CidOp) (w' : CidWorld) : Prop := cidAllowed w op ∧ w' = cidStep w op

/-- The table after `cid_table_init`. -/
def CidStart (w : CidWorld) : Prop :=
  (∀ i, w.ps.cidEntries i = ⟨0, false, 0⟩) ∧ w.ps.handleCount = 0 ∧ (∀ k cid, w.last k cid = 0) ∧
    w.again = 0

/-- No id is inserted while the table has it. -/
def CidStepOk (w : CidWorld) : CidOp → Prop
  | .insert k body => w.last k (w.ps.clientId k body) = 0
  | _ => True

/-- The entries in use. -/
def occupied (s : PsState) : Nat := (List.range cidMaxEntries).countP fun i => (s.cidEntries i).cid ≠ 0

section Entries

variable {s : PsState} {k k' : CidKind} {cid c body b i : Nat}

theorem occupied_update (hi : i < cidMaxEntries) (e : CidEntry) (n : Nat) :
    occupied { s with cidEntries := Function.update s.cidEntries i e, handleCount := n } +
        (decide ((s.cidEntries i).cid ≠ 0)).toNat = occupied s + (decide (e.cid ≠ 0)).toNat := by
  have hflag : (fun j => decide ((Function.update s.cidEntries i e j).cid ≠ 0)) =
      Function.update (fun j => decide ((s.cidEntries j).cid ≠ 0)) i (decide (e.cid ≠ 0)) := by
    funext j
    by_cases hj : j = i
    · rw [hj, Function.update_self, Function.update_self]
    · rw [Function.update_of_ne hj, Function.update_of_ne hj]
  unfold occupied
  dsimp only
  rw [hflag]
  exact countP_update hi _

theorem occupied_pos (hi : i < cidMaxEntries) (hused : (s.cidEntries i).cid ≠ 0) : 0 < occupied s :=
  List.countP_pos_iff.mpr ⟨i, List.mem_range.mpr hi, decide_eq_true hused⟩

/-- The id is there, and its entry gets the new object. -/
theorem cidInsert_again (hfound : cidFindEntry s (s.clientId k body) k = some i) (hbody : body ≠ 0)
    (hone : OneEntry s) :
    OneEntry (cidInsert k s body).2 ∧ (cidInsert k s body).1 = 1 ∧
      (cidInsert k s body).2.handleCount = s.handleCount + 1 ∧
      occupied (cidInsert k s body).2 = occupied s ∧
      ∀ k' c b, Holds (cidInsert k s body).2 k' c b ↔
        if k' = k ∧ c = s.clientId k body then b = body else Holds s k' c b := by
  obtain ⟨hi, hcid, hkind, hid⟩ := cidFindEntry_some hfound
  have hrun : cidInsert k s body = (1, { s with
      cidEntries := Function.update s.cidEntries i ⟨s.clientId k body, k.isThread, body⟩
      handleCount := s.handleCount + 1 }) := by
    unfold cidInsert
    rw [if_neg (by simp [hbody, hid]), hfound, Option.some_or]
  -- every entry keeps its id and its kind
  have hsame : ∀ j, (Function.update s.cidEntries i ⟨s.clientId k body, k.isThread, body⟩ j).cid =
      (s.cidEntries j).cid ∧
      (Function.update s.cidEntries i ⟨s.clientId k body, k.isThread, body⟩ j).isThread =
        (s.cidEntries j).isThread := fun j => by
    by_cases hj : j = i
    · rw [hj, Function.update_self]
      exact ⟨hcid.symm, hkind.symm⟩
    · rw [Function.update_of_ne hj]
      exact ⟨rfl, rfl⟩
  rw [hrun]
  refine ⟨fun a b ha hb hne heq hk => ?_, rfl, rfl, ?_, fun k' c b => ?_⟩
  · dsimp only at hne heq hk
    rw [(hsame a).1] at hne heq
    rw [(hsame b).1] at heq
    rw [(hsame a).2, (hsame b).2] at hk
    exact hone a b ha hb hne heq hk
  · have hcount := occupied_update (s := s) hi ⟨s.clientId k body, k.isThread, body⟩ (s.handleCount + 1)
    rw [hcid] at hcount
    exact Nat.add_right_cancel hcount
  · unfold Holds
    dsimp only
    split
    case isTrue hself =>
      obtain ⟨rfl, rfl⟩ := hself
      constructor
      · rintro ⟨-, j, hj, hentry⟩
        have hji : j = i := by
          apply hone j i hj hi
          · rw [← (hsame j).1, hentry]
            exact hid
          · rw [← (hsame j).1, hentry, hcid]
          · rw [← (hsame j).2, hentry, hkind]
        rw [hji, Function.update_self, CidEntry.mk.injEq] at hentry
        exact hentry.2.2.symm
      · rintro rfl
        exact ⟨hid, i, hi, Function.update_self ..⟩
    case isFalse hother =>
      refine and_congr_right fun _ => exists_congr fun j => and_congr_right fun _ => ?_
      by_cases hj : j = i
      · rw [hj, Function.update_self]
        refine iff_of_false (fun hentry => ?_) fun hentry => ?_
        · rw [CidEntry.mk.injEq] at hentry
          exact hother ⟨(CidKind.isThread_inj hentry.2.1).symm, hentry.1.symm⟩
        · rw [hentry] at hcid hkind
          exact hother ⟨CidKind.isThread_inj hkind, hcid⟩
      · rw [Function.update_of_ne hj]

/-- A fresh id takes an entry that was free, or nothing happens. -/
theorem cidInsert_fresh (hfresh : cidFindEntry s (s.clientId k body) k = none) (hbody : body ≠ 0)
    (hid : s.clientId k body ≠ 0) :
    ((cidFindFree s).isSome = true ∧ (cidInsert k s body).1 = 1 ∧
      (cidInsert k s body).2.handleCount = s.handleCount + 1 ∧
      occupied (cidInsert k s body).2 = occupied s + 1) ∨
    cidFindFree s = none ∧ cidInsert k s body = (0, s) := by
  have htest : ¬(body = 0 ∨ s.clientId k body = 0) := by simp [hbody, hid]
  cases hfree : cidFindFree s with
  | none =>
    refine .inr ⟨rfl, ?_⟩
    unfold cidInsert
    rw [if_neg htest, hfresh, hfree, Option.none_or]
  | some i =>
    obtain ⟨hi, hzero⟩ := cidFindFree_some hfree
    have hrun : cidInsert k s body = (1, { s with
        cidEntries := Function.update s.cidEntries i ⟨s.clientId k body, k.isThread, body⟩
        handleCount := s.handleCount + 1 }) := by
      unfold cidInsert
      rw [if_neg htest, hfresh, hfree, Option.none_or]
    have hcount := occupied_update (s := s) hi ⟨s.clientId k body, k.isThread, body⟩ (s.handleCount + 1)
    rw [hzero, decide_eq_false (not_not_intro rfl), decide_eq_true hid, Bool.toNat_false,
      Bool.toNat_true, Nat.add_zero] at hcount
    rw [hrun]
    exact .inl ⟨rfl, rfl, rfl, hcount⟩

theorem cidRemove_count (hcount : occupied s ≤ s.handleCount) (k : CidKind) (cid : Nat) :
    (cidRemove k s cid).handleCount + occupied s = s.handleCount + occupied (cidRemove k s cid) := by
  unfold cidRemove
  cases hfind : cidFindEntry s cid k with
  | none => rfl
  | some i =>
    obtain ⟨hi, hcid, -, hne⟩ := cidFindEntry_some hfind
    have hpos := occupied_pos hi (hcid ▸ hne)
    have hless := occupied_update (s := s) hi ⟨0, false, 0⟩ (s.handleCount - 1)
    rw [hcid, decide_eq_true hne, decide_eq_false (not_not_intro rfl)] at hless
    dsimp only [Bool.toNat_true, Bool.toNat_false] at hless ⊢
    omega

theorem OneEntry.congr {s' : PsState} (hone : OneEntry s) (h : s'.cidEntries = s.cidEntries) :
    OneEntry s' := by
  unfold OneEntry
  rw [h]
  exact hone

theorem holds_congr {s' : PsState} (h : s'.cidEntries = s.cidEntries) :
    Holds s' k cid body ↔ Holds s k cid body := by
  unfold Holds
  rw [h]

end Entries

/-! ## One step -/

/-- The table is the two maps, and every insert is counted once more than it should be when the id
was there. -/
structure CidInv (w : CidWorld) : Prop where
  one : OneEntry w.ps
  holds : ∀ k cid body, Holds w.ps k cid body ↔ body ≠ 0 ∧ w.last k cid = body
  count : w.ps.handleCount = occupied w.ps + w.again

section Step

variable {w w' : CidWorld} {k : CidKind} {cid body : Nat}

theorem CidWorld.record_apply (w : CidWorld) (k k' : CidKind) (cid c body : Nat) :
    w.record k cid body k' c = if k' = k ∧ c = cid then body else w.last k' c := by
  unfold CidWorld.record
  by_cases hk : k' = k
  · subst hk
    rw [Function.update_self]
    by_cases hc : c = cid
    · rw [hc, Function.update_self, if_pos ⟨rfl, rfl⟩]
    · rw [Function.update_of_ne hc, if_neg fun h => hc h.2]
  · rw [Function.update_of_ne hk, if_neg fun h => hk h.1]

theorem CidInv.lookup (h : CidInv w) (k : CidKind) (cid : Nat) : cidLookup k w.ps cid = w.last k cid := by
  by_cases hnone : cidLookup k w.ps cid = 0
  · by_contra hlast
    rw [hnone] at hlast
    have hholds := (h.holds k cid _).mpr ⟨Ne.symm hlast, rfl⟩
    rw [(cidLookup_iff h.one (Ne.symm hlast)).mpr hholds] at hnone
    exact hlast hnone.symm
  · exact ((h.holds k cid _).mp ((cidLookup_iff h.one hnone).mp rfl)).2.symm

theorem CidInv.last_eq_zero (h : CidInv w) (hfresh : cidFindEntry w.ps cid k = none) :
    w.last k cid = 0 := by
  by_contra hlast
  exact cidFindEntry_none hfresh _ ((h.holds k cid _).mpr ⟨hlast, rfl⟩)

theorem CidInv.last_ne_zero (h : CidInv w) {i : Nat} (hfound : cidFindEntry w.ps cid k = some i) :
    w.last k cid ≠ 0 := by
  obtain ⟨hi, hcid, hkind, hne⟩ := cidFindEntry_some hfound
  obtain ⟨hobject, hlast⟩ := (h.holds k cid _).mp (holds_of_entry hi hcid hne hkind)
  rw [hlast]
  exact hobject

theorem CidInv.insert (h : CidInv w) (k : CidKind) (body : Nat) : CidInv (cidStep w (.insert k body)) := by
  by_cases hskip : body = 0 ∨ w.ps.clientId k body = 0
  · have hrun : cidInsert k w.ps body = (0, w.ps) := if_pos hskip
    unfold cidStep
    dsimp only
    rw [hrun]
    exact h
  obtain ⟨hbody, hid⟩ := not_or.mp hskip
  cases hfind : cidFindEntry w.ps (w.ps.clientId k body) k with
  | some i =>
    obtain ⟨hone, hsuccess, hcount, hoccupied, hholds⟩ := cidInsert_again hfind hbody h.one
    unfold cidStep
    dsimp only
    rw [if_pos hsuccess, if_neg (h.last_ne_zero hfind)]
    refine ⟨hone, fun k' c b => ?_, ?_⟩
    · dsimp only
      rw [hholds, CidWorld.record_apply]
      split
      · exact ⟨fun heq => ⟨heq ▸ hbody, heq.symm⟩, fun heq => heq.2.symm⟩
      · exact h.holds k' c b
    · dsimp only
      rw [hcount, hoccupied, h.count, Nat.add_assoc]
  | none =>
    have hlast := h.last_eq_zero hfind
    obtain ⟨hone, hholds⟩ := cidInsert_holds hfind hbody hid h.one
    rcases cidInsert_fresh hfind hbody hid with ⟨hfree, hsuccess, hcount, hoccupied⟩ | ⟨-, hfull⟩
    · unfold cidStep
      dsimp only
      rw [if_pos hsuccess, if_pos hlast]
      refine ⟨hone, fun k' c b => ?_, ?_⟩
      · dsimp only
        rw [hholds, CidWorld.record_apply, h.holds]
        split
        case isTrue hself =>
          obtain ⟨rfl, rfl⟩ := hself
          rw [hlast]
          constructor
          · rintro (⟨hb, hzero⟩ | ⟨-, -, -, rfl⟩)
            · exact absurd hzero.symm hb
            · exact ⟨hbody, rfl⟩
          · rintro ⟨-, rfl⟩
            exact .inr ⟨hfree, rfl, rfl, rfl⟩
        case isFalse hother =>
          exact or_iff_left fun hnew => hother ⟨hnew.2.1, hnew.2.2.1⟩
      · dsimp only
        rw [hcount, hoccupied, h.count]
        exact Nat.add_right_comm ..
    · unfold cidStep
      dsimp only
      rw [hfull]
      exact h

theorem CidInv.remove (h : CidInv w) (k : CidKind) (cid : Nat) : CidInv (cidStep w (.remove k cid)) := by
  obtain ⟨hone, hholds⟩ := cidRemove_holds h.one k cid
  have hcount := cidRemove_count (s := w.ps) (by rw [h.count]; exact Nat.le_add_right ..) k cid
  refine ⟨hone, fun k' c b => ?_, ?_⟩
  · change Holds (cidRemove k w.ps cid) k' c b ↔ b ≠ 0 ∧ w.record k cid 0 k' c = b
    rw [hholds, h.holds, CidWorld.record_apply]
    split
    case isTrue hself => exact iff_of_false (fun hboth => hboth.2 hself) fun hboth => hboth.1 hboth.2.symm
    case isFalse hother => exact and_iff_left hother
  · change (cidRemove k w.ps cid).handleCount = occupied (cidRemove k w.ps cid) + w.again
    rw [h.count] at hcount
    omega

theorem cidStep_inv (h : CidInv w) {op : CidOp} (hstep : CidStep w op w') : CidInv w' := by
  obtain ⟨hallowed, rfl⟩ := hstep
  cases op with
  | insert k body => exact h.insert k body
  | remove k cid => exact h.remove k cid
  | lookup k cid => exact h
  | outside ps =>
    obtain ⟨hentries, hcount⟩ := hallowed
    have hoccupied : occupied ps = occupied w.ps := by
      unfold occupied
      rw [hentries]
    exact ⟨h.one.congr hentries, fun k cid body => (holds_congr hentries).trans (h.holds k cid body),
      hcount.trans (h.count.trans (congrArg (· + w.again) hoccupied.symm))⟩

end Step

/-! ## Every history -/

theorem cidStart_inv {w : CidWorld} (h : CidStart w) : CidInv w := by
  obtain ⟨hfree, hcount, hlast, hagain⟩ := h
  have hnone : occupied w.ps = 0 := by
    refine List.countP_eq_zero.mpr fun i _ => ?_
    rw [hfree i]
    simp
  refine ⟨fun i j _ _ hne => absurd (by rw [hfree i]) hne, fun k cid body => ?_, ?_⟩
  · rw [hlast]
    refine iff_of_false ?_ fun hboth => hboth.1 hboth.2.symm
    rintro ⟨hne, i, -, hentry⟩
    rw [hfree i, CidEntry.mk.injEq] at hentry
    exact hne hentry.1.symm
  · rw [hcount, hnone, hagain]

theorem cidReach_inv {guard : CidWorld → CidOp → Prop} {w : CidWorld} (h : Reach CidStart CidStep guard w) :
    CidInv w :=
  h.invariant (fun _ => cidStart_inv) fun _ _ _ hw _ hstep => cidStep_inv hw hstep

/-- Without a second insert of an id the counter of those stays where it was. -/
theorem cidReach_again {w : CidWorld} (h : Reach CidStart CidStep CidStepOk w) : w.again = 0 := by
  refine h.invariant (fun _ hw => hw.2.2.2) fun w op w' hw hok hstep => ?_
  obtain ⟨-, rfl⟩ := hstep
  cases op with
  | insert k body =>
    unfold cidStep
    dsimp only
    split
    · exact (if_pos hok).trans hw
    · exact hw
  | remove k cid => exact hw
  | lookup k cid => exact hw
  | outside ps => exact hw

/-- The two maps, and the count that the inserts of an id already there spoil. It is an `int32_t`. -/
theorem cid_table_maps (w : CidWorld) (h : Reach CidStart CidStep (fun _ _ => True) w) :
    OneEntry w.ps ∧ (∀ k cid, cidLookup k w.ps cid = w.last k cid) ∧
      (w.again + cidMaxEntries < 2 ^ 31 → w.ps.handleCount = occupied w.ps + w.again) ∧
      (Reach CidStart CidStep CidStepOk w → w.ps.handleCount = occupied w.ps) := by
  have hw := cidReach_inv h
  refine ⟨hw.one, hw.lookup, fun _ => hw.count, fun hok => ?_⟩
  rw [hw.count, cidReach_again hok, Nat.add_zero]

/-- A process with id 4 at 200, before anything is in the table. -/
def cidBooted : CidWorld :=
  { ps :=
      { objType := fun _ => 0
        sAll := []
        process := fun _ => ⟨4, 0, 0, 0, false, 0⟩
        thread := fun _ => ⟨4, 0, 0, false⟩
        cidEntries := fun _ => ⟨0, false, 0⟩
        handleCount := 0
        sNextPid := 4
        sNextTid := 4
        sTid := 0
        running := [] }
    last := fun _ _ => 0
    again := 0 }

theorem cidBooted_start : CidStart cidBooted := ⟨fun _ => rfl, rfl, fun _ _ => rfl, rfl⟩

theorem cid_table_maps_one : cidLookupProcess (cidStep cidBooted (.insert .process 200)).ps 4 = 200 ∧
    (cidStep cidBooted (.insert .process 200)).ps.handleCount =
      occupied (cidStep cidBooted (.insert .process 200)).ps := by
  have hok : Reach CidStart CidStep CidStepOk (cidStep cidBooted (.insert .process 200)) :=
    .step (a := .insert .process 200) (.start cidBooted_start) rfl ⟨trivial, rfl⟩
  obtain ⟨-, hlookup, -, hcount⟩ := cid_table_maps _ (hok.mono fun _ _ _ => trivial)
  have hlast : (cidStep cidBooted (.insert .process 200)).last .process 4 = 200 := by decide +kernel
  exact ⟨(hlookup .process 4).trans hlast, hcount hok⟩

/-- The same process inserted twice is counted twice. -/
theorem cid_count_spoiled : ∃ w, Reach CidStart CidStep (fun _ _ => True) w ∧ OneEntry w.ps ∧
    occupied w.ps = 1 ∧ w.ps.handleCount = 2 := by
  have hreach : Reach CidStart CidStep (fun _ _ => True)
      (cidStep (cidStep cidBooted (.insert .process 200)) (.insert .process 200)) :=
    .step (a := .insert .process 200) (.step (a := .insert .process 200) (.start cidBooted_start) trivial
      ⟨trivial, rfl⟩) trivial ⟨trivial, rfl⟩
  have hoccupied : occupied (cidStep (cidStep cidBooted (.insert .process 200))
      (.insert .process 200)).ps = 1 := by decide +kernel
  have hcount : (cidStep (cidStep cidBooted (.insert .process 200))
      (.insert .process 200)).ps.handleCount = 2 := by decide +kernel
  exact ⟨_, hreach, (cidReach_inv hreach).one, hoccupied, hcount⟩

end MeuOS.Ps
