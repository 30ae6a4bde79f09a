import MeuOS.Cm.HiveMap

/-! The calls that write to the registry, for every outcome of the allocations in them: what is
left of a call that reports failure, and what is there after one that reports success. -/
namespace MeuOS.Cm

open MeuOS.Lib

namespace Hive

/-! ## The services

A handle is taken for the key that `ob_handle_to_object` makes of it, 0 if it makes none. -/

def ntSetValueKey (h : Hive) (k : Nat) (valueName : Option UnicodeString) (type : UInt32)
    (data : Option Mem) (dataSize : UInt32) : Hive × Nat :=
  if k = 0 then (h, statusInvalidHandle)
  else
    let (h, v) := h.regSetValue k (uniToAscii valueName maxName) type data dataSize
    (h, if v then statusSuccess else statusNoMemory)

def baseKey (h : Hive) (oa : ObjectAttributes) : Nat :=
  if oa.rootDirectory = 0 then h.sRoot else oa.rootDirectory

def ntCreateKey (h : Hive) (keyHandle disposition : Bool) (oa : Option ObjectAttributes) :
    Hive × KeyReply :=
  match keyHandle, oa.bind fun oa => oa.objectName.map fun name => (oa, name) with
  | true, some (oa, name) =>
      let (_, existed) := h.regResolvePath (h.baseKey oa) (pathOf name) false
      let (h, k) := h.regResolvePath (h.baseKey oa) (pathOf name) true
      if k = 0 then (h, { status := statusUnsuccessful })
      else (h, { status := statusSuccess, keyHandle := some k
                 disposition := if disposition then some (if existed ≠ 0 then 2 else 1) else none })
  | _, _ => (h, { status := statusInvalidParameter })

/-- The key goes out of the list of its parent, and stays in memory. -/
def ntDeleteKey (h : Hive) (k : Nat) : Hive × Nat :=
  if k = 0 ∨ (h.keys k).parent = 0 then (h, statusInvalidHandle)
  else
    let p := (h.keys k).parent
    (h.setKey p { h.keys p with children := (h.keys p).children.erase k }, statusSuccess)

def ntDeleteValueKey (h : Hive) (k : Nat) (valueName : Option UnicodeString) : Hive × Nat :=
  if k = 0 then (h, statusInvalidHandle)
  else
    let name := uniToAscii valueName maxName
    if (h.regFindValue k name).isNone then (h, statusObjectNameNotFound)
    else (h.setValues k ((h.keys k).values.eraseP fun v => strcmpci v.name.chars name = 0), statusSuccess)

/-! ## What is stored -/

/-- A value has its bytes. -/
def ValueOk (v : RegValue) : Prop := v.size = 0 ∨ v.data.isSome = true

structure Intact (h : Hive) : Prop where
  sound : h.Sound
  values : ∀ k, ∀ v ∈ (h.keys k).values, ValueOk v

variable {h h' : Hive} {k : Nat} {name : List UInt8} {type size : UInt32} {data : Option Mem}

theorem Intact.grows (hi : Intact h) (hs : h'.Sound) (hg : Grows h h') : Intact h' := by
  refine ⟨hs, fun k v hv => ?_⟩
  by_cases hk : k ≤ h.mallocs
  · rw [(hg.kept k hk).2.2] at hv
    exact hi.values k v hv
  · rw [hg.new k (Nat.lt_of_not_le hk)] at hv
    exact absurd hv List.not_mem_nil

/-- The blocks a value needs are there, or the record is not. -/
def ValueFits (h : Hive) (k : Nat) (name : List UInt8) (size : UInt32) : Prop :=
  if (h.regFindValue k name).isSome then size = 0 ∨ h.granted h.mallocs = true
  else h.granted h.mallocs = false ∨
    name.length < maxName ∧ (size = 0 ∨ h.granted (h.mallocs + 1) = true)

/-- The whole value is there under its name. -/
def Shown (h : Hive) (k : Nat) (name : List UInt8) (type : UInt32) (data : Option Mem)
    (size : UInt32) : Prop :=
  ∃ v, h.regFindValue k name = some v ∧ SetRecord.Kept ⟨[], name, type, size, data⟩ v

/-- A failure leaves every key and value, a success the whole value. -/
def SetWhole (h : Hive) (k : Nat) (name : List UInt8) (type : UInt32) (data : Option Mem)
    (size : UInt32) (r : Hive × Bool) : Prop :=
  (r.2 = false → r.1.keys = h.keys) ∧ (r.2 = true → Shown r.1 k name type data size)

/-- A long name is not found. -/
theorem findValue_short {v : RegValue} (hv : h.regFindValue k name = some v) : name.length < maxName := by
  have hsame : SameName v.name.chars name :=
    strcmpci_eq_zero.1 (of_decide_eq_true (List.find?_some (p := fun v : RegValue =>
      decide (strcmpci v.name.chars name = 0)) hv))
  have hlength := congrArg List.length hsame
  rw [List.length_map, List.length_map] at hlength
  exact hlength ▸ v.name.fits

theorem regFindValue_setValues (h : Hive) (k : Nat) (values : List RegValue) (n : List UInt8) :
    (h.setValues k values).regFindValue k n = values.find? fun v => strcmpci v.name.chars n = 0 := by
  unfold regFindValue
  rw [(keys_setValues h k values k).2.2, if_pos rfl]

/-- The block for the data makes the difference. -/
theorem kept_block_iff (name : List UInt8) (cut : RecordName) {n : Nat} {p : Option Mem}
    (hp : p = if size ≠ 0 ∧ h.granted n = true then some (data.getD (h.leftover n)) else none) :
    SetRecord.Kept ⟨[], name, type, size, data⟩ ⟨cut, type, size, p⟩ ↔
      size = 0 ∨ h.granted n = true := by
  by_cases hsize : size = 0
  · exact iff_of_true ⟨rfl, rfl, .inl hsize⟩ (.inl hsize)
  by_cases hgranted : h.granted n = true
  · rw [if_pos ⟨hsize, hgranted⟩] at hp
    exact iff_of_true ⟨rfl, rfl, .inr ⟨_, hp, fun d hd => by rw [show data = some d from hd]; rfl⟩⟩
      (.inr hgranted)
  · rw [if_neg fun hboth => hgranted hboth.2] at hp
    refine iff_of_false (fun hkept => ?_) (fun hor => hor.elim hsize hgranted)
    rcases hkept.data with hzero | ⟨d, hd, -⟩
    · exact hsize hzero
    · rw [show p = some d from hd] at hp
      cases hp

theorem setWhole_iff (hi : Intact h) (k : Nat) (name : List UInt8) (type : UInt32) (data : Option Mem)
    (size : UInt32) :
    SetWhole h k name type data size (h.regSetValue k name type data size) ↔ ValueFits h k name size := by
  unfold SetWhole ValueFits Shown
  have hset := regSetValue_set h k name type data size
  generalize h.regSetValue k name type data size = r at hset ⊢
  cases hset with
  | old h₁ p hfound hp hkeys hroot hgranted hmallocs =>
    obtain ⟨v, hv⟩ := Option.isSome_iff_exists.1 hfound
    have hread : (h₁.setValues k (onValue name (fun v => ⟨v.name, type, size, p⟩) (h.keys k).values)).regFindValue
        k name = some ⟨v.name, type, size, p⟩ := by
      rw [regFindValue_setValues, find?_onValue (f := fun v => ⟨v.name, type, size, p⟩) fun _ => rfl,
        if_pos (show SameName name name from rfl)]
      unfold regFindValue at hv
      rw [hv]
      rfl
    rw [hread, if_pos hfound, ← kept_block_iff name v.name hp]
    constructor
    · rintro ⟨-, hshown⟩
      obtain ⟨w, hw, hkept⟩ := hshown rfl
      obtain rfl := Option.some.inj hw
      exact hkept
    · exact fun hkept => ⟨fun hfalse => (Bool.false_ne_true hfalse.symm).elim, fun _ => ⟨_, rfl, hkept⟩⟩
  | full hfound hnone =>
    rw [if_neg (by rw [hfound]; exact Bool.false_ne_true)]
    exact iff_of_true ⟨fun _ => rfl, fun htrue => (Bool.false_ne_true htrue).elim⟩ (.inl hnone)
  | new h₁ p hfound hsome hp hkeys hroot hgranted hmallocs =>
    rw [if_neg (by rw [hfound]; exact Bool.false_ne_true), regFindValue_setValues, List.find?_cons]
    by_cases hshort : name.length < maxName
    · have hwhole := strcpyn_whole hshort
      have hnamed : strcmpci (stored name type size p).name.chars name = 0 := by
        unfold stored
        rw [hwhole]
        exact strcmpci_eq_zero.2 rfl
      rw [decide_eq_true hnamed, hsome,
        ← kept_block_iff name (strcpyn name) hp]
      constructor
      · rintro ⟨-, hshown⟩
        obtain ⟨w, hw, hkept⟩ := hshown rfl
        obtain rfl := Option.some.inj hw
        exact .inr ⟨hshort, hkept⟩
      · rintro (hfalse | ⟨-, hkept⟩)
        · exact (Bool.false_ne_true hfalse.symm).elim
        · exact ⟨fun hfalse => (Bool.false_ne_true hfalse.symm).elim, fun _ => ⟨_, rfl, hkept⟩⟩
    · refine iff_of_false ?_ ?_
      · rintro ⟨-, hshown⟩
        obtain ⟨w, hw, -⟩ := hshown rfl
        have hlate : strcmpci (stored name type size p).name.chars name ≠ 0 := by
          rw [Ne, strcmpci_eq_zero]
          intro hsame
          have hlength := congrArg List.length hsame
          rw [List.length_map, List.length_map] at hlength
          exact hshort (hlength ▸ (strcpyn name).fits)
        rw [decide_eq_false hlate] at hw
        exact hshort (findValue_short hw)
      · rintro (hfalse | ⟨hshort', -⟩)
        · rw [hsome] at hfalse
          exact (Bool.false_ne_true hfalse.symm).elim
        · exact hshort hshort'

theorem mem_onValue {f : RegValue → RegValue} {l : List RegValue} {v : RegValue}
    (hv : v ∈ onValue name f l) : v ∈ l ∨ ∃ w ∈ l, v = f w := by
  induction l with
  | nil => exact absurd hv List.not_mem_nil
  | cons w l ih =>
    unfold onValue at hv
    by_cases hw : strcmpci w.name.chars name = 0
    · rw [if_pos hw] at hv
      rcases List.mem_cons.1 hv with rfl | hv
      · exact .inr ⟨w, List.mem_cons_self, rfl⟩
      · exact .inl (List.mem_cons_of_mem _ hv)
    · rw [if_neg hw] at hv
      rcases List.mem_cons.1 hv with rfl | hv
      · exact .inl List.mem_cons_self
      · rcases ih hv with hold | ⟨u, hu, heq⟩
        · exact .inl (List.mem_cons_of_mem _ hold)
        · exact .inr ⟨u, List.mem_cons_of_mem _ hu, heq⟩

/-- Other values on a key, all of them whole. -/
theorem Intact.setValues (hi : Intact h) (hk : k ≤ h.mallocs) (hkeys : h'.keys = h.keys)
    (hroot : h'.sRoot = h.sRoot) (hmallocs : h.mallocs ≤ h'.mallocs) {values : List RegValue}
    (hvalues : ∀ v ∈ values, ValueOk v) : Intact (h'.setValues k values) := by
  refine ⟨setValues_sound (hi.sound.of_keys hkeys hroot hmallocs) (Nat.le_trans hk hmallocs) values, fun j v hv => ?_⟩
  rw [(keys_setValues h' k values j).2.2] at hv
  by_cases hj : j = k
  · rw [if_pos hj] at hv
    exact hvalues v hv
  · rw [if_neg hj, hkeys] at hv
    exact hi.values j v hv

/-- A value that was set with all its blocks. -/
theorem Intact.set (hi : Intact h) (hk : k ≤ h.mallocs) (hfits : ValueFits h k name size) :
    Intact (h.regSetValue k name type data size).1 := by
  unfold ValueFits at hfits
  have hset := regSetValue_set h k name type data size
  generalize h.regSetValue k name type data size = r at hset ⊢
  have hblock : ∀ {n : Nat} {p : Option Mem},
      (p = if size ≠ 0 ∧ h.granted n = true then some (data.getD (h.leftover n)) else none) →
      (size = 0 ∨ h.granted n = true) → size = 0 ∨ p.isSome = true := by
    intro n p hp hor
    by_cases hsize : size = 0
    · exact .inl hsize
    · rw [hp, if_pos ⟨hsize, hor.resolve_left hsize⟩]
      exact .inr rfl
  cases hset with
  | old h₁ p hfound hp hkeys hroot hgranted hmallocs =>
    rw [if_pos hfound] at hfits
    refine hi.setValues hk hkeys hroot hmallocs fun v hv => ?_
    rcases mem_onValue hv with hold | ⟨w, hw, rfl⟩
    · exact hi.values k v hold
    · exact hblock hp hfits
  | full hfound hnone => exact hi.grows (kmalloc_sound hi.sound) (kmalloc_grows hi.sound)
  | new h₁ p hfound hsome hp hkeys hroot hgranted hmallocs =>
    rw [if_neg (by rw [hfound]; exact Bool.false_ne_true)] at hfits
    refine hi.setValues hk hkeys hroot hmallocs fun v hv => ?_
    rcases List.mem_cons.1 hv with rfl | hold
    · refine hblock hp ?_
      rcases hfits with hfalse | ⟨-, hor⟩
      · rw [hsome] at hfalse
        exact (Bool.false_ne_true hfalse.symm).elim
      · exact hor
    · exact hi.values k v hold

/-! ## Keys along a path -/

/-- How many keys a walk has to make. -/
def missing (h : Hive) : Nat → List (List UInt8) → Nat
  | _, [] => 0
  | k, name :: rest =>
      if h.regFindChild k name = 0 then rest.length + 1 else missing h (h.regFindChild k name) rest

/-- All the keys of the walk are there, or none can be made, or all of them can. -/
def KeysFit (h : Hive) (k : Nat) (names : List (List UInt8)) : Prop :=
  h.missing k names = 0 ∨ h.granted h.mallocs = false ∨
    ∀ i < h.missing k names, h.granted (h.mallocs + i) = true

/-- What a walk that makes keys comes to. -/
inductive Walked (h : Hive) (k : Nat) (names : List (List UInt8)) : Hive × Nat → Prop
  | found (hmissing : h.missing k names = 0) : Walked h k names (h, h.find k names)
  | full (hmissing : h.missing k names ≠ 0) (hnone : h.granted h.mallocs = false) (h' : Hive)
      (hkeys : h'.keys = h.keys) : Walked h k names (h', 0)
  | part (hmissing : h.missing k names ≠ 0) (hsome : h.granted h.mallocs = true)
      (hlack : ∃ i < h.missing k names, h.granted (h.mallocs + i) = false) (h' : Hive)
      (hkeys : h'.keys ≠ h.keys) : Walked h k names (h', 0)
  | made (hmissing : h.missing k names ≠ 0)
      (hall : ∀ i < h.missing k names, h.granted (h.mallocs + i) = true) (h' : Hive) (k' : Nat)
      (hkeys : h'.keys ≠ h.keys) (hmallocs : h'.mallocs = h.mallocs + h.missing k names)
      (hnew : h.mallocs < k') : Walked h k names (h', k')

/-- A child that was not there before. -/
theorem Grows.keys_ne (hg : Grows h h') {k : Nat} (hk : k ≤ h.mallocs)
    {g : Hive} (hnone : g.regFindChild k name = 0) (hfound : h.regFindChild k name ≠ 0) :
    h'.keys ≠ g.keys := by
  intro hkeys
  have hsame := hg.found k hk name hfound
  have hchild : h'.regFindChild k name = g.regFindChild k name :=
    regFindChild_congr (by rw [hkeys]) fun c _ => by rw [hkeys]
  rw [← hsame, hchild] at hfound
  exact hfound hnone

theorem missing_leaf {h : Hive} {k : Nat} (hleaf : (h.keys k).children = []) (names : List (List UInt8)) :
    h.missing k names = names.length := by
  cases names with
  | nil => rfl
  | cons n rest =>
    have hnone : h.regFindChild k n = 0 := by
      unfold regFindChild
      rw [hleaf]
      rfl
    unfold missing
    rw [if_pos hnone]
    rfl

theorem find_of_missing {names : List (List UInt8)} (hk : k ≠ 0) (hnone : h.missing k names = 0) :
    h.find k names ≠ 0 := by
  induction names generalizing k with
  | nil => exact hk
  | cons n rest ih =>
    unfold missing at hnone
    unfold find
    by_cases hchild : h.regFindChild k n = 0
    · rw [if_pos hchild] at hnone
      exact absurd hnone (Nat.succ_ne_zero _)
    · rw [if_neg hchild] at hnone ⊢
      exact ih hchild hnone

theorem resolve_walked (names : List (List UInt8)) (hs : h.Sound) (hk : k ≤ h.mallocs)
    (hshort : ∀ n ∈ names, n.length < maxName) : Walked h k names (resolve true h k names) := by
  induction names generalizing h k with
  | nil => exact .found rfl
  | cons name rest ih =>
    have hfirst : name.length < maxName := hshort name List.mem_cons_self
    have hrest : ∀ n ∈ rest, n.length < maxName := fun n hn => hshort n (List.mem_cons_of_mem _ hn)
    unfold resolve
    rw [if_pos rfl]
    rcases regGetOrCreateChild_cases h k name with ⟨hne, heq⟩ | ⟨hnone, hfull, heq⟩ | ⟨hnone, hsome, heq⟩
    · rw [heq]
      dsimp only
      rw [if_neg hne]
      have hmissing : h.missing k (name :: rest) = h.missing (h.regFindChild k name) rest := if_neg hne
      have hfind : h.find k (name :: rest) = h.find (h.regFindChild k name) rest := if_neg hne
      have hwalk := ih hs (hs.child_le k name) hrest
      generalize resolve true h (h.regFindChild k name) rest = r at hwalk ⊢
      cases hwalk with
      | found hm =>
        rw [← hfind]
        exact .found (hmissing.trans hm)
      | full hm hnone h' hkeys => exact .full (hmissing ▸ hm) hnone h' hkeys
      | part hm hsome hlack h' hkeys => exact .part (hmissing ▸ hm) hsome (hmissing ▸ hlack) h' hkeys
      | made hm hall h' k' hkeys hmallocs hnew =>
        exact .made (hmissing ▸ hm) (hmissing ▸ hall) h' k' hkeys (hmissing ▸ hmallocs) hnew
    · rw [heq]
      exact .full (by unfold missing; rw [if_pos hnone]; exact Nat.succ_ne_zero _) hfull _ rfl
    · rw [heq]
      dsimp only
      rw [if_neg (Nat.succ_ne_zero _)]
      have hs₁ := withChild_sound hs hk name
      have hwhole := strcpyn_whole hfirst
      have hchild : (h.withChild k name).regFindChild k name ≠ 0 := by
        rw [regFindChild_withChild hs hk, if_pos ⟨rfl, congrArg _ hwhole⟩]
        exact Nat.succ_ne_zero _
      have hmissing : h.missing k (name :: rest) = rest.length + 1 := if_pos hnone
      have hleaf : (h.withChild k name).missing (h.mallocs + 1) rest = rest.length :=
        missing_leaf (by rw [keys_withChild hk, if_pos rfl]) rest
      have hgrows := (resolve_made rest hs₁ (Nat.le_refl (h.mallocs + 1)) hrest).grows
      have hwalk := ih hs₁ (Nat.le_refl (h.mallocs + 1)) hrest
      generalize resolve true (h.withChild k name) (h.mallocs + 1) rest = r at hgrows hwalk ⊢
      have hkeys : r.1.keys ≠ h.keys := hgrows.keys_ne (Nat.le_succ_of_le hk) hnone hchild
      have hne : h.missing k (name :: rest) ≠ 0 := by
        rw [hmissing]
        exact Nat.succ_ne_zero _
      cases hwalk with
      | found hm =>
        rw [hleaf] at hm
        obtain rfl := List.length_eq_zero_iff.1 hm
        refine .made hne (fun i hi => ?_) _ _ hkeys (by rw [hmissing]; rfl) (Nat.lt_succ_self _)
        rw [hmissing] at hi
        obtain rfl : i = 0 := by simp only [List.length_nil] at hi; omega
        exact hsome
      | full hm hfull h' hsame =>
        refine .part hne hsome ⟨1, ?_, hfull⟩ h' hkeys
        rw [hleaf] at hm
        omega
      | part hm hsome' hlack h' hsame =>
        obtain ⟨i, hi, hfull⟩ := hlack
        rw [hleaf] at hi
        refine .part hne hsome ⟨i + 1, by omega, ?_⟩ h' hkeys
        rw [← hfull, show h.mallocs + (i + 1) = (h.withChild k name).mallocs + i from
          (Nat.add_right_comm h.mallocs 1 i ▸ rfl)]
        rfl
      | made hm hall h' k' hsame hmallocs hnew =>
        rw [hleaf] at hall hmallocs
        refine .made hne (fun i hi => ?_) h' k' hkeys ?_ (Nat.lt_of_succ_lt hnew)
        · cases i with
          | zero => exact hsome
          | succ i =>
            rw [← hall i (by omega), show h.mallocs + (i + 1) = (h.withChild k name).mallocs + i from
              (Nat.add_right_comm h.mallocs 1 i ▸ rfl)]
            rfl
        · rw [hmallocs, hmissing, show (h.withChild k name).mallocs = h.mallocs + 1 from rfl]
          omega

/-! ## All or nothing -/

inductive WriteCall
  | setAscii (keypath valuename : CString) (type : UInt32) (data : Option Mem) (size : UInt32)
  | setValueKey (k : Nat) (valueName : Option UnicodeString) (type : UInt32) (data : Option Mem)
      (size : UInt32)
  | createKey (keyHandle disposition : Bool) (oa : Option ObjectAttributes)

/-- Handles are for keys that were made. -/
def WriteCall.Valid (h : Hive) : WriteCall → Prop
  | .setAscii _ _ _ _ _ => True
  | .setValueKey k _ _ _ _ => k ≤ h.mallocs
  | .createKey _ _ oa => ∀ o, oa = some o → o.rootDirectory ≤ h.mallocs

/-- The hive after the call, and whether it reports success. -/
def WriteCall.run (h : Hive) : WriteCall → Hive × Bool
  | .setAscii keypath valuename type data size => h.registrySetValueAscii keypath valuename type data size
  | .setValueKey k valueName type data size =>
      let (h, status) := h.ntSetValueKey k valueName type data size
      (h, status = statusSuccess)
  | .createKey keyHandle disposition oa =>
      let (h, reply) := h.ntCreateKey keyHandle disposition oa
      (h, reply.status = statusSuccess)

/-- What a successful call was for is seen by the queries. -/
def WriteCall.Visible (h : Hive) : WriteCall → Prop
  | .setAscii keypath valuename type data size =>
      (h.regResolvePath h.sRoot keypath.chars false).2 ≠ 0 ∧
        Shown h (h.regResolvePath h.sRoot keypath.chars false).2 valuename.chars type data size
  | .setValueKey k valueName type data size => Shown h k (uniToAscii valueName maxName) type data size
  | .createKey _ _ oa => ∃ o name, oa = some o ∧ o.objectName = some name ∧
      (h.regResolvePath (h.baseKey o) (pathOf name) false).2 ≠ 0

/-- A call that fails leaves all keys and values as they were, and one that succeeds is seen. -/
def WriteCall.Whole (h : Hive) (c : WriteCall) : Prop :=
  ((c.run h).2 = false → (c.run h).1.keys = h.keys) ∧ ((c.run h).2 = true → c.Visible (c.run h).1)

/-- The allocations that a call makes are all granted, or the first one is not. -/
def WriteCall.Allocated (h : Hive) : WriteCall → Prop
  | .setAscii keypath valuename _ _ size =>
      let names := components keypath.chars
      if h.missing h.sRoot names = 0 then ValueFits h (h.find h.sRoot names) valuename.chars size
      else h.granted h.mallocs = false ∨
        (∀ i ≤ h.missing h.sRoot names, h.granted (h.mallocs + i) = true) ∧
          valuename.chars.length < maxName ∧
          (size = 0 ∨ h.granted (h.mallocs + h.missing h.sRoot names + 1) = true)
  | .setValueKey k valueName _ _ size => k = 0 ∨ ValueFits h k (uniToAscii valueName maxName) size
  | .createKey keyHandle _ oa => ∀ o name, keyHandle = true → oa = some o → o.objectName = some name →
      KeysFit h (h.baseKey o) (components (pathOf name))

theorem uniToAscii_terminated (u : Option UnicodeString) (max : Nat) : 0 ∉ uniToAscii u max := by
  unfold uniToAscii
  split
  · intro h0
    unfold cstr at h0
    simpa using List.mem_takeWhile_imp h0
  · exact List.not_mem_nil

theorem components_short {path : List UInt8} (hpath : 0 ∉ path) :
    ∀ n ∈ components path, n.length < maxName := fun n hn => (components_names hpath n hn).1

/-- Without bytes in the way a value's record can be made, or not. -/
theorem regFindValue_new (hnone : (h.keys k).values = []) (name : List UInt8) :
    h.regFindValue k name = none := by
  unfold regFindValue
  rw [hnone]
  rfl

/-- What a set keeps, and when it fails. -/
structure SetKeeps (h : Hive) (k : Nat) (name : List UInt8) (r : Hive × Bool) : Prop where
  root : r.1.sRoot = h.sRoot
  find : ∀ j names, r.1.find j names = h.find j names
  keys : r.2 = false → r.1.keys = h.keys
  failed : r.2 = false ↔ (h.regFindValue k name).isSome = false ∧ h.granted h.mallocs = false

theorem regSetValue_keeps (h : Hive) (k : Nat) (name : List UInt8) (type : UInt32) (data : Option Mem)
    (size : UInt32) : SetKeeps h k name (h.regSetValue k name type data size) := by
  have hset := regSetValue_set h k name type data size
  generalize h.regSetValue k name type data size = r at hset ⊢
  have hfind : ∀ (h₁ : Hive) (values : List RegValue), h₁.keys = h.keys →
      ∀ j names, (h₁.setValues k values).find j names = h.find j names :=
    fun h₁ values hkeys j names => (find_setValues h₁ k values j names).trans (find_of_keys hkeys j names)
  cases hset with
  | old h₁ p hfound hp hkeys hroot hgranted hmallocs =>
    exact ⟨hroot, hfind h₁ _ hkeys, fun hfalse => (Bool.false_ne_true hfalse.symm).elim,
      iff_of_false (Bool.false_ne_true ∘ Eq.symm) fun hboth => Bool.false_ne_true (hboth.1.symm.trans hfound)⟩
  | full hfound hnone =>
    exact ⟨rfl, fun j names => find_of_keys (show h.kmalloc.1.keys = h.keys from rfl) j names, fun _ => rfl, iff_of_true rfl ⟨hfound, hnone⟩⟩
  | new h₁ p hfound hsome hp hkeys hroot hgranted hmallocs =>
    exact ⟨hroot, hfind h₁ _ hkeys, fun hfalse => (Bool.false_ne_true hfalse.symm).elim,
      iff_of_false (Bool.false_ne_true ∘ Eq.symm) fun hboth => Bool.false_ne_true (hboth.2.symm.trans hsome)⟩

theorem regResolvePath_true (hroot : k ≠ 0) (path : List UInt8) :
    h.regResolvePath k path true = resolve true h k (components path) := by
  unfold regResolvePath
  rw [if_neg hroot]
  dsimp only
  rw [if_neg hroot]

/-- The key is found by the path, so its value decides. -/
theorem visible_iff {keypath valuename : CString} {r : Hive × Bool} (hk : k ≠ 0) (hroot : h.sRoot ≠ 0)
    (hfound : h.find h.sRoot (components keypath.chars) = k)
    (hkeeps : SetKeeps h k valuename.chars r) :
    (WriteCall.setAscii keypath valuename type data size).Visible r.1 ↔
      Shown r.1 k valuename.chars type data size := by
  unfold WriteCall.Visible
  dsimp only
  rw [hkeeps.root, regResolvePath_false hroot, hkeeps.find, hfound]
  exact and_iff_right hk

theorem setAscii_whole (hi : Intact h) (keypath valuename : CString) (type : UInt32) (data : Option Mem)
    (size : UInt32) :
    WriteCall.Whole h (.setAscii keypath valuename type data size) ↔
      WriteCall.Allocated h (.setAscii keypath valuename type data size) := by
  have hroot : h.sRoot ≠ 0 := Nat.ne_of_gt hi.sound.root.1
  have hshort := components_short keypath.terminated
  have hmade := resolve_made (components keypath.chars) hi.sound hi.sound.root.2 hshort
  have hwalk := resolve_walked (components keypath.chars) hi.sound hi.sound.root.2 hshort
  unfold WriteCall.Whole WriteCall.Allocated WriteCall.run registrySetValueAscii
  dsimp only
  rw [regResolvePath_true hroot]
  generalize resolve true h h.sRoot (components keypath.chars) = r at hmade hwalk ⊢
  cases hwalk with
  | found hm =>
    have hne := find_of_missing hroot hm
    dsimp only at hmade ⊢
    rw [if_pos hm, if_neg hne, ← setWhole_iff hi _ valuename.chars type data size]
    unfold SetWhole
    rw [visible_iff hne hroot rfl (regSetValue_keeps h _ _ _ _ _)]
  | full hm hnone h' hkeys =>
    dsimp only
    rw [if_pos rfl, if_neg hm]
    exact iff_of_true ⟨fun _ => hkeys, fun htrue => (Bool.false_ne_true htrue).elim⟩ (.inl hnone)
  | part hm hsome hlack h' hkeys =>
    dsimp only
    rw [if_pos rfl, if_neg hm]
    refine iff_of_false (fun hwhole => hkeys (hwhole.1 rfl)) ?_
    obtain ⟨i, hi, hfull⟩ := hlack
    rintro (hnone | ⟨hall, -⟩)
    · exact Bool.false_ne_true (hnone.symm.trans hsome)
    · exact Bool.false_ne_true (hfull.symm.trans (hall i (Nat.le_of_lt hi)))
  | made hm hall h' k' hkeys hmallocs hnew =>
    dsimp only at hmade ⊢
    have hne : k' ≠ 0 := by omega
    have hi' := hi.grows hmade.sound hmade.grows
    have hfound : h'.find h'.sRoot (components keypath.chars) = k' := by
      rw [hmade.grows.root]
      exact hmade.found hne
    have hunset : (h'.regFindValue k' valuename.chars).isSome = false := by
      rw [regFindValue_new (hmade.grows.new k' hnew)]
      rfl
    have hkeeps := regSetValue_keeps h' k' valuename.chars type data size
    have hfits := setWhole_iff hi' k' valuename.chars type data size
    unfold SetWhole ValueFits at hfits
    rw [hunset, if_neg Bool.false_ne_true, hmallocs, hmade.grows.granted] at hfits
    have hfailed := hkeeps.failed
    rw [hmallocs, hmade.grows.granted, and_iff_right hunset] at hfailed
    rw [if_neg hne, if_neg hm, visible_iff hne (hmade.grows.root ▸ hroot) hfound hkeeps]
    cases hlast : h.granted (h.mallocs + h.missing h.sRoot (components keypath.chars)) with
    | false =>
      have hfalse := hfailed.2 hlast
      refine iff_of_false (fun hwhole => hkeys ((hkeeps.keys hfalse).symm.trans (hwhole.1 hfalse))) ?_
      rintro (hnone | ⟨hgranted, -⟩)
      · have hfirst := hall 0 (Nat.pos_of_ne_zero hm)
        exact Bool.false_ne_true (hnone.symm.trans hfirst)
      · exact Bool.false_ne_true (hlast.symm.trans (hgranted _ (Nat.le_refl _)))
    | true =>
      have hdone : ¬ (h'.regSetValue k' valuename.chars type data size).2 = false := fun hfalse =>
        Bool.false_ne_true ((hfailed.1 hfalse).symm.trans hlast)
      rw [hlast] at hfits
      have hshown := and_iff_right_of_imp (a := (h'.regSetValue k' valuename.chars type data size).2 = false →
        (h'.regSetValue k' valuename.chars type data size).1.keys = h'.keys)
        (b := (h'.regSetValue k' valuename.chars type data size).2 = true →
          Shown (h'.regSetValue k' valuename.chars type data size).1 k' valuename.chars type data size)
        fun _ hfalse => absurd hfalse hdone
      rw [hshown] at hfits
      constructor
      · rintro ⟨-, hvisible⟩
        obtain ⟨hname, hdata⟩ := (hfits.1 hvisible).resolve_left (Bool.false_ne_true ∘ Eq.symm)
        refine .inr ⟨fun i hi => ?_, hname, hdata⟩
        rcases Nat.lt_or_eq_of_le hi with hlt | rfl
        · exact hall i hlt
        · exact hlast
      · rintro (hnone | ⟨-, hname, hdata⟩)
        · have hfirst := hall 0 (Nat.pos_of_ne_zero hm)
          exact (Bool.false_ne_true (hnone.symm.trans hfirst)).elim
        · exact ⟨fun hfalse => absurd hfalse hdone, hfits.2 (.inr ⟨hname, hdata⟩)⟩

theorem setValueKey_whole (hi : Intact h) (k : Nat) (valueName : Option UnicodeString) (type : UInt32)
    (data : Option Mem) (size : UInt32) :
    WriteCall.Whole h (.setValueKey k valueName type data size) ↔
      WriteCall.Allocated h (.setValueKey k valueName type data size) := by
  unfold WriteCall.Whole WriteCall.Allocated WriteCall.run WriteCall.Visible ntSetValueKey
  dsimp only
  by_cases hk : k = 0
  · rw [if_pos hk]
    have hno : decide (statusInvalidHandle = statusSuccess) = false := by decide
    exact iff_of_true ⟨fun _ => rfl, fun htrue => (Bool.false_ne_true (hno.symm.trans htrue)).elim⟩ (.inl hk)
  · rw [if_neg hk, or_iff_right hk, ← setWhole_iff hi k _ type data size]
    unfold SetWhole
    dsimp only
    have hstatus : ∀ b : Bool, decide ((if b then statusSuccess else statusNoMemory) = statusSuccess) = b := by
      decide
    rw [hstatus]

/-- Where a path starts. -/
theorem baseKey_valid (hs : h.Sound) {oa : ObjectAttributes} (hvalid : oa.rootDirectory ≤ h.mallocs) :
    h.baseKey oa ≠ 0 ∧ h.baseKey oa ≤ h.mallocs := by
  unfold baseKey
  by_cases hdir : oa.rootDirectory = 0
  · rw [if_pos hdir]
    exact ⟨Nat.ne_of_gt hs.root.1, hs.root.2⟩
  · rw [if_neg hdir]
    exact ⟨hdir, hvalid⟩

theorem createKey_whole (hi : Intact h) {keyHandle disposition : Bool} {oa : Option ObjectAttributes}
    (hvalid : WriteCall.Valid h (.createKey keyHandle disposition oa)) :
    WriteCall.Whole h (.createKey keyHandle disposition oa) ↔
      WriteCall.Allocated h (.createKey keyHandle disposition oa) := by
  have hrefused : WriteCall.run h (.createKey keyHandle disposition oa) = (h, false) →
      (∀ o name, keyHandle = true → oa = some o → o.objectName ≠ some name) →
      (WriteCall.Whole h (.createKey keyHandle disposition oa) ↔
        WriteCall.Allocated h (.createKey keyHandle disposition oa)) := by
    intro hrun hnone
    unfold WriteCall.Whole WriteCall.Allocated
    rw [hrun]
    exact iff_of_true ⟨fun _ => rfl, fun htrue => (Bool.false_ne_true htrue).elim⟩
      fun o name hhandle ho hname => absurd hname (hnone o name hhandle ho)
  cases hhandle : keyHandle with
  | false =>
    subst hhandle
    exact hrefused rfl fun o name hfalse => (Bool.false_ne_true hfalse).elim
  | true =>
  cases hoa : oa with
  | none =>
    subst hhandle hoa
    exact hrefused rfl fun o name _ ho => by cases ho
  | some o =>
  cases hobject : o.objectName with
  | none =>
    subst hhandle hoa
    refine hrefused ?_ fun o' name _ ho => ?_
    · unfold WriteCall.run ntCreateKey
      simp only [Option.bind_some, hobject, Option.map_none]
      rfl
    · rw [← Option.some.inj ho, hobject]
      exact fun hsome => by cases hsome
  | some name =>
    subst hhandle hoa
    have hbase := baseKey_valid hi.sound (hvalid o rfl)
    have hshort := components_short (uniToAscii_terminated (some name) 256)
    have hmade := resolve_made (components (pathOf name)) hi.sound hbase.2 hshort
    have hwalk := resolve_walked (components (pathOf name)) hi.sound hbase.2 hshort
    have hfits : WriteCall.Allocated h (.createKey true disposition (some o)) ↔
        KeysFit h (h.baseKey o) (components (pathOf name)) := by
      constructor
      · exact fun hall => hall o name rfl rfl hobject
      · intro hall o' name' _ ho hname
        obtain rfl := Option.some.inj ho
        obtain rfl := Option.some.inj (hobject.symm.trans hname)
        exact hall
    rw [hfits]
    unfold WriteCall.Whole WriteCall.run ntCreateKey KeysFit
    simp only [Option.bind_some, hobject, Option.map_some]
    rw [regResolvePath_true hbase.1]
    generalize resolve true h (h.baseKey o) (components (pathOf name)) = r at hmade hwalk ⊢
    have hvisible : r.2 ≠ 0 → r.1.sRoot = h.sRoot →
        WriteCall.Visible r.1 (.createKey true disposition (some o)) := by
      intro hne hsame
      refine ⟨o, name, rfl, hobject, ?_⟩
      have hsamebase : r.1.baseKey o = h.baseKey o := by
        unfold baseKey
        rw [hsame]
      rw [hsamebase, regResolvePath_false hbase.1, hmade.found hne]
      exact hne
    have hyes : decide (statusSuccess = statusSuccess) = true := by decide
    have hno : decide (statusUnsuccessful = statusSuccess) = false := by decide
    cases hwalk with
    | found hm =>
      have hne := find_of_missing hbase.1 hm
      dsimp only at hvisible ⊢
      rw [if_neg hne]
      exact iff_of_true ⟨fun hfalse => (Bool.false_ne_true (hfalse.symm.trans hyes)).elim, fun _ => hvisible hne rfl⟩ (.inl hm)
    | full hm hnone h' hkeys =>
      dsimp only
      rw [if_pos rfl]
      exact iff_of_true ⟨fun _ => hkeys, fun htrue => (Bool.false_ne_true (hno.symm.trans htrue)).elim⟩ (.inr (.inl hnone))
    | part hm hsome hlack h' hkeys =>
      dsimp only
      rw [if_pos rfl]
      refine iff_of_false (fun hwhole => hkeys (hwhole.1 hno)) ?_
      obtain ⟨i, hlt, hfull⟩ := hlack
      rintro (hzero | hnone | hall)
      · exact hm hzero
      · exact Bool.false_ne_true (hnone.symm.trans hsome)
      · exact Bool.false_ne_true (hfull.symm.trans (hall i hlt))
    | made hm hall h' k' hkeys hmallocs hnew =>
      have hne : k' ≠ 0 := by omega
      dsimp only at hvisible ⊢
      rw [if_neg hne]
      exact iff_of_true ⟨fun hfalse => (Bool.false_ne_true (hfalse.symm.trans hyes)).elim,
        fun _ => hvisible hne hmade.grows.root⟩
        (.inr (.inr hall))

theorem writeCall_whole (hi : Intact h) (c : WriteCall) (hvalid : c.Valid h) :
    c.Whole h ↔ c.Allocated h := by
  cases c with
  | setAscii keypath valuename type data size => exact setAscii_whole hi keypath valuename type data size
  | setValueKey k valueName type data size => exact setValueKey_whole hi k valueName type data size
  | createKey keyHandle disposition oa => exact createKey_whole hi hvalid

/-! ## Runs -/

/-- The write calls, the two deletions, and the steps `registry_create_driver_service` is made of. -/
inductive HiveAction
  | write (c : WriteCall)
  | make (k : Nat) (name : List UInt8)
  | put (k : Nat) (name : List UInt8) (type : UInt32) (data : Option Mem) (size : UInt32)
  | deleteKey (k : Nat)
  | deleteValueKey (k : Nat) (valueName : Option UnicodeString)

def HiveAction.after (h : Hive) : HiveAction → Hive
  | .write c => (c.run h).1
  | .make k name => (h.regGetOrCreateChild k name).1
  | .put k name type data size => (h.regSetValue k name type data size).1
  | .deleteKey k => (h.ntDeleteKey k).1
  | .deleteValueKey k valueName => (h.ntDeleteValueKey k valueName).1

/-- The keys were made, and the names of the kernel's own are short. -/
def HiveAction.Valid (h : Hive) : HiveAction → Prop
  | .write c => c.Valid h
  | .make k name => k ≤ h.mallocs ∧ name.length < maxName
  | .put k name _ _ _ => k ≤ h.mallocs ∧ name.length < maxName
  | .deleteKey k => k ≤ h.mallocs
  | .deleteValueKey k _ => k ≤ h.mallocs

/-- There was memory at boot; from then on anything may happen. -/
def HiveStart (h : Hive) : Prop := ∃ (h₀ : Hive) (granted : Nat → Bool), h₀.Booting ∧
  h = { h₀.registryInit with granted := granted }

def HiveStep (h : Hive) (a : HiveAction) (h' : Hive) : Prop := a.Valid h ∧ h' = a.after h

/-- No value loses the block of its data. -/
def ActionFits (h : Hive) : HiveAction → Prop
  | .write c => c.Allocated h
  | .put k name _ _ size => ValueFits h k name size
  | .make _ _ | .deleteKey _ | .deleteValueKey _ _ => True

theorem Intact.regGranted (hi : Intact h) (granted : Nat → Bool) : Intact { h with granted := granted } :=
  ⟨hi.sound.of_keys rfl rfl (Nat.le_refl _), hi.values⟩

theorem regSetValue_sound (hs : h.Sound) (hk : k ≤ h.mallocs) (name : List UInt8) (type : UInt32)
    (data : Option Mem) (size : UInt32) : (h.regSetValue k name type data size).1.Sound := by
  have hset := regSetValue_set h k name type data size
  generalize h.regSetValue k name type data size = r at hset ⊢
  cases hset with
  | old h₁ p hfound hp hkeys hroot hgranted hmallocs =>
    exact setValues_sound (hs.of_keys hkeys hroot hmallocs) (Nat.le_trans hk hmallocs) _
  | full hfound hnone => exact kmalloc_sound hs
  | new h₁ p hfound hsome hp hkeys hroot hgranted hmallocs =>
    exact setValues_sound (hs.of_keys hkeys hroot hmallocs) (Nat.le_trans hk hmallocs) _

theorem setAscii_sound (hs : h.Sound) (keypath valuename : CString) (type : UInt32) (data : Option Mem)
    (size : UInt32) : (h.registrySetValueAscii keypath valuename type data size).1.Sound := by
  have hmade := resolve_made (components keypath.chars) hs hs.root.2 (components_short keypath.terminated)
  unfold registrySetValueAscii
  rw [regResolvePath_true (Nat.ne_of_gt hs.root.1)]
  dsimp only
  split
  · exact hmade.sound
  · exact regSetValue_sound hmade.sound hmade.le _ _ _ _

/-- The keys on the way to the new one are all that `NtCreateKey` makes. -/
theorem createKey_grows (hs : h.Sound) {keyHandle disposition : Bool} {oa : Option ObjectAttributes}
    (hvalid : WriteCall.Valid h (.createKey keyHandle disposition oa)) :
    (h.ntCreateKey keyHandle disposition oa).1.Sound ∧
      Grows h (h.ntCreateKey keyHandle disposition oa).1 := by
  unfold ntCreateKey
  split
  · rename_i o name heq
    dsimp only
    obtain ⟨o', ho, hname⟩ := Option.bind_eq_some_iff.1 heq
    obtain ⟨name', hobject, hpair⟩ := Option.map_eq_some_iff.1 hname
    obtain ⟨rfl, rfl⟩ := Prod.mk.inj hpair
    have hbase := baseKey_valid hs (hvalid o' ho)
    have hmade := resolve_made (components (pathOf name')) hs hbase.2
      (components_short (uniToAscii_terminated (some name') 256))
    rw [regResolvePath_true hbase.1]
    split
    · exact ⟨hmade.sound, hmade.grows⟩
    · exact ⟨hmade.sound, hmade.grows⟩
  · exact ⟨hs, .refl hs⟩

theorem hiveStart_intact (hstart : HiveStart h) : Intact h := by
  obtain ⟨h₀, granted, hb, rfl⟩ := hstart
  refine Intact.regGranted (registryInit_keeps (P := Intact) hb (fun h hs hempty => ⟨hs, fun k v hv => ?_⟩)
    (fun h k name hs hk hshort hi => ?_) fun h k name type data size hall hk hshort hi => ?_).2 granted
  · rw [hempty k] at hv
    exact absurd hv List.not_mem_nil
  · have hmade := regGetOrCreateChild_made hs hk hshort
    exact hi.grows hmade.sound hmade.grows
  · apply hi.set hk
    unfold ValueFits
    by_cases hfound : (h.regFindValue k name).isSome = true
    · rw [if_pos hfound]
      exact .inr (hall _)
    · rw [if_neg hfound]
      exact .inr ⟨hshort, .inr (hall _)⟩

theorem Intact.setAscii (hi : Intact h) (keypath valuename : CString) (type : UInt32) (data : Option Mem)
    (size : UInt32) (hok : WriteCall.Allocated h (.setAscii keypath valuename type data size)) :
    Intact (h.registrySetValueAscii keypath valuename type data size).1 := by
  have hroot : h.sRoot ≠ 0 := Nat.ne_of_gt hi.sound.root.1
  have hshort := components_short keypath.terminated
  have hmade := resolve_made (components keypath.chars) hi.sound hi.sound.root.2 hshort
  have hwalk := resolve_walked (components keypath.chars) hi.sound hi.sound.root.2 hshort
  unfold WriteCall.Allocated at hok
  unfold registrySetValueAscii
  dsimp only at hok ⊢
  rw [regResolvePath_true hroot]
  generalize resolve true h h.sRoot (components keypath.chars) = r at hmade hwalk ⊢
  have hi' := hi.grows hmade.sound hmade.grows
  by_cases hzero : r.2 = 0
  · rw [if_pos hzero]
    exact hi'
  rw [if_neg hzero]
  apply hi'.set hmade.le
  cases hwalk with
  | found hm =>
    rw [if_pos hm] at hok
    exact hok
  | full hm hnone h' hkeys => exact absurd rfl hzero
  | part hm hsome hlack h' hkeys => exact absurd rfl hzero
  | made hm hall h' k' hkeys hmallocs hnew =>
    rw [if_neg hm] at hok
    unfold ValueFits
    dsimp only
    rw [regFindValue_new (hmade.grows.new k' hnew), if_neg (by decide), hmallocs, hmade.grows.granted]
    rcases hok with hnone | ⟨-, hname, hdata⟩
    · exact (Bool.false_ne_true (hnone.symm.trans (hall 0 (Nat.pos_of_ne_zero hm)))).elim
    · exact .inr ⟨hname, hdata⟩

theorem keys_ntDeleteKey (h : Hive) (k j : Nat) :
    ((h.ntDeleteKey k).1.keys j).children.Sublist (h.keys j).children ∧
    ((h.ntDeleteKey k).1.keys j).parent = (h.keys j).parent ∧
    ((h.ntDeleteKey k).1.keys j).values = (h.keys j).values ∧ (h.ntDeleteKey k).1.sRoot = h.sRoot ∧
    (h.ntDeleteKey k).1.mallocs = h.mallocs := by
  unfold ntDeleteKey
  split
  · exact ⟨List.Sublist.refl _, rfl, rfl, rfl, rfl⟩
  · generalize (h.keys k).parent = p
    unfold setKey
    dsimp only
    by_cases hj : j = p
    · rw [hj, Function.update_self]
      exact ⟨List.erase_sublist, rfl, rfl, rfl, rfl⟩
    · rw [Function.update_of_ne hj]
      exact ⟨List.Sublist.refl _, rfl, rfl, rfl, rfl⟩

theorem ntDeleteKey_sound (hs : h.Sound) (k : Nat) : (h.ntDeleteKey k).1.Sound := by
  have hkey := keys_ntDeleteKey h k
  obtain ⟨-, -, -, hroot, hmallocs⟩ := hkey 0
  refine ⟨by rw [hroot, hmallocs]; exact hs.root, fun j c hc => ?_, fun j => ?_, fun j hj => ?_⟩
  · obtain ⟨hlt, hle, hparent⟩ := hs.below j c ((hkey j).1.subset hc)
    exact ⟨hlt, hmallocs ▸ hle, (hkey c).2.1.trans hparent⟩
  · exact (hs.nodup j).sublist (hkey j).1
  · obtain ⟨hchildren, hvalues⟩ := hs.unused j (hmallocs ▸ hj)
    exact ⟨List.sublist_nil.1 (hchildren ▸ (hkey j).1), (hkey j).2.2.1.trans hvalues⟩

theorem Intact.deleteKey (hi : Intact h) (k : Nat) : Intact (h.ntDeleteKey k).1 := by
  refine ⟨ntDeleteKey_sound hi.sound k, fun j v hv => ?_⟩
  rw [(keys_ntDeleteKey h k j).2.2.1] at hv
  exact hi.values j v hv

theorem Intact.deleteValueKey (hi : Intact h) (hk : k ≤ h.mallocs) (valueName : Option UnicodeString) :
    Intact (h.ntDeleteValueKey k valueName).1 := by
  unfold ntDeleteValueKey
  split
  · exact hi
  · dsimp only
    split
    · exact hi
    · exact hi.setValues hk rfl rfl (Nat.le_refl _) fun v hv => hi.values k v (List.mem_of_mem_eraseP hv)

theorem hiveStep_intact {a : HiveAction} (hi : Intact h) (hok : ActionFits h a) (hstep : HiveStep h a h') :
    Intact h' := by
  obtain ⟨hvalid, rfl⟩ := hstep
  cases a with
  | write c =>
    cases c with
    | setAscii keypath valuename type data size => exact hi.setAscii keypath valuename type data size hok
    | setValueKey k valueName type data size =>
      unfold HiveAction.after WriteCall.run ntSetValueKey
      dsimp only
      by_cases hk : k = 0
      · rw [if_pos hk]
        exact hi
      · rw [if_neg hk]
        have hfits : ValueFits h k (uniToAscii valueName maxName) size :=
          (show k = 0 ∨ ValueFits h k (uniToAscii valueName maxName) size from hok).resolve_left hk
        exact hi.set hvalid hfits
    | createKey keyHandle disposition oa =>
      obtain ⟨hsound, hgrows⟩ := createKey_grows hi.sound hvalid
      exact hi.grows hsound hgrows
  | make k name =>
    have hmade := regGetOrCreateChild_made hi.sound hvalid.1 hvalid.2
    exact hi.grows hmade.sound hmade.grows
  | put k name type data size => exact hi.set hvalid.1 hok
  | deleteKey k => exact hi.deleteKey k
  | deleteValueKey k valueName => exact hi.deleteValueKey hvalid valueName

/-- The tree is sound whatever becomes of the allocations. -/
theorem hiveStep_sound {a : HiveAction} (hs : h.Sound) (hstep : HiveStep h a h') : h'.Sound := by
  obtain ⟨hvalid, rfl⟩ := hstep
  cases a with
  | write c =>
    cases c with
    | setAscii keypath valuename type data size => exact setAscii_sound hs keypath valuename type data size
    | setValueKey k valueName type data size =>
      unfold HiveAction.after WriteCall.run ntSetValueKey
      dsimp only
      split
      · exact hs
      · exact regSetValue_sound hs hvalid _ _ _ _
    | createKey keyHandle disposition oa => exact (createKey_grows hs hvalid).1
  | make k name => exact (regGetOrCreateChild_made hs hvalid.1 hvalid.2).sound
  | put k name type data size => exact regSetValue_sound hs hvalid.1 _ _ _ _
  | deleteKey k => exact ntDeleteKey_sound hs k
  | deleteValueKey k valueName =>
    unfold HiveAction.after ntDeleteValueKey
    dsimp only
    split
    · exact hs
    · split
      · exact hs
      · exact setValues_sound hs hvalid _

theorem hiveReach_sound {guard : Hive → HiveAction → Prop} (hr : Reach HiveStart HiveStep guard h) :
    h.Sound := by
  apply hr.invariant
  · exact fun _ hstart => (hiveStart_intact hstart).sound
  · exact fun _ _ _ hs _ hstep => hiveStep_sound hs hstep

theorem hiveReach_intact (hr : Reach HiveStart HiveStep ActionFits h) : Intact h := by
  apply hr.invariant
  · exact fun _ hstart => hiveStart_intact hstart
  · exact fun _ _ _ hi hok hstep => hiveStep_intact hi hok hstep

/-- In a run without a value that lost its data every value has its bytes, and a next call is all or
nothing exactly if its allocations are. -/
theorem registry_writes (h : Hive) (hr : Reach HiveStart HiveStep ActionFits h) :
    (∀ k, ∀ v ∈ (h.keys k).values, v.size = 0 ∨ v.data.isSome = true) ∧
    (∀ keypath valuename outData maxSize r,
      h.registryGetValueAscii keypath valuename outData maxSize = some r → r.bytes.isSome = true) ∧
    ∀ c : WriteCall, c.Valid h → (c.Whole h ↔ c.Allocated h) := by
  have hi := hiveReach_intact hr
  refine ⟨hi.values, fun keypath valuename outData maxSize r hget => ?_,
    fun c hvalid => writeCall_whole hi c hvalid⟩
  unfold registryGetValueAscii at hget
  rw [regResolvePath_false (Nat.ne_of_gt hi.sound.root.1)] at hget
  obtain ⟨hne, hvalue⟩ := Option.ite_none_left_eq_some.1 hget
  obtain ⟨v, hv, rfl⟩ := Option.map_eq_some_iff.1 hvalue
  have hok := hi.values _ v (List.mem_of_find?_eq_some hv)
  unfold copied
  dsimp only
  by_cases hn : (if outData then min v.size.toNat maxSize.toNat else 0) = 0
  · rw [if_pos hn]
    rfl
  · rw [if_neg hn]
    rcases hok with hzero | hsome
    · rw [hzero] at hn
      exact absurd (by simp) hn
    · obtain ⟨d, hd⟩ := Option.isSome_iff_exists.1 hsome
      rw [hd]
      rfl

instance (h : Hive) (k : Nat) (name : List UInt8) (size : UInt32) : Decidable (ValueFits h k name size) :=
  inferInstanceAs (Decidable (if (h.regFindValue k name).isSome then size = 0 ∨ h.granted h.mallocs = true
    else h.granted h.mallocs = false ∨
      name.length < maxName ∧ (size = 0 ∨ h.granted (h.mallocs + 1) = true)))

/-- `L"ProductName"` -/
def productName : UnicodeString := ⟨22, some fun i => ((ascii "ProductName").getD i 0).toUInt16⟩

/-- Boot with memory for everything, and from the 17th call on whatever `more` says. -/
def bootedHive (more : Bool) : Hive := { emptyHive.registryInit with granted := fun _ => more }

theorem bootedHive_start (more : Bool) : HiveStart (bootedHive more) :=
  ⟨emptyHive, fun _ => more, emptyHive_booting, rfl⟩

/-- Key 5 is `\Registry\Machine\Software\MeuOS`. -/
def setProduct : WriteCall := .setValueKey 5 (some productName) 1 (some (ulong 65)) 2

theorem registry_writes_product : ∃ h, Reach HiveStart HiveStep ActionFits h ∧
    setProduct.Whole h ∧ (setProduct.run h).2 = true := by
  have hreach : Reach HiveStart HiveStep ActionFits (bootedHive true) := .start (bootedHive_start true)
  have hvalid : setProduct.Valid (bootedHive true) :=
    show 5 ≤ (bootedHive true).mallocs by decide +kernel
  have hfits : ValueFits (bootedHive true) 5 (uniToAscii (some productName) maxName) 2 := by
    decide +kernel
  exact ⟨_, hreach, ((registry_writes _ hreach).2.2 _ hvalid).2 (.inr hfits), by decide +kernel⟩

/-- The old bytes are gone, there is no block for the new ones, and the call succeeds. -/
theorem product_lost : ∃ h, Reach HiveStart HiveStep (fun _ _ => True) h ∧
    setProduct.Valid h ∧ ¬ setProduct.Whole h := by
  have hfits : ¬ ValueFits (bootedHive false) 5 (uniToAscii (some productName) maxName) 2 := by
    decide +kernel
  refine ⟨bootedHive false, .start (bootedHive_start false),
    show 5 ≤ (bootedHive false).mallocs by decide +kernel, fun hwhole => ?_⟩
  have hallocated := (setValueKey_whole (hiveStart_intact (bootedHive_start false)) 5 _ 1 _ 2).1 hwhole
  rcases hallocated with hzero | hok
  · exact absurd hzero (by decide)
  · exact hfits hok

end Hive

end MeuOS.Cm
