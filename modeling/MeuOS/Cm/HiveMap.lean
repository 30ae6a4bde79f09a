import MeuOS.Cm.HiveTree
import Mathlib.Data.List.TakeWhile

/-! The registry as a map from paths and names to values: what a get returns after any sets. -/
namespace MeuOS.Cm

open MeuOS.Lib

/-- The non-empty names between the separators of a path, of whatever length. -/
def wholeNames : List UInt8 → List (List UInt8)
  | [] => []
  | c :: cs =>
      if isSeparator c then wholeNames cs
      else (c :: cs.takeWhile fun d => !isSeparator d) :: wholeNames (cs.dropWhile fun d => !isSeparator d)
termination_by path => path.length
decreasing_by
  · exact Nat.lt_succ_self _
  · exact Nat.lt_succ_of_le (List.dropWhile_sublist _).length_le

def ShortNames (path : List UInt8) : Prop := ∀ n ∈ wholeNames path, n.length < maxName

/-- No name is cut. -/
theorem components_eq_wholeNames {path : List UInt8} (h : ShortNames path) :
    components path = wholeNames path := by
  unfold ShortNames at h
  induction path using wholeNames.induct with
  | case1 => rw [components, wholeNames]
  | case2 c cs hc ih =>
    rw [wholeNames, if_pos hc] at h ⊢
    rw [components_separator hc]
    exact ih h
  | case3 c cs hc ih =>
    rw [wholeNames, if_neg hc] at h ⊢
    have hshort := h _ List.mem_cons_self
    rw [← ih fun n hn => h n (List.mem_cons_of_mem _ hn)]
    conv_lhs => rw [show c :: cs = (c :: cs.takeWhile fun d => !isSeparator d) ++
      cs.dropWhile fun d => !isSeparator d by rw [List.cons_append, List.takeWhile_append_dropWhile]]
    refine components_segment (List.cons_ne_nil _ _) (fun d hd => ?_) hshort fun d hd => ?_
    · rcases List.mem_cons.1 hd with rfl | hd
      · simpa using hc
      · simpa using List.mem_takeWhile_imp hd
    · have hstop := List.head?_dropWhile_not (fun d => !isSeparator d) cs
      rw [Option.mem_def.1 hd] at hstop
      simpa using hstop

namespace Hive

/-- A value that was set, under the names of its path. -/
structure SetRecord where
  names : List (List UInt8)
  name : List UInt8
  type : UInt32
  size : UInt32
  data : Option Mem

/-- The last set under these names; the log starts with the latest. -/
def lastSet (log : List SetRecord) (names : List (List UInt8)) (name : List UInt8) : Option SetRecord :=
  log.find? fun c => SamePath c.names names ∧ SameName c.name name

/-- All of what was set; what is in a block that nothing is copied to is left open. -/
structure SetRecord.Kept (c : SetRecord) (v : RegValue) : Prop where
  type : v.type = c.type
  size : v.size = c.size
  data : c.size = 0 ∨ ∃ d, v.data = some d ∧ ∀ d', c.data = some d' → d = d'

/-- What a get has to return. -/
structure SetRecord.Returned (c : SetRecord) (outData : Bool) (maxSize : UInt32) (r : GetReply) : Prop where
  type : r.type = c.type
  size : r.size = c.size
  bytes : ∃ l, r.bytes = some l ∧
    l.length = (if outData then min c.size.toNat maxSize.toNat else 0) ∧
    ∀ d, c.data = some d → l = (List.range l.length).map d

def lookup (h : Hive) (names : List (List UInt8)) (name : List UInt8) : Option RegValue :=
  if h.find h.sRoot names = 0 then none else h.regFindValue (h.find h.sRoot names) name

/-- The map the hive stands for. -/
structure Logged (h : Hive) (log : List SetRecord) : Prop where
  sound : h.Sound
  granted : ∀ n, h.granted n = true
  lookup : ∀ names name, match lastSet log names name with
    | some c => ∃ v, h.lookup names name = some v ∧ c.Kept v
    | none => h.lookup names name = none

/-- The key of these names. -/
def Placed (h : Hive) (names : List (List UInt8)) (k : Nat) : Prop := h.find h.sRoot names = k ∧ k ≠ 0

section Map

variable {h h' : Hive} {log : List SetRecord} {k : Nat} {p : List (List UInt8)}

theorem Placed.le (hp : Placed h p k) (hs : h.Sound) : k ≤ h.mallocs := hp.1 ▸ find_le hs hs.root.2

theorem Placed.grows (hp : Placed h p k) (hs : h.Sound) (hs' : h'.Sound) (hg : Grows h h') :
    Placed h' p k := by
  have hsame := (hg.find hs hs' p hs.root.2).1 (by rw [hp.1]; exact hp.2)
  exact ⟨by rw [hg.root, hsame, hp.1], hp.2⟩

theorem find_append (names rest : List (List UInt8)) (k : Nat) (hk : k ≠ 0) :
    h.find k (names ++ rest) = if h.find k names = 0 then 0 else h.find (h.find k names) rest := by
  induction names generalizing k with
  | nil => exact (if_neg hk).symm
  | cons n names ih =>
    rw [List.cons_append, find, find]
    by_cases hnone : h.regFindChild k n = 0
    · rw [if_pos hnone, if_pos hnone, if_pos rfl]
    · rw [if_neg hnone, if_neg hnone]
      exact ih _ hnone

theorem lookup_grows (hs : h.Sound) (hs' : h'.Sound) (hg : Grows h h') (names : List (List UInt8))
    (name : List UInt8) : h'.lookup names name = h.lookup names name := by
  obtain ⟨hfound, hmissing⟩ := hg.find hs hs' names hs.root.2
  unfold lookup
  rw [hg.root]
  by_cases hnone : h.find h.sRoot names = 0
  · rw [if_pos hnone]
    rcases hmissing hnone with hzero | hroot | hlate
    · rw [if_pos hzero]
    · exact absurd hroot (Nat.ne_of_gt hs.root.1)
    · rw [if_neg (by omega)]
      unfold regFindValue
      rw [hg.new _ hlate]
      rfl
  · rw [hfound hnone, if_neg hnone, if_neg hnone]
    unfold regFindValue
    rw [(hg.kept _ (find_le hs hs.root.2)).2.2]

theorem Logged.grows (hl : Logged h log) (hs' : h'.Sound) (hg : Grows h h') : Logged h' log :=
  ⟨hs', fun n => by rw [hg.granted]; exact hl.granted n, fun names name => by
    rw [lookup_grows hl.sound hs' hg]
    exact hl.lookup names name⟩

/-- Setting a value makes it the one of its names, and no other. -/
theorem Logged.set (hl : Logged h log) (hp : Placed h p k) {name : List UInt8}
    (hshort : name.length < maxName) (type : UInt32) (data : Option Mem) (size : UInt32) :
    (h.regSetValue k name type data size).2 = true ∧
    Logged (h.regSetValue k name type data size).1 (⟨p, name, type, size, data⟩ :: log) ∧
    ∀ q j, Placed h q j → Placed (h.regSetValue k name type data size).1 q j := by
  have hwhole := strcpyn_whole hshort
  have hplaced : ∀ names, h.find h.sRoot names = k ↔ SamePath p names := by
    intro names
    constructor
    · intro hk
      exact find_inj hl.sound (Nat.ne_of_gt hl.sound.root.1) (by rw [hp.1]; exact hp.2) (hp.1.trans hk.symm)
    · intro hsame
      rw [← find_same hsame, hp.1]
  have hmain : ∀ (h₁ : Hive) (values : List RegValue) (v : RegValue), h₁.keys = h.keys →
      h₁.sRoot = h.sRoot → h₁.granted = h.granted → h.mallocs ≤ h₁.mallocs →
      (∀ n, (values.find? fun v => strcmpci v.name.chars n = 0) =
        if SameName name n then some v else h.regFindValue k n) →
      SetRecord.Kept ⟨p, name, type, size, data⟩ v →
      Logged (h₁.setValues k values) (⟨p, name, type, size, data⟩ :: log) ∧
      ∀ q j, Placed h q j → Placed (h₁.setValues k values) q j := by
    intro h₁ values v hkeys hroot hgranted hmallocs hvalues hkept
    have hfind : ∀ j names, (h₁.setValues k values).find j names = h.find j names :=
      fun j names => (find_setValues h₁ k values j names).trans (find_of_keys hkeys j names)
    have hroot' : (h₁.setValues k values).sRoot = h.sRoot := hroot
    refine ⟨⟨setValues_sound (hl.sound.of_keys hkeys hroot hmallocs)
      (Nat.le_trans (hp.le hl.sound) hmallocs) values, fun n => ?_, fun names n => ?_⟩, fun q j hq => ?_⟩
    · rw [← hl.granted n, ← hgranted]
      rfl
    · have hold := hl.lookup names n
      unfold Hive.lookup lastSet at hold ⊢
      rw [hroot', hfind, List.find?_cons]
      unfold regFindValue
      rw [(keys_setValues h₁ k values _).2.2, hkeys]
      by_cases hsame : SamePath p names
      · have hk := (hplaced names).2 hsame
        rw [hk, if_neg hp.2] at hold ⊢
        rw [if_pos rfl, hvalues n]
        by_cases hname : SameName name n
        · rw [decide_eq_true ⟨hsame, hname⟩, if_pos hname]
          exact ⟨v, rfl, hkept⟩
        · rw [decide_eq_false fun hboth => hname hboth.2, if_neg hname]
          exact hold
      · have hk := (hplaced names).not.2 hsame
        rw [decide_eq_false fun hboth => hsame hboth.1, if_neg hk]
        exact hold
    · exact ⟨by rw [hroot', hfind, hq.1], hq.2⟩
  have hdata : ∀ {n : Nat} {q : Option Mem} {cut : RecordName},
      (q = if size ≠ 0 ∧ h.granted n = true then some (data.getD (h.leftover n)) else none) →
      SetRecord.Kept ⟨p, name, type, size, data⟩ ⟨cut, type, size, q⟩ := by
    intro n q cut hq
    refine ⟨rfl, rfl, ?_⟩
    by_cases hsize : size = 0
    · exact .inl hsize
    · rw [if_pos ⟨hsize, hl.granted n⟩] at hq
      exact .inr ⟨_, hq, fun d hd => by rw [show data = some d from hd]; rfl⟩
  have hset := regSetValue_set h k name type data size
  generalize h.regSetValue k name type data size = r at hset ⊢
  cases hset with
  | old h₁ q hfound hq hkeys hroot hgranted hmallocs =>
    obtain ⟨v, hv⟩ := Option.isSome_iff_exists.1 hfound
    refine ⟨rfl, hmain h₁ _ ⟨v.name, type, size, q⟩ hkeys hroot hgranted hmallocs (fun n => ?_) (hdata hq)⟩
    rw [find?_onValue (f := fun v => ⟨v.name, type, size, q⟩) fun _ => rfl]
    unfold regFindValue at hv ⊢
    rw [hv]
    rfl
  | full hfound hnone => exact absurd (hl.granted _) (hnone ▸ Bool.false_ne_true)
  | new h₁ q hfound hsome hq hkeys hroot hgranted hmallocs =>
    refine ⟨rfl, hmain h₁ _ (stored name type size q) hkeys hroot hgranted hmallocs (fun n => ?_) (hdata hq)⟩
    unfold regFindValue stored
    rw [List.find?_cons]
    dsimp only
    rw [hwhole]
    by_cases hname : SameName name n
    · rw [decide_eq_true (strcmpci_eq_zero.2 hname), if_pos hname]
    · rw [decide_eq_false (strcmpci_eq_zero.not.2 hname), if_neg hname]

theorem Logged.create (hl : Logged h log) (hp : Placed h p k) {name : List UInt8}
    (hshort : name.length < maxName) :
    Logged (h.regGetOrCreateChild k name).1 log ∧
    Placed (h.regGetOrCreateChild k name).1 (p ++ [name]) (h.regGetOrCreateChild k name).2 ∧
    ∀ q j, Placed h q j → Placed (h.regGetOrCreateChild k name).1 q j := by
  obtain ⟨hsound, hgrows, -, hfound, hmade⟩ :=
    regGetOrCreateChild_made hl.sound (hp.le hl.sound) hshort
  have hkept : ∀ q j, Placed h q j → Placed (h.regGetOrCreateChild k name).1 q j :=
    fun q j hq => hq.grows hl.sound hsound hgrows
  have hne := hmade hl.granted hp.2
  refine ⟨hl.grows hsound hgrows, ⟨?_, hne⟩, hkept⟩
  rw [find_append p [name] _ (Nat.ne_of_gt hsound.root.1), (hkept p k hp).1, if_neg hp.2]
  exact hfound hne

/-! ## The two calls -/

theorem registrySetValueAscii_eq (hroot : h.sRoot ≠ 0) {keypath : CString} (valuename : CString)
    (type : UInt32) (data : Option Mem) (size : UInt32) (hpath : ShortNames keypath.chars) :
    h.registrySetValueAscii keypath valuename type data size =
      let r := resolve true h h.sRoot (wholeNames keypath.chars)
      if r.2 = 0 then (r.1, false) else r.1.regSetValue r.2 valuename.chars type data size := by
  unfold registrySetValueAscii regResolvePath
  rw [if_neg hroot]
  dsimp only
  rw [if_neg hroot, components_eq_wholeNames hpath]

theorem registrySetValueAscii_logged (hl : Logged h log) {keypath valuename : CString} (type : UInt32)
    (data : Option Mem) (size : UInt32) (hpath : ShortNames keypath.chars)
    (hname : valuename.chars.length < maxName) :
    (h.registrySetValueAscii keypath valuename type data size).2 = true ∧
    Logged (h.registrySetValueAscii keypath valuename type data size).1
      (⟨wholeNames keypath.chars, valuename.chars, type, size, data⟩ :: log) := by
  have hroot : h.sRoot ≠ 0 := Nat.ne_of_gt hl.sound.root.1
  obtain ⟨hsound, hgrows, -, hfound, hmade⟩ :=
    resolve_made (wholeNames keypath.chars) hl.sound hl.sound.root.2 hpath
  rw [registrySetValueAscii_eq hroot _ _ _ _ hpath]
  dsimp only
  rw [if_neg (hmade hl.granted hroot)]
  obtain ⟨hok, hlogged, -⟩ := (hl.grows hsound hgrows).set
    (p := wholeNames keypath.chars) ⟨by rw [hgrows.root]; exact hfound (hmade hl.granted hroot), hmade hl.granted hroot⟩
    hname type data size
  exact ⟨hok, hlogged⟩

theorem registryGetValueAscii_eq (hroot : h.sRoot ≠ 0) {keypath valuename : CString} (outData : Bool)
    (maxSize : UInt32) (hpath : ShortNames keypath.chars) :
    h.registryGetValueAscii keypath valuename outData maxSize =
      (h.lookup (wholeNames keypath.chars) valuename.chars).map fun v =>
        ⟨v.type, v.size, copied v outData maxSize⟩ := by
  unfold registryGetValueAscii lookup
  rw [regResolvePath_false hroot, components_eq_wholeNames hpath]
  dsimp only
  by_cases hnone : h.find h.sRoot (wholeNames keypath.chars) = 0
  · rw [if_pos hnone, if_pos hnone]
    rfl
  · rw [if_neg hnone, if_neg hnone]

/-- A get returns what the last set under its names stored, and fails if there was none. -/
def Answers (h : Hive) (log : List SetRecord) (keypath valuename : CString) (outData : Bool)
    (maxSize : UInt32) : Prop :=
  match lastSet log (wholeNames keypath.chars) valuename.chars with
  | some c => ∃ r, h.registryGetValueAscii keypath valuename outData maxSize = some r ∧
      c.Returned outData maxSize r
  | none => h.registryGetValueAscii keypath valuename outData maxSize = none

theorem SetRecord.Kept.returned {c : SetRecord} {v : RegValue} (hc : c.Kept v) (outData : Bool)
    (maxSize : UInt32) : c.Returned outData maxSize ⟨v.type, v.size, copied v outData maxSize⟩ := by
  refine ⟨hc.type, hc.size, ?_⟩
  unfold copied
  dsimp only
  rw [hc.size]
  by_cases hn : (if outData then min c.size.toNat maxSize.toNat else 0) = 0
  · rw [if_pos hn]
    exact ⟨[], rfl, hn.symm, fun _ _ => rfl⟩
  · rw [if_neg hn]
    rcases hc.data with hzero | ⟨d, hd, hcopy⟩
    · rw [hzero] at hn
      exact absurd (by simp) hn
    · rw [hd]
      refine ⟨_, rfl, by rw [List.length_map, List.length_range], fun d' hd' => ?_⟩
      rw [hcopy d' hd', List.length_map, List.length_range]

theorem Logged.answers (hl : Logged h log) {keypath : CString} (valuename : CString) (outData : Bool)
    (maxSize : UInt32) (hpath : ShortNames keypath.chars) :
    Answers h log keypath valuename outData maxSize := by
  unfold Answers
  have hlookup := hl.lookup (wholeNames keypath.chars) valuename.chars
  rw [registryGetValueAscii_eq (Nat.ne_of_gt hl.sound.root.1) outData maxSize hpath]
  cases hlast : lastSet log (wholeNames keypath.chars) valuename.chars with
  | none =>
    rw [hlast] at hlookup
    rw [hlookup]
    rfl
  | some c =>
    rw [hlast] at hlookup
    obtain ⟨v, hv, hkept⟩ := hlookup
    rw [hv]
    exact ⟨_, rfl, hkept.returned outData maxSize⟩

/-! ## The tree at boot -/

/-- No registry yet, and memory for all of it. -/
structure Booting (h : Hive) : Prop where
  sRoot : h.sRoot = 0
  keys : ∀ k, (h.keys k).children = [] ∧ (h.keys k).values = []
  granted : ∀ n, h.granted n = true

def softwareKey : List (List UInt8) := [ascii "Machine", ascii "Software", ascii "MeuOS"]

def servicesKey : List (List UInt8) :=
  [ascii "Machine", ascii "System", ascii "CurrentControlSet", ascii "Services"]

/-- What `registry_init` sets. -/
def bootLog : List SetRecord :=
  [⟨servicesKey, ascii "Start", 4, 4, some (ulong 1)⟩,
   ⟨softwareKey, ascii "BuildNumber", 4, 4, some (ulong 26021)⟩,
   ⟨softwareKey, ascii "CurrentVersion", 1, 4, some fun i => (ascii "0.1").getD i 0⟩,
   ⟨softwareKey, ascii "ProductName", 1, 6, some fun i => (ascii "MeuOS").getD i 0⟩]

theorem Booting.root (hb : Booting h) (name : List UInt8) :
    let r := h.regAllocKey name 0
    Logged { r.1 with sRoot := r.2 } [] ∧ Placed { r.1 with sRoot := r.2 } [] r.2 ∧
      ∀ k, (r.1.keys k).values = [] := by
  have hempty : ∀ k, ((h.regAllocKey name 0).1.keys k).children = [] ∧
      ((h.regAllocKey name 0).1.keys k).values = [] := by
    intro k
    unfold regAllocKey kmalloc setKey
    dsimp only
    rw [if_pos (hb.granted _), if_neg (Nat.succ_ne_zero _)]
    dsimp only
    by_cases hk : k = h.mallocs + 1
    · rw [hk, Function.update_self]
      exact ⟨rfl, rfl⟩
    · rw [Function.update_of_ne hk]
      exact hb.keys k
  have haddress : (h.regAllocKey name 0).2 = h.mallocs + 1 ∧
      (h.regAllocKey name 0).1.mallocs = h.mallocs + 1 ∧ (h.regAllocKey name 0).1.granted = h.granted := by
    unfold regAllocKey kmalloc setKey
    dsimp only
    rw [if_pos (hb.granted _), if_neg (Nat.succ_ne_zero _)]
    exact ⟨rfl, rfl, rfl⟩
  obtain ⟨hroot, hmallocs, hgranted⟩ := haddress
  refine ⟨⟨⟨?_, fun k c hc => ?_, fun k => (hempty k).1.symm ▸ List.nodup_nil, fun k _ => hempty k⟩, fun n => ?_, fun names n => ?_⟩, ⟨rfl, ?_⟩,
    fun k => (hempty k).2⟩
  · dsimp only
    rw [hroot, hmallocs]
    exact ⟨Nat.succ_pos _, Nat.le_refl _⟩
  · dsimp only at hc
    rw [(hempty k).1] at hc
    exact absurd hc List.not_mem_nil
  · dsimp only
    rw [hgranted]
    exact hb.granted n
  · unfold lookup
    by_cases hnone : ({ (h.regAllocKey name 0).1 with sRoot := (h.regAllocKey name 0).2 } : Hive).find
        (h.regAllocKey name 0).2 names = 0
    · exact if_pos hnone
    · refine (if_neg hnone).trans ?_
      unfold regFindValue
      dsimp only
      rw [(hempty _).2]
      rfl
  · rw [hroot]
    exact Nat.succ_ne_zero _

/-- The tree at boot, with whatever making keys and setting values keeps. -/
theorem registryInit_keeps {P : Hive → Prop} (hb : Booting h)
    (hP : ∀ h : Hive, h.Sound → (∀ k, (h.keys k).values = []) → P h)
    (hmake : ∀ (h : Hive) (k : Nat) (name : List UInt8), h.Sound → k ≤ h.mallocs → name.length < maxName →
      P h → P (h.regGetOrCreateChild k name).1)
    (hput : ∀ (h : Hive) (k : Nat) (name : List UInt8) (type : UInt32) (data : Option Mem) (size : UInt32),
      (∀ n, h.granted n = true) → k ≤ h.mallocs → name.length < maxName →
      P h → P (h.regSetValue k name type data size).1) :
    Logged h.registryInit bootLog ∧ P h.registryInit := by
  have create : ∀ {h : Hive} {log : List SetRecord} {p : List (List UInt8)} {k : Nat} {name : List UInt8},
      Logged h log ∧ P h → Placed h p k → name.length < maxName →
      (Logged (h.regGetOrCreateChild k name).1 log ∧ P (h.regGetOrCreateChild k name).1) ∧
      Placed (h.regGetOrCreateChild k name).1 (p ++ [name]) (h.regGetOrCreateChild k name).2 ∧
      ∀ q j, Placed h q j → Placed (h.regGetOrCreateChild k name).1 q j := by
    intro h log p k name hl hp hshort
    obtain ⟨hlogged, hplaced, hkept⟩ := hl.1.create hp hshort
    exact ⟨⟨hlogged, hmake h k name hl.1.sound (hp.le hl.1.sound) hshort hl.2⟩, hplaced, hkept⟩
  have set : ∀ {h : Hive} {log : List SetRecord} {p : List (List UInt8)} {k : Nat} {name : List UInt8},
      Logged h log ∧ P h → Placed h p k → name.length < maxName → ∀ type data size,
      (Logged (h.regSetValue k name type data size).1 (⟨p, name, type, size, data⟩ :: log) ∧
        P (h.regSetValue k name type data size).1) ∧
      ∀ q j, Placed h q j → Placed (h.regSetValue k name type data size).1 q j := by
    intro h log p k name hl hp hshort type data size
    obtain ⟨-, hlogged, hkept⟩ := hl.1.set hp hshort type data size
    exact ⟨⟨hlogged, hput h k name type data size hl.1.granted (hp.le hl.1.sound) hshort hl.2⟩, hkept⟩
  unfold registryInit
  rw [if_neg (not_not.2 hb.sRoot)]
  have hroot := hb.root (ascii "\\Registry")
  generalize h.regAllocKey (ascii "\\Registry") 0 = r at hroot ⊢
  obtain ⟨h₀, root⟩ := r
  dsimp only at hroot ⊢
  obtain ⟨hlogged, hroot, hempty⟩ := hroot
  have hl := And.intro hlogged (hP { h₀ with sRoot := root } hlogged.sound hempty)
  clear hlogged hempty
  generalize ({ h₀ with sRoot := root } : Hive) = h₁ at hl hroot ⊢
  -- The keys and values in the order they are made; each step keeps the keys that are there.
  obtain ⟨hl, hmachine, hkept⟩ := create hl hroot (show (ascii "Machine").length < maxName by decide)
  replace hroot := hkept _ _ hroot
  generalize h₁.regGetOrCreateChild root (ascii "Machine") = r at hl hmachine hroot ⊢
  obtain ⟨h₂, machine⟩ := r
  dsimp only at hl hmachine hroot ⊢
  obtain ⟨hl, -, hkept⟩ := create hl hroot (show (ascii "Users").length < maxName by decide)
  replace hmachine := hkept _ _ hmachine
  generalize h₂.regGetOrCreateChild root (ascii "Users") = r at hl hmachine ⊢
  obtain ⟨h₃, users⟩ := r
  dsimp only at hl hmachine ⊢
  obtain ⟨hl, hsw, hkept⟩ := create hl hmachine (show (ascii "Software").length < maxName by decide)
  replace hmachine := hkept _ _ hmachine
  generalize h₃.regGetOrCreateChild machine (ascii "Software") = r at hl hmachine hsw ⊢
  obtain ⟨h₄, sw⟩ := r
  dsimp only at hl hmachine hsw ⊢
  obtain ⟨hl, hmeuos, hkept⟩ := create hl hsw (show (ascii "MeuOS").length < maxName by decide)
  replace hmachine := hkept _ _ hmachine
  generalize h₄.regGetOrCreateChild sw (ascii "MeuOS") = r at hl hmachine hmeuos ⊢
  obtain ⟨h₅, meuos⟩ := r
  dsimp only at hl hmachine hmeuos ⊢
  obtain ⟨hl, hkept⟩ := set hl hmeuos (show (ascii "ProductName").length < maxName by decide)
    1 (some fun i => (ascii "MeuOS").getD i 0) 6
  replace hmachine := hkept _ _ hmachine
  replace hmeuos := hkept _ _ hmeuos
  generalize h₅.regSetValue meuos (ascii "ProductName") 1 _ 6 = r at hl hmachine hmeuos ⊢
  obtain ⟨h₆, ok⟩ := r
  dsimp only at hl hmachine hmeuos ⊢
  obtain ⟨hl, hkept⟩ := set hl hmeuos (show (ascii "CurrentVersion").length < maxName by decide)
    1 (some fun i => (ascii "0.1").getD i 0) 4
  replace hmachine := hkept _ _ hmachine
  replace hmeuos := hkept _ _ hmeuos
  generalize h₆.regSetValue meuos (ascii "CurrentVersion") 1 _ 4 = r at hl hmachine hmeuos ⊢
  obtain ⟨h₇, ok⟩ := r
  dsimp only at hl hmachine hmeuos ⊢
  obtain ⟨hl, hkept⟩ := set hl hmeuos (show (ascii "BuildNumber").length < maxName by decide)
    4 (some (ulong 26021)) 4
  replace hmachine := hkept _ _ hmachine
  generalize h₇.regSetValue meuos (ascii "BuildNumber") 4 _ 4 = r at hl hmachine ⊢
  obtain ⟨h₈, ok⟩ := r
  dsimp only at hl hmachine ⊢
  obtain ⟨hl, hsystem, -⟩ := create hl hmachine (show (ascii "System").length < maxName by decide)
  generalize h₈.regGetOrCreateChild machine (ascii "System") = r at hl hsystem ⊢
  obtain ⟨h₉, system⟩ := r
  dsimp only at hl hsystem ⊢
  obtain ⟨hl, hcsys, -⟩ := create hl hsystem (show (ascii "CurrentControlSet").length < maxName by decide)
  generalize h₉.regGetOrCreateChild system (ascii "CurrentControlSet") = r at hl hcsys ⊢
  obtain ⟨h₁₀, csys⟩ := r
  dsimp only at hl hcsys ⊢
  obtain ⟨hl, hserv, -⟩ := create hl hcsys (show (ascii "Services").length < maxName by decide)
  generalize h₁₀.regGetOrCreateChild csys (ascii "Services") = r at hl hserv ⊢
  obtain ⟨h₁₁, serv⟩ := r
  exact (set hl hserv (show (ascii "Start").length < maxName by decide) 4 (some (ulong 1)) 4).1

theorem registryInit_logged (hb : Booting h) : Logged h.registryInit bootLog :=
  (registryInit_keeps hb (fun _ _ _ => trivial) (fun _ _ _ _ _ _ => id) (fun _ _ _ _ _ _ _ _ _ => id)).1

/-! ## Runs -/

end Map

inductive RegistryCall
  | set (keypath valuename : CString) (type : UInt32) (data : Option Mem) (size : UInt32)
  | get (keypath valuename : CString) (outData : Bool) (maxSize : UInt32)

/-- The registry and what was set in it. -/
structure MapState where
  hive : Hive
  log : List SetRecord

def MapState.after (w : MapState) : RegistryCall → MapState
  | .set keypath valuename type data size =>
      ⟨(w.hive.registrySetValueAscii keypath valuename type data size).1,
        ⟨wholeNames keypath.chars, valuename.chars, type, size, data⟩ :: w.log⟩
  | .get _ _ _ _ => w

def MapStart (w : MapState) : Prop := ∃ h : Hive, h.Booting ∧ w = ⟨h.registryInit, bootLog⟩

def MapStep (w : MapState) (a : RegistryCall) (w' : MapState) : Prop := w' = w.after a

/-- No name is longer than the 63 characters there is room for. -/
def NamesFit (_ : MapState) : RegistryCall → Prop
  | .set keypath valuename _ _ _ => ShortNames keypath.chars ∧ valuename.chars.length < maxName
  | .get keypath _ _ _ => ShortNames keypath.chars

def MapState.Logged (w : MapState) : Prop := w.hive.Logged w.log

theorem mapReach_logged {w : MapState} (h : Reach MapStart MapStep NamesFit w) : w.Logged := by
  apply h.invariant
  · intro w hstart
    obtain ⟨h₀, hb, heq⟩ := hstart
    have hl := registryInit_logged hb
    unfold MapState.Logged
    rw [heq]
    exact hl
  · intro w a w' hl hok heq
    rw [heq]
    cases a with
    | set keypath valuename type data size =>
      exact (registrySetValueAscii_logged hl type data size hok.1 hok.2).2
    | get keypath valuename outData maxSize => exact hl

/-- As long as no name is cut, the registry is the map of what was set. -/
theorem registry_map (w : MapState) (h : Reach MapStart MapStep NamesFit w) (a : RegistryCall)
    (hok : NamesFit w a) :
    match a with
    | .set keypath valuename type data size =>
        (w.hive.registrySetValueAscii keypath valuename type data size).2 = true
    | .get keypath valuename outData maxSize => Answers w.hive w.log keypath valuename outData maxSize := by
  have hl : w.hive.Logged w.log := mapReach_logged h
  cases a with
  | set keypath valuename type data size => exact (registrySetValueAscii_logged hl type data size hok.1 hok.2).1
  | get keypath valuename outData maxSize => exact hl.answers valuename outData maxSize hok

def emptyHive : Hive := ⟨0, fun _ => ⟨⟨[], by decide⟩, 0, [], []⟩, 0, fun _ => true, fun _ _ => 0⟩

theorem emptyHive_booting : emptyHive.Booting := ⟨rfl, fun _ => ⟨rfl, rfl⟩, fun _ => rfl⟩

theorem machineKey_terminated : 0 ∉ ascii "Machine" := by decide

def machineKey : CString := ⟨ascii "Machine", machineKey_terminated⟩

theorem wholeNames_machine : wholeNames machineKey.chars = [ascii "Machine"] := by
  unfold machineKey
  simp [ascii, wholeNames, isSeparator]

theorem machine_short : ShortNames machineKey.chars := by
  unfold ShortNames
  rw [wholeNames_machine]
  decide

def colour : CString := ⟨ascii "Colour", by decide⟩

theorem registry_map_colour : ∃ w, Reach MapStart MapStep NamesFit w ∧
    Answers w.hive w.log machineKey colour true 4 ∧ w.log.length = 5 := by
  have hstart : Reach MapStart MapStep NamesFit ⟨emptyHive.registryInit, bootLog⟩ :=
    .start ⟨emptyHive, emptyHive_booting, rfl⟩
  have hset : NamesFit ⟨emptyHive.registryInit, bootLog⟩ (.set machineKey colour 4 (some (ulong 7)) 4) :=
    ⟨machine_short, by decide⟩
  exact ⟨_, hstart.step hset rfl, registry_map _ (hstart.step hset rfl) (.get machineKey colour true 4)
    machine_short, rfl⟩

/-- One character too many for the record. -/
def longName : CString := ⟨List.replicate 64 97, by decide⟩

theorem longName_lost : ∃ w, Reach MapStart MapStep (fun _ _ => True) w ∧
    ¬ Answers w.hive w.log machineKey longName true 4 := by
  have hstart : Reach MapStart MapStep (fun _ _ => True) ⟨emptyHive.registryInit, bootLog⟩ :=
    .start ⟨emptyHive, emptyHive_booting, rfl⟩
  refine ⟨_, hstart.step (a := .set machineKey longName 4 (some (ulong 7)) 4) trivial rfl, fun hanswers => ?_⟩
  unfold MapState.after Answers at hanswers
  dsimp only at hanswers
  have hroot : emptyHive.registryInit.sRoot ≠ 0 := by decide +kernel
  rw [registrySetValueAscii_eq hroot _ _ _ _ machine_short, registryGetValueAscii_eq
    (by rw [wholeNames_machine]; decide +kernel) _ _ machine_short, wholeNames_machine] at hanswers
  have hlost : (((let r := resolve true emptyHive.registryInit emptyHive.registryInit.sRoot [ascii "Machine"]
      if r.2 = 0 then (r.1, false) else r.1.regSetValue r.2 longName.chars 4 (some (ulong 7)) 4).1.lookup
        [ascii "Machine"] longName.chars).isNone) = true := by
    decide +kernel
  have hlast : (lastSet (⟨[ascii "Machine"], longName.chars, 4, 4, some (ulong 7)⟩ :: bootLog)
      [ascii "Machine"] longName.chars).isSome = true := by
    decide +kernel
  rw [Option.isNone_iff_eq_none.1 hlost] at hanswers
  obtain ⟨c, hc⟩ := Option.isSome_iff_exists.1 hlast
  rw [hc] at hanswers
  obtain ⟨r, hr, -⟩ := hanswers
  cases hr

end Hive

end MeuOS.Cm
