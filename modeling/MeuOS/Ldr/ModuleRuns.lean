import MeuOS.Ldr.ModuleNames
import MeuOS.Lib.Run

/-! The module table in every history of registrations and loads: what a name finds, what a load
that succeeded gives when it is asked for again, and what one that failed leaves. -/
namespace MeuOS.Ldr

open MeuOS.Lib

/-- What adds to the table, loads from it, or gives a module its base. -/
inductive LdrOp
  | register (path : List UInt8) (image : Nat)
  | loadLibrary (mounted : Bool) (name : List UInt8) (file : Option Nat)
  | resolve (dll : List UInt8)
  | setBase (name : List UInt8) (base : Nat)

/-- A load that gave a base, from the volume or not. -/
structure Loaded where
  name : List UInt8
  base : Nat
  disk : Bool
deriving DecidableEq

/-- The table, the names that took a slot, and the loads that succeeded. -/
structure World where
  loader : Loader
  registered : List (List UInt8)
  loads : List Loaded

def World.start : World := ⟨⟨[], 0⟩, [], []⟩

def LdrOp.path : LdrOp → List UInt8
  | .register path _ => path
  | .loadLibrary _ name _ => name
  | .resolve dll => dll
  | .setBase name _ => name

def LdrOp.isLoad : LdrOp → Bool
  | .loadLibrary .. => true
  | .resolve _ => true
  | _ => false

def LdrOp.loaded (b : Nat) : LdrOp → Option Loaded
  | .loadLibrary mounted name _ => if b = 0 then none else some ⟨name, b, isDiskPath mounted name⟩
  | _ => none

/-- The slot of what a load gave. -/
def Loaded.slot (l : Loaded) (mods : List LdrMod) : Option Nat :=
  if l.disk then findMod mods (basename l.name) else runtimeSlot mods l.name

def World.after (w : World) (op : LdrOp) (b : Nat) (s' : Loader) : World where
  loader := s'
  registered := w.registered ++
    if w.loader.mods.length < s'.mods.length then [basename op.path] else []
  loads := (op.loaded b).toList ++ w.loads

section Steps

variable (env : Nat → Mapping)

def ldrOp : LdrOp → Loader → Option (Nat × Loader)
  | .register path image, s => some (0, ldrRegister path image s)
  | .loadLibrary mounted name file, s => sysLoadLibrary env mounted name file s
  | .resolve dll, s => ldrLoad env (apisetRedirect dll) s
  | .setBase name base, s => some (0, ldrModuleSetBase name base s)

def World.step (w : World) (op : LdrOp) : Option World :=
  (ldrOp env op w.loader).map fun r => w.after op r.1 r.2

/-- A path that takes a slot: its base name is stored whole, no module has it, and no load that
succeeded had looked for it in vain before ".dll" was added. -/
structure Adds (w : World) (path : List UInt8) : Prop where
  short : (basename path).length ≤ 31
  fresh : findMod w.loader.mods (basename path) = none
  unshadowed : ∀ l ∈ w.loads, ieq (apisetRedirect l.name) (basename path) = false

/-- What is registered or read from the volume fits in a slot, a file that was read can be mapped,
and no base is overwritten. -/
def StepFits (w : World) : LdrOp → Prop
  | .register path _ => w.loader.mods.length < maxModules → Adds w path
  | .loadLibrary mounted name file => isDiskPath mounted name = true → file.isSome = true →
      match findMod w.loader.mods (basename name) with
      | some i => w.loader.baseOf i ≠ 0 ∨ (env w.loader.attempts).base ≠ 0
      | none => w.loader.mods.length < maxModules →
          Adds w name ∧ (env w.loader.attempts).base ≠ 0
  | .resolve _ => True
  | .setBase name _ => ∀ i, findMod w.loader.mods name = some i → w.loader.baseOf i = 0

/-- The table between two steps. -/
structure RegistryRight (w : World) : Prop where
  room : w.loader.mods.length = w.registered.length ∧ w.registered.length ≤ maxModules
  found : ∀ k name, w.registered[k]? = some name → ∀ n,
    findMod w.loader.mods n = some k ↔ ieq name n = true
  again : ∀ l ∈ w.loads, ∀ mounted file, isDiskPath mounted l.name = l.disk →
    (l.disk = true → file.isSome = true) →
      sysLoadLibrary env mounted l.name file w.loader = some (l.base, w.loader)
  /-- A path on the volume is a module's handle where it is a bare name. -/
  handle : ∀ l ∈ w.loads, sysGetModuleHandle l.name w.loader = l.base ↔
    (l.disk = true → l.name.any isSeparator = false)
  apart : ∀ l ∈ w.loads, ∀ l' ∈ w.loads, l.disk = true → l'.disk = true →
    ieq (basename l.name) (basename l'.name) = false →
      l.slot w.loader.mods ≠ l'.slot w.loader.mods

/-- A step on the table. -/
structure StepRight (w : World) (op : LdrOp) (b : Nat) (s' : Loader) : Prop where
  failed : op.isLoad = true → b = 0 → s'.mods = w.loader.mods
  added : ∀ path image, op = .register path image →
    s'.mods = w.loader.mods ++
      if w.loader.mods.length < maxModules then [⟨basename path, image, 0⟩] else []

end Steps

section Finding

variable {s s' : Loader} {new : List (List UInt8)} {n path : List UInt8} {i : Nat} {mounted : Bool}

theorem findMod_names (s : Loader) (n : List UInt8) :
    findMod s.mods n = s.names.findIdx? fun name => ieq name n := by
  unfold findMod Loader.names
  rw [List.findIdx?_map]
  rfl

theorem findMod_extends (h : Extends s s' new) (n : List UInt8) : findMod s'.mods n =
    (findMod s.mods n).or ((new.findIdx? fun name => ieq name n).map (· + s.mods.length)) := by
  have hlength : s.names.length = s.mods.length := List.length_map _
  rw [findMod_names, findMod_names, h.names, List.findIdx?_append, hlength]

theorem findMod_kept (h : Extends s s' new) (hfind : findMod s.mods n = some i) :
    findMod s'.mods n = some i := by
  rw [findMod_extends h, hfind, Option.some_or]

theorem findMod_same (h : Extends s s' []) (n : List UInt8) : findMod s'.mods n = findMod s.mods n := by
  rw [findMod_extends h]
  exact Option.or_none

theorem findMod_other (h : Extends s s' [path]) (hne : ieq path n = false) :
    findMod s'.mods n = findMod s.mods n := by
  have hnone : [path].findIdx? (fun name => ieq name n) = none := by
    rw [List.findIdx?_cons, hne]
    rfl
  rw [findMod_extends h, hnone]
  exact Option.or_none

theorem findMod_none (h : ∀ name ∈ s.names, ieq name n = false) : findMod s.mods n = none := by
  rw [findMod_names]
  exact List.findIdx?_eq_none_iff.mpr h

/-- The slot at run time stays when a module is added that the name does not mean. -/
theorem runtimeSlot_kept (h : Extends s s' new)
    (hnew : ∀ name ∈ new, ieq (apisetRedirect n) name = false) (hnil : new.length ≤ 1)
    (hslot : runtimeSlot s.mods n = some i) : runtimeSlot s'.mods n = some i := by
  have hred : findMod s'.mods (apisetRedirect n) = findMod s.mods (apisetRedirect n) := by
    match new, h with
    | [], h => exact findMod_same h _
    | [name], h =>
      refine findMod_other h ?_
      have hne := hnew name (List.mem_singleton_self name)
      cases hieq : ieq name (apisetRedirect n) with
      | false => rfl
      | true =>
        rw [ieq_symm hieq] at hne
        cases hne
  unfold runtimeSlot at hslot ⊢
  rw [hred]
  cases hfind : findMod s.mods (apisetRedirect n) with
  | some j =>
    rw [hfind] at hslot
    exact hslot
  | none =>
    rw [hfind] at hslot
    obtain ⟨buf, hbuf, hfound⟩ := Option.bind_eq_some_iff.mp hslot
    exact Option.bind_eq_some_iff.mpr ⟨buf, hbuf, findMod_kept h hfound⟩

/-- Names that were stored have no separator and 31 characters at most. -/
def Stored (names : List (List UInt8)) : Prop :=
  ∀ name ∈ names, name.any isSeparator = false ∧ name.length ≤ 31

theorem findMod_separator (hstored : Stored s.names) (hn : n.any isSeparator = true) :
    findMod s.mods n = none := by
  refine findMod_none fun name hname => Bool.eq_false_iff.mpr fun hieq => ?_
  have hplain := ieq_separator hieq
  rw [(hstored name hname).1, hn] at hplain
  cases hplain

theorem findMod_long (hstored : Stored s.names) (hn : 31 < n.length) : findMod s.mods n = none := by
  refine findMod_none fun name hname => Bool.eq_false_iff.mpr fun hieq => ?_
  have hlength := ieq_length hieq
  have hshort := (hstored name hname).2
  omega

/-- ".dll" takes no separator away, or the name is too long for any module. -/
theorem runtimeSlot_separator (hstored : Stored s.names) (hdisk : isDiskPath mounted n = true)
    (hn : n.any isSeparator = true) : runtimeSlot s.mods n = none := by
  unfold runtimeSlot
  rw [apisetRedirect_disk hdisk, findMod_separator hstored hn]
  dsimp only
  unfold appendDllIfBare
  split
  · rfl
  · rw [Option.bind_some]
    by_cases hlong : 59 < n.length
    · refine findMod_long hstored ?_
      rw [List.length_append, List.length_take]
      omega
    · refine findMod_separator hstored ?_
      rw [List.take_of_length_le (Nat.le_of_not_lt hlong), List.any_append, hn, Bool.true_or]

theorem runtimeSlot_plain (hdisk : isDiskPath mounted n = true) (hn : n.any isSeparator = false)
    (hfind : findMod s.mods (basename n) = some i) : runtimeSlot s.mods n = some i := by
  rw [basename_of_plain hn] at hfind
  unfold runtimeSlot
  rw [apisetRedirect_disk hdisk, hfind]

end Finding

/-- The invariant: the table is the names that took a slot, no two alike, and every load that
succeeded still has its slot with its base. -/
structure Registered (w : World) : Prop where
  names : w.loader.names = w.registered
  room : w.registered.length ≤ maxModules
  stored : Stored w.registered
  apart : w.registered.Pairwise fun a b => ieq a b = false
  loads : ∀ l ∈ w.loads, l.base ≠ 0 ∧ (l.disk = true → isDiskPath true l.name = true) ∧
    ∃ i, l.slot w.loader.mods = some i ∧ w.loader.baseOf i = l.base

/-- What a step does: one name more or none, and what it loaded has its slot. -/
structure Does (w : World) (op : LdrOp) (b : Nat) (s' : Loader) (new : List (List UInt8)) : Prop where
  table : Extends w.loader s' new
  new : new = [] ∨ new = [basename op.path] ∧ w.loader.mods.length < maxModules ∧ Adds w op.path
  loaded : ∀ l ∈ op.loaded b, l.base ≠ 0 ∧ (l.disk = true → isDiskPath true l.name = true) ∧
    ∃ i, l.slot s'.mods = some i ∧ s'.baseOf i = l.base

section Invariant

variable {w : World} {op : LdrOp} {b : Nat} {s' : Loader} {new : List (List UInt8)}

theorem registered_start : Registered World.start where
  names := rfl
  room := Nat.zero_le _
  stored := fun _ hname => nomatch hname
  apart := .nil
  loads := fun _ hl => nomatch hl

theorem Registered.length (h : Registered w) : w.loader.mods.length = w.registered.length := by
  rw [← h.names]
  exact (List.length_map _).symm

/-- The names that a step adds are those that the world records. -/
theorem Does.recorded (h : Does w op b s' new) :
    new = if w.loader.mods.length < s'.mods.length then [basename op.path] else [] := by
  have hnames := congrArg List.length h.table.names
  simp only [Loader.names, List.length_map, List.length_append] at hnames
  rcases h.new with hnil | ⟨hone, -, -⟩
  · rw [hnil, List.length_nil] at hnames
    rw [if_neg (by omega), hnil]
  · rw [hone, List.length_singleton] at hnames
    rw [if_pos (by omega), hone]

/-- A load keeps its slot. -/
theorem Does.slot (h : Does w op b s' new) {l : Loaded} (hl : l ∈ w.loads) {i : Nat}
    (hslot : l.slot w.loader.mods = some i) : l.slot s'.mods = some i := by
  unfold Loaded.slot at hslot ⊢
  by_cases hdisk : l.disk = true
  · rw [if_pos hdisk] at hslot ⊢
    exact findMod_kept h.table hslot
  · rw [if_neg hdisk] at hslot ⊢
    rcases h.new with hnil | ⟨hone, -, hadds⟩
    · subst hnil
      exact runtimeSlot_kept h.table (fun _ hname => nomatch hname) (Nat.zero_le _) hslot
    · subst hone
      refine runtimeSlot_kept h.table (fun name hname => ?_) (Nat.le_refl _) hslot
      rw [List.mem_singleton.mp hname]
      exact hadds.unshadowed l hl

theorem Does.registered (h : Does w op b s' new) (hw : Registered w) : Registered (w.after op b s') := by
  have hrecorded : (w.after op b s').registered = w.registered ++ new := by
    rw [h.recorded]
    rfl
  refine ⟨?_, ?_, ?_, ?_, fun l hl => ?_⟩
  · rw [hrecorded, ← hw.names]
    exact h.table.names
  · rw [hrecorded, List.length_append]
    have hlength := hw.length
    rcases h.new with rfl | ⟨rfl, hroom, -⟩
    · exact hw.room
    · rw [List.length_singleton]
      omega
  · rw [hrecorded]
    intro name hname
    rcases List.mem_append.mp hname with hold | hnew
    · exact hw.stored name hold
    · rcases h.new with rfl | ⟨rfl, -, hadds⟩
      · cases hnew
      · rw [List.mem_singleton.mp hnew]
        exact ⟨basename_plain _, hadds.short⟩
  · rw [hrecorded, List.pairwise_append]
    refine ⟨hw.apart, ?_, fun name hname name' hname' => ?_⟩
    · rcases h.new with rfl | ⟨rfl, -, -⟩
      · exact .nil
      · exact List.pairwise_singleton ..
    · rcases h.new with rfl | ⟨rfl, -, hadds⟩
      · cases hname'
      · have hfresh := hadds.fresh
        rw [findMod_names, hw.names, List.findIdx?_eq_none_iff] at hfresh
        rw [List.mem_singleton.mp hname']
        exact hfresh name hname
  · rcases List.mem_append.mp hl with hnew | hold
    · exact h.loaded l (Option.mem_toList.mp hnew)
    · obtain ⟨hne, hdisk, i, hslot, hbase⟩ := hw.loads l hold
      refine ⟨hne, hdisk, i, h.slot hold hslot, ?_⟩
      exact (h.table.kept i (by rwa [hbase])).trans hbase

end Invariant

section Registering

variable {s : Loader} {path : List UInt8} {image : Nat}

theorem ldrRegister_full (h : ¬s.mods.length < maxModules) : ldrRegister path image s = s := by
  unfold ldrRegister
  rw [if_pos (Nat.le_of_not_lt h)]

theorem ldrRegister_room (h : s.mods.length < maxModules) (hshort : (basename path).length ≤ 31) :
    ldrRegister path image s = { s with mods := s.mods ++ [⟨basename path, image, 0⟩] } := by
  unfold ldrRegister
  rw [if_neg (Nat.not_le_of_lt h), List.take_of_length_le hshort]

theorem append_extends (s : Loader) (m : LdrMod) :
    Extends s { s with mods := s.mods ++ [m] } [m.name] := by
  refine ⟨List.map_append, fun i hi => ?_⟩
  unfold Loader.baseOf at hi ⊢
  rw [List.getD_eq_getElem?_getD] at hi ⊢
  by_cases hlt : i < s.mods.length
  · rw [List.getElem?_append_left hlt, List.getD_eq_getElem?_getD]
  · rw [List.getElem?_eq_none (Nat.le_of_not_lt hlt)] at hi
    exact absurd rfl hi

theorem setBytes_extends (s : Loader) (i bytes : Nat) :
    Extends s { s with mods := s.mods.modify i fun m => { m with bytes := bytes } } [] ∧
      ∀ j, Loader.baseOf { s with mods := s.mods.modify i fun m => { m with bytes := bytes } } j =
        s.baseOf j := by
  have hbase : ∀ j, Loader.baseOf
      { s with mods := s.mods.modify i fun m => { m with bytes := bytes } } j = s.baseOf j := fun j => by
    unfold Loader.baseOf
    rw [List.getD_eq_getElem?_getD, List.getD_eq_getElem?_getD, List.getElem?_modify]
    split
    · cases s.mods[j]? <;> rfl
    · rw [Option.map_eq_map, Option.map_id']
  refine ⟨⟨?_, fun j _ => hbase j⟩, hbase⟩
  rw [List.append_nil]
  exact names_modify s.mods i fun _ => rfl

end Registering

section Images

variable {env : Nat → Mapping} {s : Loader} {name : List UInt8} {bytes i : Nat}

/-- A module without a base whose image can be mapped. -/
theorem mapSlot_maps (hi : i < s.mods.length) (hzero : s.baseOf i = 0)
    (hmaps : (env s.attempts).base ≠ 0) : ∃ s',
    mapSlot env (fun dll s => ldrLoad env dll s) i s = some ((env s.attempts).base, s') ∧
      Extends s s' [] ∧ s'.baseOf i = (env s.attempts).base := by
  have hload : ∀ dll s', s'.unloaded < s.unloaded →
      ∃ b s'', ldrLoad env dll s' = some (b, s'') ∧ Extends s' s'' [] :=
    fun dll s' _ => (ldrLoad_loads env dll s').extends
  obtain ⟨b, s', hr, hext, -, hdone⟩ := @mapSlot_loads env _ _ _ _ hload hi hzero (Nat.lt_succ_self _)
  have hb : b = (env s.attempts).base := by
    unfold mapSlot at hr
    dsimp only at hr
    rw [if_neg hmaps] at hr
    obtain ⟨s₁, -, heq⟩ := Option.map_eq_some_iff.mp hr
    exact (Prod.mk.inj heq).1.symm
  subst hb
  obtain ⟨j, hj, hbase⟩ := hdone hmaps
  cases hj
  exact ⟨s', hr, hext, hbase⟩

theorem ldrLoadImage_known (hfind : findMod s.mods (basename name) = some i)
    (hmaps : s.baseOf i ≠ 0 ∨ (env s.attempts).base ≠ 0) : ∃ b s',
    ldrLoadImage env name bytes s = some (b, s') ∧ Extends s s' [] ∧ b ≠ 0 ∧ s'.baseOf i = b := by
  unfold ldrLoadImage
  dsimp only
  rw [hfind]
  dsimp only
  by_cases hbase : s.baseOf i = 0
  · rw [if_neg (not_not.mpr hbase)]
    have hmap := hmaps.resolve_left (not_not.mpr hbase)
    obtain ⟨hext, hsame⟩ := setBytes_extends s i bytes
    have hi : i < (s.mods.modify i fun m => { m with bytes := bytes }).length := by
      rw [List.length_modify]
      exact findMod_some hfind
    obtain ⟨s', hr, hmapped, hdone⟩ := mapSlot_maps hi ((hsame i).trans hbase) hmap
    exact ⟨_, s', hr, hext.trans hmapped, hmap, hdone⟩
  · rw [if_pos hbase]
    exact ⟨_, s, rfl, .refl s, hbase, rfl⟩

theorem ldrLoadImage_full (hfind : findMod s.mods (basename name) = none)
    (hfull : ¬s.mods.length < maxModules) : ldrLoadImage env name bytes s = some (0, s) := by
  unfold ldrLoadImage
  dsimp only
  rw [hfind]
  dsimp only
  rw [ldrRegister_full hfull, hfind]

theorem ldrLoadImage_adds (hfind : findMod s.mods (basename name) = none)
    (hroom : s.mods.length < maxModules) (hshort : (basename name).length ≤ 31)
    (hmaps : (env s.attempts).base ≠ 0) : ∃ b s',
    ldrLoadImage env name bytes s = some (b, s') ∧ Extends s s' [basename name] ∧ b ≠ 0 ∧
      findMod s'.mods (basename name) = some s.mods.length ∧ s'.baseOf s.mods.length = b := by
  let s₁ : Loader := { s with mods := s.mods ++ [⟨basename name, bytes, 0⟩] }
  have hregister : ldrRegister (basename name) bytes s = s₁ := by
    rw [ldrRegister_room hroom (by rwa [basename_basename]), basename_basename]
  have hext : Extends s s₁ [basename name] := append_extends s ⟨basename name, bytes, 0⟩
  have hfound : findMod s₁.mods (basename name) = some s.mods.length := by
    rw [findMod_extends hext, hfind, List.findIdx?_cons, ieq_refl]
    simp
  have hzero : s₁.baseOf s.mods.length = 0 := by
    unfold Loader.baseOf
    simp [s₁]
  obtain ⟨s', hr, hmapped, hdone⟩ := mapSlot_maps (findMod_some hfound) hzero hmaps
  refine ⟨_, s', ?_, hext.trans hmapped, hmaps, findMod_kept hmapped hfound, hdone⟩
  unfold ldrLoadImage
  dsimp only
  rw [hfind]
  dsimp only
  rw [hregister, hfound]
  exact hr

end Images

section Histories

variable {env : Nat → Mapping} {w : World} {op : LdrOp} {mounted : Bool} {name : List UInt8}
  {bytes b : Nat} {file : Option Nat} {s' : Loader}

/-- A load that adds no name. -/
theorem does_loads {slot : Option Nat} {r : Option (Nat × Loader)}
    (h : Loads w.loader [] slot r) (hload : op.isLoad = true)
    (hslot : ∀ b, ∀ l ∈ op.loaded b, l.base = b ∧ l.disk = false ∧
      slot = runtimeSlot w.loader.mods l.name) :
    ∃ b s' new, r = some (b, s') ∧ Does w op b s' new ∧ StepRight w op b s' := by
  obtain ⟨b, s', hr, hext, hfail, hdone⟩ := h
  refine ⟨b, s', [], hr, ⟨hext, .inl rfl, fun l hl => ?_⟩, fun _ => hfail, fun path image hop => ?_⟩
  · obtain ⟨hbase, hdisk, hslot⟩ := hslot b l hl
    have hne : b ≠ 0 := by
      rintro rfl
      cases op <;> cases hl
    obtain ⟨i, hi, hbi⟩ := hdone hne
    refine ⟨hbase ▸ hne, fun htrue => ?_, i, ?_, hbi.trans hbase.symm⟩
    · rw [hdisk] at htrue
      cases htrue
    · unfold Loaded.slot
      rw [if_neg (by rw [hdisk]; exact Bool.false_ne_true)]
      refine runtimeSlot_kept hext (fun _ hname => nomatch hname) (Nat.zero_le _) ?_
      rw [← hslot, hi]
  · subst hop
    cases hload

/-- An image that was read from the volume. -/
theorem does_image {i : Nat} {new : List (List UInt8)} (hdisk : isDiskPath mounted name = true)
    (hext : Extends w.loader s' new)
    (hnew : new = [] ∨ new = [basename name] ∧ w.loader.mods.length < maxModules ∧ Adds w name)
    (hb : b ≠ 0) (hfind : findMod s'.mods (basename name) = some i) (hbase : s'.baseOf i = b) :
    Does w (.loadLibrary mounted name file) b s' new ∧
      StepRight w (.loadLibrary mounted name file) b s' := by
  refine ⟨⟨hext, hnew, fun l hl => ?_⟩, fun _ hzero => absurd hzero hb, fun _ _ hop => nomatch hop⟩
  unfold LdrOp.loaded at hl
  dsimp only at hl
  rw [if_neg hb, hdisk] at hl
  obtain rfl := Option.some.inj hl
  refine ⟨hb, fun _ => ?_, i, hfind, hbase⟩
  unfold isDiskPath at hdisk ⊢
  rw [Bool.and_eq_true] at hdisk ⊢
  exact ⟨rfl, hdisk.2⟩

/-- A load that changes nothing. -/
theorem does_nothing (hloaded : op.loaded 0 = none) (hop : ∀ path image, op ≠ .register path image) :
    Does w op 0 w.loader [] ∧ StepRight w op 0 w.loader := by
  refine ⟨⟨.refl _, .inl rfl, fun l hl => ?_⟩, fun _ _ => rfl, fun path image heq => ?_⟩
  · rw [hloaded] at hl
    cases hl
  · exact absurd heq (hop path image)

theorem does_register {path : List UInt8} {image : Nat} (hfits : StepFits env w (.register path image)) :
    ∃ new, Does w (.register path image) 0 (ldrRegister path image w.loader) new ∧
      StepRight w (.register path image) 0 (ldrRegister path image w.loader) := by
  by_cases hroom : w.loader.mods.length < maxModules
  · have hadds := hfits hroom
    rw [ldrRegister_room hroom hadds.short]
    refine ⟨[basename path], ⟨append_extends w.loader ⟨basename path, image, 0⟩,
      .inr ⟨rfl, hroom, hadds⟩, fun l hl => nomatch hl⟩, ⟨fun hload => absurd hload Bool.false_ne_true, ?_⟩⟩
    intro path' image' heq
    cases heq
    rw [if_pos hroom]
  · rw [ldrRegister_full hroom]
    refine ⟨[], ⟨.refl _, .inl rfl, fun l hl => nomatch hl⟩, ⟨fun hload => absurd hload Bool.false_ne_true, ?_⟩⟩
    intro path' image' _
    rw [if_neg hroom, List.append_nil]

theorem does_loadLibrary (hfits : StepFits env w (.loadLibrary mounted name file)) : ∃ b s' new,
    sysLoadLibrary env mounted name file w.loader = some (b, s') ∧
      Does w (.loadLibrary mounted name file) b s' new ∧
      StepRight w (.loadLibrary mounted name file) b s' := by
  unfold sysLoadLibrary
  split
  · rename_i hdisk
    cases file with
    | none => exact ⟨0, _, [], rfl, does_nothing rfl fun _ _ heq => nomatch heq⟩
    | some buf =>
      dsimp only
      have hread := hfits hdisk rfl
      cases hfind : findMod w.loader.mods (basename name) with
      | some i =>
        rw [hfind] at hread
        obtain ⟨b, s', hr, hext, hb, hbase⟩ := @ldrLoadImage_known env _ name buf _ hfind hread
        exact ⟨b, s', [], hr, does_image hdisk hext (.inl rfl) hb (findMod_kept hext hfind) hbase⟩
      | none =>
        rw [hfind] at hread
        by_cases hroom : w.loader.mods.length < maxModules
        · obtain ⟨hadds, hmaps⟩ := hread hroom
          obtain ⟨b, s', hr, hext, hb, hslot, hbase⟩ :=
            @ldrLoadImage_adds env _ name buf hfind hroom hadds.short hmaps
          exact ⟨b, s', _, hr, does_image hdisk hext (.inr ⟨rfl, hroom, hadds⟩) hb hslot hbase⟩
        · exact ⟨0, _, [], ldrLoadImage_full hfind hroom,
            does_nothing rfl fun _ _ heq => nomatch heq⟩
  · rename_i hdisk
    refine does_loads (ldrLoadRuntime_loads env name w.loader) rfl fun b l hl => ?_
    unfold LdrOp.loaded at hl
    dsimp only at hl
    split at hl
    · cases hl
    · obtain rfl := Option.some.inj hl
      exact ⟨rfl, Bool.eq_false_iff.mpr hdisk, rfl⟩

theorem does_setBase {base : Nat} (hfits : StepFits env w (.setBase name base)) : ∃ new,
    Does w (.setBase name base) 0 (ldrModuleSetBase name base w.loader) new := by
  unfold ldrModuleSetBase
  cases hfind : findMod w.loader.mods name with
  | none => exact ⟨[], .refl _, .inl rfl, fun l hl => nomatch hl⟩
  | some i =>
    exact ⟨[], setBase_extends (findMod_some hfind) (hfits i hfind) base, .inl rfl,
      fun l hl => nomatch hl⟩

theorem step_does (hfits : StepFits env w op) : ∃ b s' new,
    ldrOp env op w.loader = some (b, s') ∧ Does w op b s' new ∧ StepRight w op b s' := by
  cases op with
  | register path image =>
    obtain ⟨new, hdoes, hright⟩ := does_register hfits
    exact ⟨0, _, new, rfl, hdoes, hright⟩
  | loadLibrary mounted name file => exact does_loadLibrary hfits
  | resolve dll =>
    exact does_loads (ldrLoad_loads env (apisetRedirect dll) w.loader) rfl fun _ l hl => nomatch hl
  | setBase name base =>
    obtain ⟨new, hdoes⟩ := does_setBase hfits
    exact ⟨0, _, new, rfl, hdoes, ⟨fun hload => absurd hload Bool.false_ne_true, fun _ _ hop => nomatch hop⟩⟩

/-- What is registered is found. -/
theorem Registered.right (h : Registered w) : RegistryRight env w := by
  have hstored : Stored w.loader.names := by
    rw [h.names]
    exact h.stored
  refine ⟨⟨h.length, h.room⟩, fun k name hk n => ?_, fun l hl mounted file hroute hfile => ?_,
    fun l hl => ?_, fun l hl l' hl' hdisk hdisk' hne hsame => ?_⟩
  · rw [findMod_names, h.names, findIdx?_pairwise]
    · constructor
      · rintro ⟨name', hk', hieq⟩
        rw [hk] at hk'
        cases hk'
        exact hieq
      · exact fun hieq => ⟨name, hk, hieq⟩
    · refine h.apart.imp fun hab hboth => ?_
      rw [ieq_trans hboth.1 (ieq_symm hboth.2)] at hab
      cases hab
  · obtain ⟨hne, -, i, hslot, hbase⟩ := h.loads l hl
    unfold Loaded.slot at hslot
    unfold sysLoadLibrary
    rw [hroute]
    by_cases hdisk : l.disk = true
    · rw [if_pos hdisk] at hslot ⊢
      obtain ⟨buf, rfl⟩ := Option.isSome_iff_exists.mp (hfile hdisk)
      dsimp only
      unfold ldrLoadImage
      dsimp only
      rw [hslot]
      dsimp only
      rw [if_pos (by rwa [hbase]), hbase]
    · rw [if_neg hdisk] at hslot ⊢
      rw [ldrLoadRuntime_again hslot (by rwa [hbase]), hbase]
  · obtain ⟨hne, hpath, i, hslot, hbase⟩ := h.loads l hl
    unfold sysGetModuleHandle
    rw [ldrFindRuntime_eq]
    unfold Loaded.slot at hslot
    by_cases hdisk : l.disk = true
    · rw [if_pos hdisk] at hslot
      have hname := hpath hdisk
      cases hany : l.name.any isSeparator with
      | false =>
        rw [runtimeSlot_plain hname hany hslot]
        exact iff_of_true hbase fun _ => rfl
      | true =>
        rw [runtimeSlot_separator hstored hname hany]
        exact iff_of_false (fun heq => hne heq.symm) fun hplain => Bool.noConfusion (hplain hdisk)
    · rw [if_neg hdisk] at hslot
      rw [hslot]
      exact iff_of_true hbase fun htrue => absurd htrue hdisk
  · obtain ⟨-, -, i, hslot, -⟩ := h.loads l hl
    have hslot' := hsame.symm.trans hslot
    unfold Loaded.slot at hslot hslot'
    rw [if_pos hdisk] at hslot
    rw [if_pos hdisk'] at hslot'
    -- one slot has one name
    obtain ⟨_, hm, -⟩ := List.findIdx?_eq_some_iff_getElem.mp hslot
    obtain ⟨_, hm', -⟩ := List.findIdx?_eq_some_iff_getElem.mp hslot'
    rw [ieq_trans (ieq_symm hm) hm'] at hne
    cases hne

/-- Worlds reached by steps that fit. -/
abbrev ModuleReach (env : Nat → Mapping) : World → Prop :=
  Reach (fun w => w = World.start) (fun w op w' => w.step env op = some w') (StepFits env)

theorem registered_reach (h : ModuleReach env w) : Registered w := by
  refine h.invariant (fun w hw => ?_) fun w op w' hw hfits hstep => ?_
  · rw [hw]
    exact registered_start
  · obtain ⟨b, s', new, hr, hdoes, -⟩ := step_does hfits
    unfold World.step at hstep
    rw [hr] at hstep
    cases hstep
    exact hdoes.registered hw

/-- In every history whose steps fit, a module that is registered is found by its base name and by
no other name, and a load that gave a base gives it again. -/
theorem module_registry (h : ModuleReach env w) : RegistryRight env w ∧
    ∀ op, StepFits env w op → ∃ b s', ldrOp env op w.loader = some (b, s') ∧ StepRight w op b s' := by
  refine ⟨(registered_reach h).right, fun op hfits => ?_⟩
  obtain ⟨b, s', -, hr, -, hright⟩ := step_does hfits
  exact ⟨b, s', hr, hright⟩

end Histories

section Boot

/-- Only the first two images can be mapped. -/
def twoMap (k : Nat) : Mapping := ⟨if k < 2 then 0x1000000 + k * 0x200000 else 0, []⟩

def World.next (w : World) (op : LdrOp) : World := (w.step twoMap op).getD w

/-- A boot module, its API set, and a file of the volume. -/
def bootWorld : World :=
  let w := World.start.next (.register (ascii "/boot/kernel32.dll") 1)
  let w := w.next (.loadLibrary true (ascii "KernelBase") none)
  w.next (.loadLibrary true (ascii "C:\\hello.dll") (some 2))

theorem next_reach {w : World} {op : LdrOp} (h : ModuleReach twoMap w) (hfits : StepFits twoMap w op) :
    ModuleReach twoMap (w.next op) := by
  obtain ⟨b, s', -, hr, -⟩ := step_does hfits
  refine .step h hfits (?_ : w.step twoMap op = some (w.next op))
  unfold World.next World.step
  rw [hr]
  rfl

theorem bootWorld_reach : ModuleReach twoMap bootWorld := by
  refine next_reach (next_reach (next_reach (.start rfl) fun _ => ⟨?_, ?_, ?_⟩) fun hdisk => ?_)
    fun _ _ => ?_
  · decide +kernel
  · decide +kernel
  · exact fun l hl => nomatch hl
  · exact absurd hdisk (by decide +kernel)
  · have hfind : findMod ((World.start.next (.register (ascii "/boot/kernel32.dll") 1)).next
        (.loadLibrary true (ascii "KernelBase") none)).loader.mods (basename (ascii "C:\\hello.dll")) =
        none := by decide +kernel
    rw [hfind]
    exact fun _ => ⟨⟨by decide +kernel, by decide +kernel, by decide +kernel⟩, by decide +kernel⟩

theorem module_registry_boot :
    sysLoadLibrary twoMap true (ascii "KernelBase") none bootWorld.loader =
      some (0x1000000, bootWorld.loader) ∧
    sysGetModuleHandle (ascii "KernelBase") bootWorld.loader = 0x1000000 := by
  have hright := (module_registry bootWorld_reach).1
  have hmem : (⟨ascii "KernelBase", 0x1000000, false⟩ : Loaded) ∈ bootWorld.loads := by decide +kernel
  exact ⟨hright.again _ hmem true none (by decide +kernel) Bool.noConfusion,
    (hright.handle _ hmem).mpr Bool.noConfusion⟩

def longPath : List UInt8 := ascii "/boot/api-ms-win-core-synch-ansi-l1-1-0.dll"

/-- `LoadLibrary` gives a file's base and `GetModuleHandle` for the same path nothing; a longer name
takes a slot and is not found there; and a file that cannot be mapped keeps its slot. -/
theorem file_without_handle : ModuleReach twoMap bootWorld ∧
    (⟨ascii "C:\\hello.dll", 0x1200000, true⟩ ∈ bootWorld.loads ∧
      sysGetModuleHandle (ascii "C:\\hello.dll") bootWorld.loader = 0) ∧
    findMod (ldrRegister longPath 3 bootWorld.loader).mods (basename longPath) = none ∧
    ((sysLoadLibrary twoMap true (ascii "C:\\other.dll") (some 3) bootWorld.loader).map
      fun r => (r.1, r.2.mods.length)) = some (0, bootWorld.loader.mods.length + 1) :=
  ⟨bootWorld_reach, by decide +kernel⟩

end Boot

end MeuOS.Ldr
