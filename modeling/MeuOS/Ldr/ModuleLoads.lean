import MeuOS.Ldr.Modules
import MeuOS.Lib.Slots

/-! What loading does to the module table. A nested load finds one module fewer without a base, so
every load ends; the names stay, and so does every base that is there. -/
namespace MeuOS.Ldr

open MeuOS.Lib

def Loader.names (s : Loader) : List (List UInt8) := s.mods.map LdrMod.name

/-- New names come after the old ones, and a base that is there stays. -/
structure Extends (s s' : Loader) (new : List (List UInt8)) : Prop where
  names : s'.names = s.names ++ new
  kept : ∀ i, s.baseOf i ≠ 0 → s'.baseOf i = s.baseOf i

/-- The modules that have no base yet. -/
def Loader.unloaded (s : Loader) : Nat :=
  (List.range s.mods.length).countP fun i => s.baseOf i == 0

/-- The slot that a name of the table stands for at run time. -/
def runtimeSlot (mods : List LdrMod) (name : List UInt8) : Option Nat :=
  match findMod mods (apisetRedirect name) with
  | some i => some i
  | none => (appendDllIfBare (apisetRedirect name) 64).bind (findMod mods)

/-- A load that ends. It gives the base that a slot now has, or nothing and leaves the table. -/
def Loads (s : Loader) (new : List (List UInt8)) (slot : Option Nat) (r : Option (Nat × Loader)) : Prop :=
  ∃ b s', r = some (b, s') ∧ Extends s s' new ∧ (b = 0 → s'.mods = s.mods) ∧
    (b ≠ 0 → ∃ i, slot = some i ∧ s'.baseOf i = b)

section Tables

variable {s s' s'' : Loader} {i : Nat} {name : List UInt8} {new new' : List (List UInt8)}

theorem Extends.refl (s : Loader) : Extends s s [] := ⟨(List.append_nil _).symm, fun _ _ => rfl⟩

theorem Extends.trans (h : Extends s s' new) (h' : Extends s' s'' new') : Extends s s'' (new ++ new') := by
  refine ⟨?_, fun i hi => ?_⟩
  · rw [h'.names, h.names, List.append_assoc]
  · rw [h'.kept i (by rwa [h.kept i hi]), h.kept i hi]

theorem Extends.of_mods (h : s'.mods = s.mods) : Extends s s' [] := by
  refine ⟨?_, fun i _ => ?_⟩
  · unfold Loader.names
    rw [h, List.append_nil]
  · unfold Loader.baseOf
    rw [h]

theorem Extends.length (h : Extends s s' []) : s'.mods.length = s.mods.length := by
  have hnames := congrArg List.length h.names
  simpa [Loader.names] using hnames

/-- Without new names there are no more modules without a base than before. -/
theorem Extends.unloaded_le (h : Extends s s' []) : s'.unloaded ≤ s.unloaded := by
  unfold Loader.unloaded
  rw [h.length]
  refine List.countP_mono_left fun i _ hzero => ?_
  rw [beq_iff_eq] at hzero ⊢
  by_contra hne
  rw [h.kept i hne] at hzero
  exact hne hzero

theorem findMod_some (h : findMod s.mods name = some i) : i < s.mods.length := by
  obtain ⟨hlt, -⟩ := List.findIdx?_eq_some_iff_getElem.mp h
  exact hlt

theorem baseOf_setBase (hi : i < s.mods.length) (base j : Nat) :
    (s.setBase i base).baseOf j = if j = i then base else s.baseOf j := by
  unfold Loader.setBase Loader.baseOf
  rw [List.getD_eq_getElem?_getD, List.getD_eq_getElem?_getD, List.getElem?_modify]
  by_cases hji : j = i
  · subst hji
    simp [hi]
  · simp [hji, Ne.symm hji]

theorem names_modify (mods : List LdrMod) (i : Nat) {f : LdrMod → LdrMod} (hf : ∀ m, (f m).name = m.name) :
    (mods.modify i f).map LdrMod.name = mods.map LdrMod.name := by
  apply List.ext_getElem?
  intro j
  rw [List.getElem?_map, List.getElem?_map, List.getElem?_modify]
  split
  · cases mods[j]? <;> simp [hf]
  · simp

theorem setBase_extends (hi : i < s.mods.length) (hzero : s.baseOf i = 0) (base : Nat) :
    Extends s (s.setBase i base) [] := by
  refine ⟨?_, fun j hj => ?_⟩
  · rw [List.append_nil]
    exact names_modify s.mods i fun _ => rfl
  · have hji : j ≠ i := fun heq => hj (heq ▸ hzero)
    rw [baseOf_setBase hi, if_neg hji]

theorem setBase_unloaded (hi : i < s.mods.length) (hzero : s.baseOf i = 0) {base : Nat} (hbase : base ≠ 0) :
    (s.setBase i base).unloaded < s.unloaded := by
  have hlength : (s.setBase i base).mods.length = s.mods.length := List.length_modify ..
  have hflags : (fun j => (s.setBase i base).baseOf j == 0) =
      Function.update (fun j => s.baseOf j == 0) i false := by
    funext j
    rw [baseOf_setBase hi]
    by_cases hji : j = i
    · subst hji
      rw [if_pos rfl, Function.update_self]
      simpa using hbase
    · rw [if_neg hji, Function.update_of_ne hji]
  have hcount := countP_update (f := fun j => s.baseOf j == 0) hi false
  unfold Loader.unloaded
  rw [hlength, hflags]
  simp only [hzero, beq_self_eq_true, Bool.toNat_true, Bool.toNat_false] at hcount
  omega

end Tables

section Loading

variable {env : Nat → Mapping} {s s' : Loader} {i depth : Nat} {name : List UInt8}
  {load : List UInt8 → Loader → Option (Nat × Loader)}

theorem Loads.extends {new : List (List UInt8)} {slot : Option Nat} {r : Option (Nat × Loader)}
    (h : Loads s new slot r) : ∃ b s', r = some (b, s') ∧ Extends s s' new := by
  obtain ⟨b, s', hr, hext, -⟩ := h
  exact ⟨b, s', hr, hext⟩

/-- The imports of an image, one after the other. -/
theorem foldlM_loads
    (hload : ∀ dll s, s.unloaded < depth → ∃ b s', load dll s = some (b, s') ∧ Extends s s' [])
    (imports : List (List UInt8)) (hdepth : s.unloaded < depth) : ∃ s',
    imports.foldlM (fun s dll => (load (apisetRedirect dll) s).map Prod.snd) s = some s' ∧
      Extends s s' [] := by
  induction imports generalizing s with
  | nil => exact ⟨s, rfl, .refl s⟩
  | cons dll imports ih =>
    obtain ⟨b, s₁, hfirst, hext₁⟩ := hload (apisetRedirect dll) s hdepth
    obtain ⟨s₂, hrest, hext₂⟩ := ih (Nat.lt_of_le_of_lt hext₁.unloaded_le hdepth)
    refine ⟨s₂, ?_, hext₁.trans hext₂⟩
    rw [List.foldlM_cons, hfirst]
    exact hrest

theorem mapSlot_loads
    (hload : ∀ dll s, s.unloaded < depth → ∃ b s', load dll s = some (b, s') ∧ Extends s s' [])
    (hi : i < s.mods.length) (hzero : s.baseOf i = 0) (hdepth : s.unloaded < depth + 1) :
    Loads s [] (some i) (mapSlot env load i s) := by
  unfold mapSlot
  dsimp only
  split
  · exact ⟨0, _, rfl, .of_mods rfl, fun _ => rfl, fun hne => absurd rfl hne⟩
  · rename_i hbase
    let tried : Loader := { s with attempts := s.attempts + 1 }
    have htried : Extends s tried [] := .of_mods rfl
    have hmapped : Extends s (tried.setBase i (env s.attempts).base) [] :=
      htried.trans (setBase_extends (s := tried) hi hzero _)
    have hfewer : (tried.setBase i (env s.attempts).base).unloaded < s.unloaded :=
      setBase_unloaded (s := tried) hi hzero hbase
    obtain ⟨s', hfold, hext⟩ := foldlM_loads hload (env s.attempts).imports
      (s := tried.setBase i (env s.attempts).base) (by omega)
    have hset : (tried.setBase i (env s.attempts).base).baseOf i = (env s.attempts).base := by
      rw [baseOf_setBase (s := tried) hi, if_pos rfl]
    refine ⟨(env s.attempts).base, s', ?_, hmapped.trans hext, fun heq => absurd heq hbase, fun _ =>
      ⟨i, rfl, ?_⟩⟩
    · rw [hfold]
      rfl
    · rw [hext.kept i (by rwa [hset]), hset]

/-- As deep as there are modules without a base. -/
theorem ldrLoadN_loads (hdepth : s.unloaded < depth) :
    Loads s [] (findMod s.mods name) (ldrLoadN env depth name s) := by
  induction depth generalizing s name with
  | zero => omega
  | succ depth ih =>
    unfold ldrLoadN
    cases hfind : findMod s.mods name with
    | none => exact ⟨0, s, rfl, .refl s, fun _ => rfl, fun hne => absurd rfl hne⟩
    | some i =>
      dsimp only
      split
      · exact ⟨s.baseOf i, s, rfl, .refl s, fun _ => rfl, fun _ => ⟨i, rfl, rfl⟩⟩
      · rename_i hzero
        exact mapSlot_loads (fun dll s hs => (ih hs).extends) (findMod_some hfind)
          (Decidable.not_not.mp hzero) hdepth

theorem unloaded_le (s : Loader) : s.unloaded ≤ s.mods.length := by
  unfold Loader.unloaded
  exact List.countP_le_length.trans (Nat.le_of_eq List.length_range)

theorem ldrLoad_loads (env : Nat → Mapping) (name : List UInt8) (s : Loader) :
    Loads s [] (findMod s.mods name) (ldrLoad env name s) :=
  ldrLoadN_loads (Nat.lt_succ_of_le (unloaded_le s))

theorem ldrLoad_again (hfind : findMod s.mods name = some i) (hbase : s.baseOf i ≠ 0) :
    ldrLoad env name s = some (s.baseOf i, s) := by
  unfold ldrLoad ldrLoadN
  rw [hfind]
  exact if_pos hbase

theorem ldrLoadRuntime_loads (env : Nat → Mapping) (name : List UInt8) (s : Loader) :
    Loads s [] (runtimeSlot s.mods name) (ldrLoadRuntime env name s) := by
  have hred := ldrLoad_loads env (apisetRedirect name) s
  unfold ldrLoadRuntime runtimeSlot
  dsimp only
  cases hfind : findMod s.mods (apisetRedirect name) with
  | some i =>
    rw [hfind] at hred
    exact hred
  | none =>
    -- what is not in the table is not loaded
    have hnone : ∀ slot, Loads s [] slot (ldrLoad env (apisetRedirect name) s) := fun slot => by
      obtain ⟨b, s', hr, hext, hfail, hdone⟩ := hred
      refine ⟨b, s', hr, hext, hfail, fun hne => ?_⟩
      obtain ⟨i, hi, -⟩ := hdone hne
      rw [hfind] at hi
      cases hi
    rw [Option.isSome_none, if_neg Bool.false_ne_true]
    cases appendDllIfBare (apisetRedirect name) 64 with
    | none => exact hnone _
    | some buf =>
      dsimp only
      split
      · exact ldrLoad_loads env buf s
      · exact hnone _

theorem ldrLoadRuntime_again (hslot : runtimeSlot s.mods name = some i) (hbase : s.baseOf i ≠ 0) :
    ldrLoadRuntime env name s = some (s.baseOf i, s) := by
  unfold runtimeSlot at hslot
  unfold ldrLoadRuntime
  dsimp only
  cases hfind : findMod s.mods (apisetRedirect name) with
  | some j =>
    rw [hfind] at hslot
    cases hslot
    exact ldrLoad_again hfind hbase
  | none =>
    rw [hfind] at hslot
    obtain ⟨buf, hbuf, hfound⟩ := Option.bind_eq_some_iff.mp hslot
    rw [Option.isSome_none, if_neg Bool.false_ne_true, hbuf]
    dsimp only
    rw [if_pos (by rw [hfound]; rfl)]
    exact ldrLoad_again hfound hbase

theorem ldrFindRuntime_eq (name : List UInt8) (s : Loader) :
    ldrFindRuntime name s = ((runtimeSlot s.mods name).map s.baseOf).getD 0 := by
  unfold ldrFindRuntime runtimeSlot
  dsimp only
  cases findMod s.mods (apisetRedirect name) with
  | some i => rfl
  | none =>
    dsimp only
    cases (appendDllIfBare (apisetRedirect name) 64).bind (findMod s.mods) <;> rfl

end Loading

end MeuOS.Ldr
