import MeuOS.Cm.Paths
import Mathlib.Data.List.GetD
import Mathlib.Data.List.TakeWhile

/-! Absolute paths, the key made for a driver and the path its `DriverEntry` gets. -/
namespace MeuOS.Cm

open MeuOS.Lib MeuOS.Mm MeuOS.Ob

/-- The documented form of the path of `X`. -/
def absolute (path : List UInt8) : List UInt8 := ascii "\\Registry\\" ++ path

/-! ## Two walks in one tree -/

theorem components_absolute (path : List UInt8) :
    components (absolute path) = ascii "Registry" :: components path := by
  have hsplit : absolute path = 92 :: (ascii "Registry" ++ 92 :: path) := rfl
  rw [hsplit, components_separator rfl,
    components_segment (by decide) (noSeparator (by decide)) (by decide) (fun c hc => by cases hc; rfl),
    components_separator rfl]

section Walks

variable {s : RegState}

/-- Walks of different lengths from the root do not meet. -/
theorem RegWellFormed.two_walks {names names' : List (List UInt8)} (h : RegWellFormed s)
    (hroot : s.sRoot ≠ 0) (hnames : ∀ n ∈ names, n.length < maxName ∧ 0 ∉ n)
    (hnames' : ∀ n ∈ names', n.length < maxName ∧ 0 ∉ n) (hlength : names.length ≠ names'.length)
    (create : Bool) :
    ∃ s₁ k₁ s₂ k₂, walk create s s.sRoot names = some (s₁, k₁) ∧
      walk create s₁ s.sRoot names' = some (s₂, k₂) ∧
      (k₁ = k₂ ↔ Lost create s s.sRoot names ∧ Lost create s₁ s.sRoot names') := by
  obtain ⟨live, role, htree, hrole⟩ := h.tree
  obtain ⟨s₁, k₁, hwalk, hzero, role₁, hstep, hfound⟩ := htree.walk hrole hroot hnames create
  obtain ⟨live₁, htree₁⟩ := hstep.tree
  obtain ⟨s₂, k₂, hwalk', hzero', role₂, hstep', hfound'⟩ :=
    htree₁.walk (hstep.kept _ _ hrole).1 hroot hnames' create
  refine ⟨s₁, k₁, s₂, k₂, hwalk, hwalk', ?_⟩
  rw [← hzero, ← hzero']
  refine ⟨fun heq => ?_, fun hboth => hboth.1.trans hboth.2.symm⟩
  by_contra hne
  have hk₁ : k₁ ≠ 0 := fun hk => hne ⟨hk, heq ▸ hk⟩
  obtain ⟨above₁, hrole₁, hlength₁, -⟩ := hfound hk₁
  obtain ⟨above₂, hrole₂, hlength₂, -⟩ := hfound' (heq ▸ hk₁)
  have hsame := (hstep'.kept _ _ hrole₁).1
  rw [heq, hrole₂] at hsame
  cases hsame
  exact hlength (by rw [List.length_nil] at hlength₁ hlength₂; omega)

end Walks

/-! ## The key of a driver -/

def regSz : Nat := 1
def regDword : Nat := 4

def stripSys (name : List UInt8) : List UInt8 :=
  if (ascii ".sys").isSuffixOf name then name.take (name.length - 4) else name

def dBasename (path : List UInt8) : List UInt8 :=
  (path.reverse.takeWhile fun c => !isSeparator c).reverse

def serviceName (drvBasename : List UInt8) : List UInt8 := stripSys (drvBasename.take 60)

def servicesPath : List UInt8 := ascii "Machine\\System\\CurrentControlSet\\Services"

/-- The `uint32_t` at the address the caller passes. -/
def dword (n : UInt8) : Mem := fun i => if i = 0 then n else 0

def text (l : List UInt8) : Mem := fun i => l.getD i 0

def imagePath (drvBasename : List UInt8) : List UInt8 :=
  (ascii "\\??\\C:\\Windows\\System32\\drivers\\" ++ drvBasename).take 120

def setDword (s : RegState) (k : Nat) (name : String) (n : UInt8) : Option RegState :=
  (regSetValue s k (ascii name) regDword (some (dword n)) 4).map Prod.fst

/-- The values of the key, and its subkey. -/
def writeService (s : RegState) (svc : Nat) (drvBasename : List UInt8) : Option RegState :=
  (setDword s svc "Type" 1).bind fun s =>
  (setDword s svc "Start" 0).bind fun s =>
  (setDword s svc "ErrorControl" 1).bind fun s =>
  (regSetValue s svc (ascii "ImagePath") regSz (some (text (imagePath drvBasename)))
    ((imagePath drvBasename).length + 1)).bind fun (s, _) =>
  (regGetOrCreateChild s svc (ascii "Parameters")).bind fun (s, params) =>
    if params = 0 then some s else setDword s params "Initialized" 1

/-- The key is 0 where it could not be made. -/
def registryCreateDriverService (s : RegState) (drvBasename : List UInt8) : Option (RegState × Nat) :=
  if s.sRoot = 0 then some (s, 0)
  else
    (regResolvePath s s.sRoot servicesPath true).bind fun (s, serv) =>
      if serv = 0 then some (s, 0)
      else
        (regGetOrCreateChild s serv (serviceName drvBasename)).bind fun (s, svc) =>
          if svc = 0 then some (s, 0)
          else (writeService s svc drvBasename).map fun s => (s, svc)

/-- `drv_name` is none for a null pointer. -/
def driverBasename (drvName : Option CString) : List UInt8 :=
  match drvName with
  | some path => dBasename path.chars
  | none => ascii "unknown"

/-- `reg_path_w`, a byte for a character. -/
def registryPath (drvName : Option CString) : List UInt8 :=
  let prefixed := ascii "\\Registry\\Machine\\System\\CurrentControlSet\\Services\\"
  match drvName with
  | some path => stripSys (prefixed ++ (dBasename path.chars).take 32)
  | none => prefixed

/-- A `char` as a `WCHAR`. -/
def wchar (c : UInt8) : UInt16 := if c < 128 then c.toUInt16 else 0xFF00 + c.toUInt16

/-- The `RegistryPath` of `DriverEntry`. -/
def registryPathString (drvName : Option CString) : UnicodeString where
  length := (registryPath drvName).length * 2
  buffer := some fun i => wchar ((registryPath drvName).getD i 0)

/-- The key `NtOpenKey` finds under a path without a root directory. -/
def openedKey (s : RegState) (name : UnicodeString) : Option Nat :=
  (KeyCall.openKey.resolve s ⟨0, some name⟩).map Prod.snd

theorem wchar_toUInt8 (c : UInt8) : (wchar c).toUInt8 = c := by
  have hlt := c.toNat_lt
  apply UInt8.toNat_inj.1
  unfold wchar
  rw [UInt16.toNat_toUInt8]
  split
  · rw [UInt8.toNat_toUInt16]
    omega
  · rw [UInt16.toNat_add, UInt8.toNat_toUInt16]
    have hconst : (0xFF00 : UInt16).toNat = 65280 := rfl
    omega

/-- What `uni_to_ascii` makes of such a string. -/
theorem pathOf_chars {chars : List UInt8} (hshort : chars.length ≤ 255) (h0 : 0 ∉ chars) :
    pathOf ⟨chars.length * 2, some fun i => wchar (chars.getD i 0)⟩ = chars := by
  unfold pathOf uniToAscii cstr
  simp only [Option.bind_some, Option.map_some]
  have hcount : min (chars.length * 2 / 2) (256 - 1) = chars.length := by omega
  have hmap : (List.range chars.length).map (fun i => (wchar (chars.getD i 0)).toUInt8) = chars := by
    refine List.ext_getElem (by rw [List.length_map, List.length_range]) fun i hi hi' => ?_
    rw [List.getElem_map, List.getElem_range, wchar_toUInt8, List.getD_eq_getElem _ _ hi']
  rw [hcount, hmap]
  refine List.takeWhile_eq_self_iff.2 fun c hc => ?_
  exact decide_eq_true fun hzero => h0 (hzero ▸ hc)

/-! ## The names in the two paths -/

def servicesKeys : List (List UInt8) :=
  [ascii "Machine", ascii "System", ascii "CurrentControlSet", ascii "Services"]

theorem components_services {rest : List UInt8} (hrest : ∀ c ∈ rest.head?, isSeparator c = true) :
    components (servicesPath ++ rest) = servicesKeys ++ components rest := by
  have hsplit : servicesPath ++ rest = ascii "Machine" ++ 92 :: (ascii "System" ++ 92 ::
      (ascii "CurrentControlSet" ++ 92 :: (ascii "Services" ++ rest))) := rfl
  have hhead : ∀ l : List UInt8, ∀ c ∈ (92 :: l).head?, isSeparator c = true := by
    rintro l c ⟨⟩
    rfl
  rw [hsplit, components_segment (by decide) (noSeparator (by decide)) (by decide) (hhead _),
    components_separator rfl,
    components_segment (by decide) (noSeparator (by decide)) (by decide) (hhead _), components_separator rfl,
    components_segment (by decide) (noSeparator (by decide)) (by decide) (hhead _), components_separator rfl,
    components_segment (by decide) (noSeparator (by decide)) (by decide) hrest]
  rfl

/-- The part of a path that is one name, if it is not empty. -/
theorem components_name {name : List UInt8} (hname : ∀ c ∈ name, isSeparator c = false)
    (hshort : name.length < maxName) : components name = if name = [] then [] else [name] := by
  by_cases hne : name = []
  · rw [if_pos hne, hne, components]
  · have hsegment := @components_segment name [] hne hname hshort fun c hc => by cases hc
    rw [List.append_nil, components] at hsegment
    rw [if_neg hne, hsegment]

theorem stripSys_take (l : List UInt8) : ∃ n, stripSys l = l.take n ∧ l.length ≤ n + 4 := by
  unfold stripSys
  split
  · exact ⟨l.length - 4, rfl, by omega⟩
  · exact ⟨l.length, (List.take_length).symm, by omega⟩

theorem mem_stripSys {l : List UInt8} {c : UInt8} (hc : c ∈ stripSys l) : c ∈ l := by
  obtain ⟨n, hn, -⟩ := stripSys_take l
  exact List.mem_of_mem_take (hn ▸ hc)

theorem stripSys_length_le (l : List UInt8) : (stripSys l).length ≤ l.length := by
  obtain ⟨n, hn, -⟩ := stripSys_take l
  rw [hn, List.length_take]
  omega

theorem stripSys_nil {l : List UInt8} (h : stripSys l = []) : l.length ≤ 4 := by
  obtain ⟨n, hn, hle⟩ := stripSys_take l
  have hlength := congrArg List.length (hn.symm.trans h)
  rw [List.length_take, List.length_nil] at hlength
  omega

/-- The extension is looked for behind the last separator. -/
theorem stripSys_append (before l : List UInt8) :
    stripSys (before ++ 92 :: l) = before ++ 92 :: stripSys l := by
  have hsys : (92 : UInt8) ∉ ascii ".sys" := by decide
  have hsuffix : ascii ".sys" <:+ before ++ 92 :: l ↔ ascii ".sys" <:+ l := by
    refine ⟨fun h => ?_, fun h => h.trans (List.suffix_append_of_suffix (List.suffix_cons ..))⟩
    rcases List.suffix_or_suffix_of_suffix h (List.suffix_append before (92 :: l)) with h' | h'
    · rcases List.suffix_cons_iff.1 h' with heq | h''
      · exact absurd (heq ▸ List.mem_cons_self) hsys
      · exact h''
    · exact absurd (h'.mem List.mem_cons_self) hsys
  unfold stripSys
  by_cases h : ascii ".sys" <:+ l
  · have hlength : 4 ≤ l.length := h.length_le
    rw [if_pos (List.isSuffixOf_iff_suffix.2 (hsuffix.2 h)), if_pos (List.isSuffixOf_iff_suffix.2 h),
      List.take_append, List.take_of_length_le (by rw [List.length_append, List.length_cons]; omega)]
    have hcount : (before ++ 92 :: l).length - 4 - before.length = l.length - 4 + 1 := by
      rw [List.length_append, List.length_cons]
      omega
    rw [hcount, List.take_succ_cons]
  · rw [if_neg fun h' => h (hsuffix.1 (List.isSuffixOf_iff_suffix.1 h')),
      if_neg fun h' => h (List.isSuffixOf_iff_suffix.1 h')]

theorem not_separator_of_mem_dBasename {path : List UInt8} {c : UInt8} (hc : c ∈ dBasename path) :
    isSeparator c = false := by
  have htrue := List.mem_takeWhile_imp (List.mem_reverse.1 hc)
  exact Bool.not_eq_true' _ ▸ htrue

theorem mem_dBasename {path : List UInt8} {c : UInt8} (hc : c ∈ dBasename path) : c ∈ path :=
  List.mem_reverse.1 ((List.takeWhile_subset _) (List.mem_reverse.1 hc))

/-- The names `NtOpenKey` gets. -/
theorem components_registryPath (drvName : Option CString) :
    ∃ tail : List (List UInt8), components (registryPath drvName) = ascii "Registry" :: (servicesKeys ++ tail) ∧
      tail.length ≤ 1 ∧ (tail = [] → ¬ SameName (serviceName (driverBasename drvName)) (ascii "Services")) := by
  have hbefore : ascii "\\Registry\\Machine\\System\\CurrentControlSet\\Services\\" =
      absolute servicesPath ++ [92] := rfl
  unfold registryPath
  rw [hbefore]
  cases drvName with
  | none =>
    dsimp only
    rw [show absolute servicesPath ++ [92] = absolute (servicesPath ++ [92]) from rfl,
      components_absolute, components_services (by rintro c ⟨⟩; rfl), components_separator rfl, components]
    exact ⟨[], rfl, Nat.zero_le _, fun _ => by unfold SameName; decide⟩
  | some path =>
    have hname : ∀ c ∈ stripSys ((dBasename path.chars).take 32), isSeparator c = false := fun c hc =>
      not_separator_of_mem_dBasename (List.mem_of_mem_take (mem_stripSys hc))
    have hshort : (stripSys ((dBasename path.chars).take 32)).length < maxName := by
      have hle := stripSys_length_le ((dBasename path.chars).take 32)
      rw [List.length_take] at hle
      simp only [maxName]
      omega
    dsimp only
    rw [List.append_assoc, List.singleton_append, stripSys_append,
      show ∀ l : List UInt8, absolute servicesPath ++ 92 :: l = absolute (servicesPath ++ 92 :: l) from
        fun l => List.append_assoc _ _ _,
      components_absolute, components_services (by rintro c ⟨⟩; rfl), components_separator rfl,
      components_name hname hshort]
    refine ⟨_, rfl, by split <;> simp, fun hnil => ?_⟩
    by_cases hempty : stripSys ((dBasename path.chars).take 32) = []
    · -- the name is ".sys" or nothing, for both routines
      have hlength := stripSys_nil hempty
      rw [List.length_take] at hlength
      have hservice : serviceName (dBasename path.chars) = [] := by
        unfold serviceName
        rw [List.take_of_length_le (by omega), ← hempty, List.take_of_length_le (by omega)]
      unfold driverBasename
      dsimp only
      rw [hservice]
      unfold SameName
      decide
    · rw [if_neg hempty] at hnil
      cases hnil

theorem registryPath_length (drvName : Option CString) : (registryPath drvName).length ≤ 255 := by
  unfold registryPath
  cases drvName with
  | none => decide
  | some path =>
    have hle := stripSys_length_le (ascii "\\Registry\\Machine\\System\\CurrentControlSet\\Services\\" ++
      (dBasename path.chars).take 32)
    rw [List.length_append, List.length_take] at hle
    have hbefore : (ascii "\\Registry\\Machine\\System\\CurrentControlSet\\Services\\").length = 52 := rfl
    dsimp only
    omega

theorem registryPath_terminated (drvName : Option CString) : 0 ∉ registryPath drvName := by
  unfold registryPath
  cases drvName with
  | none => decide
  | some path =>
    intro h0
    rcases List.mem_append.1 (mem_stripSys h0) with h0 | h0
    · exact absurd h0 (by decide)
    · exact path.terminated (mem_dBasename (List.mem_of_mem_take h0))

theorem openedKey_eq {s : RegState} (hroot : s.sRoot ≠ 0) (drvName : Option CString) :
    openedKey s (registryPathString drvName) =
      (walk false s s.sRoot (components (registryPath drvName))).map Prod.snd := by
  unfold openedKey KeyCall.resolve
  rw [Option.bind_some]
  have hpath : pathOf (registryPathString drvName) = registryPath drvName :=
    pathOf_chars (registryPath_length drvName) (registryPath_terminated drvName)
  rw [hpath]
  exact congrArg _ (regResolvePath_eq hroot _ _)

/-! ## What the two routines agree on -/

section Driver

variable {s : RegState} {live : List Alloc} {role : Nat → Option Role} {k : Nat} {above : List Nat}

theorem RegWellFormed.root_ne (h : RegWellFormed s) : s.sRoot ≠ 0 := by
  obtain ⟨live, role, htree, hrole⟩ := h.tree
  have hpos := (htree.pos hrole).1
  simp only [heapBase] at hpos
  omega

theorem walk_append {create : Bool} {s : RegState} {k : Nat} {names rest : List (List UInt8)}
    (hk : k ≠ 0) : walk create s k (names ++ rest) = (walk create s k names).bind fun r =>
      if r.2 = 0 then some (r.1, 0) else walk create r.1 r.2 rest := by
  induction names generalizing s k with
  | nil =>
    rw [List.nil_append, walk, Option.bind_some]
    exact (if_neg hk).symm
  | cons name names ih =>
    rw [List.cons_append, walk, walk, Option.bind_assoc]
    refine Option.bind_congr fun r _ => ?_
    by_cases hr : r.2 = 0
    · rw [if_pos hr, if_pos hr, Option.bind_some, if_pos rfl]
    · rw [if_neg hr, if_neg hr, ih hr]

theorem RegTree.setDword (h : RegTree s live role none) (hk : role k = some (.key above)) (name : String)
    (n : UInt8) : ∃ s' role', Cm.setDword s k name n = some s' ∧ RegStep s role s' role' := by
  obtain ⟨s', v, role', hset, hstep⟩ :=
    h.setValue hk (ascii name) regDword (some (dword n)) (show 4 + 15 < 2 ^ 64 by decide)
  unfold Cm.setDword
  rw [hset]
  exact ⟨s', role', rfl, hstep⟩

/-- The values of a driver's key are written, as far as there is memory. -/
theorem RegTree.writeService (h : RegTree s live role none) (hk : role k = some (.key above))
    (drvBasename : List UInt8) :
    ∃ s' role', Cm.writeService s k drvBasename = some s' ∧ RegStep s role s' role' := by
  obtain ⟨s₁, role₁, htype, hstep₁⟩ := h.setDword hk "Type" 1
  obtain ⟨live₁, htree₁⟩ := hstep₁.tree
  obtain ⟨s₂, role₂, hstart, hstep₂⟩ := htree₁.setDword (hstep₁.kept _ _ hk).1 "Start" 0
  have hstep₂ := hstep₁.trans hstep₂
  obtain ⟨live₂, htree₂⟩ := hstep₂.tree
  obtain ⟨s₃, role₃, herror, hstep₃⟩ := htree₂.setDword (hstep₂.kept _ _ hk).1 "ErrorControl" 1
  have hstep₃ := hstep₂.trans hstep₃
  obtain ⟨live₃, htree₃⟩ := hstep₃.tree
  have hsize : (imagePath drvBasename).length + 1 + 15 < 2 ^ 64 := by
    unfold imagePath
    rw [List.length_take]
    omega
  obtain ⟨s₄, v, role₄, himage, hstep₄⟩ := htree₃.setValue (hstep₃.kept _ _ hk).1 (ascii "ImagePath") regSz
    (some (text (imagePath drvBasename))) hsize
  have hstep₄ := hstep₃.trans hstep₄
  obtain ⟨live₄, htree₄⟩ := hstep₄.tree
  obtain ⟨s₅, params, hparams, role₅, hstep₅, hchild⟩ := htree₄.getOrCreateChild (hstep₄.kept _ _ hk).1
    (show (ascii "Parameters").length < maxName by decide) (by decide)
  have hstep₅ := hstep₄.trans hstep₅
  unfold Cm.writeService
  rw [htype, Option.bind_some, hstart, Option.bind_some, herror, Option.bind_some, himage, Option.bind_some]
  dsimp only
  rw [hparams, Option.bind_some]
  dsimp only
  by_cases hzero : params = 0
  · rw [if_pos hzero]
    exact ⟨s₅, role₅, rfl, hstep₅⟩
  · obtain ⟨live₅, htree₅⟩ := hstep₅.tree
    obtain ⟨s₆, role₆, hinit, hstep₆⟩ := htree₅.setDword (hchild hzero).1 "Initialized" 1
    rw [if_neg hzero, hinit]
    exact ⟨s₆, role₆, rfl, hstep₅.trans hstep₆⟩

end Driver

section Paths

variable {s : RegState}

theorem strcmpci_kept {m m' : Mem} {role role' : Nat → Option Role} {k : Nat} {above : List Nat}
    {name : List UInt8} (h : KeysKept m m' role role') (hk : role k = some (.key above))
    (hshort : name.length < maxName) : strcmpci m' k name = strcmpci m k name :=
  strcmpci_congr ((h k above hk).2.mono (Nat.le_refl _) (by omega))

/-- The key of a driver is five levels down, under the name of the driver. -/
theorem RegWellFormed.createDriverService (h : RegWellFormed s) {drvBasename : List UInt8}
    (h0 : 0 ∉ drvBasename) :
    ∃ s₁ svc live₁ role₁, registryCreateDriverService s drvBasename = some (s₁, svc) ∧
      (svc = 0 ↔ Lost true s s.sRoot (servicesKeys ++ [serviceName drvBasename])) ∧
      RegTree s₁ live₁ role₁ none ∧ role₁ s.sRoot = some (.key []) ∧ s₁.sRoot = s.sRoot ∧
      (svc ≠ 0 → ∃ above, role₁ svc = some (.key above) ∧ above.length = 5 ∧
        strcmpci s₁.mem svc (serviceName drvBasename) = 0) := by
  obtain ⟨live, role, htree, hrole⟩ := h.tree
  have hroot := h.root_ne
  have hservice : (serviceName drvBasename).length < maxName ∧ 0 ∉ serviceName drvBasename := by
    refine ⟨?_, fun hzero => h0 (List.mem_of_mem_take (mem_stripSys hzero))⟩
    have hle := stripSys_length_le (drvBasename.take 60)
    rw [List.length_take] at hle
    simp only [serviceName, maxName]
    omega
  have hnames : ∀ n ∈ servicesKeys ++ [serviceName drvBasename], n.length < maxName ∧ 0 ∉ n := by
    intro n hn
    rcases List.mem_append.1 hn with hn | hn
    · exact (show ∀ n ∈ servicesKeys, n.length < maxName ∧ 0 ∉ n by decide) n hn
    · obtain rfl := List.mem_singleton.1 hn
      exact hservice
  obtain ⟨s₁, svc, hwalk, hzero, role₁, hstep, hfound⟩ := htree.walk hrole hroot hnames true
  obtain ⟨live₁, htree₁⟩ := hstep.tree
  have hcomponents : components servicesPath = servicesKeys := by
    have hsplit := @components_services [] fun c hc => by cases hc
    rwa [List.append_nil, components, List.append_nil] at hsplit
  -- the two calls of the routine are one walk
  have hrun : registryCreateDriverService s drvBasename =
      if svc = 0 then some (s₁, 0) else (writeService s₁ svc drvBasename).map fun s => (s, svc) := by
    rw [walk_append hroot] at hwalk
    unfold registryCreateDriverService
    rw [if_neg hroot, regResolvePath_eq hroot, hcomponents]
    obtain ⟨⟨s₂, serv⟩, hserv, hlast⟩ := Option.bind_eq_some_iff.1 hwalk
    rw [hserv, Option.bind_some]
    dsimp only at hlast ⊢
    by_cases hserv0 : serv = 0
    · rw [if_pos hserv0] at hlast ⊢
      cases hlast
      rfl
    · rw [if_neg hserv0] at hlast ⊢
      unfold walk nextKey at hlast
      rw [if_pos rfl] at hlast
      obtain ⟨⟨s₃, c⟩, hchild, hend⟩ := Option.bind_eq_some_iff.1 hlast
      rw [hchild, Option.bind_some]
      dsimp only at hend ⊢
      by_cases hc : c = 0
      · rw [if_pos hc] at hend ⊢
        cases hend
        rfl
      · rw [if_neg hc] at hend ⊢
        cases hend
        rw [if_neg hc]
  rw [hrun]
  by_cases hsvc : svc = 0
  · rw [if_pos hsvc]
    exact ⟨s₁, 0, live₁, role₁, rfl, iff_of_true rfl (hzero.1 hsvc), htree₁, (hstep.kept _ _ hrole).1,
      hstep.root, fun hne => absurd rfl hne⟩
  · obtain ⟨above, habove, hlength, hlast⟩ := hfound hsvc
    obtain ⟨s₂, role₂, hwrite, hstep₂⟩ := htree₁.writeService habove drvBasename
    obtain ⟨live₂, htree₂⟩ := hstep₂.tree
    rw [if_neg hsvc, hwrite]
    refine ⟨s₂, svc, live₂, role₂, rfl, hzero, htree₂, ((hstep.trans hstep₂).kept _ _ hrole).1,
      (hstep.trans hstep₂).root, fun _ => ⟨above, (hstep₂.kept _ _ habove).1, hlength, ?_⟩⟩
    rw [strcmpci_kept hstep₂.kept habove hservice.1]
    exact hlast _ List.getLast?_concat

/-- `"\\Registry\\"` in front of a path leads to the same key only where neither path leads to one,
and so does the path that a driver gets, compared with the key made for the driver. -/
theorem absolute_paths (h : RegWellFormed s) :
    (∀ (path : CString) (create : Bool),
      (∃ s₁ k₁ s₂ k₂, regResolvePath s s.sRoot path.chars create = some (s₁, k₁) ∧
        regResolvePath s₁ s.sRoot (absolute path.chars) create = some (s₂, k₂) ∧
        (k₁ = k₂ ↔ Lost create s s.sRoot (components path.chars) ∧
          Lost create s₁ s.sRoot (components (absolute path.chars)))) ∧
      ∃ s₁ k₁ s₂ k₂, regResolvePath s s.sRoot (absolute path.chars) create = some (s₁, k₁) ∧
        regResolvePath s₁ s.sRoot path.chars create = some (s₂, k₂) ∧
        (k₁ = k₂ ↔ Lost create s s.sRoot (components (absolute path.chars)) ∧
          Lost create s₁ s.sRoot (components path.chars))) ∧
    ∀ drvName : Option CString, ∃ s₁ svc found,
      registryCreateDriverService s (driverBasename drvName) = some (s₁, svc) ∧
      openedKey s₁ (registryPathString drvName) = some found ∧
      (svc = found ↔ Lost true s s.sRoot (servicesKeys ++ [serviceName (driverBasename drvName)]) ∧
        Lost false s₁ s.sRoot (components (registryPath drvName))) := by
  have hroot := h.root_ne
  refine ⟨fun path create => ?_, fun drvName => ?_⟩
  · have hnames := components_names path.terminated
    have hnames' : ∀ n ∈ components (absolute path.chars), n.length < maxName ∧ 0 ∉ n := by
      refine components_names fun h0 => ?_
      rcases List.mem_append.1 h0 with h0 | h0
      · exact absurd h0 (by decide)
      · exact path.terminated h0
    have hlength : (components path.chars).length ≠ (components (absolute path.chars)).length := by
      rw [components_absolute, List.length_cons]
      exact (Nat.succ_ne_self _).symm
    simp only [regResolvePath_eq hroot]
    exact ⟨h.two_walks hroot hnames hnames' hlength create,
      h.two_walks hroot hnames' hnames hlength.symm create⟩
  · have hbase : 0 ∉ driverBasename drvName := by
      unfold driverBasename
      cases drvName with
      | none => decide
      | some path => exact fun h0 => path.terminated (mem_dBasename h0)
    obtain ⟨s₁, svc, live₁, role₁, hcreate, hzero, htree, hrole, hroot₁, hsvc⟩ :=
      h.createDriverService hbase
    obtain ⟨tail, hcomponents, htail, hempty⟩ := components_registryPath drvName
    have hnames := components_names (registryPath_terminated drvName)
    obtain ⟨s₂, found, hwalk, hzero', role₂, hstep, hfound⟩ := htree.walk hrole hroot hnames false
    refine ⟨s₁, svc, found, hcreate, ?_, ?_⟩
    · rw [openedKey_eq (hroot₁ ▸ hroot), hroot₁, hwalk]
      rfl
    rw [← hzero, ← hzero']
    refine ⟨fun heq => ?_, fun hboth => hboth.1.trans hboth.2.symm⟩
    by_contra hne
    have hsvc0 : svc ≠ 0 := fun hk => hne ⟨hk, heq ▸ hk⟩
    obtain ⟨above₁, hrole₁, hlength₁, hname₁⟩ := hsvc hsvc0
    obtain ⟨above₂, hrole₂, hlength₂, hlast⟩ := hfound (heq ▸ hsvc0)
    have hsame := (hstep.kept _ _ hrole₁).1
    rw [heq, hrole₂] at hsame
    cases hsame
    rw [hcomponents, hlength₁, List.length_nil, List.length_cons, List.length_append] at hlength₂
    have hkeys : servicesKeys.length = 4 := rfl
    -- as deep as the key of the driver is only the key of the services
    obtain rfl : tail = [] := List.eq_nil_of_length_eq_zero (by omega)
    have hnamed : strcmpci s₂.mem svc (serviceName (driverBasename drvName)) = 0 := by
      rw [strcmpci_kept hstep.kept hrole₁ ?_]
      · exact hname₁
      · have hle := stripSys_length_le ((driverBasename drvName).take 60)
        rw [List.length_take] at hle
        simp only [serviceName, maxName]
        omega
    rw [hcomponents] at hlast
    exact hempty rfl (strcmpci_same hnamed (heq ▸ hlast _ rfl))

end Paths

/-! ## Right after boot -/

/-- A root in a block of its own is a tree. -/
theorem RegWellFormed.ofRoot {s : RegState} {live : List Alloc} {a : Alloc}
    (hholds : Holds s.heap live) (ha : a ∈ live) (hroom : regKeySize ≤ a.granted)
    (hkids : s.mem.rd64 (childrenAt a.ptr) = 0) (hvals : s.mem.rd64 (valuesAt a.ptr) = 0) :
    RegWellFormed { s with sRoot := a.ptr } := by
  have hrole : ∀ p r, Function.update (fun _ => none) a.ptr (some (Role.key [])) p = some r →
      p = a.ptr ∧ r = .key [] := by
    intro p r hp
    by_cases hpa : p = a.ptr
    · rw [hpa, Function.update_self] at hp
      cases hp
      exact ⟨hpa, rfl⟩
    · rw [Function.update_of_ne hpa] at hp
      cases hp
  refine ⟨live, Function.update (fun _ => none) a.ptr (some (.key [])), ⟨hholds, fun p r hp => ?_, fun k above hk => ?_, fun k above hk => ?_,
    fun v k hv => ?_⟩, Function.update_self ..⟩
  · obtain ⟨rfl, rfl⟩ := hrole p r hp
    exact ⟨a, ha, rfl, hroom⟩
  · obtain ⟨rfl, -⟩ := hrole k _ hk
    exact ⟨[], hkids, fun c hc => absurd hc List.not_mem_nil⟩
  · obtain ⟨rfl, -⟩ := hrole k _ hk
    exact ⟨[], hvals, fun c hc => absurd hc List.not_mem_nil⟩
  · cases (hrole v _ hv).2

theorem bootRegistry_wellFormed : RegWellFormed bootRegistry := by
  have hroot : (regAllocKey bareRegistry [92, 82, 101, 103, 105, 115, 116, 114, 121] 0).map
      Prod.snd = some 33554456 := by decide +kernel
  obtain ⟨⟨s, k⟩, hrun, hk⟩ := Option.map_eq_some_iff.1 hroot
  have hboot : bootRegistry = { s with sRoot := k } := by simp only [bootRegistry, hrun]
  have hk : k = 33554456 := hk
  have hbare : Holds bareRegistry.heap [] := ⟨_, heapInit_inv fun _ => 0⟩
  rw [hboot]
  unfold regAllocKey regKmalloc at hrun
  rcases hbare.kmalloc (show regKeySize + 15 < 2 ^ 64 by decide) with
    hnull | ⟨m, a, hmalloc, hne, hroom, -, hholds, -⟩
  · rw [hnull] at hrun
    cases hrun
    cases hk
  rw [hmalloc, Option.map_some, Option.map_some] at hrun
  dsimp only at hrun
  rw [if_neg hne] at hrun
  cases hrun
  refine .ofRoot (hholds.store List.mem_cons_self fun i hi => ?_).1 List.mem_cons_self hroom
    (writeKey_children ..) (writeKey_values ..)
  exact writeKey_outside m _ 0 (by omega)

def machine : CString := ⟨ascii "Machine", by decide⟩

def beepSys : CString := ⟨ascii "\\SystemRoot\\System32\\drivers\\beep.sys", by decide⟩

theorem bootRegistry_machine :
    ((regResolvePath bootRegistry bootRegistry.sRoot machine.chars true).bind fun r =>
      (regResolvePath r.1 bootRegistry.sRoot (absolute machine.chars) true).map fun r' =>
        decide (r.2 = r'.2)) = some false := by
  decide +kernel

/-- Right after boot `"Machine"` and `"\\Registry\\Machine"` become two keys. -/
theorem machine_twice :
    ¬ ∀ (s : RegState) (path : CString) (create : Bool), RegWellFormed s → ∀ s₁ k₁ s₂ k₂,
      regResolvePath s s.sRoot path.chars create = some (s₁, k₁) →
      regResolvePath s₁ s.sRoot (absolute path.chars) create = some (s₂, k₂) → k₁ = k₂ := by
  intro hall
  obtain ⟨⟨s₁, k₁⟩, hfirst, hrest⟩ := Option.bind_eq_some_iff.1 bootRegistry_machine
  obtain ⟨⟨s₂, k₂⟩, hsecond, hne⟩ := Option.map_eq_some_iff.1 hrest
  exact of_decide_eq_false hne (hall _ machine true bootRegistry_wellFormed s₁ k₁ s₂ k₂ hfirst hsecond)

theorem absolute_paths_beep : ∃ s₁ svc found,
    registryCreateDriverService bootRegistry (ascii "beep.sys") = some (s₁, svc) ∧
    openedKey s₁ (registryPathString (some beepSys)) = some found ∧
    (svc = found ↔ Lost true bootRegistry bootRegistry.sRoot (servicesKeys ++ [ascii "beep"]) ∧
      Lost false s₁ bootRegistry.sRoot (components (registryPath (some beepSys)))) :=
  (absolute_paths bootRegistry_wellFormed).2 (some beepSys)

end MeuOS.Cm
