import MeuOS.Ldr.ModuleRuns
import MeuOS.Lib.Search

/-! Which module an address is in, and the entry of its function table that covers the address. The kernel
goes through all modules that are registered, mapped or not, before it looks at the image of the current process. -/
namespace MeuOS.Ldr

open MeuOS.Lib

/-- Where an image is, or is taken to be. -/
structure ImageRange where
  base : Nat
  size : Nat
deriving DecidableEq

/-- An image ends inside the address space. -/
def ImageRange.has (r : ImageRange) (pc : Nat) : Bool := r.base ≤ pc && pc < (r.base + r.size) % 2 ^ 64

/-- `SizeOfImage`, 0 without the signature. -/
def sizeOfImage (m : Mem) (f : Nat) : Nat :=
  if m.rd32 (f + m.rd32 (f + 0x3C)) = 0x00004550 then m.rd32 (optHeader m f + 0x38) else 0

/-! ## The kernel -/

/-- What `ldr_get_module_info` says of a module. -/
def ldrGetModuleInfo (m : Mem) (e : LdrMod) : ImageRange where
  base := if e.base ≠ 0 then e.base else e.bytes
  size := if e.bytes ≠ 0 then sizeOfImage m e.bytes else 0

/-- A turn of the loop over the modules. -/
def moduleTurn (m : Mem) (pc : Nat) (best : Option ImageRange) (e : LdrMod) : Option ImageRange :=
  let r := ldrGetModuleInfo m e
  if r.size = 0 then best
  else if r.has pc then
    if best.elim 0 ImageRange.base ≤ r.base then some r else best
  else best

/-- `sys_module_for_pc`; `main` is the image of the current process, 0 if there is none. -/
def sysModuleForPc (m : Mem) (s : Loader) (main pc : Nat) : Option ImageRange :=
  match s.mods.foldl (moduleTurn m pc) none with
  | some r => some r
  | none =>
      let r : ImageRange := ⟨main, sizeOfImage m main⟩
      if main ≠ 0 ∧ r.has pc = true then some r else none

/-! ## The lookup -/

/-- The address of a data directory, 0 if it has none, and its size. How many directories there are is not
looked at. -/
def rtlImageDirectoryEntryToData (m : Mem) (base dir : Nat) : Nat × Nat :=
  if base = 0 then (0, 0)
  else
    let ddoff := if m.rd16 (optHeader m base) = 0x20B then 112 else 96
    let dd := optHeader m base + ddoff + 8 * dir
    (if m.rd32 dd ≠ 0 then base + m.rd32 dd else 0, m.rd32 (dd + 4))

/-- `sizeof(RUNTIME_FUNCTION_)`. -/
def runtimeFunctionSize : Nat := 12

def beginAddress (m : Mem) (pd k : Nat) : Nat := m.rd32 (pd + runtimeFunctionSize * k)
def endAddress (m : Mem) (pd k : Nat) : Nat := m.rd32 (pd + runtimeFunctionSize * k + 4)

/-- An entry compared with an address. -/
def entryCmp (m : Mem) (pd rva k : Nat) : Ordering :=
  if rva < beginAddress m pd k then .gt
  else if endAddress m pd k ≤ rva then .lt
  else .eq

/-- The entry, 0 if there is none, and the image's base. -/
def rtlLookupFunctionEntry (m : Mem) (s : Loader) (main pc : Nat) : Nat × Nat :=
  match sysModuleForPc m s main pc with
  | none => (0, 0)
  | some r =>
      if r.base = 0 then (0, 0)
      else
        let pd := rtlImageDirectoryEntryToData m r.base 3
        if pd.1 = 0 ∨ pd.2 = 0 then (0, r.base)
        else
          let n := pd.2 / runtimeFunctionSize
          let rva := (pc - r.base) % 2 ^ 32
          match bsearch (entryCmp m pd.1 rva) 0 n with
          | some k => (pd.1 + runtimeFunctionSize * k, r.base)
          | none => (0, r.base)

/-! ## What is promised -/

/-- The images that are mapped: of the modules that have a base, and of the current process. -/
inductive Mapped (m : Mem) (s : Loader) (main : Nat) : ImageRange → Prop
  | registered {e : LdrMod} (he : e ∈ s.mods) (hbase : e.base ≠ 0) : Mapped m s main (ldrGetModuleInfo m e)
  | main (hmain : main ≠ 0) : Mapped m s main ⟨main, sizeOfImage m main⟩

/-- Where the function table of an image starts, and how many entries it has. -/
def functionTable (m : Mem) (base : Nat) : Nat × Nat :=
  let dir := getDir m base 3
  (base + dir.1, if dir.1 = 0 then 0 else dir.2 / runtimeFunctionSize)

/-- Sorted by their beginnings, and each ends before the next. -/
def TableInOrder (m : Mem) (table : Nat × Nat) : Prop :=
  ∀ j k, j < k → k < table.2 →
    beginAddress m table.1 j ≤ beginAddress m table.1 k ∧ endAddress m table.1 j ≤ beginAddress m table.1 k

def CoveredBy (m : Mem) (pd rva k : Nat) : Prop := beginAddress m pd k ≤ rva ∧ rva < endAddress m pd k

/-- An entry that covers the address is what is found, and nothing is where there is none. -/
def FindsEntry (m : Mem) (base pc entry : Nat) : Prop :=
  let table := functionTable m base
  TableInOrder m table →
    (∀ k < table.2, CoveredBy m table.1 (pc - base) k → entry = table.1 + runtimeFunctionSize * k) ∧
      ((∀ k < table.2, ¬CoveredBy m table.1 (pc - base) k) → entry = 0)

/-- An address in a mapped image is found there. -/
def LookupRight (m : Mem) (s : Loader) (main pc : Nat) : Prop :=
  ∀ image, Mapped m s main image → image.has pc = true →
    sysModuleForPc m s main pc = some image ∧ FindsEntry m image.base pc (rtlLookupFunctionEntry m s main pc).1

/-- The registered modules, mapped or not, that are taken to have the address, in their order. -/
def rangesAt (m : Mem) (s : Loader) (pc : Nat) : List ImageRange :=
  (s.mods.map (ldrGetModuleInfo m)).filter fun r => r.has pc

/-- No other range over the address is taken before the image: none starts higher, and the main program's
is taken only if it is the only one. -/
def Unshadowed (m : Mem) (s : Loader) (main pc : Nat) : Prop :=
  ∀ image, Mapped m s main image → image.has pc = true →
    Foremost ImageRange.base (rangesAt m s pc) image ∨ (rangesAt m s pc = [] ∧ image.base = main)

/-- The headers list a fourth directory, or there is nothing in its place. -/
def DirectoryListed (m : Mem) (base : Nat) : Prop :=
  3 < (dirTable m base).2 ∨ (rtlImageDirectoryEntryToData m base 3).1 = 0 ∨
    (rtlImageDirectoryEntryToData m base 3).2 < runtimeFunctionSize

/-! ## The module -/

section Kernel

variable {m : Mem} {s : Loader} {main pc : Nat} {image : ImageRange}

theorem has_nothing {r : ImageRange} (hsize : r.size = 0) : r.has pc = false := by
  unfold ImageRange.has
  rw [hsize, Nat.add_zero, Bool.and_eq_false_iff, decide_eq_false_iff_not, decide_eq_false_iff_not]
  have hle := Nat.mod_le r.base (2 ^ 64)
  omega

theorem moduleTurn_eq (m : Mem) (pc : Nat) (best : Option ImageRange) (e : LdrMod) :
    moduleTurn m pc best e =
      if (ldrGetModuleInfo m e).has pc then takeHigher ImageRange.base best (ldrGetModuleInfo m e) else best := by
  unfold moduleTurn
  by_cases hsize : (ldrGetModuleInfo m e).size = 0
  · rw [if_pos hsize, has_nothing hsize, if_neg Bool.false_ne_true]
  · rw [if_neg hsize]
    rfl

theorem modules_eq (m : Mem) (s : Loader) (pc : Nat) :
    s.mods.foldl (moduleTurn m pc) none = (rangesAt m s pc).foldl (takeHigher ImageRange.base) none := by
  unfold rangesAt
  rw [List.foldl_filter, List.foldl_map]
  congr 1
  funext best e
  exact moduleTurn_eq m pc best e

theorem mem_rangesAt {e : LdrMod} (he : e ∈ s.mods) (hpc : (ldrGetModuleInfo m e).has pc = true) :
    ldrGetModuleInfo m e ∈ rangesAt m s pc :=
  List.mem_filter.2 ⟨List.mem_map_of_mem he, hpc⟩

theorem sysModuleForPc_iff (himage : Mapped m s main image) (hpc : image.has pc = true) :
    sysModuleForPc m s main pc = some image ↔
      Foremost ImageRange.base (rangesAt m s pc) image ∨ (rangesAt m s pc = [] ∧ image.base = main) := by
  unfold sysModuleForPc
  rw [modules_eq]
  rcases foldl_takeHigher ImageRange.base (rangesAt m s pc) with ⟨hnone, hempty⟩ | ⟨r, hsome, hfore⟩
  · rw [hnone]
    cases himage with
    | registered he hbase => exact absurd (mem_rangesAt he hpc) (hempty ▸ List.not_mem_nil)
    | main hmain => exact ⟨fun _ => .inr ⟨hempty, rfl⟩, fun _ => if_pos ⟨hmain, hpc⟩⟩
  · rw [hsome]
    refine ⟨fun heq => .inl (Option.some.inj heq ▸ hfore), fun h => ?_⟩
    rcases h with hfore' | ⟨hempty, -⟩
    · rw [foremost_unique hfore hfore']
    · obtain ⟨pre, post, hsplit, -⟩ := hfore
      rw [hempty] at hsplit
      exact absurd hsplit.symm (List.append_ne_nil_of_right_ne_nil _ (List.cons_ne_nil _ _))

theorem Mapped.base_ne_zero (himage : Mapped m s main image) : image.base ≠ 0 := by
  cases himage with
  | registered he hbase =>
    show (if _ then _ else _) ≠ 0
    rwa [if_pos hbase]
  | main hmain => exact hmain

theorem Mapped.size_lt (himage : Mapped m s main image) : image.size < 2 ^ 32 := by
  have hsize : ∀ f, sizeOfImage m f < 2 ^ 32 := fun f => by
    unfold sizeOfImage
    split
    · exact Mem.rd32_lt m _
    · exact Nat.two_pow_pos 32
  cases himage with
  | registered he hbase =>
    show (if _ then _ else _) < 2 ^ 32
    split
    · exact hsize _
    · exact Nat.two_pow_pos 32
  | main hmain => exact hsize _

/-- Inside an image 32 bits tell the addresses apart. -/
theorem Mapped.rva (himage : Mapped m s main image) (hpc : image.has pc = true) :
    (pc - image.base) % 2 ^ 32 = pc - image.base := by
  have hsize := himage.size_lt
  unfold ImageRange.has at hpc
  obtain ⟨-, hlt⟩ := Bool.and_eq_true_iff.1 hpc
  have hlt := of_decide_eq_true hlt
  have hle := Nat.mod_le (image.base + image.size) (2 ^ 64)
  exact Nat.mod_eq_of_lt (by omega)

end Kernel

/-! ## The entry -/

section Entry

variable {m : Mem} {s : Loader} {base pc main pd rva n : Nat} {image : ImageRange}

theorem entryCmp_eq {k : Nat} : entryCmp m pd rva k = .eq ↔ CoveredBy m pd rva k := by
  unfold entryCmp CoveredBy
  split
  · exact ⟨nofun, fun h => absurd h.1 (by omega)⟩
  split
  · exact ⟨nofun, fun h => absurd h.2 (by omega)⟩
  · exact ⟨fun _ => by omega, fun _ => rfl⟩

/-- The search finds the entry that covers the address. -/
theorem search_covered {table : Nat × Nat} {k : Nat} (horder : TableInOrder m table) (hk : k < table.2)
    (hcovers : CoveredBy m table.1 rva k) : bsearch (entryCmp m table.1 rva) 0 table.2 = some k := by
  obtain ⟨hbegin, hend⟩ := hcovers
  refine bsearch_eq (Nat.zero_le k) hk (fun j hj => ?_) (entryCmp_eq.2 ⟨hbegin, hend⟩) fun j hj hjn => ?_
  · obtain ⟨hsorted, hapart⟩ := horder j k hj hk
    unfold entryCmp
    rw [if_neg (Nat.not_lt.2 (Nat.le_trans hsorted hbegin)), if_pos (Nat.le_trans hapart hbegin)]
  · obtain ⟨-, hapart⟩ := horder k j hj hjn
    unfold entryCmp
    rw [if_pos (Nat.lt_of_lt_of_le hend hapart)]

theorem search_gap (hgap : ∀ k < n, ¬CoveredBy m pd rva k) : bsearch (entryCmp m pd rva) 0 n = none := by
  refine Option.eq_none_iff_forall_ne_some.2 fun k hk => ?_
  exact hgap k (bsearch_lt hk) (entryCmp_eq.1 (bsearch_found hk))

/-- What is read is the directory that the headers list. -/
theorem functionTable_eq (hbase : base ≠ 0) (hlisted : DirectoryListed m base) :
    let pd := rtlImageDirectoryEntryToData m base 3
    (functionTable m base).2 = (if pd.1 = 0 then 0 else pd.2 / runtimeFunctionSize) ∧
      ((functionTable m base).2 ≠ 0 → (functionTable m base).1 = pd.1) := by
  intro pd
  unfold functionTable getDir
  by_cases hfew : (dirTable m base).2 ≤ 3
  · rw [if_pos hfew]
    refine ⟨?_, fun hsome => absurd rfl hsome⟩
    rcases hlisted with hmany | hnone | hshort
    · exact absurd hfew (Nat.not_le.2 hmany)
    · exact (if_pos hnone).symm
    · show 0 = _
      rw [Nat.div_eq_of_lt hshort, ite_self]
  · rw [if_neg hfew]
    have hpd : pd = (if m.rd32 (optHeader m base + (dirTable m base).1 + 8 * 3) ≠ 0 then
        base + m.rd32 (optHeader m base + (dirTable m base).1 + 8 * 3) else 0,
        m.rd32 (optHeader m base + (dirTable m base).1 + 8 * 3 + 4)) := by
      unfold pd rtlImageDirectoryEntryToData dirTable
      rw [if_neg hbase]
      split <;> rfl
    generalize optHeader m base + (dirTable m base).1 + 8 * 3 = dd at hpd
    rw [hpd]
    by_cases hrva : m.rd32 dd = 0
    · simp [hrva]
    · simp [hrva, hbase]

/-- In a mapped image that is found, the entries its headers list are searched. -/
theorem lookup_eq (himage : Mapped m s main image) (hpc : image.has pc = true)
    (hlisted : DirectoryListed m image.base) (hfound : sysModuleForPc m s main pc = some image) :
    (rtlLookupFunctionEntry m s main pc).1 =
      (bsearch (entryCmp m (functionTable m image.base).1 (pc - image.base)) 0 (functionTable m image.base).2).elim 0
        fun k => (functionTable m image.base).1 + runtimeFunctionSize * k := by
  have hbase := himage.base_ne_zero
  obtain ⟨hcount, hstart⟩ := functionTable_eq hbase hlisted
  generalize functionTable m image.base = table at hcount hstart
  unfold rtlLookupFunctionEntry
  simp only [hfound, hbase, himage.rva hpc, if_false]
  generalize rtlImageDirectoryEntryToData m image.base 3 = pd at hcount hstart
  by_cases hempty : pd.1 = 0 ∨ pd.2 = 0
  · have hnone : table.2 = 0 := by
      rw [hcount]
      rcases hempty with hnull | hsize
      · exact if_pos hnull
      · rw [hsize, Nat.zero_div, ite_self]
    rw [if_pos hempty, search_gap fun k hk => absurd hk (by omega)]
    rfl
  · rw [if_neg hempty]
    rw [if_neg fun hnull => hempty (.inl hnull)] at hcount
    rw [← hcount]
    by_cases hnone : table.2 = 0
    · rw [search_gap fun k hk => absurd hk (by omega), search_gap fun k hk => absurd hk (by omega)]
      rfl
    · rw [hstart hnone]
      cases bsearch (entryCmp m pd.1 (pc - image.base)) 0 table.2 with
      | none => rfl
      | some k => rfl

theorem lookup_finds (himage : Mapped m s main image) (hpc : image.has pc = true)
    (hlisted : DirectoryListed m image.base) (hfound : sysModuleForPc m s main pc = some image) :
    FindsEntry m image.base pc (rtlLookupFunctionEntry m s main pc).1 := by
  intro horder
  rw [lookup_eq himage hpc hlisted hfound]
  refine ⟨fun k hk hcovers => ?_, fun hgap => ?_⟩
  · rw [search_covered horder hk hcovers]
    rfl
  · rw [search_gap hgap]
    rfl

end Entry

/-- An address in a mapped image is found there if no range of a registered module is taken first, and its entry if
besides the headers list the directory. Where it is found, no range was taken first. -/
theorem function_lookup (m : Mem) (s : Loader) (main pc : Nat) :
    (Unshadowed m s main pc →
      (∀ image, Mapped m s main image → image.has pc = true → DirectoryListed m image.base) →
        LookupRight m s main pc) ∧
      (LookupRight m s main pc → Unshadowed m s main pc) := by
  refine ⟨fun hclear hlisted image himage hpc => ?_, fun hright image himage hpc => ?_⟩
  · have hfound := (sysModuleForPc_iff himage hpc).2 (hclear image himage hpc)
    exact ⟨hfound, lookup_finds himage hpc (hlisted image himage hpc) hfound⟩
  · exact (sysModuleForPc_iff himage hpc).1 (hright image himage hpc).1

/-- A program that was registered and not run lies in front of the one that runs, with `SizeOfImage` of 128 KiB
in a file of less than 64 KiB. -/
def shadowMem : Mem :=
  let header (m : Mem) (f size : Nat) : Mem :=
    ((m.write (f + 0x3C) 4 0x80).write (f + 0x80) 4 0x00004550).write (f + 0x80 + 24 + 0x38) 4 size
  header (header (fun _ => 0) 0x3FF0000 0x20000) 0x4000000 0x10000

theorem program_shadowed :
    ModuleReach twoMap (World.start.next (.register (ascii "/boot/app.exe") 0x3FF0000)) ∧
      ¬LookupRight shadowMem (World.start.next (.register (ascii "/boot/app.exe") 0x3FF0000)).loader 0x4000000
        0x4000100 := by
  refine ⟨next_reach (.start rfl) fun _ => ⟨?_, ?_, ?_⟩, fun hright => ?_⟩
  · decide +kernel
  · decide +kernel
  · exact fun l hl => absurd hl List.not_mem_nil
  have hmain := (hright _ (.main (by decide)) (by decide +kernel)).1
  exact absurd hmain (by decide +kernel)

end MeuOS.Ldr
