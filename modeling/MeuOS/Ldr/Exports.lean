import MeuOS.Ldr.Pe
import MeuOS.Lib.CString

/-! Exports, by name and by ordinal. Both lookups go through the same three arrays, and what
they read there is kept beside what they return. -/
namespace MeuOS.Ldr

open MeuOS.Lib

/-- `streq` of a string in memory and one of the caller. -/
def streq (m : Mem) (a : Nat) : List UInt8 → Bool
  | [] => m a = 0
  | c :: cs => if m a = 0 then m a = c else if m a ≠ c then false else streq m (a + 1) cs

inductive ExportTable
  | functions
  | names
  | ordinals
deriving DecidableEq

/-- `IMAGE_EXPORT_DIRECTORY`, with the elements of `AddressOfFunctions`, `AddressOfNames` and
`AddressOfNameOrdinals`. -/
structure ExportDir where
  ordBase : Nat
  nfuncs : Nat
  nnames : Nat
  table : ExportTable → Nat → Nat

/-- How many elements an array has. -/
def ExportDir.size (d : ExportDir) : ExportTable → Nat
  | .functions => d.nfuncs
  | .names | .ordinals => d.nnames

/-- The directory at `rva` of the image at `b`. -/
def exportDir (m : Mem) (b rva : Nat) : ExportDir :=
  let ex := b + rva
  { ordBase := m.rd32 (ex + 0x10)
    nfuncs := m.rd32 (ex + 0x14)
    nnames := m.rd32 (ex + 0x18)
    table := fun t i =>
      match t with
      | .functions => m.rd32 (b + m.rd32 (ex + 0x1C) + 4 * i)
      | .names => m.rd32 (b + m.rd32 (ex + 0x20) + 4 * i)
      | .ordinals => m.rd16 (b + m.rd32 (ex + 0x24) + 2 * i) }

/-- The names from `i` on, with `left` of them to go: the address, and the elements read. -/
def exportLoop (m : Mem) (b : Nat) (d : ExportDir) (name : List UInt8) :
    Nat → Nat → Nat × List (ExportTable × Nat)
  | 0, _ => (0, [])
  | left + 1, i =>
      if streq m (b + d.table .names i) name then
        let ord := d.table .ordinals i
        (b + d.table .functions ord, [(.names, i), (.ordinals, i), (.functions, ord)])
      else
        let r := exportLoop m b d name left (i + 1)
        (r.1, (.names, i) :: r.2)

def peGetExport (m : Mem) (b : Nat) (name : CString) : Nat × List (ExportTable × Nat) :=
  let rva := (getDir m b 0).1
  if rva = 0 then (0, [])
  else
    let d := exportDir m b rva
    exportLoop m b d name.chars d.nnames 0

def peGetExportByOrdinal (m : Mem) (b ordinal : Nat) : Nat × List (ExportTable × Nat) :=
  let rva := (getDir m b 0).1
  if rva = 0 then (0, [])
  else
    let d := exportDir m b rva
    if ordinal < d.ordBase then (0, [])
    else
      let idx := ordinal - d.ordBase
      if d.nfuncs ≤ idx then (0, [])
      else
        let rva := d.table .functions idx
        (if rva = 0 then 0 else b + rva, [(.functions, idx)])

/-! ## The loop -/

section Loop

variable {m : Mem} {b : Nat} {d d' : ExportDir} {name : List UInt8} {left i j : Nat}

/-- The `i`-th name is the one. -/
abbrev Named (m : Mem) (b : Nat) (d : ExportDir) (name : List UInt8) (i : Nat) : Prop :=
  streq m (b + d.table .names i) name = true

/-- It leads to a function. -/
def Exported (m : Mem) (b : Nat) (d : ExportDir) (name : List UInt8) (i : Nat) : Prop :=
  i < d.nnames ∧ Named m b d name i ∧ d.table .ordinals i < d.nfuncs ∧
    d.table .functions (d.table .ordinals i) ≠ 0

theorem exportLoop_none (h : ∀ k, i ≤ k → k < i + left → ¬Named m b d name k) :
    (exportLoop m b d name left i).1 = 0 ∧
      ∀ e ∈ (exportLoop m b d name left i).2, e.1 = .names ∧ e.2 < i + left := by
  induction left generalizing i with
  | zero => exact ⟨rfl, List.forall_mem_nil _⟩
  | succ left ih =>
    have hrest := ih (i := i + 1) fun k hk hlt => h k (by omega) (by omega)
    unfold exportLoop
    rw [if_neg (h i (Nat.le_refl _) (by omega))]
    refine ⟨hrest.1, fun e he => ?_⟩
    rcases List.mem_cons.mp he with rfl | he
    · exact ⟨rfl, by dsimp only; omega⟩
    · exact ⟨(hrest.2 e he).1, by have := (hrest.2 e he).2; omega⟩

/-- The first name that is the one decides. -/
theorem exportLoop_first (hle : i ≤ j) (hlt : j < i + left) (hj : Named m b d name j)
    (hfirst : ∀ k, i ≤ k → k < j → ¬Named m b d name k) :
    (exportLoop m b d name left i).1 = b + d.table .functions (d.table .ordinals j) ∧
      ∀ e, e ∈ (exportLoop m b d name left i).2 ↔
        (e.1 = .names ∧ i ≤ e.2 ∧ e.2 ≤ j) ∨ e = (.ordinals, j) ∨ e = (.functions, d.table .ordinals j) := by
  induction left generalizing i with
  | zero => omega
  | succ left ih =>
    unfold exportLoop
    rcases Nat.eq_or_lt_of_le hle with rfl | hlater
    · rw [if_pos hj]
      refine ⟨rfl, fun e => ?_⟩
      obtain ⟨t, k⟩ := e
      simp only [List.mem_cons, List.not_mem_nil, or_false, Prod.mk.injEq]
      constructor
      · rintro (⟨rfl, rfl⟩ | hrest)
        · exact .inl ⟨rfl, Nat.le_refl _, Nat.le_refl _⟩
        · exact .inr hrest
      · rintro (⟨rfl, hlo, hhi⟩ | hrest)
        · exact .inl ⟨rfl, Nat.le_antisymm hhi hlo⟩
        · exact .inr hrest
    · obtain ⟨haddr, hreads⟩ := ih hlater (by omega) fun k hk => hfirst k (by omega)
      rw [if_neg (hfirst i (Nat.le_refl _) hlater)]
      refine ⟨haddr, fun e => ?_⟩
      rw [List.mem_cons, hreads]
      obtain ⟨t, k⟩ := e
      simp only [Prod.mk.injEq]
      constructor
      · rintro (⟨rfl, rfl⟩ | ⟨rfl, hlo, hhi⟩ | hrest)
        · exact .inl ⟨rfl, Nat.le_refl _, hle⟩
        · exact .inl ⟨rfl, by omega, hhi⟩
        · exact .inr hrest
      · rintro (⟨rfl, hlo, hhi⟩ | hrest)
        · rcases Nat.eq_or_lt_of_le hlo with rfl | hlo
          · exact .inl ⟨rfl, rfl⟩
          · exact .inr (.inl ⟨rfl, hlo, hhi⟩)
        · exact .inr (.inr hrest)

/-- There is a first one among those there are. -/
theorem exists_first {P : Nat → Prop} {n : Nat} (h : ∃ k < n, P k) :
    ∃ k < n, P k ∧ ∀ k' < k, ¬P k' := by
  classical
  obtain ⟨hlt, hk⟩ := Nat.find_spec h
  exact ⟨Nat.find h, hlt, hk, fun k' hk' hp => Nat.find_min h hk' ⟨hk'.trans hlt, hp⟩⟩

end Loop

/-! ## The two lookups -/

section Lookups

variable {m : Mem} {b : Nat} {name : CString}

/-- What the importers count on for a name: it is found where an entry exports it, its ordinal
leads to the same address, and no array is read past its end. -/
structure ExportsAgree (m : Mem) (b : Nat) (d : ExportDir) (name : CString) : Prop where
  found : (peGetExport m b name).1 ≠ 0 ↔ ∃ i, Exported m b d name.chars i
  same : ∀ i, Exported m b d name.chars i → (∀ k < i, ¬Exported m b d name.chars k) →
    (peGetExportByOrdinal m b ((d.ordBase + d.table .ordinals i) % 2 ^ 32)).1 = (peGetExport m b name).1
  inside : ∀ e ∈ (peGetExport m b name).2, e.2 < d.size e.1
  ordinalInside : ∀ ordinal, ∀ e ∈ (peGetExportByOrdinal m b ordinal).2, e.2 < d.size e.1

/-- The first entry of that name leads to a function, and its ordinal is a 32-bit number. -/
def FirstExported (m : Mem) (b : Nat) (d : ExportDir) (name : CString) : Prop :=
  ∀ i < d.nnames, Named m b d name.chars i → (∀ k < i, ¬Named m b d name.chars k) →
    d.table .ordinals i < d.nfuncs ∧ d.table .functions (d.table .ordinals i) ≠ 0 ∧
      d.ordBase + d.table .ordinals i < 2 ^ 32

theorem peGetExport_eq (hdir : (getDir m b 0).1 ≠ 0) (name : CString) : peGetExport m b name =
    exportLoop m b (exportDir m b (getDir m b 0).1) name.chars (exportDir m b (getDir m b 0).1).nnames 0 :=
  if_neg hdir

theorem peGetExportByOrdinal_inside (hdir : (getDir m b 0).1 ≠ 0) (ordinal : Nat) :
    ∀ e ∈ (peGetExportByOrdinal m b ordinal).2, e.2 < (exportDir m b (getDir m b 0).1).size e.1 := by
  unfold peGetExportByOrdinal
  dsimp only
  rw [if_neg hdir]
  split
  · exact List.forall_mem_nil _
  · split
    · exact List.forall_mem_nil _
    · rintro e he
      rw [List.mem_singleton.mp he]
      exact Nat.not_le.mp ‹_›

/-- The ordinal of an entry that leads to a function. -/
theorem peGetExportByOrdinal_entry (hdir : (getDir m b 0).1 ≠ 0) (ord : Nat)
    (hord : ord < (exportDir m b (getDir m b 0).1).nfuncs)
    (hfunc : (exportDir m b (getDir m b 0).1).table .functions ord ≠ 0) (hsmall : ord < 2 ^ 16) :
    (peGetExportByOrdinal m b (((exportDir m b (getDir m b 0).1).ordBase + ord) % 2 ^ 32)).1 =
      if (exportDir m b (getDir m b 0).1).ordBase + ord < 2 ^ 32 then
        b + (exportDir m b (getDir m b 0).1).table .functions ord
      else 0 := by
  have hbase : (exportDir m b (getDir m b 0).1).ordBase < 2 ^ 32 := Mem.rd32_lt m _
  unfold peGetExportByOrdinal
  dsimp only
  rw [if_neg hdir]
  by_cases hfits : (exportDir m b (getDir m b 0).1).ordBase + ord < 2 ^ 32
  · rw [if_pos hfits, Nat.mod_eq_of_lt hfits, if_neg (Nat.not_lt.mpr (Nat.le_add_right ..)),
      Nat.add_sub_cancel_left, if_neg (Nat.not_le.mpr hord), if_neg hfunc]
  · have hwrap : ((exportDir m b (getDir m b 0).1).ordBase + ord) % 2 ^ 32 <
        (exportDir m b (getDir m b 0).1).ordBase := by omega
    rw [if_neg hfits, if_pos hwrap]

/-- The lookup by name and the lookup by ordinal agree on a name as long as its first entry is
in order, and no longer. -/
theorem exports_agree_iff (m : Mem) (b : Nat) (name : CString) (hb : 0 < b)
    (hdir : (getDir m b 0).1 ≠ 0) : ExportsAgree m b (exportDir m b (getDir m b 0).1) name ↔
      FirstExported m b (exportDir m b (getDir m b 0).1) name := by
  have hsmall : ∀ i, (exportDir m b (getDir m b 0).1).table .ordinals i < 2 ^ 16 := fun i => Mem.rd16_lt m _
  have hentry := peGetExportByOrdinal_entry hdir
  have hinside := peGetExportByOrdinal_inside hdir
  have hloop := peGetExport_eq hdir name
  generalize exportDir m b (getDir m b 0).1 = d at *
  constructor
  · intro h i hi hnamed hfirst
    obtain ⟨haddr, hreads⟩ := exportLoop_first (Nat.zero_le i) (Nat.zero_add d.nnames ▸ hi) hnamed
      fun k _ => hfirst k
    rw [← hloop] at haddr hreads
    have hrange : d.table .ordinals i < d.nfuncs := h.inside _ ((hreads _).mpr (.inr (.inr rfl)))
    have hne : (peGetExport m b name).1 ≠ 0 := by
      rw [haddr]
      exact Nat.ne_of_gt (Nat.add_pos_left hb _)
    obtain ⟨k, hk⟩ := h.found.mp hne
    obtain ⟨j, -, hj, hleast⟩ := exists_first ⟨k, Nat.lt_succ_self k, hk⟩
    have hsame := h.same j hj hleast
    rw [hentry _ hj.2.2.1 hj.2.2.2 (hsmall j)] at hsame
    split at hsame
    case isFalse => exact absurd hsame.symm hne
    case isTrue hfits =>
      rw [haddr] at hsame
      have hfunc : d.table .functions (d.table .ordinals i) ≠ 0 := by
        rw [← Nat.add_left_cancel hsame]
        exact hj.2.2.2
      -- so the first entry of the name is also the first that leads to a function
      have hij : i = j := by
        apply Nat.le_antisymm
        · exact Nat.not_lt.mp fun hlt => hfirst j hlt hj.2.1
        · exact Nat.not_lt.mp fun hlt => hleast i hlt ⟨hi, hnamed, hrange, hfunc⟩
      exact ⟨hrange, hfunc, hij ▸ hfits⟩
  · intro h
    by_cases hsome : ∃ i < d.nnames, Named m b d name.chars i
    · obtain ⟨i, hi, hnamed, hfirst⟩ := exists_first hsome
      obtain ⟨hrange, hfunc, hfits⟩ := h i hi hnamed hfirst
      obtain ⟨haddr, hreads⟩ := exportLoop_first (Nat.zero_le i) (Nat.zero_add d.nnames ▸ hi) hnamed
        fun k _ => hfirst k
      rw [← hloop] at haddr hreads
      have hexported : Exported m b d name.chars i := ⟨hi, hnamed, hrange, hfunc⟩
      refine ⟨iff_of_true ?_ ⟨i, hexported⟩, fun j hj hleast => ?_, fun e he => ?_, hinside⟩
      · rw [haddr]
        exact Nat.ne_of_gt (Nat.add_pos_left hb _)
      · have hij : j = i := by
          apply Nat.le_antisymm
          · exact Nat.not_lt.mp fun hlt => hleast i hlt hexported
          · exact Nat.not_lt.mp fun hlt => hfirst j hlt hj.2.1
        rw [hij, hentry _ hrange hfunc (hsmall i), if_pos hfits, haddr]
      · rcases (hreads e).mp he with ⟨hname, -, hle⟩ | rfl | rfl
        · rw [hname]
          exact Nat.lt_of_le_of_lt hle hi
        · exact hi
        · exact hrange
    · have hnone : ∀ k, 0 ≤ k → k < 0 + d.nnames → ¬Named m b d name.chars k := fun k _ hk hnamed =>
        hsome ⟨k, Nat.zero_add d.nnames ▸ hk, hnamed⟩
      obtain ⟨haddr, hreads⟩ := exportLoop_none hnone
      rw [← hloop] at haddr hreads
      have hno : ∀ i, ¬Exported m b d name.chars i := fun i hi => hsome ⟨i, hi.1, hi.2.1⟩
      refine ⟨iff_of_false (not_not_intro haddr) fun ⟨i, hi⟩ => hno i hi, fun i hi => absurd hi (hno i),
        fun e he => ?_, hinside⟩
      obtain ⟨hname, hlt⟩ := hreads e he
      rw [Nat.zero_add] at hlt
      rw [hname]
      exact hlt

/-- A PE32+ image at 4096 that exports one name, `A`, with ordinal 1. -/
def oneExport (rva : Nat) : Mem :=
  let m : Mem := fun _ => 0
  let m := (m.write 4096 2 0x5A4D).write (4096 + 0x3C) 4 0x40
  let m := (m.write (4096 + 0x40) 4 0x4550).write (4096 + 0x58) 2 0x20B
  let m := (m.write (4096 + 0xC4) 4 16).write (4096 + 0xC8) 8 0x3400000200
  let m := (m.write (4096 + 0x210) 4 1).write (4096 + 0x214) 4 1
  let m := (m.write (4096 + 0x218) 4 1).write (4096 + 0x21C) 4 0x228
  let m := (m.write (4096 + 0x220) 4 0x22C).write (4096 + 0x224) 4 0x230
  (m.write (4096 + 0x228) 4 rva).write (4096 + 0x22C) 8 0x41000000000232

def nameA : CString := ⟨[65], by decide⟩

theorem exports_agree_iff_oneExport :
    ExportsAgree (oneExport 0x300) 4096 (exportDir (oneExport 0x300) 4096 0x200) nameA := by
  have hdir : (getDir (oneExport 0x300) 4096 0).1 = 0x200 := by decide +kernel
  have hfields : (exportDir (oneExport 0x300) 4096 0x200).nnames = 1 ∧
      (exportDir (oneExport 0x300) 4096 0x200).table .ordinals 0 <
        (exportDir (oneExport 0x300) 4096 0x200).nfuncs ∧
      (exportDir (oneExport 0x300) 4096 0x200).table .functions
        ((exportDir (oneExport 0x300) 4096 0x200).table .ordinals 0) ≠ 0 ∧
      (exportDir (oneExport 0x300) 4096 0x200).ordBase +
        (exportDir (oneExport 0x300) 4096 0x200).table .ordinals 0 < 2 ^ 32 := by decide +kernel
  have hagree := exports_agree_iff (oneExport 0x300) 4096 nameA (by decide) (by rw [hdir]; decide)
  rw [hdir] at hagree
  refine hagree.mpr fun i hi _ _ => ?_
  rw [hfields.1] at hi
  obtain rfl := Nat.lt_one_iff.mp hi
  exact hfields.2

/-- With 0 for the address of its function the name is still found, and its ordinal is not. -/
theorem export_of_empty_slot : (getDir (oneExport 0) 4096 0).1 = 0x200 ∧
    (peGetExport (oneExport 0) 4096 nameA).1 = 4096 ∧
    (peGetExportByOrdinal (oneExport 0) 4096 1).1 = 0 ∧
    ¬ExportsAgree (oneExport 0) 4096 (exportDir (oneExport 0) 4096 0x200) nameA := by
  have hdir : (getDir (oneExport 0) 4096 0).1 = 0x200 := by decide +kernel
  have hfound : (peGetExport (oneExport 0) 4096 nameA).1 = 4096 := by decide +kernel
  have hnone : (peGetExportByOrdinal (oneExport 0) 4096 1).1 = 0 := by decide +kernel
  have hfields : (exportDir (oneExport 0) 4096 0x200).nnames = 1 ∧
      (exportDir (oneExport 0) 4096 0x200).table .functions
        ((exportDir (oneExport 0) 4096 0x200).table .ordinals 0) = 0 := by decide +kernel
  refine ⟨hdir, hfound, hnone, fun hagree => ?_⟩
  obtain ⟨i, hi, -, -, hfunc⟩ := hagree.found.mp (by rw [hfound]; decide)
  rw [hfields.1] at hi
  obtain rfl := Nat.lt_one_iff.mp hi
  exact hfunc hfields.2

end Lookups

end MeuOS.Ldr
