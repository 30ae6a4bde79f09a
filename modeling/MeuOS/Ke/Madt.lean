import MeuOS.Lib.CString
import MeuOS.Ke.Sched
import Mathlib.Data.List.TakeWhile

/-! The local APICs in the ACPI tables of the firmware. A run of the parser comes with every read it makes through
a pointer to a table. -/
namespace MeuOS.Ke

open MeuOS.Lib

/-- 1 GiB. What lies above is not mapped. -/
def mappedTop : Nat := 0x40000000

/-- `sizeof(struct sdt_header)` and `sizeof(struct madt_header)`. -/
def sdtHeader : Nat := 36
def madtHeader : Nat := 44

/-- `size` bytes at an address, read through a pointer to a table. -/
structure Read where
  table : Nat
  start : Nat
  size : Nat

/-- `s_apic_id_table` as far as `s_cpu_count` goes, and `s_ioapic_phys_from_madt`. -/
structure Smp where
  apicIds : List UInt8
  ioapicPhys : Nat

structure MadtParse where
  smp : Smp
  reads : List Read
  found : Bool

section

variable (m : Mem)

/-- `length` of a table. -/
def sdtLength (t : Nat) : Nat := m.rd32 (t + 4)

/-- The read is of the bytes that the table declares. -/
def Read.Inside (r : Read) : Prop := r.table ≤ r.start ∧ r.start + r.size ≤ r.table + sdtLength m r.table

def hasSig (t : Nat) : List UInt8 → Nat → Bool
  | [], _ => true
  | c :: sig, i => m (t + i) == c && hasSig t sig (i + 1)

/-- The bytes of a signature that are compared. -/
def sigReads (t : Nat) : List UInt8 → Nat → List Read
  | [], _ => []
  | c :: sig, i => ⟨t, t + i, 1⟩ :: if m (t + i) == c then sigReads t sig (i + 1) else []

/-- `(rsdt->length - sizeof(struct sdt_header)) / 4` in 64 bits, as a `uint32_t`. -/
def rsdtEntries (length : Nat) : Nat := (length + 2 ^ 64 - sdtHeader) % 2 ^ 64 / 4 % 2 ^ 32

/-- `entry_ptrs[i]`. -/
def entryPtr (rsdt i : Nat) : Nat := m.rd32 (rsdt + sdtHeader + 4 * i)

def entryReads (rsdt i : Nat) : List Read :=
  let t := entryPtr m rsdt i
  [⟨rsdt, rsdt + sdtHeader + 4 * i, 4⟩, ⟨t, t, 1⟩, ⟨t, t + 1, 1⟩, ⟨t, t + 2, 1⟩, ⟨t, t + 3, 1⟩, ⟨t, t + 4, 4⟩]

def apicSig : List UInt8 := ascii "APIC"
def rsdtSig : List UInt8 := ascii "RSDT"

/-- What is read up to the end of the RSDT, once its signature is found right. -/
def rsdtReads (rsdt n : Nat) : List Read :=
  sigReads m rsdt rsdtSig 0 ++ ⟨rsdt, rsdt + 4, 4⟩ :: (List.range n).flatMap (entryReads m rsdt)

/-- The last table with the signature "APIC", or a null pointer. -/
def findMadt (rsdt n : Nat) : Nat :=
  (List.range n).foldl (fun madt i => if hasSig m (entryPtr m rsdt i) apicSig 0 then entryPtr m rsdt i else madt) 0

def entryLen (p : Nat) : Nat := (m (p + 1)).toNat

/-- `la->flags & 1u`. -/
def lapicEnabled (p : Nat) : Bool := m.rd32 (p + 4) % 2 == 1

/-- What the `switch` does with an entry of the table `t`. -/
def madtEntry (t p : Nat) (s : Smp) : Smp × List Read :=
  if m p = 0 then
    if lapicEnabled m p = true ∧ s.apicIds.length < maxCpus then
      ({ s with apicIds := s.apicIds ++ [m (p + 3)] }, [⟨t, p + 4, 4⟩, ⟨t, p + 3, 1⟩, ⟨t, p + 2, 1⟩])
    else (s, [⟨t, p + 4, 4⟩])
  else if m p = 1 then
    ({ s with ioapicPhys := if s.ioapicPhys = 0 then m.rd32 (p + 4) else s.ioapicPhys },
      [⟨t, p + 2, 1⟩, ⟨t, p + 4, 4⟩, ⟨t, p + 8, 4⟩])
  else (s, [])

/-- The loop over the entries. It goes on by at least a byte each time. -/
def madtLoop (t stop p : Nat) (s : Smp) : Smp × List Read :=
  if p < stop then
    let head := [⟨t, p, 1⟩, ⟨t, p + 1, 1⟩]
    if entryLen m p = 0 then (s, head)
    else
      let (s, body) := madtEntry m t p s
      let (s, rest) := madtLoop t stop (p + entryLen m p) s
      (s, head ++ body ++ rest)
  else (s, [])
  termination_by stop - p

/-- `parse_madt`. -/
def parseMadt (rsdt : Nat) (s : Smp) : MadtParse :=
  if rsdt = 0 then ⟨s, [], false⟩
  else if mappedTop ≤ rsdt then ⟨s, [], false⟩
  else if hasSig m rsdt rsdtSig 0 = false then ⟨s, sigReads m rsdt rsdtSig 0, false⟩
  else
    let n := rsdtEntries (sdtLength m rsdt)
    let madt := findMadt m rsdt n
    if madt = 0 then ⟨s, rsdtReads m rsdt n, false⟩
    else
      let head := [⟨madt, madt + 4, 4⟩, ⟨madt, madt + 36, 4⟩, ⟨madt, madt + 40, 4⟩]
      let walk := madtLoop m madt (madt + sdtLength m madt) (madt + madtHeader) s
      ⟨walk.1, rsdtReads m rsdt n ++ head ++ walk.2, decide (0 < walk.1.apicIds.length)⟩

/-! ## What the tables hold -/

/-- An entry that has a header, ends in the table, and is as long as its type makes it. -/
def Complete (stop p : Nat) : Bool :=
  decide (2 ≤ entryLen m p ∧ p + entryLen m p ≤ stop ∧ (m p = 0 → 8 ≤ entryLen m p) ∧ (m p = 1 → 12 ≤ entryLen m p))

/-- The complete entries up to the first that is not. -/
def madtEntries (stop p : Nat) : List Nat :=
  if Complete m stop p = true ∧ p < stop ∧ 0 < entryLen m p then p :: madtEntries stop (p + entryLen m p) else []
  termination_by stop - p

/-- An enabled local APIC. -/
def isLapic (p : Nat) : Bool := m p == 0 && lapicEnabled m p

/-- The ids of the local APICs that are enabled, for as many processors as there can be. -/
def madtIds (madt : Nat) : List UInt8 :=
  (((madtEntries m (madt + sdtLength m madt) (madt + madtHeader)).filter (isLapic m)).map fun p => m (p + 3)).take
    maxCpus

/-- The table of the processors that are there, if the firmware has one. -/
def expectedIds (rsdt : Nat) : List UInt8 :=
  if rsdt = 0 then []
  else if mappedTop ≤ rsdt then []
  else if hasSig m rsdt rsdtSig 0 = false then []
  else if findMadt m rsdt (rsdtEntries (sdtLength m rsdt)) = 0 then []
  else madtIds m (findMadt m rsdt (rsdtEntries (sdtLength m rsdt)))

/-- Every read is of declared bytes, and the ids are those of the enabled local APICs. -/
def MadtRight (rsdt : Nat) : Prop :=
  (∀ x ∈ (parseMadt m rsdt ⟨[], 0⟩).reads, x.Inside m) ∧ (parseMadt m rsdt ⟨[], 0⟩).smp.apicIds = expectedIds m rsdt

/-! ## When the parser does it right -/

/-- Where the length bytes lead to, up to a length of 0. -/
def madtVisits (stop p : Nat) : List Nat :=
  if p < stop then if entryLen m p = 0 then [p] else p :: madtVisits stop (p + entryLen m p) else []
  termination_by stop - p

/-- The fields that are looked at lie before the end. -/
def FieldsFit (stop p : Nat) : Prop :=
  p + 2 ≤ stop ∧ (entryLen m p ≠ 0 → (m p = 0 → p + 8 ≤ stop) ∧ (m p = 1 → p + 12 ≤ stop))

/-- From the first entry that is not complete, no length byte leads to an enabled local APIC, unless the table of
processors is full; and all fields on the way fit. -/
def TidyEntries (madt : Nat) : Prop :=
  let stop := madt + sdtLength m madt
  let visits := madtVisits m stop (madt + madtHeader)
  (∀ p ∈ visits, FieldsFit m stop p) ∧
    (maxCpus ≤ ((visits.takeWhile (Complete m stop)).filter (isLapic m)).length ∨
      ∀ p ∈ visits.dropWhile (Complete m stop), entryLen m p = 0 ∨ isLapic m p = false)

/-- `n` tables of which `madt` is the last with its signature, if one is. -/
def TidyTables (rsdt n madt : Nat) : Prop :=
  sdtHeader ≤ sdtLength m rsdt ∧ (∀ i < n, 8 ≤ sdtLength m (entryPtr m rsdt i)) ∧
    (madt ≠ 0 → madtHeader ≤ sdtLength m madt ∧ TidyEntries m madt)

/-- The declared lengths cover the headers, and the entries are tidy. -/
def Tidy (rsdt : Nat) : Prop :=
  rsdt = 0 ∨ mappedTop ≤ rsdt ∨
    if hasSig m rsdt rsdtSig 0 = false then (sigReads m rsdt rsdtSig 0).length ≤ sdtLength m rsdt
    else
      TidyTables m rsdt (rsdtEntries (sdtLength m rsdt)) (findMadt m rsdt (rsdtEntries (sdtLength m rsdt)))

end

section Walk

variable {m : Mem} {t stop p : Nat} {s : Smp}

/-- The entry that the loop is at registers a processor. -/
def registers (m : Mem) (p : Nat) : Bool := entryLen m p != 0 && isLapic m p

theorem madtEntry_ids : (madtEntry m t p s).1.apicIds =
    if isLapic m p = true ∧ s.apicIds.length < maxCpus then s.apicIds ++ [m (p + 3)] else s.apicIds := by
  unfold madtEntry isLapic
  by_cases h0 : m p = 0
  · rw [if_pos h0, show (m p == 0) = true from beq_iff_eq.mpr h0, Bool.true_and]
    split <;> rfl
  · rw [if_neg h0, show (m p == 0) = false from beq_eq_false_iff_ne.mpr h0, Bool.false_and]
    rw [if_neg (c := false = true ∧ _) fun h => Bool.false_ne_true h.1]
    split <;> rfl

theorem take_full {l : List UInt8} (hl : l.length ≤ maxCpus) : l = (l ++ []).take maxCpus := by
  rw [List.append_nil, List.take_of_length_le hl]

/-- The ids of all entries that register a processor, as far as there is room. -/
theorem madtLoop_ids (hs : s.apicIds.length ≤ maxCpus) : (madtLoop m t stop p s).1.apicIds =
    (s.apicIds ++ ((madtVisits m stop p).filter (registers m)).map fun p => m (p + 3)).take maxCpus := by
  induction p using madtVisits.induct m stop generalizing s with
  | case1 p hlt hzero =>
    have hnone : registers m p = false := by
      unfold registers
      rw [hzero]
      rfl
    rw [madtLoop, madtVisits, if_pos hlt, if_pos hlt, if_pos hzero, if_pos hzero,
      List.filter_cons_of_neg (by rw [hnone]; exact Bool.false_ne_true)]
    exact take_full hs
  | case2 p hlt hzero ih =>
    have hreg : registers m p = isLapic m p := by
      unfold registers
      rw [bne_iff_ne.mpr hzero, Bool.true_and]
    rw [madtLoop, madtVisits, if_pos hlt, if_pos hlt, if_neg hzero, if_neg hzero]
    dsimp only
    have hids := madtEntry_ids (m := m) (t := t) (p := p) (s := s)
    by_cases hlapic : isLapic m p = true
    · rw [List.filter_cons_of_pos (hreg.trans hlapic), List.map_cons]
      by_cases hroom : s.apicIds.length < maxCpus
      · rw [if_pos ⟨hlapic, hroom⟩] at hids
        rw [ih (by rw [hids, List.length_append]; exact hroom), hids, List.append_assoc, List.singleton_append]
      · rw [if_neg fun h => hroom h.2] at hids
        have hfull : s.apicIds.length = maxCpus := Nat.le_antisymm hs (Nat.not_lt.mp hroom)
        rw [ih (hids ▸ hs), hids, List.take_append_of_le_length (Nat.le_of_eq hfull.symm),
          List.take_append_of_le_length (Nat.le_of_eq hfull.symm)]
    · rw [if_neg fun h => hlapic h.1] at hids
      rw [ih (hids ▸ hs), hids, List.filter_cons_of_neg (hreg ▸ hlapic)]
  | case3 p hge =>
    rw [madtLoop, madtVisits, if_neg hge, if_neg hge]
    exact take_full hs

theorem madtLoop_bound : (madtLoop m t stop p ⟨[], 0⟩).1.apicIds.length ≤ maxCpus := by
  rw [madtLoop_ids (Nat.zero_le _), List.length_take]
  exact Nat.min_le_left _ _

theorem madtEntry_reads (hp : t ≤ p) (hstop : stop = t + sdtLength m t) :
    (∀ x ∈ (madtEntry m t p s).2, x.Inside m) ↔ (m p = 0 → p + 8 ≤ stop) ∧ (m p = 1 → p + 12 ≤ stop) := by
  unfold madtEntry
  by_cases h0 : m p = 0
  · have h1 : m p ≠ 1 := by
      rw [h0]
      decide
    rw [if_pos h0]
    split
    all_goals
      simp only [List.mem_cons, List.not_mem_nil, or_false, forall_eq_or_imp, forall_eq, Read.Inside, ← hstop]
      exact ⟨fun h => ⟨fun _ => by omega, fun h => absurd h h1⟩, fun h => by have := h.1 h0; omega⟩
  · rw [if_neg h0]
    by_cases h1 : m p = 1
    · rw [if_pos h1]
      simp only [List.mem_cons, List.not_mem_nil, or_false, forall_eq_or_imp, forall_eq, Read.Inside, ← hstop]
      exact ⟨fun h => ⟨fun h => absurd h h0, fun _ => by omega⟩, fun h => by have := h.2 h1; omega⟩
    · rw [if_neg h1]
      exact iff_of_true nofun ⟨fun h => absurd h h0, fun h => absurd h h1⟩

/-- The reads of the loop are inside exactly if all fields on the way fit. -/
theorem madtLoop_reads (hp : t ≤ p) (hstop : stop = t + sdtLength m t) :
    (∀ x ∈ (madtLoop m t stop p s).2, x.Inside m) ↔ ∀ q ∈ madtVisits m stop p, FieldsFit m stop q := by
  induction p using madtVisits.induct m stop generalizing s with
  | case1 p hlt hzero =>
    rw [madtLoop, madtVisits, if_pos hlt, if_pos hlt, if_pos hzero, if_pos hzero]
    simp only [List.mem_cons, List.not_mem_nil, or_false, forall_eq_or_imp, forall_eq, Read.Inside, FieldsFit]
    omega
  | case2 p hlt hzero ih =>
    rw [madtLoop, madtVisits, if_pos hlt, if_pos hlt, if_neg hzero, if_neg hzero]
    dsimp only
    rw [List.forall_mem_append, List.forall_mem_append, ih (by omega), madtEntry_reads hp hstop,
      List.forall_mem_cons (a := p)]
    refine and_congr_left fun _ => ?_
    simp only [List.mem_cons, List.not_mem_nil, or_false, forall_eq_or_imp, forall_eq, Read.Inside, FieldsFit]
    rw [← hstop]
    constructor
    · exact fun h => ⟨by omega, fun _ => h.2⟩
    · exact fun h => ⟨by omega, h.2 hzero⟩
  | case3 p hge =>
    rw [madtLoop, madtVisits, if_neg hge, if_neg hge]
    exact iff_of_true nofun nofun

theorem madtEntries_eq (stop p : Nat) : madtEntries m stop p = (madtVisits m stop p).takeWhile (Complete m stop) := by
  induction p using madtVisits.induct m stop with
  | case1 p hlt hzero =>
    have hshort : Complete m stop p = false := decide_eq_false fun h => by omega
    rw [madtEntries, madtVisits, if_pos hlt, if_pos hzero, if_neg fun h => by omega, List.takeWhile_cons_of_neg]
    rw [hshort]
    exact Bool.false_ne_true
  | case2 p hlt hzero ih =>
    rw [madtEntries, madtVisits, if_pos hlt, if_neg hzero]
    by_cases hc : Complete m stop p = true
    · rw [if_pos ⟨hc, hlt, by omega⟩, List.takeWhile_cons_of_pos hc, ih]
    · rw [if_neg fun h => hc h.1, List.takeWhile_cons_of_neg hc]
  | case3 p hge =>
    rw [madtEntries, madtVisits, if_neg hge, if_neg fun h => hge h.2.1]
    rfl

/-- The bound lies in the first list, or there is no second one. -/
theorem take_append_iff {l r : List UInt8} {n : Nat} : (l ++ r).take n = l.take n ↔ n ≤ l.length ∨ r = [] := by
  constructor
  · intro h
    have hlen := congrArg List.length h
    rw [List.length_take, List.length_take, List.length_append] at hlen
    rcases Nat.lt_or_ge l.length n with hlt | hge
    · refine .inr (List.length_eq_zero_iff.mp ?_)
      omega
    · exact .inl hge
  · rintro (hle | rfl)
    · exact List.take_append_of_le_length hle
    · rw [List.append_nil]

/-- The processors that the loop registers are the enabled ones among the complete entries. -/
theorem madtLoop_right {madt : Nat} :
    (madtLoop m madt (madt + sdtLength m madt) (madt + madtHeader) ⟨[], 0⟩).1.apicIds = madtIds m madt ↔
      let stop := madt + sdtLength m madt
      let visits := madtVisits m stop (madt + madtHeader)
      maxCpus ≤ ((visits.takeWhile (Complete m stop)).filter (isLapic m)).length ∨
        ∀ p ∈ visits.dropWhile (Complete m stop), entryLen m p = 0 ∨ isLapic m p = false := by
  generalize hstop : madt + sdtLength m madt = stop
  generalize hvisits : madtVisits m stop (madt + madtHeader) = visits
  dsimp only
  rw [hvisits]
  have hreg : (visits.takeWhile (Complete m stop)).filter (registers m) =
      (visits.takeWhile (Complete m stop)).filter (isLapic m) := by
    refine List.filter_congr fun p hp => ?_
    have hcomplete : Complete m stop p = true := List.mem_takeWhile_imp hp
    have hlen := (of_decide_eq_true hcomplete).1
    unfold registers
    rw [bne_iff_ne.mpr (by omega), Bool.true_and]
  have hrest : (visits.dropWhile (Complete m stop)).filter (registers m) = [] ↔
      ∀ p ∈ visits.dropWhile (Complete m stop), entryLen m p = 0 ∨ isLapic m p = false := by
    rw [List.filter_eq_nil_iff]
    refine forall₂_congr fun p _ => ?_
    unfold registers
    rw [Bool.and_eq_true, bne_iff_ne, not_and_or, not_not, Bool.not_eq_true]
  have hloop : (madtLoop m madt stop (madt + madtHeader) ⟨[], 0⟩).1.apicIds = _ := madtLoop_ids (Nat.zero_le _)
  rw [hloop, madtIds, hstop, madtEntries_eq, hvisits, List.nil_append]
  rw [show visits.filter (registers m) = (visits.takeWhile (Complete m stop) ++
    visits.dropWhile (Complete m stop)).filter (registers m) by rw [List.takeWhile_append_dropWhile],
    List.filter_append, List.map_append, hreg, take_append_iff, List.length_map, List.map_eq_nil_iff, hrest]

end Walk

section Tables

variable {m : Mem} {rsdt t : Nat}

theorem sigReads_inside (sig : List UInt8) (i : Nat) : (∀ x ∈ sigReads m t sig i, x.Inside m) ↔
    sigReads m t sig i = [] ∨ i + (sigReads m t sig i).length ≤ sdtLength m t := by
  induction sig generalizing i with
  | nil => exact iff_of_true nofun (.inl rfl)
  | cons c sig ih =>
    rw [sigReads, List.forall_mem_cons, List.length_cons]
    have hfirst : Read.Inside m ⟨t, t + i, 1⟩ ↔ i + 1 ≤ sdtLength m t := by
      unfold Read.Inside
      dsimp only
      omega
    rw [hfirst]
    split
    · rw [ih]
      constructor
      · rintro ⟨hone, hnil | hrest⟩
        · rw [hnil]
          exact .inr hone
        · exact .inr (by omega)
      · rintro (hnil | hall)
        · cases hnil
        · exact ⟨by omega, .inr (by omega)⟩
    · exact ⟨fun h => .inr h.1, fun h => ⟨h.resolve_left (List.cons_ne_nil _ _), nofun⟩⟩

theorem sigReads_matched (sig : List UInt8) (i : Nat) (h : hasSig m t sig i = true) :
    (sigReads m t sig i).length = sig.length := by
  induction sig generalizing i with
  | nil => rfl
  | cons c sig ih =>
    obtain ⟨hc, hsig⟩ := (Bool.and_eq_true _ _).mp h
    rw [sigReads, if_pos hc, List.length_cons, ih _ hsig, List.length_cons]

/-- The reads of an entry of the RSDT and of the header it leads to. -/
theorem entryReads_inside (i : Nat) : (∀ x ∈ entryReads m rsdt i, x.Inside m) ↔
    sdtHeader + 4 * i + 4 ≤ sdtLength m rsdt ∧ 8 ≤ sdtLength m (entryPtr m rsdt i) := by
  unfold entryReads Read.Inside
  simp only [List.mem_cons, List.not_mem_nil, or_false, forall_eq_or_imp, forall_eq]
  omega

/-- A table that is too short for its header has entries behind its end, for the difference wraps around. -/
theorem tableReads_inside : (∀ i < rsdtEntries (sdtLength m rsdt), ∀ x ∈ entryReads m rsdt i, x.Inside m) ∧
      8 ≤ sdtLength m rsdt ↔
    sdtHeader ≤ sdtLength m rsdt ∧ ∀ i < rsdtEntries (sdtLength m rsdt), 8 ≤ sdtLength m (entryPtr m rsdt i) := by
  have hlt : sdtLength m rsdt < 4294967296 := m.rd32_lt _
  simp only [entryReads_inside]
  generalize hn : rsdtEntries (sdtLength m rsdt) = n
  unfold rsdtEntries sdtHeader at hn
  unfold sdtHeader
  constructor
  · rintro ⟨hall, -⟩
    refine ⟨?_, fun i hi => (hall i hi).2⟩
    by_contra hshort
    have hfirst := (hall 0 (by omega)).1
    omega
  · rintro ⟨hlong, hall⟩
    exact ⟨fun i hi => ⟨by omega, hall i hi⟩, by omega⟩

theorem headerReads_inside : (∀ x ∈ ([⟨t, t + 4, 4⟩, ⟨t, t + 36, 4⟩, ⟨t, t + 40, 4⟩] : List Read), x.Inside m) ↔
    madtHeader ≤ sdtLength m t := by
  unfold Read.Inside madtHeader
  simp only [List.mem_cons, List.not_mem_nil, or_false, forall_eq_or_imp, forall_eq]
  omega

theorem rsdtReads_inside (hsig : hasSig m rsdt rsdtSig 0 = true) :
    (∀ x ∈ rsdtReads m rsdt (rsdtEntries (sdtLength m rsdt)), x.Inside m) ↔
      sdtHeader ≤ sdtLength m rsdt ∧ ∀ i < rsdtEntries (sdtLength m rsdt), 8 ≤ sdtLength m (entryPtr m rsdt i) := by
  have hfour : (sigReads m rsdt rsdtSig 0).length = 4 := sigReads_matched rsdtSig 0 hsig
  have hsigIn : (∀ x ∈ sigReads m rsdt rsdtSig 0, x.Inside m) ↔ 4 ≤ sdtLength m rsdt := by
    rw [sigReads_inside, hfour, Nat.zero_add]
    exact or_iff_right (List.ne_nil_of_length_eq_add_one hfour)
  have hlength : Read.Inside m ⟨rsdt, rsdt + 4, 4⟩ ↔ 8 ≤ sdtLength m rsdt := by
    unfold Read.Inside
    dsimp only
    omega
  rw [← tableReads_inside]
  unfold rsdtReads
  rw [List.forall_mem_append, List.forall_mem_cons, hsigIn, hlength]
  simp only [List.mem_flatMap, List.mem_range, forall_exists_index, and_imp]
  constructor
  · exact fun ⟨_, h8, hall⟩ => ⟨fun i hi x hx => hall x i hi hx, h8⟩
  · exact fun ⟨hall, h8⟩ => ⟨by omega, h8, fun x i hi hx => hall i hi x hx⟩

theorem walk_inside {madt : Nat} {l : List Read} : (∀ x ∈ l ++
      [⟨madt, madt + 4, 4⟩, ⟨madt, madt + 36, 4⟩, ⟨madt, madt + 40, 4⟩] ++
        (madtLoop m madt (madt + sdtLength m madt) (madt + madtHeader) ⟨[], 0⟩).2, x.Inside m) ↔
    (∀ x ∈ l, x.Inside m) ∧ madtHeader ≤ sdtLength m madt ∧
      ∀ p ∈ madtVisits m (madt + sdtLength m madt) (madt + madtHeader), FieldsFit m (madt + sdtLength m madt) p := by
  have hwalk : (∀ x ∈ (madtLoop m madt (madt + sdtLength m madt) (madt + madtHeader) ⟨[], 0⟩).2, x.Inside m) ↔ _ :=
    madtLoop_reads (Nat.le_add_right ..) rfl
  rw [List.forall_mem_append, List.forall_mem_append, headerReads_inside, hwalk, and_assoc]

theorem parseMadt_out {s : Smp} (hout : rsdt = 0 ∨ mappedTop ≤ rsdt) : parseMadt m rsdt s = ⟨s, [], false⟩ := by
  unfold parseMadt
  rcases hout with h | h
  · rw [if_pos h]
  · rw [if_pos h, ite_self]

section Found

variable {s : Smp} (hnull : rsdt ≠ 0) (hlow : rsdt < mappedTop)

include hnull hlow

theorem parseMadt_other (hsig : hasSig m rsdt rsdtSig 0 = false) :
    parseMadt m rsdt s = ⟨s, sigReads m rsdt rsdtSig 0, false⟩ := by
  unfold parseMadt
  rw [if_neg hnull, if_neg (Nat.not_le.mpr hlow), if_pos hsig]

variable (hsig : hasSig m rsdt rsdtSig 0 = true)

include hsig

theorem parseMadt_none (hmadt : findMadt m rsdt (rsdtEntries (sdtLength m rsdt)) = 0) :
    parseMadt m rsdt s = ⟨s, rsdtReads m rsdt (rsdtEntries (sdtLength m rsdt)), false⟩ := by
  unfold parseMadt
  rw [if_neg hnull, if_neg (Nat.not_le.mpr hlow), if_neg (by rw [hsig]; exact Bool.noConfusion), if_pos hmadt]

theorem parseMadt_walk {madt : Nat} (hmadt : findMadt m rsdt (rsdtEntries (sdtLength m rsdt)) = madt) (hne : madt ≠ 0) :
    ∃ found, parseMadt m rsdt s = ⟨(madtLoop m madt (madt + sdtLength m madt) (madt + madtHeader) s).1,
      rsdtReads m rsdt (rsdtEntries (sdtLength m rsdt)) ++
          [⟨madt, madt + 4, 4⟩, ⟨madt, madt + 36, 4⟩, ⟨madt, madt + 40, 4⟩] ++
        (madtLoop m madt (madt + sdtLength m madt) (madt + madtHeader) s).2, found⟩ := by
  subst hmadt
  unfold parseMadt
  rw [if_neg hnull, if_neg (Nat.not_le.mpr hlow), if_neg (by rw [hsig]; exact Bool.noConfusion), if_neg hne]
  exact ⟨_, rfl⟩

omit hsig in
theorem other_right (hsig : hasSig m rsdt rsdtSig 0 = false) :
    (∀ x ∈ (parseMadt m rsdt ⟨[], 0⟩).reads, x.Inside m) ∧ (parseMadt m rsdt ⟨[], 0⟩).smp.apicIds = [] ↔
      (sigReads m rsdt rsdtSig 0).length ≤ sdtLength m rsdt := by
  rw [parseMadt_other hnull hlow hsig]
  dsimp only
  rw [sigReads_inside, Nat.zero_add, and_iff_left rfl]
  exact or_iff_right_of_imp fun hnil => by rw [hnil]; exact Nat.zero_le _

theorem none_right (hmadt : findMadt m rsdt (rsdtEntries (sdtLength m rsdt)) = 0) :
    (∀ x ∈ (parseMadt m rsdt ⟨[], 0⟩).reads, x.Inside m) ∧ (parseMadt m rsdt ⟨[], 0⟩).smp.apicIds = [] ↔
      TidyTables m rsdt (rsdtEntries (sdtLength m rsdt)) 0 := by
  rw [parseMadt_none hnull hlow hsig hmadt]
  have hreads := rsdtReads_inside hsig
  unfold TidyTables
  rw [hreads, and_iff_left rfl]
  exact ⟨fun h => ⟨h.1, h.2, fun hne => absurd rfl hne⟩, fun h => ⟨h.1, h.2.1⟩⟩

theorem walk_right {madt : Nat} (hmadt : findMadt m rsdt (rsdtEntries (sdtLength m rsdt)) = madt) (hne : madt ≠ 0) :
    (∀ x ∈ (parseMadt m rsdt ⟨[], 0⟩).reads, x.Inside m) ∧
        (parseMadt m rsdt ⟨[], 0⟩).smp.apicIds = madtIds m madt ↔
      TidyTables m rsdt (rsdtEntries (sdtLength m rsdt)) madt := by
  obtain ⟨found, hrun⟩ := parseMadt_walk (s := ⟨[], 0⟩) hnull hlow hsig hmadt hne
  rw [hrun]
  have hreads := rsdtReads_inside hsig
  unfold TidyTables
  rw [walk_inside, hreads, madtLoop_right]
  constructor
  · rintro ⟨⟨hrsdt, hheader, hfit⟩, hids⟩
    exact ⟨hrsdt.1, hrsdt.2, fun _ => ⟨hheader, hfit, hids⟩⟩
  · rintro ⟨hlong, hall, hrest⟩
    obtain ⟨hheader, hfit, hids⟩ := hrest hne
    exact ⟨⟨⟨hlong, hall⟩, hheader, hfit⟩, hids⟩

theorem found_bound {madt : Nat} (hmadt : findMadt m rsdt (rsdtEntries (sdtLength m rsdt)) = madt) :
    (parseMadt m rsdt ⟨[], 0⟩).smp.apicIds.length ≤ maxCpus := by
  by_cases hne : madt = 0
  · rw [parseMadt_none hnull hlow hsig (hmadt.trans hne)]
    exact Nat.zero_le _
  · obtain ⟨found, hrun⟩ := parseMadt_walk (s := ⟨[], 0⟩) hnull hlow hsig hmadt hne
    rw [hrun]
    exact madtLoop_bound

end Found

theorem right_iff_tidy (m : Mem) (rsdt : Nat) : MadtRight m rsdt ↔ Tidy m rsdt := by
  unfold MadtRight Tidy expectedIds
  by_cases hout : rsdt = 0 ∨ mappedTop ≤ rsdt
  · refine iff_of_true ?_ (or_assoc.mp (.inl hout))
    rw [parseMadt_out hout]
    refine ⟨nofun, ?_⟩
    rcases hout with h | h
    · rw [if_pos h]
    · rw [if_pos h, ite_self]
  obtain ⟨hnull, hhigh⟩ := not_or.mp hout
  have hlow := Nat.not_le.mp hhigh
  rw [if_neg hnull, if_neg hhigh, or_iff_right hnull, or_iff_right hhigh]
  by_cases hsig : hasSig m rsdt rsdtSig 0 = false
  · rw [if_pos hsig, if_pos hsig]
    exact other_right hnull hlow hsig
  · rw [if_neg hsig, if_neg hsig]
    have hsig := Bool.eq_true_of_not_eq_false hsig
    generalize hmadt : findMadt m rsdt (rsdtEntries (sdtLength m rsdt)) = madt
    by_cases hne : madt = 0
    · rw [if_pos hne, hne]
      exact none_right hnull hlow hsig (hmadt.trans hne)
    · rw [if_neg hne]
      exact walk_right hnull hlow hsig hmadt hne

theorem tidy_found {madt : Nat} (hnull : rsdt ≠ 0) (hlow : rsdt < mappedTop) (hsig : hasSig m rsdt rsdtSig 0 = true)
    (hmadt : findMadt m rsdt (rsdtEntries (sdtLength m rsdt)) = madt) :
    Tidy m rsdt ↔ TidyTables m rsdt (rsdtEntries (sdtLength m rsdt)) madt := by
  unfold Tidy
  rw [or_iff_right hnull, or_iff_right (Nat.not_le.mpr hlow), if_neg (by rw [hsig]; exact Bool.noConfusion), hmadt]

theorem short_not_right (hnull : rsdt ≠ 0) (hlow : rsdt < mappedTop) (hsig : hasSig m rsdt rsdtSig 0 = true)
    (hshort : sdtLength m rsdt < sdtHeader) : ¬ MadtRight m rsdt := by
  rw [right_iff_tidy, tidy_found hnull hlow hsig rfl]
  exact fun htidy => Nat.not_le.mpr hshort htidy.1

theorem parseMadt_ids (m : Mem) (rsdt : Nat) : (parseMadt m rsdt ⟨[], 0⟩).smp.apicIds.length ≤ maxCpus := by
  by_cases hout : rsdt = 0 ∨ mappedTop ≤ rsdt
  · rw [parseMadt_out hout]
    exact Nat.zero_le _
  obtain ⟨hnull, hhigh⟩ := not_or.mp hout
  have hlow := Nat.not_le.mp hhigh
  by_cases hsig : hasSig m rsdt rsdtSig 0 = false
  · rw [parseMadt_other hnull hlow hsig]
    exact Nat.zero_le _
  · exact found_bound hnull hlow (Bool.eq_true_of_not_eq_false hsig) rfl

end Tables

/-- There are never more ids than processors can be, and the parser does its work exactly on tidy tables. -/
theorem madt_parsed (m : Mem) (rsdt : Nat) :
    (parseMadt m rsdt ⟨[], 0⟩).smp.apicIds.length ≤ maxCpus ∧ (MadtRight m rsdt ↔ Tidy m rsdt) :=
  ⟨parseMadt_ids m rsdt, right_iff_tidy m rsdt⟩

/-- A memory that holds these bytes at 0x1000. -/
def firmware (l : List UInt8) : Mem := fun i => if 0x1000 ≤ i then l.getD (i - 0x1000) 0 else 0

/-- An RSDT that declares no length, and a MADT that ends behind the first two bytes of its only entry. -/
def shortRsdt : Mem := firmware (ascii "RSDT")
def cutMadt : Mem :=
  firmware (ascii "RSDT" ++ [40, 0, 0, 0] ++ List.replicate 28 0 ++ [0x28, 0x10, 0, 0] ++
    ascii "APIC" ++ [46, 0, 0, 0] ++ List.replicate 36 0 ++ [0, 2, 0, 0x55, 1, 0, 0, 0])

/-- The short RSDT is read as one of over a thousand million entries, and what lies behind the cut MADT is taken for
a processor. -/
theorem madt_overrun : rsdtEntries (sdtLength shortRsdt 0x1000) = 4294967287 ∧ ¬ MadtRight shortRsdt 0x1000 ∧
    (parseMadt cutMadt 0x1000 ⟨[], 0⟩).smp.apicIds = [0x55] ∧ ¬ MadtRight cutMadt 0x1000 := by
  have hsig : hasSig cutMadt 0x1000 rsdtSig 0 = true := by decide
  have hmadt : findMadt cutMadt 0x1000 (rsdtEntries (sdtLength cutMadt 0x1000)) = 0x1028 := by decide
  have hlen : sdtLength cutMadt 0x1028 = 46 := by decide
  have hvisits : madtVisits cutMadt (0x1028 + 46) (0x1028 + madtHeader) = [0x1054] := by
    rw [madtVisits, if_pos (by decide), if_neg (by decide), madtVisits, if_neg (by decide)]
    rfl
  refine ⟨by decide, short_not_right (by decide) (by decide) (by decide) (by decide), ?_, fun hright => ?_⟩
  · obtain ⟨found, hrun⟩ := parseMadt_walk (s := ⟨[], 0⟩) (by decide) (by decide) hsig hmadt (by decide)
    rw [hrun]
    dsimp only
    rw [madtLoop_ids (Nat.zero_le _), hlen, hvisits]
    decide
  · have htidy := (tidy_found (by decide) (by decide) hsig hmadt).mp ((right_iff_tidy _ _).mp hright)
    have hfits := (htidy.2.2 (by decide)).2.1 0x1054
    rw [hlen, hvisits] at hfits
    exact absurd ((hfits (List.mem_singleton_self _)).2 (by decide)).1 (by decide)

end MeuOS.Ke
