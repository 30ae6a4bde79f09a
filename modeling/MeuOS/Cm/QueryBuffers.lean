import MeuOS.Cm.AbsolutePaths
import MeuOS.Cm.HiveWrites

/-! The queries that fill a buffer: what they write for which length, and what a caller reads back
from the structures they pack. -/
namespace MeuOS.Cm

open MeuOS.Lib

def statusNoMoreEntries : Nat := 0x8000001A

/-- `ResultLength` and the memory at the buffer, after the call. -/
structure BufferReply where
  status : Nat
  resultLength : Option Nat := none
  buffer : Mem

/-- `o->Name[i] = (WCHAR)name[i]` -/
def writeChars (m : Mem) (a : Nat) : List UInt8 → Mem
  | [] => m
  | c :: cs => writeChars (m.write a 2 (wchar c).toNat) (a + 2) cs

/-- What all three do once they know how much room they need. -/
def intoBuffer (need length : Nat) (given : Bool) (buf filled : Mem) : BufferReply :=
  if length < need ∨ given = false then
    { status := statusBufferTooSmall, resultLength := some need, buffer := buf }
  else { status := statusSuccess, resultLength := some need, buffer := filled }

/-! ## The packed structures -/

/-- `sizeof(KBI_LITE) + nlen * 2` in a `ULONG`. -/
def kbiNeed (nlen : Nat) : Nat := (12 + nlen * 2) % 4294967296

/-- `{ TitleIndex, NameLength, Name[1] }` -/
def writeKbi (m : Mem) (name : List UInt8) : Mem :=
  let m := m.write 0 4 0
  let m := m.write 4 4 (name.length * 2)
  writeChars m 8 name

/-- `sizeof(KVFI_LITE) + nlen * 2 + size` in a `ULONG`. -/
def kvfiNeed (nlen size : Nat) : Nat := (24 + nlen * 2 + size) % 4294967296

/-- `{ TitleIndex, Type, DataOffset, DataLength, NameLength, Name[1] }`; the data goes behind the
padding of the structure. -/
def writeKvfi (m : Mem) (v : RegValue) : Mem :=
  let nlen := v.name.chars.length
  let m := m.write 0 4 0
  let m := m.write 4 4 v.type.toNat
  let m := m.write 16 4 (nlen * 2)
  let m := writeChars m 20 v.name.chars
  let m := m.write 8 4 (24 + nlen * 2)
  let m := m.write 12 4 v.size.toNat
  match v.data with
  | some d => m.blit (24 + nlen * 2) v.size.toNat d
  | none => m

/-- `{ TitleIndex, Type, DataLength, Data[1] }` -/
def writeKvpi (m : Mem) (v : RegValue) : Mem :=
  let m := m.write 0 4 0
  let m := m.write 4 4 v.type.toNat
  let m := m.write 8 4 v.size.toNat
  match v.data with
  | some d => m.blit 12 v.size.toNat d
  | none => m

namespace Hive

def ntEnumerateKey (h : Hive) (k index length : Nat) (given : Bool) (buf : Mem) : BufferReply :=
  if k = 0 then { status := statusInvalidHandle, buffer := buf }
  else match (h.keys k).children[index]? with
    | none => { status := statusNoMoreEntries, buffer := buf }
    | some c =>
        let name := (h.keys c).name.chars
        intoBuffer (kbiNeed name.length) length given buf (writeKbi buf name)

def ntEnumerateValueKey (h : Hive) (k index length : Nat) (given : Bool) (buf : Mem) : BufferReply :=
  if k = 0 then { status := statusInvalidHandle, buffer := buf }
  else match (h.keys k).values[index]? with
    | none => { status := statusNoMoreEntries, buffer := buf }
    | some v =>
        intoBuffer (kvfiNeed v.name.chars.length v.size.toNat) length given buf (writeKvfi buf v)

def ntQueryValueKey (h : Hive) (k : Nat) (valueName : Option UnicodeString) (length : Nat)
    (given : Bool) (buf : Mem) : BufferReply :=
  if k = 0 then { status := statusInvalidHandle, buffer := buf }
  else match h.regFindValue k (uniToAscii valueName maxName) with
    | none => { status := statusObjectNameNotFound, buffer := buf }
    | some v => intoBuffer (kvpiNeed v.size.toNat) length given buf (writeKvpi buf v)

end Hive

/-! ## Reading back -/

/-- `n` characters of a name. -/
def readChars (m : Mem) (a n : Nat) : List Nat := (List.range n).map fun i => m.rd16 (a + i * 2)

def readKbi (m : Mem) : List Nat := readChars m 8 (m.rd32 4 / 2)

def readKvfi (m : Mem) : Nat × List Nat × Option (List UInt8) :=
  (m.rd32 4, readChars m 20 (m.rd32 16 / 2),
    some ((List.range (m.rd32 12)).map fun i => m (m.rd32 8 + i)))

def readKvpi (m : Mem) : Nat × Option (List UInt8) :=
  (m.rd32 4, some ((List.range (m.rd32 8)).map fun i => m (12 + i)))

/-- The characters that are stored. -/
def codes (name : List UInt8) : List Nat := name.map UInt8.toNat

/-- The bytes that are stored, none where the block is missing. -/
def RegValue.bytes (v : RegValue) : Option (List UInt8) :=
  if v.size = 0 then some [] else v.data.map fun d => (List.range v.size.toNat).map d

/-- The three promises of a query for one entry. -/
structure BufferRight {α : Type} (query : Nat → Bool → Mem → BufferReply) (read : Mem → α)
    (stored : α) : Prop where
  inside : ∀ length given buf i, length ≤ i → (query length given buf).buffer i = buf i
  replies : ∀ length given buf, (query length given buf).status = statusSuccess ∨
    (query length given buf).status = statusBufferTooSmall
  decoded : ∀ length given buf, (query length given buf).status = statusSuccess →
    read (query length given buf).buffer = stored
  tooSmall : ∀ length given buf, (query length given buf).status = statusBufferTooSmall →
    (query length given buf).buffer = buf ∧ ∃ n, (query length given buf).resultLength = some n ∧
      ∀ buf', (query n true buf').status = statusSuccess

/-- There is no such entry, and nothing is written. -/
def NoEntry (status : Nat) (query : Nat → Bool → Mem → BufferReply) : Prop :=
  ∀ length given buf, (query length given buf).status = status ∧ (query length given buf).buffer = buf

/-- A query keeps the promises if what it writes fits the room it asks for and reads back. -/
theorem bufferRight_iff {α : Type} {need : Nat} {fill : Mem → Mem} {read : Mem → α} {stored : α} :
    BufferRight (fun length given buf => intoBuffer need length given buf (fill buf)) read stored ↔
      (∀ buf i, need ≤ i → fill buf i = buf i) ∧ ∀ buf, read (fill buf) = stored := by
  have hsuccess : ∀ length given buf, ¬ (length < need ∨ given = false) →
      intoBuffer need length given buf (fill buf) =
        { status := statusSuccess, resultLength := some need, buffer := fill buf } :=
    fun _ _ _ hroom => if_neg hroom
  have hsmall : ∀ length given buf, length < need ∨ given = false →
      intoBuffer need length given buf (fill buf) =
        { status := statusBufferTooSmall, resultLength := some need, buffer := buf } :=
    fun _ _ _ hroom => if_pos hroom
  have hexact : ¬ (need < need ∨ true = false) := by simp
  have hdiffer : statusBufferTooSmall ≠ statusSuccess := by decide
  constructor
  · intro hright
    constructor
    · intro buf i hi
      have hinside := hright.inside need true buf i hi
      rwa [hsuccess need true buf hexact] at hinside
    · intro buf
      have hdecoded := hright.decoded need true buf
      rw [hsuccess need true buf hexact] at hdecoded
      exact hdecoded rfl
  · rintro ⟨hinside, hread⟩
    refine ⟨fun length given buf i hi => ?_, fun length given buf => ?_, fun length given buf hstatus => ?_,
      fun length given buf hstatus => ?_⟩
    · by_cases hroom : length < need ∨ given = false
      · rw [hsmall length given buf hroom]
      · rw [hsuccess length given buf hroom]
        exact hinside buf i (by omega)
    · by_cases hroom : length < need ∨ given = false
      · rw [hsmall length given buf hroom]
        exact .inr rfl
      · rw [hsuccess length given buf hroom]
        exact .inl rfl
    · by_cases hroom : length < need ∨ given = false
      · rw [hsmall length given buf hroom] at hstatus
        exact absurd hstatus hdiffer
      · rw [hsuccess length given buf hroom]
        exact hread buf
    · by_cases hroom : length < need ∨ given = false
      · rw [hsmall length given buf hroom]
        exact ⟨rfl, need, rfl, fun buf' => by rw [hsuccess need true buf' hexact]⟩
      · rw [hsuccess length given buf hroom] at hstatus
        exact absurd hstatus hdiffer.symm

/-! ## Names -/

theorem writeChars_outside (m : Mem) {a i : Nat} (cs : List UInt8) (h : i < a ∨ a + cs.length * 2 ≤ i) :
    writeChars m a cs i = m i := by
  induction cs generalizing m a with
  | nil => rfl
  | cons c cs ih =>
    simp only [List.length_cons] at h
    unfold writeChars
    rw [ih _ (by omega)]
    exact Mem.write_outside _ _ (by omega)

theorem agree_writeChars (m : Mem) {a lo hi : Nat} (cs : List UInt8)
    (h : hi ≤ a ∨ a + cs.length * 2 ≤ lo) : Mem.Agree (writeChars m a cs) m lo hi :=
  fun _ hlo hhi => writeChars_outside m cs (by omega)

theorem readChars_congr {m m' : Mem} {a n : Nat} (h : Mem.Agree m m' a (a + n * 2)) :
    readChars m a n = readChars m' a n := by
  unfold readChars
  refine List.map_congr_left fun i hi => ?_
  have hlt := List.mem_range.1 hi
  exact Mem.read_congr (h.mono (by omega) (by omega))

theorem readChars_writeChars (m : Mem) (a : Nat) (cs : List UInt8) :
    readChars (writeChars m a cs) a cs.length = cs.map fun c => (wchar c).toNat := by
  induction cs generalizing m a with
  | nil => rfl
  | cons c cs ih =>
    have hfirst : (writeChars m a (c :: cs)).rd16 (a + 0 * 2) = (wchar c).toNat := by
      show (writeChars (m.write a 2 (wchar c).toNat) (a + 2) cs).read (a + 0 * 2) 2 = _
      rw [Nat.zero_mul, Nat.add_zero]
      exact (Mem.read_congr (agree_writeChars _ cs (.inl (Nat.le_refl _)))).trans
        (Mem.read_write_of_lt _ (wchar c).toNat_lt)
    have hrest := ih (m.write a 2 (wchar c).toNat) (a + 2)
    unfold readChars at hrest ⊢
    rw [List.length_cons, List.range_succ_eq_map, List.map_cons, List.map_map, hfirst, List.map_cons, ← hrest]
    refine congrArg _ (List.map_congr_left fun i _ => ?_)
    rw [Function.comp_apply, show a + i.succ * 2 = a + 2 + i * 2 by omega]
    rfl

/-- A `char` is the same `WCHAR` as long as its sign does not get in the way. -/
theorem wchar_toNat_iff (c : UInt8) : (wchar c).toNat = c.toNat ↔ c < 128 := by
  have hlt := c.toNat_lt
  unfold wchar
  by_cases hc : c < 128
  · rw [if_pos hc]
    exact iff_of_true (UInt8.toNat_toUInt16 c) hc
  · rw [if_neg hc]
    refine iff_of_false ?_ hc
    rw [UInt16.toNat_add, UInt8.toNat_toUInt16, show (0xFF00 : UInt16).toNat = 65280 from rfl]
    omega

/-- All its characters below 128. -/
def Ascii (name : List UInt8) : Prop := ∀ c ∈ name, c < 128

theorem codes_iff (name : List UInt8) : (name.map fun c => (wchar c).toNat) = codes name ↔ Ascii name := by
  unfold codes Ascii
  rw [List.map_inj_left]
  exact forall₂_congr fun c _ => wchar_toNat_iff c

/-! ## The three structures -/

section Layout

variable {name : List UInt8}

theorem writeKbi_outside (m : Mem) {i : Nat} (h : 8 + name.length * 2 ≤ i) : writeKbi m name i = m i := by
  unfold writeKbi
  rw [writeChars_outside _ _ (.inr h), Mem.write_outside _ _ (by omega), Mem.write_outside _ _ (by omega)]

theorem readKbi_writeKbi (m : Mem) (hshort : name.length < maxName) :
    readKbi (writeKbi m name) = name.map fun c => (wchar c).toNat := by
  have hlength : (writeKbi m name).rd32 4 = name.length * 2 := by
    unfold writeKbi
    rw [Mem.rd32_congr (agree_writeChars _ _ (by omega))]
    exact Mem.rd32_write _ _ (by simp only [maxName] at hshort; omega)
  unfold readKbi
  rw [hlength, Nat.mul_div_cancel _ (by decide)]
  exact readChars_writeChars _ _ _

/-- `NtEnumerateKey` gives the name of the child. -/
theorem kbi_right_iff (hshort : name.length < maxName) :
    BufferRight (fun length given buf => intoBuffer (kbiNeed name.length) length given buf (writeKbi buf name))
      readKbi (codes name) ↔ Ascii name := by
  have hneed : kbiNeed name.length = 12 + name.length * 2 := by
    unfold kbiNeed
    simp only [maxName] at hshort
    omega
  rw [bufferRight_iff, hneed, ← codes_iff]
  constructor
  · rintro ⟨-, hread⟩
    rw [← hread (fun _ => 0), readKbi_writeKbi _ hshort]
  · intro hcodes
    exact ⟨fun buf i hi => writeKbi_outside buf (by omega), fun buf => by rw [readKbi_writeKbi _ hshort, hcodes]⟩

end Layout

section Values

variable {v : RegValue}

/-- Where the data of the value goes. -/
theorem writeKvfi_eq (m : Mem) (v : RegValue) : ∃ m', (∀ i, 20 + v.name.chars.length * 2 ≤ i → m' i = m i) ∧
    m'.rd32 4 = v.type.toNat ∧ m'.rd32 8 = 24 + v.name.chars.length * 2 ∧ m'.rd32 12 = v.size.toNat ∧
    m'.rd32 16 = v.name.chars.length * 2 ∧
    readChars m' 20 v.name.chars.length = v.name.chars.map (fun c => (wchar c).toNat) ∧
    writeKvfi m v = match v.data with
      | some d => m'.blit (24 + v.name.chars.length * 2) v.size.toNat d
      | none => m' := by
  have hfits := v.name.fits
  simp only [maxName] at hfits
  have htype := v.type.toNat_lt
  have hsize := v.size.toNat_lt
  refine ⟨_, fun i hi => ?_, ?_, ?_, ?_, ?_, ?_, rfl⟩
  · rw [Mem.write_outside _ _ (by omega), Mem.write_outside _ _ (by omega),
      writeChars_outside _ _ (by omega), Mem.write_outside _ _ (by omega),
      Mem.write_outside _ _ (by omega), Mem.write_outside _ _ (by omega)]
  · unfold Mem.rd32
    rw [Mem.read_write_of_disjoint _ _ (by omega), Mem.read_write_of_disjoint _ _ (by omega),
      Mem.read_congr (agree_writeChars _ _ (by omega)), Mem.read_write_of_disjoint _ _ (by omega)]
    exact Mem.read_write_of_lt _ htype
  · unfold Mem.rd32
    rw [Mem.read_write_of_disjoint _ _ (by omega)]
    exact Mem.read_write_of_lt _ (by omega)
  · exact Mem.rd32_write _ _ hsize
  · unfold Mem.rd32
    rw [Mem.read_write_of_disjoint _ _ (by omega), Mem.read_write_of_disjoint _ _ (by omega),
      Mem.read_congr (agree_writeChars _ _ (by omega))]
    exact Mem.read_write_of_lt _ (by omega)
  · rw [readChars_congr (Mem.agree_write _ _ (by omega)), readChars_congr (Mem.agree_write _ _ (by omega))]
    exact readChars_writeChars _ _ _

theorem writeKvpi_eq (m : Mem) (v : RegValue) : ∃ m', (∀ i, 12 ≤ i → m' i = m i) ∧
    m'.rd32 4 = v.type.toNat ∧ m'.rd32 8 = v.size.toNat ∧
    writeKvpi m v = match v.data with
      | some d => m'.blit 12 v.size.toNat d
      | none => m' := by
  refine ⟨_, fun i hi => ?_, ?_, ?_, rfl⟩
  · rw [Mem.write_outside _ _ (by omega), Mem.write_outside _ _ (by omega), Mem.write_outside _ _ (by omega)]
  · unfold Mem.rd32
    rw [Mem.read_write_of_disjoint _ _ (by omega)]
    exact Mem.read_write_of_lt _ v.type.toNat_lt
  · exact Mem.rd32_write _ _ v.size.toNat_lt

/-- The bytes a caller finds where the data was copied to. -/
theorem bytes_blit {m' : Mem} {o : Nat} (hbytes : v.size = 0 ∨ v.data.isSome = true) :
    some ((List.range v.size.toNat).map fun i => (match v.data with
      | some d => m'.blit o v.size.toNat d
      | none => m') (o + i)) = v.bytes := by
  unfold RegValue.bytes
  by_cases hzero : v.size = 0
  · rw [if_pos hzero, hzero]
    rfl
  · rw [if_neg hzero]
    obtain ⟨d, hd⟩ := Option.isSome_iff_exists.1 (hbytes.resolve_left hzero)
    rw [hd]
    refine congrArg some (List.map_congr_left fun i hi => ?_)
    have hlt := List.mem_range.1 hi
    dsimp only
    rw [Mem.blit_inside _ _ (by omega) (by omega), Nat.add_sub_cancel_left]

theorem bytes_none (hzero : v.size ≠ 0) (hnone : v.data = none) : v.bytes = none := by
  unfold RegValue.bytes
  rw [if_neg hzero, hnone]
  rfl

/-- Words in front of the data. -/
theorem rd32_blit {m' : Mem} {a o : Nat} (h : a + 4 ≤ o) :
    (match v.data with
      | some d => m'.blit o v.size.toNat d
      | none => m').rd32 a = m'.rd32 a := by
  cases v.data with
  | none => rfl
  | some d => exact Mem.rd32_congr (Mem.agree_blit _ _ (.inl h))

/-- A copy that goes past the room that was asked for is seen in a buffer of other bytes. -/
theorem blit_overrun {fill : Mem → Mem} {o need j : Nat} {d : Mem} (hj : j < v.size.toNat)
    (hlate : need ≤ o + j) (hd : v.data = some d)
    (hfill : ∀ m, ∃ m' : Mem, fill m = match v.data with
      | some d => m'.blit o v.size.toNat d
      | none => m') :
    ¬ ∀ buf i, need ≤ i → fill buf i = buf i := by
  intro hinside
  have hbyte := hinside (fun _ => d j + 1) (o + j) hlate
  obtain ⟨m', heq⟩ := hfill fun _ => d j + 1
  rw [heq, hd] at hbyte
  dsimp only at hbyte
  rw [Mem.blit_inside _ _ (by omega) (by omega), Nat.add_sub_cancel_left] at hbyte
  simp at hbyte

theorem blit_within {m m' : Mem} {o i : Nat} (hsame : m' i = m i) (h : o + v.size.toNat ≤ i) :
    (match v.data with
      | some d => m'.blit o v.size.toNat d
      | none => m') i = m i := by
  cases v.data with
  | none => exact hsame
  | some d => exact (Mem.blit_outside _ _ (.inr h)).trans hsame

theorem readKvfi_writeKvfi (m : Mem) (v : RegValue) :
    readKvfi (writeKvfi m v) = (v.type.toNat, v.name.chars.map (fun c => (wchar c).toNat),
      some ((List.range v.size.toNat).map fun i => writeKvfi m v (24 + v.name.chars.length * 2 + i))) := by
  obtain ⟨m', -, htype, hoffset, hsize, hlength, hchars, heq⟩ := writeKvfi_eq m v
  unfold readKvfi
  rw [heq, rd32_blit (by omega), rd32_blit (by omega), rd32_blit (by omega), rd32_blit (by omega), htype,
    hoffset, hsize, hlength, Nat.mul_div_cancel _ (by decide), ← hchars]
  refine congrArg _ (congrArg (fun l => (l, _)) ?_)
  cases v.data with
  | none => rfl
  | some d => exact readChars_congr (Mem.agree_blit _ _ (.inl (by omega)))

/-- `NtEnumerateValueKey` gives the name, type and data of the value. -/
theorem kvfi_right_iff (v : RegValue) :
    BufferRight (fun length given buf =>
        intoBuffer (kvfiNeed v.name.chars.length v.size.toNat) length given buf (writeKvfi buf v))
      readKvfi (v.type.toNat, codes v.name.chars, v.bytes) ↔
      Ascii v.name.chars ∧ (v.size = 0 ∨ v.data.isSome = true) ∧
        24 + v.name.chars.length * 2 + v.size.toNat < 4294967296 := by
  have hfits := v.name.fits
  simp only [maxName] at hfits
  have hsize := v.size.toNat_lt
  rw [bufferRight_iff, ← codes_iff]
  constructor
  · rintro ⟨hinside, hread⟩
    have hparts := hread fun _ => 0
    rw [readKvfi_writeKvfi, Prod.mk.injEq, Prod.mk.injEq] at hparts
    obtain ⟨-, hname, hbytes⟩ := hparts
    have hdata : v.size = 0 ∨ v.data.isSome = true := by
      by_contra hlost
      obtain ⟨hzero, hnone⟩ := not_or.1 hlost
      rw [bytes_none hzero (Option.not_isSome_iff_eq_none.1 hnone)] at hbytes
      cases hbytes
    refine ⟨hname, hdata, ?_⟩
    by_contra hwrap
    have hzero : v.size ≠ 0 := by
      intro hzero
      rw [hzero] at hwrap
      exact hwrap (by simp only [UInt32.toNat_zero]; omega)
    obtain ⟨d, hd⟩ := Option.isSome_iff_exists.1 (hdata.resolve_left hzero)
    refine blit_overrun (j := 0) (o := 24 + v.name.chars.length * 2) (by omega) ?_ hd (fun m => ?_) hinside
    · unfold kvfiNeed
      omega
    · obtain ⟨m', -, -, -, -, -, -, heq⟩ := writeKvfi_eq m v
      exact ⟨m', heq⟩
  · rintro ⟨hname, hdata, hwrap⟩
    have hneed : kvfiNeed v.name.chars.length v.size.toNat =
        24 + v.name.chars.length * 2 + v.size.toNat := Nat.mod_eq_of_lt hwrap
    rw [hneed]
    refine ⟨fun buf i hi => ?_, fun buf => ?_⟩
    · obtain ⟨m', hsame, -, -, -, -, -, heq⟩ := writeKvfi_eq buf v
      rw [heq]
      exact blit_within (hsame i (by omega)) hi
    · obtain ⟨m', -, -, -, -, -, -, heq⟩ := writeKvfi_eq buf v
      rw [readKvfi_writeKvfi, hname, heq, bytes_blit hdata]

theorem readKvpi_writeKvpi (m : Mem) (v : RegValue) :
    readKvpi (writeKvpi m v) =
      (v.type.toNat, some ((List.range v.size.toNat).map fun i => writeKvpi m v (12 + i))) := by
  obtain ⟨m', -, htype, hsize, heq⟩ := writeKvpi_eq m v
  unfold readKvpi
  rw [heq, rd32_blit (by omega), rd32_blit (by omega), htype, hsize]

/-- `NtQueryValueKey` gives the type and data of the value. -/
theorem kvpi_right_iff (v : RegValue) :
    BufferRight (fun length given buf => intoBuffer (kvpiNeed v.size.toNat) length given buf (writeKvpi buf v))
      readKvpi (v.type.toNat, v.bytes) ↔
      (v.size = 0 ∨ v.data.isSome = true) ∧ 15 + v.size.toNat < 4294967296 := by
  have hsize := v.size.toNat_lt
  rw [bufferRight_iff]
  constructor
  · rintro ⟨hinside, hread⟩
    have hparts := hread fun _ => 0
    rw [readKvpi_writeKvpi, Prod.mk.injEq] at hparts
    have hdata : v.size = 0 ∨ v.data.isSome = true := by
      by_contra hlost
      obtain ⟨hzero, hnone⟩ := not_or.1 hlost
      rw [bytes_none hzero (Option.not_isSome_iff_eq_none.1 hnone)] at hparts
      cases hparts.2
    refine ⟨hdata, ?_⟩
    by_contra hwrap
    have hzero : v.size ≠ 0 := by
      intro hzero
      rw [hzero] at hwrap
      exact hwrap (by decide)
    obtain ⟨d, hd⟩ := Option.isSome_iff_exists.1 (hdata.resolve_left hzero)
    refine blit_overrun (j := 2) (o := 12) (by omega) ?_ hd (fun m => ?_) hinside
    · unfold kvpiNeed
      omega
    · obtain ⟨m', -, -, -, heq⟩ := writeKvpi_eq m v
      exact ⟨m', heq⟩
  · rintro ⟨hdata, hwrap⟩
    have hneed : kvpiNeed v.size.toNat = 15 + v.size.toNat := Nat.mod_eq_of_lt hwrap
    rw [hneed]
    refine ⟨fun buf i hi => ?_, fun buf => ?_⟩
    · obtain ⟨m', hsame, -, -, heq⟩ := writeKvpi_eq buf v
      rw [heq]
      exact blit_within (hsame i (by omega)) (by omega)
    · obtain ⟨m', -, -, -, heq⟩ := writeKvpi_eq buf v
      rw [readKvpi_writeKvpi, heq, bytes_blit hdata]

end Values

namespace Hive

/-- The children of a key by their indices, each with its name. -/
def KeysListed (h : Hive) (k : Nat) : Prop := ∀ index,
  match (h.keys k).children[index]? with
  | some c => BufferRight (h.ntEnumerateKey k index) readKbi (codes (h.keys c).name.chars) ↔
      Ascii (h.keys c).name.chars
  | none => NoEntry statusNoMoreEntries (h.ntEnumerateKey k index)

/-- The values of a key by their indices. -/
def ValuesListed (h : Hive) (k : Nat) : Prop := ∀ index,
  match (h.keys k).values[index]? with
  | some v => BufferRight (h.ntEnumerateValueKey k index) readKvfi
        (v.type.toNat, codes v.name.chars, v.bytes) ↔
      Ascii v.name.chars ∧ (v.size = 0 ∨ v.data.isSome = true) ∧
        24 + v.name.chars.length * 2 + v.size.toNat < 4294967296
  | none => NoEntry statusNoMoreEntries (h.ntEnumerateValueKey k index)

/-- The values of a key by their names. -/
def ValuesQueried (h : Hive) (k : Nat) : Prop := ∀ valueName,
  match h.regFindValue k (uniToAscii valueName maxName) with
  | some v => BufferRight (h.ntQueryValueKey k valueName) readKvpi (v.type.toNat, v.bytes) ↔
      (v.size = 0 ∨ v.data.isSome = true) ∧ 15 + v.size.toNat < 4294967296
  | none => NoEntry statusObjectNameNotFound (h.ntQueryValueKey k valueName)

variable {h : Hive} {k : Nat}

theorem intoBuffer_entry (need length : Nat) (given : Bool) (buf filled : Mem) :
    (intoBuffer need length given buf filled).status ≠ statusNoMoreEntries := by
  unfold intoBuffer
  split
  · exact show statusBufferTooSmall ≠ statusNoMoreEntries by decide
  · exact show statusSuccess ≠ statusNoMoreEntries by decide

theorem keysListed (hk : k ≠ 0) : h.KeysListed k := by
  intro index
  cases hentry : (h.keys k).children[index]? with
  | none =>
    intro length given buf
    unfold ntEnumerateKey
    rw [if_neg hk, hentry]
    exact ⟨rfl, rfl⟩
  | some c =>
    dsimp only
    have hquery : h.ntEnumerateKey k index = fun length given buf =>
        intoBuffer (kbiNeed (h.keys c).name.chars.length) length given buf (writeKbi buf (h.keys c).name.chars) := by
      funext length given buf
      unfold ntEnumerateKey
      rw [if_neg hk, hentry]
    rw [hquery]
    exact kbi_right_iff (h.keys c).name.fits

theorem valuesListed (hk : k ≠ 0) : h.ValuesListed k := by
  intro index
  cases hentry : (h.keys k).values[index]? with
  | none =>
    intro length given buf
    unfold ntEnumerateValueKey
    rw [if_neg hk, hentry]
    exact ⟨rfl, rfl⟩
  | some v =>
    dsimp only
    have hquery : h.ntEnumerateValueKey k index = fun length given buf =>
        intoBuffer (kvfiNeed v.name.chars.length v.size.toNat) length given buf (writeKvfi buf v) := by
      funext length given buf
      unfold ntEnumerateValueKey
      rw [if_neg hk, hentry]
    rw [hquery]
    exact kvfi_right_iff v

theorem valuesQueried (hk : k ≠ 0) : h.ValuesQueried k := by
  intro valueName
  cases hentry : h.regFindValue k (uniToAscii valueName maxName) with
  | none =>
    intro length given buf
    unfold ntQueryValueKey
    rw [if_neg hk, hentry]
    exact ⟨rfl, rfl⟩
  | some v =>
    dsimp only
    have hquery : h.ntQueryValueKey k valueName = fun length given buf =>
        intoBuffer (kvpiNeed v.size.toNat) length given buf (writeKvpi buf v) := by
      funext length given buf
      unfold ntQueryValueKey
      rw [if_neg hk, hentry]
    rw [hquery]
    exact kvpi_right_iff v

/-- The indices that have an entry are those of the list. -/
theorem enumerate_ends (hk : k ≠ 0) (index length : Nat) (given : Bool) (buf : Mem) :
    ((h.ntEnumerateKey k index length given buf).status = statusNoMoreEntries ↔
      (h.keys k).children.length ≤ index) ∧
    ((h.ntEnumerateValueKey k index length given buf).status = statusNoMoreEntries ↔
      (h.keys k).values.length ≤ index) := by
  unfold ntEnumerateKey ntEnumerateValueKey
  rw [if_neg hk, if_neg hk]
  constructor
  · rw [← List.getElem?_eq_none_iff]
    cases (h.keys k).children[index]? with
    | none => exact iff_of_true rfl rfl
    | some c => exact iff_of_false (intoBuffer_entry _ _ _ _ _) (Option.some_ne_none c)
  · rw [← List.getElem?_eq_none_iff]
    cases (h.keys k).values[index]? with
    | none => exact iff_of_true rfl rfl
    | some v => exact iff_of_false (intoBuffer_entry _ _ _ _ _) (Option.some_ne_none v)

/-- In every hive, for every key: the children and values come one by one until there are no more,
and each buffer is right exactly for these names and sizes. -/
theorem query_buffers (h : Hive) (hr : Reach HiveStart HiveStep (fun _ _ => True) h) (k : Nat) (hk : k ≠ 0) :
    (h.keys k).children.Nodup ∧
    (∀ index length given buf,
      ((h.ntEnumerateKey k index length given buf).status = statusNoMoreEntries ↔
        (h.keys k).children.length ≤ index) ∧
      ((h.ntEnumerateValueKey k index length given buf).status = statusNoMoreEntries ↔
        (h.keys k).values.length ≤ index)) ∧
    h.KeysListed k ∧ h.ValuesListed k ∧ h.ValuesQueried k :=
  ⟨(hiveReach_sound hr).nodup k, enumerate_ends hk, keysListed hk, valuesListed hk, valuesQueried hk⟩

/-- The name, type and data of `CurrentVersion`, the second value of key 5. -/
theorem query_buffers_version : ∃ h, Reach HiveStart HiveStep (fun _ _ => True) h ∧
    BufferRight (h.ntEnumerateValueKey 5 1) readKvfi (1, codes (ascii "CurrentVersion"), some [48, 46, 49, 0]) := by
  have hreach : Reach HiveStart HiveStep (fun _ _ => True) (bootedHive true) := .start (bootedHive_start true)
  have hlisted := (query_buffers _ hreach 5 (by decide)).2.2.2.1 1
  have hentry : (((bootedHive true).keys 5).values[1]?).any (fun v => v.name.chars = ascii "CurrentVersion" ∧
      v.type = 1 ∧ v.size = 4 ∧ v.bytes = some [48, 46, 49, 0]) = true := by
    decide +kernel
  obtain ⟨v, hv, hfields⟩ := (Option.any_eq_true _ _).1 hentry
  obtain ⟨hname, htype, hsize, hbytes⟩ := of_decide_eq_true hfields
  rw [hv] at hlisted
  dsimp only at hlisted
  rw [hname, htype, hsize, hbytes] at hlisted
  have hfits : v.size = 0 ∨ v.data.isSome = true := by
    by_contra hlost
    obtain ⟨hzero, hnone⟩ := not_or.1 hlost
    rw [bytes_none hzero (Option.not_isSome_iff_eq_none.1 hnone)] at hbytes
    cases hbytes
  rw [hsize] at hfits
  have hascii : ∀ c ∈ ascii "CurrentVersion", c < 128 := by decide +kernel
  exact ⟨_, hreach, hlisted.2 ⟨hascii, hfits, by decide⟩⟩

/-- A size near the end of the range, and no memory for it. -/
def setHuge : WriteCall := .setValueKey 5 (some productName) 1 (some (ulong 65)) 4294967281

/-- Header words are written to a buffer of no bytes. -/
theorem query_past_buffer : ∃ h, Reach HiveStart HiveStep (fun _ _ => True) h ∧
    (h.ntQueryValueKey 5 (some productName) 0 true fun _ => 255).status = statusSuccess ∧
    (h.ntQueryValueKey 5 (some productName) 0 true fun _ => 255).buffer 0 = 0 := by
  have hreach : Reach HiveStart HiveStep (fun _ _ => True) (bootedHive false) := .start (bootedHive_start false)
  have hvalid : (HiveAction.write setHuge).Valid (bootedHive false) :=
    show 5 ≤ (bootedHive false).mallocs by decide +kernel
  have hreply : (((HiveAction.write setHuge).after (bootedHive false)).ntQueryValueKey 5 (some productName) 0 true
      fun _ => 255).status = statusSuccess ∧
    (((HiveAction.write setHuge).after (bootedHive false)).ntQueryValueKey 5 (some productName) 0 true
      fun _ => 255).buffer 0 = 0 := by
    decide +kernel
  exact ⟨_, hreach.step trivial ⟨hvalid, rfl⟩, hreply⟩

end Hive

end MeuOS.Cm
