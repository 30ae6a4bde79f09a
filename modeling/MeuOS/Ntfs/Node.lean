import Mathlib.Data.List.Find
import MeuOS.Ntfs.Listing

/-! The node of an `$INDEX_ROOT`: entries laid end to end up to one END entry, which ends
where the node is used up. On such a node every search of the driver is a search of the
list of entries, and a listing of it reports them in order. -/
namespace MeuOS.Ntfs

open MeuOS.Lib

/-- Entries laid end to end, none of them an END entry. -/
structure Plain (m : Mem) (lo : Nat) (es : List Nat) (hi : Nat) : Prop where
  span : Span (entryLen m) lo es hi
  plain : ∀ e ∈ es, isEndEntry m e = false
  key : ∀ e ∈ es, 0x10 + keyLen m e ≤ entryLen m e

structure IsEnd (m : Mem) (x : Nat) : Prop where
  last : isEndEntry m x = true
  lastLen : 0x10 ≤ entryLen m x

/-- The entries of the node start at `es`, the END entry is at `x`. -/
structure NodeWf (m : Mem) (a : Nat) (es : List Nat) (x : Nat) : Prop extends
    Plain m (firstEntry m a) es x, IsEnd m x where
  behind : indexNode m a + 0x10 ≤ firstEntry m a
  used : x + entryLen m x = indexNode m a + totalUsed m a
  inside : 0x10 + totalUsed m a ≤ contentLen m a

/-- The name of a `$FILE_NAME` key lies in the key. -/
def KeyFits (m : Mem) (e : Nat) : Prop :=
  0x42 ≤ keyLen m e → 0x42 + 2 * fnNameLen m (e + 0x10) ≤ keyLen m e

variable {v : Volume} {m m' : Mem} {a x : Nat} {es : List Nat}

/-! ## Entries -/

section Same

variable {e e' n : Nat}

theorem entry_same (h : m.SameAt e m' e' n) (hn : 0x10 ≤ n) :
    entryRef m' e' = entryRef m e ∧ entryLen m' e' = entryLen m e ∧ keyLen m' e' = keyLen m e ∧
      isEndEntry m' e' = isEndEntry m e := by
  have href : m'.rd64 (e' + 0) = m.rd64 (e + 0) := h.read (by omega)
  have hlen : m'.rd16 (e' + 0x08) = m.rd16 (e + 0x08) := h.read (by omega)
  have hkey : m'.rd16 (e' + 0x0A) = m.rd16 (e + 0x0A) := h.read (by omega)
  have hflags : m'.rd16 (e' + 0x0C) = m.rd16 (e + 0x0C) := h.read (by omega)
  rw [Nat.add_zero, Nat.add_zero] at href
  unfold entryRef entryLen keyLen isEndEntry entryFlags
  rw [href, hlen, hkey, hflags]
  exact ⟨rfl, rfl, rfl, rfl⟩

theorem utf16ToAscii_same {chars : Nat} (h : m.SameAt e m' e' (2 * chars)) :
    utf16ToAscii m' e' chars = utf16ToAscii m e chars := by
  unfold utf16ToAscii
  congr 1
  apply List.map_congr_left
  intro i hi
  have hlt := List.mem_range.mp hi
  have hword : m'.rd16 (e' + i * 2) = m.rd16 (e + i * 2) := h.read (by omega)
  rw [hword]

theorem fileName_same (h : m.SameAt e m' e' n) (hn : 0x42 ≤ n) :
    fnNameLen m' e' = fnNameLen m e ∧ fnNamespace m' e' = fnNamespace m e ∧
      fnRealSize m' e' = fnRealSize m e ∧ fnIsDir m' e' = fnIsDir m e := by
  have hsize : m'.rd64 (e' + 0x30) = m.rd64 (e + 0x30) := h.read (by omega)
  have hflags : m'.rd32 (e' + 0x38) = m.rd32 (e + 0x38) := h.read (by omega)
  unfold fnNameLen fnNamespace fnRealSize fnIsDir
  rw [h 0x40 (by omega), h 0x41 (by omega), hsize, hflags]
  exact ⟨rfl, rfl, rfl, rfl⟩

theorem KeyFits.same (hfits : KeyFits m e) (h : m.SameAt e m' e' n) (hn : 0x10 + keyLen m e ≤ n) :
    KeyFits m' e' := by
  intro hlong
  rw [(entry_same h (by omega)).2.2.1] at hlong ⊢
  have hname := (fileName_same (h.skip 0x10) (by omega)).1
  rw [hname]
  exact hfits hlong

/-- An entry is reported by its own bytes. -/
theorem entryInfo_same {stop stop' : Nat} (hfits : KeyFits m e) (h : m.SameAt e m' e' n)
    (hn : 0x10 + keyLen m e ≤ n) (hstop : e + 0x10 + keyLen m e ≤ stop)
    (hstop' : e' + 0x10 + keyLen m e ≤ stop') : entryInfo m' stop' e' = entryInfo m stop e := by
  obtain ⟨href, -, hkey, -⟩ := entry_same h (by omega)
  unfold entryInfo
  simp only [hkey]
  by_cases hshort : keyLen m e < 0x42
  · rw [if_pos (.inl hshort), if_pos (.inl hshort)]
  · obtain ⟨hlen, hns, hsize, hdir⟩ := fileName_same (h.skip 0x10) (by omega)
    have hroom := hfits (by omega)
    have hname : m.SameAt (e + 0x10 + 0x42) m' (e' + 0x10 + 0x42) (2 * fnNameLen m (e + 0x10)) :=
      ((h.skip 0x10).skip 0x42).mono (by omega)
    have hopen : ¬(keyLen m e < 0x42 ∨ stop < e + 0x10 + keyLen m e) := by omega
    have hopen' : ¬(keyLen m e < 0x42 ∨ stop' < e' + 0x10 + keyLen m e) := by omega
    rw [if_neg hopen, if_neg hopen']
    simp only [hlen, hns, hsize, hdir, href, utf16ToAscii_same hname]

end Same

/-! ## Lists of entries -/

namespace Plain

variable {lo hi hi' lo' : Nat} {fs : List Nat}

theorem mem (h : Plain m lo es hi) {e : Nat} (he : e ∈ es) :
    lo ≤ e ∧ 0x10 + keyLen m e ≤ entryLen m e ∧ e + entryLen m e ≤ hi :=
  ⟨(span_mem h.span he).1, h.key e he, (span_mem h.span he).2.2⟩

theorem le (h : Plain m lo es hi) : lo ≤ hi := span_le h.span

theorem nil (m : Mem) (lo : Nat) : Plain m lo [] lo := ⟨rfl, nofun, nofun⟩

theorem cons {e : Nat} (hend : isEndEntry m e = false) (hkey : 0x10 + keyLen m e ≤ entryLen m e)
    (h : Plain m (e + entryLen m e) es hi) : Plain m e (e :: es) hi := by
  refine ⟨⟨rfl, by omega, h.span⟩, fun b hb => ?_, fun b hb => ?_⟩
  · rcases List.mem_cons.mp hb with rfl | hb
    · exact hend
    · exact h.plain b hb
  · rcases List.mem_cons.mp hb with rfl | hb
    · exact hkey
    · exact h.key b hb

theorem tail {e : Nat} (h : Plain m lo (e :: es) hi) :
    e = lo ∧ isEndEntry m e = false ∧ 0x10 + keyLen m e ≤ entryLen m e ∧
      Plain m (e + entryLen m e) es hi := by
  obtain ⟨rfl, -, hrest⟩ := h.span
  exact ⟨rfl, h.plain e (List.mem_cons_self ..), h.key e (List.mem_cons_self ..), hrest,
    fun b hb => h.plain b (List.mem_cons_of_mem _ hb), fun b hb => h.key b (List.mem_cons_of_mem _ hb)⟩

theorem append (h : Plain m lo es hi) (h' : Plain m hi fs hi') : Plain m lo (es ++ fs) hi' := by
  refine ⟨span_append.mpr ⟨hi, h.span, h'.span⟩, fun b hb => ?_, fun b hb => ?_⟩
  · rcases List.mem_append.mp hb with hb | hb
    · exact h.plain b hb
    · exact h'.plain b hb
  · rcases List.mem_append.mp hb with hb | hb
    · exact h.key b hb
    · exact h'.key b hb

theorem split (h : Plain m lo (es ++ fs) hi) : ∃ mid, Plain m lo es mid ∧ Plain m mid fs hi := by
  obtain ⟨mid, hes, hfs⟩ := span_append.mp h.span
  exact ⟨mid,
    ⟨hes, fun b hb => h.plain b (List.mem_append_left _ hb),
      fun b hb => h.key b (List.mem_append_left _ hb)⟩,
    ⟨hfs, fun b hb => h.plain b (List.mem_append_right _ hb),
      fun b hb => h.key b (List.mem_append_right _ hb)⟩⟩

/-- Entries whose bytes are copied. -/
theorem copy (h : Plain m lo es hi) (hsame : m.SameAt lo m' lo' (hi - lo)) :
    Plain m' lo' (es.map fun e => lo' + (e - lo)) (lo' + (hi - lo)) := by
  induction es generalizing lo lo' with
  | nil =>
    obtain rfl : lo = hi := h.span
    simpa using nil m' lo'
  | cons e es ih =>
    obtain ⟨rfl, hend, hkey, hrest⟩ := h.tail
    have hle := hrest.le
    obtain ⟨-, hlen, hklen, hend'⟩ := entry_same hsame (by omega)
    have hnext : m.SameAt (e + entryLen m e) m' (lo' + entryLen m e) (hi - (e + entryLen m e)) :=
      (hsame.skip (entryLen m e)).mono (by omega)
    have hcopied := ih hrest hnext
    have hplace : ∀ b ∈ es, lo' + entryLen m e + (b - (e + entryLen m e)) = lo' + (b - e) := by
      intro b hb
      have := (hrest.mem hb).1
      omega
    rw [List.map_congr_left hplace,
      show lo' + entryLen m e + (hi - (e + entryLen m e)) = lo' + (hi - e) by omega] at hcopied
    rw [List.map_cons, Nat.sub_self, Nat.add_zero]
    apply cons (hend'.trans hend)
    · rw [hklen, hlen]
      exact hkey
    · rw [hlen]
      exact hcopied

theorem keep (h : Plain m lo es hi) (hagree : Mem.Agree m m' lo hi) : Plain m' lo es hi := by
  have hle := h.le
  have hcopy := h.copy (hagree.sameAt (e := lo) (n := hi - lo) (Nat.le_refl lo) (by omega))
  have hplace : ∀ b ∈ es, lo + (b - lo) = id b := by
    intro b hb
    have := (h.mem hb).1
    rw [id]
    omega
  rw [List.map_congr_left hplace, List.map_id, show lo + (hi - lo) = hi by omega] at hcopy
  exact hcopy

theorem length (h : Plain m lo es hi) : es.length < hi + 1 := by
  have hlen := span_length h.span fun e he => (show 0x10 ≤ entryLen m e by
    have := h.key e he
    omega)
  omega

end Plain

theorem IsEnd.copy {x' n : Nat} (h : IsEnd m x) (hsame : m.SameAt x m' x' n) (hn : 0x10 ≤ n) :
    IsEnd m' x' := by
  obtain ⟨-, hlen, -, hend⟩ := entry_same hsame hn
  exact ⟨hend.trans h.last, by rw [hlen]; exact h.lastLen⟩

/-! ## Searches -/

namespace NodeWf

variable (h : NodeWf m a es x)
include h

theorem stop_eq : indexNode m a + totalUsed m a = x + entryLen m x := h.used.symm

theorem stop_min :
    min (indexNode m a + totalUsed m a) (attrResidentData m a + contentLen m a) =
      x + entryLen m x := by
  have hin := h.inside
  have hused := h.used
  unfold indexNode at hused ⊢
  omega

end NodeWf

/-- A search for entries other than END ones is a search of the list. -/
theorem findEntryLoop_eq {hit : Nat → Bool} {stop fuel lo : Nat} (h : Plain m lo es x)
    (hend : IsEnd m x) (hstop : x + 0x10 ≤ stop) (hfuel : es.length < fuel) :
    findEntryLoop m hit stop fuel lo = (es.find? hit).or (if hit x then some x else none) := by
  have hlen := hend.lastLen
  induction es generalizing fuel lo with
  | nil =>
    obtain ⟨fuel, rfl⟩ : ∃ k, fuel = k + 1 := ⟨fuel - 1, by omega⟩
    obtain rfl : lo = x := h.span
    unfold findEntryLoop
    rw [if_neg (by omega), if_pos hend.last]
    rfl
  | cons e rest ih =>
    obtain ⟨fuel, rfl⟩ : ∃ k, fuel = k + 1 := ⟨fuel - 1, by omega⟩
    obtain ⟨rfl, hplain, hkey, hrest⟩ := h.tail
    have hle := hrest.le
    unfold findEntryLoop
    rw [if_neg (by omega), hplain, List.find?_cons]
    cases hhit : hit e with
    | true => rfl
    | false => exact ih hrest (by simp at hfuel; omega)

theorem NodeWf.find (h : NodeWf m a es x) {hit : Nat → Bool} (hend : hit x = false) :
    findEntryLoop m hit (x + entryLen m x) (x + entryLen m x + 1) (firstEntry m a) =
      es.find? hit := by
  have hroom := h.lastLen
  have hlen := h.length
  rw [findEntryLoop_eq h.toPlain h.toIsEnd (by omega) (by omega), hend]
  exact Option.or_none

theorem NodeWf.findChild (h : NodeWf m a es x) (child : Nat) :
    findChildEntry m a child = es.find? fun e => entryRef m e = child := by
  unfold findChildEntry
  simp only [h.stop_eq]
  refine (h.find ?_).trans (List.find?_congr fun e he => ?_)
  · simp [h.last]
  · simp [h.plain e he]

theorem NodeWf.findEnd (h : NodeWf m a es x) : findEndEntry m a = some x := by
  have hroom := h.lastLen
  have hlen := h.length
  have hnone : es.find? (isEndEntry m) = none := by
    apply List.find?_eq_none.mpr
    intro e he
    rw [h.plain e he]
    exact Bool.false_ne_true
  unfold findEndEntry
  simp only [h.stop_eq]
  rw [findEntryLoop_eq h.toPlain h.toIsEnd (by omega) (by omega), hnone, if_pos h.last]
  rfl

theorem walkIndexEntries_eq {stop fuel lo : Nat} (h : Plain m lo es x) (hend : IsEnd m x)
    (hstop : x + 0x10 ≤ stop) (hfuel : es.length < fuel) :
    walkIndexEntries m stop fuel lo = es.filterMap (entryInfo m stop) := by
  induction es generalizing fuel lo with
  | nil =>
    obtain ⟨fuel, rfl⟩ : ∃ k, fuel = k + 1 := ⟨fuel - 1, by omega⟩
    obtain rfl : lo = x := h.span
    unfold walkIndexEntries
    rw [if_pos (.inr (.inr hend.last))]
    rfl
  | cons e rest ih =>
    obtain ⟨fuel, rfl⟩ : ∃ k, fuel = k + 1 := ⟨fuel - 1, by omega⟩
    obtain ⟨rfl, hplain, hkey, hrest⟩ := h.tail
    have hle := hrest.le
    have hopen : ¬(stop < e + 0x10 ∨ entryLen m e < 0x10 ∨ isEndEntry m e = true) := by
      rw [hplain]
      simp only [Bool.false_eq_true, or_false]
      omega
    unfold walkIndexEntries
    rw [if_neg hopen, List.filterMap_cons, ih hrest (by simp at hfuel; omega)]
    cases entryInfo m stop e <;> rfl

/-- What a listing reports of the node. -/
def nodeInfos (m : Mem) (es : List Nat) (x : Nat) : List FileInfo :=
  es.filterMap (entryInfo m (x + entryLen m x))

theorem NodeWf.list (h : NodeWf m a es x) (hfind : findIndexRoot v m = some (some a))
    (hres : attrIsNonresident m a = false) : listIndexRoot v m = some (nodeInfos m es x) := by
  have hroom := h.lastLen
  have hlen := h.length
  have hin := h.inside
  have hused := h.used
  have hle := h.le
  have hbehind := h.behind
  have hlong : ¬(attrIsNonresident m a = true ∨ contentLen m a < 0x20) := by
    rw [hres]
    simp only [Bool.false_eq_true, false_or]
    omega
  unfold listIndexRoot
  rw [hfind, Option.map_some]
  simp only [hlong, if_false, h.stop_min]
  rw [walkIndexEntries_eq h.toPlain h.toIsEnd (by omega) (by omega)]
  rfl

end MeuOS.Ntfs
