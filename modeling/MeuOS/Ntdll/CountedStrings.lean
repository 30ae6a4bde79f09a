import MeuOS.Lib.WideCells
import Mathlib.Tactic.Ring

/-! Counted strings: their two lengths in bytes, their buffer, and the bytes that the buffer has. -/
namespace MeuOS.Ntdll

open MeuOS.Lib

/-- `UNICODE_STRING_`. -/
structure UnicodeString where
  length : UInt16
  maximumLength : UInt16
  buffer : WideCells
  room : Nat

/-- `ANSI_STRING_`. -/
structure AnsiString where
  length : UInt16
  buffer : Nat → UInt8

def statusUnsuccessful : Nat := 0xC0000001

def UnicodeString.chars (u : UnicodeString) : List UInt16 :=
  (List.range (u.length.toNat / 2)).map u.buffer.cells

def AnsiString.chars (s : AnsiString) : List UInt16 :=
  (List.range s.length.toNat).map fun i => (s.buffer i).toUInt16

section Functions

/-- `RtlInitUnicodeString`; a null pointer has no buffer behind it. -/
def rtlInitUnicodeString (s : Option (List UInt16)) : UnicodeString :=
  let n := (s.getD []).length
  { length := UInt16.ofNat (n * 2)
    maximumLength := UInt16.ofNat (n * 2 + 2)
    buffer := ⟨fun i => (s.getD []).getD i 0, 0⟩
    room := (s.map fun s => 2 * (s.length + 1)).getD 0 }

def rtlUpcaseUnicodeChar (c : UInt16) : UInt16 := if 0x61 ≤ c ∧ c ≤ 0x7A then c - 32 else c

def rtlCopyUnicodeString (d : UnicodeString) (s : Option UnicodeString) : Nat × UnicodeString :=
  let n := (s.map fun s => s.length.toNat).getD 0
  let n := if d.maximumLength.toNat < n then d.maximumLength.toNat else n
  (0, { d with
    buffer := d.buffer.fill 0 (fun i => (s.map fun s => s.buffer.cells i).getD 0) (n / 2)
    length := UInt16.ofNat n })

def rtlUpcaseUnicodeString (d s : UnicodeString) : Nat × UnicodeString :=
  let n := s.length.toNat
  let n := if d.maximumLength.toNat < n then d.maximumLength.toNat else n
  (0, { d with
    buffer := d.buffer.fill 0 (fun i => rtlUpcaseUnicodeChar (s.buffer.cells i)) (n / 2)
    length := UInt16.ofNat n })

/-- `d->MaximumLength/2 - cur`. -/
def roomLeft (d : UnicodeString) (cur : Nat) : Nat :=
  (d.maximumLength.toNat / 2 + 2 ^ 64 - cur) % 2 ^ 64

def rtlAppendUnicodeToString (d : UnicodeString) (s : List UInt16) : Nat × UnicodeString :=
  let cur := d.length.toNat / 2
  let buffer := (copyWhile (fun i => (cur + i) * 2 + 2 ≤ d.maximumLength.toNat) d.buffer cur 0 s).1
  let sl := if roomLeft d cur < s.length then roomLeft d cur else s.length
  (0, { d with buffer := buffer, length := UInt16.ofNat ((cur + sl) * 2) })

def rtlAppendUnicodeStringToString (d s : UnicodeString) : Nat × UnicodeString :=
  let sl := s.length.toNat / 2
  let cur := d.length.toNat / 2
  let sl := if roomLeft d cur < sl then roomLeft d cur else sl
  (0, { d with
    buffer := d.buffer.fill cur s.buffer.cells sl
    length := UInt16.ofNat ((cur + sl) * 2) })

def rtlAnsiStringToUnicodeString (d : UnicodeString) (s : AnsiString) : Nat × UnicodeString :=
  let n := s.length.toNat
  if d.maximumLength.toNat < n * 2 + 2 then (statusUnsuccessful, d)
  else
    (0, { d with
      buffer := (d.buffer.fill 0 (fun i => (s.buffer i).toUInt16) n).put n 0
      length := UInt16.ofNat (n * 2) })

end Functions

/-- The lengths are those of characters in a buffer of that size, and nothing was written to the
buffer but below `MaximumLength`. -/
structure WellFormed (u : UnicodeString) : Prop where
  even : u.length.toNat % 2 = 0
  le : u.length ≤ u.maximumLength
  room : u.maximumLength.toNat ≤ u.room
  inside : 2 * u.buffer.top ≤ u.maximumLength.toNat

/-- `src` was written after `old`, as far as it fits; where it does not an error is returned. -/
structure Written (d : UnicodeString) (old src : List UInt16) (r : Nat × UnicodeString) : Prop where
  wf : WellFormed r.2
  same : r.2.maximumLength = d.maximumLength ∧ r.2.room = d.room
  content : ∃ t, t <+: src ∧ r.2.chars = old ++ t ∧
    (2 * (old ++ src).length ≤ d.maximumLength.toNat → t = src)
  failed : d.maximumLength.toNat < 2 * (old ++ src).length → r.1 ≠ 0

section Laws

variable {d s : UnicodeString} {old src : List UInt16} {r : Nat × UnicodeString}

theorem length_chars (u : UnicodeString) : u.chars.length = u.length.toNat / 2 := by
  unfold UnicodeString.chars
  rw [List.length_map, List.length_range]

/-- A function that always succeeds is right only where everything fits. -/
theorem Written.fits (h : Written d old src r) (hr : r.1 = 0) :
    2 * (old ++ src).length ≤ d.maximumLength.toNat :=
  Nat.le_of_not_lt fun hlt => h.failed hlt hr

/-- The buffer got `src` behind the characters it has. -/
theorem written_of_cells {b : WideCells} {n : Nat} (hd : WellFormed d) (hold : ∀ j (hj : j < old.length), d.buffer.cells j = old[j])
    (hn : n = (old ++ src).length * 2) (hfits : n ≤ d.maximumLength.toNat)
    (hcells : ∀ j < (old ++ src).length, b.cells j = if j < old.length then d.buffer.cells j else
      src.getD (j - old.length) 0)
    (htop : 2 * b.top ≤ d.maximumLength.toNat) :
    Written d old src (0, { d with buffer := b, length := UInt16.ofNat n }) := by
  have hmax := d.maximumLength.toNat_lt
  have hword : (UInt16.ofNat n).toNat = n := by
    rw [UInt16.toNat_ofNat', Nat.mod_eq_of_lt (by omega)]
  refine ⟨⟨?_, ?_, hd.room, ?_⟩, ⟨rfl, rfl⟩, ⟨src, List.prefix_rfl, ?_, fun _ => rfl⟩, fun hlt => ?_⟩
  · change (UInt16.ofNat n).toNat % 2 = 0
    omega
  · rw [UInt16.le_iff_toNat_le]
    change (UInt16.ofNat n).toNat ≤ d.maximumLength.toNat
    omega
  · exact htop
  · unfold UnicodeString.chars
    refine List.ext_getElem ?_ fun j hj hj' => ?_
    · rw [List.length_map, List.length_range, hword]
      omega
    · rw [List.getElem_map, List.getElem_range, hcells j hj']
      by_cases hlt : j < old.length
      · rw [if_pos hlt, List.getElem_append_left hlt]
        exact hold j hlt
      · have hsrc : j - old.length < src.length := by
          rw [List.length_append] at hj'
          omega
        rw [if_neg hlt, List.getElem_append_right (Nat.le_of_not_lt hlt), List.getD_eq_getElem?_getD,
          List.getElem?_eq_getElem hsrc, Option.getD_some]
  · omega

theorem getD_chars (u : UnicodeString) {j : Nat} (hj : j < u.length.toNat / 2) :
    u.chars.getD j 0 = u.buffer.cells j := by
  unfold UnicodeString.chars
  rw [List.getD_eq_getElem?_getD, List.getElem?_map, List.getElem?_range hj]
  rfl

theorem old_chars (d : UnicodeString) (j : Nat) (hj : j < d.chars.length) :
    d.buffer.cells j = d.chars[j] := by
  simp [UnicodeString.chars]

theorem old_nil (d : UnicodeString) (j : Nat) (hj : j < ([] : List UInt16).length) :
    d.buffer.cells j = ([] : List UInt16)[j] := absurd hj (Nat.not_lt_zero j)

theorem toNat_le (h : WellFormed d) : d.length.toNat ≤ d.maximumLength.toNat :=
  UInt16.le_iff_toNat_le.mp h.le

theorem roomLeft_eq (h : WellFormed d) :
    roomLeft d (d.length.toNat / 2) = d.maximumLength.toNat / 2 - d.length.toNat / 2 := by
  have hle := toNat_le h
  have hmax := d.maximumLength.toNat_lt
  unfold roomLeft
  omega

/-- Filling behind what is there. -/
theorem fill_written (old src : List UInt16) (f : Nat → UInt16) (hd : WellFormed d)
    (hold : ∀ j (hj : j < old.length), d.buffer.cells j = old[j]) (hf : ∀ j < src.length, f j = src.getD j 0)
    (hfits : 2 * (old ++ src).length ≤ d.maximumLength.toNat) :
    Written d old src (0, { d with
      buffer := d.buffer.fill old.length f src.length
      length := UInt16.ofNat ((old.length + src.length) * 2) }) := by
  obtain ⟨hcells, htop⟩ := fill_eq d.buffer old.length f src.length
  have hinside := hd.inside
  rw [List.length_append] at hfits
  refine written_of_cells hd hold (by rw [List.length_append]) (by omega) (fun j hj => ?_) (by omega)
  rw [List.length_append] at hj
  rw [hcells]
  by_cases hlt : j < old.length
  · rw [if_pos hlt, if_neg (by omega)]
  · rw [if_neg hlt, if_pos (by omega), hf _ (by omega)]

theorem rtlCopy_written {s : Option UnicodeString} (hd : WellFormed d) (hs : ∀ u ∈ s, WellFormed u) :
    Written d [] ((s.map UnicodeString.chars).getD []) (rtlCopyUnicodeString d s) ↔
      2 * ((s.map UnicodeString.chars).getD []).length ≤ d.maximumLength.toNat := by
  refine ⟨fun h => h.fits rfl, fun hfits => ?_⟩
  unfold rtlCopyUnicodeString
  cases s with
  | none =>
    have h := fill_written [] [] (fun _ => 0) hd (old_nil d)
      (fun j hj => absurd hj (Nat.not_lt_zero j)) hfits
    dsimp only [Option.map_none, Option.getD_none]
    rw [if_neg (Nat.not_lt_zero _)]
    exact h
  | some u =>
    have heven := (hs u rfl).even
    rw [Option.map_some, Option.getD_some, length_chars] at hfits
    have h := fill_written [] u.chars u.buffer.cells hd (old_nil d)
      (fun j hj => by rw [length_chars] at hj; exact (getD_chars u hj).symm)
      (by rw [List.nil_append, length_chars]; exact hfits)
    rw [length_chars, List.length_nil, Nat.zero_add,
      show u.length.toNat / 2 * 2 = u.length.toNat by omega] at h
    dsimp only [Option.map_some, Option.getD_some]
    rw [if_neg (by omega)]
    exact h

theorem rtlUpcase_written (hd : WellFormed d) (hs : WellFormed s) :
    Written d [] (s.chars.map rtlUpcaseUnicodeChar) (rtlUpcaseUnicodeString d s) ↔
      2 * s.chars.length ≤ d.maximumLength.toNat := by
  have hlength : (s.chars.map rtlUpcaseUnicodeChar).length = s.chars.length := List.length_map _
  refine ⟨fun h => ?_, fun hfits => ?_⟩
  · have hfits := h.fits rfl
    rwa [List.nil_append, hlength] at hfits
  · have heven := hs.even
    rw [length_chars] at hfits
    have h := fill_written [] (s.chars.map rtlUpcaseUnicodeChar)
      (fun i => rtlUpcaseUnicodeChar (s.buffer.cells i)) hd (old_nil d)
      (fun j hj => by
        rw [hlength, length_chars] at hj
        rw [← getD_chars s hj, List.getD_eq_getElem?_getD, List.getD_eq_getElem?_getD, List.getElem?_map,
          List.getElem?_eq_getElem (by rwa [length_chars])]
        simp)
      (by rw [List.nil_append, hlength, length_chars]; exact hfits)
    rw [hlength, length_chars, List.length_nil, Nat.zero_add,
      show s.length.toNat / 2 * 2 = s.length.toNat by omega] at h
    unfold rtlUpcaseUnicodeString
    dsimp only
    rw [if_neg (by omega)]
    exact h

theorem rtlAppendString_written (hd : WellFormed d) (s : UnicodeString) :
    Written d d.chars s.chars (rtlAppendUnicodeStringToString d s) ↔
      2 * (d.chars ++ s.chars).length ≤ d.maximumLength.toNat := by
  refine ⟨fun h => h.fits rfl, fun hfits => ?_⟩
  have h := fill_written d.chars s.chars s.buffer.cells hd (old_chars d) (fun j hj => by
    rw [length_chars] at hj
    exact (getD_chars s hj).symm) hfits
  rw [List.length_append, length_chars, length_chars] at hfits
  rw [length_chars, length_chars] at h
  unfold rtlAppendUnicodeStringToString
  dsimp only
  rw [roomLeft_eq hd, if_neg (by omega)]
  exact h

theorem rtlAppend_written (hd : WellFormed d) (t : List UInt16) :
    Written d d.chars t (rtlAppendUnicodeToString d t) ↔
      2 * (d.chars ++ t).length ≤ d.maximumLength.toNat := by
  refine ⟨fun h => h.fits rfl, fun hfits => ?_⟩
  have hle := toNat_le hd
  have hinside := hd.inside
  rw [List.length_append, length_chars] at hfits
  have hguard : ∀ i, decide ((d.length.toNat / 2 + i) * 2 + 2 ≤ d.maximumLength.toNat) =
      decide (i < d.maximumLength.toNat / 2 - d.length.toNat / 2) := fun i =>
    decide_eq_decide.mpr (by omega)
  obtain ⟨-, hcells, htop⟩ := copyWhile_eq (b := d.buffer) (l := d.length.toNat / 2) (i := 0) (s := t) hguard
  rw [Nat.sub_zero, Nat.min_eq_left (by omega), Nat.add_zero] at htop
  unfold rtlAppendUnicodeToString
  dsimp only
  rw [roomLeft_eq hd, if_neg (by omega)]
  refine written_of_cells hd (old_chars d) ?_ (by omega) (fun j hj => ?_) ?_
  · rw [List.length_append, length_chars]
  · rw [List.length_append, length_chars] at hj
    rw [hcells, Nat.sub_zero, Nat.min_eq_left (by omega), Nat.add_zero, length_chars]
    by_cases hlt : j < d.length.toNat / 2
    · rw [if_pos hlt, if_neg (by omega)]
    · rw [if_neg hlt, if_pos (by omega)]
  · omega

theorem rtlInit_right (s : Option (List UInt16)) :
    (WellFormed (rtlInitUnicodeString s) ∧ some (rtlInitUnicodeString s).chars = s) ↔
      ∃ t, s = some t ∧ t.length ≤ 32766 := by
  have hlength : (rtlInitUnicodeString s).length.toNat = (s.getD []).length * 2 % 2 ^ 16 := UInt16.toNat_ofNat'
  have hmax : (rtlInitUnicodeString s).maximumLength.toNat = ((s.getD []).length * 2 + 2) % 2 ^ 16 :=
    UInt16.toNat_ofNat'
  constructor
  · rintro ⟨hwf, hchars⟩
    obtain ⟨t, rfl⟩ : ∃ t, s = some t := ⟨_, hchars.symm⟩
    rw [Option.getD_some] at hlength hmax
    have hsame := congrArg List.length (Option.some.inj hchars)
    rw [length_chars, hlength] at hsame
    have hle := toNat_le hwf
    rw [hlength, hmax] at hle
    exact ⟨t, rfl, by omega⟩
  · rintro ⟨t, rfl, ht⟩
    rw [Option.getD_some] at hlength hmax
    refine ⟨⟨by omega, UInt16.le_iff_toNat_le.mpr (by omega), ?_, Nat.zero_le _⟩, congrArg some ?_⟩
    · rw [hmax]
      change _ ≤ 2 * (t.length + 1)
      omega
    · refine List.ext_getElem (by rw [length_chars, hlength]; omega) fun i hi hi' => ?_
      rw [← old_chars _ i hi]
      change t.getD i 0 = t[i]
      rw [List.getD_eq_getElem?_getD, List.getElem?_eq_getElem hi', Option.getD_some]

/-- What `RtlAnsiStringToUnicodeString` does: all of it with a terminator, or nothing and an error. -/
theorem rtlAnsi_right (hd : WellFormed d) (s : AnsiString) :
    (s.length.toNat * 2 + 2 ≤ d.maximumLength.toNat →
      (rtlAnsiStringToUnicodeString d s).1 = 0 ∧
        Written d [] s.chars (rtlAnsiStringToUnicodeString d s)) ∧
    (d.maximumLength.toNat < s.length.toNat * 2 + 2 →
      rtlAnsiStringToUnicodeString d s = (statusUnsuccessful, d)) := by
  have hlength : s.chars.length = s.length.toNat := by simp [AnsiString.chars]
  unfold rtlAnsiStringToUnicodeString
  dsimp only
  refine ⟨fun hfits => ?_, fun hlt => if_pos hlt⟩
  rw [if_neg (Nat.not_lt_of_le hfits)]
  refine ⟨rfl, ?_⟩
  obtain ⟨hcells, htop⟩ := fill_eq d.buffer 0 (fun i => (s.buffer i).toUInt16) s.length.toNat
  have hinside := hd.inside
  refine written_of_cells hd (old_nil d) (by rw [List.nil_append, hlength]) (by omega) (fun j hj => ?_) ?_
  · rw [List.nil_append, hlength] at hj
    change Function.update _ _ _ j = _
    rw [Function.update_of_ne (Nat.ne_of_lt hj), hcells, if_pos (by omega), List.length_nil,
      if_neg (Nat.not_lt_zero _)]
    unfold AnsiString.chars
    rw [Nat.sub_zero, List.getD_eq_getElem?_getD, List.getElem?_map,
      List.getElem?_range hj]
    rfl
  · change 2 * max _ (s.length.toNat + 1) ≤ _
    omega

/-- The six functions on strings that are well formed: each of those that cut what they are given is
right exactly where there is nothing to cut. -/
theorem counted_strings {d : UnicodeString} (hd : WellFormed d) :
    (∀ s, (WellFormed (rtlInitUnicodeString s) ∧ some (rtlInitUnicodeString s).chars = s) ↔
      ∃ t, s = some t ∧ t.length ≤ 32766) ∧
      (∀ s : Option UnicodeString, (∀ u ∈ s, WellFormed u) →
        (Written d [] ((s.map UnicodeString.chars).getD []) (rtlCopyUnicodeString d s) ↔
          2 * ((s.map UnicodeString.chars).getD []).length ≤ d.maximumLength.toNat)) ∧
      (∀ s, WellFormed s →
        (Written d [] (s.chars.map rtlUpcaseUnicodeChar) (rtlUpcaseUnicodeString d s) ↔
          2 * s.chars.length ≤ d.maximumLength.toNat) ∧
        (Written d d.chars s.chars (rtlAppendUnicodeStringToString d s) ↔
          2 * (d.chars ++ s.chars).length ≤ d.maximumLength.toNat)) ∧
      (∀ t, Written d d.chars t (rtlAppendUnicodeToString d t) ↔
        2 * (d.chars ++ t).length ≤ d.maximumLength.toNat) ∧
      ∀ s, (s.length.toNat * 2 + 2 ≤ d.maximumLength.toNat →
          (rtlAnsiStringToUnicodeString d s).1 = 0 ∧
            Written d [] s.chars (rtlAnsiStringToUnicodeString d s)) ∧
        (d.maximumLength.toNat < s.length.toNat * 2 + 2 →
          rtlAnsiStringToUnicodeString d s = (statusUnsuccessful, d)) :=
  ⟨rtlInit_right, fun _ hs => rtlCopy_written hd hs,
    fun s hs => ⟨rtlUpcase_written hd hs, rtlAppendString_written hd s⟩, rtlAppend_written hd, rtlAnsi_right hd⟩

/-- Room for two characters, with one in it. -/
def twoWide : UnicodeString := ⟨2, 4, ⟨fun _ => 0x61, 0⟩, 4⟩

theorem twoWide_wellFormed : WellFormed twoWide := ⟨by decide, by decide, by decide, by decide⟩

theorem counted_strings_two : Written twoWide twoWide.chars [0x62] (rtlAppendUnicodeToString twoWide [0x62]) :=
  ((counted_strings twoWide_wellFormed).2.2.2.1 [0x62]).mpr (by decide)

/-- Two characters do not fit after one, and success is returned; a copy to an odd `MaximumLength` has
an odd length; and 32768 characters are described as none. -/
theorem counted_cut :
    (rtlAppendUnicodeToString twoWide [0x62, 0x63]).1 = 0 ∧
    ¬Written twoWide twoWide.chars [0x62, 0x63] (rtlAppendUnicodeToString twoWide [0x62, 0x63]) ∧
    (rtlCopyUnicodeString { twoWide with length := 2, maximumLength := 3 }
      (some { twoWide with length := 4 })).2.length = 3 ∧
    (rtlInitUnicodeString (some (List.replicate 32768 0x61))).chars = [] := by
  refine ⟨rfl, fun h => ?_, by decide, ?_⟩
  · exact absurd (h.fits rfl) (by decide)
  · unfold UnicodeString.chars rtlInitUnicodeString
    rw [Option.getD_some, List.length_replicate]
    rfl

end Laws

end MeuOS.Ntdll
