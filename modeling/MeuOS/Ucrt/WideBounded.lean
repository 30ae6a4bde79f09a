import MeuOS.Lib.WideCells
import Mathlib.Data.Nat.Digits.Defs

/-! The wide string functions that are given the size of their destination. A destination is its
cells and how far it was written to; a source is the characters in front of its terminator. -/
namespace MeuOS.Ucrt

open MeuOS.Lib

/-- `while (l < n && d[l]) l++`, with `k` places left. -/
def wnlen (d : Nat → UInt16) : Nat → Nat → Nat
  | 0, l => l
  | k + 1, l => if d l = 0 then l else wnlen d k (l + 1)

section Functions

variable (d : Nat → UInt16) (n : UInt64)

/-- `wcscpy_s`, also for a null source. -/
def wcscpyS : Option (List UInt16) → Nat × WideCells
  | none => (22, ⟨d, 0⟩)
  | some s =>
      if n = 0 then (22, ⟨d, 0⟩)
      else
        let r := copyWhile (fun i => i < (n - 1).toNat) ⟨d, 0⟩ 0 0 s
        (0, r.1.put r.2 0)

def wcscatS (s : List UInt16) : Nat × WideCells :=
  let l := wnlen d n.toNat 0
  let r := copyWhile (fun i => l + i < (n - 1).toNat) ⟨d, 0⟩ l 0 s
  (0, r.1.put (l + r.2) 0)

def wcsncpyS (s : List UInt16) (cnt : Nat) : Nat × WideCells :=
  if n = 0 then (22, ⟨d, 0⟩)
  else
    let r := copyWhile (fun i => i < cnt && i < (n - 1).toNat) ⟨d, 0⟩ 0 0 s
    (0, r.1.put r.2 0)

/-- `mbstowcs_s`, without what it stores in `*ret`. -/
def mbstowcsS (mb : List UInt8) (cnt : Nat) : Nat × WideCells :=
  if n = 0 then (0, ⟨d, 0⟩)
  else
    let r := copyWhile (fun i => i < cnt && i < (n - 1).toNat) ⟨d, 0⟩ 0 0 (mb.map UInt8.toUInt16)
    (0, r.1.put r.2 0)

/-- The digits of an unsigned number, the lowest first, as `_itow_s` finds them. -/
def itowDigits (u : Nat) : List UInt16 :=
  if u = 0 then [0x30] else (Nat.digits 10 u).map fun d => UInt16.ofNat (0x30 + d)

def itowMagnitude (val : BitVec 32) : Nat := if val.slt 0 then (-val).toNat else val.toNat

/-- `_itow_s`, whatever the radix. -/
def itowS (val : BitVec 32) (_radix : Int) : Nat × WideCells :=
  if n = 0 then (22, ⟨d, 0⟩)
  else
    let guard := fun i => i < (n - 1).toNat
    let (buf, o) := if val.slt 0 ∧ guard 0 then ((⟨d, 0⟩ : WideCells).put 0 0x2D, 1) else (⟨d, 0⟩, 0)
    let r := copyWhile (fun i => guard i) buf 0 o (itowDigits (itowMagnitude val)).reverse
    (0, r.1.put r.2 0)

end Functions

/-- The array with `t` written to the place `l`. -/
def stored (d : Nat → UInt16) (l : Nat) (t : List UInt16) : WideCells where
  cells := fun j => if l ≤ j ∧ j < l + t.length then t.getD (j - l) 0 else d j
  top := l + t.length

section Copy

variable {guard : Nat → Bool} {d : Nat → UInt16} {lim l i n : Nat} {s : List UInt16}

/-- What was copied and its terminator. -/
theorem copy_stored (hguard : ∀ i, guard i = decide (i < lim)) :
    (copyWhile guard ⟨d, 0⟩ l 0 s).1.put (l + (copyWhile guard ⟨d, 0⟩ l 0 s).2) 0 =
      stored d l (s.take lim ++ [0]) := by
  obtain ⟨hend, hcells, htop⟩ := copyWhile_eq (b := ⟨d, 0⟩) (l := l) (i := 0) (s := s) hguard
  have hlength : (s.take lim ++ [0]).length = min s.length lim + 1 := by
    rw [List.length_append, List.length_take, Nat.min_comm]
    rfl
  rw [Nat.sub_zero, Nat.add_zero] at htop
  rw [Nat.zero_add, Nat.sub_zero] at hend
  unfold WideCells.put stored
  rw [WideCells.mk.injEq, hend, hlength]
  refine ⟨funext fun j => ?_, by dsimp only at htop; omega⟩
  by_cases hj : j = l + min s.length lim
  · subst hj
    rw [Function.update_self, if_pos (by omega), Nat.add_sub_cancel_left, List.getD_append_right _ _ _ _ (by
      rw [List.length_take, Nat.min_comm]), List.length_take, Nat.min_comm, Nat.sub_self]
    rfl
  · rw [Function.update_of_ne hj, hcells, Nat.add_zero, Nat.sub_zero]
    by_cases hin : l ≤ j ∧ j < l + min s.length lim
    · rw [if_pos hin, if_pos (by omega), List.getD_append _ _ _ _ (by rw [List.length_take]; omega),
        List.getD_eq_getElem?_getD, List.getD_eq_getElem?_getD, List.getElem?_take_of_lt (by omega)]
    · rw [if_neg hin, if_neg (by omega)]

end Copy

/-- A function that is given `n` characters of room stays inside, leaves a terminator, and returns 0
only if the whole of `full` is there. -/
structure Bounded (n : Nat) (d : Nat → UInt16) (full : Option (List UInt16)) (r : Nat × WideCells) : Prop where
  inside : r.2.top ≤ n
  frame : ∀ i, n ≤ i → r.2.cells i = d i
  terminated : 0 < n → ∃ i < n, r.2.cells i = 0
  complete : r.1 = 0 → ∃ t, full = some t ∧ t.length < n ∧ ∀ i ≤ t.length, r.2.cells i = t.getD i 0

/-- The characters in front of the first terminator, when there is one in `n` places. -/
def content (d : Nat → UInt16) (n : Nat) : Option (List UInt16) :=
  if wnlen d n 0 < n then some ((List.range (wnlen d n 0)).map d) else none

/-- The text that `_itow_s` makes of a number. -/
def itowText (val : BitVec 32) : List UInt16 :=
  (if val.slt 0 then [0x2D] else []) ++ (itowDigits (itowMagnitude val)).reverse

/-- The digits of a number, the lowest first. -/
def digitsOf (radix u : Nat) : List Nat := if u = 0 then [0] else Nat.digits radix u

def radixDigit (k : Nat) : UInt16 := UInt16.ofNat (if k < 10 then 0x30 + k else 0x57 + k)

/-- The text of a number in a radix. -/
def radixText (val : BitVec 32) (radix : Nat) : List UInt16 :=
  (if val.slt 0 then [0x2D] else []) ++ (digitsOf radix (itowMagnitude val)).reverse.map radixDigit

section Bounds

variable {d : Nat → UInt16} {n : UInt64} {l m lim : Nat} {s : List UInt16}

theorem stored_bounded (hl : l < m) (hlim : lim = m - 1 - l) :
    Bounded m d (some ((List.range l).map d ++ s)) (0, stored d l (s.take lim ++ [0])) ↔
      l + s.length < m := by
  have hlength : (s.take lim ++ [0]).length = min s.length lim + 1 := by
    rw [List.length_append, List.length_take, Nat.min_comm]
    rfl
  have hfull : ((List.range l).map d ++ s).length = l + s.length := by
    rw [List.length_append, List.length_map, List.length_range]
  constructor
  · intro h
    obtain ⟨t, ht, hlt, -⟩ := h.complete rfl
    rwa [← Option.some.inj ht, hfull] at hlt
  · intro hlt
    have htake : s.take lim = s := List.take_of_length_le (by omega)
    rw [htake] at hlength ⊢
    refine ⟨?_, fun i hi => ?_, fun _ => ⟨l + s.length, hlt, ?_⟩, fun _ => ⟨_, rfl, by rwa [hfull], fun i hi => ?_⟩⟩
    · change l + (s ++ [0]).length ≤ m
      omega
    · exact if_neg (by omega)
    · change (if _ then _ else _) = _
      rw [if_pos (by omega), Nat.add_sub_cancel_left, List.getD_append_right _ _ _ _ (Nat.le_refl _), Nat.sub_self]
      rfl
    · rw [hfull] at hi
      change (if _ then _ else _) = _
      by_cases hil : i < l
      · rw [if_neg (by omega), List.getD_append _ _ _ _ (by rwa [List.length_map, List.length_range]),
          List.getD_eq_getElem?_getD, List.getElem?_map, List.getElem?_range hil]
        rfl
      · have hkept : ((List.range l).map d).length = l := by rw [List.length_map, List.length_range]
        rw [if_pos (by omega), List.getD_append_right ((List.range l).map d) _ _ _ (by omega), hkept]
        rcases Nat.lt_or_eq_of_le (show i - l ≤ s.length by omega) with hlt | heq
        · rw [List.getD_append _ _ _ _ hlt]
        · rw [heq, List.getD_append_right _ _ _ _ (Nat.le_refl _), Nat.sub_self,
            List.getD_eq_default s 0 (Nat.le_refl _)]
          rfl

/-- A copy to the start of the array. -/
theorem copied_bounded {guard : Nat → Bool} (hm : 0 < m) (hguard : ∀ i, guard i = decide (i < lim))
    {full : List UInt16} (hfull : s.take lim = full.take (m - 1)) :
    Bounded m d (some full) (0, (copyWhile guard ⟨d, 0⟩ 0 0 s).1.put (copyWhile guard ⟨d, 0⟩ 0 0 s).2 0) ↔
      full.length < m := by
  have hcopy := copy_stored (d := d) (l := 0) (s := s) hguard
  rw [Nat.zero_add] at hcopy
  rw [hcopy, hfull]
  have h := stored_bounded (d := d) (l := 0) (s := full) hm (Nat.sub_zero (m - 1)).symm
  rwa [Nat.zero_add] at h

theorem sub_one_toNat (hn : n ≠ 0) : (n - 1).toNat = n.toNat - 1 := by
  have hpos : 1 ≤ n := by
    rw [UInt64.le_iff_toNat_le]
    exact Nat.pos_of_ne_zero fun h => hn (UInt64.toNat_inj.mp h)
  rw [UInt64.toNat_sub_of_le _ _ hpos]
  rfl

theorem toNat_pos (hn : n ≠ 0) : 0 < n.toNat :=
  Nat.pos_of_ne_zero fun h => hn (UInt64.toNat_inj.mp h)

/-- Nothing was written and an error is returned. -/
theorem refused_bounded {code : Nat} (hcode : code ≠ 0) (full : Option (List UInt16)) :
    Bounded m d full (code, ⟨d, 0⟩) ↔ (0 < m → ∃ i < m, d i = 0) :=
  ⟨fun h => h.terminated, fun h => ⟨Nat.zero_le _, fun _ _ => rfl, h, fun hzero => absurd hzero hcode⟩⟩

theorem guard_min (a b i : Nat) : (decide (i < a) && decide (i < b)) = decide (i < min a b) := by
  by_cases ha : i < a
  · by_cases hb : i < b <;> simp [ha, hb]
  · simp [ha]

theorem wcscpyS_bounded (s : List UInt16) :
    Bounded n.toNat d (some s) (wcscpyS d n (some s)) ↔ n = 0 ∨ s.length < n.toNat := by
  unfold wcscpyS
  by_cases hn : n = 0
  · subst hn
    dsimp only
    rw [if_pos rfl, refused_bounded (by decide)]
    exact iff_of_true (fun h => absurd h (by decide)) (.inl rfl)
  · dsimp only
    rw [if_neg hn, copied_bounded (toNat_pos hn) (fun _ => rfl) (by rw [sub_one_toNat hn])]
    exact ⟨.inr, fun h => h.resolve_left hn⟩

theorem wcsncpyS_bounded (s : List UInt16) (cnt : Nat) :
    Bounded n.toNat d (some (s.take cnt)) (wcsncpyS d n s cnt) ↔ n = 0 ∨ (s.take cnt).length < n.toNat := by
  unfold wcsncpyS
  by_cases hn : n = 0
  · subst hn
    rw [if_pos rfl, refused_bounded (by decide)]
    exact iff_of_true (fun h => absurd h (by decide)) (.inl rfl)
  · dsimp only
    rw [if_neg hn, copied_bounded (toNat_pos hn) (guard_min cnt _)
      (by rw [List.take_take, Nat.min_comm, sub_one_toNat hn])]
    exact ⟨.inr, fun h => h.resolve_left hn⟩

theorem mbstowcsS_bounded (mb : List UInt8) (cnt : Nat) :
    Bounded n.toNat d (some ((mb.map UInt8.toUInt16).take cnt)) (mbstowcsS d n mb cnt) ↔
      (mb.take cnt).length < n.toNat := by
  have hlength : ((mb.map UInt8.toUInt16).take cnt).length = (mb.take cnt).length := by
    rw [List.length_take, List.length_take, List.length_map]
  unfold mbstowcsS
  by_cases hn : n = 0
  · subst hn
    rw [if_pos rfl]
    refine iff_of_false (fun h => ?_) (Nat.not_lt_zero _)
    obtain ⟨t, -, hlt, -⟩ := h.complete rfl
    exact Nat.not_lt_zero _ hlt
  · dsimp only
    rw [if_neg hn, copied_bounded (toNat_pos hn) (guard_min cnt _)
      (by rw [List.take_take, Nat.min_comm, sub_one_toNat hn]), hlength]

theorem wnlen_le (d : Nat → UInt16) (k l : Nat) : wnlen d k l ≤ l + k := by
  induction k generalizing l with
  | zero => exact Nat.le_refl _
  | succ k ih =>
    unfold wnlen
    split
    · omega
    · have hrest := ih (l + 1)
      omega

theorem wcscatS_bounded (s : List UInt16) :
    Bounded n.toNat d ((content d n.toNat).map (· ++ s)) (wcscatS d n s) ↔
      ∃ old, content d n.toNat = some old ∧ old.length + s.length < n.toNat := by
  have hle := wnlen_le d n.toNat 0
  rw [Nat.zero_add] at hle
  unfold content wcscatS
  by_cases hl : wnlen d n.toNat 0 < n.toNat
  · have hn : n ≠ 0 := by
      rintro rfl
      exact Nat.not_lt_zero _ hl
    have hguard : ∀ i, decide (wnlen d n.toNat 0 + i < (n - 1).toNat) =
        decide (i < n.toNat - 1 - wnlen d n.toNat 0) := fun i => by
      rw [sub_one_toNat hn]
      exact decide_eq_decide.mpr (by omega)
    rw [if_pos hl, Option.map_some]
    dsimp only
    rw [copy_stored hguard, stored_bounded hl rfl]
    have hlength : ((List.range (wnlen d n.toNat 0)).map d).length = wnlen d n.toNat 0 := by
      rw [List.length_map, List.length_range]
    constructor
    · exact fun hlt => ⟨_, rfl, by rwa [hlength]⟩
    · rintro ⟨old, hold, hlt⟩
      rwa [← Option.some.inj hold, hlength] at hlt
  · rw [if_neg hl, Option.map_none]
    refine iff_of_false (fun h => ?_) fun h => ?_
    · obtain ⟨t, ht, -⟩ := h.complete rfl
      cases ht
    · obtain ⟨old, hold, -⟩ := h
      cases hold

/-- The sign and the digits are copied as one text. -/
theorem itowS_eq (hn : n ≠ 0) (val : BitVec 32) (radix : Int) : itowS d n val radix =
    (0, (copyWhile (fun i => i < (n - 1).toNat) ⟨d, 0⟩ 0 0 (itowText val)).1.put
      (copyWhile (fun i => i < (n - 1).toNat) ⟨d, 0⟩ 0 0 (itowText val)).2 0) := by
  unfold itowS itowText
  rw [if_neg hn]
  dsimp only
  by_cases hneg : val.slt 0 = true
  · rw [if_pos hneg, List.singleton_append]
    by_cases hroom : 0 < (n - 1).toNat
    · rw [if_pos ⟨hneg, hroom⟩]
      dsimp only
      rw [copyWhile.eq_2, if_pos (decide_eq_true hroom)]
    · rw [if_neg fun h => hroom h.2]
      dsimp only
      have hstop : ∀ c cs, copyWhile (fun i => i < (n - 1).toNat) ⟨d, 0⟩ 0 0 (c :: cs) = (⟨d, 0⟩, 0) :=
        fun c cs => by
        rw [copyWhile.eq_2, if_neg (by simpa using hroom)]
      rw [hstop]
      cases (itowDigits (itowMagnitude val)).reverse with
      | nil => rfl
      | cons c cs => rw [hstop]
  · rw [if_neg hneg, List.nil_append, if_neg fun h => hneg h.1]

/-- A text without terminators that is in the array from its start is the one that was written. -/
theorem stored_exact {t full : List UInt16} (ht : 0 ∉ t) (hfull : 0 ∉ full) (hm : t.length < m) :
    Bounded m d (some full) (0, stored d 0 (t ++ [0])) ↔ full = t := by
  have hnonzero : ∀ {l : List UInt16}, 0 ∉ l → ∀ i, i < l.length → l.getD i 0 ≠ 0 := fun hl i hi => by
    rw [List.getD_eq_getElem?_getD, List.getElem?_eq_getElem hi, Option.getD_some]
    exact fun heq => hl (heq ▸ List.getElem_mem hi)
  have hend : ∀ l : List UInt16, l.getD l.length 0 = 0 := fun l =>
    List.getD_eq_default l 0 (Nat.le_refl _)
  have hcells : ∀ i ≤ t.length, (stored d 0 (t ++ [0])).cells i = t.getD i 0 := fun i hi => by
    change (if _ then _ else _) = _
    rw [if_pos ⟨Nat.zero_le _, by rw [Nat.zero_add, List.length_append]; exact Nat.lt_succ_of_le hi⟩,
      Nat.sub_zero]
    rcases Nat.lt_or_eq_of_le hi with hlt | rfl
    · rw [List.getD_append _ _ _ _ hlt]
    · rw [List.getD_append_right _ _ _ _ (Nat.le_refl _), Nat.sub_self, hend]
      rfl
  constructor
  · intro h
    obtain ⟨u, hu, -, hheld⟩ := h.complete rfl
    obtain rfl := Option.some.inj hu
    have hlength : full.length = t.length := by
      rcases Nat.lt_trichotomy full.length t.length with hlt | heq | hgt
      · have hstop := hheld full.length (Nat.le_refl _)
        rw [hend, hcells _ (Nat.le_of_lt hlt)] at hstop
        exact absurd hstop (hnonzero ht _ hlt)
      · exact heq
      · have hstop := hheld t.length (Nat.le_of_lt hgt)
        rw [hcells _ (Nat.le_refl _), hend] at hstop
        exact absurd hstop.symm (hnonzero hfull _ hgt)
    refine List.ext_getElem hlength fun i hi hi' => ?_
    have hi₁ := hheld i (Nat.le_of_lt hi)
    rw [hcells i (Nat.le_of_lt hi'), List.getD_eq_getElem?_getD, List.getD_eq_getElem?_getD,
      List.getElem?_eq_getElem hi, List.getElem?_eq_getElem hi'] at hi₁
    exact hi₁.symm
  · rintro rfl
    refine ⟨?_, fun i hi => if_neg ?_, fun _ => ⟨full.length, hm, ?_⟩, fun _ => ⟨full, rfl, hm, hcells⟩⟩
    · change 0 + (full ++ [0]).length ≤ m
      rw [Nat.zero_add, List.length_append]
      exact hm
    · rw [List.length_append]
      exact fun hin => absurd hin.2 (by rw [Nat.zero_add]; exact Nat.not_lt_of_le (Nat.le_trans hm hi))
    · rw [hcells _ (Nat.le_refl _), hend]

theorem radixText_nonzero {radix : Nat} (hlo : 2 ≤ radix) (hhi : radix ≤ 36) (val : BitVec 32) :
    0 ∉ radixText val radix := by
  have hdigit : ∀ k < 36, radixDigit k ≠ 0 := by decide
  unfold radixText
  rw [List.mem_append, not_or]
  constructor
  · split <;> decide
  · rw [List.mem_map]
    rintro ⟨k, hk, hzero⟩
    refine hdigit k ?_ hzero
    rw [List.mem_reverse] at hk
    unfold digitsOf at hk
    split at hk
    · rw [List.mem_singleton.mp hk]
      decide
    · exact Nat.lt_of_lt_of_le (Nat.digits_lt_base hlo hk) hhi

theorem itowText_eq (val : BitVec 32) : itowText val = radixText val 10 := by
  unfold itowText itowDigits radixText digitsOf
  refine congrArg _ ?_
  by_cases hzero : itowMagnitude val = 0
  · rw [if_pos hzero, if_pos hzero]
    rfl
  · rw [if_neg hzero, if_neg hzero, ← List.map_reverse]
    refine List.map_congr_left fun k hk => ?_
    unfold radixDigit
    rw [if_pos (Nat.digits_lt_base (by decide) (List.mem_reverse.mp hk))]

theorem itowS_bounded (val : BitVec 32) {radix : Nat} (hlo : 2 ≤ radix) (hhi : radix ≤ 36) :
    Bounded n.toNat d (some (radixText val radix)) (itowS d n val radix) ↔
      n = 0 ∨ radixText val radix = (radixText val 10).take (n.toNat - 1) := by
  by_cases hn : n = 0
  · subst hn
    unfold itowS
    rw [if_pos rfl, refused_bounded (by decide)]
    exact iff_of_true (fun h => absurd h (by decide)) (.inl rfl)
  · have hcopy := copy_stored (d := d) (l := 0) (s := itowText val) fun i => (rfl :
      decide (i < (n - 1).toNat) = decide (i < (n - 1).toNat))
    rw [Nat.zero_add] at hcopy
    have hpos := toNat_pos hn
    rw [itowS_eq hn, hcopy, itowText_eq, sub_one_toNat hn,
      stored_exact (fun hmem => radixText_nonzero (by decide) (by decide) val (List.mem_of_mem_take hmem))
        (radixText_nonzero hlo hhi val) (by rw [List.length_take]; omega)]
    exact ⟨.inr, fun h => h.resolve_left hn⟩

theorem wcscpyS_null :
    Bounded n.toNat d none (wcscpyS d n none) ↔ n = 0 ∨ ∃ i < n.toNat, d i = 0 := by
  unfold wcscpyS
  rw [refused_bounded (by decide)]
  constructor
  · intro h
    by_cases hn : n = 0
    · exact .inl hn
    · exact .inr (h (toNat_pos hn))
  · rintro (rfl | h) hpos
    · exact absurd hpos (Nat.lt_irrefl 0)
    · exact h

/-- Each of the five functions is right exactly where the whole result fits; `_itow_s` where that is
what is left of the decimal text. -/
theorem wide_bounded (d : Nat → UInt16) (n : UInt64) :
    (∀ s, Bounded n.toNat d (some s) (wcscpyS d n (some s)) ↔ n = 0 ∨ s.length < n.toNat) ∧
    (Bounded n.toNat d none (wcscpyS d n none) ↔ n = 0 ∨ ∃ i < n.toNat, d i = 0) ∧
    (∀ s, Bounded n.toNat d ((content d n.toNat).map (· ++ s)) (wcscatS d n s) ↔
      ∃ old, content d n.toNat = some old ∧ old.length + s.length < n.toNat) ∧
    (∀ s cnt, Bounded n.toNat d (some (s.take cnt)) (wcsncpyS d n s cnt) ↔
      n = 0 ∨ (s.take cnt).length < n.toNat) ∧
    (∀ mb cnt, Bounded n.toNat d (some ((mb.map UInt8.toUInt16).take cnt)) (mbstowcsS d n mb cnt) ↔
      (mb.take cnt).length < n.toNat) ∧
    ∀ val, ∀ radix : Nat, 2 ≤ radix → radix ≤ 36 →
      (Bounded n.toNat d (some (radixText val radix)) (itowS d n val radix) ↔
        n = 0 ∨ radixText val radix = (radixText val 10).take (n.toNat - 1)) :=
  ⟨wcscpyS_bounded, wcscpyS_null, wcscatS_bounded, wcsncpyS_bounded, mbstowcsS_bounded,
    fun val _ hlo hhi => itowS_bounded val hlo hhi⟩

theorem wide_bounded_twelve :
    Bounded 4 (fun _ => 0x61) (some (radixText 12 10)) (itowS (fun _ => 0x61) 4 12 10) :=
  ((wide_bounded (fun _ => 0x61) 4).2.2.2.2.2 12 10 (by decide) (by decide)).mpr (.inr (by decide))

/-- Six characters are cut to three and 0 is returned; with no room, or no terminator in it, the
terminator is written behind the array. -/
theorem wide_overrun : let d : Nat → UInt16 := fun _ => 0x61
    ((wcscpyS d 4 (some (List.replicate 6 0x62))).1 = 0 ∧
      ¬Bounded 4 d (some (List.replicate 6 0x62)) (wcscpyS d 4 (some (List.replicate 6 0x62)))) ∧
    ¬Bounded 0 d ((content d 0).map (· ++ [0x62])) (wcscatS d 0 [0x62]) ∧
    ¬Bounded 2 d ((content d 2).map (· ++ [0x62])) (wcscatS d 2 [0x62]) := by
  refine ⟨⟨by decide, fun h => ?_⟩, fun h => ?_, fun h => ?_⟩
  · obtain ⟨t, ht, hlt, -⟩ := h.complete (by decide)
    cases ht
    exact absurd hlt (by decide)
  · exact absurd h.inside (by decide)
  · exact absurd h.inside (by decide)

end Bounds

end MeuOS.Ucrt
