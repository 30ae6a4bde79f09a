import MeuOS.Combase.Guid
import Mathlib.Data.List.GetD
import Mathlib.Data.List.Range
import Mathlib.Tactic.Ring

/-! The two ways between a GUID and its text: what the parser accepts, and that the printer gives
back what was parsed, in upper case. -/
namespace MeuOS.Combase

open MeuOS.Lib

def upper (c : UInt16) : UInt16 := if 0x61 ≤ c ∧ c ≤ 0x7A then c - 0x20 else c

section Digits

variable {c : UInt16} {h n v w : Nat}

theorem hexV_some (hc : hexV c = some h) : h < 16 ∧ hexU h = upper c := by
  unfold hexV at hc
  simp only [UInt16.le_iff_toNat_le, UInt16.reduceToNat] at hc
  unfold hexU upper
  simp only [UInt16.le_iff_toNat_le, UInt16.reduceToNat]
  split at hc
  · cases hc
    refine ⟨by omega, ?_⟩
    rw [if_pos (by omega), if_neg (by omega)]
    exact UInt16.toNat_inj.mp (by rw [UInt16.toNat_ofNat']; omega)
  · split at hc
    · cases hc
      refine ⟨by omega, ?_⟩
      rw [if_neg (by omega), if_pos (by omega)]
      refine UInt16.toNat_inj.mp ?_
      rw [UInt16.toNat_ofNat', UInt16.toNat_sub_of_le]
      · simp only [UInt16.reduceToNat]
        omega
      · rw [UInt16.le_iff_toNat_le]
        simp only [UInt16.reduceToNat]
        omega
    · split at hc
      · cases hc
        refine ⟨by omega, ?_⟩
        rw [if_neg (by omega), if_neg (by omega)]
        exact UInt16.toNat_inj.mp (by rw [UInt16.toNat_ofNat']; omega)
      · cases hc

theorem hexU_mod (v : Nat) : hexU (v % 16) = hexU v := by
  unfold hexU
  rw [Nat.mod_mod]

theorem hexV_hexU (v : Nat) : hexV (hexU v) = some (v % 16) := by
  have hall : ∀ d : Fin 16, hexV (hexU d) = some d.val := by decide
  rw [← hexU_mod]
  exact hall ⟨v % 16, Nat.mod_lt _ (by decide)⟩

theorem upper_hexU (v : Nat) : upper (hexU v) = hexU v := by
  have hall : ∀ d : Fin 16, upper (hexU d) = hexU d := by decide
  rw [← hexU_mod]
  exact hall ⟨v % 16, Nat.mod_lt _ (by decide)⟩

theorem hexU_inj (h : hexU v = hexU w) : v % 16 = w % 16 := by
  have hback := congrArg hexV h
  rw [hexV_hexU, hexV_hexU] at hback
  exact Option.some.inj hback

theorem hexText_succ (n v : Nat) : hexText (n + 1) v = hexU (v >>> (4 * n)) :: hexText n v := by
  unfold hexText
  rw [List.range_succ, List.reverse_append]
  rfl

theorem length_hexText (n v : Nat) : (hexText n v).length = n := by
  unfold hexText
  rw [List.length_map, List.length_reverse, List.length_range]

/-- The lower digits are those of the rest. -/
theorem hexText_add (n a w : Nat) : hexText n (a * 16 ^ n + w) = hexText n w := by
  unfold hexText
  refine List.map_congr_left fun k hk => ?_
  rw [List.mem_reverse, List.mem_range] at hk
  have hpow : (2 : Nat) ^ (4 * k) = 16 ^ k := by rw [Nat.pow_mul]
  obtain ⟨j, rfl⟩ : ∃ j, n = k + 1 + j := ⟨n - (k + 1), by omega⟩
  have hsplit : a * 16 ^ (k + 1 + j) + w = w + 16 ^ k * (16 * (a * 16 ^ j)) := by ring
  rw [Nat.shiftRight_eq_div_pow, Nat.shiftRight_eq_div_pow, hpow, hsplit,
    Nat.add_mul_div_left _ _ (Nat.pow_pos (by decide)), ← hexU_mod, Nat.add_mul_mod_self_left, hexU_mod]

theorem hexText_inj (h : hexText n v = hexText n w) (hv : v < 16 ^ n) (hw : w < 16 ^ n) : v = w := by
  induction n generalizing v w with
  | zero => omega
  | succ n ih =>
    rw [hexText_succ, hexText_succ] at h
    obtain ⟨hfirst, hrest⟩ := List.cons.inj h
    have hpow : (2 : Nat) ^ (4 * n) = 16 ^ n := by rw [Nat.pow_mul]
    have hlt : ∀ u, u < 16 ^ (n + 1) → u / 16 ^ n < 16 := fun u hu =>
      Nat.div_lt_of_lt_mul (by rwa [Nat.pow_succ] at hu)
    have htop := hexU_inj hfirst
    rw [Nat.shiftRight_eq_div_pow, Nat.shiftRight_eq_div_pow, hpow, Nat.mod_eq_of_lt (hlt v hv),
      Nat.mod_eq_of_lt (hlt w hw)] at htop
    have hlow : ∀ u, hexText n (u % 16 ^ n) = hexText n u := fun u => by
      conv_rhs => rw [← Nat.div_add_mod' u (16 ^ n), hexText_add]
    have hmod := ih (v := v % 16 ^ n) (w := w % 16 ^ n) (by rw [hlow, hlow, hrest])
      (Nat.mod_lt _ (Nat.pow_pos (by decide))) (Nat.mod_lt _ (Nat.pow_pos (by decide)))
    rw [← Nat.div_add_mod' v (16 ^ n), ← Nat.div_add_mod' w (16 ^ n), htop, hmod]

end Digits

/-- `n` characters of a text, in upper case. -/
def upperText (text : Nat → UInt16) (p n : Nat) : List UInt16 :=
  (List.range n).map fun i => upper (text (p + i))

/-- The character that is right at a place between the braces: 8-4-4-4-12 digits. -/
def shapeOk (i : Nat) (c : UInt16) : Bool :=
  if i = 8 ∨ i = 13 ∨ i = 18 ∨ i = 23 then c == hyphen else (hexV c).isSome

/-- Where the first digit of a byte of `Data4` stands. -/
def pairStart (i : Nat) : Bool :=
  i ∈ [19, 21, 24, 26, 28, 30, 32, 34]

section Scanning

variable {text : Nat → UInt16} {ok : Nat → Prop} {extra : Nat → Nat} {p : Nat}

theorem upperText_succ (p n : Nat) :
    upperText text p (n + 1) = upper (text p) :: upperText text (p + 1) n := by
  unfold upperText
  rw [List.range_succ_eq_map, List.map_cons, List.map_map, Nat.add_zero]
  refine congrArg _ (List.map_congr_left fun i _ => ?_)
  rw [Function.comp_apply, show p + i.succ = p + 1 + i by omega]

theorem upperText_add (p n k : Nat) :
    upperText text p (n + k) = upperText text p n ++ upperText text (p + n) k := by
  induction n generalizing p with
  | zero => rw [Nat.zero_add, Nat.add_zero]; rfl
  | succ n ih =>
    rw [show n + 1 + k = n + k + 1 by omega, upperText_succ, upperText_succ, ih,
      show p + 1 + n = p + (n + 1) by omega, List.cons_append]

theorem hexRun_scans {k d : Nat} (hok : ∀ i < k, ok (p + i) ↔ (hexV (text (p + i))).isSome = true)
    (hextra : ∀ i < k, extra (p + i) = 0) : Scans ok extra (hexRun text k d) p k fun v =>
      ∃ w < 16 ^ k, v = d * 16 ^ k + w ∧ hexText k w = upperText text p k := by
  induction k generalizing d p with
  | zero => exact .pure ⟨0, Nat.one_pos, by omega, rfl⟩
  | succ k ih =>
    have hfirst := hok 0 (Nat.succ_pos _)
    rw [Nat.add_zero] at hfirst
    cases hdigit : hexV (text p) with
    | none =>
      rw [hdigit] at hfirst
      refine .inr ⟨0, Nat.succ_pos _, ?_, fun _ hi => absurd hi (Nat.not_lt_zero _), ?_⟩
      · unfold hexRun
        rw [hdigit, hextra 0 (Nat.succ_pos _)]
      · rw [Nat.add_zero]
        exact fun h => Bool.noConfusion (hfirst.mp h)
    | some h =>
      rw [hdigit] at hfirst
      obtain ⟨hlt, hupper⟩ := hexV_some hdigit
      have hshift : ∀ i, p + 1 + i = p + (i + 1) := fun i => by omega
      have hrest := ih (p := p + 1) (d := d <<< 4 ||| h)
        (fun i hi => by rw [hshift]; exact hok (i + 1) (Nat.succ_lt_succ hi))
        (fun i hi => by rw [hshift]; exact hextra (i + 1) (Nat.succ_lt_succ hi))
      have hstep : hexRun text (k + 1) d p = hexRun text k (d <<< 4 ||| h) (p + 1) := by
        rw [hexRun]
        dsimp only
        rw [hdigit]
      have hword : d <<< 4 ||| h = d * 16 + h := by
        rw [← Nat.shiftLeft_add_eq_or_of_lt (by omega), Nat.shiftLeft_eq]
      rcases hrest with ⟨v, hv, hoks, w, hw, heq, htext⟩ | ⟨j, hj, hv, hoks, hbad⟩
      · refine .inl ⟨v, ?_, fun i hi => ?_, h * 16 ^ k + w, ?_, ?_, ?_⟩
        · rw [hstep, hv, hshift]
        · cases i with
          | zero => exact hfirst.mpr rfl
          | succ i =>
            rw [← hshift]
            exact hoks i (Nat.lt_of_succ_lt_succ hi)
        · have hle : (h + 1) * 16 ^ k ≤ 16 * 16 ^ k := Nat.mul_le_mul_right _ hlt
          rw [Nat.succ_mul] at hle
          rw [Nat.pow_succ]
          omega
        · rw [heq, hword, Nat.pow_succ]
          ring
        · have hpow : (2 : Nat) ^ (4 * k) = 16 ^ k := by rw [Nat.pow_mul]
          rw [hexText_succ, hexText_add, upperText_succ, htext, ← hupper, Nat.shiftRight_eq_div_pow,
            hpow, Nat.mul_comm h, Nat.mul_add_div (Nat.pow_pos (by decide)), Nat.div_eq_of_lt hw,
            Nat.add_zero]
      · refine .inr ⟨j + 1, Nat.succ_lt_succ hj, ?_, fun i hi => ?_, ?_⟩
        · rw [hstep, hv, hshift]
        · cases i with
          | zero => exact hfirst.mpr rfl
          | succ i =>
            rw [← hshift]
            exact hoks i (Nat.lt_of_succ_lt_succ hi)
        · rwa [← hshift]

theorem dash_scans (hok : ok p ↔ text p = hyphen) (hextra : extra p = 0) :
    Scans ok extra (dash text) p 1 fun _ => [hyphen] = upperText text p 1 := by
  by_cases hdash : text p = hyphen
  · refine .inl ⟨(), ?_, fun i hi => ?_, ?_⟩
    · unfold dash
      rw [if_pos hdash]
    · obtain rfl := Nat.lt_one_iff.mp hi
      exact hok.mpr hdash
    · rw [upperText_succ, hdash]
      rfl
  · refine .inr ⟨0, Nat.one_pos, ?_, fun _ hi => absurd hi (Nat.not_lt_zero _), ?_⟩
    · unfold dash
      rw [if_neg hdash]
      exact congrArg (Prod.mk none) (congrArg (p + 1 + ·) hextra.symm)
    · exact fun h => hdash (hok.mp h)

theorem hexPair_scans (hok : ∀ i < 2, ok (p + i) ↔ (hexV (text (p + i))).isSome = true)
    (hfirst : extra p = 1) (hsecond : extra (p + 1) = 0) : Scans ok extra (hexPair text) p 2 fun v =>
      v < 256 ∧ hexText 2 v = upperText text p 2 := by
  have hhi := hok 0 (by decide)
  have hlo := hok 1 (by decide)
  rw [Nat.add_zero] at hhi
  unfold hexPair
  cases hi : hexV (text p) with
  | none =>
    refine .inr ⟨0, by decide, ?_, fun _ hlt => absurd hlt (Nat.not_lt_zero _), ?_⟩
    · dsimp only
      rw [hi]
      exact congrArg (Prod.mk none) (congrArg (p + 1 + ·) hfirst.symm)
    · rw [Nat.add_zero, hhi, hi]
      exact Bool.false_ne_true
  | some h =>
    rw [hi] at hhi
    cases lo : hexV (text (p + 1)) with
    | none =>
      refine .inr ⟨1, by decide, ?_, fun i hlt => ?_, ?_⟩
      · dsimp only
        rw [hi, lo, hsecond]
      · obtain rfl := Nat.lt_one_iff.mp hlt
        exact hhi.mpr rfl
      · rw [hlo, lo]
        exact Bool.false_ne_true
    | some l =>
      rw [lo] at hlo
      obtain ⟨hlt, hupper⟩ := hexV_some hi
      obtain ⟨hlt', hupper'⟩ := hexV_some lo
      refine .inl ⟨h <<< 4 ||| l, ?_, fun i hi2 => ?_, ?_⟩
      · dsimp only
        rw [hi, lo]
      · have hcases : i = 0 ∨ i = 1 := by omega
        rcases hcases with rfl | rfl
        · exact hhi.mpr rfl
        · exact hlo.mpr rfl
      · rw [← Nat.shiftLeft_add_eq_or_of_lt (by omega), Nat.shiftLeft_eq]
        refine ⟨by omega, ?_⟩
        have hdiv : (h * 2 ^ 4 + l) >>> 4 = h := by
          rw [Nat.shiftRight_eq_div_pow]
          omega
        have hmod : (h * 2 ^ 4 + l) % 16 = l := by omega
        rw [hexText_succ, hexText_succ, upperText_succ, upperText_succ, ← hupper, ← hupper']
        rw [show 4 * 1 = 4 from rfl, hdiv, show 4 * 0 = 0 from rfl, Nat.shiftRight_zero,
          ← hexU_mod (h * 2 ^ 4 + l), hmod]
        rfl

theorem hexPairs_scans {k : Nat}
    (hok : ∀ i < 2 * k, ok (p + i) ↔ (hexV (text (p + i))).isSome = true)
    (hextra : ∀ i < k, extra (p + 2 * i) = 1 ∧ extra (p + 2 * i + 1) = 0) :
    Scans ok extra (hexPairs text k) p (2 * k) fun l =>
      l.length = k ∧ (∀ v ∈ l, v < 256) ∧ l.flatMap (hexText 2) = upperText text p (2 * k) := by
  induction k generalizing p with
  | zero =>
    refine .pure ⟨rfl, fun v hv => ?_, rfl⟩
    cases hv
  | succ k ih =>
    obtain ⟨hfirst, hsecond⟩ := hextra 0 (Nat.succ_pos _)
    have hpair := @hexPair_scans text _ _ _ (fun i hi => hok i (by omega)) hfirst hsecond
    rw [show 2 * (k + 1) = 2 + 2 * k by omega]
    refine hpair.bind fun v hv => ?_
    have hshift : ∀ i, p + 2 + 2 * i = p + 2 * (i + 1) := fun i => by omega
    have hrest := ih (p := p + 2)
      (fun i hi => by
        rw [show p + 2 + i = p + (2 + i) by omega]
        exact hok (2 + i) (by omega))
      (fun i hi => by
        rw [hshift]
        exact hextra (i + 1) (Nat.succ_lt_succ hi))
    rw [show 2 * k = 2 * k + 0 from rfl]
    refine hrest.bind fun l hl => .pure ⟨?_, ?_, ?_⟩
    · rw [List.length_cons, hl.1]
    · intro u hu
      rcases List.mem_cons.mp hu with rfl | hu
      · exact hv.1
      · exact hl.2.1 u hu
    · rw [List.flatMap_cons, hl.2.2, hv.2, upperText_add]
      rfl

theorem shapeOk_digit {i : Nat} (hi : ¬(i = 8 ∨ i = 13 ∨ i = 18 ∨ i = 23)) (c : UInt16) :
    shapeOk i c = true ↔ (hexV c).isSome = true := by
  unfold shapeOk
  rw [if_neg hi]

theorem shapeOk_hyphen {i : Nat} (hi : i = 8 ∨ i = 13 ∨ i = 18 ∨ i = 23) (c : UInt16) :
    shapeOk i c = true ↔ c = hyphen := by
  unfold shapeOk
  rw [if_pos hi, beq_iff_eq]

/-- The bytes of `Data4` are those that were read. -/
theorem pairs_bytes {l : List Nat} (hl : ∀ v ∈ l, v < 256) :
    hexPairsText (l.map UInt8.ofNat) = l.flatMap (hexText 2) := by
  unfold hexPairsText
  rw [List.flatMap_map]
  refine List.flatMap_congr fun v hv => ?_
  rw [UInt8.toNat_ofNat', Nat.mod_eq_of_lt (hl v hv)]

theorem guidBody_scans (text : Nat → UInt16) (p : Nat) :
    Scans (fun i => shapeOk (i - p) (text i) = true) (fun i => if pairStart (i - p) then 1 else 0)
      (guidBody text) p 36 fun g => guidText g = upperText text p 36 := by
  let ok : Nat → Prop := fun i => shapeOk (i - p) (text i) = true
  let extra : Nat → Nat := fun i => if pairStart (i - p) then 1 else 0
  have hsub : ∀ o i, p + o + i - p = o + i := fun o i => by omega
  have hdigit : ∀ o k, (∀ i < k, ¬(o + i = 8 ∨ o + i = 13 ∨ o + i = 18 ∨ o + i = 23)) → ∀ i < k,
      (ok (p + o + i) ↔ (hexV (text (p + o + i))).isSome = true) := fun o k hk i hi => by
    change shapeOk (p + o + i - p) (text (p + o + i)) = true ↔ _
    rw [hsub, shapeOk_digit (hk i hi)]
  have hextra : ∀ o i, extra (p + o + i) = if pairStart (o + i) then 1 else 0 := fun o i => by
    change (if pairStart (p + o + i - p) then 1 else 0) = _
    rw [hsub]
  have run : ∀ o k, (∀ i < k, ¬(o + i = 8 ∨ o + i = 13 ∨ o + i = 18 ∨ o + i = 23)) →
      (∀ i < k, pairStart (o + i) = false) →
      Scans ok extra (hexRun text k 0) (p + o) k fun v =>
        v < 16 ^ k ∧ hexText k v = upperText text (p + o) k := fun o k hk hno => by
    have hscan : Scans ok extra (hexRun text k 0) (p + o) k _ :=
      hexRun_scans (hdigit o k hk) fun i hi => by rw [hextra, hno i hi]; rfl
    refine hscan.mono fun v hv => ?_
    obtain ⟨w, hw, rfl, htext⟩ := hv
    rw [Nat.zero_mul, Nat.zero_add]
    exact ⟨hw, htext⟩
  have hyph : ∀ o, (o = 8 ∨ o = 13 ∨ o = 18 ∨ o = 23) → pairStart o = false →
      Scans ok extra (dash text) (p + o) 1 fun _ => [hyphen] = upperText text (p + o) 1 :=
    fun o ho hno => by
    refine dash_scans ?_ ?_
    · change shapeOk (p + o - p) (text (p + o)) = true ↔ _
      rw [show p + o - p = o by omega, shapeOk_hyphen ho]
    · rw [← Nat.add_zero (p + o), hextra, Nat.add_zero, hno]
      rfl
  have pairs : ∀ o k, (∀ i < 2 * k, ¬(o + i = 8 ∨ o + i = 13 ∨ o + i = 18 ∨ o + i = 23)) →
      (∀ i < k, pairStart (o + 2 * i) = true ∧ pairStart (o + 2 * i + 1) = false) →
      Scans ok extra (hexPairs text k) (p + o) (2 * k) fun l =>
        l.length = k ∧ (∀ v ∈ l, v < 256) ∧
          l.flatMap (hexText 2) = upperText text (p + o) (2 * k) := fun o k hk hstart => by
    refine hexPairs_scans (hdigit o (2 * k) hk) fun i hi => ?_
    rw [hextra, Nat.add_assoc (p + o), hextra, ← Nat.add_assoc, (hstart i hi).1, (hstart i hi).2]
    exact ⟨rfl, rfl⟩
  have hlength : 36 = 8 + (1 + (4 + (1 + (4 + (1 + (2 * 2 + (1 + (2 * 6 + 0)))))))) := rfl
  change Scans ok extra (guidBody text) (p + 0) 36 _
  rw [hlength]
  refine (run 0 8 (by omega) (by decide)).bind fun d1 hd1 => ?_
  refine (hyph 8 (by omega) rfl).bind fun _ h8 => ?_
  refine (run 9 4 (by omega) (by decide)).bind fun d2 hd2 => ?_
  refine (hyph 13 (by omega) rfl).bind fun _ h13 => ?_
  refine (run 14 4 (by omega) (by decide)).bind fun d3 hd3 => ?_
  refine (hyph 18 (by omega) rfl).bind fun _ h18 => ?_
  refine (pairs 19 2 (by omega) (by decide)).bind fun b hb => ?_
  refine (hyph 23 (by omega) rfl).bind fun _ h23 => ?_
  refine (pairs 24 6 (by omega) (by decide)).bind fun b' hb' => .pure ?_
  obtain ⟨hlen, hbytes, htext⟩ := hb
  obtain ⟨hlen', hbytes', htext'⟩ := hb'
  match b, b' with
  | [b₀, b₁], [c₀, c₁, c₂, c₃, c₄, c₅] =>
    have hfirst := pairs_bytes hbytes
    have hrest := pairs_bytes hbytes'
    simp only [List.map_cons, List.map_nil] at hfirst hrest
    have h₁ : d1 % 2 ^ 32 = d1 := Nat.mod_eq_of_lt hd1.1
    have h₂ : d2 % 2 ^ 16 = d2 := Nat.mod_eq_of_lt hd2.1
    have h₃ : d3 % 2 ^ 16 = d3 := Nat.mod_eq_of_lt hd3.1
    unfold guidText
    simp only [UInt32.toNat_ofNat', UInt16.toNat_ofNat', h₁, h₂, h₃, Vector.getElem_ofFn, List.cons_append,
      List.nil_append, List.getD_cons_zero, List.getD_cons_succ]
    rw [hfirst, hrest, htext, htext', hd1.2, hd2.2, hd3.2, upperText_add, upperText_add, upperText_add,
      upperText_add, upperText_add, upperText_add, upperText_add, upperText_add, upperText_add, ← h8, ← h13,
      ← h18, ← h23]
    rfl

end Scanning

/-- `s` and a terminator, from the pointer on. -/
def Holds (text : Nat → UInt16) (s : List UInt16) : Prop := ∀ i ≤ s.length, text i = s.getD i 0

/-- A brace, the digits and the hyphens of a GUID, a brace, and nothing else. -/
def Braced (s : List UInt16) : Prop :=
  s.length = 38 ∧ s.getD 0 0 = 0x7B ∧ (∀ i < 36, shapeOk i (s.getD (i + 1) 0) = true) ∧
    s.getD 37 0 = 0x7D

/-- The first `j` characters are right. -/
def GuidPrefix (t : List UInt16) (j : Nat) : Prop :=
  j ≤ t.length ∧ ∀ i < j, shapeOk i (t.getD i 0) = true

def unbraced (s : List UInt16) : List UInt16 := if s.getD 0 0 = 0x7B then s.tail else s

/-- A GUID is in braces that nothing follows, and no text ends in front of a byte of `Data4`. -/
def Clean (s : List UInt16) : Prop :=
  (GuidPrefix (unbraced s) 36 → Braced s) ∧
    ∀ j, pairStart j = true → ¬((unbraced s).length = j ∧ GuidPrefix (unbraced s) j)

/-- What the parser is for: the texts that it accepts, what it makes of them, and that it stays
inside. -/
structure TextRight (parse : Option (Nat → UInt16) → GuidResult) (text : Nat → UInt16)
    (s : List UInt16) : Prop where
  accepts : (parse (some text)).hr = .ok ↔ Braced s
  back : (parse (some text)).hr = .ok →
    stringFromGuid2 (parse (some text)).guid 39 = s.map upper ++ [0]
  inside : (parse (some text)).reads ≤ s.length + 1

section Texts

variable {text : Nat → UInt16} {s : List UInt16} {g : Guid}

theorem stringFromGuid2_eq {cch : Int} (hcch : 39 ≤ cch) (g : Guid) :
    stringFromGuid2 g cch = 0x7B :: (guidText g ++ [0x7D, 0]) := by
  unfold stringFromGuid2
  rw [if_neg (by omega)]
  unfold guidText
  simp only [List.append_assoc, List.cons_append]

theorem shapeOk_zero (i : Nat) : shapeOk i 0 = false := by
  unfold shapeOk
  split <;> decide

/-- What is read where the text is right is the text. -/
theorem unbraced_holds (h : Holds text s) : Holds (fun i =>
    text ((if text 0 = 0x7B then 1 else 0) + i)) (unbraced s) ∧
      s.length = (if text 0 = 0x7B then 1 else 0) + (unbraced s).length := by
  have hzero : text 0 = s.getD 0 0 := h 0 (Nat.zero_le _)
  unfold unbraced
  rw [← hzero]
  split
  · rename_i hbrace
    rw [hbrace] at hzero
    cases s with
    | nil => exact absurd hzero (by decide)
    | cons c t =>
      refine ⟨fun i hi => ?_, ?_⟩
      · change text (1 + i) = t.getD i 0
        rw [Nat.add_comm]
        exact h (i + 1) (Nat.succ_le_succ hi)
      · rw [List.length_cons, List.tail_cons, Nat.add_comm]
  · refine ⟨fun i hi => ?_, (Nat.zero_add _).symm⟩
    change text (0 + i) = s.getD i 0
    rw [Nat.zero_add]
    exact h i hi

/-- Characters that are right are in front of the terminator. -/
theorem starts_of_ok {t : List UInt16} {j : Nat} (h : Holds text t)
    (hok : ∀ i < j, shapeOk i (text i) = true) : GuidPrefix t j := by
  have hle : j ≤ t.length := by
    by_contra hlt
    have hend := hok t.length (by omega)
    rw [h t.length (Nat.le_refl _), List.getD_eq_getElem?_getD, List.getElem?_eq_none (Nat.le_refl _),
      Option.getD_none, shapeOk_zero] at hend
    cases hend
  refine ⟨hle, fun i hi => ?_⟩
  rw [← h i (by omega)]
  exact hok i hi

theorem braced_starts (h : Braced s) : GuidPrefix (unbraced s) 36 := by
  obtain ⟨hlength, hopen, hshape, -⟩ := h
  unfold unbraced
  rw [if_pos hopen]
  refine ⟨by rw [List.length_tail]; omega, fun i hi => ?_⟩
  have htail : s.tail.getD i 0 = s.getD (i + 1) 0 := by
    cases s with
    | nil => cases hlength
    | cons c t => rfl
  rw [htail]
  exact hshape i hi

/-- The characters of a text in braces, in upper case. -/
theorem braced_upper (h : Holds text s) (hs : Braced s) (hg : guidText g = upperText text 1 36) :
    stringFromGuid2 g 39 = s.map upper ++ [0] := by
  obtain ⟨hlength, hopen, -, hclose⟩ := hs
  have hs : s.map upper = upperText text 0 s.length := by
    unfold upperText
    refine List.ext_getElem (by rw [List.length_map, List.length_map, List.length_range]) fun i hi _ => ?_
    rw [List.length_map] at hi
    rw [List.getElem_map, List.getElem_map, List.getElem_range, Nat.zero_add, h i (Nat.le_of_lt hi),
      List.getD_eq_getElem?_getD, List.getElem?_eq_getElem hi, Option.getD_some]
  have hfirst : text 0 = 0x7B := (h 0 (Nat.zero_le _)).trans hopen
  have hlast : text 37 = 0x7D := (h 37 (by omega)).trans hclose
  rw [stringFromGuid2_eq (Int.le_refl _), hs, hlength, show 38 = 36 + 1 + 1 from rfl, upperText_succ,
    upperText_add, ← hg, hfirst]
  have hone : upperText text (0 + 1 + 36) 1 = [0x7D] := by
    rw [upperText_succ, hlast]
    rfl
  rw [hone, List.cons_append, List.append_assoc]
  rfl

/-- The result of the parser, by where the text stops being right. -/
theorem guidFromStr_cases (h : Holds text s) :
    (∃ g, guidFromStr (some text) = ⟨.ok, g, (if text 0 = 0x7B then 1 else 0) + 36⟩ ∧
      GuidPrefix (unbraced s) 36 ∧ guidText g = upperText text (if text 0 = 0x7B then 1 else 0) 36) ∨
    ∃ j < 36, guidFromStr (some text) = ⟨.classString, Guid.null,
        (if text 0 = 0x7B then 1 else 0) + j + 1 + if pairStart j then 1 else 0⟩ ∧
      GuidPrefix (unbraced s) j ∧ ¬GuidPrefix (unbraced s) (j + 1) := by
  obtain ⟨hheld, -⟩ := unbraced_holds h
  have hgood : ∀ g q, guidBody text (if text 0 = 0x7B then 1 else 0) = (some g, q) →
      guidFromStr (some text) = ⟨.ok, g, q⟩ := fun g q hr => by
    unfold guidFromStr
    dsimp only
    rw [hr]
  have hbad : ∀ q, guidBody text (if text 0 = 0x7B then 1 else 0) = (none, q) →
      guidFromStr (some text) = ⟨.classString, Guid.null, q⟩ := fun q hr => by
    unfold guidFromStr
    dsimp only
    rw [hr]
  generalize (if text 0 = 0x7B then 1 else 0) = p at hheld hgood hbad ⊢
  have hsub : ∀ i, p + i - p = i := fun i => Nat.add_sub_cancel_left p i
  have hscan := guidBody_scans text p
  unfold Scans at hscan
  simp only [hsub] at hscan
  rcases hscan with ⟨g, hg, hok, htext⟩ | ⟨j, hj, hbody, hok, hends⟩
  · exact .inl ⟨g, hgood _ _ hg, starts_of_ok hheld hok, htext⟩
  · refine .inr ⟨j, hj, hbad _ hbody, starts_of_ok hheld hok, fun hnext => hends ?_⟩
    have hlast := hnext.2 j (Nat.lt_succ_self j)
    rwa [← hheld j (by have := hnext.1; omega)] at hlast

theorem guidFromStr_right (h : Holds text s) : TextRight guidFromStr text s ↔ Clean s := by
  obtain ⟨-, hlength⟩ := unbraced_holds h
  have hzero : text 0 = s.getD 0 0 := h 0 (Nat.zero_le _)
  rcases guidFromStr_cases h with ⟨g, hr, hshape, htext⟩ | ⟨j, hj, hr, hshape, hend⟩
  · constructor
    · rintro ⟨haccepts, -, -⟩
      rw [hr] at haccepts
      refine ⟨fun _ => haccepts.mp rfl, fun j hj hends => ?_⟩
      have hlt : j < 36 := by
        by_contra hge
        unfold pairStart at hj
        rw [decide_eq_true_eq] at hj
        simp only [List.mem_cons, List.not_mem_nil, or_false] at hj
        omega
      have hle := hshape.1
      omega
    · rintro ⟨hbraced, -⟩
      have hs := hbraced hshape
      refine ⟨?_, fun _ => ?_, ?_⟩
      · rw [hr]
        exact iff_of_true rfl hs
      · rw [hr]
        rw [hzero, if_pos hs.2.1] at htext
        exact braced_upper h hs htext
      · rw [hr]
        have hle := hshape.1
        dsimp only
        omega
  · have hno : ¬Braced s := fun hs => hend ⟨by have := (braced_starts hs).1; omega, fun i hi =>
      (braced_starts hs).2 i (by omega)⟩
    have hle := hshape.1
    constructor
    · rintro ⟨-, -, hinside⟩
      refine ⟨fun hall => absurd (⟨by have := hall.1; omega, fun i hi => hall.2 i (by omega)⟩ :
        GuidPrefix (unbraced s) (j + 1)) hend, fun k hk hends => ?_⟩
      -- the text ends where it stops being right
      have hjk : j = k := by
        by_contra hne
        refine hend ⟨by omega, fun i hi => hends.2.2 i (by omega)⟩
      rw [hr] at hinside
      dsimp only at hinside
      rw [hjk, if_pos hk] at hinside
      omega
    · rintro ⟨-, hends⟩
      refine ⟨?_, fun hok => ?_, ?_⟩
      · rw [hr]
        exact iff_of_false (fun hok => nomatch hok) hno
      · rw [hr] at hok
        cases hok
      · rw [hr]
        dsimp only
        cases hpair : pairStart j with
        | true =>
          have hne : (unbraced s).length ≠ j := fun heq => hends j hpair ⟨heq, hshape⟩
          rw [if_pos rfl]
          omega
        | false =>
          rw [if_neg Bool.false_ne_true]
          omega

/-- The printer's digits tell two GUIDs apart. -/
theorem guidText_inj {g' : Guid} (h : guidText g = guidText g') : g = g' := by
  have hdigit : ∀ n, ∀ v w : Nat, (hexText n v).length = (hexText n w).length := fun n v w => by
    rw [length_hexText, length_hexText]
  unfold guidText hexPairsText at h
  simp only [List.flatMap_cons, List.flatMap_nil, List.append_nil] at h
  obtain ⟨h₁, h⟩ := List.append_inj h (hdigit 8 _ _)
  obtain ⟨h₂, h⟩ := List.append_inj (List.cons.inj h).2 (hdigit 4 _ _)
  obtain ⟨h₃, h⟩ := List.append_inj (List.cons.inj h).2 (hdigit 4 _ _)
  have hword : ∀ b : UInt8, b.toNat < 16 ^ 2 := fun b => b.toNat_lt
  have hbyte : ∀ {b b' : UInt8}, hexText 2 b.toNat = hexText 2 b'.toNat → b = b' := fun hb =>
    UInt8.toNat_inj.mp (hexText_inj hb (hword _) (hword _))
  simp only [List.append_assoc] at h
  obtain ⟨b₀, h⟩ := List.append_inj (List.cons.inj h).2 (hdigit 2 _ _)
  obtain ⟨b₁, h⟩ := List.append_inj h (hdigit 2 _ _)
  obtain ⟨b₂, h⟩ := List.append_inj (List.cons.inj h).2 (hdigit 2 _ _)
  obtain ⟨b₃, h⟩ := List.append_inj h (hdigit 2 _ _)
  obtain ⟨b₄, h⟩ := List.append_inj h (hdigit 2 _ _)
  obtain ⟨b₅, h⟩ := List.append_inj h (hdigit 2 _ _)
  obtain ⟨b₆, b₇⟩ := List.append_inj h (hdigit 2 _ _)
  have hdata : g.data4 = g'.data4 := by
    refine Vector.ext fun i hi => ?_
    have hcases : i = 0 ∨ i = 1 ∨ i = 2 ∨ i = 3 ∨ i = 4 ∨ i = 5 ∨ i = 6 ∨ i = 7 := by omega
    rcases hcases with rfl | rfl | rfl | rfl | rfl | rfl | rfl | rfl
    exacts [hbyte b₀, hbyte b₁, hbyte b₂, hbyte b₃, hbyte b₄, hbyte b₅, hbyte b₆, hbyte b₇]
  cases g
  cases g'
  rw [Guid.mk.injEq]
  exact ⟨UInt32.toNat_inj.mp (hexText_inj h₁ (UInt32.toNat_lt _) (UInt32.toNat_lt _)),
    UInt16.toNat_inj.mp (hexText_inj h₂ (UInt16.toNat_lt _) (UInt16.toNat_lt _)),
    UInt16.toNat_inj.mp (hexText_inj h₃ (UInt16.toNat_lt _) (UInt16.toNat_lt _)), hdata⟩

/-- The characters of `l` are right from the place `o` on. -/
def Shaped (o : Nat) (l : List UInt16) : Prop := ∀ i < l.length, shapeOk (o + i) (l.getD i 0) = true

theorem Shaped.append {o : Nat} {l l' : List UInt16} (h : Shaped o l) (h' : Shaped (o + l.length) l') :
    Shaped o (l ++ l') := by
  intro i hi
  rw [List.length_append] at hi
  by_cases hlt : i < l.length
  · rw [List.getD_append _ _ _ _ hlt]
    exact h i hlt
  · rw [List.getD_append_right _ _ _ _ (Nat.le_of_not_lt hlt), show o + i = o + l.length + (i - l.length) by omega]
    exact h' (i - l.length) (by omega)

theorem shaped_digits {o n : Nat}
    (ho : ∀ i < n, ¬(o + i = 8 ∨ o + i = 13 ∨ o + i = 18 ∨ o + i = 23)) (v : Nat) :
    Shaped o (hexText n v) := by
  intro i hi
  rw [length_hexText] at hi
  rw [shapeOk_digit (ho i hi), List.getD_eq_getElem?_getD,
    List.getElem?_eq_getElem (by rwa [length_hexText]), Option.getD_some]
  unfold hexText
  rw [List.getElem_map, hexV_hexU]
  rfl

theorem shaped_hyphen {o : Nat} (ho : o = 8 ∨ o = 13 ∨ o = 18 ∨ o = 23) : Shaped o [hyphen] := by
  intro i hi
  obtain rfl := Nat.lt_one_iff.mp hi
  exact (shapeOk_hyphen ho hyphen).mpr rfl

theorem guidText_shaped (g : Guid) : (guidText g).length = 36 ∧ Shaped 0 (guidText g) := by
  have hlength : ∀ n v, (hexText n v).length = n := length_hexText
  have hcons : ∀ l, hyphen :: l = [hyphen] ++ l := fun _ => rfl
  unfold guidText hexPairsText
  simp only [List.flatMap_cons, List.flatMap_nil, List.append_nil]
  refine ⟨by simp only [List.length_append, List.length_cons, hlength], ?_⟩
  have step : ∀ {o n v : Nat} {l : List UInt16},
      (∀ i < n, ¬(o + i = 8 ∨ o + i = 13 ∨ o + i = 18 ∨ o + i = 23)) → Shaped (o + n) l →
        Shaped o (hexText n v ++ l) := fun ho hl =>
    (shaped_digits ho _).append (by rwa [hlength])
  have skip : ∀ {o : Nat} {l : List UInt16}, (o = 8 ∨ o = 13 ∨ o = 18 ∨ o = 23) → Shaped (o + 1) l →
      Shaped o (hyphen :: l) := fun ho hl => by
    rw [hcons]
    exact (shaped_hyphen ho).append hl
  simp only [List.append_assoc]
  refine step (by omega) (skip (by omega) (step (by omega) (skip (by omega) (step (by omega)
    (skip (by omega) ?_)))))
  refine step (by omega) (step (by omega) (skip (by omega) (step (by omega) (step (by omega)
    (step (by omega) (step (by omega) (step (by omega) (shaped_digits (by omega) _))))))))

theorem upper_hexText (n v : Nat) : (hexText n v).map upper = hexText n v := by
  unfold hexText
  rw [List.map_map]
  exact List.map_congr_left fun k _ => upper_hexU _

theorem upper_guidText (g : Guid) : (guidText g).map upper = guidText g := by
  have hhyphen : upper hyphen = hyphen := by decide
  unfold guidText hexPairsText
  simp only [List.flatMap_cons, List.flatMap_nil, List.append_nil, List.map_append, List.map_cons,
    upper_hexText, hhyphen]

/-- Printing a GUID and parsing what was printed. -/
theorem guidFromStr_print {cch : Int} (hcch : 39 ≤ cch)
    (h : ∀ i < (stringFromGuid2 g cch).length, text i = (stringFromGuid2 g cch).getD i 0) :
    guidFromStr (some text) = ⟨.ok, g, 37⟩ := by
  obtain ⟨hlength, hshaped⟩ := guidText_shaped g
  rw [stringFromGuid2_eq hcch] at h
  have hheld : Holds text (0x7B :: (guidText g ++ [0x7D])) := by
    intro i hi
    simp only [List.length_cons, List.length_append, List.length_nil] at hi h
    rw [h i (by omega)]
    have hend : ∀ l : List UInt16, ∀ j ≤ l.length, (l ++ [0]).getD j 0 = l.getD j 0 := fun l j hj => by
      rcases Nat.lt_or_eq_of_le hj with hlt | rfl
      · rw [List.getD_append _ _ _ _ hlt]
      · rw [List.getD_append_right _ _ _ _ (Nat.le_refl _), Nat.sub_self,
          List.getD_eq_default l 0 (Nat.le_refl _)]
        rfl
    have happend : 0x7B :: (guidText g ++ [(0x7D : UInt16), 0]) = 0x7B :: (guidText g ++ [0x7D]) ++ [0] := by
      rw [List.cons_append, List.append_assoc]
      rfl
    rw [happend, hend _ i (by simp only [List.length_cons, List.length_append, List.length_nil]; omega)]
  have hzero : text 0 = 0x7B := hheld 0 (Nat.zero_le _)
  have hbody : upperText text 1 36 = guidText g := by
    rw [← upper_guidText g]
    unfold upperText
    refine List.ext_getElem (by simp [hlength]) fun i hi hi' => ?_
    rw [List.length_map] at hi'
    rw [List.getElem_map, List.getElem_map, List.getElem_range, hheld (1 + i) (by simp; omega),
      Nat.add_comm 1 i, List.getD_cons_succ, List.getD_append _ _ _ _ hi',
      List.getD_eq_getElem?_getD, List.getElem?_eq_getElem hi', Option.getD_some]
  rcases guidFromStr_cases hheld with ⟨g', hr, -, htext⟩ | ⟨j, hj, -, -, hend⟩
  · rw [if_pos hzero] at hr htext
    rw [hr, guidText_inj (htext.trans hbody)]
  · refine absurd ⟨?_, fun i hi => ?_⟩ hend
    · change j + 1 ≤ (guidText g ++ [0x7D]).length
      rw [List.length_append, hlength]
      omega
    · change shapeOk i ((guidText g ++ [0x7D]).getD i 0) = true
      rw [List.getD_append _ _ _ _ (by omega)]
      have hi := hshaped i (by omega)
      rwa [Nat.zero_add] at hi

/-- A GUID comes back from its text; and the parser is right on a text exactly when it is clean. -/
theorem guid_text {s : List UInt16} {text : Nat → UInt16} (hs : Holds text s) :
    (∀ g cch buf, 39 ≤ cch →
      (∀ i < (stringFromGuid2 g cch).length, buf i = (stringFromGuid2 g cch).getD i 0) →
        clsidFromString (some buf) = ⟨.ok, g, 37⟩ ∧ iidFromString (some buf) = ⟨.ok, g, 37⟩) ∧
    (TextRight clsidFromString text s ↔ Clean s) ∧ (TextRight iidFromString text s ↔ Clean s) :=
  ⟨fun _ _ _ hcch h => ⟨guidFromStr_print hcch h, guidFromStr_print hcch h⟩,
    guidFromStr_right hs, guidFromStr_right hs⟩

/-- A string constant of the source. -/
def wide (s : String) : List UInt16 := s.toList.map fun c => c.toNat.toUInt16

def textOf (s : List UInt16) : Nat → UInt16 := fun i => s.getD i 0

instance (s : List UInt16) : Decidable (Braced s) := inferInstanceAs (Decidable (_ ∧ _ ∧ _ ∧ _))

theorem guid_text_null :
    clsidFromString (some (textOf (stringFromGuid2 Guid.null 39))) = ⟨.ok, Guid.null, 37⟩ ∧
    TextRight clsidFromString (textOf (wide "\x7b6b29fc40-ca47-1067-b31d-00dd010662da\x7d"))
      (wide "\x7b6b29fc40-ca47-1067-b31d-00dd010662da\x7d") := by
  have hs : Holds (textOf (wide "\x7b6b29fc40-ca47-1067-b31d-00dd010662da\x7d"))
      (wide "\x7b6b29fc40-ca47-1067-b31d-00dd010662da\x7d") := fun _ _ => rfl
  refine ⟨((guid_text hs).1 Guid.null 39 _ (by decide) fun _ _ => rfl).1, (guid_text hs).2.1.mpr
    ⟨fun _ => by decide +kernel, fun j hj hends => ?_⟩⟩
  have hlength : (unbraced (wide "\x7b6b29fc40-ca47-1067-b31d-00dd010662da\x7d")).length = 37 := by decide +kernel
  rw [← hends.1, hlength] at hj
  cases hj

/-- A GUID without its braces and one that something follows are accepted, and a text that ends in
front of a byte of `Data4` is read past its terminator. -/
theorem guid_text_loose :
    (∀ s ∈ ["00000000-0000-0000-0000-000000000000", "\x7b00000000-0000-0000-0000-000000000000",
        "\x7b00000000-0000-0000-0000-000000000000\x7dx"],
      (clsidFromString (some (textOf (wide s)))).hr = .ok ∧ ¬Braced (wide s)) ∧
    (let s := wide "\x7b00000000-0000-0000-"
     s.length + 1 < (clsidFromString (some (textOf s))).reads) := by
  decide +kernel

end Texts

end MeuOS.Combase
