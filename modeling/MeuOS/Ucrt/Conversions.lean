import MeuOS.Ucrt.FormatBounds

/-! The conversions of numbers beside the standard ones. The engines put the sign in front of the padding
and leave it out of the width, and they take `l` for 64 bits. -/
namespace MeuOS.Ucrt

open MeuOS.Lib

/-- The digits of a number, the highest first. -/
def digitText (base : Nat) (upper : Bool) (u : Nat) : List Nat := ((digitsOf base u).map (dig upper)).reverse

/-- `%[0][width][l|ll]c`, with `lng` times an `l`. -/
def directive (zero : Bool) (width lng c : Nat) : List Nat :=
  0x25 :: ((if zero then [0x30] else []) ++ ((if width = 0 then [] else digitText 10 false width) ++
    (List.replicate lng 0x6C ++ [c])))

def isSigned (c : Nat) : Bool := c = 0x64 ∨ c = 0x69

/-- The number that an argument is, in its own width: 32 bits, also for `l`, and 64 for `ll`. -/
def argValue (lng c : Nat) (v : BitVec 64) : Int :=
  if isSigned c then if lng = 2 then v.toInt else (v.setWidth 32).toInt
  else if lng = 2 then v.toNat else (v.setWidth 32).toNat

/-- The text of a number in a field: zeros behind the sign, or spaces in front of it. -/
def standard (zero : Bool) (width base : Nat) (upper : Bool) (n : Int) : List Nat :=
  let sign := if n < 0 then [0x2D] else []
  let digits := digitText base upper n.natAbs
  let fill := width - (sign.length + digits.length)
  if zero then sign ++ (List.replicate fill 0x30 ++ digits) else List.replicate fill 0x20 ++ (sign ++ digits)

def baseOf (c : Nat) : Nat := if c = 0x78 ∨ c = 0x58 then 16 else 10

/-- The engine prints the standard text for an argument, whatever else the format has, and goes on with
the slot behind. -/
def PrintsStandard (e : Engine) (zero : Bool) (width lng c : Nat) (v : BitVec 64) : Prop :=
  ∀ cap out p args, out.length < cap →
    vfmtFrom e cap (directive zero width lng c ++ p) out (.word v :: args) =
      vfmtFrom e cap p (emit cap out (standard zero width (baseOf c) (c = 0x58) (argValue lng c v))) args

section Reading

variable {w lng c : Nat} {p : List Nat}

theorem digitText_length (base : Nat) (upper : Bool) (u : Nat) :
    (digitText base upper u).length = (digitsOf base u).length := by
  rw [digitText, List.length_reverse, List.length_map]

theorem digitText_small (hw : w < 10) : digitText 10 false w = [0x30 + w] := by
  unfold digitText digitsOf
  by_cases hzero : w = 0
  · rw [if_pos hzero, hzero]
    rfl
  · rw [if_neg hzero, Nat.digits_of_lt 10 w hzero hw]
    simp [dig, hw]

theorem digitText_step (hw : 10 ≤ w) : digitText 10 false w = digitText 10 false (w / 10) ++ [0x30 + w % 10] := by
  have hhigh : w / 10 ≠ 0 := by omega
  unfold digitText digitsOf
  rw [if_neg (by omega), if_neg hhigh, Nat.digits_def' (by decide) (by omega), List.map_cons, List.reverse_cons]
  simp [dig, Nat.mod_lt w (show 10 > 0 by decide)]

theorem readWidth_digit {u d : Nat} (hd : d < 10) (hsmall : u * 10 + d < 2 ^ 31) :
    readWidth u ((0x30 + d) :: p) = readWidth (u * 10 + d : Nat) p := by
  have hword : wrap32 ((u : Int) * 10 + ((0x30 + d - 0x30 : Nat) : Int)) = ((u * 10 + d : Nat) : Int) := by
    unfold wrap32
    omega
  rw [readWidth, if_pos ⟨by omega, by omega⟩, hword]

/-- The text of a width is read as the width. -/
theorem readWidth_text (hw : w < 2 ^ 31) : readWidth 0 (digitText 10 false w ++ p) = readWidth w p := by
  induction w using Nat.strong_induction_on generalizing p with
  | _ w ih =>
    by_cases hsmall : w < 10
    · have hdigit := readWidth_digit (u := 0) (p := p) hsmall (by omega)
      rw [Nat.zero_mul, Nat.zero_add] at hdigit
      rw [digitText_small hsmall]
      exact hdigit
    · rw [digitText_step (by omega), List.append_assoc, ih (w / 10) (by omega) (by omega), List.singleton_append,
        readWidth_digit (Nat.mod_lt w (by decide)) (by omega), Nat.div_add_mod']

theorem readRun_stop {k : Nat} {n : Int} (h : p.head? ≠ some k) : readRun k n p = (n, p) := by
  cases p with
  | nil => rfl
  | cons c p => exact if_neg fun hc => h (congrArg some hc)

theorem readRun_letters (hlng : lng ≤ 2) (hc : c ≠ 0x6C) :
    readRun 0x6C 0 (List.replicate lng 0x6C ++ (c :: p)) = ((lng : Int), c :: p) := by
  interval_cases lng <;> simp [readRun, hc, wrap32]

/-- The text of a number other than 0 does not begin with the flag. -/
theorem digitText_head (hw : 0 < w) : ∃ d t, digitText 10 false w = (0x31 + d) :: t := by
  induction w using Nat.strong_induction_on with
  | _ w ih =>
    by_cases hsmall : w < 10
    · exact ⟨w - 1, [], by rw [digitText_small hsmall, show 0x31 + (w - 1) = 0x30 + w by omega]⟩
    · obtain ⟨d, t, ht⟩ := ih (w / 10) (by omega) (by omega)
      exact ⟨d, t ++ [0x30 + w % 10], by rw [digitText_step (by omega), ht]; rfl⟩

theorem readPad_directive (hc : 0x3A ≤ c) (zero : Bool) :
    readPad ((if zero then [0x30] else []) ++ ((if w = 0 then [] else digitText 10 false w) ++
      (List.replicate lng 0x6C ++ (c :: p)))) =
    (if zero then 0x30 else 0x20, (if w = 0 then [] else digitText 10 false w) ++
      (List.replicate lng 0x6C ++ (c :: p))) := by
  cases zero with
  | true => rfl
  | false =>
    by_cases hw : w = 0
    · rw [if_pos hw]
      cases lng with
      | zero => exact if_neg (by omega)
      | succ lng => rfl
    · obtain ⟨d, t, ht⟩ := digitText_head (w := w) (by omega)
      rw [if_neg hw, ht]
      exact if_neg (by omega)

/-- A directive is read as what it says. -/
theorem readSpec_directive (e : Engine) (hw : w < 2 ^ 31) (hlng : lng ≤ 2) (hc : isNumber c) (zero : Bool) :
    readSpec e ((if zero then [0x30] else []) ++ ((if w = 0 then [] else digitText 10 false w) ++
      (List.replicate lng 0x6C ++ (c :: p)))) = (⟨if zero then 0x30 else 0x20, w, lng, 0⟩, c :: p) := by
  rw [isNumber_iff] at hc
  have hend : readWidth w (List.replicate lng 0x6C ++ (c :: p)) = ((w : Int), List.replicate lng 0x6C ++ (c :: p)) := by
    cases lng with
    | zero => exact if_neg (by omega)
    | succ lng => exact if_neg (by omega)
  have hwidth : readWidth 0 ((if w = 0 then [] else digitText 10 false w) ++ (List.replicate lng 0x6C ++ (c :: p))) =
      ((w : Int), List.replicate lng 0x6C ++ (c :: p)) := by
    by_cases hzero : w = 0
    · rw [if_pos hzero, List.nil_append]
      rw [hzero] at hend ⊢
      exact hend
    · rw [if_neg hzero, readWidth_text hw, hend]
  have hsht : readRun 0x68 0 (c :: p) = (0, c :: p) :=
    readRun_stop fun h => by
      have heq := Option.some.inj h
      omega
  simp only [readSpec, readPad_directive (show 0x3A ≤ c by omega), hwidth, readRun_letters hlng (show c ≠ 0x6C by omega),
    hsht, ite_self]

end Reading

section Text

variable {base u : Nat} {upper : Bool}

/-- The value of a digit character. -/
def undig (c : Nat) : Nat := if c < 0x3A then c - 0x30 else if c < 0x60 then c - 0x37 else c - 0x57

theorem undig_dig {d : Nat} (hd : d < 16) (upper : Bool) : undig (dig upper d) = d := by
  cases upper <;> interval_cases d <;> rfl

/-- The number that a text shows, signs and spaces aside. -/
def magnitude (base : Nat) (t : List Nat) : Nat :=
  Nat.ofDigits base ((t.reverse.filter fun c => 0x30 ≤ c).map undig)

theorem digitsOf_lt (hbase : 2 ≤ base) {d : Nat} (hd : d ∈ digitsOf base u) : d < base := by
  unfold digitsOf at hd
  split at hd
  · cases List.mem_singleton.mp hd
    omega
  · exact Nat.digits_lt_base (by omega) hd

theorem ofDigits_digitsOf (base u : Nat) : Nat.ofDigits base (digitsOf base u) = u := by
  unfold digitsOf
  split
  · rename_i hzero
    rw [hzero]
    exact Nat.ofDigits_singleton
  · exact Nat.ofDigits_digits base u

/-- Whatever padding and sign stand in front of it, the text of a number shows the number. -/
theorem magnitude_text {l : List Nat} (hbase : 2 ≤ base) (hle : base ≤ 16)
    (hl : ∀ c ∈ l, c = 0x20 ∨ c = 0x2D ∨ c = 0x30) : magnitude base (l ++ digitText base upper u) = u := by
  have hdigits : (((digitsOf base u).map (dig upper)).filter fun c => 0x30 ≤ c).map undig = digitsOf base u := by
    rw [List.filter_eq_self.mpr, List.map_map]
    · conv_rhs => rw [← List.map_id (digitsOf base u)]
      exact List.map_congr_left fun d hd => undig_dig (lt_of_lt_of_le (digitsOf_lt hbase hd) hle) upper
    · intro c hc
      obtain ⟨d, -, rfl⟩ := List.mem_map.mp hc
      unfold dig
      cases upper <;> simp <;> split <;> omega
  have hfront : ∃ n, (l.reverse.filter fun c => 0x30 ≤ c).map undig = List.replicate n 0 := by
    refine ⟨_, List.eq_replicate_of_mem fun x hx => ?_⟩
    obtain ⟨c, hc, rfl⟩ := List.mem_map.mp hx
    obtain ⟨hmem, hle⟩ := List.mem_filter.mp hc
    have hkind := hl c (List.mem_reverse.mp hmem)
    have hle : 0x30 ≤ c := of_decide_eq_true hle
    rw [show c = 0x30 by omega]
    rfl
  obtain ⟨n, hn⟩ := hfront
  unfold magnitude digitText
  rw [List.reverse_append, List.reverse_reverse, List.filter_append, List.map_append, hdigits, hn,
    Nat.ofDigits_append_replicate_zero, ofDigits_digitsOf]

/-- The text that an engine makes of a number. -/
def padded (zero : Bool) (width base : Nat) (upper : Bool) (n : Int) : List Nat :=
  (if n < 0 then [0x2D] else []) ++
    (List.replicate (width - (digitText base upper n.natAbs).length) (if zero then 0x30 else 0x20) ++
      digitText base upper n.natAbs)

variable {zero : Bool} {width : Nat} {n m : Int}

theorem putTmp_reverse {pad : Nat} :
    (putTmp u base upper width pad).reverse =
      List.replicate (width - (digitText base upper u).length) pad ++ digitText base upper u := by
  rw [digitText_length, digitText, putTmp, List.reverse_append, List.reverse_replicate, List.length_map,
    show ((width : Int) - ((digitsOf base u).length : Int)).toNat = width - (digitsOf base u).length by omega]

theorem Spec.signed_eq {lng c : Nat} {pad : Nat} {w : Int} (hc : isSigned c) (v : BitVec 64) :
    (⟨pad, w, lng, 0⟩ : Spec).signed v = argValue (if lng = 0 then 0 else 2) c v := by
  unfold Spec.signed argValue
  rw [if_pos hc]
  by_cases hlng : lng = 0 <;> simp [hlng]

theorem Spec.unsigned_eq {lng c : Nat} (pad : Nat) (w : Int) (hc : ¬ isSigned c) (v : BitVec 64) :
    ((⟨pad, w, lng, 0⟩ : Spec).unsigned v : Int) = argValue (if lng = 0 then 0 else 2) c v := by
  unfold Spec.unsigned argValue
  rw [if_neg hc]
  by_cases hlng : lng = 0 <;> simp [hlng]

theorem padded_nat : padded zero width base upper (u : Int) =
    List.replicate (width - (digitText base upper u).length) (if zero then 0x30 else 0x20) ++ digitText base upper u := by
  unfold padded
  rw [if_neg (by omega)]
  rfl

/-- What an engine prints of an argument. -/
theorem argText_padded (e : Engine) (lng : Nat) {c : Nat} (hc : isNumber c) (v : BitVec 64) :
    argText e ⟨if zero then 0x30 else 0x20, width, lng, 0⟩ c (.word v) =
      some (padded zero width (baseOf c) (c = 0x58) (argValue (if lng = 0 then 0 else 2) c v)) := by
  rw [isNumber_iff] at hc
  unfold argText baseOf
  rw [if_neg (by omega)]
  dsimp only
  rw [if_neg (show ¬ c = 0x63 by omega)]
  by_cases hd : c = 0x64 ∨ c = 0x69
  · have hsigned : isSigned c = true := decide_eq_true hd
    rw [if_pos hd, if_neg (show ¬ (c = 0x78 ∨ c = 0x58) by omega),
      show decide (c = 0x58) = false from decide_eq_false (by omega), putTmp_reverse, Spec.signed_eq hsigned]
    rfl
  have hunsigned : ¬ isSigned c := fun h => hd (of_decide_eq_true h)
  rw [if_neg hd, ← Spec.unsigned_eq 0 0 hunsigned, padded_nat]
  by_cases hu : c = 0x75
  · rw [if_pos hu, if_neg (show ¬ (c = 0x78 ∨ c = 0x58) by omega),
      show decide (c = 0x58) = false from decide_eq_false (by omega), putTmp_reverse]
    rfl
  · rw [if_neg hu, if_pos (show c = 0x78 ∨ c = 0x58 by omega), if_pos (show c = 0x78 ∨ c = 0x58 by omega),
      putTmp_reverse]
    rfl

theorem padded_number (hbase : 2 ≤ base) (hle : base ≤ 16) :
    magnitude base (padded zero width base upper n) = n.natAbs := by
  unfold padded
  rw [← List.append_assoc]
  refine magnitude_text hbase hle fun c hc => ?_
  rcases List.mem_append.mp hc with hsign | hpad
  · split at hsign
    · exact .inr (.inl (List.mem_singleton.mp hsign))
    · cases hsign
  · cases zero with
    | true => exact .inr (.inr (List.eq_of_mem_replicate hpad))
    | false => exact .inl (List.eq_of_mem_replicate hpad)

theorem standard_number (hbase : 2 ≤ base) (hle : base ≤ 16) :
    magnitude base (standard zero width base upper n) = n.natAbs := by
  have hsign : ∀ c ∈ (if n < 0 then [0x2D] else []), c = 0x2D := by
    intro c hc
    split at hc
    · exact List.mem_singleton.mp hc
    · cases hc
  unfold standard
  cases zero with
  | true =>
    rw [if_pos rfl, ← List.append_assoc]
    refine magnitude_text hbase hle fun c hc => ?_
    rcases List.mem_append.mp hc with hmem | hpad
    · exact .inr (.inl (hsign c hmem))
    · exact .inr (.inr (List.eq_of_mem_replicate hpad))
  | false =>
    rw [if_neg Bool.false_ne_true, ← List.append_assoc]
    refine magnitude_text hbase hle fun c hc => ?_
    rcases List.mem_append.mp hc with hpad | hmem
    · exact .inl (List.eq_of_mem_replicate hpad)
    · exact .inr (.inl (hsign c hmem))

theorem digitText_unsigned : 0x2D ∉ digitText base upper u := by
  intro h
  obtain ⟨d, -, hd⟩ := List.mem_map.mp (List.mem_reverse.mp h)
  unfold dig at hd
  cases upper <;> simp at hd <;> split at hd <;> omega

theorem padded_sign : 0x2D ∈ padded zero width base upper n ↔ n < 0 := by
  have hdigits : 0x2D ∉ digitText base upper n.natAbs := digitText_unsigned
  unfold padded
  by_cases hn : n < 0
  · simp [hn]
  · cases zero <;> simp [hn, hdigits]

theorem standard_sign : 0x2D ∈ standard zero width base upper n ↔ n < 0 := by
  have hdigits : 0x2D ∉ digitText base upper n.natAbs := digitText_unsigned
  unfold standard
  by_cases hn : n < 0
  · cases zero <;> simp [hn]
  · cases zero <;> simp [hn, hdigits]

/-- The two texts of one number. -/
theorem padded_self : padded zero width base upper n = standard zero width base upper n ↔
    ¬ (n < 0 ∧ (digitText base upper n.natAbs).length < width) := by
  unfold padded standard
  by_cases hn : n < 0
  · simp only [true_and, hn]
    by_cases hwidth : (digitText base upper n.natAbs).length < width
    · refine iff_of_false (fun h => ?_) (not_not_intro hwidth)
      have hlength := congrArg List.length h
      cases zero <;> simp at hlength <;> omega
    · refine iff_of_true ?_ hwidth
      rw [Nat.sub_eq_zero_of_le (by omega), Nat.sub_eq_zero_of_le (by omega)]
      cases zero <;> rfl
  · cases zero <;> simp [hn]

theorem padded_eq_iff (hbase : 2 ≤ base) (hle : base ≤ 16) :
    padded zero width base upper m = standard zero width base upper n ↔
      m = n ∧ ¬ (n < 0 ∧ (digitText base upper n.natAbs).length < width) := by
  constructor
  · intro h
    have hnumber : m.natAbs = n.natAbs := by
      rw [← @padded_number base upper zero width m hbase hle, h, standard_number hbase hle]
    have hsign : m < 0 ↔ n < 0 := by
      rw [← @padded_sign base upper zero width m, h, standard_sign]
    have heq : m = n := by omega
    rw [heq] at h
    exact ⟨heq, padded_self.mp h⟩
  · rintro ⟨rfl, hn⟩
    exact padded_self.mpr hn

end Text

section Standard

variable {zero : Bool} {width lng c : Nat} {v : BitVec 64} {e : Engine}

theorem baseOf_bounds (c : Nat) : 2 ≤ baseOf c ∧ baseOf c ≤ 16 := by
  unfold baseOf
  split <;> decide

/-- What the loop does with a directive. -/
theorem vfmtFrom_directive {cap : Nat} {out p : List Nat} {args : List Arg} (hwidth : width ≤ 32) (hlng : lng ≤ 2)
    (hc : isNumber c) (hroom : out.length < cap) :
    vfmtFrom e cap (directive zero width lng c ++ p) out (.word v :: args) =
      vfmtFrom e cap p
        (emit cap out (padded zero width (baseOf c) (c = 0x58) (argValue (if lng = 0 then 0 else 2) c v))) args := by
  have hspec := readSpec_directive (p := p) e (show width < 2 ^ 31 by omega) hlng hc zero
  have htakes : takesArg c = true := by
    unfold takesArg
    rw [decide_eq_true_iff]
    exact .inr (.inr (.inr hc))
  have hprint : convert e cap ⟨if zero then 0x30 else 0x20, width, lng, 0⟩ c out (.word v :: args) = _ :=
    convert_arg htakes fun _ => by
      dsimp only
      omega
  rw [argText_padded e lng hc v] at hprint
  have happend : directive zero width lng c ++ p = 0x25 :: ((if zero then [0x30] else []) ++
      ((if width = 0 then [] else digitText 10 false width) ++ (List.replicate lng 0x6C ++ (c :: p)))) := by
    simp [directive]
  rw [happend, vfmtFrom, if_neg (by omega), if_neg (not_not_intro rfl)]
  split
  · rename_i heq
    rw [hspec] at heq
    cases heq
  · rename_i heq
    rw [hspec] at heq
    cases heq
    rw [hspec, hprint]
    rfl

theorem printsStandard_iff_text (hwidth : width ≤ 32) (hlng : lng ≤ 2) (hc : isNumber c) :
    PrintsStandard e zero width lng c v ↔
      padded zero width (baseOf c) (c = 0x58) (argValue (if lng = 0 then 0 else 2) c v) =
        standard zero width (baseOf c) (c = 0x58) (argValue lng c v) := by
  constructor
  · intro h
    generalize htext : padded zero width (baseOf c) (c = 0x58) (argValue (if lng = 0 then 0 else 2) c v) = t
    generalize hstandard : standard zero width (baseOf c) (c = 0x58) (argValue lng c v) = t'
    have hprint := h (t.length + t'.length + 1) [] [] [] (Nat.succ_pos _)
    rw [vfmtFrom_directive hwidth hlng hc (Nat.succ_pos _), htext, hstandard,
      emit_of_le (by rw [List.length_nil]; omega), emit_of_le (by rw [List.length_nil]; omega)] at hprint
    simpa [vfmtFrom] using hprint
  · intro h cap out p args hroom
    rw [vfmtFrom_directive hwidth hlng hc hroom, h]

end Standard

/-- A conversion of a number prints the standard text exactly when the number is not a negative one with
fewer digits than the width, and, for `l`, the slot holds the number of 32 bits extended to 64. -/
theorem prints_standard_iff (e : Engine) (zero : Bool) {width lng c : Nat} (v : BitVec 64) (hwidth : width < 30)
    (hlng : lng ≤ 2) (hc : isNumber c) :
    PrintsStandard e zero width lng c v ↔
      (lng = 1 → argValue 2 c v = argValue 1 c v) ∧
        ¬ (argValue lng c v < 0 ∧ (digitsOf (baseOf c) (argValue lng c v).natAbs).length < width) := by
  obtain ⟨hbase, hle⟩ := baseOf_bounds c
  rw [printsStandard_iff_text (by omega) hlng hc, padded_eq_iff hbase hle, digitText_length]
  refine and_congr_left' ?_
  interval_cases lng
  · exact iff_of_true rfl nofun
  · exact ⟨fun h _ => h, fun h => h rfl⟩
  · exact iff_of_true rfl nofun

theorem prints_standard_seven :
    PrintsStandard narrow true 5 0 0x64 (-12345 : BitVec 64) ∧ PrintsStandard wide false 8 2 0x58 (-1 : BitVec 64) :=
  ⟨(prints_standard_iff narrow true _ (by decide) (by decide) rfl).mpr ⟨nofun, by decide +kernel⟩,
    (prints_standard_iff wide false _ (by decide) (by decide) rfl).mpr ⟨nofun, by decide +kernel⟩⟩

/-- `%5d` of -3, in six characters with the sign first, and `%ld` of a slot with -1 in its low half. -/
theorem prints_sign_first :
    ¬ PrintsStandard narrow false 5 0 0x64 (-3 : BitVec 64) ∧ ¬ PrintsStandard wide false 0 1 0x64 0xFFFFFFFF := by
  rw [printsStandard_iff_text (by decide) (by decide) rfl, printsStandard_iff_text (by decide) (by decide) rfl]
  exact ⟨by decide +kernel, by decide +kernel⟩

end MeuOS.Ucrt
