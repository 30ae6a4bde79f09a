import MeuOS.Ucrt.Conversions
import MeuOS.Ucrt.Scan
import MeuOS.Ucrt.StreamRuns

/-! Numbers printed and read back: by the scanner of the console, by the one of wide text, and by
`wcstol` from what `_itow_s` leaves. -/
namespace MeuOS.Ucrt

open MeuOS.Lib

section Digits

variable {base u : Nat} {upper : Bool}

/-- The number that digits make, the highest first. -/
def horner (base : Nat) (v : Nat) (ds : List Nat) : Nat := ds.foldl (fun v d => v * base + d) v

theorem horner_reverse (base : Nat) (ds : List Nat) : horner base 0 ds.reverse = Nat.ofDigits base ds := by
  rw [horner, List.foldl_reverse, Nat.ofDigits_eq_foldr]
  congr 1
  funext d v
  rw [Nat.mul_comm, Nat.add_comm]
  rfl

/-- The characters of a number are digits to both scanners. -/
theorem digitIn_dig {d : Nat} (hbase : base = 10 ∨ base = 16) (hd : d < base) : digitIn base (dig false d : Nat) = some d := by
  rcases hbase with rfl | rfl <;> interval_cases d <;> rfl

theorem digitText_chars (hbase : base = 10 ∨ base = 16) :
    (digitText base false u).map (fun c => digitIn base (c : Nat)) = (digitsOf base u).reverse.map some := by
  unfold digitText
  rw [List.map_reverse, List.map_map, ← List.map_reverse]
  refine List.map_congr_left fun d hd => digitIn_dig hbase ?_
  exact digitsOf_lt (by omega) (List.mem_reverse.mp hd)

theorem digitText_ne_nil (base : Nat) (upper : Bool) (u : Nat) : digitText base upper u ≠ [] := by
  intro h
  have hlength := congrArg List.length h
  rw [digitText_length] at hlength
  unfold digitsOf at hlength
  split at hlength
  · cases hlength
  · rename_i hu
    exact hu (Nat.digits_eq_nil_iff_eq_zero.mp (List.length_eq_zero_iff.mp hlength))

end Digits

section Console

variable {base : Nat}

theorem scanDigits_step {val : BitVec 64} {got : Bool} {c : Int} {s : Console} {d : Nat} (h : digitIn base c = some d) :
    scanDigits base val got c s = (ucrtSgetc s).bind fun r =>
      scanDigits base (val * BitVec.ofNat 64 base + BitVec.ofNat 64 d) true r.1 r.2 := by
  conv_lhs => unfold scanDigits
  rw [h]
  dsimp only
  split <;> rename_i hget <;> rw [hget] <;> rfl

/-- The scanner of the console eats digits up to the first other character. -/
theorem scanDigits_run {cs ds : List Nat} (val : Nat) (got : Bool) {s : Console} {t : Nat} {rest : List Nat}
    (hs : s.Ok) (hcs : cs.map (fun c => digitIn base (c : Nat)) = ds.map some) (ht : digitIn base (t : Nat) = none)
    (hcontent : s.content = cs ++ t :: rest) :
    (ucrtSgetc s).bind (fun r => scanDigits base (BitVec.ofNat 64 val) got r.1 r.2) =
      some (BitVec.ofNat 64 (horner base val ds), got || !cs.isEmpty, (t : Int), ⟨-1, rest⟩) := by
  induction cs generalizing ds val got s with
  | nil =>
    cases ds with
    | cons d ds => cases hcs
    | nil =>
      rw [ucrtSgetc_eq hs, hcontent]
      simp only [List.nil_append, Option.bind_some]
      unfold scanDigits
      rw [ht]
      simp [horner]
  | cons c cs ih =>
    cases ds with
    | nil => cases hcs
    | cons d ds =>
      rw [List.map_cons, List.map_cons, List.cons.injEq] at hcs
      rw [ucrtSgetc_eq hs, hcontent]
      have hnext : (⟨-1, cs ++ t :: rest⟩ : Console).Ok := Int.le_refl _
      have hrest : _ = some (BitVec.ofNat 64 (horner base (val * base + d) ds), _) :=
        @ih ds (val * base + d) true _ hnext hcs.2 rfl
      rw [BitVec.ofNat_add, BitVec.ofNat_mul] at hrest
      simp only [List.cons_append, Option.bind_some]
      rw [scanDigits_step hcs.1, hrest]
      simp [horner]

variable {conv t : Nat} {rest : List Nat} {n : Int}

theorem padded_zero {upper : Bool} : padded false 0 base upper n =
    (if n < 0 then [0x2D] else []) ++ digitText base upper n.natAbs := by
  unfold padded
  rw [Nat.zero_sub]
  rfl

theorem digitIn_not_ws {c : Int} {d : Nat} (h : digitIn base c = some d) : ucrtIsWs c = false ∧ c ≠ 0x2B ∧ c ≠ 0x2D := by
  have hlow : 0x30 ≤ c := by
    unfold digitIn at h
    split at h
    · omega
    · split at h
      · omega
      · split at h
        · omega
        · cases h
  exact ⟨decide_eq_false (by omega), by omega, by omega⟩

theorem skipWs_stop {s s' : Console} {c : Int} (hget : ucrtSgetc s = some (c, s')) (hc : ucrtIsWs c = false) :
    skipWs s = some (c, s') := by
  unfold skipWs
  split
  · rename_i hnone
    rw [hget] at hnone
    cases hnone
  · rename_i hsome
    rw [hget] at hsome
    cases hsome
    rw [if_neg (by rw [hc]; exact Bool.false_ne_true)]

/-- The scanner of the console on digits, after a sign or without one. -/
theorem scanDigits_text {s : Console} {u : Nat} (hbase : base = 10 ∨ base = 16) (hs : s.Ok)
    (ht : digitIn base (t : Nat) = none) (hcontent : s.content = digitText base false u ++ t :: rest) :
    ∃ c s', ucrtSgetc s = some (c, s') ∧ s'.Ok ∧ (∃ d, digitIn base c = some d) ∧
      scanDigits base 0 false c s' = some (BitVec.ofNat 64 u, true, (t : Int), ⟨-1, rest⟩) := by
  have hchars := digitText_chars (u := u) hbase
  have hscan := scanDigits_run 0 false hs hchars ht hcontent
  rw [horner_reverse, ofDigits_digitsOf] at hscan
  obtain ⟨c, cs, hcs⟩ := List.exists_cons_of_ne_nil (digitText_ne_nil base false u)
  rw [hcs, List.cons_append] at hcontent
  have hget : ucrtSgetc s = some ((c : Int), ⟨-1, cs ++ t :: rest⟩) := by
    rw [ucrtSgetc_eq hs, hcontent]
  rw [hget, hcs] at hscan
  have hfirst : some (digitIn base (c : Nat)) = ((digitsOf base u).reverse.map some).head? := by
    rw [← hchars, hcs]
    rfl
  refine ⟨c, _, hget, Int.le_refl _, ?_, hscan⟩
  cases hds : (digitsOf base u).reverse with
  | nil =>
    rw [hds] at hfirst
    cases hfirst
  | cons d ds =>
    rw [hds] at hfirst
    exact ⟨d, Option.some.inj hfirst⟩

/-- A number in front of a character that is no digit is scanned whole, and that character is left. -/
theorem scanConv_number {s : Console} (lng : Int) (dst : Nat) (args : List Nat)
    (hconv : conv = 0x64 ∨ conv = 0x75 ∨ conv = 0x78) (hn : n < 0 → conv = 0x64) (hs : s.Ok)
    (ht : digitIn (baseOf conv) (t : Nat) = none)
    (hcontent : s.content = padded false 0 (baseOf conv) false n ++ t :: rest) :
    scanConv ⟨false, 0, lng⟩ conv (dst :: args) s =
      some ⟨true, 1, [⟨dst, bytesOf (if lng = 0 then 4 else 8) (BitVec.ofInt 64 n)⟩], args, ⟨t, rest⟩⟩ := by
  have hbase : baseOf conv = 10 ∨ baseOf conv = 16 := by
    unfold baseOf
    split
    · exact .inr rfl
    · exact .inl rfl
  have hscanBase : (if conv = 0x78 ∨ conv = 0x58 then 16 else 10) = baseOf conv := rfl
  rw [padded_zero] at hcontent
  unfold scanConv
  rw [if_neg (by omega), if_neg (by omega), if_pos (by omega)]
  by_cases hneg : n < 0
  · rw [if_pos hneg] at hcontent
    have hget : ucrtSgetc s = some (0x2D, ⟨-1, digitText (baseOf conv) false n.natAbs ++ t :: rest⟩) := by
      rw [ucrtSgetc_eq hs, hcontent]
      rfl
    obtain ⟨c, s', hdigit, -, -, hscan⟩ := scanDigits_text
      (s := ⟨-1, digitText (baseOf conv) false n.natAbs ++ t :: rest⟩) hbase (Int.le_refl _) ht rfl
    have hsign : scanSign 0x2D ⟨-1, digitText (baseOf conv) false n.natAbs ++ t :: rest⟩ = some (c, s') := hdigit
    rw [skipWs_stop hget rfl]
    simp only [Option.bind_eq_bind, Option.bind_some, hsign, hscanBase, hscan]
    rw [if_pos (show (conv = 0x64 ∨ conv = 0x69) ∧ True from ⟨.inl (hn hneg), trivial⟩)]
    have hvalue : -BitVec.ofNat 64 n.natAbs = BitVec.ofInt 64 n := by
      rw [← BitVec.ofInt_natCast, ← BitVec.ofInt_neg, show -(n.natAbs : Int) = n by omega]
    rw [hvalue]
    rfl
  · rw [if_neg hneg, List.nil_append] at hcontent
    obtain ⟨c, s', hget, -, ⟨d, hd⟩, hscan⟩ := scanDigits_text hbase hs ht hcontent
    obtain ⟨hws, hplus, hminus⟩ := digitIn_not_ws hd
    have hsign : scanSign c s' = some (c, s') := if_neg (by omega)
    rw [skipWs_stop hget hws]
    simp only [Option.bind_eq_bind, Option.bind_some, hsign, hscanBase, hscan]
    rw [if_neg (show ¬ ((conv = 0x64 ∨ conv = 0x69) ∧ c = 0x2D) from fun h => hminus h.2)]
    have hvalue : BitVec.ofNat 64 n.natAbs = BitVec.ofInt 64 n := by
      rw [← BitVec.ofInt_natCast, show (n.natAbs : Int) = n by omega]
    rw [hvalue]
    rfl

end Console

/-! ## Printed and scanned -/

/-- What a number prints as, scanned from the console in front of a character that is no digit, comes back
in the four bytes of an int, and that character is left. -/
def ConsoleTrip (lng c : Nat) (slot : BitVec 64) : Prop :=
  ∀ cap dst (s : Console) (t : Nat) rest, 32 ≤ cap → s.Ok → digitIn (baseOf c) t = none →
    ∃ text, ucrtVfmt cap (directive false 0 lng c) [.word slot] = some (text, []) ∧
      (s.content = text ++ t :: rest → ∃ s',
        stdioCommonVfscanf (directive false 0 lng c) [dst] s = some (1, [⟨dst, bytesOf 4 slot⟩], s') ∧
          s'.content = t :: rest)

/-- The same from a wide text, with anything behind that does not begin with a digit. -/
def WideTrip (lng c : Nat) (slot : BitVec 64) : Prop :=
  ∀ cap dst (rest : List Nat), 32 ≤ cap → (∀ t ∈ rest.head?, digitIn (baseOf c) (t : Nat) = none) →
    ∃ text, ucrtVfmtw cap (directive false 0 lng c) [.word slot] = some (text, []) ∧
      stdioCommonVswscanf (text ++ rest) (directive false 0 lng c) [dst] = some (1, [⟨dst, bytesOf 4 slot⟩], rest)

section Trips

variable {lng c : Nat} {slot : BitVec 64}

theorem argValue_lt (lng c : Nat) (v : BitVec 64) : (argValue lng c v).natAbs < 2 ^ 64 := by
  have hlow := (v.setWidth 32).isLt
  have hlowInt := BitVec.toInt_eq_toNat_cond (v.setWidth 32)
  have hint := BitVec.toInt_eq_toNat_cond v
  have hslot := v.isLt
  unfold argValue
  split_ifs <;> split_ifs at hlowInt hint <;> omega

theorem print_number (e : Engine) {cap : Nat} (hcap : 32 ≤ cap) (hlng : lng ≤ 2) (hc : isNumber c) :
    vfmt e cap (directive false 0 lng c) [.word slot] =
      some (padded false 0 (baseOf c) (c = 0x58) (argValue (if lng = 0 then 0 else 2) c slot), []) := by
  have hprint : vfmtFrom e cap (directive false 0 lng c ++ []) [] (.word slot :: []) = _ :=
    vfmtFrom_directive (by decide) hlng hc (show ([] : List Nat).length < cap from Nat.lt_of_lt_of_le (by decide) hcap)
  have hbase : 10 ≤ baseOf c := by
    unfold baseOf
    split <;> decide
  have hvalue := argValue_lt (if lng = 0 then 0 else 2) c slot
  generalize argValue (if lng = 0 then 0 else 2) c slot = n at hprint hvalue ⊢
  have hdigits := digitsOf_length hbase hvalue
  have hlength : (padded false 0 (baseOf c) (c = 0x58) n).length ≤ 21 := by
    rw [padded_zero, List.length_append, digitText_length]
    split
    · rw [List.length_singleton]
      omega
    · rw [List.length_nil]
      omega
  rw [List.append_nil, emit_of_le (by rw [List.length_nil]; omega), List.nil_append] at hprint
  rw [vfmt, hprint, vfmtFrom]

/-- The low half of a slot is what an int has. -/
theorem bytesOf_four {v w : BitVec 64} (h : v.toNat % 2 ^ 32 = w.toNat % 2 ^ 32) : bytesOf 4 v = bytesOf 4 w := by
  have hbyte : ∀ a i, i < 4 → a / 256 ^ i % 256 = a % 2 ^ 32 / 256 ^ i % 256 := by
    intro a i hi
    interval_cases i <;> omega
  unfold bytesOf
  refine List.map_congr_left fun i hi => ?_
  rw [hbyte _ i (List.mem_range.mp hi), hbyte w.toNat i (List.mem_range.mp hi), h]

theorem argValue_bytes (lng c : Nat) (slot : BitVec 64) :
    bytesOf 4 (BitVec.ofInt 64 (argValue lng c slot)) = bytesOf 4 slot := by
  refine bytesOf_four ?_
  have hlow : (slot.setWidth 32).toNat = slot.toNat % 2 ^ 32 := BitVec.toNat_setWidth _ _
  have hlowInt := BitVec.toInt_eq_toNat_cond (slot.setWidth 32)
  have hint := BitVec.toInt_eq_toNat_cond slot
  have hslot := slot.isLt
  rw [BitVec.toNat_ofInt]
  unfold argValue
  split_ifs <;> split_ifs at hlowInt hint <;> omega

/-- A directive without a width, to the scanner of the console. -/
theorem scan_directive {dst : Nat} {s : Console} {w : Write} {s' : Console} (hlng : lng ≤ 1) (hc : isNumber c)
    (hconv : scanConv ⟨false, 0, lng⟩ c [dst] s = some ⟨true, 1, [w], [], s'⟩) :
    stdioCommonVfscanf (directive false 0 lng c) [dst] s = some (1, [w], s') := by
  have hkind := isNumber_iff.mp hc
  have hspec : readScanSpec (List.replicate lng 0x6C ++ [c]) = (⟨false, 0, lng⟩, [c]) := by
    have hstar : c ≠ 0x2A := by omega
    have hdigit : ¬ (0x30 ≤ c ∧ c ≤ 0x39) := by omega
    have hletter : ¬ (c = 0x6C ∨ c = 0x68) := by omega
    interval_cases lng <;> simp [readScanSpec, readSuppress, readWidth, readLetters, hstar, hdigit, hletter, wrap32]
  have hdirective : directive false 0 lng c = 0x25 :: (List.replicate lng 0x6C ++ [c]) := rfl
  unfold stdioCommonVfscanf
  rw [hdirective, vfscanfFrom, if_neg (by decide), if_neg (by decide)]
  split
  · rename_i heq
    rw [hspec] at heq
    cases heq
  · rename_i heq
    rw [hspec] at heq
    cases heq
    rw [hspec, hconv]
    simp [vfscanfFrom]

/-- Only `%d` has a negative number. -/
theorem argValue_neg {k : Nat} (hc : c = 0x64 ∨ c = 0x75 ∨ c = 0x78) (h : argValue k c slot < 0) : c = 0x64 := by
  by_contra hd
  have hunsigned : ¬ isSigned c := fun hs => by
    have hsigned : c = 0x64 ∨ c = 0x69 := of_decide_eq_true hs
    omega
  unfold argValue at h
  rw [if_neg hunsigned] at h
  split at h <;> omega

theorem console_scan (dst : Nat) {t : Nat} {rest : List Nat} {s : Console} (hlng : lng ≤ 1)
    (hc : c = 0x64 ∨ c = 0x75 ∨ c = 0x78) (hs : s.Ok) (ht : digitIn (baseOf c) (t : Nat) = none)
    (hcontent : s.content = padded false 0 (baseOf c) (c = 0x58) (argValue (if lng = 0 then 0 else 2) c slot) ++ t :: rest) :
    stdioCommonVfscanf (directive false 0 lng c) [dst] s =
      some (1, [⟨dst, bytesOf (if lng = 0 then 4 else 8) (BitVec.ofInt 64 (argValue (if lng = 0 then 0 else 2) c slot))⟩],
        ⟨t, rest⟩) := by
  have hlower : decide (c = 0x58) = false := decide_eq_false (by omega)
  have hneg : argValue (if lng = 0 then 0 else 2) c slot < 0 → c = 0x64 := argValue_neg hc
  have hcast : (if (lng : Int) = 0 then 4 else 8) = if lng = 0 then 4 else 8 := by
    by_cases hl : lng = 0 <;> simp [hl]
  rw [hlower] at hcontent
  have hconv := scanConv_number lng dst [] hc hneg hs ht hcontent
  rw [hcast] at hconv
  exact scan_directive hlng (isNumber_iff.mpr (by omega)) hconv

theorem consoleTrip_int (hc : c = 0x64 ∨ c = 0x75 ∨ c = 0x78) : ConsoleTrip 0 c slot := by
  intro cap dst s t rest hcap hs ht
  refine ⟨_, print_number narrow hcap (by decide) (isNumber_iff.mpr (by omega)), fun hcontent => ?_⟩
  have hscan := console_scan dst (by decide) hc hs ht hcontent
  rw [if_pos rfl, if_pos rfl, argValue_bytes] at hscan
  exact ⟨_, hscan, if_pos (Int.natCast_nonneg t)⟩

/-- `%ld` stores eight bytes. -/
theorem not_consoleTrip_long : ¬ ConsoleTrip 1 0x64 slot := by
  intro h
  obtain ⟨text, hprint, hscan⟩ := h 32 0 ⟨-1, padded false 0 10 false (argValue 2 0x64 slot) ++ [0x20]⟩ 0x20 []
    (Nat.le_refl _) (Int.le_refl _) rfl
  have hlong : ucrtVfmt 32 (directive false 0 1 0x64) [.word slot] =
      some (padded false 0 10 false (argValue 2 0x64 slot), []) :=
    print_number narrow (Nat.le_refl _) (by decide) rfl
  rw [hlong] at hprint
  cases hprint
  obtain ⟨s', hint, -⟩ := hscan rfl
  have height := @console_scan 1 0x64 slot 0 0x20 [] ⟨-1, padded false 0 10 false (argValue 2 0x64 slot) ++ [0x20]⟩
    (Nat.le_refl _) (.inl rfl) (Int.le_refl _) rfl rfl
  rw [height] at hint
  have hbytes := congrArg (fun r => r.map fun r => r.2.1.map fun w => w.bytes.length) hint
  simp [bytesOf] at hbytes

theorem wideDigits_run {base : Nat} {cs ds : List Nat} (val : Nat) {rest : List Nat}
    (hcs : cs.map (fun c => digitIn base (c : Nat)) = ds.map some) (hrest : ∀ t ∈ rest.head?, digitIn base (t : Nat) = none) :
    wideDigits base (BitVec.ofNat 64 val) (cs ++ rest) = (BitVec.ofNat 64 (horner base val ds), rest) := by
  induction cs generalizing ds val with
  | nil =>
    cases ds with
    | cons d ds => cases hcs
    | nil =>
      cases rest with
      | nil => rfl
      | cons t rest =>
        rw [List.nil_append, wideDigits, hrest t rfl]
        rfl
  | cons c cs ih =>
    cases ds with
    | nil => cases hcs
    | cons d ds =>
      rw [List.map_cons, List.map_cons, List.cons.injEq] at hcs
      have hnext := ih (val * base + d) hcs.2
      rw [BitVec.ofNat_add, BitVec.ofNat_mul] at hnext
      rw [List.cons_append, wideDigits, hcs.1]
      exact hnext

theorem wideDigits_text {base u : Nat} {rest : List Nat} (hbase : base = 10 ∨ base = 16)
    (hrest : ∀ t ∈ rest.head?, digitIn base (t : Nat) = none) :
    wideDigits base 0#64 (digitText base false u ++ rest) = (BitVec.ofNat 64 u, rest) := by
  have hrun := wideDigits_run 0 (digitText_chars (u := u) hbase) hrest
  rwa [horner_reverse, ofDigits_digitsOf] at hrun

/-- A number's text begins with a digit. -/
theorem digitText_first {base : Nat} (u : Nat) (rest : List Nat) (hbase : base = 10 ∨ base = 16) :
    ∃ c cs d, digitText base false u ++ rest = c :: cs ∧ digitIn base (c : Nat) = some d := by
  have hchars := digitText_chars (u := u) hbase
  obtain ⟨c, cs, hcs⟩ := List.exists_cons_of_ne_nil (digitText_ne_nil base false u)
  rw [hcs] at hchars
  cases hds : (digitsOf base u).reverse with
  | nil =>
    rw [hds] at hchars
    cases hchars
  | cons d ds =>
    rw [hds, List.map_cons, List.map_cons, List.cons.injEq] at hchars
    exact ⟨c, cs ++ rest, d, by rw [hcs, List.cons_append], hchars.1⟩

theorem wideConv_number {n : Int} (dst : Nat) {rest : List Nat} (hc : c = 0x64 ∨ c = 0x75 ∨ c = 0x78)
    (hn : n < 0 → c = 0x64) (hrest : ∀ t ∈ rest.head?, digitIn (baseOf c) (t : Nat) = none) :
    wideConv c [dst] (skipBlank (padded false 0 (baseOf c) false n ++ rest)) =
      some ⟨true, [⟨dst, bytesOf 4 (BitVec.ofInt 64 n)⟩], [], rest⟩ := by
  have hbase : baseOf c = 10 ∨ baseOf c = 16 := by
    unfold baseOf
    split
    · exact .inr rfl
    · exact .inl rfl
  obtain ⟨f, cs, d, hfirst, hd⟩ := digitText_first n.natAbs rest hbase
  obtain ⟨hws, -, hminus⟩ := digitIn_not_ws hd
  have hdigits := wideDigits_text (u := n.natAbs) hbase hrest
  rw [hfirst] at hdigits
  rw [padded_zero, List.append_assoc, hfirst]
  by_cases hneg : n < 0
  · have hten : baseOf c = 10 := by
      rw [hn hneg]
      rfl
    rw [hten] at hd hdigits
    have hvalue : -BitVec.ofNat 64 n.natAbs = BitVec.ofInt 64 n := by
      rw [← BitVec.ofInt_natCast, ← BitVec.ofInt_neg, show -(n.natAbs : Int) = n by omega]
    rw [if_pos hneg, hn hneg]
    simp [wideConv, skipBlank, isBlank, hd, hdigits, hvalue, wideStore]
  · have hblank : isBlank f = false := by
      have hnot : ¬ _ := of_decide_eq_false hws
      exact decide_eq_false (by omega)
    have hvalue : BitVec.ofNat 64 n.natAbs = BitVec.ofInt 64 n := by
      rw [← BitVec.ofInt_natCast, show (n.natAbs : Int) = n by omega]
    rw [if_neg hneg, List.nil_append, skipBlank, hblank]
    have hf : f ≠ 0x2D := fun h => hminus (by rw [h]; rfl)
    rcases hc with rfl | rfl | rfl
    · have hd : digitIn 10 f = some d := hd
      have hdigits : wideDigits 10 0#64 (f :: cs) = _ := hdigits
      simp [wideConv, hd, hdigits, hvalue, wideStore, hf]
    · have hd : digitIn 10 f = some d := hd
      have hdigits : wideDigits 10 0#64 (f :: cs) = _ := hdigits
      simp [wideConv, hd, hdigits, hvalue, wideStore, hf]
    · have hd : digitIn 16 f = some d := hd
      have hdigits : wideDigits 16 0#64 (f :: cs) = _ := hdigits
      simp [wideConv, hd, hdigits, hvalue, wideStore]

theorem wideTrip_int (hlng : lng ≤ 1) (hc : c = 0x64 ∨ c = 0x75 ∨ c = 0x78) : WideTrip lng c slot := by
  intro cap dst rest hcap hrest
  have hlower : decide (c = 0x58) = false := decide_eq_false (by omega)
  have hneg : argValue (if lng = 0 then 0 else 2) c slot < 0 → c = 0x64 := argValue_neg hc
  refine ⟨_, print_number wide hcap (by omega) (isNumber_iff.mpr (by omega)), ?_⟩
  have hconv := wideConv_number dst hc hneg hrest
  have hmodifiers : skipModifiers (List.replicate lng 0x6C ++ [c]) = [c] := by
    have hdigit : ¬ (0x30 ≤ c ∧ c ≤ 0x39) := by omega
    have hletter : ¬ (c = 0x6C ∨ c = 0x68) := by omega
    interval_cases lng <;> simp [skipModifiers, hdigit, hletter]
  have hdirective : directive false 0 lng c = 0x25 :: (List.replicate lng 0x6C ++ [c]) := rfl
  unfold stdioCommonVswscanf
  rw [hlower, hdirective, vswscanfFrom, if_neg (by decide), if_neg (by decide)]
  split
  · rename_i heq
    rw [hmodifiers] at heq
    cases heq
  · rename_i heq
    rw [hmodifiers] at heq
    cases heq
    rw [hconv, argValue_bytes]
    simp [vswscanfFrom]

end Trips

/-! ## `_itow_s` and `wcstol` -/

/-- `wcstol` reads back what `_itow_s` leaves in a buffer with room enough, and stops at its end. -/
def CstolTrip (val : BitVec 32) (radix : Nat) : Prop :=
  ∀ (d : Nat → UInt16) (n : UInt64), 12 ≤ n.toNat →
    ∃ text, content (itowS d n val radix).2.cells n.toNat = some text ∧
      wcstol (some text) radix = (val.toInt, some [])

section Wcstol

variable {val : BitVec 32} {radix : Nat} {ds : List Nat}

theorem wcstolDigit_radixDigit {k : Nat} (hk : k < 10) : wcstolDigit (radixDigit k) = some (k : Int) := by
  interval_cases k <;> rfl

/-- The loop stops in front of the first digit that the radix has not. -/
theorem wcstolLoop_end (v : Int) (hds : ∀ d ∈ ds, d < 10) :
    (wcstolLoop radix v (ds.map radixDigit)).2 = [] ↔ ∀ d ∈ ds, d < radix := by
  induction ds generalizing v with
  | nil => exact iff_of_true rfl nofun
  | cons d ds ih =>
    rw [List.forall_mem_cons] at hds ⊢
    rw [List.map_cons, wcstolLoop, wcstolDigit_radixDigit hds.1]
    by_cases hd : d < radix
    · dsimp only
      rw [if_neg (by omega), ih _ hds.2]
      exact (and_iff_right hd).symm
    · dsimp only
      rw [if_pos (by omega)]
      exact iff_of_false (List.cons_ne_nil _ _) fun h => hd h.1

theorem wrap32_step (v : Nat) (r d : Nat) : wrap32 (wrap32 v * r + d) = wrap32 ((v * r + d : Nat) : Int) := by
  have hdvd : ∃ k : Int, wrap32 v = v + 2 ^ 32 * k := by
    unfold wrap32
    exact ⟨-(((v : Int) + 2 ^ 31) / 2 ^ 32), by omega⟩
  obtain ⟨k, hk⟩ := hdvd
  have hshift : wrap32 v * r + d = ((v * r + d : Nat) : Int) + 2 ^ 32 * (k * r) := by
    rw [hk]
    push_cast
    ring
  rw [hshift]
  unfold wrap32
  omega

theorem wcstolLoop_value (v : Nat) (hds : ∀ d ∈ ds, d < 10) (hradix : ∀ d ∈ ds, d < radix) :
    (wcstolLoop radix (wrap32 v) (ds.map radixDigit)).1 = wrap32 (horner radix v ds : Nat) := by
  induction ds generalizing v with
  | nil => rfl
  | cons d ds ih =>
    rw [List.forall_mem_cons] at hds hradix
    rw [List.map_cons, wcstolLoop, wcstolDigit_radixDigit hds.1]
    dsimp only
    rw [if_neg (by omega), wrap32_step, ih _ hds.2 hradix.2]
    rfl

theorem itowMagnitude_cases (val : BitVec 32) :
    (val.slt 0 = true ∧ val.toInt < 0 ∧ (itowMagnitude val : Int) = -val.toInt) ∨
      (val.slt 0 = false ∧ 0 ≤ val.toInt ∧ (itowMagnitude val : Int) = val.toInt) := by
  have hint := BitVec.toInt_eq_toNat_cond val
  have hlt := val.isLt
  have hslt : val.slt 0 = decide (val.toInt < 0) := rfl
  unfold itowMagnitude
  by_cases hneg : val.toInt < 0
  · left
    have hsign : val.slt 0 = true := by rw [hslt, decide_eq_true hneg]
    refine ⟨hsign, hneg, ?_⟩
    rw [if_pos hsign, BitVec.toNat_neg]
    split at hint <;> omega
  · right
    have hsign : val.slt 0 = false := by rw [hslt, decide_eq_false hneg]
    refine ⟨hsign, by omega, ?_⟩
    rw [if_neg (by rw [hsign]; exact Bool.false_ne_true)]
    split at hint <;> omega

/-- `wcstol` on the decimal text of a number. -/
theorem wcstol_text (hradix : 2 ≤ radix) : wcstol (some (radixText val 10)) radix =
    (wrap32 ((wcstolLoop radix 0 ((digitsOf 10 (itowMagnitude val)).reverse.map radixDigit)).1 *
        if val.slt 0 then -1 else 1),
      some (wcstolLoop radix 0 ((digitsOf 10 (itowMagnitude val)).reverse.map radixDigit)).2) := by
  have hbase : radix ≠ 0 := by omega
  have hne : (digitsOf 10 (itowMagnitude val)).reverse ≠ [] := by
    intro h
    refine digitText_ne_nil 10 false (itowMagnitude val) ?_
    rw [digitText, ← List.map_reverse, h]
    rfl
  obtain ⟨k, ks, hks⟩ := List.exists_cons_of_ne_nil hne
  have hk : k < 10 := digitsOf_lt (by decide) (List.mem_reverse.mp (by rw [hks]; exact List.mem_cons_self))
  have hfirst : radixDigit k ≠ 0x20 ∧ radixDigit k ≠ 0x2D ∧ radixDigit k ≠ 0x2B := by
    interval_cases k <;> decide
  unfold wcstol radixText
  rw [hks, List.map_cons]
  cases val.slt 0 <;> simp [hfirst, hbase]

/-- The text of a number fits in a buffer of twelve. -/
theorem radixText_length (val : BitVec 32) : (radixText val 10).length ≤ 11 := by
  have hmagnitude : itowMagnitude val < 10 ^ 10 := by
    unfold itowMagnitude
    split
    · exact lt_trans (-val).isLt (by decide)
    · exact lt_trans val.isLt (by decide)
  have hdigits : (digitsOf 10 (itowMagnitude val)).length ≤ 10 := by
    unfold digitsOf
    split
    · decide
    · rw [Nat.digits_length_le_iff (by decide)]
      exact hmagnitude
  unfold radixText
  rw [List.length_append, List.length_map, List.length_reverse]
  split
  · rw [List.length_singleton]
    omega
  · rw [List.length_nil]
    omega

theorem wnlen_eq {d : Nat → UInt16} {m k l : Nat} (hpast : ∀ i < m, d (l + i) ≠ 0) (hend : d (l + m) = 0) (hk : m < k) :
    wnlen d k l = l + m := by
  induction m generalizing k l with
  | zero =>
    obtain ⟨k, rfl⟩ := Nat.exists_eq_succ_of_ne_zero (show k ≠ 0 by omega)
    exact if_pos hend
  | succ m ih =>
    obtain ⟨k, rfl⟩ := Nat.exists_eq_succ_of_ne_zero (show k ≠ 0 by omega)
    have hrest := ih (k := k) (l := l + 1) (fun i hi => by
      rw [show l + 1 + i = l + (i + 1) by omega]
      exact hpast (i + 1) (by omega)) (by rwa [show l + 1 + m = l + (m + 1) by omega]) (by omega)
    have hhere : d l ≠ 0 := hpast 0 (Nat.succ_pos m)
    rw [wnlen, if_neg hhere, hrest]
    omega

theorem content_eq {d : Nat → UInt16} {t : List UInt16} {n : Nat} (ht : 0 ∉ t) (hn : t.length < n)
    (hd : ∀ i ≤ t.length, d i = t.getD i 0) : content d n = some t := by
  have hlength : wnlen d n 0 = t.length := by
    have hwnlen := wnlen_eq (d := d) (m := t.length) (k := n) (l := 0) (fun i hi => by
      rw [Nat.zero_add, hd i (by omega), List.getD_eq_getElem _ _ hi]
      exact fun hzero => ht (by rw [← hzero]; exact List.getElem_mem hi))
      (by rw [Nat.zero_add, hd _ (Nat.le_refl _), List.getD_eq_default _ _ (Nat.le_refl _)]) hn
    rwa [Nat.zero_add] at hwnlen
  unfold content
  rw [hlength, if_pos hn]
  refine congrArg some (List.ext_getElem (by rw [List.length_map, List.length_range]) fun i hi hi' => ?_)
  rw [List.getElem_map, List.getElem_range, hd i (by omega), List.getD_eq_getElem _ _ hi']

/-- What `_itow_s` leaves, whatever the radix. -/
theorem itowS_content (d : Nat → UInt16) {n : UInt64} (hn : 12 ≤ n.toNat) (val : BitVec 32) (radix : Int) :
    content (itowS d n val radix).2.cells n.toNat = some (radixText val 10) := by
  have hlength := radixText_length val
  have hbounded : Bounded n.toNat d (some (radixText val 10)) (itowS d n val (10 : Nat)) :=
    (itowS_bounded val (by decide) (by decide)).mpr (.inr (List.take_of_length_le (by omega)).symm)
  have hne : n ≠ 0 := fun h => by
    rw [h] at hn
    exact absurd hn (by decide)
  have hzero : (itowS d n val (10 : Nat)).1 = 0 := by
    unfold itowS
    rw [if_neg hne]
  obtain ⟨t, ht, hlt, hcells⟩ := hbounded.complete hzero
  cases ht
  exact content_eq (radixText_nonzero (by decide) (by decide) val) hlt hcells

/-- The number comes back exactly when all its decimal digits are digits of the radix, and read in it they
make the same number in 32 bits. -/
theorem cstolTrip_iff (val : BitVec 32) (hradix : 2 ≤ radix) : CstolTrip val radix ↔
    (∀ d ∈ digitsOf 10 (itowMagnitude val), d < radix) ∧
      Nat.ofDigits radix (digitsOf 10 (itowMagnitude val)) % 2 ^ 32 = itowMagnitude val % 2 ^ 32 := by
  have hten : ∀ d ∈ (digitsOf 10 (itowMagnitude val)).reverse, d < 10 := fun d hd =>
    digitsOf_lt (by decide) (List.mem_reverse.mp hd)
  have htrip : CstolTrip val radix ↔ wcstol (some (radixText val 10)) radix = (val.toInt, some []) := by
    constructor
    · intro h
      obtain ⟨text, htext, htrip⟩ := h (fun _ => 0) 12 (by decide)
      rw [itowS_content _ (by decide)] at htext
      cases htext
      exact htrip
    · exact fun h d n hn => ⟨_, itowS_content d hn val radix, h⟩
  rw [htrip, wcstol_text hradix, Prod.mk.injEq, Option.some.injEq, wcstolLoop_end 0 hten, and_comm]
  have hmem : (∀ d ∈ (digitsOf 10 (itowMagnitude val)).reverse, d < radix) ↔
      ∀ d ∈ digitsOf 10 (itowMagnitude val), d < radix := by
    simp only [List.mem_reverse]
  rw [hmem]
  refine and_congr_right fun hall => ?_
  have hvalue := wcstolLoop_value 0 hten (hmem.mpr hall)
  rw [horner_reverse] at hvalue
  rw [show (0 : Int) = wrap32 ((0 : Nat) : Int) from rfl, hvalue]
  have hint := val.toInt_lt
  have hint' := val.le_toInt
  rcases itowMagnitude_cases val with ⟨hsign, hneg, hmagnitude⟩ | ⟨hsign, hpos, hmagnitude⟩
  · rw [hsign, if_pos rfl]
    unfold wrap32
    omega
  · rw [hsign, if_neg Bool.false_ne_true]
    unfold wrap32
    omega

end Wcstol

/-- `%d`, `%u` and `%x` come back from both scanners, and `%ld` from the one of wide text; `%ld` never from
the console; and `wcstol` gives back what `_itow_s` printed exactly when its decimal digits mean the same in
the radix. -/
theorem number_trips (slot : BitVec 64) (val : BitVec 32) {radix : Nat} (hradix : 2 ≤ radix) :
    (∀ c, c = 0x64 ∨ c = 0x75 ∨ c = 0x78 → ConsoleTrip 0 c slot ∧ WideTrip 0 c slot) ∧
    (¬ ConsoleTrip 1 0x64 slot ∧ WideTrip 1 0x64 slot) ∧
    (CstolTrip val radix ↔ (∀ d ∈ digitsOf 10 (itowMagnitude val), d < radix) ∧
      Nat.ofDigits radix (digitsOf 10 (itowMagnitude val)) % 2 ^ 32 = itowMagnitude val % 2 ^ 32) :=
  ⟨fun _ hc => ⟨consoleTrip_int hc, wideTrip_int (by decide) hc⟩,
    ⟨not_consoleTrip_long, wideTrip_int (by decide) (.inl rfl)⟩, cstolTrip_iff val hradix⟩

theorem number_trips_lowest : CstolTrip (BitVec.intMin 32) 10 :=
  (number_trips 0 (BitVec.intMin 32) (show 2 ≤ 10 by decide)).2.2.mpr (by decide +kernel)

/-- `%ld` stores eight bytes for a long of four, and 12 printed for radix 16 is read as 18. -/
theorem number_lost : ¬ ConsoleTrip 1 0x64 5 ∧ ¬ CstolTrip 12 16 :=
  ⟨not_consoleTrip_long, fun h => absurd ((cstolTrip_iff 12 (by decide)).mp h).2 (by decide +kernel)⟩

end MeuOS.Ucrt
