import MeuOS.Ucrt.Format
import Mathlib.Data.Nat.Digits.Lemmas

/-! What a format means: its items, read before anything is printed. An engine prints item by item, and
it stays inside its arrays exactly when no item is cut off by the terminator and no number is padded
past the local array. -/
namespace MeuOS.Ucrt

/-- A character, a conversion, or what a terminator has cut off. -/
inductive Item
  | lit (c : Nat)
  | conv (s : Spec) (c : Nat)
  | cut
  deriving DecidableEq

/-- The items of a format. -/
def items (e : Engine) : List Nat → List Item
  | [] => []
  | c :: p =>
      if c ≠ 0x25 then .lit c :: items e p
      else
        match _h : (readSpec e p).2 with
        | [] => [.cut]
        | k :: rest => .conv (readSpec e p).1 k :: items e rest
  termination_by p => p.length
  decreasing_by
  · exact Nat.lt_succ_self _
  · have hlength := readSpec_length e p
    rw [_h] at hlength
    exact Nat.lt_succ_of_lt (Nat.lt_of_succ_le hlength)

/-- The conversions that pad to the width. -/
def isNumber (c : Nat) : Bool := c = 0x64 ∨ c = 0x69 ∨ c = 0x75 ∨ c = 0x78 ∨ c = 0x58

/-- The conversions that take an argument. -/
def takesArg (c : Nat) : Bool := c = 0x73 ∨ c = 0x63 ∨ c = 0x70 ∨ isNumber c

/-- An item that prints without leaving the arrays. -/
def Item.Fits : Item → Prop
  | .lit _ => True
  | .conv s c => isNumber c → s.width ≤ 32
  | .cut => False

instance (i : Item) : Decidable i.Fits := by
  cases i <;> unfold Item.Fits <;> infer_instance

/-- Whether an argument is what a conversion reads. -/
def accepts (e : Engine) (s : Spec) (c : Nat) (a : Arg) : Bool :=
  if c = 0x73 then (e.string s a).isSome else (takeWord [a]).isSome

/-- An argument list with an argument for every conversion that takes one, each as `ok` wants it. -/
def ArgsOk (ok : Spec → Nat → Arg → Prop) : List Item → List Arg → Prop
  | [], _ => True
  | .conv s c :: is, args =>
      if takesArg c then
        match args with
        | [] => False
        | a :: args => ok s c a ∧ ArgsOk ok is args
      else ArgsOk ok is args
  | _ :: is, args => ArgsOk ok is args

/-- An argument list matching a format. -/
def Matches (e : Engine) (fmt : List Nat) (args : List Arg) : Prop :=
  ArgsOk (fun s c a => accepts e s c a) (items e fmt) args

/-- Every run of an engine over a format, with arguments that match it, stays inside the output and
reads only slots of the list. -/
def InBounds (e : Engine) (fmt : List Nat) : Prop :=
  ∀ cap args, Matches e fmt args →
    ∃ out rest, vfmt e cap fmt args = some (out, rest) ∧ out.length ≤ cap ∧ rest <:+ args

theorem isNumber_iff {c : Nat} : isNumber c ↔ c = 0x64 ∨ c = 0x69 ∨ c = 0x75 ∨ c = 0x78 ∨ c = 0x58 :=
  decide_eq_true_iff

/-- The conversions with an argument that is a number. -/
theorem takesArg_number {c : Nat} (h : takesArg c) (hstring : c ≠ 0x73) :
    c = 0x63 ∨ c = 0x70 ∨ c = 0x64 ∨ c = 0x69 ∨ c = 0x75 ∨ c = 0x78 ∨ c = 0x58 := by
  have hkind : c = 0x73 ∨ c = 0x63 ∨ c = 0x70 ∨ isNumber c := of_decide_eq_true h
  rw [isNumber_iff] at hkind
  omega

section Engine

variable {e : Engine} {cap : Nat}

/-- One item, when there is room. -/
def printItem (e : Engine) (cap : Nat) : Item → List Nat → List Arg → Option (List Nat × List Arg)
  | .lit c, out, args => some (out ++ [c], args)
  | .conv s c, out, args => convert e cap s c out args
  | .cut, _, _ => none

def printItems (e : Engine) (cap : Nat) : List Item → List Nat → List Arg → Option (List Nat × List Arg)
  | [], out, args => some (out, args)
  | i :: is, out, args =>
      if cap ≤ out.length then some (out, args)
      else (printItem e cap i out args).bind fun r => printItems e cap is r.1 r.2

theorem vfmtFrom_items (p out : List Nat) (args : List Arg) :
    vfmtFrom e cap p out args = printItems e cap (items e p) out args := by
  fun_induction items e p generalizing out args with
  | case1 =>
    unfold vfmtFrom
    rfl
  | case2 c p hc ih =>
    unfold vfmtFrom printItems
    by_cases hfull : cap ≤ out.length
    · rw [if_pos hfull, if_pos hfull]
    · rw [if_neg hfull, if_pos hc, if_neg hfull, ih]
      rfl
  | case3 c p hc hend =>
    unfold vfmtFrom printItems
    by_cases hfull : cap ≤ out.length
    · rw [if_pos hfull, if_pos hfull]
    · rw [if_neg hfull, if_neg hc, if_neg hfull]
      split
      · rfl
      · rename_i heq
        rw [hend] at heq
        cases heq
  | case4 c p hc k rest hspec ih =>
    unfold vfmtFrom printItems
    by_cases hfull : cap ≤ out.length
    · rw [if_pos hfull, if_pos hfull]
    · rw [if_neg hfull, if_neg hc, if_neg hfull]
      split
      · rename_i heq
        rw [hspec] at heq
        cases heq
      · rename_i heq
        rw [hspec] at heq
        cases heq
        simp only [printItem, ih]

/-- What a conversion prints of its argument where there is room for all of it. -/
def argText (e : Engine) (s : Spec) (c : Nat) (a : Arg) : Option (List Nat) :=
  if c = 0x73 then e.string s a
  else
    match a with
    | .word v =>
        if c = 0x63 then some [v.toNat % e.chars]
        else if c = 0x64 ∨ c = 0x69 then
          some ((if s.signed v < 0 then [0x2D] else []) ++
            (putTmp (s.signed v).natAbs 10 false s.width s.pad).reverse)
        else if c = 0x75 then some (putTmp (s.unsigned v) 10 false s.width s.pad).reverse
        else if c = 0x78 ∨ c = 0x58 then some (putTmp (s.unsigned v) 16 (c = 0x58) s.width s.pad).reverse
        else some ([0x30, 0x78] ++ (putTmp v.toNat 16 false 16 0x30).reverse)
    | _ => none

/-- What a conversion without an argument prints. -/
def plainText (c : Nat) : List Nat := if c = 0x25 then [0x25] else [0x25, c]

theorem emit_emit (out a b : List Nat) : emit cap (emit cap out a) b = emit cap out (a ++ b) := by
  unfold emit
  rw [List.append_assoc, List.take_append, List.length_append, List.length_take]
  congr 3
  omega

theorem emit_of_le {out l : List Nat} (h : out.length + l.length ≤ cap) : emit cap out l = out ++ l := by
  unfold emit
  rw [List.take_of_length_le (by omega)]

theorem emit_length {out l : List Nat} (h : out.length ≤ cap) : (emit cap out l).length ≤ cap := by
  unfold emit
  rw [List.length_append, List.length_take]
  omega

section Numbers

variable {v base : Nat} {upper : Bool} {width : Int} {pad : Nat} {s : Spec} {c : Nat}

theorem putTmp_length (v base : Nat) (upper : Bool) (width : Int) (pad : Nat) :
    (putTmp v base upper width pad).length = max (digitsOf base v).length width.toNat := by
  unfold putTmp
  rw [List.length_append, List.length_replicate, List.length_map]
  omega

/-- A number of 64 bits has at most 20 digits. -/
theorem digitsOf_length (hbase : 10 ≤ base) (hv : v < 2 ^ 64) : (digitsOf base v).length ≤ 20 := by
  unfold digitsOf
  split
  · exact (by decide)
  · have hpow : (10 : Nat) ^ 20 ≤ base ^ 20 := Nat.pow_le_pow_left hbase 20
    rw [Nat.digits_length_le_iff (by omega)]
    omega

theorem putUint_eq {out : List Nat} (hbase : 10 ≤ base) (hv : v < 2 ^ 64) (hwidth : width ≤ 32) :
    putUint cap out v base upper width pad = some (emit cap out (putTmp v base upper width pad).reverse) := by
  have hdigits := digitsOf_length hbase hv
  have hlength := putTmp_length v base upper width pad
  exact if_pos (by omega)

theorem putUint_wide {out : List Nat} (hwidth : 32 < width) :
    putUint cap out v base upper width pad = none := by
  have hlength := putTmp_length v base upper width pad
  exact if_neg (by omega)

theorem signed_natAbs_lt (s : Spec) (v : BitVec 64) : (s.signed v).natAbs < 2 ^ 64 := by
  have hlow := BitVec.two_mul_toInt_lt (x := v.setWidth 32)
  have hlow' := BitVec.le_two_mul_toInt (x := v.setWidth 32)
  have hfull := BitVec.two_mul_toInt_lt (x := v)
  have hfull' := BitVec.le_two_mul_toInt (x := v)
  unfold Spec.signed
  split <;> omega

theorem unsigned_lt (s : Spec) (v : BitVec 64) : s.unsigned v < 2 ^ 64 := by
  unfold Spec.unsigned
  split
  · exact lt_trans (v.setWidth 32).isLt (by decide)
  · exact v.isLt

/-- A conversion that takes an argument prints its text and takes one slot. -/
theorem convert_arg {out : List Nat} {a : Arg} {args : List Arg} (htakes : takesArg c)
    (hfits : isNumber c → s.width ≤ 32) :
    convert e cap s c out (a :: args) = (argText e s c a).map fun t => (emit cap out t, args) := by
  unfold convert argText
  by_cases hstring : c = 0x73
  · rw [if_pos hstring, if_pos hstring]
    dsimp only
    cases e.string s a <;> rfl
  rw [if_neg hstring, if_neg hstring]
  have hkind := takesArg_number htakes hstring
  cases a with
  | text t =>
    split_ifs <;> first | rfl | omega
  | wide t =>
    split_ifs <;> first | rfl | omega
  | word v =>
    have hsigned := signed_natAbs_lt s v
    have hunsigned := unsigned_lt s v
    by_cases hchar : c = 0x63
    · rw [if_pos hchar]
      simp only [takeWord, Option.bind_eq_bind, Option.bind_some, if_pos hchar, Option.map_some]
    rw [if_neg hchar]
    simp only [takeWord, Option.bind_eq_bind, Option.bind_some, if_neg hchar]
    by_cases hd : c = 0x64 ∨ c = 0x69
    · have hwidth := hfits (isNumber_iff.mpr (by omega))
      rw [if_pos hd, if_pos hd]
      by_cases hneg : s.signed v < 0
      · rw [if_pos hneg, if_pos hneg, show (-s.signed v).toNat = (s.signed v).natAbs by omega,
          putUint_eq (by decide) hsigned hwidth, emit_emit]
        rfl
      · rw [if_neg hneg, if_neg hneg, show (s.signed v).toNat = (s.signed v).natAbs by omega,
          putUint_eq (by decide) hsigned hwidth]
        rfl
    rw [if_neg hd, if_neg hd]
    by_cases hu : c = 0x75
    · have hwidth := hfits (isNumber_iff.mpr (by omega))
      rw [if_pos hu, if_pos hu, putUint_eq (by decide) hunsigned hwidth]
      rfl
    rw [if_neg hu, if_neg hu]
    by_cases hx : c = 0x78 ∨ c = 0x58
    · have hwidth := hfits (isNumber_iff.mpr (by omega))
      rw [if_pos hx, if_pos hx, putUint_eq (by decide) hunsigned hwidth]
      rfl
    rw [if_neg hx, if_neg hx, if_pos (by omega), putUint_eq (by decide) v.isLt (by decide), emit_emit, emit_emit]
    rfl

/-- A conversion without an argument. -/
theorem convert_plain {out : List Nat} {args : List Arg} (htakes : takesArg c = false) :
    convert e cap s c out args = some (emit cap out (plainText c), args) := by
  have hkind : ¬ (c = 0x73 ∨ c = 0x63 ∨ c = 0x70 ∨ isNumber c) := of_decide_eq_false htakes
  rw [isNumber_iff] at hkind
  unfold convert plainText
  rw [if_neg (by omega), if_neg (by omega), if_neg (by omega), if_neg (by omega), if_neg (by omega),
    if_neg (by omega)]
  split
  · rfl
  · rw [emit_emit]
    rfl

theorem convert_wide {out : List Nat} {args : List Arg} (hnumber : isNumber c) (hwidth : 32 < s.width) :
    convert e cap s c out args = none := by
  rw [isNumber_iff] at hnumber
  unfold convert
  rw [if_neg (by omega), if_neg (by omega)]
  cases takeWord args with
  | none => split_ifs <;> first | rfl | omega
  | some r =>
    simp only [Option.bind_eq_bind, Option.bind_some, putUint_wide hwidth, ite_self, Option.bind_none]
    split_ifs <;> first | rfl | omega

theorem accepts_text {a : Arg} (h : accepts e s c a) : ∃ t, argText e s c a = some t := by
  unfold accepts at h
  by_cases hstring : c = 0x73
  · rw [if_pos hstring] at h
    obtain ⟨t, ht⟩ := Option.isSome_iff_exists.mp h
    exact ⟨t, (if_pos hstring).trans ht⟩
  · rw [if_neg hstring] at h
    cases a with
    | text t => cases h
    | wide t => cases h
    | word v =>
      unfold argText
      rw [if_neg hstring]
      dsimp only
      split_ifs <;> exact ⟨_, rfl⟩

end Numbers

section Items

variable {is : List Item} {args : List Arg} {s : Spec} {c : Nat}

/-- The slots behind those of a conversion, and the text it prints. -/
theorem ArgsOk.printed (out : List Nat) (hargs : ArgsOk (fun s c a => accepts e s c a) (.conv s c :: is) args)
    (hfits : (Item.conv s c).Fits) :
    ∃ t rest, (∀ cap, convert e cap s c out args = some (emit cap out t, rest)) ∧ rest <:+ args ∧
      ArgsOk (fun s c a => accepts e s c a) is rest := by
  unfold ArgsOk at hargs
  by_cases htakes : takesArg c
  · rw [if_pos htakes] at hargs
    cases args with
    | nil => exact hargs.elim
    | cons a args =>
      obtain ⟨t, ht⟩ := accepts_text hargs.1
      refine ⟨t, args, fun cap => ?_, List.suffix_cons a args, hargs.2⟩
      rw [convert_arg htakes hfits, ht]
      rfl
  · rw [if_neg htakes] at hargs
    exact ⟨plainText c, args, fun cap => convert_plain (Bool.eq_false_iff.mpr htakes), List.suffix_refl args, hargs⟩

/-- Items that fit print inside the output, from slots of the list. -/
theorem printItems_inside {out : List Nat} (his : ∀ i ∈ is, i.Fits) (hargs : ArgsOk (fun s c a => accepts e s c a) is args)
    (hout : out.length ≤ cap) :
    ∃ out' rest, printItems e cap is out args = some (out', rest) ∧ out'.length ≤ cap ∧ rest <:+ args := by
  induction is generalizing out args with
  | nil => exact ⟨out, args, rfl, hout, List.suffix_refl args⟩
  | cons i is ih =>
    unfold printItems
    have hrest : ∀ i ∈ is, i.Fits := fun j hj => his j (List.mem_cons_of_mem i hj)
    by_cases hfull : cap ≤ out.length
    · rw [if_pos hfull]
      exact ⟨out, args, rfl, hout, List.suffix_refl args⟩
    rw [if_neg hfull]
    cases i with
    | lit c =>
      refine ih hrest hargs ?_
      rw [List.length_append, List.length_singleton]
      omega
    | conv s c =>
      obtain ⟨t, rest, hprint, hsuffix, hargs⟩ := hargs.printed out (his _ List.mem_cons_self)
      obtain ⟨out', rest', hrun, hlength, hsuffix'⟩ := ih hrest hargs (emit_length (l := t) hout)
      refine ⟨out', rest', ?_, hlength, hsuffix'.trans hsuffix⟩
      rw [printItem, hprint]
      exact hrun
    | cut => exact (his _ List.mem_cons_self).elim

/-- With room enough, an item that does not fit is reached. -/
theorem printItems_outside (out : List Nat) (hunfit : ¬ ∀ i ∈ is, i.Fits) (hargs : ArgsOk (fun s c a => accepts e s c a) is args) :
    ∃ room, ∀ cap, room ≤ cap → printItems e cap is out args = none := by
  induction is generalizing out args with
  | nil => exact absurd (fun i hi => absurd hi List.not_mem_nil) hunfit
  | cons i is ih =>
    by_cases hfits : i.Fits
    · have hrest : ¬ ∀ i ∈ is, i.Fits := fun h => hunfit (List.forall_mem_cons.mpr ⟨hfits, h⟩)
      cases i with
      | lit c =>
        obtain ⟨room, hroom⟩ := ih (out ++ [c]) hrest hargs
        refine ⟨max room (out.length + 1), fun cap hcap => ?_⟩
        unfold printItems
        rw [if_neg (by omega)]
        exact hroom cap (by omega)
      | conv s c =>
        obtain ⟨t, rest, hprint, -, hargs⟩ := hargs.printed out hfits
        obtain ⟨room, hroom⟩ := ih (out ++ t) hrest hargs
        refine ⟨max room (out.length + t.length + 1), fun cap hcap => ?_⟩
        unfold printItems
        rw [if_neg (by omega), printItem, hprint, emit_of_le (by omega)]
        exact hroom cap (by omega)
      | cut => exact hfits.elim
    · refine ⟨out.length + 1, fun cap hcap => ?_⟩
      unfold printItems
      rw [if_neg (by omega)]
      cases i with
      | lit c => exact absurd trivial hfits
      | conv s c =>
        have hnumber : isNumber c ∧ ¬ s.width ≤ 32 := Classical.not_imp.mp hfits
        rw [printItem, convert_wide hnumber.1 (by omega)]
        rfl
      | cut => rfl

/-- There are arguments for every format. -/
theorem exists_argsOk (hstring : ∀ s, ∃ a, (e.string s a).isSome) (is : List Item) :
    ∃ args, ArgsOk (fun s c a => accepts e s c a) is args := by
  induction is with
  | nil => exact ⟨[], trivial⟩
  | cons i is ih =>
    obtain ⟨args, hargs⟩ := ih
    cases i with
    | lit c => exact ⟨args, hargs⟩
    | conv s c =>
      by_cases htakes : takesArg c
      · obtain ⟨a, ha⟩ : ∃ a, accepts e s c a := by
          by_cases hc : c = 0x73
          · obtain ⟨a, ha⟩ := hstring s
            exact ⟨a, (if_pos hc).trans ha⟩
          · exact ⟨.word 0, (if_neg hc).trans rfl⟩
        refine ⟨a :: args, ?_⟩
        unfold ArgsOk
        rw [if_pos htakes]
        exact ⟨ha, hargs⟩
      · refine ⟨args, ?_⟩
        unfold ArgsOk
        rwa [if_neg htakes]
    | cut => exact ⟨args, hargs⟩

theorem inBounds_iff (hstring : ∀ s, ∃ a, (e.string s a).isSome) (fmt : List Nat) :
    InBounds e fmt ↔ ∀ i ∈ items e fmt, i.Fits := by
  constructor
  · intro h
    by_contra hunfit
    obtain ⟨args, hargs⟩ := exists_argsOk hstring (items e fmt)
    obtain ⟨room, hroom⟩ := printItems_outside [] hunfit hargs
    obtain ⟨out, rest, hrun, -⟩ := h room args hargs
    rw [vfmt, vfmtFrom_items, hroom room (Nat.le_refl _)] at hrun
    cases hrun
  · intro his cap args hargs
    rw [vfmt, vfmtFrom_items]
    exact printItems_inside his hargs (Nat.zero_le _)

end Items

end Engine

/-- An item that both engines know, and that is no string. -/
def Item.Shared : Item → Prop
  | .conv _ c => c ≠ 0x68 ∧ c ≠ 0x73
  | _ => True

instance (i : Item) : Decidable i.Shared := by
  cases i <;> unfold Item.Shared <;> infer_instance

/-- A character that both engines have. -/
def Latin (c : Nat) (a : Arg) : Prop := c = 0x63 → ∀ v, a = .word v → v.toNat % 2 ^ 16 < 2 ^ 8

/-- What is left behind by a function that prints into a buffer: as many characters as it returns, then a
terminator, and nothing behind the buffer. -/
def Terminated (count : Nat) (d : Nat → Nat) (r : Option (Int × Option (Nat → Nat))) : Prop :=
  ∃ (n : Nat) (cells : Nat → Nat), r = some ((n : Int), some cells) ∧ n < count ∧ cells n = 0 ∧ ∀ i, count ≤ i → cells i = d i

section Copies

variable {cap : Nat} {fmt p out : List Nat} {args : List Arg}

theorem readSpec_wide (h : (readSpec narrow p).2.head? ≠ some 0x68) : readSpec wide p = readSpec narrow p := by
  have hrun : ∀ q : List Nat, q.head? ≠ some 0x68 → readRun 0x68 0 q = (0, q) := by
    intro q hq
    cases q with
    | nil => rfl
    | cons c q => exact if_neg fun hc => hq (congrArg some hc)
  have hnarrow : (readRun 0x6C 0 (readWidth 0 (readPad p).2).2).2.head? ≠ some 0x68 := h
  simp only [readSpec, wide, narrow, if_true, hrun _ hnarrow]
  rfl

/-- Without `h`, the copies read a format alike. -/
theorem items_wide (h : ∀ i ∈ items narrow fmt, i.Shared) : items wide fmt = items narrow fmt := by
  fun_induction items narrow fmt with
  | case1 =>
    unfold items
    rfl
  | case2 c p hc ih =>
    conv_lhs => unfold items
    rw [if_pos hc, ih fun i hi => h i (List.mem_cons_of_mem _ hi)]
  | case3 c p hc hend =>
    have hspec : readSpec wide p = readSpec narrow p := readSpec_wide (by rw [hend]; exact nofun)
    unfold items
    rw [if_neg hc]
    split
    · rfl
    · rename_i heq
      rw [hspec, hend] at heq
      cases heq
  | case4 c p hc k rest hrest ih =>
    have hk : k ≠ 0x68 := (h _ List.mem_cons_self).1
    have hspec : readSpec wide p = readSpec narrow p :=
      readSpec_wide (by rw [hrest]; exact fun heq => hk (Option.some.inj heq))
    conv_lhs => unfold items
    rw [if_neg hc]
    split
    · rename_i heq
      rw [hspec, hrest] at heq
      cases heq
    · rename_i heq
      rw [hspec, hrest] at heq
      cases heq
      rw [hspec, ih fun i hi => h i (List.mem_cons_of_mem _ hi)]

theorem convert_rest {e : Engine} {s : Spec} {c : Nat} {a : Arg} {r : List Nat × List Arg} (htakes : takesArg c)
    (h : convert e cap s c out (a :: args) = some r) : r.2 = args := by
  have hkind : c = 0x73 ∨ c = 0x63 ∨ c = 0x70 ∨ isNumber c := of_decide_eq_true htakes
  rw [isNumber_iff] at hkind
  have hlast : ∀ x : Option (List Nat), (x.bind fun out => some (out, args)) = some r → r.2 = args := by
    intro x hx
    obtain ⟨o, -, ho⟩ := Option.bind_eq_some_iff.mp hx
    cases ho
    rfl
  unfold convert at h
  by_cases hstring : c = 0x73
  · rw [if_pos hstring] at h
    obtain ⟨t, -, ht⟩ := Option.bind_eq_some_iff.mp h
    cases ht
    rfl
  rw [if_neg hstring] at h
  cases a with
  | text t => split_ifs at h <;> first | omega | cases h
  | wide t => split_ifs at h <;> first | omega | cases h
  | word v =>
    split_ifs at h
    · cases h
      rfl
    · simp only [takeWord, Option.bind_eq_bind, Option.bind_some] at h
      split at h <;> exact hlast _ h
    · exact hlast _ h
    · exact hlast _ h
    · exact hlast _ h
    all_goals omega

theorem convert_wide_eq {s : Spec} {c : Nat} (hstring : c ≠ 0x73)
    (hlatin : ∀ a rest, args = a :: rest → Latin c a) :
    convert wide cap s c out args = convert narrow cap s c out args := by
  unfold convert
  rw [if_neg hstring, if_neg hstring]
  split
  · rename_i hchar
    cases args with
    | nil => rfl
    | cons a rest =>
      cases a with
      | text t => rfl
      | wide t => rfl
      | word v =>
        have hv := hlatin _ _ rfl hchar v rfl
        have hchars : v.toNat % 2 ^ 16 = v.toNat % 2 ^ 8 := by omega
        simp only [takeWord, Option.bind_eq_bind, Option.bind_some, wide, narrow, hchars]
  · rfl

theorem printItems_wide {is : List Item} (h : ∀ i ∈ is, i.Shared) (hargs : ArgsOk (fun _ => Latin) is args) :
    printItems wide cap is out args = printItems narrow cap is out args := by
  induction is generalizing out args with
  | nil => rfl
  | cons i is ih =>
    have hrest : ∀ i ∈ is, i.Shared := fun j hj => h j (List.mem_cons_of_mem i hj)
    unfold printItems
    split
    · rfl
    cases i with
    | lit c => exact ih hrest hargs
    | cut => rfl
    | conv s c =>
      have hshared := h _ List.mem_cons_self
      unfold ArgsOk at hargs
      by_cases htakes : takesArg c
      · rw [if_pos htakes] at hargs
        cases args with
        | nil => exact hargs.elim
        | cons a args =>
          rw [printItem, printItem, convert_wide_eq hshared.2 fun b rest hb => by
            cases hb
            exact hargs.1]
          cases hprint : convert narrow cap s c out (a :: args) with
          | none => rfl
          | some r =>
            refine ih hrest ?_
            rw [convert_rest htakes hprint]
            exact hargs.2
      · rw [if_neg htakes] at hargs
        have hplain : takesArg c = false := Bool.eq_false_iff.mpr htakes
        rw [printItem, printItem, convert_plain hplain, convert_plain hplain]
        exact ih hrest hargs

end Copies

section Wrappers

variable {e : Engine} {fmt : List Nat} {args : List Arg}

/-- What has been laid over the start of an array. -/
theorem laid_terminated {d : Nat → Nat} {t : List Nat} {count : Nat} (h : t.length < count) :
    laid d (t ++ [0]) t.length = 0 ∧ ∀ i, count ≤ i → laid d (t ++ [0]) i = d i := by
  unfold laid
  refine ⟨?_, fun i hi => List.getD_eq_default _ _ ?_⟩
  · rw [List.getD_append_right _ _ _ _ (Nat.le_refl _), Nat.sub_self]
    rfl
  · rw [List.length_append, List.length_singleton]
    omega

theorem printInto_terminated (h : InBounds e fmt) (hargs : Matches e fmt args) (d : Nat → Nat) {count : Nat}
    (hcount : 0 < count) : Terminated count d (printInto e (some d) count fmt args) := by
  obtain ⟨out, rest, hrun, hlength, -⟩ := h ((if count > 0x7FFFFFFF then 0x7FFFFFFF else count) - 1) args hargs
  have hout : out.length < count := by split at hlength <;> omega
  obtain ⟨hzero, hframe⟩ := laid_terminated (d := d) hout
  refine ⟨out.length, _, ?_, hout, hzero, hframe⟩
  unfold printInto
  dsimp only
  rw [if_neg (by omega), hrun]
  rfl

end Wrappers

/-- An engine stays in bounds over a format exactly when the terminator cuts off no item and no number has
a width over 32. Where the format has no string and no `h`, both engines print the same, and where an
engine stays in bounds, the functions over it leave their buffer terminated. -/
theorem formats_in_bounds (fmt : List Nat) :
    ((InBounds narrow fmt ↔ ∀ i ∈ items narrow fmt, i.Fits) ∧ (InBounds wide fmt ↔ ∀ i ∈ items wide fmt, i.Fits)) ∧
    ((∀ i ∈ items narrow fmt, i.Shared) → ∀ cap args, ArgsOk (fun _ => Latin) (items narrow fmt) args →
      ucrtVfmtw cap fmt args = ucrtVfmt cap fmt args) ∧
    (InBounds narrow fmt → ∀ args, Matches narrow fmt args →
      (∃ sent, stdioCommonVfprintf fmt args = some (sent.length, sent) ∧ sent.length ≤ 1024) ∧
      ∀ d count maxcount, 0 < count →
        Terminated count d (stdioCommonVsnprintfS (some d) count maxcount fmt args)) ∧
    (InBounds wide fmt → ∀ args, Matches wide fmt args → ∀ d count maxcount, 0 < count →
      Terminated count d (stdioCommonVswprintf (some d) count fmt args) ∧
      Terminated count d (stdioCommonVswprintfS (some d) count fmt args) ∧
      Terminated count d (stdioCommonVsnwprintfS (some d) count maxcount fmt args)) := by
  refine ⟨⟨inBounds_iff (fun s => ⟨.text none, rfl⟩) fmt, inBounds_iff (fun s => ?_) fmt⟩, ?_, ?_, ?_⟩
  · by_cases hsht : s.sht = 0
    · exact ⟨.wide none, by simp [wide, hsht]⟩
    · exact ⟨.text none, by simp [wide, hsht]⟩
  · intro hshared cap args hargs
    unfold ucrtVfmtw ucrtVfmt vfmt
    rw [vfmtFrom_items, vfmtFrom_items, items_wide hshared]
    exact printItems_wide hshared hargs
  · intro h args hargs
    refine ⟨?_, fun d count _ hcount => printInto_terminated h hargs d hcount⟩
    obtain ⟨out, rest, hrun, hlength, -⟩ := h 1024 args hargs
    refine ⟨out, ?_, hlength⟩
    unfold stdioCommonVfprintf ucrtVfmt
    rw [hrun]
    rfl
  · intro h args hargs d count _ hcount
    have hinto := printInto_terminated h hargs d hcount
    exact ⟨hinto, hinto, hinto⟩

/-- A format that is a single `%`; `%33d` for the number 0; and `%hd`, which only one engine knows. -/
theorem formats_overrun :
    ¬ InBounds narrow [0x25] ∧ ¬ InBounds wide [0x25, 0x33, 0x33, 0x64] ∧
      ucrtVfmtw 8 [0x25, 0x68, 0x64] [.word 5] ≠ ucrtVfmt 8 [0x25, 0x68, 0x64] [.word 5] := by
  refine ⟨fun h => ?_, fun h => ?_, ?_⟩
  · have hcut : items narrow [0x25] = [.cut] := by
      simp [items, readSpec, readPad, readWidth, readRun, narrow]
    obtain ⟨out, rest, hrun, -⟩ := h 1 [] (by unfold Matches; rw [hcut]; exact trivial)
    rw [vfmt, vfmtFrom_items, hcut] at hrun
    cases hrun
  · have hitems : items wide [0x25, 0x33, 0x33, 0x64] = [.conv ⟨0x20, 33, 0, 0⟩ 0x64] := by
      simp [items, readSpec, readPad, readWidth, readRun, wide, MeuOS.Lib.wrap32]
    obtain ⟨out, rest, hrun, -⟩ := h 1 [.word 0] (by unfold Matches; rw [hitems]; exact ⟨rfl, trivial⟩)
    rw [vfmt, vfmtFrom_items, hitems] at hrun
    have hnone : convert wide 1 ⟨0x20, 33, 0, 0⟩ 0x64 [] [.word 0] = none := convert_wide rfl (by decide)
    rw [printItems, if_neg (by decide), printItem, hnone] at hrun
    cases hrun
  · have hwide : items wide [0x25, 0x68, 0x64] = [.conv ⟨0x20, 0, 0, 1⟩ 0x64] := by
      simp [items, readSpec, readPad, readWidth, readRun, wide, MeuOS.Lib.wrap32]
    have hnarrow : items narrow [0x25, 0x68, 0x64] = [.conv ⟨0x20, 0, 0, 0⟩ 0x68, .lit 0x64] := by
      simp [items, readSpec, readPad, readWidth, readRun, narrow]
    unfold ucrtVfmtw ucrtVfmt vfmt
    rw [vfmtFrom_items, vfmtFrom_items, hwide, hnarrow]
    decide +kernel

end MeuOS.Ucrt
