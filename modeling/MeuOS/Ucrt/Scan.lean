import MeuOS.Ucrt.Input

/-! Numbers read from wide text: `__stdio_common_vswscanf` and `wcstol`. A text is the characters in front
of its terminator. -/
namespace MeuOS.Ucrt

open MeuOS.Lib

/-! ## `__stdio_common_vswscanf` -/

def isBlank (c : Nat) : Bool := c = 0x20 ∨ c = 9 ∨ c = 0xA

def skipBlank : List Nat → List Nat
  | [] => []
  | c :: s => if isBlank c then skipBlank s else c :: s

/-- `while (*p >= '0' && *p <= '9') p++; while (*p == 'l' || *p == 'h') p++;`. -/
def skipModifiers (p : List Nat) : List Nat :=
  (p.dropWhile fun c => 0x30 ≤ c ∧ c ≤ 0x39).dropWhile fun c => c = 0x6C ∨ c = 0x68

/-- The number that the digits in front make, and what follows them. -/
def wideDigits (base : Nat) : BitVec 64 → List Nat → BitVec 64 × List Nat
  | v, [] => (v, [])
  | v, c :: s =>
      match digitIn base c with
      | some d => wideDigits base (v * BitVec.ofNat 64 base + BitVec.ofNat 64 d) s
      | none => (v, c :: s)

/-- What is left after a directive. -/
structure WideScanned where
  go : Bool
  writes : List Write
  args : List Nat
  text : List Nat

/-- `*d = …; ap += 8; assigned++;`. -/
def wideStore (bytes args text : List Nat) : Option WideScanned :=
  match args with
  | [] => none
  | dst :: args => some ⟨true, [⟨dst, bytes⟩], args, text⟩

/-- A conversion of a text whose blanks have been skipped. -/
def wideConv (conv : Nat) (args s : List Nat) : Option WideScanned :=
  if conv = 0x64 ∨ conv = 0x69 ∨ conv = 0x75 then
    let neg := s.head? = some 0x2D
    let s := if neg then s.tail else s
    if (s.head?.bind fun c => digitIn 10 c).isNone then some ⟨false, [], args, s⟩
    else
      let r := wideDigits 10 0 s
      wideStore (bytesOf 4 (if neg then -r.1 else r.1)) args r.2
  else if conv = 0x78 ∨ conv = 0x58 then
    let r := wideDigits 16 0 s
    if (s.head?.bind fun c => digitIn 16 c).isNone then some ⟨false, [], args, r.2⟩
    else wideStore (bytesOf 4 r.1) args r.2
  else if conv = 0x73 then
    let word := s.takeWhile fun c => !isBlank c
    wideStore ((word ++ [0]).flatMap fun c => [c % 256, c / 256]) args (s.dropWhile fun c => !isBlank c)
  else some ⟨false, [], args, s⟩

theorem skipModifiers_length (p : List Nat) : (skipModifiers p).length ≤ p.length :=
  (List.dropWhile_sublist _).length_le.trans (List.dropWhile_sublist _).length_le

/-- The loop over what is left of the format: everything stored, a field each, and the text behind. -/
def vswscanfFrom : List Nat → List Nat → List Nat → Option (List Write × List Nat)
  | [], _, s => some ([], s)
  | f :: p, args, s =>
      if isBlank f then vswscanfFrom p args (skipBlank s)
      else if f ≠ 0x25 then if s.head? = some f then vswscanfFrom p args s.tail else some ([], s)
      else
        match _h : skipModifiers p with
        | [] => some ([], skipBlank s)
        | conv :: rest => do
            let r ← wideConv conv args (skipBlank s)
            if r.go then
              let (writes, s) ← vswscanfFrom rest r.args r.text
              some (r.writes ++ writes, s)
            else some (r.writes, r.text)
  termination_by p => p.length
  decreasing_by
  · exact Nat.lt_succ_self _
  · exact Nat.lt_succ_self _
  · have hlength := skipModifiers_length p
    rw [_h] at hlength
    exact Nat.lt_succ_of_lt (Nat.lt_of_succ_le hlength)

/-- `__stdio_common_vswscanf`: the number of fields assigned, what has been stored, and the text behind. -/
def stdioCommonVswscanf (buf fmt args : List Nat) : Option (Nat × List Write × List Nat) :=
  (vswscanfFrom fmt args buf).map fun r => (r.1.length, r.1, r.2)

/-! ## `wcstol` -/

def wcstolDigit (c : UInt16) : Option Int :=
  if 0x30 ≤ c ∧ c ≤ 0x39 then some (c.toNat - 0x30 : Nat)
  else if 0x61 ≤ c ∧ c ≤ 0x7A then some (c.toNat - 0x61 + 10 : Nat)
  else if 0x41 ≤ c ∧ c ≤ 0x5A then some (c.toNat - 0x41 + 10 : Nat)
  else none

def wcstolLoop (base : Int) : Int → List UInt16 → Int × List UInt16
  | v, [] => (v, [])
  | v, c :: s =>
      match wcstolDigit c with
      | some d => if base ≤ d then (v, c :: s) else wcstolLoop base (wrap32 (v * base + d)) s
      | none => (v, c :: s)

/-- The number and what `*end` points at; a null text has neither end. -/
def wcstol (s : Option (List UInt16)) (base : Int) : Int × Option (List UInt16) :=
  match s with
  | none => (0, none)
  | some s =>
      let s := s.dropWhile (· = 0x20)
      let sign : Int := if s.head? = some 0x2D then -1 else 1
      let s := if s.head? = some 0x2D ∨ s.head? = some 0x2B then s.tail else s
      let r := wcstolLoop (if base = 0 then 10 else base) 0 s
      (wrap32 (r.1 * sign), some r.2)

end MeuOS.Ucrt
