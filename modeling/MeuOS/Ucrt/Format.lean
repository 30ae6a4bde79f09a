import MeuOS.Lib.Int32
import MeuOS.Ucrt.WideBounded

/-! The two formatting engines: `ucrt_vfmt` for characters of one byte and `ucrt_vfmtw`, its copy for
wide ones. A format is the characters in front of its terminator, an argument list is its slots. What
an engine writes is the list of the characters it has put from `out[0]` on; where it would leave its
local array or run behind the terminator there is no result. -/
namespace MeuOS.Ucrt

open MeuOS.Lib

/-- A slot of the argument list: a number, or a pointer to a string or to nothing. -/
inductive Arg
  | word (v : BitVec 64)
  | text (s : Option (List Nat))
  | wide (s : Option (List Nat))
  deriving DecidableEq

/-- What a `%` says in front of its conversion. -/
structure Spec where
  pad : Nat
  width : Int
  lng : Int
  sht : Int
  deriving DecidableEq

/-- Where the two copies differ: how many characters there are, whether `h` is read, and the string that
`%s` finds in a slot. -/
structure Engine where
  chars : Nat
  halves : Bool
  string : Spec → Arg → Option (List Nat)

/-- `while (*p >= '0' && *p <= '9') width = width * 10 + (*p++ - '0')`. -/
def readWidth : Int → List Nat → Int × List Nat
  | w, [] => (w, [])
  | w, c :: p =>
      if 0x30 ≤ c ∧ c ≤ 0x39 then readWidth (wrap32 (w * 10 + (c - 0x30 : Nat))) p else (w, c :: p)

/-- `while (*p == c) { n++; p++; }`. -/
def readRun (c : Nat) : Int → List Nat → Int × List Nat
  | n, [] => (n, [])
  | n, k :: p => if k = c then readRun c (wrap32 (n + 1)) p else (n, k :: p)

def readPad : List Nat → Nat × List Nat
  | [] => (0x20, [])
  | c :: p => if c = 0x30 then (0x30, p) else (0x20, c :: p)

def readSpec (e : Engine) (p : List Nat) : Spec × List Nat :=
  let pad := readPad p
  let width := readWidth 0 pad.2
  let lng := readRun 0x6C 0 width.2
  let sht := if e.halves then readRun 0x68 0 lng.2 else (0, lng.2)
  (⟨pad.1, width.1, lng.1, sht.1⟩, sht.2)

/-- `if (pos < cap) out[pos++] = …`, character by character. -/
def emit (cap : Nat) (out l : List Nat) : List Nat := out ++ l.take (cap - out.length)

/-- The digit tables of `put_uint` and `ucrt_putuw`. -/
def dig (upper : Bool) (d : Nat) : Nat := if d < 10 then 0x30 + d else (if upper then 0x37 else 0x57) + d

/-- What is stored in `tmp`, the lowest digit first. -/
def putTmp (v base : Nat) (upper : Bool) (width : Int) (pad : Nat) : List Nat :=
  let t := (digitsOf base v).map (dig upper)
  t ++ List.replicate (width - t.length).toNat pad

/-- `put_uint` and `ucrt_putuw`, with their `tmp[32]`. -/
def putUint (cap : Nat) (out : List Nat) (v base : Nat) (upper : Bool) (width : Int) (pad : Nat) :
    Option (List Nat) :=
  let tmp := putTmp v base upper width pad
  if tmp.length ≤ 32 then some (emit cap out tmp.reverse) else none

/-- The number that `%d` and `%i` print. -/
def Spec.signed (s : Spec) (v : BitVec 64) : Int := if s.lng = 0 then (v.setWidth 32).toInt else v.toInt

/-- The number that `%u`, `%x` and `%X` print. -/
def Spec.unsigned (s : Spec) (v : BitVec 64) : Nat := if s.lng = 0 then (v.setWidth 32).toNat else v.toNat

/-- `v = *(long long*)ap; ap += 8;`. -/
def takeWord : List Arg → Option (BitVec 64 × List Arg)
  | .word v :: args => some (v, args)
  | _ => none

/-- One conversion. -/
def convert (e : Engine) (cap : Nat) (s : Spec) (c : Nat) (out : List Nat) (args : List Arg) :
    Option (List Nat × List Arg) :=
  if c = 0x73 then
    match args with
    | [] => none
    | a :: args => do
        let t ← e.string s a
        some (emit cap out t, args)
  else if c = 0x63 then do
    let (v, args) ← takeWord args
    some (emit cap out [v.toNat % e.chars], args)
  else if c = 0x64 ∨ c = 0x69 then do
    let (v, args) ← takeWord args
    let n := s.signed v
    let out ← if n < 0 then putUint cap (emit cap out [0x2D]) (-n).toNat 10 false s.width s.pad
      else putUint cap out n.toNat 10 false s.width s.pad
    some (out, args)
  else if c = 0x75 then do
    let (v, args) ← takeWord args
    let out ← putUint cap out (s.unsigned v) 10 false s.width s.pad
    some (out, args)
  else if c = 0x78 ∨ c = 0x58 then do
    let (v, args) ← takeWord args
    let out ← putUint cap out (s.unsigned v) 16 (c = 0x58) s.width s.pad
    some (out, args)
  else if c = 0x70 then do
    let (v, args) ← takeWord args
    let out ← putUint cap (emit cap (emit cap out [0x30]) [0x78]) v.toNat 16 false 16 0x30
    some (out, args)
  else if c = 0x25 then some (emit cap out [0x25], args)
  else some (emit cap (emit cap out [0x25]) [c], args)

theorem readWidth_length (w : Int) (p : List Nat) : (readWidth w p).2.length ≤ p.length := by
  induction p generalizing w with
  | nil => exact Nat.le_refl _
  | cons c p ih =>
    unfold readWidth
    split
    · exact Nat.le_succ_of_le (ih _)
    · exact Nat.le_refl _

theorem readRun_length (c : Nat) (n : Int) (p : List Nat) : (readRun c n p).2.length ≤ p.length := by
  induction p generalizing n with
  | nil => exact Nat.le_refl _
  | cons k p ih =>
    unfold readRun
    split
    · exact Nat.le_succ_of_le (ih _)
    · exact Nat.le_refl _

theorem readPad_length (p : List Nat) : (readPad p).2.length ≤ p.length := by
  cases p with
  | nil => exact Nat.le_refl _
  | cons c p =>
    simp only [readPad]
    split
    · exact Nat.le_succ _
    · exact Nat.le_refl _

theorem readSpec_length (e : Engine) (p : List Nat) : (readSpec e p).2.length ≤ p.length := by
  have hpad := readPad_length p
  have hwidth := readWidth_length 0 (readPad p).2
  have hlng := readRun_length 0x6C 0 (readWidth 0 (readPad p).2).2
  have hsht := readRun_length 0x68 0 (readRun 0x6C 0 (readWidth 0 (readPad p).2).2).2
  simp only [readSpec]
  split
  · omega
  · dsimp only
    omega

/-- The loop of the engines over the characters `p` of the format that are left. -/
def vfmtFrom (e : Engine) (cap : Nat) : List Nat → List Nat → List Arg → Option (List Nat × List Arg)
  | [], out, args => some (out, args)
  | c :: p, out, args =>
      if cap ≤ out.length then some (out, args)
      else if c ≠ 0x25 then vfmtFrom e cap p (out ++ [c]) args
      else
        match _h : (readSpec e p).2 with
        -- the terminator is taken for a conversion, and the loop goes on behind it
        | [] => none
        | k :: rest => (convert e cap (readSpec e p).1 k out args).bind fun r => vfmtFrom e cap rest r.1 r.2
  termination_by p => p.length
  decreasing_by
  · exact Nat.lt_succ_self _
  · have hlength := readSpec_length e p
    rw [_h] at hlength
    exact Nat.lt_succ_of_lt (Nat.lt_of_succ_le hlength)

def vfmt (e : Engine) (cap : Nat) (fmt : List Nat) (args : List Arg) : Option (List Nat × List Arg) :=
  vfmtFrom e cap fmt [] args

/-- "(null)" -/
def nullText : List Nat := [0x28, 0x6E, 0x75, 0x6C, 0x6C, 0x29]

def narrow : Engine where
  chars := 2 ^ 8
  halves := false
  string := fun _ a =>
    match a with
    | .text s => some (s.getD nullText)
    | _ => none

def wide : Engine where
  chars := 2 ^ 16
  halves := true
  string := fun s a =>
    match a with
    | .text t => if s.sht ≠ 0 then some (t.getD []) else none
    | .wide t => if s.sht = 0 then some (t.getD []) else none
    | .word _ => none

def ucrtVfmt : Nat → List Nat → List Arg → Option (List Nat × List Arg) := vfmt narrow

def ucrtVfmtw : Nat → List Nat → List Arg → Option (List Nat × List Arg) := vfmt wide

/-- The array with the characters `t` stored from its start. -/
def laid (d : Nat → Nat) (t : List Nat) : Nat → Nat := fun i => t.getD i (d i)

/-- What the functions that print into a buffer of `count` characters return and leave there. -/
def printInto (e : Engine) (buf : Option (Nat → Nat)) (count : Nat) (fmt : List Nat) (args : List Arg) :
    Option (Int × Option (Nat → Nat)) :=
  match buf with
  | none => some (-1, none)
  | some d =>
      if count = 0 then some (-1, some d)
      else
        let cap := if count > 0x7FFFFFFF then 0x7FFFFFFF else count
        (vfmt e (cap - 1) fmt args).map fun r => (r.1.length, some (laid d (r.1 ++ [0])))

/-- `__stdio_common_vswprintf`. -/
def stdioCommonVswprintf (buf : Option (Nat → Nat)) (count : Nat) (fmt : List Nat) (args : List Arg) :
    Option (Int × Option (Nat → Nat)) :=
  printInto wide buf count fmt args

/-- `__stdio_common_vswprintf_s`. -/
def stdioCommonVswprintfS (buf : Option (Nat → Nat)) (count : Nat) (fmt : List Nat) (args : List Arg) :
    Option (Int × Option (Nat → Nat)) :=
  stdioCommonVswprintf buf count fmt args

/-- `__stdio_common_vsnwprintf_s`, whatever `maxcount` is. -/
def stdioCommonVsnwprintfS (buf : Option (Nat → Nat)) (count _maxcount : Nat) (fmt : List Nat) (args : List Arg) :
    Option (Int × Option (Nat → Nat)) :=
  stdioCommonVswprintf buf count fmt args

/-- `__stdio_common_vsnprintf_s`, whatever `maxcount` is. -/
def stdioCommonVsnprintfS (buf : Option (Nat → Nat)) (count _maxcount : Nat) (fmt : List Nat) (args : List Arg) :
    Option (Int × Option (Nat → Nat)) :=
  printInto narrow buf count fmt args

/-- `__stdio_common_vfprintf`: what it returns and what it sends to the stream. -/
def stdioCommonVfprintf (fmt : List Nat) (args : List Arg) : Option (Int × List Nat) :=
  (ucrtVfmt 1024 fmt args).map fun r => (r.1.length, r.1)

end MeuOS.Ucrt
