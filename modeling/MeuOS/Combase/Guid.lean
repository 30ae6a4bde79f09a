import MeuOS.Lib.Scanner

/-! GUIDs and their text. A text is what stands in memory from a pointer on, character by
character; how far it is read is part of what the parser gives. -/
namespace MeuOS.Combase

open MeuOS.Lib

/-- `GUID_`. -/
structure Guid where
  data1 : UInt32
  data2 : UInt16
  data3 : UInt16
  data4 : Vector UInt8 8
deriving DecidableEq

def Guid.null : Guid := ⟨0, 0, 0, Vector.replicate 8 0⟩

inductive HResult
  | ok
  | invalidArg
  | classString
deriving DecidableEq

def hexU (v : Nat) : UInt16 :=
  let v := v % 16
  UInt16.ofNat (if v < 10 then 0x30 + v else 0x41 + v - 10)

def hexV (c : UInt16) : Option Nat :=
  if 0x30 ≤ c ∧ c ≤ 0x39 then some (c.toNat - 0x30)
  else if 0x61 ≤ c ∧ c ≤ 0x66 then some (c.toNat - 0x61 + 10)
  else if 0x41 ≤ c ∧ c ≤ 0x46 then some (c.toNat - 0x41 + 10)
  else none

/-- `n` digits of a number, the highest first. -/
def hexText (n v : Nat) : List UInt16 := (List.range n).reverse.map fun k => hexU (v >>> (4 * k))

def hyphen : UInt16 := 0x2D

def hexPairsText (l : List UInt8) : List UInt16 := l.flatMap fun b => hexText 2 b.toNat

/-- `StringFromGUID2`: what is written to the buffer of `cch` characters, terminator included. Its
length is returned. -/
def stringFromGuid2 (g : Guid) (cch : Int) : List UInt16 :=
  if cch < 39 then []
  else
    0x7B :: (hexText 8 g.data1.toNat ++
    hyphen :: (hexText 4 g.data2.toNat ++
    hyphen :: (hexText 4 g.data3.toNat ++
    hyphen :: (hexPairsText [g.data4[0], g.data4[1]] ++
    hyphen :: (hexPairsText [g.data4[2], g.data4[3], g.data4[4], g.data4[5], g.data4[6], g.data4[7]] ++
    [(0x7D : UInt16), 0])))))

/-- What stands between the braces. -/
def guidText (g : Guid) : List UInt16 :=
  hexText 8 g.data1.toNat ++
  hyphen :: (hexText 4 g.data2.toNat ++
  hyphen :: (hexText 4 g.data3.toNat ++
  hyphen :: (hexPairsText [g.data4[0], g.data4[1]] ++
  hyphen :: hexPairsText [g.data4[2], g.data4[3], g.data4[4], g.data4[5], g.data4[6], g.data4[7]])))

section Parser

variable (text : Nat → UInt16)

/-- `k` digits, after those that gave `d`. -/
def hexRun : Nat → Nat → Scanner Nat
  | 0, d => Scanner.pure d
  | k + 1, d => fun p =>
      match hexV (text p) with
      | none => (none, p + 1)
      | some h => hexRun k (d <<< 4 ||| h) (p + 1)

def dash : Scanner Unit := fun p => (if text p = hyphen then some () else none, p + 1)

/-- Both digits are read before either is looked at. -/
def hexPair : Scanner Nat := fun p =>
  (match hexV (text p), hexV (text (p + 1)) with
    | some hi, some lo => some (hi <<< 4 ||| lo)
    | _, _ => none,
   p + 2)

def hexPairs : Nat → Scanner (List Nat)
  | 0 => Scanner.pure []
  | k + 1 => (hexPair text).bind fun b => (hexPairs k).bind fun l => Scanner.pure (b :: l)

def guidBody : Scanner Guid :=
  (hexRun text 8 0).bind fun d1 =>
  (dash text).bind fun _ =>
  (hexRun text 4 0).bind fun d2 =>
  (dash text).bind fun _ =>
  (hexRun text 4 0).bind fun d3 =>
  (dash text).bind fun _ =>
  (hexPairs text 2).bind fun b =>
  (dash text).bind fun _ =>
  (hexPairs text 6).bind fun b' =>
  Scanner.pure
    { data1 := UInt32.ofNat d1
      data2 := UInt16.ofNat d2
      data3 := UInt16.ofNat d3
      data4 := Vector.ofFn fun k => UInt8.ofNat ((b ++ b').getD k 0) }

end Parser

/-- What is returned, what `*g` is then, and how many characters were read. -/
structure GuidResult where
  hr : HResult
  guid : Guid
  reads : Nat
deriving DecidableEq

/-- `guid_from_str`; a null pointer is no text. -/
def guidFromStr : Option (Nat → UInt16) → GuidResult
  | none => ⟨.ok, Guid.null, 0⟩
  | some text =>
      match guidBody text (if text 0 = 0x7B then 1 else 0) with
      | (some g, p) => ⟨.ok, g, p⟩
      | (none, p) => ⟨.classString, Guid.null, p⟩

def clsidFromString (s : Option (Nat → UInt16)) : GuidResult := guidFromStr s

def iidFromString (s : Option (Nat → UInt16)) : GuidResult := guidFromStr s

end MeuOS.Combase
