import MeuOS.Cm.Registry
import MeuOS.Lib.Keyed
import Mathlib.Data.List.TakeWhile

/-! Symbolic links. The table keeps 63 characters of each string, and the routines that take a
`UNICODE_STRING` look at 63 characters of it, a byte each. -/
namespace MeuOS.Io

open MeuOS.Lib
open MeuOS.Cm (UnicodeString uniToAscii cstr)

/-- `SYMLINK_MAX`. -/
def symlinkMax : Nat := 32

/-- `SYMLINK_ENT`, as long as it is used. -/
structure SymlinkEnt where
  link : List UInt8
  target : List UInt8
deriving DecidableEq

/-- `s_links`. -/
abbrev SLinks := Nat → Option SymlinkEnt

/-- The comparison of all four routines. -/
def linkEq : List UInt8 → List UInt8 → Bool
  | c :: cs, d :: ds => if c ≠ d then false else linkEq cs ds
  | [], [] => true
  | _, _ => false

def ioSymlinkCreateAscii (t : SLinks) (link target : Option (List UInt8)) : SLinks × Bool :=
  match link, target with
  | some link, some target =>
      match firstHeld symlinkMax t fun e => linkEq link e.link with
      | some i =>
          (Function.update t i ((t i).map fun e => { e with target := target.take 63 }), true)
      | none =>
          match firstFree symlinkMax t with
          | some i => (Function.update t i (some ⟨link.take 63, target.take 63⟩), true)
          | none => (t, false)
  | _, _ => (t, false)

def ioSymlinkResolveAscii (t : SLinks) (link : Option (List UInt8)) : Option (List UInt8) :=
  match link with
  | none => none
  | some link =>
      (firstHeld symlinkMax t fun e => linkEq link e.link).bind fun i => (t i).map SymlinkEnt.target

inductive LinkStatus
  | success
  | noMemory
  | objectNameNotFound
deriving DecidableEq

def ioCreateSymbolicLink (t : SLinks) (symbolicLinkName deviceName : Option UnicodeString) :
    SLinks × LinkStatus :=
  let sl := uniToAscii symbolicLinkName 64
  let dn := uniToAscii deviceName 64
  let r := ioSymlinkCreateAscii t (some sl) (some dn)
  (r.1, if r.2 then .success else .noMemory)

def ioDeleteSymbolicLink (t : SLinks) (symbolicLinkName : Option UnicodeString) : SLinks × LinkStatus :=
  let sl := uniToAscii symbolicLinkName 64
  match firstHeld symlinkMax t fun e => linkEq sl e.link with
  | some i => (Function.update t i none, .success)
  | none => (t, .objectNameNotFound)

/-! ## Strings -/

/-- An ASCII string in the characters of a `UNICODE_STRING`. -/
def wide (l : List UInt8) : List UInt16 := l.map UInt8.toUInt16

/-- All that a `UNICODE_STRING` says. -/
def uniText (u : Option UnicodeString) : List UInt16 :=
  match u.bind fun u => u.buffer.map fun b => (u.length / 2, b) with
  | some (n, b) => (List.range n).map b
  | none => []

/-- A string that nothing is lost of in 63 bytes. -/
def Narrow (u : Option UnicodeString) : Prop :=
  (uniText u).length ≤ 63 ∧ ∀ c ∈ uniText u, 0 < c ∧ c < 256

theorem linkEq_iff {a b : List UInt8} : linkEq a b = true ↔ a = b := by
  induction a generalizing b with
  | nil => cases b <;> simp [linkEq]
  | cons c cs ih =>
    cases b with
    | nil => simp [linkEq]
    | cons d ds =>
      unfold linkEq
      by_cases hcd : c = d
      · rw [if_neg (not_not_intro hcd), ih, hcd, List.cons.injEq, and_iff_right rfl]
      · rw [if_pos hcd]
        exact iff_of_false Bool.false_ne_true fun h => hcd (List.cons.inj h).1

theorem wide_injective {a b : List UInt8} (h : wide a = wide b) : a = b := by
  refine List.map_injective_iff.2 (fun c d hcd => ?_) h
  have hnat := congrArg UInt16.toNat hcd
  rw [UInt8.toNat_toUInt16, UInt8.toNat_toUInt16] at hnat
  exact UInt8.toNat_inj.1 hnat

theorem uniText_eq_text (u : Option UnicodeString) :
    uniToAscii u 64 = cstr (((uniText u).take 63).map UInt16.toUInt8) := by
  unfold uniToAscii uniText
  cases u.bind fun u => u.buffer.map fun b => (u.length / 2, b) with
  | none => rfl
  | some nb =>
    dsimp only
    rw [← List.map_take, List.take_range, List.map_map, Nat.min_comm]
    rfl

theorem wide_uniToAscii {u : Option UnicodeString} (h : Narrow u) : wide (uniToAscii u 64) = uniText u := by
  obtain ⟨hlen, hchars⟩ := h
  have hback : ∀ c ∈ uniText u, c.toUInt8.toUInt16 = c := by
    intro c hc
    obtain ⟨-, hlt⟩ := hchars c hc
    apply UInt16.toNat_inj.1
    have hnat : c.toNat < 256 := UInt16.lt_iff_toNat_lt.1 hlt
    rw [UInt8.toNat_toUInt16, UInt16.toNat_toUInt8]
    exact Nat.mod_eq_of_lt hnat
  rw [uniText_eq_text, List.take_of_length_le hlen]
  have hnonzero : cstr ((uniText u).map UInt16.toUInt8) = (uniText u).map UInt16.toUInt8 := by
    refine List.takeWhile_eq_self_iff.2 fun b hb => decide_eq_true fun hzero => ?_
    obtain ⟨c, hc, rfl⟩ := List.mem_map.1 hb
    have hback' := hback c hc
    rw [hzero] at hback'
    have hpos := (hchars c hc).1
    rw [← hback'] at hpos
    exact absurd hpos (by decide)
  rw [hnonzero]
  unfold wide
  rw [List.map_map]
  exact (List.map_congr_left hback).trans (List.map_id _)

/-! ## The table -/

section Table

variable {t : SLinks} {l tgt : List UInt8}

theorem firstHeld_linkEq (t : SLinks) (l : List UInt8) :
    (firstHeld symlinkMax t fun e => linkEq l e.link) = slotOf SymlinkEnt.link symlinkMax t l := by
  unfold slotOf
  congr 1
  funext e
  rw [Bool.eq_iff_iff, linkEq_iff, decide_eq_true_eq, eq_comm]

theorem resolve_eq (t : SLinks) (l : List UInt8) :
    ioSymlinkResolveAscii t (some l) =
      (lookupKey SymlinkEnt.link symlinkMax t l).map SymlinkEnt.target := by
  unfold ioSymlinkResolveAscii lookupKey
  dsimp only
  rw [firstHeld_linkEq, Option.map_bind]
  rfl

/-- No entry has the link and none is free. -/
def Full (t : SLinks) (l : List UInt8) : Prop :=
  slotOf SymlinkEnt.link symlinkMax t l = none ∧ firstFree symlinkMax t = none

theorem create_full (h : Full t l) (tgt : List UInt8) :
    ioSymlinkCreateAscii t (some l) (some tgt) = (t, false) := by
  unfold ioSymlinkCreateAscii
  dsimp only
  rw [firstHeld_linkEq, h.1]
  dsimp only
  rw [h.2]

/-- Creating a link of at most 63 characters, where there is room. -/
theorem create_short (hone : OneSlot SymlinkEnt.link symlinkMax t) (hl : l.length ≤ 63)
    (htgt : tgt.length ≤ 63) (hroom : ¬ Full t l) :
    ∃ t', ioSymlinkCreateAscii t (some l) (some tgt) = (t', true) ∧
      OneSlot SymlinkEnt.link symlinkMax t' ∧
      ∀ l', lookupKey SymlinkEnt.link symlinkMax t' l' =
        if l' = l then some ⟨l, tgt⟩ else lookupKey SymlinkEnt.link symlinkMax t l' := by
  have hput : ∀ i, Takes SymlinkEnt.link symlinkMax t l i →
      OneSlot SymlinkEnt.link symlinkMax (Function.update t i (some ⟨l, tgt⟩)) ∧
      ∀ l', lookupKey SymlinkEnt.link symlinkMax (Function.update t i (some ⟨l, tgt⟩)) l' =
        if l' = l then some ⟨l, tgt⟩ else lookupKey SymlinkEnt.link symlinkMax t l' := by
    intro i htakes
    exact ⟨htakes.oneSlot (y := ⟨l, tgt⟩) hone, htakes.lookupKey_put (y := ⟨l, tgt⟩) hone⟩
  unfold ioSymlinkCreateAscii
  dsimp only
  rw [firstHeld_linkEq, List.take_of_length_le hl, List.take_of_length_le htgt]
  cases hslot : slotOf SymlinkEnt.link symlinkMax t l with
  | some i =>
    obtain ⟨-, e, he, hlink⟩ := slotOf_some hslot
    dsimp only
    rw [he, Option.map_some, hlink]
    exact ⟨_, rfl, hput i (takes_slotOf hone hslot)⟩
  | none =>
    cases hfree : firstFree symlinkMax t with
    | some i => exact ⟨_, rfl, hput i (takes_firstFree hslot hfree)⟩
    | none => exact absurd ⟨hslot, hfree⟩ hroom

end Table

end MeuOS.Io
