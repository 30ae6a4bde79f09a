import MeuOS.Cm.Registry
import MeuOS.Mm.Pmm
import MeuOS.Ob.NamespaceLaws
import Mathlib.Data.List.TakeWhile

/-! Sections: a named object with a heap block behind it, and the views of that block. Headers
are in memory; the fields of a `SECTION_OBJECT` are a record by the body they are in. -/
namespace MeuOS.Mm

open MeuOS.Lib MeuOS.Ob
open MeuOS.Cm (UnicodeString uniToAscii)

def obTypeSection : UInt32 := 9
def sectionObjectSize : Nat := 88
def pageReadwrite : UInt32 := 4

def statusInvalidHandle : Nat := 0xC0000008
def statusNoMemory : Nat := 0xC0000017
def statusObjectNameNotFound : Nat := 0xC0000034

structure Section where
  size : UInt64
  base : UInt64
  protect : UInt32

structure SecState where
  ob : ObState
  sections : Nat → Section

/-- `char name[64]` after `uni_to_ascii`. -/
def asciiName (name : Option UnicodeString) : CString where
  chars := uniToAscii name 64
  terminated := by
    unfold uniToAscii
    split
    · exact fun h => absurd (List.mem_takeWhile_imp h) (by decide)
    · exact List.not_mem_nil

def nameOpt (name : Option UnicodeString) : Option CString :=
  if (asciiName name).chars = [] then none else some (asciiName name)

/-- `hdr` and `backing` are what the two calls of `kmalloc` answer. The loop that fills the
block with zeros writes `size` bytes. -/
def sectionCreateAnon (s : SecState) (hdr : Nat) (backing : UInt64) (size : UInt64)
    (name : Option CString) : SecState × Nat :=
  if size = 0 then (s, 0)
  else
    let r := obCreateObject s.ob hdr obTypeSection.toNat sectionObjectSize (name.map CString.chars)
    if r.2 = 0 then (s, 0)
    else
      let s := { ob := r.1
                 sections := Function.update s.sections r.2 ⟨size, backing, pageReadwrite⟩ }
      if backing = 0 then (s, 0)
      else ({ s with ob.mem := s.ob.mem.blit backing.toNat size.toNat fun _ => 0 }, r.2)

/-- Status, and what is stored through `SectionHandle`. -/
structure SectionReply where
  status : Nat
  sectionHandle : Option Nat := none

/-- `name` is none without `ObjectAttributes` or without `ObjectName` in them. -/
def ntCreateSection (s : SecState) (hdr : Nat) (backing : UInt64) (sectionHandle : Bool)
    (maximumSize : Option UInt64) (name : Option UnicodeString) (protect : UInt32) :
    SecState × SectionReply :=
  match sectionHandle, maximumSize with
  | true, some size =>
      let r := sectionCreateAnon s hdr backing size (nameOpt name)
      if r.2 = 0 then (r.1, ⟨statusNoMemory, none⟩)
      else
        let s := { r.1 with
          sections := Function.update r.1.sections r.2 { r.1.sections r.2 with protect } }
        let h := obCreateHandle s.ob r.2
        ({ s with ob := h.1 }, ⟨statusSuccess, some h.2⟩)
  | _, _ => (s, ⟨statusInvalidParameter, none⟩)

def ntOpenSection (s : SecState) (sectionHandle : Bool) (name : Option UnicodeString) :
    SecState × SectionReply :=
  match sectionHandle, name with
  | true, some name =>
      let body := obLookupObject s.ob (asciiName (some name))
      if body = 0 then (s, ⟨statusObjectNameNotFound, none⟩)
      else
        let h := obCreateHandle s.ob body
        ({ s with ob := h.1 }, ⟨statusSuccess, some h.2⟩)
  | _, _ => (s, ⟨statusInvalidParameter, none⟩)

/-- Status, `*BaseAddress` and the length of the view, also where `ViewSize` is null. -/
structure ViewReply where
  status : Nat
  baseAddress : UInt64 := 0
  viewSize : UInt64 := 0

/-- The length of the view, from the two arguments and `s->Size`. -/
def viewLength (size off : UInt64) (viewSize : Option UInt64) : UInt64 :=
  let vs := match viewSize with
    | some v => if v ≠ 0 then v else size - off
    | none => size - off
  if off + vs > size then size - off else vs

def ntMapViewOfSection (s : SecState) (h : Nat) (baseAddress : Bool)
    (sectionOffset viewSize : Option UInt64) : ViewReply :=
  if baseAddress then
    let body := obHandleToObject s.ob h obTypeSection.toNat
    if body = 0 then ⟨statusInvalidHandle, 0, 0⟩
    else
      let sec := s.sections body
      let off := sectionOffset.getD 0
      if off ≥ sec.size then ⟨statusInvalidParameter, 0, 0⟩
      else ⟨statusSuccess, sec.base + off, viewLength sec.size off viewSize⟩
  else ⟨statusInvalidParameter, 0, 0⟩

/-! ## The arithmetic of a view -/

/-- The requested end of the view, past `2^64`, looks as if it were inside the section. -/
def EndWraps (size off : UInt64) (viewSize : Option UInt64) : Prop :=
  ∃ v ∈ viewSize, 2 ^ 64 ≤ off.toNat + v.toNat ∧ off.toNat + v.toNat ≤ 2 ^ 64 + size.toNat

theorem viewLength_rest {size off : UInt64} {viewSize : Option UInt64} (h : ∀ v ∈ viewSize, v = 0) :
    viewLength size off viewSize = size - off := by
  unfold viewLength
  cases viewSize with
  | none => exact ite_self _
  | some v =>
    obtain rfl := h v rfl
    exact ite_self _

theorem viewLength_asked {size off v : UInt64} (hv : v ≠ 0) :
    viewLength size off (some v) = if off + v > size then size - off else v := by
  unfold viewLength
  simp only [ne_eq, hv, not_false_eq_true, if_true]

/-- A view of a section lies in its block unless the requested end wraps. -/
theorem view_inside {size base off : UInt64} {viewSize : Option UInt64} {granted : Nat}
    (hoff : off < size) (hsize : size.toNat ≤ granted) (hend : base.toNat + granted < 2 ^ 64) :
    (base.toNat ≤ (base + off).toNat ∧
      (base + off).toNat + (viewLength size off viewSize).toNat ≤ base.toNat + granted) ↔
        ¬ EndWraps size off viewSize := by
  have hoff' : off.toNat < size.toNat := UInt64.lt_iff_toNat_lt.1 hoff
  have hlt := size.toNat_lt
  have hstart : (base + off).toNat = base.toNat + off.toNat := by
    rw [UInt64.toNat_add, Nat.mod_eq_of_lt (by omega)]
  have hrest : (size - off).toNat = size.toNat - off.toNat :=
    UInt64.toNat_sub_of_le _ _ (UInt64.le_of_lt hoff)
  by_cases hasked : ∀ v ∈ viewSize, v = 0
  · rw [viewLength_rest hasked, hstart, hrest]
    refine iff_of_true (by omega) ?_
    rintro ⟨v, hv, hwrap, -⟩
    rw [hasked v hv, UInt64.toNat_zero] at hwrap
    omega
  · obtain ⟨v, hv, hne⟩ : ∃ v ∈ viewSize, v ≠ 0 := by simpa using hasked
    obtain rfl := Option.mem_def.1 hv
    have hvlt := v.toNat_lt
    have hwraps : EndWraps size off (some v) ↔
        2 ^ 64 ≤ off.toNat + v.toNat ∧ off.toNat + v.toNat ≤ 2 ^ 64 + size.toNat :=
      ⟨fun ⟨w, hw, hboth⟩ => Option.some.inj hw ▸ hboth, fun hboth => ⟨v, rfl, hboth⟩⟩
    rw [viewLength_asked hne, hstart, hwraps]
    have hsum : off + v > size ↔ size.toNat < (off.toNat + v.toNat) % 2 ^ 64 := by
      rw [gt_iff_lt, UInt64.lt_iff_toNat_lt, UInt64.toNat_add]
    by_cases hover : off + v > size
    · rw [if_pos hover, hrest]
      have hbig := hsum.1 hover
      refine iff_of_true (by omega) fun hboth => ?_
      rw [Nat.mod_eq_sub_mod hboth.1, Nat.mod_eq_of_lt (by omega)] at hbig
      omega
    · rw [if_neg hover]
      have hsmall := mt hsum.2 hover
      rcases Nat.lt_or_ge (off.toNat + v.toNat) (2 ^ 64) with hfit | hwrap
      · rw [Nat.mod_eq_of_lt hfit] at hsmall
        exact iff_of_true (by omega) fun hboth => by omega
      · rw [Nat.mod_eq_sub_mod hwrap, Nat.mod_eq_of_lt (by omega)] at hsmall
        refine iff_of_false (fun hboth => by omega) fun hnot => hnot ⟨hwrap, by omega⟩

end MeuOS.Mm
