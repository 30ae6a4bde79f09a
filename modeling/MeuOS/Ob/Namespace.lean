import MeuOS.Lib.CString
import MeuOS.Ob.ObjectRuns
import MeuOS.Ps.Indexes

/-! The object namespace: lookup by name and enumeration by type over whatever
`ObCreateObject` recorded. -/
namespace MeuOS.Ob

open MeuOS.Lib MeuOS.Ps

/-! ## Lookup and enumeration -/

def lower (c : UInt8) : UInt8 := if 65 ≤ c ∧ c ≤ 90 then c + 32 else c

/-- `ieq` between a name in memory and a string of the caller. -/
def ieq (m : Mem) (a : Nat) : List UInt8 → Bool
  | [] => m a = 0
  | c :: cs => if m a = 0 then m a = c else if lower (m a) ≠ lower c then false else ieq m (a + 1) cs

/-- Names that `ieq` does not tell apart. -/
def sameName (a b : List UInt8) : Bool := a.map lower == b.map lower

def lookupNamed (m : Mem) (name : List UInt8) : List Nat → Nat
  | [] => 0
  | body :: rest => if ieq m (nameAt body) name then body else lookupNamed m name rest

def obLookupObject (s : ObState) (name : CString) : Nat := lookupNamed s.mem name.chars s.sNamed

def obEnumByType (s : ObState) (type : UInt32) (index : Int) : Nat :=
  if index < 0 then 0 else enumLoop (objType s.mem) type.toNat index.toNat s.sAll 0

def obCountByType (s : ObState) (type : UInt32) : Nat :=
  s.sAll.countP fun body => body ≠ 0 ∧ objType s.mem body = type.toNat

/-! ## Runs -/

/-- An object as its creator sees it. -/
structure Created where
  body : Nat
  type : UInt32
  name : Option CString

namespace Created

def chars (o : Created) : List UInt8 := (o.name.map CString.chars).getD []

def named (o : Created) : Bool := o.chars ≠ []

def hasName (o : Created) (n : CString) : Bool := o.name.any fun n' => sameName n'.chars n.chars

theorem named_iff (o : Created) : o.named = true ↔ o.chars ≠ [] := decide_eq_true_iff

/-- What is left of the name in the header. -/
def stored (o : Created) : List UInt8 := o.chars.take 63

end Created

/-- `created` are the objects so far, the oldest first. -/
structure NsWorld where
  ob : ObState
  created : List Created

inductive NsOp
  | create (hdr : Nat) (type : UInt32) (bodySize : Nat) (name : Option CString)
  /-- Any other store: counters, bodies, memory that is no object. -/
  | store (i : Nat) (v : UInt8)

/-- Types and names are written by `ObCreateObject` only, and `kmalloc` fails or returns a block
that is nobody's header. -/
def nsAllowed (s : NsWorld) : NsOp → Prop
  | .create hdr _ bodySize _ => hdr = 0 ∨ Fresh (s.created.map Created.body) hdr bodySize
  | .store i _ => ∀ o ∈ s.created, (i < typeAt o.body ∨ typeAt o.body + 4 ≤ i) ∧
      (i < nameAt o.body ∨ nameAt o.body + 64 ≤ i)

def nsStep (s : NsWorld) : NsOp → NsWorld
  | .create hdr type bodySize name =>
      let r := obCreateObject s.ob hdr type.toNat bodySize (name.map CString.chars)
      { ob := r.1
        created := if r.2 = 0 then s.created else s.created ++ [⟨r.2, type, name⟩] }
  | .store i v => { s with ob := { s.ob with mem := s.ob.mem.put i v } }

def NsStart (s : NsWorld) : Prop := s.ob.sNamed = [] ∧ s.ob.sAll = [] ∧ s.created = []

def NsStep (s : NsWorld) (op : NsOp) (s' : NsWorld) : Prop := nsAllowed s op ∧ s' = nsStep s op

/-- The arrays hold the first objects that were to be put into them, and the headers still say
what was written there. -/
structure NsInv (s : NsWorld) : Prop where
  body_pos : ∀ o ∈ s.created, objectHeader < o.body
  apart : s.created.Pairwise fun o o' =>
    o'.body ≤ o.body - objectHeader ∨ o.body ≤ o'.body - objectHeader
  type_eq : ∀ o ∈ s.created, objType s.ob.mem o.body = o.type.toNat
  name_eq : ∀ o ∈ s.created, s.ob.mem.Str (nameAt o.body) o.stored
  named_eq : s.ob.sNamed = ((s.created.filter Created.named).take maxNamed).map Created.body
  all_eq : s.ob.sAll = (s.created.take maxObjects).map Created.body

section Create

variable {s : NsWorld} {hdr : Nat} {type : UInt32} {bodySize : Nat} {name : Option CString}

/-- An array that stops recording holds the first `cap` of everything. -/
theorem record_eq {α : Type} (cap : Nat) (l : List α) (x : α) :
    (if (l.take cap).length < cap then l.take cap ++ [x] else l.take cap) = (l ++ [x]).take cap := by
  rw [List.length_take]
  by_cases hroom : l.length < cap
  · rw [if_pos (by omega), List.take_of_length_le (Nat.le_of_lt hroom),
      List.take_of_length_le (by rw [List.length_append]; exact hroom)]
  · rw [if_neg (by omega), List.take_append_of_le_length (Nat.not_lt.1 hroom)]

/-- A header as `ObCreateObject` writes it, and nothing else touched. -/
theorem obCreateObject_mem (s : NsWorld) (type : UInt32) (bodySize : Nat) (name : Option CString)
    (hhdr : hdr ≠ 0) :
    let m := (obCreateObject s.ob hdr type.toNat bodySize (name.map CString.chars)).1.mem
    objType m (hdr + objectHeader) = type.toNat ∧
      m.Str (nameAt (hdr + objectHeader)) (((name.map CString.chars).getD []).take 63) ∧
      ∀ i, i < hdr ∨ hdr + objectHeader + bodySize ≤ i → m i = s.ob.mem i := by
  have htype := type.toNat_lt
  have hshort : (((name.map CString.chars).getD []).take 63).length ≤ 63 := List.length_take_le ..
  unfold obCreateObject
  rw [if_neg hhdr]
  refine ⟨?_, ?_, fun i hi => ?_⟩
  · simp (disch := omega) only [objType, writeName, typeAt, refCountAt, handleCountAt, nameAt,
      objectHeader, Mem.rd32, Mem.read_blit_of_disjoint, Mem.read_write_of_disjoint,
      Mem.read_write_of_lt]
  · dsimp only [writeName]
    refine (Mem.str_copy _ _ _).congr fun i _ hhi => (Mem.blit_outside _ _ (.inl ?_)).symm
    simp only [nameAt, objectHeader] at hhi ⊢
    omega
  · simp only [objectHeader] at hi
    simp (disch := omega) only [writeName, typeAt, refCountAt, handleCountAt, nameAt,
      objectHeader, Mem.blit_outside, Mem.write_outside]

theorem header_kept {m m' : Mem} {o : Created}
    (htype : Mem.Agree m m' (typeAt o.body) (typeAt o.body + 4))
    (hname : Mem.Agree m m' (nameAt o.body) (nameAt o.body + 64))
    (hold : objType m o.body = o.type.toNat ∧ m.Str (nameAt o.body) o.stored) :
    objType m' o.body = o.type.toNat ∧ m'.Str (nameAt o.body) o.stored := by
  have hshort : o.stored.length ≤ 63 := List.length_take_le ..
  refine ⟨(Mem.rd32_congr htype).symm.trans hold.1, hold.2.congr (hname.mono (Nat.le_refl _) ?_)⟩
  omega

/-- Whatever leaves types and names alone. -/
theorem NsInv.frame {ob : ObState} (h : NsInv s) (hnamed : ob.sNamed = s.ob.sNamed)
    (hall : ob.sAll = s.ob.sAll)
    (hmem : ∀ o ∈ s.created, Mem.Agree s.ob.mem ob.mem (typeAt o.body) (typeAt o.body + 4) ∧
      Mem.Agree s.ob.mem ob.mem (nameAt o.body) (nameAt o.body + 64)) : NsInv ⟨ob, s.created⟩ := by
  have hkept : ∀ o ∈ s.created, objType ob.mem o.body = o.type.toNat ∧
      ob.mem.Str (nameAt o.body) o.stored := fun o ho =>
    header_kept (hmem o ho).1 (hmem o ho).2 ⟨h.type_eq o ho, h.name_eq o ho⟩
  exact ⟨h.body_pos, h.apart, fun o ho => (hkept o ho).1, fun o ho => (hkept o ho).2,
    hnamed.trans h.named_eq, hall.trans h.all_eq⟩

theorem nsInv_store {i : Nat} {v : UInt8} (h : NsInv s) (hi : nsAllowed s (.store i v)) :
    NsInv (nsStep s (.store i v)) := by
  refine h.frame rfl rfl fun o ho => ⟨fun j hlo hhi => ?_, fun j hlo hhi => ?_⟩
  all_goals
    obtain ⟨htype, hname⟩ := hi o ho
    exact (Mem.put_other _ _ (by omega)).symm

/-- A block filled that holds no header. -/
theorem NsInv.blit {a n : Nat} {f : Nat → UInt8} (h : NsInv s)
    (hapart : ∀ o ∈ s.created, a + n ≤ o.body - objectHeader ∨ o.body ≤ a) :
    NsInv ⟨{ s.ob with mem := s.ob.mem.blit a n f }, s.created⟩ := by
  refine h.frame rfl rfl fun o ho => ⟨fun i hlo hhi => ?_, fun i hlo hhi => ?_⟩
  all_goals
    have hpos := h.body_pos o ho
    have hout := hapart o ho
    simp only [objectHeader, typeAt, nameAt] at hpos hout hlo hhi
    exact (Mem.blit_outside _ _ (by omega)).symm

theorem NsInv.apart_of_ne (h : NsInv s) {o o' : Created} (ho : o ∈ s.created) (ho' : o' ∈ s.created)
    (hne : o ≠ o') : o'.body ≤ o.body - objectHeader ∨ o.body ≤ o'.body - objectHeader := by
  have hsymm : Std.Symm fun o o' : Created =>
      o'.body ≤ o.body - objectHeader ∨ o.body ≤ o'.body - objectHeader := ⟨fun _ _ => Or.symm⟩
  exact h.apart.forall ho ho' hne

/-- Counting a handle of an object. -/
theorem NsInv.count {o : Created} (h : NsInv s) (ho : o ∈ s.created) (d : Nat) (t : Nat → Nat) :
    NsInv ⟨{ s.ob with
      sHandles := t
      mem := addInt32 (addInt32 s.ob.mem (handleCountAt o.body) d) (refCountAt o.body) d },
      s.created⟩ := by
  have hpos := h.body_pos o ho
  refine h.frame rfl rfl fun o' ho' => ⟨fun j hlo hhi => ?_, fun j hlo hhi => ?_⟩
  all_goals
    have hpos' := h.body_pos o' ho'
    have hsep : o' = o ∨ o'.body ≤ o.body - objectHeader ∨ o.body ≤ o'.body - objectHeader :=
      or_iff_not_imp_left.2 fun hother => h.apart_of_ne ho ho' (Ne.symm hother)
    simp only [objectHeader, typeAt, nameAt] at hpos hpos' hsep hlo hhi
    refine (Eq.trans (addInt32_outside _ ?_) (addInt32_outside _ ?_)).symm
    all_goals
      simp only [refCountAt, handleCountAt, objectHeader]
      rcases hsep with rfl | hsep
      · omega
      · omega

theorem nsInv_createHandle {o : Created} (h : NsInv s) (ho : o ∈ s.created) :
    NsInv ⟨(obCreateHandle s.ob o.body).1, s.created⟩ := by
  have hne : o.body ≠ 0 := Nat.ne_of_gt (Nat.zero_lt_of_lt (h.body_pos o ho))
  cases hslot : freeSlotLoop s.ob.sHandles (maxHandles - 1) 1 with
  | none =>
    rw [obCreateHandle_full _ hslot]
    exact h
  | some i =>
    rw [obCreateHandle_eq hne hslot]
    exact h.count ho 1 _

theorem nsInv_closeHandle {v : Nat} (h : NsInv s)
    (hslots : ∀ i, 1 ≤ i → i < maxHandles → s.ob.sHandles i ≠ 0 →
      ∃ o ∈ s.created, o.body = s.ob.sHandles i) : NsInv ⟨obCloseHandle s.ob v, s.created⟩ := by
  cases hentry : handleEntry s.ob v with
  | none =>
    rw [obCloseHandle_none hentry]
    exact h
  | some e =>
    obtain ⟨i, b⟩ := e
    obtain ⟨-, hlo, hhi, hslot, hb⟩ := handleEntry_eq_some.1 hentry
    obtain ⟨o, ho, hbody⟩ := hslots i hlo hhi (hslot ▸ hb)
    rw [obCloseHandle_eq hentry, ← hslot, ← hbody]
    exact h.count ho 4294967295 _

/-- A successful call: the new header and one more entry in each array that has room. -/
theorem nsStep_create (s : NsWorld) (type : UInt32) (bodySize : Nat) (name : Option CString)
    (hhdr : hdr ≠ 0) :
    let o : Created := ⟨hdr + objectHeader, type, name⟩
    let s' := nsStep s (.create hdr type bodySize name)
    s'.created = s.created ++ [o] ∧
      s'.ob.sNamed = (if o.named ∧ s.ob.sNamed.length < maxNamed then s.ob.sNamed ++ [o.body]
        else s.ob.sNamed) ∧
      s'.ob.sAll = if s.ob.sAll.length < maxObjects then s.ob.sAll ++ [o.body] else s.ob.sAll := by
  have hbody : hdr + objectHeader ≠ 0 := Nat.ne_of_gt (Nat.add_pos_right hdr (by decide))
  unfold nsStep obCreateObject
  simp only [if_neg hhdr, if_neg hbody, true_and, and_true]
  exact if_congr (and_congr_left' (Created.named_iff ⟨hdr + objectHeader, type, name⟩).symm) rfl rfl

theorem nsInv_create (h : NsInv s) (hok : nsAllowed s (.create hdr type bodySize name)) :
    NsInv (nsStep s (.create hdr type bodySize name)) := by
  by_cases hhdr : hdr = 0
  · subst hhdr
    exact h
  obtain ⟨-, hfresh⟩ := hok.resolve_left hhdr
  obtain ⟨htype, hname, hother⟩ := obCreateObject_mem s type bodySize name hhdr
  obtain ⟨hcreated, hnamed, hall⟩ := nsStep_create s type bodySize name hhdr
  have hsep : ∀ o ∈ s.created, hdr + objectHeader + bodySize ≤ o.body - objectHeader ∨ o.body ≤ hdr :=
    fun o ho => hfresh o.body (List.mem_map_of_mem ho)
  have hkept : ∀ o ∈ s.created,
      objType (nsStep s (.create hdr type bodySize name)).ob.mem o.body = o.type.toNat ∧
      (nsStep s (.create hdr type bodySize name)).ob.mem.Str (nameAt o.body) o.stored := by
    intro o ho
    have hpos := h.body_pos o ho
    have hapart := hsep o ho
    refine header_kept (fun i hlo hhi => ?_) (fun i hlo hhi => ?_) ⟨h.type_eq o ho, h.name_eq o ho⟩
    all_goals
      simp only [objectHeader, typeAt, nameAt] at hpos hapart hlo hhi
      exact (hother i (by simp only [objectHeader]; omega)).symm
  constructor
  · rw [hcreated]
    intro o ho
    rcases List.mem_append.1 ho with ho | ho
    · exact h.body_pos o ho
    · obtain rfl := List.mem_singleton.1 ho
      exact Nat.lt_add_of_pos_left (Nat.pos_of_ne_zero hhdr)
  · rw [hcreated, List.pairwise_append]
    refine ⟨h.apart, List.pairwise_singleton _ _, fun o ho o' ho' => ?_⟩
    obtain rfl := List.mem_singleton.1 ho'
    have hapart := hsep o ho
    simp only
    omega
  · rw [hcreated]
    intro o ho
    rcases List.mem_append.1 ho with ho | ho
    · exact (hkept o ho).1
    · obtain rfl := List.mem_singleton.1 ho
      exact htype
  · rw [hcreated]
    intro o ho
    rcases List.mem_append.1 ho with ho | ho
    · exact (hkept o ho).2
    · obtain rfl := List.mem_singleton.1 ho
      exact hname
  · rw [hnamed, hcreated, h.named_eq, List.length_map, List.filter_append]
    by_cases hn : Created.named ⟨hdr + objectHeader, type, name⟩
    · rw [List.filter_cons_of_pos hn, List.filter_nil, ← record_eq]
      by_cases hroom : ((s.created.filter Created.named).take maxNamed).length < maxNamed
      · rw [if_pos ⟨hn, hroom⟩, if_pos hroom, List.map_append]
        rfl
      · rw [if_neg fun hboth => hroom hboth.2, if_neg hroom]
    · rw [List.filter_cons_of_neg hn, List.filter_nil, List.append_nil, if_neg fun hboth => hn hboth.1]
  · rw [hall, hcreated, h.all_eq, List.length_map, ← record_eq]
    split
    · rw [List.map_append]
      rfl
    · rfl

end Create

end MeuOS.Ob
