import MeuOS.Mm.Section

/-! Runs of the section services, with every answer of `kmalloc`. -/
namespace MeuOS.Mm

open MeuOS.Lib MeuOS.Ob
open MeuOS.Cm (UnicodeString)

/-- Beside the system: the objects created, and the block behind each section. -/
structure SecWorld where
  st : SecState
  created : List Created
  blocks : List (Nat × Alloc)

inductive SecOp
  | create (hdr : Nat) (backing : Option Alloc) (sectionHandle : Bool) (maximumSize : Option UInt64)
      (name : Option UnicodeString) (protect : UInt32)
  | openSection (sectionHandle : Bool) (name : Option UnicodeString)
  | close (h : Nat)

def pointer (backing : Option Alloc) : UInt64 := UInt64.ofNat ((backing.map Alloc.ptr).getD 0)

/-- An object is made, whatever becomes of its block. -/
def makesObject (hdr : Nat) (sectionHandle : Bool) (maximumSize : Option UInt64) : Bool :=
  sectionHandle && maximumSize.any (· ≠ 0) && hdr ≠ 0

def secStep (w : SecWorld) : SecOp → SecWorld × SectionReply
  | .create hdr backing sectionHandle maximumSize name protect =>
      let r := ntCreateSection w.st hdr (pointer backing) sectionHandle maximumSize name protect
      let body := hdr + objectHeader
      (if makesObject hdr sectionHandle maximumSize then
        { st := r.1
          created := w.created ++ [⟨body, obTypeSection, nameOpt name⟩]
          blocks := (backing.toList.map fun a => (body, a)) ++ w.blocks }
      else { w with st := r.1 }, r.2)
  | .openSection sectionHandle name =>
      let r := ntOpenSection w.st sectionHandle name
      ({ w with st := r.1 }, r.2)
  | .close h => ({ w with st := { w.st with ob := obCloseHandle w.st.ob h } }, ⟨statusSuccess, none⟩)

/-- What `kmalloc` promises of a block of the heap, with the objects made before it: at least the
rounded size, and none of their headers inside. -/
structure Granted (bodies : List Nat) (n : Nat) (a : Alloc) : Prop where
  ptr_ne : a.ptr ≠ 0
  room : roundUp16 n ≤ a.granted
  bound : a.ptr + a.granted ≤ heapBase + heapSize
  apart : ∀ b ∈ bodies, a.ptr + a.granted ≤ b - objectHeader ∨ b ≤ a.ptr

/-- The heap keeps that promise when every object stands in a block in use. -/
theorem granted_of_heap {w w' : World} {bs : List Block} {n : Nat} {bodies : List Nat}
    (h : HeapInv w bs) (hfits : n + 15 < 2 ^ 64) (hstep : heapStep w (.kmalloc n) = some w')
    (hbodies : ∀ b ∈ bodies, ∃ c ∈ w.live, b = c.ptr + objectHeader ∧ objectHeader ≤ c.granted) :
    w'.live = w.live ∨ ∃ a, w'.live = a :: w.live ∧ Granted bodies n a := by
  have hrun := h.kmalloc n
  have hn : n < 2 ^ 64 := by omega
  obtain ⟨bs', hinv'⟩ := kmalloc_inv h hfits hstep
  simp only [heapStep, if_pos hn] at hstep
  cases hm : mallocList (roundUp16 n) bs with
  | none =>
    simp only [hm] at hrun
    simp only [hrun, Option.map_some, if_pos, Option.some.injEq] at hstep
    exact .inl (hstep ▸ rfl)
  | some r =>
    obtain ⟨bs₁, q⟩ := r
    simp only [hm] at hrun
    obtain ⟨m', hk, hchain, -⟩ := hrun
    obtain ⟨b, hb, granted, hfree, hle, rfl, hused⟩ := mallocList_used hm
    have hq : b.payload ≠ 0 := by simp [Block.payload, blockHeader]
    have hnew : ⟨b.addr, granted, false⟩ ∈ bs₁ := (hused _ rfl).mpr (.inl rfl)
    have hsize : blockSize m' (b.payload - blockHeader) = granted := by
      have := chain_mem hchain hnew
      simpa [Block.payload] using this
    simp only [hk, Option.map_some, if_neg hq, hsize, Option.some.injEq] at hstep
    have hbounds := tiles_bounds (mallocList_tiles h.tiles hm) hnew
    subst hstep
    have hsep := (List.pairwise_cons.1 hinv'.sound.disjoint).1
    refine .inr ⟨_, rfl, hq, hle, ?_, fun body hbody => ?_⟩
    · simp only [Block.stop, Block.payload] at hbounds ⊢
      omega
    · obtain ⟨c, hc, rfl, hroom⟩ := hbodies body hbody
      have hcsep := (hsep c hc).2
      simp only at hcsep ⊢
      omega

def secAllowed (w : SecWorld) : SecOp → Prop
  | .create hdr backing _ maximumSize _ _ =>
      (hdr = 0 ∨ Fresh (w.created.map Created.body) hdr sectionObjectSize) ∧
        ∀ a ∈ backing, Granted ((hdr + objectHeader) :: w.created.map Created.body)
          (maximumSize.getD 0).toNat a
  | _ => True

/-- Objects and handles as the rest of the kernel leaves them, and no section yet. -/
def SecStart (w : SecWorld) : Prop :=
  NsInv ⟨w.st.ob, w.created⟩ ∧ (∀ o ∈ w.created, o.type ≠ obTypeSection) ∧
    (∀ i, 1 ≤ i → i < maxHandles → w.st.ob.sHandles i ≠ 0 →
      ∃ o ∈ w.created, o.body = w.st.ob.sHandles i)

def SecStep (w : SecWorld) (op : SecOp) (w' : SecWorld) : Prop :=
  secAllowed w op ∧ w' = (secStep w op).1

/-- Rounding the size does not wrap, and a section with a name gets its block. -/
def SecMeets (_ : SecWorld) : SecOp → Prop
  | .create hdr backing _ maximumSize name _ =>
      (maximumSize.getD 0).toNat + 15 < 2 ^ 64 ∧
        (hdr ≠ 0 → (asciiName name).chars ≠ [] → backing.isSome)
  | _ => True

/-! ## The invariant -/

/-- The section in `body` stands on a block of its own, large enough. -/
def Backed (w : SecWorld) (body : Nat) : Prop :=
  ∃ a, (body, a) ∈ w.blocks ∧ (w.st.sections body).base.toNat = a.ptr ∧
    (w.st.sections body).size.toNat ≤ a.granted ∧ a.ptr + a.granted ≤ heapBase + heapSize

structure SecInv (w : SecWorld) : Prop where
  ns : NsInv ⟨w.st.ob, w.created⟩
  slots : ∀ i, 1 ≤ i → i < maxHandles → w.st.ob.sHandles i ≠ 0 →
    ∃ o ∈ w.created, o.body = w.st.ob.sHandles i
  backed : ∀ o ∈ w.created, o.type = obTypeSection → Backed w o.body ∨
    o.named = false ∧ ∀ i, 1 ≤ i → i < maxHandles → w.st.ob.sHandles i ≠ o.body

section Steps

variable {w : SecWorld}

/-- What `ob_create_handle` does to the slots: one of them gets the body, if one is free. -/
theorem createHandle_slots {s : ObState} {b i : Nat} (hb : b ≠ 0)
    (hi : (obCreateHandle s b).1.sHandles i ≠ s.sHandles i) : (obCreateHandle s b).1.sHandles i = b := by
  cases hslot : freeSlotLoop s.sHandles (maxHandles - 1) 1 with
  | none =>
    rw [obCreateHandle_full _ hslot] at hi
    exact absurd rfl hi
  | some j =>
    rw [obCreateHandle_eq hb hslot] at hi ⊢
    by_cases hij : i = j
    · rw [hij]
      exact Function.update_self ..
    · exact absurd (Function.update_of_ne hij ..) hi

theorem SecInv.createHandle {o : Created} (h : SecInv w) (ho : o ∈ w.created)
    (hgood : o.type = obTypeSection → Backed w o.body) :
    SecInv { w with st := { w.st with ob := (obCreateHandle w.st.ob o.body).1 } } := by
  have hne : o.body ≠ 0 := Nat.ne_of_gt (Nat.zero_lt_of_lt (h.ns.body_pos o ho))
  have hslots : ∀ i, (obCreateHandle w.st.ob o.body).1.sHandles i = w.st.ob.sHandles i ∨
      (obCreateHandle w.st.ob o.body).1.sHandles i = o.body := fun i =>
    or_iff_not_imp_left.2 fun hi => createHandle_slots hne hi
  refine ⟨nsInv_createHandle h.ns ho, fun i hlo hhi hused => ?_, fun o' ho' htype => ?_⟩
  · rcases hslots i with heq | heq
    · obtain ⟨o', ho', hbody⟩ := h.slots i hlo hhi (heq ▸ hused)
      exact ⟨o', ho', hbody.trans heq.symm⟩
    · exact ⟨o, ho, heq.symm⟩
  · by_cases hsame : o'.body = o.body
    · obtain rfl : o' = o := List.inj_on_of_nodup_map h.ns.nodup ho' ho hsame
      exact .inl (hgood htype)
    · refine (h.backed o' ho' htype).imp_right fun ⟨hname, hno⟩ => ⟨hname, fun i hlo hhi heq => ?_⟩
      rcases hslots i with hi | hi
      · exact hno i hlo hhi (hi.symm.trans heq)
      · exact hsame (heq.symm.trans hi)

theorem SecInv.openSection (h : SecInv w) (sectionHandle : Bool) (name : Option UnicodeString) :
    SecInv (secStep w (.openSection sectionHandle name)).1 := by
  unfold secStep ntOpenSection
  cases sectionHandle with
  | false => exact h
  | true =>
    cases name with
    | none => exact h
    | some name =>
      dsimp only
      by_cases hfound : obLookupObject w.st.ob (asciiName (some name)) = 0
      · rw [if_pos hfound]
        exact h
      · rw [if_neg hfound]
        obtain ⟨o, ho, hnamed, hbody⟩ := obLookupObject_mem h.ns hfound
        have hbody : o.body = obLookupObject w.st.ob (asciiName (some name)) := hbody
        rw [← hbody]
        refine h.createHandle ho fun htype => (h.backed o ho htype).resolve_right fun hbad => ?_
        rw [hbad.1] at hnamed
        cases hnamed

theorem closeHandle_slots (s : ObState) (v i : Nat) :
    (obCloseHandle s v).sHandles i = s.sHandles i ∨ (obCloseHandle s v).sHandles i = 0 := by
  cases hentry : handleEntry s v with
  | none =>
    rw [obCloseHandle_none hentry]
    exact .inl rfl
  | some e =>
    rw [obCloseHandle_eq hentry]
    by_cases hi : i = e.1
    · rw [hi]
      exact .inr (Function.update_self ..)
    · exact .inl (Function.update_of_ne hi ..)

theorem SecInv.close (h : SecInv w) (v : Nat) : SecInv (secStep w (.close v)).1 := by
  refine ⟨nsInv_closeHandle h.ns h.slots, fun i hlo hhi hused => ?_, fun o ho htype => ?_⟩
  · have hsame := (closeHandle_slots w.st.ob v i).resolve_right hused
    obtain ⟨o, ho, hbody⟩ := h.slots i hlo hhi (hsame ▸ hused)
    exact ⟨o, ho, hbody.trans hsame.symm⟩
  · refine (h.backed o ho htype).imp_right fun ⟨hname, hno⟩ => ⟨hname, fun i hlo hhi heq => ?_⟩
    have hpos := h.ns.body_pos o ho
    rcases closeHandle_slots w.st.ob v i with hi | hi
    · exact hno i hlo hhi (hi.symm.trans heq)
    · exact absurd (heq.symm.trans hi) (Nat.ne_of_gt (Nat.zero_lt_of_lt hpos))

/-! ## Creation -/

section Create

variable {hdr : Nat} {backing : Option Alloc} {size : UInt64} {name : Option UnicodeString}
  {protect : UInt32}

/-- The world once the object is made, before it gets a handle. -/
def withObject (w : SecWorld) (hdr : Nat) (backing : Option Alloc) (size : UInt64)
    (name : Option UnicodeString) (protect : UInt32) : SecWorld where
  st :=
    { ob := (obCreateObject w.st.ob hdr obTypeSection.toNat sectionObjectSize
        ((nameOpt name).map CString.chars)).1
      sections := Function.update w.st.sections (hdr + objectHeader) ⟨size, pointer backing, protect⟩ }
  created := w.created ++ [⟨hdr + objectHeader, obTypeSection, nameOpt name⟩]
  blocks := (backing.toList.map fun a => (hdr + objectHeader, a)) ++ w.blocks

/-- The block filled with zeros. -/
def zeroed (w : SecWorld) (base size : UInt64) : SecWorld :=
  { w with st.ob.mem := w.st.ob.mem.blit base.toNat size.toNat fun _ => 0 }

theorem obCreateObject_handles (s : ObState) (hdr type bodySize : Nat) (name : Option (List UInt8)) :
    (obCreateObject s hdr type bodySize name).1.sHandles = s.sHandles := by
  unfold obCreateObject
  split <;> rfl

theorem create_unmade {sectionHandle : Bool} {maximumSize : Option UInt64}
    (h : makesObject hdr sectionHandle maximumSize = false) :
    (secStep w (.create hdr backing sectionHandle maximumSize name protect)).1 = w ∧
      (secStep w (.create hdr backing sectionHandle maximumSize name protect)).2.status ≠ statusSuccess := by
  have hinvalid : statusInvalidParameter ≠ statusSuccess := by decide
  have hnoMemory : statusNoMemory ≠ statusSuccess := by decide
  dsimp only [secStep]
  rw [h]
  unfold ntCreateSection
  cases sectionHandle with
  | false => exact ⟨rfl, hinvalid⟩
  | true =>
    cases maximumSize with
    | none => exact ⟨rfl, hinvalid⟩
    | some size =>
      unfold sectionCreateAnon
      by_cases hsize : size = 0
      · simp only [if_pos hsize]
        exact ⟨rfl, hnoMemory⟩
      · have hhdr : hdr = 0 := by simpa [makesObject, hsize] using h
        have hnone : (obCreateObject w.st.ob hdr obTypeSection.toNat sectionObjectSize
            ((nameOpt name).map CString.chars)).2 = 0 := by rw [hhdr]; rfl
        simp only [if_neg hsize, if_pos hnone]
        exact ⟨rfl, hnoMemory⟩

variable (w name) in
theorem create_made (hhdr : hdr ≠ 0) (hsize : size ≠ 0) :
    makesObject hdr true (some size) = true ∧
      (obCreateObject w.st.ob hdr obTypeSection.toNat sectionObjectSize
        ((nameOpt name).map CString.chars)).2 = hdr + objectHeader := by
  unfold makesObject obCreateObject
  rw [if_neg hhdr]
  simp [hhdr, hsize]

theorem create_failed (hhdr : hdr ≠ 0) (hsize : size ≠ 0) (hnull : pointer backing = 0) :
    secStep w (.create hdr backing true (some size) name protect) =
      (withObject w hdr backing size name pageReadwrite, ⟨statusNoMemory, none⟩) := by
  obtain ⟨hmade, hbody⟩ := create_made w name hhdr hsize
  have hne : hdr + objectHeader ≠ 0 := Nat.ne_of_gt (Nat.add_pos_right hdr (by decide))
  unfold secStep ntCreateSection sectionCreateAnon withObject
  simp only [hmade, if_true, if_neg hsize, hbody, if_neg hne, hnull]

theorem create_done (hhdr : hdr ≠ 0) (hsize : size ≠ 0) (hptr : pointer backing ≠ 0) :
    secStep w (.create hdr backing true (some size) name protect) =
      (let w' := zeroed (withObject w hdr backing size name protect) (pointer backing) size
       let h := obCreateHandle w'.st.ob (hdr + objectHeader)
       ({ w' with st := { w'.st with ob := h.1 } }, ⟨statusSuccess, some h.2⟩)) := by
  obtain ⟨hmade, hbody⟩ := create_made w name hhdr hsize
  have hne : hdr + objectHeader ≠ 0 := Nat.ne_of_gt (Nat.add_pos_right hdr (by decide))
  unfold secStep ntCreateSection sectionCreateAnon withObject zeroed
  simp only [hmade, if_true, if_neg hsize, hbody, if_neg hne, if_neg hptr, Function.update_self,
    Function.update_idem]

variable (backing size name protect) in
theorem withObject_ns (h : NsInv ⟨w.st.ob, w.created⟩) (hhdr : hdr ≠ 0)
    (hfresh : Fresh (w.created.map Created.body) hdr sectionObjectSize) :
    NsInv ⟨(withObject w hdr backing size name protect).st.ob,
      (withObject w hdr backing size name protect).created⟩ := by
  have hns : NsInv (nsStep ⟨w.st.ob, w.created⟩
      (.create hdr obTypeSection sectionObjectSize (nameOpt name))) := nsInv_create h (.inr hfresh)
  have hcreated := (nsStep_create ⟨w.st.ob, w.created⟩ obTypeSection sectionObjectSize
    (nameOpt name) hhdr).1
  have heq : nsStep ⟨w.st.ob, w.created⟩
      (.create hdr obTypeSection sectionObjectSize (nameOpt name)) =
      ⟨(withObject w hdr backing size name protect).st.ob,
        (withObject w hdr backing size name protect).created⟩ :=
    congrArg (NsWorld.mk (withObject w hdr backing size name protect).st.ob) hcreated
  exact heq ▸ hns

theorem withObject_inv (h : SecInv w) (hhdr : hdr ≠ 0)
    (hfresh : Fresh (w.created.map Created.body) hdr sectionObjectSize)
    (hnew : Backed (withObject w hdr backing size name protect) (hdr + objectHeader) ∨
      Created.named ⟨hdr + objectHeader, obTypeSection, nameOpt name⟩ = false) :
    SecInv (withObject w hdr backing size name protect) := by
  have hns := withObject_ns backing size name protect h.ns hhdr hfresh
  have hslots : ∀ i, (withObject w hdr backing size name protect).st.ob.sHandles i =
      w.st.ob.sHandles i := fun i => congrFun (obCreateObject_handles ..) i
  have hother : ∀ o ∈ w.created, o.body ≠ hdr + objectHeader := by
    intro o ho
    have hnodup := hns.nodup
    rw [show (withObject w hdr backing size name protect).created =
      w.created ++ [⟨hdr + objectHeader, obTypeSection, nameOpt name⟩] from rfl, List.map_append,
      List.nodup_append] at hnodup
    exact hnodup.2.2 o.body (List.mem_map_of_mem ho) _ List.mem_cons_self
  have hused : ∀ i, 1 ≤ i → i < maxHandles →
      (withObject w hdr backing size name protect).st.ob.sHandles i ≠ hdr + objectHeader := by
    intro i hlo hhi heq
    rw [hslots i] at heq
    have hne : hdr + objectHeader ≠ 0 := Nat.ne_of_gt (Nat.add_pos_right hdr (by decide))
    obtain ⟨o, ho, hbody⟩ := h.slots i hlo hhi (heq ▸ hne)
    exact hother o ho (hbody.trans heq)
  refine ⟨hns, fun i hlo hhi hi => ?_, fun o ho htype => ?_⟩
  · rw [hslots i] at hi ⊢
    obtain ⟨o, ho, hbody⟩ := h.slots i hlo hhi hi
    exact ⟨o, List.mem_append_left _ ho, hbody⟩
  · rcases List.mem_append.1 ho with ho | ho
    · refine (h.backed o ho htype).imp (fun ⟨a, ha, hbase, hsize, hend⟩ => ?_)
        fun ⟨hname, hno⟩ => ⟨hname, fun i hlo hhi => hslots i ▸ hno i hlo hhi⟩
      have hsame : (withObject w hdr backing size name protect).st.sections o.body =
          w.st.sections o.body := Function.update_of_ne (hother o ho) ..
      exact ⟨a, List.mem_append_right _ ha, hsame ▸ hbase, hsame ▸ hsize, hend⟩
    · obtain rfl := List.mem_singleton.1 ho
      exact hnew.imp_right fun hname => ⟨hname, hused⟩

theorem zeroed_inv (base size : UInt64) (h : SecInv w)
    (hapart : ∀ o ∈ w.created, base.toNat + size.toNat ≤ o.body - objectHeader ∨ o.body ≤ base.toNat) :
    SecInv (zeroed w base size) :=
  ⟨h.ns.blit hapart, h.slots, h.backed⟩

theorem pointer_eq {bodies : List Nat} {n : Nat} (h : ∀ a ∈ backing, Granted bodies n a) :
    (∀ a ∈ backing, (pointer backing).toNat = a.ptr) ∧ (pointer backing = 0 ↔ backing = none) := by
  unfold pointer
  cases backing with
  | none => exact ⟨fun a ha => absurd ha (Option.not_mem_none a), iff_of_true rfl rfl⟩
  | some a =>
    have hgranted := h a rfl
    have hbound := hgranted.bound
    have hptr : (UInt64.ofNat a.ptr).toNat = a.ptr := by
      rw [UInt64.toNat_ofNat']
      simp only [heapBase, heapSize] at hbound
      exact Nat.mod_eq_of_lt (by omega)
    refine ⟨fun b hb => Option.some.inj hb ▸ hptr, iff_of_false (fun hzero => ?_) (Option.some_ne_none a)⟩
    have hzero' := congrArg UInt64.toNat hzero
    rw [Option.map_some, Option.getD_some, hptr] at hzero'
    exact hgranted.ptr_ne hzero'

/-- The arguments with which an object is made. -/
theorem makesObject_true {sectionHandle : Bool} {maximumSize : Option UInt64}
    (h : makesObject hdr sectionHandle maximumSize = true) :
    sectionHandle = true ∧ hdr ≠ 0 ∧ ∃ size, maximumSize = some size ∧ size ≠ 0 := by
  unfold makesObject at h
  rw [Bool.and_eq_true, Bool.and_eq_true, decide_eq_true_iff] at h
  obtain ⟨⟨hhandle, hany⟩, hhdr⟩ := h
  obtain ⟨size, hsize, hne⟩ := (Option.any_eq_true ..).1 hany
  exact ⟨hhandle, hhdr, size, hsize, of_decide_eq_true hne⟩

theorem nameOpt_unnamed (body : Nat) (hname : (asciiName name).chars = []) :
    Created.named ⟨body, obTypeSection, nameOpt name⟩ = false := by
  unfold nameOpt
  rw [if_pos hname]
  rfl

/-- Under the conditions, a section without a block has no name. -/
theorem unnamed_of_null {sectionHandle : Bool} (hhdr : hdr ≠ 0)
    (hok : secAllowed w (.create hdr backing sectionHandle (some size) name protect))
    (hmeets : SecMeets w (.create hdr backing sectionHandle (some size) name protect))
    (hnull : pointer backing = 0) : (asciiName name).chars = [] := by
  by_contra hname
  have hsome := hmeets.2 hhdr hname
  rw [(pointer_eq hok.2).2.1 hnull] at hsome
  cases hsome

theorem SecInv.create {sectionHandle : Bool} {maximumSize : Option UInt64} (h : SecInv w)
    (hok : secAllowed w (.create hdr backing sectionHandle maximumSize name protect))
    (hmeets : SecMeets w (.create hdr backing sectionHandle maximumSize name protect)) :
    SecInv (secStep w (.create hdr backing sectionHandle maximumSize name protect)).1 := by
  cases hmade : makesObject hdr sectionHandle maximumSize with
  | false =>
    rw [(create_unmade hmade).1]
    exact h
  | true =>
    obtain ⟨rfl, hhdr, size, rfl, hsize⟩ := makesObject_true hmade
    have hfresh := hok.1.resolve_left hhdr
    by_cases hnull : pointer backing = 0
    · rw [create_failed hhdr hsize hnull]
      exact withObject_inv h hhdr hfresh (.inr (nameOpt_unnamed _ (unnamed_of_null hhdr hok hmeets hnull)))
    · rw [create_done hhdr hsize hnull]
      obtain ⟨hptr, hnone⟩ := pointer_eq hok.2
      obtain ⟨a, rfl⟩ := Option.ne_none_iff_exists'.1 (mt hnone.2 hnull)
      have hgranted := hok.2 a rfl
      have hroom : size.toNat ≤ a.granted := (le_roundUp16 hmeets.1).trans hgranted.room
      have hback : Backed (withObject w hdr (some a) size name protect) (hdr + objectHeader) := by
        have hsec : (withObject w hdr (some a) size name protect).st.sections (hdr + objectHeader) =
            ⟨size, pointer (some a), protect⟩ := Function.update_self ..
        refine ⟨a, List.mem_cons_self, ?_, ?_, hgranted.bound⟩
        · rw [hsec]
          exact hptr a rfl
        · rw [hsec]
          exact hroom
      have hmadeInv := withObject_inv h hhdr hfresh (.inl hback)
      have hzero := zeroed_inv (pointer (some a)) size hmadeInv fun o ho => by
        have hmem : o.body ∈ (hdr + objectHeader) :: w.created.map Created.body := by
          rcases List.mem_append.1 ho with ho | ho
          · exact List.mem_cons_of_mem _ (List.mem_map_of_mem ho)
          · obtain rfl := List.mem_singleton.1 ho
            exact List.mem_cons_self
        have hapart := hgranted.apart o.body hmem
        rw [hptr a rfl]
        omega
      exact hzero.createHandle (o := ⟨hdr + objectHeader, obTypeSection, nameOpt name⟩)
        (List.mem_append_right _ List.mem_cons_self) fun _ => hback

end Create

end Steps

/-! ## Every run -/

theorem secReach_inv {w : SecWorld} (h : Reach SecStart SecStep SecMeets w) : SecInv w := by
  apply h.invariant
  · rintro w ⟨hns, hnone, hslots⟩
    exact ⟨hns, hslots, fun o ho htype => absurd htype (hnone o ho)⟩
  · rintro w op w' hw hmeets ⟨hok, rfl⟩
    cases op with
    | create hdr backing sectionHandle maximumSize name protect => exact hw.create hok hmeets
    | openSection sectionHandle name => exact hw.openSection sectionHandle name
    | close v => exact hw.close v

theorem obHandleToObject_ne {s : ObState} {v type : Nat} (hbody : obHandleToObject s v type ≠ 0)
    (htype : type ≠ obTypeNone) : ∃ i, 1 ≤ i ∧ i < maxHandles ∧
      s.sHandles i = obHandleToObject s v type ∧ objType s.mem (obHandleToObject s v type) = type := by
  unfold obHandleToObject at hbody ⊢
  cases hentry : handleEntry s v with
  | none =>
    rw [hentry] at hbody
    exact absurd rfl hbody
  | some e =>
    obtain ⟨i, b⟩ := e
    obtain ⟨-, hlo, hhi, hslot, -⟩ := handleEntry_eq_some.1 hentry
    rw [hentry] at hbody
    dsimp only at hbody ⊢
    by_cases hother : type ≠ obTypeNone ∧ objType s.mem b ≠ type
    · rw [if_pos hother] at hbody
      exact absurd rfl hbody
    · rw [if_neg hother]
      exact ⟨i, hlo, hhi, hslot, not_not.1 fun hne => hother ⟨htype, hne⟩⟩

/-- A handle to a section is a handle to one with a block. -/
theorem SecInv.of_handle {w : SecWorld} (h : SecInv w) {v : Nat}
    (hbody : obHandleToObject w.st.ob v obTypeSection.toNat ≠ 0) :
    Backed w (obHandleToObject w.st.ob v obTypeSection.toNat) := by
  obtain ⟨i, hlo, hhi, hslot, htype⟩ := obHandleToObject_ne hbody (by decide)
  obtain ⟨o, ho, hobody⟩ := h.slots i hlo hhi (hslot ▸ hbody)
  rw [← hslot, ← hobody] at htype ⊢
  have hsec : o.type = obTypeSection := UInt32.toNat_inj.1 ((h.ns.type_eq o ho).symm.trans htype)
  exact (h.backed o ho hsec).resolve_right fun hbad => hbad.2 i hlo hhi hobody.symm

/-- What a successful call saw. -/
theorem map_success {s : SecState} {v : Nat} {baseAddress : Bool} {sectionOffset viewSize : Option UInt64}
    (hok : (ntMapViewOfSection s v baseAddress sectionOffset viewSize).status = statusSuccess) :
    obHandleToObject s.ob v obTypeSection.toNat ≠ 0 ∧
      sectionOffset.getD 0 < (s.sections (obHandleToObject s.ob v obTypeSection.toNat)).size ∧
      ntMapViewOfSection s v baseAddress sectionOffset viewSize =
        ⟨statusSuccess,
          (s.sections (obHandleToObject s.ob v obTypeSection.toNat)).base + sectionOffset.getD 0,
          viewLength (s.sections (obHandleToObject s.ob v obTypeSection.toNat)).size
            (sectionOffset.getD 0) viewSize⟩ := by
  unfold ntMapViewOfSection at hok ⊢
  cases baseAddress with
  | false => cases hok
  | true =>
    rw [if_pos rfl] at hok ⊢
    dsimp only at hok ⊢
    by_cases hbody : obHandleToObject s.ob v obTypeSection.toNat = 0
    · rw [if_pos hbody] at hok
      cases hok
    · rw [if_neg hbody] at hok ⊢
      by_cases hoff : sectionOffset.getD 0 ≥ (s.sections (obHandleToObject s.ob v obTypeSection.toNat)).size
      · rw [if_pos hoff] at hok
        cases hok
      · rw [if_neg hoff]
        exact ⟨hbody, UInt64.not_le.1 hoff, rfl⟩

/-- A failed creation is invisible by name. -/
theorem SecInv.create_failed_lookup {w : SecWorld} (h : SecInv w) {hdr : Nat} {backing : Option Alloc}
    {sectionHandle : Bool} {maximumSize : Option UInt64} {name : Option UnicodeString}
    {protect : UInt32}
    (hok : secAllowed w (.create hdr backing sectionHandle maximumSize name protect))
    (hmeets : SecMeets w (.create hdr backing sectionHandle maximumSize name protect))
    (hfail : (secStep w (.create hdr backing sectionHandle maximumSize name protect)).2.status ≠
      statusSuccess) (n : CString) :
    obLookupObject (secStep w (.create hdr backing sectionHandle maximumSize name protect)).1.st.ob n =
      obLookupObject w.st.ob n := by
  cases hmade : makesObject hdr sectionHandle maximumSize with
  | false => rw [(create_unmade hmade).1]
  | true =>
    obtain ⟨rfl, hhdr, size, rfl, hsize⟩ := makesObject_true hmade
    by_cases hnull : pointer backing = 0
    · have hunnamed := nameOpt_unnamed (hdr + objectHeader)
        (unnamed_of_null hhdr hok hmeets hnull)
      have hns := withObject_ns backing size name pageReadwrite h.ns hhdr (hok.1.resolve_left hhdr)
      have hbefore := obLookupObject_eq h.ns n
      have hafter := obLookupObject_eq hns n
      rw [create_failed hhdr hsize hnull]
      refine hafter.trans (Eq.trans ?_ hbefore.symm)
      rw [show (withObject w hdr backing size name pageReadwrite).created =
        w.created ++ [⟨hdr + objectHeader, obTypeSection, nameOpt name⟩] from rfl, List.filter_append,
        List.filter_cons_of_neg (by rw [hunnamed]; exact Bool.false_ne_true), List.filter_nil,
        List.append_nil]
    · rw [create_done hhdr hsize hnull] at hfail
      exact absurd rfl hfail

/-- A view lies in the block of its section exactly when its end does not wrap, and a creation
that fails leaves nothing to open. -/
theorem sections_contained {w : SecWorld} (h : Reach SecStart SecStep SecMeets w) :
    (∀ v baseAddress sectionOffset viewSize,
      (ntMapViewOfSection w.st v baseAddress sectionOffset viewSize).status = statusSuccess →
      let body := obHandleToObject w.st.ob v obTypeSection.toNat
      let r := ntMapViewOfSection w.st v baseAddress sectionOffset viewSize
      ∃ a, (body, a) ∈ w.blocks ∧ (w.st.sections body).size.toNat ≤ a.granted ∧
        ((a.ptr ≤ r.baseAddress.toNat ∧
            r.baseAddress.toNat + r.viewSize.toNat ≤ a.ptr + a.granted) ↔
          ¬ EndWraps (w.st.sections body).size (sectionOffset.getD 0) viewSize)) ∧
    ∀ hdr backing sectionHandle maximumSize name protect,
      let op := SecOp.create hdr backing sectionHandle maximumSize name protect
      secAllowed w op → SecMeets w op → (secStep w op).2.status ≠ statusSuccess →
      ∀ n, obLookupObject (secStep w op).1.st.ob n = obLookupObject w.st.ob n := by
  have hinv := secReach_inv h
  refine ⟨fun v baseAddress sectionOffset viewSize hok => ?_,
    fun hdr backing sectionHandle maximumSize name protect hallowed hmeets hfail n =>
      hinv.create_failed_lookup hallowed hmeets hfail n⟩
  obtain ⟨hbody, hoff, heq⟩ := map_success hok
  obtain ⟨a, ha, hbase, hsize, hend⟩ := hinv.of_handle hbody
  refine ⟨a, ha, hsize, ?_⟩
  have hbound : heapBase + heapSize < 2 ^ 64 := by decide
  rw [heq, ← hbase]
  exact view_inside hoff hsize (by omega)

/-! ## Two short runs -/

/-- Nothing created yet. -/
def noSections : SecWorld := ⟨⟨⟨fun _ => 0, fun _ => 0, [], []⟩, fun _ => ⟨0, 0, 0⟩⟩, [], []⟩

theorem noSections_start : SecStart noSections :=
  ⟨nsReach_inv (.start ⟨rfl, rfl, rfl⟩), fun _ ho => absurd ho List.not_mem_nil, fun _ _ _ h => absurd rfl h⟩

/-- 16 bytes under the name A; the second allocation succeeds or not. -/
def createA (backing : Option Alloc) : SecOp :=
  .create 128 backing true (some 16) (some ⟨2, some fun _ => 65⟩) pageReadwrite

def heapBlock : Alloc := ⟨0x2001000, 16, 16⟩

theorem createA_allowed {backing : Option Alloc} (h : ∀ a ∈ backing, a = heapBlock) :
    secAllowed noSections (createA backing) := by
  refine ⟨.inr ⟨by decide, fun b hb => absurd hb List.not_mem_nil⟩, fun a ha => ?_⟩
  rw [h a ha]
  refine ⟨by decide, by decide, by decide, fun b hb => ?_⟩
  obtain rfl := List.mem_singleton.1 hb
  decide

theorem sections_contained_createA :
    let w := (secStep noSections (createA (some heapBlock))).1
    let r := ntMapViewOfSection w.st 4 true none none
    heapBlock.ptr ≤ r.baseAddress.toNat ∧
      r.baseAddress.toNat + r.viewSize.toNat ≤ heapBlock.ptr + heapBlock.granted := by
  have hreach : Reach SecStart SecStep SecMeets (secStep noSections (createA (some heapBlock))).1 :=
    .step (a := createA (some heapBlock)) (.start noSections_start) ⟨by decide, fun _ _ => rfl⟩
      ⟨createA_allowed fun a ha => (Option.some.inj ha).symm, rfl⟩
  obtain ⟨a, ha, -, hinside⟩ := (sections_contained hreach).1 4 true none none (by decide +kernel)
  obtain rfl : a = heapBlock := (Prod.mk.inj (List.mem_singleton.1 ha)).2
  exact hinside.2 fun ⟨v, hv, _⟩ => absurd hv (Option.not_mem_none v)

/-- The block of a named section could not be had: it can be opened all the same, and its view
starts at address 0. -/
theorem failed_section_mapped : ∃ w, Reach SecStart SecStep (fun _ _ => True) w ∧ w.blocks = [] ∧
    (secStep noSections (createA none)).2.status = statusNoMemory ∧
    (secStep (secStep noSections (createA none)).1 (.openSection true (some ⟨2, some fun _ => 65⟩))).2.status
      = statusSuccess ∧
    (ntMapViewOfSection w.st 4 true none none).status = statusSuccess ∧
    (ntMapViewOfSection w.st 4 true none none).baseAddress = 0 ∧
    (ntMapViewOfSection w.st 4 true none none).viewSize = 16 := by
  have hcreated : Reach SecStart SecStep (fun _ _ => True) (secStep noSections (createA none)).1 :=
    .step (a := createA none) (.start noSections_start) trivial
      ⟨createA_allowed fun a ha => absurd ha (Option.not_mem_none a), rfl⟩
  exact ⟨_, .step (a := .openSection true (some ⟨2, some fun _ => 65⟩)) hcreated trivial ⟨trivial, rfl⟩,
    rfl, by decide +kernel, by decide +kernel, by decide +kernel, by decide +kernel, by decide +kernel⟩

end MeuOS.Mm
