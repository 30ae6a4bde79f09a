import MeuOS.Syscall.Services

/-! Runs of the services, with every answer of `kmalloc` and everything that drivers, children
and the rest of the kernel may do to the objects. -/
namespace MeuOS.Syscall

open MeuOS.Lib MeuOS.Ob
open MeuOS.Cm (UnicodeString)
open MeuOS.Lpc (pipeOpened)
open MeuOS.Mm (Alloc Granted makesObject secStep)
open MeuOS.Ps (psCreateProcess)

/-! ## Other code -/

inductive Act
  | object (op : NsOp)
  | handle (body : Nat)
  | close (h : Nat)
  /-- Whatever is no call of the object manager and no store into a header. -/
  | other (s : Services)

def actStep (s : Services) : Act → Services
  | .object op =>
      let n := nsStep ⟨s.ob, s.created⟩ op
      { s.setOb n.ob with created := n.created }
  | .handle body => s.setOb (obCreateHandle s.ob body).1
  | .close h => s.setOb (obCloseHandle s.ob h)
  | .other s' => { s'.setOb s.ob with created := s.created }

def actAllowed (s : Services) : Act → Prop
  | .object op => nsAllowed ⟨s.ob, s.created⟩ op
  | .handle body => ∃ o ∈ s.created, o.body = body
  | _ => True

def runActs (acts : List Act) (s : Services) : Services := acts.foldl actStep s

def actsAllowed : Services → List Act → Prop
  | _, [] => True
  | s, a :: acts => actAllowed s a ∧ actsAllowed (actStep s a) acts

/-! ## Calls -/

inductive Call
  | createFile (hdr : Nat) (driver : List Act) (volume : Option (Option (Nat × Bool)))
      (volumeDevice : Nat) (name : CString)
  | createProcess (hdr : Nat) (child : List Act)
  | createThread (hproc start hdr kt : Nat)
  | createNamedPipe (hdrPipe hdrFile : Nat) (name : CString)
  | createSection (hdr : Nat) (backing : Option Alloc) (sectionHandle : Bool)
      (maximumSize : Option UInt64) (name : Option UnicodeString) (protect : UInt32)
  | openSection (sectionHandle : Bool) (name : Option UnicodeString)

def serve (s : Services) : Call → Reply × Services
  | .createFile hdr driver volume volumeDevice name =>
      sysCreateFile s hdr (runActs driver) volume volumeDevice name
  | .createProcess hdr child => sysCreateProcess s hdr (runActs child)
  | .createThread hproc start hdr kt => sysCreateThread s hproc start hdr kt
  | .createNamedPipe hdrPipe hdrFile name => sysCreateNamedPipe s hdrPipe hdrFile name
  | .createSection hdr backing sectionHandle maximumSize name protect =>
      onSections s (.create hdr backing sectionHandle maximumSize name protect)
  | .openSection sectionHandle name => onSections s (.openSection sectionHandle name)

/-- The state in which the driver of a file is called. -/
def driverEntry (s : Services) (hdr : Nat) (volume : Option (Option (Nat × Bool)))
    (volumeDevice : Nat) (name : CString) : Services :=
  let r := newFile s hdr
  match volume with
  | some (some info) => { setFile r.1 r.2 ⟨volumeDevice, 0, info.1, 0, info.2⟩ with target := info }
  | _ => setFile r.1 r.2 ⟨obLookupObject s.ob name, 0, 0, 0, false⟩

/-- The state in which a child starts. -/
def childEntry (s : Services) (hdr : Nat) : Services :=
  let r := newObject s hdr obTypeProcess eprocessSize none
  (giveHandle { r.1 with ps := (psCreateProcess s.ps hdr).1 } r.2).2

/-- `kmalloc` fails or returns a block that is nobody's. -/
def hdrAllowed (s : Services) (hdr bodySize : Nat) : Prop :=
  hdr = 0 ∨ Fresh (s.created.map Created.body) hdr bodySize

/-- The fill of a block smaller than asked for runs into memory that is not mapped, and the call
does not return. -/
def callAllowed (s : Services) : Call → Prop
  | .createFile hdr driver volume volumeDevice name =>
      hdrAllowed s hdr fileObjectSize ∧
        actsAllowed (driverEntry s hdr volume volumeDevice name) driver
  | .createProcess hdr child =>
      hdrAllowed s hdr eprocessSize ∧ actsAllowed (childEntry s hdr) child
  | .createThread _ _ hdr _ => hdrAllowed s hdr Ke.ethreadSize
  | .createNamedPipe hdrPipe hdrFile name =>
      hdrAllowed s hdrPipe pipeObjectSize ∧
        hdrAllowed (pipeCreate s hdrPipe name).1 hdrFile fileObjectSize
  | .createSection hdr backing _ maximumSize _ _ =>
      hdrAllowed s hdr Mm.sectionObjectSize ∧
        ∀ a ∈ backing, Granted ((hdr + objectHeader) :: s.created.map Created.body)
          (maximumSize.getD 0).toNat a ∧ (maximumSize.getD 0).toNat ≤ a.granted
  | .openSection _ _ => True

inductive Op
  | call (c : Call)
  | act (a : Act)

/-- Handles of objects only, and nothing known of the rest. -/
structure Sound (s : Services) : Prop where
  ns : NsInv ⟨s.ob, s.created⟩
  slots : ∀ i, 1 ≤ i → i < maxHandles → s.ob.sHandles i ≠ 0 →
    ∃ o ∈ s.created, o.body = s.ob.sHandles i

def ServStart (s : Services) : Prop :=
  NsStart ⟨s.ob, s.created⟩ ∧ ∀ i, 1 ≤ i → i < maxHandles → s.ob.sHandles i = 0

def ServStep (s : Services) (op : Op) (s' : Services) : Prop :=
  match op with
  | .call c => callAllowed s c ∧ s' = (serve s c).2
  | .act a => actAllowed s a ∧ s' = actStep s a

/-! ## What the services promise -/

def SlotFree (s : ObState) : Prop := ∃ i, 1 ≤ i ∧ i < maxHandles ∧ s.sHandles i = 0

/-- The object a handle is for, and its type. -/
def subject (s : Services) : Call → Nat × Nat
  | .createFile hdr _ _ _ _ => (hdr + objectHeader, obTypeFile.toNat)
  | .createProcess hdr _ => (hdr + objectHeader, obTypeProcess.toNat)
  | .createThread _ _ hdr _ => (hdr + objectHeader, obTypeThread.toNat)
  | .createNamedPipe _ hdrFile _ => (hdrFile + objectHeader, obTypeFile.toNat)
  | .createSection hdr _ _ _ _ _ => (hdr + objectHeader, Mm.obTypeSection.toNat)
  | .openSection _ name =>
      let body := obLookupObject s.ob (Mm.asciiName name)
      (body, obTypeOf s.ob body)

def Truthful (s : Services) (c : Call) : Prop :=
  (serve s c).1.status = statusSuccess → (serve s c).1.handle ≠ 0 ∧ (subject s c).1 ≠ 0 ∧
    obHandleToObject (serve s c).2.ob (serve s c).1.handle (subject s c).2 = (subject s c).1

/-- Names, handles, pipes, sections, processes and threads are as before. -/
structure Unchanged (s s' : Services) : Prop where
  lookup : ∀ n, obLookupObject s'.ob n = obLookupObject s.ob n
  handles : s'.ob.sHandles = s.ob.sHandles
  pipes : ∀ o ∈ s.created, s'.pipes o.body = s.pipes o.body
  sections : ∀ o ∈ s.created, s'.sections o.body = s.sections o.body
  ps : s'.ps = s.ps
  listed : ∀ type, type = obTypeProcess ∨ type = obTypeThread →
    ∀ index, obEnumByType s'.ob type index = obEnumByType s.ob type index

def Atomic (s : Services) (c : Call) : Prop :=
  (serve s c).1.status ≠ statusSuccess → Unchanged s (serve s c).2

/-- The links that nobody checks hold: there is a slot where a handle is made, the child leaves
its slot alone, and nothing was to be seen of a pipe or a section when memory ran out. -/
def Meets (s : Services) : Call → Prop
  | .createFile hdr driver volume volumeDevice name =>
      match volume with
      | some none => True
      | some (some _) => hdr ≠ 0 → volumeDevice ≠ 0 →
          SlotFree (runActs driver (driverEntry s hdr volume volumeDevice name)).ob
      | none =>
          if isPipeName name then
            let pipe := (pipeOpen s name).2
            pipe ≠ 0 →
              if hdr = 0 then pipeOpened (s.pipes pipe) = s.pipes pipe else SlotFree s.ob
          else
            let dev := obLookupObject s.ob name
            dev ≠ 0 → obTypeOf s.ob dev = obTypeDevice.toNat → hdr ≠ 0 →
              SlotFree (runActs driver (driverEntry s hdr volume volumeDevice name)).ob
  | .createProcess hdr child => hdr ≠ 0 →
      ∃ i, freeSlotLoop s.ob.sHandles (maxHandles - 1) 1 = some i ∧
        (runActs child (childEntry s hdr)).ob.sHandles i = hdr + objectHeader
  | .createThread hproc _ hdr _ =>
      Ke.threadProcess s.threads hproc ≠ 0 → hdr ≠ 0 → SlotFree s.ob
  | .createNamedPipe hdrPipe hdrFile name =>
      obLookupObject s.ob (pipeNormalizeName name) = 0 → hdrPipe ≠ 0 →
        if hdrFile = 0 then maxNamed ≤ s.ob.sNamed.length else SlotFree s.ob
  | .createSection hdr backing sectionHandle maximumSize name _ =>
      makesObject hdr sectionHandle maximumSize = true →
        if backing.isNone then
          (Mm.asciiName name).chars = [] ∨ maxNamed ≤ s.ob.sNamed.length ∨
            obLookupObject s.ob (Mm.asciiName name) ≠ 0
        else SlotFree s.ob
  | .openSection sectionHandle name =>
      sectionHandle = true → name.isSome → obLookupObject s.ob (Mm.asciiName name) ≠ 0 →
        SlotFree s.ob

/-! ## One object, one handle -/

section Pieces

variable {s s' : Services}

theorem Sound.congr (h : Sound s) (hob : s'.ob = s.ob) (hcreated : s'.created = s.created) :
    Sound s' := by
  constructor
  · rw [hob, hcreated]
    exact h.ns
  · rw [hob, hcreated]
    exact h.slots

theorem slotFree_iff (s : ObState) :
    SlotFree s ↔ ∃ i, freeSlotLoop s.sHandles (maxHandles - 1) 1 = some i := by
  constructor
  · rintro ⟨i, hlo, hhi, hfree⟩
    refine Option.ne_none_iff_exists'.1 fun hnone => ?_
    exact freeSlotLoop_none.1 hnone i hlo (by simp only [maxHandles] at hhi ⊢; omega) hfree
  · rintro ⟨i, hi⟩
    obtain ⟨hlo, hhi, hfree⟩ := freeSlotLoop_some hi
    exact ⟨i, hlo, by simp only [maxHandles] at hhi ⊢; omega, hfree⟩

theorem newObject_body {hdr : Nat} (hhdr : hdr ≠ 0) (type : UInt32) (bodySize : Nat)
    (name : Option CString) :
    (newObject s hdr type bodySize name).2 = hdr + objectHeader ∧
      (newObject s hdr type bodySize name).1.created =
        s.created ++ [⟨hdr + objectHeader, type, name⟩] := by
  have hbody : (obCreateObject s.ob hdr type.toNat bodySize (name.map CString.chars)).2 =
      hdr + objectHeader := by
    unfold obCreateObject
    rw [if_neg hhdr]
  have hne : hdr + objectHeader ≠ 0 := Nat.ne_of_gt (Nat.add_pos_right hdr (by decide))
  refine ⟨hbody, ?_⟩
  dsimp only [newObject]
  rw [hbody, if_neg hne]

theorem newObject_handles (s : Services) (hdr : Nat) (type : UInt32) (bodySize : Nat)
    (name : Option CString) :
    (newObject s hdr type bodySize name).1.ob.sHandles = s.ob.sHandles :=
  Mm.obCreateObject_handles ..

theorem Sound.newObject {hdr : Nat} {bodySize : Nat} (h : Sound s) (hhdr : hdrAllowed s hdr bodySize)
    (type : UInt32) (name : Option CString) : Sound (newObject s hdr type bodySize name).1 := by
  have hns : NsInv (nsStep ⟨s.ob, s.created⟩ (.create hdr type bodySize name)) :=
    nsInv_create h.ns hhdr
  refine ⟨hns, fun i hlo hhi hused => ?_⟩
  rw [newObject_handles] at hused ⊢
  obtain ⟨o, ho, hbody⟩ := h.slots i hlo hhi hused
  by_cases hzero : hdr = 0
  · subst hzero
    exact ⟨o, ho, hbody⟩
  · rw [(newObject_body hzero type bodySize name).2]
    exact ⟨o, List.mem_append_left _ ho, hbody⟩

theorem Sound.giveHandle {o : Created} (h : Sound s) (ho : o ∈ s.created) :
    Sound (giveHandle s o.body).2 := by
  have hne : o.body ≠ 0 := Nat.ne_of_gt (Nat.zero_lt_of_lt (h.ns.body_pos o ho))
  refine ⟨nsInv_createHandle h.ns ho, fun i hlo hhi hused => ?_⟩
  by_cases hsame : (obCreateHandle s.ob o.body).1.sHandles i = s.ob.sHandles i
  · obtain ⟨o', ho', hbody⟩ := h.slots i hlo hhi (hsame ▸ hused)
    exact ⟨o', ho', hbody.trans hsame.symm⟩
  · exact ⟨o, ho, (Mm.createHandle_slots hne hsame).symm⟩

/-- A slot and the handle of its index. -/
theorem Sound.resolves {o : Created} {i : Nat} (h : Sound s) (ho : o ∈ s.created) (hlo : 1 ≤ i)
    (hhi : i < maxHandles) :
    obHandleToObject s.ob (i * 4) o.type.toNat = o.body ↔ s.ob.sHandles i = o.body := by
  have hne : o.body ≠ 0 := Nat.ne_of_gt (Nat.zero_lt_of_lt (h.ns.body_pos o ho))
  by_cases hfree : s.ob.sHandles i = 0
  · have hnone : obHandleToObject s.ob (i * 4) o.type.toNat = 0 := by
      unfold obHandleToObject handleEntry
      rw [handleSlot_mul_four hlo hhi, Option.bind_some, if_pos hfree]
    rw [hnone, hfree]
  · rw [obHandleToObject_mul_four hlo hhi rfl hfree]
    constructor
    · intro heq
      by_cases hother : o.type.toNat ≠ obTypeNone ∧ objType s.ob.mem (s.ob.sHandles i) ≠ o.type.toNat
      · rw [if_pos hother] at heq
        exact absurd heq.symm hne
      · rwa [if_neg hother] at heq
    · intro heq
      rw [heq, if_neg fun hother => hother.2 (h.ns.type_eq o ho)]

/-! ## Other code keeps the objects -/

theorem Sound.act {a : Act} (h : Sound s) (hok : actAllowed s a) :
    Sound (actStep s a) ∧ ∀ o ∈ s.created, o ∈ (actStep s a).created := by
  cases a with
  | object op =>
    cases op with
    | create hdr type bodySize name =>
      refine ⟨(h.newObject hok type name).congr rfl rfl, fun o ho => ?_⟩
      by_cases hzero : hdr = 0
      · subst hzero
        exact ho
      · have hmade : (actStep s (.object (.create hdr type bodySize name))).created = _ :=
          (newObject_body hzero type bodySize name).2
        rw [hmade]
        exact List.mem_append_left _ ho
    | store i v => exact ⟨⟨nsInv_store h.ns hok, h.slots⟩, fun o ho => ho⟩
  | handle body =>
    obtain ⟨o, ho, rfl⟩ := hok
    exact ⟨h.giveHandle ho, fun o ho => ho⟩
  | close v =>
    refine ⟨⟨nsInv_closeHandle h.ns h.slots, fun i hlo hhi hused => ?_⟩, fun o ho => ho⟩
    have hsame := (Mm.closeHandle_slots s.ob v i).resolve_right hused
    obtain ⟨o, ho, hbody⟩ := h.slots i hlo hhi (hsame ▸ hused)
    exact ⟨o, ho, hbody.trans hsame.symm⟩
  | other s' => exact ⟨h.congr rfl rfl, fun o ho => ho⟩

theorem Sound.acts {acts : List Act} (h : Sound s) (hok : actsAllowed s acts) :
    Sound (runActs acts s) ∧ ∀ o ∈ s.created, o ∈ (runActs acts s).created := by
  induction acts generalizing s with
  | nil => exact ⟨h, fun o ho => ho⟩
  | cons a acts ih =>
    obtain ⟨hsound, hkept⟩ := h.act hok.1
    obtain ⟨hsound', hkept'⟩ := ih hsound hok.2
    exact ⟨hsound', fun o ho => hkept' o (hkept o ho)⟩

/-! ## How a call ends -/

/-- The object got a slot and still has it when the code that runs before the call returns is done. -/
def Held (s : Services) (o : Created) (acts : List Act) : Prop :=
  ∃ i, freeSlotLoop s.ob.sHandles (maxHandles - 1) 1 = some i ∧
    (runActs acts (giveHandle s o.body).2).ob.sHandles i = o.body

/-- A call fails, or it makes a handle and at most a child runs after that. -/
inductive Outcome (s : Services) (c : Call) : Prop
  | failed (reply : Reply) (s₁ : Services) (hserve : serve s c = (reply, s₁))
      (hstatus : reply.status ≠ statusSuccess) (hsound : Sound s₁)
      (hmeets : Unchanged s s₁ ↔ Meets s c) : Outcome s c
  | gave (s₁ : Services) (o : Created) (acts : List Act)
      (hserve : serve s c = ((giveHandle s₁ o.body).1, runActs acts (giveHandle s₁ o.body).2))
      (hsound : Sound s₁) (ho : o ∈ s₁.created)
      (hacts : actsAllowed (giveHandle s₁ o.body).2 acts)
      (hsubject : subject s c = (o.body, o.type.toNat)) (hmeets : Held s₁ o acts ↔ Meets s c) :
      Outcome s c

theorem Sound.held_iff {o : Created} {acts : List Act} (h : Sound s) (ho : o ∈ s.created)
    (hacts : actsAllowed (Syscall.giveHandle s o.body).2 acts) : Held s o acts ↔
      (Syscall.giveHandle s o.body).1.handle ≠ 0 ∧
        obHandleToObject (runActs acts (Syscall.giveHandle s o.body).2).ob
          (Syscall.giveHandle s o.body).1.handle o.type.toNat = o.body := by
  have hne : o.body ≠ 0 := Nat.ne_of_gt (Nat.zero_lt_of_lt (h.ns.body_pos o ho))
  obtain ⟨hafter, hkept⟩ := (h.giveHandle ho).acts hacts
  have hmem : o ∈ (runActs acts (Syscall.giveHandle s o.body).2).created := hkept o ho
  unfold Held
  cases hslot : freeSlotLoop s.ob.sHandles (maxHandles - 1) 1 with
  | none =>
    refine iff_of_false (by rintro ⟨i, hi, -⟩; cases hi) fun hgood => hgood.1 ?_
    unfold Syscall.giveHandle
    rw [obCreateHandle_full _ hslot]
  | some i =>
    obtain ⟨hlo, hhi, -⟩ := freeSlotLoop_some hslot
    have hhi' : i < maxHandles := by simp only [maxHandles] at hhi ⊢; omega
    have hhandle : (Syscall.giveHandle s o.body).1.handle = i * 4 := by
      unfold Syscall.giveHandle
      rw [obCreateHandle_eq hne hslot]
    rw [hhandle, hafter.resolves hmem hlo hhi']
    constructor
    · rintro ⟨j, hj, hheld⟩
      cases hj
      exact ⟨Nat.mul_ne_zero (Nat.ne_of_gt hlo) (by decide), hheld⟩
    · exact fun hgood => ⟨i, rfl, hgood.2⟩

/-- Where nothing runs after the handle is made. -/
theorem Sound.held_nil {o : Created} (h : Sound s) (ho : o ∈ s.created) :
    Held s o [] ↔ SlotFree s.ob := by
  have hne : o.body ≠ 0 := Nat.ne_of_gt (Nat.zero_lt_of_lt (h.ns.body_pos o ho))
  rw [slotFree_iff]
  constructor
  · rintro ⟨i, hi, -⟩
    exact ⟨i, hi⟩
  · rintro ⟨i, hi⟩
    refine ⟨i, hi, ?_⟩
    change (obCreateHandle s.ob o.body).1.sHandles i = o.body
    rw [obCreateHandle_eq hne hi]
    exact Function.update_self ..

theorem Outcome.sound {c : Call} (h : Outcome s c) : Sound (serve s c).2 := by
  cases h with
  | failed _ _ hserve _ hsound _ =>
    rw [hserve]
    exact hsound
  | gave _ _ _ hserve hsound ho hacts _ _ =>
    rw [hserve]
    exact ((hsound.giveHandle ho).acts hacts).1

theorem Outcome.kept_iff {c : Call} (h : Outcome s c) : (Truthful s c ∧ Atomic s c) ↔ Meets s c := by
  unfold Truthful Atomic
  cases h with
  | failed _ _ hserve hstatus _ hmeets =>
    rw [hserve, ← hmeets]
    exact ⟨fun hboth => hboth.2 hstatus, fun hkept => ⟨fun hok => absurd hok hstatus, fun _ => hkept⟩⟩
  | gave s₁ o acts hserve hsound ho hacts hsubject hmeets =>
    have hne : o.body ≠ 0 := Nat.ne_of_gt (Nat.zero_lt_of_lt (hsound.ns.body_pos o ho))
    rw [hserve, hsubject, ← hmeets, hsound.held_iff ho hacts]
    constructor
    · intro hboth
      obtain ⟨hhandle, -, hresolves⟩ := hboth.1 rfl
      exact ⟨hhandle, hresolves⟩
    · rintro ⟨hhandle, hresolves⟩
      exact ⟨fun _ => ⟨hhandle, hne, hresolves⟩, fun hfail => absurd rfl hfail⟩

end Pieces

end MeuOS.Syscall
