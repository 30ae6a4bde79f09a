import MeuOS.Mm.AddressSpace

/-! Device memory: a cursor that moves up an arena of virtual addresses, and the pages behind it
mapped to the physical pages of the device. What lies in the first GiB is used where it is. -/
namespace MeuOS.Mm

open MeuOS.Lib

def mmioArenaBase : Nat := 0xFFFFE10000000000
def mmioArenaEnd : Nat := 0xFFFFE20000000000
def mmioArenaPml4 : Fin 512 := 450
def halIdentityLimit : Nat := 0x40000000
def mmFlagPwt : BitVec 64 := 0x8
def mmFlagPcd : BitVec 64 := 0x10

structure Mmio where
  paging : Paging
  sMmioNext : Nat
  sMmioInited : Bool

def mmMmioInit (s : Mmio) : Option Mmio :=
  if s.sMmioInited then some s else
  let pml4 := ptAddr s.paging.cr3
  if present (s.paging.mem pml4 mmioArenaPml4) then some { s with sMmioInited := true }
  else
    (pmmAllocFrame s.paging.pmm).bind fun (pmm, f) =>
      if f = 0 then some { s with paging := { s.paging with pmm := pmm } }
      else
        let mem := (s.paging.mem.clear (f / frame) 0).write pml4 mmioArenaPml4
          (BitVec.ofNat 64 f ||| (pgPresent ||| pgRw))
        some { s with paging := { s.paging with mem := mem, pmm := pmm }, sMmioInited := true }

/-- `(size + 0xFFF) & ~0xFFF`. -/
def mmioBytes (size : Nat) : Nat := (size + 0xFFF) % 2 ^ 64 / frame * frame

def mmMmioReserve (s : Mmio) (size : Nat) : Option (Nat × Mmio) :=
  (if s.sMmioInited then some s else mmMmioInit s).bind fun s =>
    if size = 0 then some (0, s)
    else
      let bytes := mmioBytes size
      if mmioArenaEnd < (s.sMmioNext + bytes) % 2 ^ 64 then some (0, s)
      else some (s.sMmioNext, { s with sMmioNext := (s.sMmioNext + bytes) % 2 ^ 64 })

/-- `(intra + size + 0xFFF) & ~0xFFF`. -/
def mmioSpan (phys size : Nat) : Nat := (phys % frame + size + 0xFFF) % 2 ^ 64 / frame * frame

def mmioFlags : BitVec 64 := pgPresent ||| pgRw ||| mmFlagPcd ||| mmFlagPwt

/-- `hal_map_mmio`; the null pointer is 0. -/
def halMapMmio (s : Mmio) (phys size : Nat) : Option (Nat × Mmio) :=
  if size = 0 then some (0, s)
  else if (phys + size) % 2 ^ 64 ≤ halIdentityLimit then some (phys, s)
  else
    let alignedPhys := phys / frame * frame
    let intra := phys % frame
    let span := mmioSpan phys size
    (mmMmioReserve s span).bind fun (va, s) =>
      if va = 0 then some (0, s)
      else
        (mmMapPhysRange s.paging va alignedPhys span mmioFlags).bind fun (r, paging) =>
          if r = 0 then some (0, { s with paging := paging })
          else some ((va + intra) % 2 ^ 64, { s with paging := paging })

/-- `(uint64_t)PhysicalAddress.QuadPart`. -/
def quadPart (physicalAddress : Int) : Nat := (physicalAddress % 2 ^ 64).toNat

def mmMapIoSpace (s : Mmio) (physicalAddress : Int) (numberOfBytes : Nat) : Option (Nat × Mmio) :=
  halMapMmio s (quadPart physicalAddress) numberOfBytes

/-! ## Runs -/

inductive MmioCall
  | halMapMmio (phys size : Nat)
  | mmMapIoSpace (physicalAddress : Int) (numberOfBytes : Nat)

def MmioCall.phys : MmioCall → Nat
  | .halMapMmio phys _ => phys
  | .mmMapIoSpace physicalAddress _ => quadPart physicalAddress

def MmioCall.size : MmioCall → Nat
  | .halMapMmio _ size => size
  | .mmMapIoSpace _ numberOfBytes => numberOfBytes

def MmioCall.run (s : Mmio) : MmioCall → Option (Nat × Mmio)
  | .halMapMmio phys size => Mm.halMapMmio s phys size
  | .mmMapIoSpace physicalAddress numberOfBytes => Mm.mmMapIoSpace s physicalAddress numberOfBytes

/-- A range that `mm_mmio_reserve` has given out, and the size its caller had been asked for. -/
structure Reserved where
  base : Nat
  bytes : Nat
  size : Nat

/-- A pointer that was returned for a physical range. -/
structure IoPointer where
  ptr : Nat
  phys : Nat
  size : Nat

/-- What the call reserves on its way. -/
def Mmio.reservation (s : Mmio) (phys size : Nat) : List Reserved :=
  if size = 0 ∨ (phys + size) % 2 ^ 64 ≤ halIdentityLimit then []
  else
    match mmMmioReserve s (mmioSpan phys size) with
    | some (va, _) => if va = 0 then [] else [⟨va, mmioBytes (mmioSpan phys size), size⟩]
    | none => []

/-- With the ranges reserved and the pointers returned so far. -/
structure MmioWorld where
  mmio : Mmio
  reserved : List Reserved
  handed : List IoPointer

def MmioWorld.after (w : MmioWorld) (c : MmioCall) (ptr : Nat) (m : Mmio) : MmioWorld where
  mmio := m
  reserved := w.mmio.reservation c.phys c.size ++ w.reserved
  handed := if ptr = 0 then w.handed else ⟨ptr, c.phys, c.size⟩ :: w.handed

inductive MmioStep : MmioWorld → MmioCall → MmioWorld → Prop
  | call (w : MmioWorld) (c : MmioCall) (ptr : Nat) (m : Mmio) (hphys : c.phys < 2 ^ 64)
      (hsize : c.size < 2 ^ 64) (hrun : c.run w.mmio = some (ptr, m)) :
      MmioStep w c (w.after c ptr m)

/-- The first GiB is mapped one to one and the arena is empty. -/
structure MmioStart (w : MmioWorld) : Prop where
  sound : w.mmio.paging.Sound
  next : w.mmio.sMmioNext = mmioArenaBase
  identity : ∀ va < halIdentityLimit, ∃ t, walk w.mmio.paging va = some t ∧ t.page = va / frame
  empty : ∀ va, mmioArenaBase ≤ va → va < mmioArenaEnd → walk w.mmio.paging va = none
  nothing : w.reserved = [] ∧ w.handed = []

def Reserved.Apart (r q : Reserved) : Prop := r.base + r.bytes ≤ q.base ∨ q.base + q.bytes ≤ r.base

/-- Byte `i` of the pointer is byte `i` of the physical range. -/
def IoPointer.Translates (p : IoPointer) (s : Paging) : Prop :=
  ∀ i < p.size, ∃ t, walk s ((p.ptr + i) % 2 ^ 64) = some t ∧
    t.page * frame + (p.ptr + i) % 2 ^ 64 % frame = p.phys + i

structure MmioSound (w : MmioWorld) : Prop where
  aligned : ∀ r ∈ w.reserved, r.base % frame = 0 ∧ r.bytes % frame = 0
  apart : w.reserved.Pairwise Reserved.Apart
  large : ∀ r ∈ w.reserved, r.size ≤ r.bytes
  inside : ∀ r ∈ w.reserved, mmioArenaBase ≤ r.base ∧ r.base + r.bytes ≤ mmioArenaEnd
  translates : ∀ p ∈ w.handed, p.Translates w.mmio.paging

/-- `mm_map_phys_range` has too few frames for the tables of the range. -/
def Mmio.OutOfTables (s : Mmio) (phys size : Nat) : Prop :=
  ∃ va s' paging, mmMmioReserve s (mmioSpan phys size) = some (va, s') ∧
    mmMapPhysRange s'.paging va (phys / frame * frame) (mmioSpan phys size) mmioFlags = some (0, paging)

/-- A call asks for nothing, for a part of the first GiB, for more than the arena has left, or for
physical addresses of 52 bits (or there are no frames for the tables), and no sum wraps. -/
def MmioFits (s : Mmio) (phys size : Nat) : Prop :=
  size = 0 ∨ phys + size ≤ halIdentityLimit ∨
  halIdentityLimit < (phys + size) % 2 ^ 64 ∧
    (mmioSpan phys size = 0 ∨ mmioArenaEnd < (s.sMmioNext + mmioSpan phys size) % 2 ^ 64 ∨
      phys % frame + size + 0xFFF < 2 ^ 64 ∧ s.sMmioNext + mmioSpan phys size < 2 ^ 64 ∧
        (phys + size ≤ 2 ^ 52 ∨ s.OutOfTables phys size))

def MmioMeets (w : MmioWorld) (c : MmioCall) : Prop := MmioFits w.mmio c.phys c.size

/-! ## One call -/

theorem mmioFlags_link : LinkFlags (pgPresent ||| pgRw) := ⟨rfl, rfl, by decide⟩

section Call

variable {s : Mmio}

/-- The table of the arena is hung in, or is there, or there is no frame for it. -/
theorem mmMmioInit_spec (hs : s.paging.Sound) : ∃ s', mmMmioInit s = some s' ∧
    s.paging.Grown s'.paging ∧ SameSurveys s.paging s'.paging ∧ s'.sMmioNext = s.sMmioNext := by
  unfold mmMmioInit
  by_cases hinited : s.sMmioInited = true
  · exact ⟨s, if_pos hinited, .refl hs, fun _ => rfl, rfl⟩
  rw [if_neg hinited]
  by_cases hpresent : present (s.paging.mem (ptAddr s.paging.cr3) mmioArenaPml4) = true
  · exact ⟨_, if_pos hpresent, .refl hs, fun _ => rfl, rfl⟩
  simp only [hpresent, Bool.false_eq_true, if_false]
  rcases pmmAllocFrame_cases hs.top with ⟨g, hfree, hpos, hmax, halloc⟩ | ⟨-, halloc⟩
  · have hne : g * frame ≠ 0 := Nat.mul_ne_zero hpos.ne' (by decide)
    have habsent := Bool.eq_false_of_not_eq_true hpresent
    rw [halloc, Option.bind_some]
    simp only [hne, if_false, page_div]
    exact ⟨_, rfl, hs.grown_link (reach_root s.paging) (by decide) habsent hfree hmax mmioFlags_link,
      hs.surveys_link (reach_root s.paging) (by decide) habsent hfree hmax mmioFlags_link, rfl⟩
  · rw [halloc, Option.bind_some]
    exact ⟨_, rfl, .refl hs, fun _ => rfl, rfl⟩

/-- The arena refuses a range. -/
def Mmio.Full (s : Mmio) (size : Nat) : Prop :=
  size = 0 ∨ mmioArenaEnd < (s.sMmioNext + mmioBytes size) % 2 ^ 64

theorem mmMmioReserve_spec (hs : s.paging.Sound) (size : Nat) :
    ∃ va s', mmMmioReserve s size = some (va, s') ∧ s.paging.Grown s'.paging ∧
      SameSurveys s.paging s'.paging ∧
      (s.Full size ∧ va = 0 ∧ s'.sMmioNext = s.sMmioNext ∨
        ¬s.Full size ∧ va = s.sMmioNext ∧ s'.sMmioNext = (s.sMmioNext + mmioBytes size) % 2 ^ 64) := by
  have hinit : ∃ s₁, (if s.sMmioInited then some s else mmMmioInit s) = some s₁ ∧
      s.paging.Grown s₁.paging ∧ SameSurveys s.paging s₁.paging ∧ s₁.sMmioNext = s.sMmioNext := by
    by_cases hinited : s.sMmioInited = true
    · exact ⟨s, if_pos hinited, .refl hs, fun _ => rfl, rfl⟩
    · rw [if_neg hinited]
      exact mmMmioInit_spec hs
  obtain ⟨s₁, hrun, hgrown, hsame, hnext⟩ := hinit
  unfold mmMmioReserve Mmio.Full
  rw [hrun, Option.bind_some, ← hnext]
  by_cases hsize : size = 0
  · exact ⟨0, s₁, if_pos hsize, hgrown, hsame, .inl ⟨.inl hsize, rfl, rfl⟩⟩
  simp only [hsize, if_false, false_or]
  by_cases hfull : mmioArenaEnd < (s₁.sMmioNext + mmioBytes size) % 2 ^ 64
  · exact ⟨0, s₁, if_pos hfull, hgrown, hsame, .inl ⟨hfull, rfl, rfl⟩⟩
  · exact ⟨_, _, if_neg hfull, hgrown, hsame, .inr ⟨hfull, rfl, rfl⟩⟩

theorem mmioBytes_span (phys size : Nat) : mmioBytes (mmioSpan phys size) = mmioSpan phys size := by
  unfold mmioBytes mmioSpan frame
  omega

end Call

/-! ## What the calls keep -/

structure Reserved.Placed (r : Reserved) (next : Nat) : Prop where
  aligned : r.base % frame = 0 ∧ r.bytes % frame = 0
  large : r.size ≤ r.bytes
  inside : mmioArenaBase ≤ r.base ∧ r.base + r.bytes ≤ next

/-- In the first GiB, or in the arena below the cursor. -/
def IoPointer.Below (p : IoPointer) (next : Nat) : Prop :=
  p.ptr + p.size ≤ halIdentityLimit ∨ mmioArenaBase ≤ p.ptr ∧ p.ptr + p.size ≤ next

structure MmioInv (w : MmioWorld) : Prop where
  sound : w.mmio.paging.Sound
  next : mmioArenaBase ≤ w.mmio.sMmioNext ∧ w.mmio.sMmioNext ≤ mmioArenaEnd
  page : w.mmio.sMmioNext % frame = 0
  identity : ∀ va < halIdentityLimit, ∃ t, walk w.mmio.paging va = some t ∧ t.page = va / frame
  small : ∀ va t, mmioArenaBase ≤ va → va < mmioArenaEnd → walk w.mmio.paging va = some t → t.left ≠ 2
  placed : ∀ r ∈ w.reserved, r.Placed w.mmio.sMmioNext
  apart : w.reserved.Pairwise Reserved.Apart
  translates : ∀ p ∈ w.handed, p.Translates w.mmio.paging
  below : ∀ p ∈ w.handed, p.Below w.mmio.sMmioNext

section Keep

variable {w : MmioWorld} {m : Mmio}

theorem MmioInv.start (h : MmioStart w) : MmioInv w := by
  have hnext := h.next
  obtain ⟨hreserved, hhanded⟩ := h.nothing
  refine ⟨h.sound, ⟨hnext.ge, hnext ▸ by decide⟩, hnext ▸ by decide, h.identity,
    fun va t hlo hhi ht => ?_, ?_, ?_, ?_, ?_⟩
  · rw [h.empty va hlo hhi] at ht
    cases ht
  · rw [hreserved]
    nofun
  · rw [hreserved]
    exact .nil
  · rw [hhanded]
    nofun
  · rw [hhanded]
    nofun

/-- The cursor moves up, and only the pages it has passed are mapped anew. -/
theorem MmioInv.move (h : MmioInv w) (hsound : m.paging.Sound)
    (hnext : w.mmio.sMmioNext ≤ m.sMmioNext ∧ m.sMmioNext ≤ mmioArenaEnd)
    (hpage : m.sMmioNext % frame = 0)
    (hwalk : ∀ va, va < w.mmio.sMmioNext ∨ m.sMmioNext ≤ va →
      walk m.paging va = walk w.mmio.paging va)
    (hsmall : ∀ va t, w.mmio.sMmioNext ≤ va → va < m.sMmioNext → walk m.paging va = some t → t.left ≠ 2) :
    MmioInv ⟨m, w.reserved, w.handed⟩ := by
  obtain ⟨hlo, hhi⟩ := h.next
  have hbase : halIdentityLimit < mmioArenaBase := by decide
  have htop : mmioArenaEnd < 2 ^ 64 := by decide
  refine ⟨hsound, ⟨hlo.trans hnext.1, hnext.2⟩, hpage, fun va hva => ?_, fun va t hva hva' ht => ?_,
    fun r hr => ?_, h.apart, fun p hp i hi => ?_, fun p hp => ?_⟩
  · rw [hwalk va (.inl (by omega))]
    exact h.identity va hva
  · by_cases hnew : w.mmio.sMmioNext ≤ va ∧ va < m.sMmioNext
    · exact hsmall va t hnew.1 hnew.2 ht
    · refine h.small va t hva hva' ?_
      rw [← hwalk va (by omega)]
      exact ht
  · obtain ⟨haligned, hlarge, hin⟩ := h.placed r hr
    exact ⟨haligned, hlarge, hin.1, hin.2.trans hnext.1⟩
  · obtain ⟨t, ht, hbyte⟩ := h.translates p hp i hi
    refine ⟨t, ?_, hbyte⟩
    rw [hwalk _ (.inl ?_)]
    · exact ht
    · rcases h.below p hp with hlow | ⟨-, harena⟩
      · omega
      · omega
  · rcases h.below p hp with hlow | ⟨hbase', harena⟩
    · exact .inl hlow
    · exact .inr ⟨hbase', harena.trans hnext.1⟩

theorem MmioInv.addReserved (h : MmioInv w) {r : Reserved} (hr : r.Placed w.mmio.sMmioNext)
    (hapart : ∀ q ∈ w.reserved, r.Apart q) : MmioInv { w with reserved := r :: w.reserved } := by
  refine ⟨h.sound, h.next, h.page, h.identity, h.small, fun q hq => ?_,
    List.pairwise_cons.2 ⟨hapart, h.apart⟩, h.translates, h.below⟩
  rcases List.mem_cons.1 hq with rfl | hq
  · exact hr
  · exact h.placed q hq

theorem MmioInv.addPointer (h : MmioInv w) {p : IoPointer} (hp : p.Translates w.mmio.paging)
    (hbelow : p.Below w.mmio.sMmioNext) : MmioInv { w with handed := p :: w.handed } := by
  refine ⟨h.sound, h.next, h.page, h.identity, h.small, h.placed, h.apart, fun q hq => ?_, fun q hq => ?_⟩
  · rcases List.mem_cons.1 hq with rfl | hq
    · exact hp
    · exact h.translates q hq
  · rcases List.mem_cons.1 hq with rfl | hq
    · exact hbelow
    · exact h.below q hq

/-- A part of the first GiB is where it is. -/
theorem MmioInv.identity_translates (h : MmioInv w) {phys size : Nat}
    (hlow : phys + size ≤ halIdentityLimit) : IoPointer.Translates ⟨phys, phys, size⟩ w.mmio.paging := by
  have hlimit : halIdentityLimit < 2 ^ 64 := by decide
  intro i hi
  have hi' : i < size := hi
  dsimp only
  rw [Nat.mod_eq_of_lt (show phys + i < 2 ^ 64 by omega)]
  obtain ⟨t, ht, hpage⟩ := h.identity (phys + i) (by omega)
  refine ⟨t, ht, ?_⟩
  rw [hpage]
  unfold frame
  omega

end Keep

/-! ## A mapping in the arena -/

/-- A range of whole pages of the arena in which no 1 GiB entry translates anything. -/
structure ArenaRange (s : Paging) (va span : Nat) : Prop where
  aligned : va % frame = 0 ∧ span % frame = 0
  inside : mmioArenaBase ≤ va ∧ va + span ≤ mmioArenaEnd
  small : ∀ x t, va ≤ x → x < va + span → walk s x = some t → t.left ≠ 2

/-- What a mapping of such a range does, to its end or to the page that is refused. -/
structure ArenaMapped (s s' : Paging) (va span phys : Nat) (r : Nat) : Prop where
  sound : s'.Sound
  outside : ∀ x, x < va ∨ va + span ≤ x → walk s' x = walk s x
  small : ∀ x t, va ≤ x → x < va + span → walk s' x = some t → t.left ≠ 2
  mapped : r ≠ 0 → ∀ x, va ≤ x → x < va + span →
    ∃ t, walk s' x = some t ∧ t.page = (phys / frame + (x / frame - va / frame)) % 2 ^ 40

theorem requested_left {q lo m : Nat} {flags : BitVec 64} {t : Translation}
    (h : requested q lo flags m = some t) : t.left = 0 := by
  unfold requested pteTranslation at h
  split at h
  · exact (congrArg Translation.left (Option.some.inj h)).symm
  · cases h

theorem page_le_iff {va : Nat} (h : va % frame = 0) (x : Nat) : va / frame ≤ x / frame ↔ va ≤ x := by
  unfold frame at *
  omega

theorem page_lt_iff (m x : Nat) : x / frame < m ↔ x < m * frame := Nat.div_lt_iff_lt_mul frame_pos

section Arena

variable {s : Paging} {va span : Nat}

theorem ArenaRange.fits (h : ArenaRange s va span) : s.RangeFits va span := by
  obtain ⟨hva, hspan⟩ := h.aligned
  obtain ⟨hbase, hend⟩ := h.inside
  have hlow : 2 ^ 64 - 2 ^ 47 ≤ mmioArenaBase := by decide
  have hhigh : mmioArenaEnd + 0xFFF < 2 ^ 64 := by decide
  refine ⟨by omega, fun x hx => .inr ?_, fun x t hx ht => ?_⟩
  · unfold InRange frame at *
    omega
  · refine h.small x t ?_ ?_ ht
    · unfold InRange frame at *
      omega
    · unfold InRange frame at *
      omega

theorem ArenaRange.map (h : ArenaRange s va span) (hs : s.Sound) (hspan : span ≠ 0) (phys : Nat) :
    ∃ r s', mmMapPhysRange s va phys span mmioFlags = some (r, s') ∧ ArenaMapped s s' va span phys r := by
  obtain ⟨r, s', mid, hrun, hadv, hend⟩ := mmMapPhysRange_spec h.fits hs hspan phys mmioFlags
  obtain ⟨hva, hspan'⟩ := h.aligned
  have hpages : (va + span + 0xFFF) / frame * frame = va + span := by
    unfold frame at *
    omega
  have hmid : mid * frame ≤ va + span := by
    rw [← hpages]
    exact Nat.mul_le_mul_right frame (by omega)
  refine ⟨r, s', hrun, hadv.sound, fun x hx => ?_, fun x t hlo hhi ht => ?_, fun hr x hlo hhi => ?_⟩
  · rw [hadv.maps x, if_neg]
    rintro ⟨hlo, hhi⟩
    have hlow := (page_le_iff hva x).1 hlo
    have hhigh := (page_lt_iff mid x).1 hhi
    omega
  · rw [hadv.maps x] at ht
    split at ht
    · rw [requested_left ht]
      decide
    · exact h.small x t hlo hhi ht
  · obtain rfl : mid = (va + span + 0xFFF) / frame := by omega
    have hzero : ptAddr mmioFlags = 0 := by decide
    have hin : va / frame ≤ x / frame ∧ x / frame < (va + span + 0xFFF) / frame := by
      refine ⟨(page_le_iff hva x).2 hlo, (page_lt_iff _ x).2 ?_⟩
      rw [hpages]
      exact hhi
    have hmapped := hadv.maps x
    rw [if_pos hin, requested_eq, hzero, Nat.or_zero] at hmapped
    exact ⟨_, hmapped, rfl⟩

/-- A pointer into a mapped range. -/
theorem ArenaMapped.translates {s' : Paging} {phys size r : Nat} (h : ArenaMapped s s' va span phys r)
    (hr : r ≠ 0) (hrange : ArenaRange s va span) (hlen : phys % frame + size ≤ span)
    (hphys : phys + size ≤ 2 ^ 52) :
    IoPointer.Translates ⟨(va + phys % frame) % 2 ^ 64, phys, size⟩ s' := by
  obtain ⟨hva, -⟩ := hrange.aligned
  obtain ⟨-, hend⟩ := hrange.inside
  have htop : mmioArenaEnd < 2 ^ 64 := by decide
  intro i hi
  have hi' : i < size := hi
  have hbyte : ((va + phys % frame) % 2 ^ 64 + i) % 2 ^ 64 = va + phys % frame + i := by omega
  dsimp only
  rw [hbyte]
  obtain ⟨t, ht, hpage⟩ := h.mapped hr (va + phys % frame + i) (by omega) (by omega)
  refine ⟨t, ht, ?_⟩
  rw [hpage]
  unfold frame at *
  omega

end Arena

/-! ## Whole runs -/

theorem mmioSpan_eq {phys size : Nat} (h : phys % frame + size + 0xFFF < 2 ^ 64) :
    mmioSpan phys size = (phys % frame + size + 0xFFF) / frame * frame := by
  unfold mmioSpan
  rw [Nat.mod_eq_of_lt h]

theorem MmioCall.run_eq (s : Mmio) (c : MmioCall) : c.run s = Mm.halMapMmio s c.phys c.size := by
  cases c <;> rfl

section Step

variable {w : MmioWorld} {c : MmioCall}

theorem MmioWorld.after_direct {ptr : Nat} {m : Mmio}
    (h : w.mmio.reservation c.phys c.size = []) :
    w.after c ptr m =
      ⟨m, w.reserved, if ptr = 0 then w.handed else ⟨ptr, c.phys, c.size⟩ :: w.handed⟩ := by
  unfold MmioWorld.after
  rw [h, List.nil_append]

/-- The cursor stays where it is, and no path ends elsewhere. -/
theorem MmioInv.still {m : Mmio} (h : MmioInv w) (hgrown : w.mmio.paging.Grown m.paging)
    (hsame : SameSurveys w.mmio.paging m.paging) (hnext : m.sMmioNext = w.mmio.sMmioNext) :
    MmioInv ⟨m, w.reserved, w.handed⟩ := by
  refine h.move hgrown.sound ⟨hnext.ge, hnext ▸ h.next.2⟩ (hnext ▸ h.page)
    (fun va _ => hsame.entries.walk va) fun va t hlo hhi _ => ?_
  omega

/-- A call that goes to the arena and is given a range there. -/
theorem MmioInv.mapped {s₁ : Mmio} {phys size span : Nat} (h : MmioInv w) (hspan : span ≠ 0)
    (hpages : span % frame = 0) (hbytes : mmioBytes span = span) (hlen : phys % frame + size ≤ span)
    (hend : w.mmio.sMmioNext + span ≤ mmioArenaEnd) (hgrown : w.mmio.paging.Grown s₁.paging)
    (hsame : SameSurveys w.mmio.paging s₁.paging) (hnext : s₁.sMmioNext = w.mmio.sMmioNext + span) :
    ∃ r s', mmMapPhysRange s₁.paging w.mmio.sMmioNext (phys / frame * frame) span mmioFlags = some (r, s') ∧
      MmioInv ⟨{ s₁ with paging := s' }, ⟨w.mmio.sMmioNext, mmioBytes span, size⟩ :: w.reserved, w.handed⟩ ∧
      (r ≠ 0 → phys + size ≤ 2 ^ 52 →
        IoPointer.Translates ⟨(w.mmio.sMmioNext + phys % frame) % 2 ^ 64, phys, size⟩ s') := by
  have hrange : ArenaRange s₁.paging w.mmio.sMmioNext span := by
    refine ⟨⟨h.page, hpages⟩, ⟨h.next.1, hend⟩, fun x t hlo hhi ht => ?_⟩
    rw [hsame.entries.walk x] at ht
    have hbase := h.next.1
    exact h.small x t (by omega) (by omega) ht
  have hphys : phys / frame * frame / frame = phys / frame := page_div _
  obtain ⟨r, s', hrun, hmapped⟩ := hrange.map hgrown.sound hspan (phys / frame * frame)
  have hmapped' : ArenaMapped s₁.paging s' w.mmio.sMmioNext span phys r :=
    ⟨hmapped.sound, hmapped.outside, hmapped.small, by rw [← hphys]; exact hmapped.mapped⟩
  refine ⟨r, s', hrun, ?_, fun hr hsmall => hmapped'.translates hr hrange hlen hsmall⟩
  have hmoved : MmioInv ⟨{ s₁ with paging := s' }, w.reserved, w.handed⟩ := by
    have hbase := h.next.1
    refine h.move hmapped.sound ⟨?_, ?_⟩ ?_ (fun va hva => ?_) fun va t hlo hhi ht => ?_
    · show _ ≤ s₁.sMmioNext
      omega
    · show s₁.sMmioNext ≤ _
      omega
    · have hpage := h.page
      show s₁.sMmioNext % frame = 0
      rw [hnext]
      unfold frame at *
      omega
    · rw [show ({ s₁ with paging := s' } : Mmio).sMmioNext = _ from hnext] at hva
      exact (hmapped.outside va hva).trans (hsame.entries.walk va)
    · rw [show ({ s₁ with paging := s' } : Mmio).sMmioNext = _ from hnext] at hhi
      exact hmapped.small va t hlo hhi ht
  refine hmoved.addReserved ⟨⟨h.page, ?_⟩, ?_, h.next.1, ?_⟩ fun q hq => .inr ?_
  · rw [hbytes]
    exact hpages
  · show size ≤ mmioBytes span
    omega
  · show w.mmio.sMmioNext + mmioBytes span ≤ s₁.sMmioNext
    omega
  · exact (h.placed q hq).inside.2

/-- A call that fits keeps the invariant, whatever it returns. -/
theorem MmioInv.call (h : MmioInv w) (hfits : MmioFits w.mmio c.phys c.size) :
    ∃ ptr m, c.run w.mmio = some (ptr, m) ∧ MmioInv (w.after c ptr m) := by
  rw [MmioCall.run_eq]
  unfold halMapMmio
  by_cases hsize : c.size = 0
  · refine ⟨0, w.mmio, if_pos hsize, ?_⟩
    rw [MmioWorld.after_direct (if_pos (.inl hsize)), if_pos rfl]
    exact h
  rw [if_neg hsize]
  by_cases hlow : (c.phys + c.size) % 2 ^ 64 ≤ halIdentityLimit
  · refine ⟨c.phys, w.mmio, if_pos hlow, ?_⟩
    rw [MmioWorld.after_direct (if_pos (.inr hlow))]
    split
    · exact h
    · have hle : c.phys + c.size ≤ halIdentityLimit :=
        (hfits.resolve_left hsize).resolve_right fun hhigh => absurd hhigh.1 (by omega)
      exact h.addPointer (h.identity_translates hle) (.inl hle)
  rw [if_neg hlow]
  have hdirect : ¬(c.size = 0 ∨ (c.phys + c.size) % 2 ^ 64 ≤ halIdentityLimit) := by omega
  obtain ⟨va, s₁, hreserve, hgrown, hsame, hout⟩ :=
    mmMmioReserve_spec h.sound (mmioSpan c.phys c.size)
  have hbytes := mmioBytes_span c.phys c.size
  dsimp only
  rw [hreserve, Option.bind_some]
  rcases hout with ⟨-, rfl, hnext⟩ | ⟨hfull, rfl, hnext⟩
  · have hnothing : w.mmio.reservation c.phys c.size = [] := by
      unfold Mmio.reservation
      rw [if_neg hdirect, hreserve]
      exact if_pos rfl
    refine ⟨0, s₁, if_pos rfl, ?_⟩
    rw [MmioWorld.after_direct hnothing, if_pos rfl]
    exact h.still hgrown hsame hnext
  · obtain ⟨hspan, hroom⟩ := not_or.1 hfull
    rw [hbytes] at hroom hnext
    have hlimit : halIdentityLimit < mmioArenaBase := by decide
    have hbase := h.next.1
    obtain ⟨hnowrap, hcursor, hphys⟩ :=
      ((hfits.resolve_left hsize).resolve_left (by omega)).2.resolve_left hspan |>.resolve_left hroom
    rw [Nat.mod_eq_of_lt hcursor] at hroom hnext
    have hlen : c.phys % frame + c.size ≤ mmioSpan c.phys c.size := by
      rw [mmioSpan_eq hnowrap]
      unfold frame
      omega
    obtain ⟨r, s', hrun, hinv, hpointer⟩ := h.mapped hspan (Nat.mul_mod_left _ _) hbytes hlen
      (Nat.not_lt.1 hroom) hgrown hsame hnext
    have hva : w.mmio.sMmioNext ≠ 0 := by omega
    have hrange : w.mmio.reservation c.phys c.size =
        [⟨w.mmio.sMmioNext, mmioBytes (mmioSpan c.phys c.size), c.size⟩] := by
      unfold Mmio.reservation
      rw [if_neg hdirect, hreserve]
      exact if_neg hva
    simp only [hva, if_false, hrun, Option.bind_some]
    unfold MmioWorld.after
    rw [hrange]
    by_cases hr : r = 0
    · exact ⟨0, _, if_pos hr, hinv⟩
    · refine ⟨_, _, if_neg hr, ?_⟩
      have htop : mmioArenaEnd < 2 ^ 64 := by decide
      have hptr : (w.mmio.sMmioNext + c.phys % frame) % 2 ^ 64 = w.mmio.sMmioNext + c.phys % frame :=
        Nat.mod_eq_of_lt (by omega)
      have hsmall : c.phys + c.size ≤ 2 ^ 52 := by
        refine hphys.resolve_right ?_
        rintro ⟨va, s₂, paging, hagain, hrefused⟩
        obtain ⟨rfl, rfl⟩ := Prod.mk.inj (Option.some.inj (hreserve.symm.trans hagain))
        rw [hrun] at hrefused
        exact hr (Prod.mk.inj (Option.some.inj hrefused)).1
      rw [if_neg (by omega)]
      refine hinv.addPointer (hpointer hr hsmall) (.inr ?_)
      show mmioArenaBase ≤ (w.mmio.sMmioNext + c.phys % frame) % 2 ^ 64 ∧
        (w.mmio.sMmioNext + c.phys % frame) % 2 ^ 64 + c.size ≤ s₁.sMmioNext
      rw [hptr, hnext]
      omega

theorem MmioInv.step {w' : MmioWorld} (h : MmioInv w) (hfits : MmioMeets w c) (hstep : MmioStep w c w') :
    MmioInv w' := by
  cases hstep with
  | call ptr m hphys hsize hrun =>
    obtain ⟨ptr', m', hrun', hinv⟩ := h.call hfits
    obtain ⟨rfl, rfl⟩ := Prod.mk.inj (Option.some.inj (hrun.symm.trans hrun'))
    exact hinv

theorem MmioInv.mmioSound (h : MmioInv w) : MmioSound w where
  aligned := fun r hr => (h.placed r hr).aligned
  apart := h.apart
  large := fun r hr => (h.placed r hr).large
  inside := fun r hr => ⟨(h.placed r hr).inside.1, (h.placed r hr).inside.2.trans h.next.2⟩
  translates := h.translates

end Step

/-- In every run of calls that fit, what is reserved lies apart in the arena, every pointer that
was returned translates byte by byte, and the next call that fits returns. -/
theorem mmio_mappings (w₀ w : MmioWorld) (hstart : MmioStart w₀)
    (hrun : Reach (· = w₀) MmioStep MmioMeets w) :
    MmioSound w ∧ ∀ c, MmioMeets w c → ∃ ptr m, c.run w.mmio = some (ptr, m) := by
  have hinv : MmioInv w := hrun.invariant (fun w hw => by rw [hw]; exact .start hstart)
    fun w c w' hinv hfits hstep => hinv.step hfits hstep
  refine ⟨hinv.mmioSound, fun c hfits => ?_⟩
  obtain ⟨ptr, m, hcall, -⟩ := hinv.call hfits
  exact ⟨ptr, m, hcall⟩

/-! ## From the tables the kernel starts with -/

def bootMmio : MmioWorld := ⟨⟨identityPaging 1 3, mmioArenaBase, false⟩, [], []⟩

theorem bootMmio_start : MmioStart bootMmio where
  sound := identity_sound (by decide)
  next := rfl
  identity := fun _ hva => identity_walk hva
  empty := fun va hlo hhi => by
    have hbase : 2 ^ 64 - 2 ^ 47 ≤ mmioArenaBase := by decide
    have hend : mmioArenaEnd < 2 ^ 64 := by decide
    exact identity_none (by omega) (by omega)
  nothing := ⟨rfl, rfl⟩

/-- The registers of the local APIC. -/
theorem mmio_mappings_apic : ∃ ptr m, halMapMmio bootMmio.mmio 0xFEE00000 0x1000 = some (ptr, m) ∧
    MmioSound (bootMmio.after (.halMapMmio 0xFEE00000 0x1000) ptr m) := by
  have hfits : MmioMeets bootMmio (.halMapMmio 0xFEE00000 0x1000) :=
    .inr (.inr ⟨by decide, .inr (.inr ⟨by decide, by decide, .inl (by decide)⟩)⟩)
  obtain ⟨ptr, m, hcall⟩ := (mmio_mappings bootMmio bootMmio bootMmio_start (.start rfl)).2 _ hfits
  exact ⟨ptr, m, hcall, (mmio_mappings bootMmio _ bootMmio_start
    (.step (.start rfl) hfits (.call bootMmio _ ptr m (by decide) (by decide) hcall))).1⟩

/-- The end of the physical range wraps, and the range passes for a part of the first GiB. -/
theorem mmio_mappings_wrap : ¬∀ w₀ w, MmioStart w₀ →
    Reach (· = w₀) MmioStep (fun _ _ => True) w → MmioSound w := by
  intro hall
  have hcall : (MmioCall.halMapMmio 0xFFFFFFFFFFFFF000 0x2000).run bootMmio.mmio =
      some (0xFFFFFFFFFFFFF000, bootMmio.mmio) := rfl
  have hsound := hall bootMmio _ bootMmio_start
    (.step (.start rfl) trivial (.call bootMmio _ _ _ (by decide) (by decide) hcall))
  obtain ⟨t, ht, -⟩ := hsound.translates ⟨0xFFFFFFFFFFFFF000, 0xFFFFFFFFFFFFF000, 0x2000⟩
    List.mem_cons_self 0 (by decide)
  have hnone : walk (identityPaging 1 3) 0xFFFFFFFFFFFFF000 = none :=
    identity_none (by decide) (by decide)
  have ht' : walk (identityPaging 1 3) 0xFFFFFFFFFFFFF000 = some t := ht
  rw [hnone] at ht'
  cases ht'

end MeuOS.Mm
