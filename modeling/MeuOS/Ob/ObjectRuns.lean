import MeuOS.Lib.Run
import MeuOS.Ob.Object

/-! Whole runs of the handle table: objects are created, referenced and handed out as
handles, and any 64-bit value is passed back. `live` records what the callers were
given, a handle and its body, until they close exactly that value. -/
namespace MeuOS.Ob

open MeuOS.Lib

structure ObWorld where
  ob : ObState
  sTid : Nat
  bodies : List Nat
  live : List (Nat × Nat)
  refs : Nat → Nat
  derefs : Nat → Nat

inductive ObOp
  | createObject (hdr type bodySize : Nat) (name : Option (List UInt8))
  | createHandle (b : Nat)
  | handleToObject (v type : Nat)
  | closeHandle (v : Nat)
  | reference (b : Nat)
  | dereference (b : Nat)
  | createSystemThread (startRoutine : Nat)
  /-- A store outside every header. -/
  | store (i : Nat) (v : UInt8)

/-- What `kmalloc` promises of a block that is to hold an object. -/
def Fresh (bodies : List Nat) (hdr bodySize : Nat) : Prop :=
  hdr ≠ 0 ∧ ∀ b ∈ bodies, hdr + objectHeader + bodySize ≤ b - objectHeader ∨ b ≤ hdr

instance (bodies : List Nat) (hdr bodySize : Nat) : Decidable (Fresh bodies hdr bodySize) :=
  inferInstanceAs (Decidable (_ ∧ _))

/-- One call. The object calls are made on bodies `ObCreateObject` returned; handle
values are arbitrary. -/
def obStep (w : ObWorld) : ObOp → Option ObWorld
  | .createObject hdr type bodySize name =>
      if Fresh w.bodies hdr bodySize then
        let r := obCreateObject w.ob hdr type bodySize name
        some { w with ob := r.1, bodies := r.2 :: w.bodies, refs := Function.update w.refs r.2 0,
                      derefs := Function.update w.derefs r.2 0 }
      else none
  | .createHandle b =>
      if b ∈ w.bodies then
        let r := obCreateHandle w.ob b
        some { w with ob := r.1, live := if r.2 = 0 then w.live else (r.2, b) :: w.live }
      else none
  | .handleToObject _ _ => some w
  | .closeHandle v => some { w with ob := obCloseHandle w.ob v,
                                    live := w.live.filter fun e => e.1 != v }
  | .reference b =>
      if b ∈ w.bodies then
        some { w with ob := obReferenceObject w.ob b,
                      refs := Function.update w.refs b (w.refs b + 1) }
      else none
  | .dereference b =>
      if b ∈ w.bodies then
        some { w with ob := obDereferenceObject w.ob b,
                      derefs := Function.update w.derefs b (w.derefs b + 1) }
      else none
  | .createSystemThread startRoutine =>
      some { w with sTid := (psCreateSystemThread w.sTid startRoutine).1 }
  | .store i v =>
      if ∀ b ∈ w.bodies, i < b - objectHeader ∨ b ≤ i then
        some { w with ob := { w.ob with mem := w.ob.mem.write i 1 v.toNat } }
      else none

/-- The number of slots that hold `b`. -/
def handlesOf (t : Nat → Nat) (b : Nat) : Nat :=
  ((Finset.Ico 1 maxHandles).filter fun i => t i = b).card

/-! ## The invariant -/

/-- The slots hold known bodies, and the live handles are exactly the slots in use. -/
structure TableInv (t : Nat → Nat) (bodies : List Nat) (live : List (Nat × Nat)) : Prop where
  slot_body : ∀ i, 1 ≤ i → i < maxHandles → t i = 0 ∨ t i ∈ bodies
  live_slot : ∀ v b, (v, b) ∈ live ↔ ∃ i, 1 ≤ i ∧ i < maxHandles ∧ v = i * 4 ∧ t i = b ∧ b ≠ 0
  live_nodup : (live.map Prod.fst).Nodup

/-- The counters in the header of `b` count the slots and the explicit references. -/
def Counted (m : Mem) (t refs derefs : Nat → Nat) (b : Nat) : Prop :=
  handleCount m b = handlesOf t b ∧ refCount m b = 1 + handlesOf t b + refs b - derefs b

structure ObInv (w : ObWorld) : Prop where
  body_pos : ∀ b ∈ w.bodies, objectHeader < b
  apart : ∀ b ∈ w.bodies, ∀ c ∈ w.bodies, b = c ∨ b ≤ c - objectHeader ∨ c ≤ b - objectHeader
  table : TableInv w.ob.sHandles w.bodies w.live
  counted : ∀ b ∈ w.bodies, Counted w.ob.mem w.ob.sHandles w.refs w.derefs b

theorem ObInv.body_ne {w : ObWorld} (h : ObInv w) {b : Nat} (hb : b ∈ w.bodies) : b ≠ 0 :=
  Nat.ne_of_gt (Nat.zero_lt_of_lt (h.body_pos b hb))

/-! ## Slots of the table -/

theorem handlesOf_le (t : Nat → Nat) (b : Nat) : handlesOf t b ≤ 255 := by
  have hle := Finset.card_filter_le (Finset.Ico 1 maxHandles) fun i => t i = b
  rwa [Nat.card_Ico] at hle

theorem handlesOf_update (t : Nat → Nat) {i : Nat} (x b : Nat) (hlo : 1 ≤ i)
    (hhi : i < maxHandles) :
    handlesOf (Function.update t i x) b + (if t i = b then 1 else 0) =
      handlesOf t b + if x = b then 1 else 0 := by
  have hsplit : Finset.Ico 1 maxHandles = insert i ((Finset.Ico 1 maxHandles).erase i) :=
    (Finset.insert_erase (Finset.mem_Ico.mpr ⟨hlo, hhi⟩)).symm
  have hrest : ((Finset.Ico 1 maxHandles).erase i).filter (fun j => Function.update t i x j = b) =
      ((Finset.Ico 1 maxHandles).erase i).filter fun j => t j = b := by
    apply Finset.filter_congr
    intro j hj
    rw [Function.update_of_ne (Finset.ne_of_mem_erase hj)]
  have hnot : ∀ p : Nat → Prop, [DecidablePred p] →
      i ∉ ((Finset.Ico 1 maxHandles).erase i).filter p := by
    intro p _ hmem
    exact Finset.notMem_erase i _ (Finset.mem_filter.mp hmem).1
  unfold handlesOf
  rw [hsplit, Finset.filter_insert, Finset.filter_insert, hrest, Function.update_self]
  split <;> split <;> simp [hnot]

theorem handlesOf_eq_zero {t : Nat → Nat} {b : Nat}
    (h : ∀ i, 1 ≤ i → i < maxHandles → t i ≠ b) : handlesOf t b = 0 := by
  unfold handlesOf
  rw [Finset.card_eq_zero, Finset.filter_eq_empty_iff]
  intro i hi
  obtain ⟨hlo, hhi⟩ := Finset.mem_Ico.mp hi
  exact h i hlo hhi

theorem TableInv.fill {t : Nat → Nat} {bodies : List Nat} {live : List (Nat × Nat)}
    (h : TableInv t bodies live) {i b : Nat} (hlo : 1 ≤ i) (hhi : i < maxHandles) (hfree : t i = 0)
    (hb : b ∈ bodies) (hne : b ≠ 0) :
    TableInv (Function.update t i b) bodies ((i * 4, b) :: live) := by
  refine ⟨fun j hj₁ hj₂ => ?_, fun v c => ?_, ?_⟩
  · by_cases hij : j = i
    · rw [hij, Function.update_self]
      exact .inr hb
    · rw [Function.update_of_ne hij]
      exact h.slot_body j hj₁ hj₂
  · rw [List.mem_cons, h.live_slot, Prod.mk.injEq]
    constructor
    · rintro (⟨rfl, rfl⟩ | ⟨j, hj₁, hj₂, rfl, rfl, hcne⟩)
      · exact ⟨i, hlo, hhi, rfl, Function.update_self .., hne⟩
      · have hji : j ≠ i := by
          rintro rfl
          exact hcne hfree
        exact ⟨j, hj₁, hj₂, rfl, Function.update_of_ne hji .., hcne⟩
    · rintro ⟨j, hj₁, hj₂, rfl, rfl, hcne⟩
      by_cases hij : j = i
      · rw [hij, Function.update_self]
        exact .inl ⟨rfl, rfl⟩
      · rw [Function.update_of_ne hij] at hcne ⊢
        exact .inr ⟨j, hj₁, hj₂, rfl, rfl, hcne⟩
  · rw [List.map_cons, List.nodup_cons]
    refine ⟨fun hmem => ?_, h.live_nodup⟩
    obtain ⟨⟨v, c⟩, hvc, heq⟩ := List.mem_map.mp hmem
    obtain ⟨j, -, -, hv, hj, hcne⟩ := (h.live_slot v c).mp hvc
    -- the slot was free, so no live handle carries its index
    obtain rfl : j = i := by
      simp only at heq
      omega
    exact hcne (hj ▸ hfree)

theorem TableInv.clear {t : Nat → Nat} {bodies : List Nat} {live : List (Nat × Nat)}
    (h : TableInv t bodies live) (i : Nat) :
    TableInv (Function.update t i 0) bodies (live.filter fun e => e.1 != i * 4) := by
  refine ⟨fun j hj₁ hj₂ => ?_, fun v c => ?_, (h.live_nodup).sublist (List.filter_sublist.map _)⟩
  · by_cases hij : j = i
    · rw [hij, Function.update_self]
      exact .inl rfl
    · rw [Function.update_of_ne hij]
      exact h.slot_body j hj₁ hj₂
  · rw [List.mem_filter, h.live_slot, bne_iff_ne]
    constructor
    · rintro ⟨⟨j, hj₁, hj₂, rfl, rfl, hcne⟩, hne⟩
      have hji : j ≠ i := fun heq => hne (heq ▸ rfl)
      exact ⟨j, hj₁, hj₂, rfl, Function.update_of_ne hji .., hcne⟩
    · rintro ⟨j, hj₁, hj₂, rfl, rfl, hcne⟩
      have hji : j ≠ i := by
        rintro rfl
        exact hcne (Function.update_self ..)
      rw [Function.update_of_ne hji] at hcne ⊢
      exact ⟨⟨j, hj₁, hj₂, rfl, rfl, hcne⟩, by simp only; omega⟩

/-! ## Counters of the headers -/

/-- Headers are read from their own 80 bytes. -/
theorem header_congr {m m' : Mem} {b : Nat} (hb : objectHeader < b)
    (h : Mem.Agree m m' (b - objectHeader) b) :
    handleCount m' b = handleCount m b ∧ refCount m' b = refCount m b := by
  unfold handleCount refCount handleCountAt refCountAt objectHeader at *
  constructor
  · rw [Mem.rd32_congr (h.mono (by omega) (by omega))]
  · rw [Mem.rd32_congr (h.mono (by omega) (by omega))]

theorem counted_congr {m m' : Mem} {t refs derefs : Nat → Nat} {b : Nat} (hb : objectHeader < b)
    (h : Mem.Agree m m' (b - objectHeader) b) (hc : Counted m t refs derefs b) :
    Counted m' t refs derefs b := by
  obtain ⟨hh, hr⟩ := header_congr hb h
  unfold Counted
  rw [hh, hr]
  exact hc

/-- A word update inside the header of `b` leaves every other header alone. -/
theorem agree_addInt32 {w : ObWorld} (h : ObInv w) {b c a d : Nat} (hb : b ∈ w.bodies)
    (hc : c ∈ w.bodies) (hne : c ≠ b) (m : Mem) (hlo : b - objectHeader ≤ a) (hhi : a + 4 ≤ b) :
    Mem.Agree m (addInt32 m a d) (c - objectHeader) c := by
  have hpos := h.body_pos b hb
  have hsep := (h.apart b hb c hc).resolve_left (Ne.symm hne)
  intro i hi₁ hi₂
  exact (addInt32_outside m (by omega)).symm

/-- One word added to both counters of a header. -/
theorem counters_of_bump {w : ObWorld} (h : ObInv w) {b : Nat} (d : Nat) (hb : b ∈ w.bodies) :
    let m' := addInt32 (addInt32 w.ob.mem (handleCountAt b) d) (refCountAt b) d
    handleCount m' b = int32 ((addInt32 w.ob.mem (handleCountAt b) d).rd32 (handleCountAt b)) ∧
    refCount m' b = int32 ((addInt32 w.ob.mem (refCountAt b) d).rd32 (refCountAt b)) ∧
    ∀ c ∈ w.bodies, c ≠ b → handleCount m' c = handleCount w.ob.mem c ∧
      refCount m' c = refCount w.ob.mem c := by
  have hpos := h.body_pos b hb
  simp only [objectHeader] at hpos
  refine ⟨?_, ?_, fun c hc hne => ?_⟩
  · unfold handleCount
    rw [rd32_addInt32_of_disjoint]
    simp only [handleCountAt, refCountAt, objectHeader]
    omega
  · have hword : (addInt32 w.ob.mem (handleCountAt b) d).rd32 (refCountAt b) =
        w.ob.mem.rd32 (refCountAt b) := by
      rw [rd32_addInt32_of_disjoint]
      simp only [handleCountAt, refCountAt, objectHeader]
      omega
    unfold refCount addInt32 at *
    rw [hword, Mem.rd32_write _ _ (Nat.mod_lt _ (by decide)),
      Mem.rd32_write _ _ (Nat.mod_lt _ (by decide))]
  · apply header_congr (h.body_pos c hc)
    refine (agree_addInt32 h hb hc hne w.ob.mem ?_ ?_).trans
      (agree_addInt32 h hb hc hne _ ?_ ?_)
    all_goals
      simp only [handleCountAt, refCountAt, objectHeader]
      omega

/-- One word added to the reference counter only. -/
theorem counters_of_ref {w : ObWorld} (h : ObInv w) {b : Nat} (d : Nat) (hb : b ∈ w.bodies) :
    let m' := addInt32 w.ob.mem (refCountAt b) d
    handleCount m' b = handleCount w.ob.mem b ∧
    ∀ c ∈ w.bodies, c ≠ b → handleCount m' c = handleCount w.ob.mem c ∧
      refCount m' c = refCount w.ob.mem c := by
  have hpos := h.body_pos b hb
  simp only [objectHeader] at hpos
  refine ⟨?_, fun c hc hne => ?_⟩
  · unfold handleCount
    rw [rd32_addInt32_of_disjoint]
    simp only [handleCountAt, refCountAt, objectHeader]
    omega
  · apply header_congr (h.body_pos c hc)
    apply agree_addInt32 h hb hc hne w.ob.mem
    all_goals
      simp only [refCountAt, objectHeader]
      omega

theorem ObInv.handles_small {w : ObWorld} (h : ObInv w) {b : Nat} (hb : b ∈ w.bodies) :
    0 ≤ handleCount w.ob.mem b ∧ handleCount w.ob.mem b ≤ 255 := by
  have hcount := (h.counted b hb).1
  have hle := handlesOf_le w.ob.sHandles b
  omega

/-- Putting `b` into a free slot and counting it keeps every counter right. -/
theorem ObInv.counted_fill {w : ObWorld} (h : ObInv w) {b i : Nat} (hb : b ∈ w.bodies)
    (hlo : 1 ≤ i) (hhi : i < maxHandles) (hfree : w.ob.sHandles i = 0)
    (hfits : refCount w.ob.mem b < 2147483647) :
    ∀ c ∈ w.bodies, Counted (incr (incr w.ob.mem (handleCountAt b)) (refCountAt b))
      (Function.update w.ob.sHandles i b) w.refs w.derefs c := by
  intro c hc
  obtain ⟨hself, hrself, hother⟩ := counters_of_bump h 1 hb
  obtain ⟨hcount, hrcount⟩ := h.counted c hc
  have hupd := handlesOf_update w.ob.sHandles b c hlo hhi
  rw [hfree, if_neg (h.body_ne hc).symm] at hupd
  unfold Counted
  by_cases hcb : c = b
  · subst hcb
    rw [if_pos rfl] at hupd
    have hsmall := h.handles_small hc
    have h₁ : handleCount (incr (incr w.ob.mem (handleCountAt c)) (refCountAt c)) c =
        handleCount w.ob.mem c + 1 := hself.trans (int32_incr (by
          change handleCount w.ob.mem c < _
          omega))
    have h₂ : refCount (incr (incr w.ob.mem (handleCountAt c)) (refCountAt c)) c =
        refCount w.ob.mem c + 1 := hrself.trans (int32_incr hfits)
    omega
  · obtain ⟨hh, hr⟩ := hother c hc hcb
    rw [if_neg (Ne.symm hcb)] at hupd
    unfold incr
    omega

/-- Emptying a slot that held `b` and uncounting it keeps every counter right. -/
theorem ObInv.counted_clear {w : ObWorld} (h : ObInv w) {b i : Nat} (hb : b ∈ w.bodies)
    (hlo : 1 ≤ i) (hhi : i < maxHandles) (hheld : w.ob.sHandles i = b)
    (hfits : -2147483648 < refCount w.ob.mem b) :
    ∀ c ∈ w.bodies, Counted (decr (decr w.ob.mem (handleCountAt b)) (refCountAt b))
      (Function.update w.ob.sHandles i 0) w.refs w.derefs c := by
  intro c hc
  obtain ⟨hself, hrself, hother⟩ := counters_of_bump h 4294967295 hb
  obtain ⟨hcount, hrcount⟩ := h.counted c hc
  have hupd := handlesOf_update w.ob.sHandles 0 c hlo hhi
  rw [hheld, if_neg (h.body_ne hc).symm] at hupd
  unfold Counted
  by_cases hcb : c = b
  · subst hcb
    rw [if_pos rfl] at hupd
    have hsmall := h.handles_small hc
    have h₁ : handleCount (decr (decr w.ob.mem (handleCountAt c)) (refCountAt c)) c =
        handleCount w.ob.mem c - 1 := hself.trans (int32_decr (by
          change _ < handleCount w.ob.mem c
          omega))
    have h₂ : refCount (decr (decr w.ob.mem (handleCountAt c)) (refCountAt c)) c =
        refCount w.ob.mem c - 1 := hrself.trans (int32_decr hfits)
    omega
  · obtain ⟨hh, hr⟩ := hother c hc hcb
    rw [if_neg (Ne.symm hcb)] at hupd
    unfold decr
    omega

/-! ## One step -/

theorem obCreateHandle_eq {s : ObState} {b i : Nat} (hb : b ≠ 0)
    (hi : freeSlotLoop s.sHandles (maxHandles - 1) 1 = some i) :
    obCreateHandle s b =
      ({ s with sHandles := Function.update s.sHandles i b,
                mem := incr (incr s.mem (handleCountAt b)) (refCountAt b) }, i * 4) := by
  unfold obCreateHandle obReferenceObject
  simp [hi, hb]

theorem obCreateHandle_full {s : ObState} (b : Nat)
    (hfull : freeSlotLoop s.sHandles (maxHandles - 1) 1 = none) : obCreateHandle s b = (s, 0) := by
  unfold obCreateHandle
  simp [hfull]

theorem handleEntry_eq_some {s : ObState} {v i b : Nat} :
    handleEntry s v = some (i, b) ↔
      int32 (v / 4) = i ∧ 1 ≤ i ∧ i < maxHandles ∧ s.sHandles i = b ∧ b ≠ 0 := by
  unfold handleEntry
  rw [Option.bind_eq_some_iff]
  constructor
  · rintro ⟨j, hj, hentry⟩
    split at hentry
    · cases hentry
    · rename_i hne
      cases hentry
      obtain ⟨hdec, hlo, hhi⟩ := handleSlot_eq_some.mp hj
      exact ⟨hdec, hlo, hhi, rfl, hne⟩
  · rintro ⟨hdec, hlo, hhi, rfl, hne⟩
    exact ⟨i, handleSlot_eq_some.mpr ⟨hdec, hlo, hhi⟩, if_neg hne⟩

theorem obCloseHandle_eq {s : ObState} {v i b : Nat} (hentry : handleEntry s v = some (i, b)) :
    obCloseHandle s v =
      { s with sHandles := Function.update s.sHandles i 0,
               mem := decr (decr s.mem (handleCountAt b)) (refCountAt b) } := by
  obtain ⟨-, -, -, -, hb⟩ := handleEntry_eq_some.mp hentry
  unfold obCloseHandle obDereferenceObject
  simp [hentry, hb]

theorem obCloseHandle_none {s : ObState} {v : Nat} (hentry : handleEntry s v = none) :
    obCloseHandle s v = s := by
  unfold obCloseHandle
  simp [hentry]

/-- The value is a multiple of 4 below 1024, or its truncated quotient designates no
slot in use: decoding it cannot reach an object by accident. -/
def Exact (s : ObState) (v : Nat) : Prop :=
  (v % 4 = 0 ∧ v / 4 < maxHandles) ∨
    ∀ i, 1 ≤ i → i < maxHandles → int32 (v / 4) = i → s.sHandles i = 0

theorem Exact.eq_mul_four {s : ObState} {v i b : Nat} (h : Exact s v)
    (hentry : handleEntry s v = some (i, b)) : v = i * 4 := by
  obtain ⟨hdec, hlo, hhi, hslot, hne⟩ := handleEntry_eq_some.mp hentry
  rcases h with ⟨hmod, hsmall⟩ | hnone
  · simp only [maxHandles] at hsmall
    rw [int32_of_lt (by omega)] at hdec
    omega
  · exact absurd (hslot.symm.trans (hnone i hlo hhi hdec)) hne

/-- Live handles decode to their own slot. -/
theorem TableInv.entry_of_live {s : ObState} {bodies : List Nat} {live : List (Nat × Nat)}
    (h : TableInv s.sHandles bodies live) {v b : Nat} (hv : (v, b) ∈ live) :
    handleEntry s v = some (v / 4, b) ∧ v = v / 4 * 4 := by
  obtain ⟨i, hlo, hhi, rfl, hslot, hne⟩ := (h.live_slot v b).mp hv
  have hdiv : i * 4 / 4 = i := Nat.mul_div_cancel i (by decide)
  have hdec := handleSlot_eq_some.mp (handleSlot_mul_four hlo hhi)
  rw [hdiv]
  exact ⟨handleEntry_eq_some.mpr ⟨hdec.1, hlo, hhi, hslot, hne⟩, rfl⟩

theorem createObject_inv {w w' : ObWorld} {hdr type bodySize : Nat} {name : Option (List UInt8)}
    (h : ObInv w) (hstep : obStep w (.createObject hdr type bodySize name) = some w') :
    ObInv w' := by
  unfold obStep at hstep
  simp only at hstep
  split at hstep
  case isFalse => cases hstep
  case isTrue hfresh =>
    obtain ⟨hne, hdisj⟩ := hfresh
    unfold obCreateObject at hstep
    simp only [hne, if_false, Option.some.injEq] at hstep
    subst hstep
    have hlen : ((name.getD []).take 63).length ≤ 63 := List.length_take_le ..
    have hnew : hdr + objectHeader ∉ w.bodies := by
      intro hmem
      have := hdisj _ hmem
      simp only [objectHeader] at this
      omega
    refine ⟨?_, ?_, ⟨?_, h.table.live_slot, h.table.live_nodup⟩, ?_⟩
    · intro b hb
      rcases List.mem_cons.mp hb with rfl | hb
      · omega
      · exact h.body_pos b hb
    · intro b hb c hc
      rcases List.mem_cons.mp hb with rfl | hb <;> rcases List.mem_cons.mp hc with rfl | hc
      · exact .inl rfl
      · have := hdisj c hc
        omega
      · have := hdisj b hb
        omega
      · exact h.apart b hb c hc
    · intro i hlo hhi
      exact (h.table.slot_body i hlo hhi).imp_right (List.mem_cons_of_mem _)
    · intro c hc
      rcases List.mem_cons.mp hc with rfl | hc
      · have hnone : handlesOf w.ob.sHandles (hdr + objectHeader) = 0 := by
          apply handlesOf_eq_zero
          intro i hlo hhi heq
          rcases h.table.slot_body i hlo hhi with hzero | hmem
          · omega
          · exact hnew (heq ▸ hmem)
        unfold Counted
        simp only [hnone, Function.update_self]
        constructor
        · simp (disch := omega) only [handleCount, writeName, typeAt, refCountAt, handleCountAt, nameAt,
            objectHeader, Mem.rd32, Mem.read_blit_of_disjoint, Mem.read_write_of_disjoint,
            Mem.read_write_of_lt]
          rfl
        · simp (disch := omega) only [refCount, writeName, typeAt, refCountAt, handleCountAt, nameAt,
            objectHeader, Mem.rd32, Mem.read_blit_of_disjoint, Mem.read_write_of_disjoint,
            Mem.read_write_of_lt]
          rfl
      · have hcn : c ≠ hdr + objectHeader := fun heq => hnew (heq ▸ hc)
        obtain ⟨hcount, hrcount⟩ := h.counted c hc
        have hsep := hdisj c hc
        unfold Counted
        simp only [Function.update_of_ne hcn]
        have hpos := h.body_pos c hc
        refine counted_congr hpos (fun i hi₁ hi₂ => ?_) ⟨hcount, hrcount⟩
        simp only [objectHeader] at hsep hi₁ hpos
        simp (disch := omega) only [writeName, typeAt, refCountAt, handleCountAt, nameAt,
          objectHeader, Mem.blit_outside, Mem.write_outside]

theorem createHandle_inv {w w' : ObWorld} {b : Nat} (h : ObInv w)
    (hfits : refCount w.ob.mem b < 2147483647) (hstep : obStep w (.createHandle b) = some w') :
    ObInv w' := by
  unfold obStep at hstep
  simp only at hstep
  split at hstep
  case isFalse => cases hstep
  case isTrue hb =>
    cases hloop : freeSlotLoop w.ob.sHandles (maxHandles - 1) 1 with
    | none =>
      rw [obCreateHandle_full b hloop] at hstep
      cases hstep
      exact h
    | some i =>
      obtain ⟨hlo, hhi, hfree⟩ := freeSlotLoop_some hloop
      have hhi : i < maxHandles := by
        simp only [maxHandles] at hhi ⊢
        omega
      have hpos : i * 4 ≠ 0 := by omega
      rw [obCreateHandle_eq (h.body_ne hb) hloop] at hstep
      simp only [if_neg hpos, Option.some.injEq] at hstep
      subst hstep
      exact ⟨h.body_pos, h.apart, h.table.fill hlo hhi hfree hb (h.body_ne hb),
        h.counted_fill hb hlo hhi hfree hfits⟩

theorem closeHandle_inv {w w' : ObWorld} {v : Nat} (h : ObInv w) (hexact : Exact w.ob v)
    (hfits : ∀ i b, handleEntry w.ob v = some (i, b) → -2147483648 < refCount w.ob.mem b)
    (hstep : obStep w (.closeHandle v) = some w') : ObInv w' := by
  cases hstep
  cases hentry : handleEntry w.ob v with
  | none =>
    rw [obCloseHandle_none hentry]
    have hkeep : (w.live.filter fun e => e.1 != v) = w.live := by
      apply List.filter_eq_self.mpr
      rintro ⟨u, b⟩ hu
      rw [bne_iff_ne]
      rintro rfl
      rw [(h.table.entry_of_live hu).1] at hentry
      cases hentry
    rw [hkeep]
    exact ⟨h.body_pos, h.apart, h.table, h.counted⟩
  | some e =>
    obtain ⟨i, b⟩ := e
    obtain ⟨-, hlo, hhi, hslot, hne⟩ := handleEntry_eq_some.mp hentry
    have hb : b ∈ w.bodies := by
      rcases h.table.slot_body i hlo hhi with hzero | hmem
      · exact absurd (hslot.symm.trans hzero) hne
      · exact hslot ▸ hmem
    rw [obCloseHandle_eq hentry, hexact.eq_mul_four hentry]
    exact ⟨h.body_pos, h.apart, h.table.clear i,
      h.counted_clear hb hlo hhi hslot (hfits i b hentry)⟩

theorem reference_inv {w w' : ObWorld} {b : Nat} (h : ObInv w)
    (hfits : refCount w.ob.mem b < 2147483647) (hstep : obStep w (.reference b) = some w') :
    ObInv w' := by
  unfold obStep obReferenceObject at hstep
  simp only at hstep
  split at hstep
  case isFalse => cases hstep
  case isTrue hb =>
    simp only [if_neg (h.body_ne hb), Option.some.injEq] at hstep
    subst hstep
    refine ⟨h.body_pos, h.apart, h.table, fun c hc => ?_⟩
    obtain ⟨hself, hother⟩ := counters_of_ref h 1 hb
    obtain ⟨hcount, hrcount⟩ := h.counted c hc
    unfold Counted
    by_cases hcb : c = b
    · subst hcb
      have hinc : refCount (incr w.ob.mem (refCountAt c)) c = refCount w.ob.mem c + 1 :=
        int32_incr hfits
      simp only [Function.update_self]
      unfold incr at *
      omega
    · obtain ⟨hh, hr⟩ := hother c hc hcb
      simp only [Function.update_of_ne hcb]
      unfold incr
      omega

theorem dereference_inv {w w' : ObWorld} {b : Nat} (h : ObInv w)
    (hfits : -2147483648 < refCount w.ob.mem b) (hstep : obStep w (.dereference b) = some w') :
    ObInv w' := by
  unfold obStep obDereferenceObject at hstep
  simp only at hstep
  split at hstep
  case isFalse => cases hstep
  case isTrue hb =>
    simp only [if_neg (h.body_ne hb), Option.some.injEq] at hstep
    subst hstep
    refine ⟨h.body_pos, h.apart, h.table, fun c hc => ?_⟩
    obtain ⟨hself, hother⟩ := counters_of_ref h 4294967295 hb
    obtain ⟨hcount, hrcount⟩ := h.counted c hc
    unfold Counted
    by_cases hcb : c = b
    · subst hcb
      have hdec : refCount (decr w.ob.mem (refCountAt c)) c = refCount w.ob.mem c - 1 :=
        int32_decr hfits
      simp only [Function.update_self]
      unfold decr at *
      omega
    · obtain ⟨hh, hr⟩ := hother c hc hcb
      simp only [Function.update_of_ne hcb]
      unfold decr
      omega

theorem store_inv {w w' : ObWorld} {i : Nat} {v : UInt8} (h : ObInv w)
    (hstep : obStep w (.store i v) = some w') : ObInv w' := by
  unfold obStep at hstep
  simp only at hstep
  split at hstep
  case isFalse => cases hstep
  case isTrue hout =>
    cases hstep
    refine ⟨h.body_pos, h.apart, h.table, fun c hc => ?_⟩
    have hsep := hout c hc
    refine counted_congr (h.body_pos c hc) ?_ (h.counted c hc)
    exact (Mem.agree_write w.ob.mem v.toNat (by omega)).symm

/-! ## Whole runs -/

/-- `ob_init` over any state; thread ids start above 100. -/
def ObStart (w : ObWorld) : Prop :=
  ∃ s, w.ob = obInit s ∧ w.sTid = 100 ∧ w.bodies = [] ∧ w.live = []

def ObRun (guard : ObWorld → ObOp → Prop) : ObWorld → Prop :=
  Reach ObStart (fun w op w' => obStep w op = some w') guard

/-- Values passed to `ob_close_handle` decode exactly, and no counter leaves `int32_t`. -/
def Lawful (w : ObWorld) : ObOp → Prop
  | .createHandle b => refCount w.ob.mem b < 2147483647
  | .reference b => refCount w.ob.mem b < 2147483647
  | .dereference b => -2147483648 < refCount w.ob.mem b
  | .closeHandle v => Exact w.ob v ∧
      ∀ i b, handleEntry w.ob v = some (i, b) → -2147483648 < refCount w.ob.mem b
  | _ => True

/-- A call on `v` acts on an object if and only if `v` is a live handle, and then on the
body it was returned for. -/
def ActsExactly (w : ObWorld) (v : Nat) : Prop :=
  (∀ type b, b ≠ 0 → (obHandleToObject w.ob v type = b ↔
    (v, b) ∈ w.live ∧ (type = obTypeNone ∨ objType w.ob.mem b = type))) ∧
  ((∀ b, (v, b) ∉ w.live) → obCloseHandle w.ob v = w.ob) ∧
  ∀ b, (v, b) ∈ w.live → obCloseHandle w.ob v =
    { w.ob with sHandles := Function.update w.ob.sHandles (v / 4) 0,
                mem := decr (decr w.ob.mem (handleCountAt b)) (refCountAt b) }

/-- The counters and the live handles of a reachable table. -/
structure ObSound (w : ObWorld) : Prop where
  counted : ∀ b ∈ w.bodies, Counted w.ob.mem w.ob.sHandles w.refs w.derefs b
  live_nodup : (w.live.map Prod.fst).Nodup

theorem obStep_inv {w w' : ObWorld} {op : ObOp} (h : ObInv w) (hop : Lawful w op)
    (hstep : obStep w op = some w') : ObInv w' := by
  cases op with
  | createObject hdr type bodySize name => exact createObject_inv h hstep
  | createHandle b => exact createHandle_inv h hop hstep
  | handleToObject v type =>
    cases hstep
    exact h
  | closeHandle v => exact closeHandle_inv h hop.1 hop.2 hstep
  | reference b => exact reference_inv h hop hstep
  | dereference b => exact dereference_inv h hop hstep
  | createSystemThread startRoutine =>
    cases hstep
    exact ⟨h.body_pos, h.apart, h.table, h.counted⟩
  | store i v => exact store_inv h hstep

theorem obStart_inv {w : ObWorld} (h : ObStart w) : ObInv w := by
  obtain ⟨s, hob, -, hbodies, hlive⟩ := h
  have hfree : ∀ i, i < maxHandles → w.ob.sHandles i = 0 := by
    intro i hi
    rw [hob]
    exact if_pos hi
  refine ⟨by simp [hbodies], by simp [hbodies], ⟨fun i _ hhi => .inl (hfree i hhi), ?_, ?_⟩,
    by simp [hbodies]⟩
  · intro v b
    simp only [hlive, List.not_mem_nil, false_iff]
    rintro ⟨i, -, hhi, -, hslot, hne⟩
    exact hne (hslot.symm.trans (hfree i hhi))
  · simp [hlive]

theorem obRun_inv {w : ObWorld} (h : ObRun Lawful w) : ObInv w :=
  Reach.invariant h (fun _ => obStart_inv) fun _ _ _ hinv hop hstep => obStep_inv hinv hop hstep

/-- A call on a value acts as the callers were promised exactly when the value does not
decode to somebody else's slot. -/
theorem ObInv.actsExactly_iff {w : ObWorld} (h : ObInv w) (v : Nat) :
    ActsExactly w v ↔ Exact w.ob v := by
  constructor
  · rintro ⟨hresolve, -, -⟩
    by_contra hnot
    unfold Exact at hnot
    push Not at hnot
    obtain ⟨hform, i, hlo, hhi, hdec, hslot⟩ := hnot
    have hentry := handleEntry_eq_some.mpr ⟨hdec, hlo, hhi, rfl, hslot⟩
    have hobj : obHandleToObject w.ob v obTypeNone = w.ob.sHandles i := by
      unfold obHandleToObject
      simp [hentry]
    obtain ⟨hlive, -⟩ := (hresolve obTypeNone _ hslot).mp hobj
    obtain ⟨j, -, hj, rfl, -, -⟩ := (h.table.live_slot _ _).mp hlive
    have := hform (Nat.mul_mod_left j 4)
    rw [Nat.mul_div_cancel j (by decide)] at this
    omega
  · intro hexact
    cases hentry : handleEntry w.ob v with
    | none =>
      have hdead : ∀ b, (v, b) ∉ w.live := by
        intro b hb
        rw [(h.table.entry_of_live hb).1] at hentry
        cases hentry
      refine ⟨fun type b hne => ?_, fun _ => obCloseHandle_none hentry,
        fun b hb => absurd hb (hdead b)⟩
      unfold obHandleToObject
      simp only [hentry, hdead b, false_and, iff_false]
      exact hne.symm
    | some e =>
      obtain ⟨i, c⟩ := e
      obtain ⟨-, hlo, hhi, hslot, hne⟩ := handleEntry_eq_some.mp hentry
      have hv := hexact.eq_mul_four hentry
      have hlive : (v, c) ∈ w.live := (h.table.live_slot v c).mpr ⟨i, hlo, hhi, hv, hslot, hne⟩
      have hbody : ∀ b, (v, b) ∈ w.live → b = c := by
        intro b hb
        have heq := (h.table.entry_of_live hb).1.symm.trans hentry
        cases heq
        rfl
      refine ⟨fun type b hbne => ?_, fun hdead => absurd hlive (hdead c), fun b hb => ?_⟩
      · unfold obHandleToObject
        simp only [hentry]
        constructor
        · intro hres
          split at hres
          · exact absurd hres.symm hbne
          · rename_i hty
            subst hres
            exact ⟨hlive, by tauto⟩
        · rintro ⟨hb, hty⟩
          rw [hbody b hb] at hty ⊢
          exact if_neg (by tauto)
      · rw [hbody b hb, obCloseHandle_eq hentry, hv, Nat.mul_div_cancel i (by decide)]

/-- In every lawful run the counters are exact, live handles differ, and a call on a
64-bit value does what its caller was promised exactly for the values that decode to
no foreign slot. -/
theorem obRun_sound (w : ObWorld) (h : ObRun Lawful w) :
    ObSound w ∧ ∀ v, ActsExactly w v ↔ Exact w.ob v := by
  have hinv := obRun_inv h
  exact ⟨⟨hinv.counted, hinv.table.live_nodup⟩, hinv.actsExactly_iff⟩

/-- One object, and then one handle to it. -/
def oneObject : ObWorld where
  ob := (obCreateObject (obInit ⟨fun _ => 0, fun _ => 0, [], []⟩) 0x2000018 4 16 none).1
  sTid := 100
  bodies := [0x2000068]
  live := []
  refs := Function.update (fun _ => 0) 0x2000068 0
  derefs := Function.update (fun _ => 0) 0x2000068 0

def oneHandle : ObWorld :=
  { oneObject with ob := (obCreateHandle oneObject.ob 0x2000068).1, live := [(4, 0x2000068)] }

theorem oneHandle_run {guard : ObWorld → ObOp → Prop} (hguard : ∀ w op, Lawful w op → guard w op) :
    ObRun guard oneHandle := by
  have hstart : ObStart ⟨obInit ⟨fun _ => 0, fun _ => 0, [], []⟩, 100, [], [], fun _ => 0,
      fun _ => 0⟩ := ⟨_, rfl, rfl, rfl, rfl⟩
  have hobject : ObRun guard oneObject :=
    .step (a := .createObject 0x2000018 4 16 none) (.start hstart) (hguard _ _ trivial) rfl
  have hfits : Lawful oneObject (.createHandle 0x2000068) := by
    have hinv : ObInv oneObject := createObject_inv (obStart_inv hstart)
      (show obStep _ (.createObject 0x2000018 4 16 none) = some oneObject from rfl)
    have hcount := (hinv.counted 0x2000068 (List.mem_singleton_self _)).2
    have hnone : handlesOf oneObject.ob.sHandles 0x2000068 = 0 := by
      apply handlesOf_eq_zero
      intro i _ hhi heq
      have hzero : oneObject.ob.sHandles i = 0 := if_pos hhi
      omega
    have hrefs : oneObject.refs 0x2000068 = 0 := rfl
    have hderefs : oneObject.derefs 0x2000068 = 0 := rfl
    change refCount oneObject.ob.mem 0x2000068 < 2147483647
    omega
  exact .step (a := .createHandle 0x2000068) hobject (hguard _ _ hfits) rfl

theorem obRun_sound_oneHandle : ObSound oneHandle ∧ ∀ v, ActsExactly oneHandle v ↔
    Exact oneHandle.ob v :=
  obRun_sound oneHandle (oneHandle_run fun _ _ h => h)

/-- With one handle, 4, in the table, the value `4 + 2 ^ 34` closes it. -/
theorem obRun_unsound_alias :
    ¬ ∀ w, ObRun (fun _ _ => True) w → ObSound w ∧ ∀ v, ActsExactly w v := by
  intro h
  obtain ⟨hresolve, -, -⟩ := (h oneHandle (oneHandle_run fun _ _ _ => trivial)).2 (4 + 2 ^ 34)
  have hobj : obHandleToObject oneHandle.ob (4 + 2 ^ 34) obTypeNone = 0x2000068 := rfl
  obtain ⟨hlive, -⟩ := (hresolve obTypeNone 0x2000068 (by decide)).mp hobj
  simp [oneHandle] at hlive

/-- The first thread id names slot 25. -/
example : (psCreateSystemThread 100 1).2.2.bind handleSlot = some 25 := by decide

end MeuOS.Ob
