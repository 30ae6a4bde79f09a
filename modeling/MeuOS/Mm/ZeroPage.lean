import MeuOS.Mm.AddressSpace

/-! Recovery from a page fault: the page is given a zeroed frame, or the one it has is zeroed, or
the large page it lies in is opened to ring 3. -/
namespace MeuOS.Mm

open MeuOS.Lib

/-- `table[idx] |= flags`. -/
def setBits (m : Tables (Fin 512) (BitVec 64)) (t : Nat) (i : Fin 512) (flags : BitVec 64) :
    Tables (Fin 512) (BitVec 64) :=
  m.write t i (m t i ||| flags)

/-- A new frame, zeroed and mapped. -/
def mapNewFrame (s : Paging) (addr : Nat) : Option (Nat × Paging) :=
  (pmmAllocFrame s.pmm).bind fun (pmm, f) =>
    if f = 0 then some (0, { s with pmm := pmm })
    else
      mmMapPhysRange { s with mem := s.mem.clear (f / frame) 0, pmm := pmm } addr f 0x1000
        (pgPresent ||| pgRw ||| pgUser)

def mmMapZeroPage (s : Paging) (va : Nat) : Option (Nat × Paging) :=
  if va = 0 then some (0, s) else
  let addr := va / frame * frame
  let pml4 := ptAddr s.cr3
  let pml4e := s.mem pml4 (tableIdx addr 39)
  if !present pml4e then mapNewFrame s addr else
  let pdpt := ptAddr pml4e
  let pdpte := s.mem pdpt (tableIdx addr 30)
  if !present pdpte then mapNewFrame s addr else
  let pd := ptAddr pdpte
  let pde := s.mem pd (tableIdx addr 21)
  if large pde then
    let m := setBits s.mem pml4 (tableIdx addr 39) pgUser
    let m := setBits m pdpt (tableIdx addr 30) pgUser
    let m := setBits m pd (tableIdx addr 21) (pgUser ||| pgRw)
    some (1, { s with mem := m })
  else if !present pde then mapNewFrame s addr
  else
    let pte := s.mem (ptAddr pde) (tableIdx addr 12)
    if !present pte then mapNewFrame s addr
    else some (1, { s with mem := s.mem.clear (ptAddr pte) 0 })

/-! ## What the caller counts on -/

/-- A ring-3 write goes through. -/
def Paging.Writes (s : Paging) (va : Nat) : Prop :=
  ∃ a, s.access va = some a ∧ a.writable = true ∧ a.user = true

/-- A page that holds data: it is not free, and no table of the walk. -/
def Paging.Data (s : Paging) (q : Nat) : Prop :=
  q ∉ s.pmm.freeFrames ∧ ∀ c, c.length < 4 → s.reach c ≠ some q

/-- Every other page has its translation, its permissions and its contents. -/
structure Untouched (s s' : Paging) (va : Nat) : Prop where
  access : ∀ w, w / frame ≠ va / frame → s'.access w = s.access w
  contents : ∀ w t, w / frame ≠ va / frame → walk s w = some t → s.Data t.page →
    s'.mem t.page = s.mem t.page

/-- The faulting write goes through, and nothing else changes. -/
structure Recovered (s s' : Paging) (va : Nat) : Prop extends Untouched s s' va where
  progress : s'.Writes va

def opened (e : BitVec 64) : Prop := e &&& pgRw ≠ 0 ∧ e &&& pgUser ≠ 0

/-- A page in a large page could be written before; so could a mapped one, whose frame is zero
already or no other page's; and for a missing one the tables there are open to ring-3 writes. -/
structure Paging.Recovers (s : Paging) (va : Nat) : Prop where
  largePage : s.MeetsPs va → s.Writes va
  mappedPage : ∀ e, s.entry va = some (e, 0) → s.Writes va ∧
    (s.mem (ptAddr e) = (fun _ => 0) ∨ ¬s.Data (ptAddr e) ∨
      ∀ w t, w / frame ≠ va / frame → walk s w = some t → t.page ≠ ptAddr e)
  missingPage : s.entry va = none → ¬s.MeetsPs va →
    Canonical va ∧ va / frame + 1 < 2 ^ 52 ∧ ∀ e ∈ s.trail va, opened e

/-- A large page that can be opened: it is translated, below entries that allow writes. -/
def Paging.Openable (s : Paging) (va : Nat) : Prop :=
  (∃ a, s.access va = some a) ∧ ∀ e ∈ s.trail va, e &&& pgRw ≠ 0

/-- The addresses are in one 2 MiB page. -/
def SameLarge (va w : Nat) : Prop :=
  tableIdx w 39 = tableIdx va 39 ∧ tableIdx w 30 = tableIdx va 30 ∧ tableIdx w 21 = tableIdx va 21

/-- Another access to the same place that allows no less, and more only where a large page was
opened, to ring 3 also below the same entry of the PML4. -/
structure Access.Widened (a a' : Access) (va w : Nat) : Prop where
  place : a'.translation.page = a.translation.page ∧ a'.translation.left = a.translation.left
  noExecute : a'.noExecute = a.noExecute
  writable : a.writable = true → a'.writable = true
  user : a.user = true → a'.user = true
  largePage : ¬SameLarge va w → a'.writable = a.writable
  below : tableIdx w 39 ≠ tableIdx va 39 → a'.user = a.user

/-- The large page is open to ring-3 writes; every page is where it was, with its contents. -/
structure LargeOpened (s s' : Paging) (va : Nat) : Prop where
  progress : s'.Writes va
  absent : ∀ w, s.access w = none → s'.access w = none
  access : ∀ w a, s.access w = some a → ∃ a', s'.access w = some a' ∧ a.Widened a' va w
  contents : ∀ q, s.Data q → s'.mem q = s.mem q

/-- The frame of the page is zeroed; no page changes its translation or its permissions. -/
structure Rezeroed (s s' : Paging) (e : BitVec 64) : Prop where
  access : ∀ w, s'.access w = s.access w
  zeroed : s'.mem (ptAddr e) = fun _ => 0
  contents : ∀ q, q ≠ ptAddr e → s'.mem q = s.mem q

/-! ## Bits -/

section Bits

variable {e f : BitVec 64} {k : Nat}

theorem and_twoPow_ne (e : BitVec 64) (k : Nat) (hk : k < 64) :
    e &&& BitVec.twoPow 64 k ≠ 0 ↔ e.getLsbD k = true := by
  rw [BitVec.and_twoPow]
  cases e.getLsbD k with
  | false => simp
  | true =>
    simp only [if_true, ne_eq, iff_true]
    intro hzero
    have hbit := congrArg (BitVec.getLsbD · k) hzero
    simp [hk] at hbit

theorem or_twoPow (h : e.getLsbD k = true) : e ||| BitVec.twoPow 64 k = e := by
  apply BitVec.eq_of_getLsbD_eq
  intro i hi
  rw [BitVec.getLsbD_or, BitVec.getLsbD_twoPow]
  by_cases hik : k = i
  · rw [← hik, h, Bool.true_or]
  · simp [hik]

theorem opened_iff (e : BitVec 64) : opened e ↔ e.getLsbD 1 = true ∧ e.getLsbD 2 = true :=
  and_congr (and_twoPow_ne e 1 (by decide)) (and_twoPow_ne e 2 (by decide))

theorem opened_flags (e : BitVec 64) : opened (e &&& ~~~ptMask) ↔ opened e := by
  have hrw : (~~~ptMask).getLsbD 1 = true := by decide
  have huser : (~~~ptMask).getLsbD 2 = true := by decide
  rw [opened_iff, opened_iff, BitVec.getLsbD_and, BitVec.getLsbD_and, hrw, huser, Bool.and_true,
    Bool.and_true]

theorem opened_or (e : BitVec 64) (h : opened f) : opened (e ||| f) := by
  rw [opened_iff] at h ⊢
  rw [BitVec.getLsbD_or, BitVec.getLsbD_or, h.1, h.2, Bool.or_true, Bool.or_true]
  exact ⟨rfl, rfl⟩

theorem or_pgUser (h : opened e) : e ||| pgUser = e := or_twoPow ((opened_iff e).1 h).2

theorem or_userRw (h : opened e) : e ||| (pgUser ||| pgRw) = e := by
  rw [← BitVec.or_assoc, or_pgUser h]
  exact or_twoPow ((opened_iff e).1 h).1

end Bits

section Survey

variable {s s' : Paging} {va w : Nat}

theorem survey_congr (s : Paging) (h : va / frame = w / frame) : s.survey va = s.survey w := by
  unfold Paging.survey
  rw [path_congr h]

/-- What a ring-3 write needs. -/
theorem writes_iff (s : Paging) (va : Nat) : s.Writes va ↔ Canonical va ∧
    ∃ above e left, s.survey va = some (above, e, left) ∧ reserved left e = false ∧ opened e ∧
      ∀ x ∈ above, opened x := by
  unfold Paging.Writes Paging.access
  by_cases hcan : Canonical va
  · rw [if_pos hcan]
    cases hsurvey : s.survey va with
    | none => simp
    | some r =>
      obtain ⟨above, e, left⟩ := r
      rw [Option.bind_some]
      cases hreserved : reserved left e with
      | true => simp [hreserved]
      | false =>
        simp only [hreserved, Bool.false_eq_true, if_false, Option.some.injEq, exists_eq_left', hcan,
          true_and, Prod.mk.injEq]
        constructor
        · rintro ⟨hrw, huser⟩
          simp only [List.all_eq_true, List.mem_cons, forall_eq_or_imp, bne_iff_ne] at hrw huser
          exact ⟨above, e, left, ⟨rfl, rfl, rfl⟩, hreserved, ⟨hrw.1, huser.1⟩,
            fun x hx => ⟨hrw.2 x hx, huser.2 x hx⟩⟩
        · rintro ⟨_, _, _, ⟨rfl, rfl, rfl⟩, -, hopen, habove⟩
          simp only [List.all_eq_true, List.mem_cons, forall_eq_or_imp, bne_iff_ne]
          exact ⟨⟨hopen.1, fun x hx => (habove x hx).1⟩, hopen.2, fun x hx => (habove x hx).2⟩
  · simp [hcan]

theorem SameSurveys.access (h : SameSurveys s s') (va : Nat) : s'.access va = s.access va :=
  access_congr (h va)

theorem SameSurveys.writes (h : SameSurveys s s') : s'.Writes va ↔ s.Writes va := by
  unfold Paging.Writes
  rw [h.access va]

end Survey

/-! ## A large page -/

/-- The entries lead where they led, and are as large and as present as they were. -/
def SameSlots (m m' : Tables (Fin 512) (BitVec 64)) : Prop :=
  ∀ t i, present (m' t i) = present (m t i) ∧ large (m' t i) = large (m t i) ∧
    ptAddr (m' t i) = ptAddr (m t i)

theorem SameSlots.slot {m m' : Tables (Fin 512) (BitVec 64)} (h : SameSlots m m') (left t : Nat)
    (i : Fin 512) : Mm.slot left (m' t i) = Mm.slot left (m t i) := by
  obtain ⟨hpresent, hlarge, haddr⟩ := h t i
  unfold Mm.slot
  rw [hpresent, hlarge, haddr]

theorem SameSlots.trans {m m' m'' : Tables (Fin 512) (BitVec 64)} (h : SameSlots m m')
    (h' : SameSlots m' m'') : SameSlots m m'' := fun t i =>
  ⟨(h' t i).1.trans (h t i).1, (h' t i).2.1.trans (h t i).2.1, (h' t i).2.2.trans (h t i).2.2⟩

theorem sameSlots_setBits (m : Tables (Fin 512) (BitVec 64)) (t : Nat) (i : Fin 512) {flags : BitVec 64}
    (hpresent : flags.getLsbD 0 = false) (hlarge : flags.getLsbD 7 = false) (haddr : ptAddr flags = 0) :
    SameSlots m (setBits m t i flags) := by
  intro u j
  unfold setBits
  by_cases hu : u = t
  · subst hu
    by_cases hj : j = i
    · subst hj
      rw [Tables.write_self, present_eq, present_eq, large_eq, large_eq, BitVec.getLsbD_or,
        BitVec.getLsbD_or, hpresent, hlarge, Bool.or_false, Bool.or_false, ptAddr_or, haddr, Nat.or_zero]
      exact ⟨rfl, rfl, rfl⟩
    · have hother : m.write u i (m u i ||| flags) u j = m u j := by
        unfold Tables.write
        rw [Function.update_self, Function.update_of_ne hj]
      rw [hother]
      exact ⟨rfl, rfl, rfl⟩
  · rw [Tables.write_of_ne _ _ _ hu]
    exact ⟨rfl, rfl, rfl⟩

theorem setBits_same {m : Tables (Fin 512) (BitVec 64)} {t : Nat} {i : Fin 512} {flags : BitVec 64}
    (h : m t i ||| flags = m t i) : setBits m t i flags = m := by
  unfold setBits Tables.write
  rw [h, Function.update_eq_self, Function.update_eq_self]

/-- The large page opened to ring-3 writes. -/
def Paging.openLarge (s : Paging) (va pdpt pd : Nat) : Paging :=
  let m := setBits s.mem (ptAddr s.cr3) (tableIdx va 39) pgUser
  let m := setBits m pdpt (tableIdx va 30) pgUser
  { s with mem := setBits m pd (tableIdx va 21) (pgUser ||| pgRw) }

section Large

variable {s : Paging} {va w pdpt pd : Nat}

theorem sameSlots_openLarge (s : Paging) (va pdpt pd : Nat) :
    SameSlots s.mem (s.openLarge va pdpt pd).mem :=
  ((sameSlots_setBits _ _ _ rfl rfl (by decide)).trans
    (sameSlots_setBits _ _ _ rfl rfl (by decide))).trans (sameSlots_setBits _ _ _ rfl rfl (by decide))

theorem reach_openLarge (s : Paging) (va pdpt pd : Nat) (c : List (Fin 512)) :
    (s.openLarge va pdpt pd).reach c = s.reach c :=
  Tables.reach_congr (fun k u j => (sameSlots_openLarge s va pdpt pd).slot k u j) 4 _ c

/-- What is seen behind the page directory where there is a large page. -/
theorem survey_large (hpd : s.reach [tableIdx va 39, tableIdx va 30] = some pd)
    (hlarge : large (s.mem pd (tableIdx va 21)) = true) : s.survey va =
      if present (s.mem pd (tableIdx va 21)) then
        some ((Tables.trail slot s.mem 4 (ptAddr s.cr3) [tableIdx va 39, tableIdx va 30]).map
          (· &&& ~~~ptMask), s.mem pd (tableIdx va 21), 1)
      else none := by
  have hsurvey : Tables.survey slot (· &&& ~~~ptMask) s.mem (ptAddr s.cr3)
      ([tableIdx va 39, tableIdx va 30] ++ [tableIdx va 21, tableIdx va 12]) = _ :=
    Tables.survey_append hpd rfl
  unfold Paging.survey
  refine hsurvey.trans ?_
  simp only [Tables.survey, List.length_cons, List.length_nil]
  cases hpresent : present (s.mem pd (tableIdx va 21)) with
  | false =>
    rw [slot_of_absent hpresent]
    rfl
  | true =>
    have hleaf : slot (0 + 1) (s.mem pd (tableIdx va 21)) = .leaf := by
      unfold slot
      simp [hpresent, hlarge]
    rw [hleaf]
    simp

theorem large_flip (va : Nat) : ∃ w, w / frame ≠ va / frame ∧ (Canonical w ↔ Canonical va) ∧
    tableIdx w 39 = tableIdx va 39 ∧ tableIdx w 30 = tableIdx va 30 ∧ tableIdx w 21 = tableIdx va 21 := by
  refine ⟨(if va / frame % 2 = 0 then va / frame + 1 else va / frame - 1) * frame, ?_⟩
  have hpage : (if va / frame % 2 = 0 then va / frame + 1 else va / frame - 1) * frame / frame =
      if va / frame % 2 = 0 then va / frame + 1 else va / frame - 1 := page_div _
  rw [canonical_iff, canonical_iff, Fin.ext_iff, Fin.ext_iff, Fin.ext_iff, tableIdx_val _ 27,
    tableIdx_val va 27, tableIdx_val _ 18, tableIdx_val va 18, tableIdx_val _ 9, tableIdx_val va 9, hpage]
  generalize va / frame = m
  split <;> omega

section Opening

variable (hpdpt : s.reach [tableIdx va 39] = some pdpt)
  (hpd : s.reach [tableIdx va 39, tableIdx va 30] = some pd)
  (hlarge : large (s.mem pd (tableIdx va 21)) = true)
include hpdpt hpd

theorem trail_directory :
    Tables.trail slot s.mem 4 (ptAddr s.cr3) [tableIdx va 39, tableIdx va 30] =
      [s.mem (ptAddr s.cr3) (tableIdx va 39), s.mem pdpt (tableIdx va 30)] := by
  have hslot := (reach_snoc_iff (reach_root s) (by decide)).1 hpdpt
  have hslot' := (reach_snoc_iff hpdpt (by simp)).1 hpd
  simp only [List.length_nil, List.length_cons, Nat.sub_zero, Nat.zero_add, Nat.reduceSub] at hslot hslot'
  simp only [Tables.trail, hslot, hslot']

include hlarge

/-- Where writes to the large page go through, there is nothing to open. -/
theorem openLarge_same (h : s.Writes va) : s.openLarge va pdpt pd = s := by
  obtain ⟨-, above, e, left, hsurvey, -, hopen, habove⟩ := (writes_iff s va).1 h
  rw [survey_large hpd hlarge, trail_directory hpdpt hpd] at hsurvey
  split at hsurvey
  case isFalse => cases hsurvey
  case isTrue =>
    obtain ⟨rfl, hrest⟩ := Prod.mk.inj (Option.some.inj hsurvey)
    obtain ⟨rfl, -⟩ := Prod.mk.inj hrest
    have hpml4e : opened (s.mem (ptAddr s.cr3) (tableIdx va 39)) :=
      (opened_flags _).1 (habove _ List.mem_cons_self)
    have hpdpte : opened (s.mem pdpt (tableIdx va 30)) :=
      (opened_flags _).1 (habove _ (List.mem_cons_of_mem _ List.mem_cons_self))
    unfold Paging.openLarge
    simp only [setBits_same (or_pgUser hpml4e), setBits_same (or_pgUser hpdpte),
      setBits_same (or_userRw hopen)]

omit hpdpt in
/-- The pages of a large page can be written alike. -/
theorem writes_large (hcan : Canonical w ↔ Canonical va) (hpml4 : tableIdx w 39 = tableIdx va 39)
    (hidx : tableIdx w 30 = tableIdx va 30) (hidx' : tableIdx w 21 = tableIdx va 21) :
    s.Writes w ↔ s.Writes va := by
  have hsurvey : s.survey w = s.survey va := by
    rw [survey_large hpd hlarge, ← hidx', ← hidx, ← hpml4]
    rw [← hidx, ← hpml4] at hpd
    rw [← hidx'] at hlarge
    exact survey_large hpd hlarge
  rw [writes_iff, writes_iff, hcan, hsurvey]

theorem openLarge_recovered : Recovered s (s.openLarge va pdpt pd) va ↔ s.Writes va := by
  constructor
  · intro h
    obtain ⟨w, hpage, hcan, hpml4, hidx, hidx'⟩ := large_flip va
    have hpd' : (s.openLarge va pdpt pd).reach [tableIdx va 39, tableIdx va 30] = some pd :=
      (reach_openLarge s va pdpt pd _).trans hpd
    have hlarge' : large ((s.openLarge va pdpt pd).mem pd (tableIdx va 21)) = true :=
      (sameSlots_openLarge s va pdpt pd pd _).2.1.trans hlarge
    rw [← writes_large hpd hlarge hcan hpml4 hidx hidx']
    have hwrites := (writes_large hpd' hlarge' hcan hpml4 hidx hidx').2 h.progress
    unfold Paging.Writes at hwrites ⊢
    rw [h.access w hpage] at hwrites
    exact hwrites
  · intro h
    rw [openLarge_same hpdpt hpd hlarge h]
    exact ⟨⟨fun _ _ => rfl, fun _ _ _ _ _ => rfl⟩, h⟩

omit hlarge in
theorem openLarge_tables (hs : s.Sound) : ptAddr s.cr3 ≠ pdpt ∧ ptAddr s.cr3 ≠ pd ∧ pdpt ≠ pd := by
  have hroot := reach_root s
  have hne : ∀ {c d : List (Fin 512)} {t u : Nat}, s.reach c = some t → s.reach d = some u →
      c.length < 4 → d.length < 4 → c.length ≠ d.length → t ≠ u := by
    rintro c d t u hc hd hclen hdlen hlen rfl
    exact hlen (congrArg List.length (hs.tree c d t hclen hdlen hc hd))
  exact ⟨hne hroot hpdpt (by simp) (by simp) (by simp), hne hroot hpd (by simp) (by simp) (by simp),
    hne hpdpt hpd (by simp) (by simp) (by simp)⟩

omit hlarge in
theorem openLarge_mem (hs : s.Sound) :
    (s.openLarge va pdpt pd).mem (ptAddr s.cr3) (tableIdx va 39) =
        s.mem (ptAddr s.cr3) (tableIdx va 39) ||| pgUser ∧
      (s.openLarge va pdpt pd).mem pdpt (tableIdx va 30) = s.mem pdpt (tableIdx va 30) ||| pgUser ∧
      (s.openLarge va pdpt pd).mem pd (tableIdx va 21) =
        s.mem pd (tableIdx va 21) ||| (pgUser ||| pgRw) := by
  obtain ⟨hne, hne', hne''⟩ := openLarge_tables hpdpt hpd hs
  unfold Paging.openLarge setBits
  dsimp only
  refine ⟨?_, ?_, ?_⟩
  · rw [Tables.write_of_ne _ _ _ hne', Tables.write_of_ne _ _ _ hne, Tables.write_self]
  · rw [Tables.write_of_ne _ _ _ hne'', Tables.write_self, Tables.write_of_ne _ _ _ hne.symm]
  · rw [Tables.write_self, Tables.write_of_ne _ _ _ hne''.symm, Tables.write_of_ne _ _ _ hne'.symm]

omit hlarge in
/-- Three entries get bits, the others stay as they are. -/
theorem openLarge_entry (hs : s.Sound) (u : Nat) (j : Fin 512) :
    (s.openLarge va pdpt pd).mem u j = s.mem u j ∨
    (s.openLarge va pdpt pd).mem u j = s.mem u j ||| pgUser ∧
      (u = ptAddr s.cr3 ∧ j = tableIdx va 39 ∨ u = pdpt ∧ j = tableIdx va 30) ∨
    (s.openLarge va pdpt pd).mem u j = s.mem u j ||| (pgUser ||| pgRw) ∧ u = pd ∧ j = tableIdx va 21 := by
  obtain ⟨hpml4, hidx, hidx'⟩ := openLarge_mem hpdpt hpd hs
  have hother : ∀ (m : Tables (Fin 512) (BitVec 64)) (t : Nat) (i : Fin 512) (e : BitVec 64),
      ¬(u = t ∧ j = i) → m.write t i e u j = m u j := by
    intro m t i e hne
    unfold Tables.write
    by_cases hu : u = t
    · rw [hu, Function.update_self, Function.update_of_ne fun hj => hne ⟨hu, hj⟩]
    · rw [Function.update_of_ne hu]
  by_cases hroot : u = ptAddr s.cr3 ∧ j = tableIdx va 39
  · obtain ⟨rfl, rfl⟩ := hroot
    exact .inr (.inl ⟨hpml4, .inl ⟨rfl, rfl⟩⟩)
  by_cases hdir : u = pdpt ∧ j = tableIdx va 30
  · obtain ⟨rfl, rfl⟩ := hdir
    exact .inr (.inl ⟨hidx, .inr ⟨rfl, rfl⟩⟩)
  by_cases hlast : u = pd ∧ j = tableIdx va 21
  · obtain ⟨rfl, rfl⟩ := hlast
    exact .inr (.inr ⟨hidx', rfl, rfl⟩)
  refine .inl ?_
  unfold Paging.openLarge setBits
  dsimp only
  rw [hother _ _ _ _ hlast, hother _ _ _ _ hdir, hother _ _ _ _ hroot]

end Opening

end Large

/-- How an entry on the path of `w` is changed. -/
structure BitsWidened (va w : Nat) (x y : BitVec 64) : Prop where
  noExecute : y.getLsbD 63 = x.getLsbD 63
  writable : x.getLsbD 1 = true → y.getLsbD 1 = true
  user : x.getLsbD 2 = true → y.getLsbD 2 = true
  largePage : ¬SameLarge va w → y.getLsbD 1 = x.getLsbD 1
  below : tableIdx w 39 ≠ tableIdx va 39 → y.getLsbD 2 = x.getLsbD 2

section Widened

variable {va w : Nat} {x y : BitVec 64}

theorem BitsWidened.seen (h : BitsWidened va w x y) :
    BitsWidened va w (x &&& ~~~ptMask) (y &&& ~~~ptMask) := by
  have hrw : (~~~ptMask).getLsbD 1 = true := by decide
  have huser : (~~~ptMask).getLsbD 2 = true := by decide
  have hnx : (~~~ptMask).getLsbD 63 = true := by decide
  constructor <;> simp only [BitVec.getLsbD_and, hrw, huser, hnx, Bool.and_true]
  · exact h.noExecute
  · exact h.writable
  · exact h.user
  · exact h.largePage
  · exact h.below

theorem bit_eq (x : BitVec 64) (k : Nat) (hk : k < 64) :
    (x &&& BitVec.twoPow 64 k != 0) = x.getLsbD k := by
  rw [Bool.eq_iff_iff, bne_iff_ne]
  exact and_twoPow_ne x k hk

theorem forall₂_all {R : BitVec 64 → BitVec 64 → Prop} {p : BitVec 64 → Bool} {l l' : List (BitVec 64)}
    (hR : ∀ x y, R x y → p x = true → p y = true) (h : List.Forall₂ R l l') (hl : l.all p = true) :
    l'.all p = true := by
  induction h with
  | nil => rfl
  | cons hxy _ ih =>
    rw [List.all_cons, Bool.and_eq_true] at hl ⊢
    exact ⟨hR _ _ hxy hl.1, ih hl.2⟩

theorem forall₂_map {R : BitVec 64 → BitVec 64 → Prop} {p : BitVec 64 → Bool} {l l' : List (BitVec 64)}
    (hR : ∀ x y, R x y → p y = p x) (h : List.Forall₂ R l l') : l'.map p = l.map p := by
  induction h with
  | nil => rfl
  | cons hxy _ ih => rw [List.map_cons, List.map_cons, hR _ _ hxy, ih]

theorem all_congr_map {p : BitVec 64 → Bool} {l l' : List (BitVec 64)} (h : l'.map p = l.map p) :
    l'.all p = l.all p ∧ l'.any p = l.any p := by
  have hall : ∀ l : List (BitVec 64), l.all p = (l.map p).all id ∧ l.any p = (l.map p).any id := by
    intro l
    rw [List.all_map, List.any_map]
    exact ⟨rfl, rfl⟩
  rw [(hall l).1, (hall l).2, (hall l').1, (hall l').2, h]
  exact ⟨rfl, rfl⟩

end Widened

section Opened

variable {s : Paging} {va w pdpt pd : Nat} (hs : s.Sound) (hpdpt : s.reach [tableIdx va 39] = some pdpt)
  (hpd : s.reach [tableIdx va 39, tableIdx va 30] = some pd)
include hs hpdpt hpd

/-- The entries on a path have lost nothing, and have gained bits only where they were opened. -/
theorem openLarge_path {c rest : List (Fin 512)} {j : Fin 512} {u : Nat} (hpath : path w = c ++ j :: rest)
    (hc : s.reach c = some u) :
    BitsWidened va w (s.mem u j) ((s.openLarge va pdpt pd).mem u j) := by
  have hclen : c.length < 4 := by
    have hlen := congrArg List.length hpath
    rw [List.length_append, List.length_cons] at hlen
    change 4 = _ at hlen
    omega
  have htree : ∀ {d : List (Fin 512)}, d.length < 4 → s.reach d = some u → c = d := fun hd hreach =>
    hs.tree c _ u hclen hd hc hreach
  have huser : pgUser.getLsbD 1 = false ∧ pgUser.getLsbD 2 = true ∧ pgUser.getLsbD 63 = false := by decide
  have hboth : (pgUser ||| pgRw).getLsbD 63 = false := by decide
  rcases openLarge_entry hpdpt hpd hs u j with heq | ⟨heq, hwhere⟩ | ⟨heq, rfl, rfl⟩
  · rw [heq]
    exact ⟨rfl, id, id, fun _ => rfl, fun _ => rfl⟩
  · have hpml4 : tableIdx w 39 = tableIdx va 39 := by
      rcases hwhere with ⟨rfl, rfl⟩ | ⟨rfl, rfl⟩
      · obtain rfl := htree (by simp) (reach_root s)
        exact (List.cons.inj hpath).1
      · obtain rfl := htree (by simp) hpdpt
        exact (List.cons.inj hpath).1
    rw [heq]
    constructor <;> simp only [BitVec.getLsbD_or, huser, Bool.or_false, Bool.or_true, imp_self, implies_true]
    exact fun hne => absurd hpml4 hne
  · obtain rfl := htree (by simp) hpd
    have hsame : SameLarge va w := by
      obtain ⟨hpml4, hpath⟩ := List.cons.inj hpath
      obtain ⟨hidx, hpath⟩ := List.cons.inj hpath
      exact ⟨hpml4, hidx, (List.cons.inj hpath).1⟩
    rw [heq]
    refine ⟨?_, fun _ => ?_, fun _ => ?_, fun hne => absurd hsame hne, fun hne => absurd hsame.1 hne⟩
    · rw [BitVec.getLsbD_or, hboth, Bool.or_false]
    · rw [BitVec.getLsbD_or, show (pgUser ||| pgRw).getLsbD 1 = true by decide, Bool.or_true]
    · rw [BitVec.getLsbD_or, show (pgUser ||| pgRw).getLsbD 2 = true by decide, Bool.or_true]

/-- No page is moved, and access to it is widened at most. -/
theorem openLarge_access (w : Nat) :
    (s.access w = none ∧ (s.openLarge va pdpt pd).access w = none) ∨
    ∃ a a', s.access w = some a ∧ (s.openLarge va pdpt pd).access w = some a' ∧ a.Widened a' va w := by
  unfold Paging.access
  by_cases hcan : Canonical w
  case neg => exact .inl ⟨if_neg hcan, if_neg hcan⟩
  simp only [if_pos hcan]
  have hsurveys : (Tables.survey slot (· &&& ~~~ptMask) s.mem (ptAddr s.cr3) (path w) = none ∧ _) ∨ _ :=
    Tables.survey_related (n := 4) (fun k u j => (sameSlots_openLarge s va pdpt pd).slot k u j)
    (R := fun x y => BitsWidened va w x y ∧ ptAddr y = ptAddr x) (d := path w)
    (fun c j rest u hpath hc => ⟨openLarge_path hs hpdpt hpd hpath hc,
      (sameSlots_openLarge s va pdpt pd u j).2.2⟩) rfl
  rcases hsurveys with ⟨hnone, hnone'⟩ | ⟨above, above', e, e', left, hsome, hsome', ⟨hwide, haddr⟩, habove⟩
  · exact .inl ⟨congrArg (Option.bind · _) hnone, congrArg (Option.bind · _) hnone'⟩
  · have hseen : List.Forall₂ (BitsWidened va w) (e :: above) (e' :: above') :=
      .cons hwide (habove.imp fun _ _ ⟨_, _, ⟨h, _⟩, hx, hy⟩ => by
        rw [hx, hy]
        exact h.seen)
    have hreserved : reserved left e' = reserved left e := by
      unfold reserved
      rw [haddr]
    rw [show s.survey w = _ from hsome, show (s.openLarge va pdpt pd).survey w = _ from hsome']
    simp only [Option.bind_some, hreserved]
    cases reserved left e with
    | true => exact .inl ⟨rfl, rfl⟩
    | false =>
      refine .inr ⟨_, _, rfl, rfl, ?_⟩
      have hbit : ∀ k < 64, (fun x : BitVec 64 => x &&& BitVec.twoPow 64 k != 0) = (·.getLsbD k) :=
        fun k hk => funext fun x => bit_eq x k hk
      have hrw : (fun x : BitVec 64 => x &&& pgRw != 0) = (·.getLsbD 1) := hbit 1 (by decide)
      have huser : (fun x : BitVec 64 => x &&& pgUser != 0) = (·.getLsbD 2) := hbit 2 (by decide)
      have hnx : (fun x : BitVec 64 => x &&& pgNx != 0) = (·.getLsbD 63) := hbit 63 (by decide)
      constructor
      · exact ⟨by simp only [translation, haddr], rfl⟩
      · simp only [hnx]
        exact (all_congr_map (forall₂_map (fun _ _ h => h.noExecute) hseen)).2
      · simp only [hrw]
        exact forall₂_all (fun _ _ h => h.writable) hseen
      · simp only [huser]
        exact forall₂_all (fun _ _ h => h.user) hseen
      · intro hlarge
        simp only [hrw]
        exact (all_congr_map (forall₂_map (fun _ _ h => h.largePage hlarge) hseen)).1
      · intro hbelow
        simp only [huser]
        exact (all_congr_map (forall₂_map (fun _ _ h => h.below hbelow) hseen)).1

variable (hlarge : large (s.mem pd (tableIdx va 21)) = true)
include hlarge

theorem openLarge_writes (hopen : s.Openable va) : (s.openLarge va pdpt pd).Writes va := by
  obtain ⟨⟨a, ha⟩, htrail⟩ := hopen
  obtain ⟨hpml4, hidx, hidx'⟩ := openLarge_mem hpdpt hpd hs
  obtain ⟨hpresent', hlarge', haddr'⟩ := sameSlots_openLarge s va pdpt pd pd (tableIdx va 21)
  have hcan : Canonical va := by
    by_contra hcan
    unfold Paging.access at ha
    rw [if_neg hcan] at ha
    cases ha
  have hsurvey := survey_large hpd hlarge
  unfold Paging.access at ha
  rw [if_pos hcan] at ha
  obtain ⟨⟨above, e, left⟩, hseen, hallowed⟩ := Option.bind_eq_some_iff.1 ha
  rw [hsurvey] at hseen
  split at hseen
  case isFalse => cases hseen
  case isTrue hpresent =>
    obtain ⟨-, hrest⟩ := Prod.mk.inj (Option.some.inj hseen)
    obtain ⟨rfl, rfl⟩ := Prod.mk.inj hrest
    have hreserved : reserved 1 (s.mem pd (tableIdx va 21)) = false := by
      by_contra hres
      dsimp only at hallowed
      rw [if_pos (Bool.eq_true_of_not_eq_false hres)] at hallowed
      cases hallowed
    have hreach : ∀ c, (s.openLarge va pdpt pd).reach c = s.reach c := reach_openLarge s va pdpt pd
    have habove : s.mem (ptAddr s.cr3) (tableIdx va 39) &&& pgRw ≠ 0 ∧
        s.mem pdpt (tableIdx va 30) &&& pgRw ≠ 0 := by
      have hon : Tables.trail slot s.mem 4 (ptAddr s.cr3)
          ([tableIdx va 39, tableIdx va 30] ++ [tableIdx va 21, tableIdx va 12]) = _ :=
        Tables.trail_append hpd _
      rw [trail_directory hpdpt hpd] at hon
      unfold Paging.trail at htrail
      rw [show path va = [tableIdx va 39, tableIdx va 30] ++ [tableIdx va 21, tableIdx va 12] from rfl,
        hon] at htrail
      exact ⟨htrail _ (by simp), htrail _ (by simp)⟩
    have huser : ∀ e : BitVec 64, e &&& pgRw ≠ 0 → opened (e ||| pgUser) := by
      intro e he
      rw [opened_iff, BitVec.getLsbD_or, BitVec.getLsbD_or, (and_twoPow_ne e 1 (by decide)).1 he]
      exact ⟨rfl, by rw [show pgUser.getLsbD 2 = true by decide, Bool.or_true]⟩
    refine (writes_iff _ va).2 ⟨hcan, _, _, _, survey_large ((hreach _).trans hpd)
      (hlarge'.trans hlarge) |>.trans (if_pos (hpresent'.trans hpresent)), ?_, ?_, ?_⟩
    · unfold reserved at hreserved ⊢
      rw [haddr', hreserved]
    · rw [hidx']
      exact opened_or _ ⟨by decide, by decide⟩
    · rw [trail_directory ((hreach _).trans hpdpt) ((hreach _).trans hpd)]
      intro x hx
      have hroot : ptAddr (s.openLarge va pdpt pd).cr3 = ptAddr s.cr3 := rfl
      rw [hroot, hpml4, hidx] at hx
      simp only [List.map_cons, List.map_nil, List.mem_cons, List.not_mem_nil, or_false] at hx
      rcases hx with rfl | rfl
      · exact (opened_flags _).2 (huser _ habove.1)
      · exact (opened_flags _).2 (huser _ habove.2)

theorem openLarge_opened (hopen : s.Openable va) : LargeOpened s (s.openLarge va pdpt pd) va where
  progress := openLarge_writes hs hpdpt hpd hlarge hopen
  absent w hw := by
    rcases openLarge_access hs hpdpt hpd w with ⟨-, hnone⟩ | ⟨a, -, ha, -⟩
    · exact hnone
    · rw [hw] at ha
      cases ha
  access w a ha := by
    rcases openLarge_access hs hpdpt hpd w with ⟨hnone, -⟩ | ⟨b, b', hb, hb', hwide⟩
    · rw [hnone] at ha
      cases ha
    · rw [ha] at hb
      cases hb
      exact ⟨b', hb', hwide⟩
  contents q hq := by
    have hout : ∀ {c : List (Fin 512)} {t : Nat}, c.length < 4 → s.reach c = some t → q ≠ t :=
      fun hc ht heq => hq.2 _ hc (heq ▸ ht)
    unfold Paging.openLarge setBits
    dsimp only
    rw [Tables.write_of_ne _ _ _ (hout (by simp) hpd), Tables.write_of_ne _ _ _ (hout (by simp) hpdpt),
      Tables.write_of_ne _ _ _ (hout (by simp) (reach_root s))]

end Opened

/-! ## A mapped page -/

section Mapped

variable {s : Paging} {va : Nat}

theorem surveys_clear {q : Nat} (hout : ∀ c, c.length < 4 → s.reach c ≠ some q) :
    SameSurveys s { s with mem := s.mem.clear q 0 } :=
  fun _ => (Tables.agree_clear 0 hout le_rfl).survey rfl

theorem clear_recovered {q : Nat} (hout : ∀ c, c.length < 4 → s.reach c ≠ some q) :
    Recovered s { s with mem := s.mem.clear q 0 } va ↔ s.Writes va ∧
      (s.mem q = (fun _ => 0) ∨ ¬s.Data q ∨
        ∀ w t, w / frame ≠ va / frame → walk s w = some t → t.page ≠ q) := by
  have hsame := surveys_clear hout
  have hzero : s.mem.clear q 0 q = fun _ => 0 := Function.update_self _ _ _
  constructor
  · intro h
    refine ⟨hsame.writes.1 h.progress, ?_⟩
    by_contra hnot
    obtain ⟨hcontents, hdata, hshared⟩ := not_or.1 hnot |>.imp_right not_or.1
    refine hshared fun w t hpage ht heq => hcontents ?_
    have hkept := h.contents w t hpage ht (heq ▸ not_not.1 hdata)
    rw [heq] at hkept
    exact hkept.symm.trans hzero
  · rintro ⟨hwrites, hcontents⟩
    refine ⟨⟨fun w _ => hsame.access w, fun w t hpage ht hdata => ?_⟩, hsame.writes.2 hwrites⟩
    by_cases hq : t.page = q
    · rw [hq] at hdata ⊢
      rcases hcontents with hold | hnot | hshared
      · exact hzero.trans hold.symm
      · exact absurd hdata hnot
      · exact absurd hq (hshared w t hpage ht)
    · exact Function.update_of_ne hq _ _

end Mapped

/-! ## A missing page -/

/-- A frame is taken and zeroed. -/
def Paging.newFrame (s : Paging) (g : Nat) : Paging :=
  { s with mem := s.mem.clear g 0, pmm := s.pmm.take g 1 }

section Missing

variable {s s' : Paging} {va g : Nat}

theorem Paging.Sound.unreached (hs : s.Sound) (hfree : g ∈ s.pmm.freeFrames) (c : List (Fin 512))
    (hc : c.length < 4) : s.reach c ≠ some g :=
  fun hreach => hs.used c g hc hreach hfree

theorem reach_newFrame (hs : s.Sound) (hfree : g ∈ s.pmm.freeFrames) {c : List (Fin 512)}
    (hc : c.length < 4) : (s.newFrame g).reach c = s.reach c :=
  (Tables.agree_clear 0 (hs.unreached hfree) hc.le).reach

theorem newFrame_sound (hs : s.Sound) (hfree : g ∈ s.pmm.freeFrames) : (s.newFrame g).Sound where
  tree := hs.tree.of_reach fun _ hc => reach_newFrame hs hfree hc
  used := fun c t hc ht hin => by
    rw [reach_newFrame hs hfree hc] at ht
    exact hs.used c t hc ht (Pmm.take_freeFrames hin).1
  top := hs.top

theorem newFrame_surveys (hs : s.Sound) (hfree : g ∈ s.pmm.freeFrames) :
    SameSurveys s (s.newFrame g) :=
  fun _ => (Tables.agree_clear 0 (hs.unreached hfree) le_rfl).survey rfl

theorem newFrame_trail (hs : s.Sound) (hfree : g ∈ s.pmm.freeFrames) (va : Nat) :
    (s.newFrame g).trail va = s.trail va :=
  (Tables.agree_clear 0 (hs.unreached hfree) le_rfl).trail

/-- The entry for the new frame. -/
def newPte (va g : Nat) : BitVec 64 :=
  rangePte (va / frame * frame) (g * frame) (pgPresent ||| pgRw ||| pgUser) (va / frame)

theorem newPte_spec (va g : Nat) : present (newPte va g) = true ∧ opened (newPte va g) := by
  have hpresent : (pgPresent ||| pgRw ||| pgUser ||| pgPresent ||| pgRw ||| pgUser).getLsbD 0 = true := rfl
  unfold newPte rangePte
  refine ⟨?_, opened_or _ ⟨by decide, by decide⟩⟩
  rw [present_eq, BitVec.getLsbD_or, hpresent, Bool.or_true]

/-- There is no frame, or one is taken; then the last page of all is passed over, and any other is
mapped or refused. -/
theorem mapNewFrame_spec (hs : s.Sound) (hgib : s.NoGib va) (hva : va < 2 ^ 64) :
    s.pmm.freeFrames = ∅ ∧ mapNewFrame s (va / frame * frame) = some (0, s) ∨
    ∃ g ∈ s.pmm.freeFrames, ∃ r s', mapNewFrame s (va / frame * frame) = some (r, s') ∧
      (r = 0 ∧ (s.newFrame g).Grown s' ∧ SameSurveys (s.newFrame g) s' ∨
        r = 1 ∧ va / frame + 1 = 2 ^ 52 ∧ s' = s.newFrame g ∨
        r = 1 ∧ va / frame + 1 < 2 ^ 52 ∧
          (s.newFrame g).Mapped s' (va / frame * frame) (newPte va g)) := by
  unfold mapNewFrame
  rcases pmmAllocFrame_cases hs.top with ⟨g, hfree, hpos, hmax, halloc⟩ | ⟨hnone, halloc⟩
  · refine .inr ⟨g, hfree, ?_⟩
    have hne : g * frame ≠ 0 := Nat.mul_ne_zero hpos.ne' (by decide)
    rw [halloc, Option.bind_some]
    simp only [hne, if_false, page_div]
    have hpage : va / frame * frame / frame = va / frame := page_div _
    have hend : rangeEnd (va / frame * frame) 0x1000 / frame =
        if va / frame + 1 = 2 ^ 52 then 0 else va / frame + 1 := by
      unfold rangeEnd frame
      split <;> omega
    have hgib' : (s.newFrame g).NoGib (va / frame * frame) := by
      intro e
      rw [(newFrame_surveys hs hfree).entries, show s.entry (va / frame * frame) = s.entry va by
        unfold Paging.entry; rw [path_congr hpage]]
      exact hgib e
    obtain ⟨r, s', mid, s₁, hrun, hpages, hout⟩ :=
      mmMapPhysRange_run (newFrame_sound hs hfree) (show 0x1000 ≠ 0 by decide) (g * frame)
        (pgPresent ||| pgRw ||| pgUser) (fun m hlo hhi => by
          rw [hpage] at hlo
          rw [hend] at hhi
          split at hhi
          · omega
          · rw [show m = va / frame by omega]
            exact hgib')
    refine ⟨r, s', hrun, ?_⟩
    rw [hend, hpage] at hout
    rw [hpage] at hpages
    rcases hout with ⟨rfl, rfl, rfl⟩ | ⟨rfl, hmid, -, hgrown, hsame⟩
    · refine .inr ?_
      by_cases hlast : va / frame + 1 = 2 ^ 52
      · rw [if_pos hlast, Nat.max_zero] at hpages
        exact .inl ⟨rfl, hlast, hpages.stays⟩
      · rw [if_neg hlast, Nat.max_eq_right (Nat.le_succ _)] at hpages
        refine .inr ⟨rfl, ?_, hpages.one⟩
        unfold frame at hlast ⊢
        omega
    · refine .inl ⟨rfl, ?_⟩
      have hle := hpages.le
      split at hmid
      · omega
      · obtain rfl : mid = va / frame := by omega
        rw [hpages.stays] at hgrown hsame
        exact ⟨hgrown, hsame⟩
  · refine .inl ⟨hnone, ?_⟩
    rw [halloc, Option.bind_some]
    exact if_pos rfl

theorem mapped_writes {va : Nat} (h : (s.newFrame g).Mapped s' (va / frame * frame) (newPte va g))
    (hs : s.Sound) (hfree : g ∈ s.pmm.freeFrames) :
    s'.Writes va ↔ Canonical va ∧ ∀ e ∈ s.trail va, opened e := by
  have hpage : va / frame * frame / frame = va / frame := page_div _
  have htrail : ∀ X : Paging, X.trail (va / frame * frame) = X.trail va := fun X => by
    unfold Paging.trail
    rw [path_congr hpage]
  have hself := h.self
  have hlonger := h.longer
  rw [if_pos (newPte_spec va g).1, survey_congr s' hpage, htrail] at hself
  rw [writes_iff, hself]
  refine and_congr_right fun _ => ?_
  have htables : opened tblFlags := ⟨by decide, by decide⟩
  constructor
  · rintro ⟨above, e, left, heq, -, -, habove⟩ x hx
    obtain ⟨rfl, -⟩ := Prod.mk.inj (Option.some.inj heq)
    rw [← newFrame_trail hs hfree, ← htrail] at hx
    have hkept := hlonger.kept x hx
    rw [htrail] at hkept
    exact (opened_flags x).1 (habove _ (List.mem_map_of_mem hkept))
  · intro hopen
    refine ⟨_, _, _, rfl, ?_, (newPte_spec va g).2, fun x hx => ?_⟩
    · unfold reserved
      simp [Nat.mod_one]
    · obtain ⟨y, hy, rfl⟩ := List.mem_map.1 hx
      rw [opened_flags]
      rw [← htrail] at hy
      rcases hlonger.new y hy with hold | ⟨f, -, -, rfl⟩
      · rw [htrail, newFrame_trail hs hfree] at hold
        exact hopen y hold
      · exact opened_or _ htables

theorem missing_untouched (hs : s.Sound) (hcan : Canonical va) (hfree : g ∈ s.pmm.freeFrames)
    (h : va / frame + 1 = 2 ^ 52 ∧ s' = s.newFrame g ∨ va / frame + 1 < 2 ^ 52 ∧
      (s.newFrame g).Mapped s' (va / frame * frame) (newPte va g)) : Untouched s s' va := by
  have hsame := newFrame_surveys hs hfree
  have hold : ∀ q, s.Data q → (s.newFrame g).mem q = s.mem q := fun q hq =>
    Function.update_of_ne (fun heq : q = g => hq.1 (heq ▸ hfree)) _ _
  rcases h with ⟨-, rfl⟩ | ⟨-, hmapped⟩
  · exact ⟨fun w _ => hsame.access w, fun w t _ _ hdata => hold t.page hdata⟩
  · refine ⟨fun w hpage => ?_, fun w t _ _ hdata => ?_⟩
    · by_cases hw : Canonical w
      · refine access_congr ((hmapped.others w fun hpath => hpage ?_).trans (hsame w))
        rw [path_congr (show va / frame * frame / frame = va / frame from page_div _)] at hpath
        exact page_eq_of_path_eq hw hcan hpath
      · unfold Paging.access
        rw [if_neg hw, if_neg hw]
    · refine (hmapped.grown.data t.page (fun hin => hdata.1 (Pmm.take_freeFrames hin).1) ?_).trans
        (hold t.page hdata)
      intro c hc hreach
      rw [reach_newFrame hs hfree hc] at hreach
      exact hdata.2 c hc hreach

theorem missing_recovered (hs : s.Sound) (hnone : s.entry va = none) (hfree : g ∈ s.pmm.freeFrames)
    (h : va / frame + 1 = 2 ^ 52 ∧ s' = s.newFrame g ∨ va / frame + 1 < 2 ^ 52 ∧
      (s.newFrame g).Mapped s' (va / frame * frame) (newPte va g)) :
    Recovered s s' va ↔ Canonical va ∧ va / frame + 1 < 2 ^ 52 ∧ ∀ e ∈ s.trail va, opened e := by
  have hsame := newFrame_surveys hs hfree
  rcases h with ⟨hlast, rfl⟩ | ⟨hlt, hmapped⟩
  · refine iff_of_false (fun h => ?_) fun h => by omega
    obtain ⟨a, ha, -⟩ := h.progress
    have hwalk := access_walk ha
    rw [hsame.entries.walk va] at hwalk
    unfold walk at hwalk
    rw [hnone, Option.map_none, ite_self] at hwalk
    cases hwalk
  · have hwrites := mapped_writes hmapped hs hfree
    constructor
    · intro h
      obtain ⟨hcan, hopen⟩ := hwrites.1 h.progress
      exact ⟨hcan, hlt, hopen⟩
    · rintro ⟨hcan, -, hopen⟩
      exact ⟨missing_untouched hs hcan hfree (.inr ⟨hlt, hmapped⟩), hwrites.2 ⟨hcan, hopen⟩⟩

end Missing

/-! ## The call -/

section Call

variable {s : Paging} {va : Nat}

theorem tableIdx_page (va : Nat) : tableIdx (va / frame * frame) 39 = tableIdx va 39 ∧
    tableIdx (va / frame * frame) 30 = tableIdx va 30 ∧
    tableIdx (va / frame * frame) 21 = tableIdx va 21 ∧
    tableIdx (va / frame * frame) 12 = tableIdx va 12 := by
  have hpath := path_congr (show va / frame * frame / frame = va / frame from page_div _)
  simpa only [path, List.cons.injEq, and_true] using hpath

/-- A large page is opened, a mapped page is zeroed, and a missing one gets a new frame. -/
theorem mmMapZeroPage_cases (hgib : s.NoGib va) (hva : va ≠ 0) :
    (∃ pdpt pd, s.reach [tableIdx va 39] = some pdpt ∧
      s.reach [tableIdx va 39, tableIdx va 30] = some pd ∧ large (s.mem pd (tableIdx va 21)) = true ∧
      mmMapZeroPage s va = some (1, s.openLarge va pdpt pd)) ∨
    ¬s.MeetsPs va ∧ ((∃ e, s.entry va = some (e, 0) ∧
        mmMapZeroPage s va = some (1, { s with mem := s.mem.clear (ptAddr e) 0 })) ∨
      s.entry va = none ∧ mmMapZeroPage s va = mapNewFrame s (va / frame * frame)) := by
  obtain ⟨hidx, hidx', hidx'', hlast⟩ := tableIdx_page va
  have hroot := reach_root s
  unfold mmMapZeroPage
  simp only [hva, if_false, hidx, hidx', hidx'', hlast]
  cases hpml4e : present (s.mem (ptAddr s.cr3) (tableIdx va 39)) with
  | false =>
    refine .inr ⟨?_, .inr ⟨entry_none hroot rfl hpml4e, rfl⟩⟩
    rintro ⟨pd, hpd, -⟩
    obtain ⟨pdpt, hpdpt⟩ := reach_through (c := [tableIdx va 39]) hpd
    rw [reach_present hroot (by decide) (c := []) hpdpt] at hpml4e
    cases hpml4e
  | true =>
    have hpdpt : s.reach [tableIdx va 39] = some _ :=
      reach_step hroot (by decide) hpml4e (slot_three_ne_leaf _)
    have hleaf := slot_two_ne_leaf hgib hpdpt
    simp only [Bool.not_true, Bool.false_eq_true, if_false]
    cases hpdpte : present (s.mem (ptAddr (s.mem (ptAddr s.cr3) (tableIdx va 39))) (tableIdx va 30)) with
    | false =>
      refine .inr ⟨?_, .inr ⟨entry_none hpdpt rfl hpdpte, rfl⟩⟩
      rintro ⟨pd, hpd, -⟩
      rw [reach_present hpdpt (by simp) hpd] at hpdpte
      cases hpdpte
    | true =>
      have hpd : s.reach [tableIdx va 39, tableIdx va 30] = some _ :=
        reach_step hpdpt (by simp) hpdpte hleaf
      simp only [Bool.not_true, Bool.false_eq_true, if_false]
      refine (Bool.eq_false_or_eq_true (large (s.mem (ptAddr (s.mem (ptAddr (s.mem (ptAddr s.cr3)
        (tableIdx va 39))) (tableIdx va 30))) (tableIdx va 21)))).imp (fun hlarge => ?_) fun hlarge => ?_
      · exact ⟨_, _, hpdpt, hpd, hlarge, by rw [if_pos hlarge]; rfl⟩
      · have hps : ¬s.MeetsPs va := by
          rintro ⟨pd', hpd', hlarge'⟩
          rw [hpd] at hpd'
          cases hpd'
          rw [hlarge] at hlarge'
          cases hlarge'
        refine ⟨hps, ?_⟩
        rw [if_neg (by rw [hlarge]; exact Bool.false_ne_true)]
        cases hpde : present (s.mem (ptAddr (s.mem (ptAddr (s.mem (ptAddr s.cr3) (tableIdx va 39)))
            (tableIdx va 30))) (tableIdx va 21)) with
        | false => exact .inr ⟨entry_none hpd rfl hpde, rfl⟩
        | true =>
          have hpt : s.reach [tableIdx va 39, tableIdx va 30, tableIdx va 21] = some _ :=
            reach_step hpd (by simp) hpde (slot_one_ne_leaf hlarge)
          simp only [Bool.not_true, Bool.false_eq_true, if_false]
          cases hpte : present (s.mem (ptAddr (s.mem (ptAddr (s.mem (ptAddr (s.mem (ptAddr s.cr3)
              (tableIdx va 39))) (tableIdx va 30))) (tableIdx va 21))) (tableIdx va 12)) with
          | false => exact .inr ⟨entry_none hpt rfl hpte, rfl⟩
          | true =>
            refine .inl ⟨_, entry_leaf hpt (show path va = [_, _, _] ++ _ :: [] from rfl) ?_, rfl⟩
            unfold slot
            simp [hpte]

theorem not_meetsPs_of_entry {e : BitVec 64} (hentry : s.entry va = some (e, 0)) : ¬s.MeetsPs va := by
  rintro ⟨pd, hpd, hlarge⟩
  rw [← survey_entry, survey_large hpd hlarge] at hentry
  split at hentry
  · cases hentry
  · cases hentry

/-- A missing page gets a frame that was free, or is passed over. -/
theorem mapNewFrame_one {s' : Paging} (hs : s.Sound) (hgib : s.NoGib va) (hu64 : va < 2 ^ 64)
    (hrun : mapNewFrame s (va / frame * frame) = some (1, s')) : ∃ g ∈ s.pmm.freeFrames,
      va / frame + 1 = 2 ^ 52 ∧ s' = s.newFrame g ∨ va / frame + 1 < 2 ^ 52 ∧
        (s.newFrame g).Mapped s' (va / frame * frame) (newPte va g) := by
  rcases mapNewFrame_spec hs hgib hu64 with ⟨-, hfail⟩ | ⟨g, hfree, r, s₂, hdone, hout⟩
  · rw [hfail] at hrun
    cases hrun
  · obtain ⟨rfl, rfl⟩ := Prod.mk.inj (Option.some.inj (hdone.symm.trans hrun))
    refine ⟨g, hfree, ?_⟩
    rcases hout with ⟨hr, -⟩ | ⟨-, hlast⟩ | ⟨-, hmapped⟩
    · cases hr
    · exact .inl hlast
    · exact .inr hmapped

/-- A recovery that reports success lets the faulting write through and touches nothing else just
when the page could be recovered. -/
theorem mmMapZeroPage_recovers {s' : Paging} (hs : s.Sound) (hgib : s.NoGib va)
    (hframe : ∀ e, s.entry va = some (e, 0) → ∀ c, c.length < 4 → s.reach c ≠ some (ptAddr e))
    (hva : va ≠ 0) (hu64 : va < 2 ^ 64) (hrun : mmMapZeroPage s va = some (1, s')) :
    Recovered s s' va ↔ s.Recovers va := by
  rcases mmMapZeroPage_cases hgib hva with ⟨pdpt, pd, hpdpt, hpd, hlarge, hopen⟩ |
    ⟨hps, ⟨e, hentry, hclear⟩ | ⟨hnone, hnew⟩⟩
  · obtain rfl : _ = s' := (Prod.mk.inj (Option.some.inj (hopen.symm.trans hrun))).2
    have hmeets : s.MeetsPs va := ⟨pd, hpd, hlarge⟩
    rw [openLarge_recovered hpdpt hpd hlarge]
    exact ⟨fun h => ⟨fun _ => h, fun x hx => absurd hmeets (not_meetsPs_of_entry hx),
      fun _ hno => absurd hmeets hno⟩, fun h => h.largePage hmeets⟩
  · obtain rfl : _ = s' := (Prod.mk.inj (Option.some.inj (hclear.symm.trans hrun))).2
    rw [clear_recovered (hframe e hentry)]
    refine ⟨fun h => ⟨fun hmeets => absurd hmeets hps, fun x hx => ?_, fun hnone => ?_⟩,
      fun h => h.mappedPage e hentry⟩
    · rw [hentry] at hx
      cases hx
      exact h
    · rw [hentry] at hnone
      cases hnone
  · rw [hnew] at hrun
    obtain ⟨g, hfree, hout⟩ := mapNewFrame_one hs hgib hu64 hrun
    rw [missing_recovered hs hnone hfree hout]
    refine ⟨fun h => ⟨fun hmeets => absurd hmeets hps, fun x hx => ?_, fun _ _ => h⟩,
      fun h => h.missingPage hnone hps⟩
    rw [hnone] at hx
    cases hx

end Call

/-! ## The tables the kernel starts with -/

theorem identityPaging_sound : (identityPaging 1 3).Sound := identity_sound (by decide)

/-- The large page at the bottom is the supervisor's. -/
theorem identityPaging_large : (mmMapZeroPage (identityPaging 1 3) 0x1000).map
    (fun r => (r.1, (r.2.access 0x2000).map Access.user)) = some (1, some true) ∧
    ((identityPaging 1 3).access 0x2000).map Access.user = some false ∧
    (identityPaging 1 3).entry 0x1000 = some (0x83, 1) := by
  decide +kernel

theorem identityPaging_frame (e : BitVec 64) (he : (identityPaging 1 3).entry 0x1000 = some (e, 0))
    (c : List (Fin 512)) : c.length < 4 → (identityPaging 1 3).reach c ≠ some (ptAddr e) := by
  rw [identityPaging_large.2.2] at he
  exact absurd (congrArg Prod.snd (Option.some.inj he)) Nat.one_ne_zero

theorem identityPaging_openable : (identityPaging 1 3).Openable 0x1000 := by
  have htranslated : ((identityPaging 1 3).access 0x1000).isSome = true := by decide +kernel
  have htrail : (identityPaging 1 3).trail 0x1000 = [0x2003, 0x3003] := by decide +kernel
  refine ⟨Option.isSome_iff_exists.1 htranslated, fun e he => ?_⟩
  rw [htrail] at he
  simp only [List.mem_cons, List.not_mem_nil, or_false] at he
  rcases he with rfl | rfl
  · decide
  · decide

theorem identityPaging_meetsPs : (identityPaging 1 3).MeetsPs 0x1000 := by
  have hreach : (identityPaging 1 3).reach [tableIdx 0x1000 39, tableIdx 0x1000 30] = some 3 := by
    decide +kernel
  have hlarge : large ((identityPaging 1 3).mem 3 (tableIdx 0x1000 21)) = true := by decide +kernel
  exact ⟨3, hreach, hlarge⟩

end MeuOS.Mm
