import MeuOS.Syscall.HandleRuns

/-! A handle that comes with success is one of the object, and a failure leaves nothing behind:
when each of the services keeps that. -/
namespace MeuOS.Syscall

open MeuOS.Lib MeuOS.Ob
open MeuOS.Cm (UnicodeString)
open MeuOS.Ke (ThreadSys)
open MeuOS.Lpc (newPipe pipeOpened)
open MeuOS.Mm (Alloc makesObject secStep)
open MeuOS.Ps (psCreateProcess)

variable {s : Services} {hdr : Nat} {name : CString}

/-! ## What a failure leaves -/

theorem Unchanged.refl (s : Services) : Unchanged s s :=
  ⟨fun _ => rfl, rfl, fun _ _ => rfl, fun _ _ => rfl, rfl, fun _ _ _ => rfl⟩

/-- All that is to be seen of an object that is no process and no thread is its name. -/
theorem unchanged_iff {s₁ : Services} {o : Created} (h : Sound s) (h₁ : Sound s₁)
    (hmade : s₁.created = s.created ++ [o]) (hprocess : o.type ≠ obTypeProcess)
    (hthread : o.type ≠ obTypeThread) (hhandles : s₁.ob.sHandles = s.ob.sHandles)
    (hpipes : ∀ o ∈ s.created, s₁.pipes o.body = s.pipes o.body)
    (hsections : ∀ o ∈ s.created, s₁.sections o.body = s.sections o.body) (hps : s₁.ps = s.ps) :
    Unchanged s s₁ ↔ ∀ n, obLookupObject s₁.ob n = obLookupObject s.ob n := by
  refine ⟨fun hkept => hkept.lookup, fun hlookup =>
    ⟨hlookup, hhandles, hpipes, hsections, hps, fun type htype index => ?_⟩⟩
  refine obEnumByType_further h.ns h₁.ns hmade type (fun o' ho' heq => ?_) index
  obtain rfl := List.mem_singleton.1 ho'
  rcases htype with rfl | rfl
  · exact hprocess heq
  · exact hthread heq

theorem slotFree_congr {t t' : ObState} (h : t'.sHandles = t.sHandles) : SlotFree t' ↔ SlotFree t := by
  unfold SlotFree
  rw [h]

theorem lookup_unnamed {s₁ : Services} {o : Created} (h : Sound s) (h₁ : Sound s₁)
    (hmade : s₁.created = s.created ++ [o]) (hunnamed : o.named = false) (n : CString) :
    obLookupObject s₁.ob n = obLookupObject s.ob n := by
  refine obLookupObject_further h.ns h₁.ns hmade (fun o' ho' => ?_) n
  obtain rfl := List.mem_singleton.1 ho'
  exact hunnamed

/-- The body of a new object is nobody's. -/
theorem Sound.new_body {bodySize : Nat} (h : Sound s) (hhdr : hdr ≠ 0)
    (hok : hdrAllowed s hdr bodySize) {o : Created} (ho : o ∈ s.created) :
    o.body ≠ hdr + objectHeader := by
  have hns := (h.newObject hok 0 none).ns
  have hnodup := hns.nodup
  rw [(newObject_body hhdr 0 bodySize none).2, List.map_append, List.nodup_append] at hnodup
  exact hnodup.2.2 o.body (List.mem_map_of_mem ho) (hdr + objectHeader) List.mem_cons_self

/-! ## `NtCreateFile` -/

section CreateFile

variable {driver : List Act} {volume : Option (Option (Nat × Bool))} {volumeDevice : Nat}

def newFileObject (hdr : Nat) : Created := ⟨hdr + objectHeader, obTypeFile, none⟩

theorem newFileObject_ne : (newFileObject hdr).body ≠ 0 := Nat.ne_of_gt (Nat.add_pos_right hdr (by decide))

theorem newFile_body (s : Services) (hhdr : hdr ≠ 0) :
    (newFile s hdr).2 = (newFileObject hdr).body ∧
      (newFile s hdr).1.created = s.created ++ [newFileObject hdr] :=
  newObject_body hhdr obTypeFile fileObjectSize none

/-- The state in which the driver is called. -/
theorem driverEntry_sound (h : Sound s) (hok : hdrAllowed s hdr fileObjectSize) :
    Sound (driverEntry s hdr volume volumeDevice name) ∧
      (hdr ≠ 0 → newFileObject hdr ∈ (driverEntry s hdr volume volumeDevice name).created) := by
  have hnew : Sound (newFile s hdr).1 := h.newObject hok obTypeFile none
  have hsame : (driverEntry s hdr volume volumeDevice name).ob = (newFile s hdr).1.ob ∧
      (driverEntry s hdr volume volumeDevice name).created = (newFile s hdr).1.created := by
    unfold driverEntry
    rcases volume with _ | _ | info
    · exact ⟨rfl, rfl⟩
    · exact ⟨rfl, rfl⟩
    · exact ⟨rfl, rfl⟩
  refine ⟨hnew.congr hsame.1 hsame.2, fun hhdr => ?_⟩
  rw [hsame.2, (newFile_body s hhdr).2]
  exact List.mem_append_right _ List.mem_cons_self

/-- The driver has run and the file gets its handle. -/
theorem outcome_driven (h : Sound s)
    (hok : callAllowed s (.createFile hdr driver volume volumeDevice name)) (hhdr : hdr ≠ 0)
    (hserve : serve s (.createFile hdr driver volume volumeDevice name) =
      giveHandle (runActs driver (driverEntry s hdr volume volumeDevice name)) (newFileObject hdr).body)
    (hmeets : SlotFree (runActs driver (driverEntry s hdr volume volumeDevice name)).ob ↔
      Meets s (.createFile hdr driver volume volumeDevice name)) :
    Outcome s (.createFile hdr driver volume volumeDevice name) := by
  obtain ⟨hentry, hmem⟩ : Sound (driverEntry s hdr volume volumeDevice name) ∧ _ :=
    driverEntry_sound h hok.1
  obtain ⟨hdriven, hkept⟩ := hentry.acts hok.2
  have ho := hkept _ (hmem hhdr)
  exact .gave _ _ [] hserve hdriven ho trivial rfl ((hdriven.held_nil ho).trans hmeets)

theorem pipeOpen_zero (hzero : (pipeOpen s name).2 = 0) : (pipeOpen s name).1 = s := by
  unfold pipeOpen at hzero ⊢
  dsimp only at hzero ⊢
  by_cases hmissing : obLookupObject s.ob (pipeNormalizeName name) = 0 ∨
      obTypeOf s.ob (obLookupObject s.ob (pipeNormalizeName name)) ≠ obTypePipe.toNat
  · rw [if_pos hmissing]
  · rw [if_neg hmissing] at hzero
    exact absurd (.inl hzero) hmissing

theorem pipeOpen_found (h : Sound s) (hfound : (pipeOpen s name).2 ≠ 0) :
    (∃ o ∈ s.created, o.body = (pipeOpen s name).2) ∧
      (pipeOpen s name).1 = { s with
        pipes := Function.update s.pipes (pipeOpen s name).2
          (pipeOpened (s.pipes (pipeOpen s name).2)) } := by
  unfold pipeOpen at hfound ⊢
  dsimp only at hfound ⊢
  by_cases hmissing : obLookupObject s.ob (pipeNormalizeName name) = 0 ∨
      obTypeOf s.ob (obLookupObject s.ob (pipeNormalizeName name)) ≠ obTypePipe.toNat
  · rw [if_pos hmissing] at hfound
    exact absurd rfl hfound
  · rw [if_neg hmissing] at hfound ⊢
    obtain ⟨o, ho, -, hbody⟩ := obLookupObject_mem h.ns hfound
    exact ⟨⟨o, ho, hbody⟩, rfl⟩

/-- The client's end of a pipe. -/
theorem outcome_pipe (h : Sound s) (hok : callAllowed s (.createFile hdr driver none volumeDevice name))
    (hpipeName : isPipeName name = true) :
    Outcome s (.createFile hdr driver none volumeDevice name) := by
  have hunsuccessful : statusUnsuccessful ≠ statusSuccess := by decide
  have hserve : serve s (.createFile hdr driver none volumeDevice name) = _ := if_pos hpipeName
  have hmeets : Meets s (.createFile hdr driver none volumeDevice name) ↔ _ := iff_of_eq (if_pos hpipeName)
  by_cases hzero : (pipeOpen s name).2 = 0
  · refine .failed ⟨statusUnsuccessful, 0⟩ s ?_ hunsuccessful h (iff_of_true (.refl s) (hmeets.2 fun hne => absurd hzero hne))
    rw [hserve, if_pos hzero, pipeOpen_zero hzero]
  obtain ⟨⟨o, ho, hobody⟩, hstate⟩ := pipeOpen_found h hzero
  have hopened : Sound (pipeOpen s name).1 := by
    rw [hstate]
    exact h.congr rfl rfl
  by_cases hhdr : hdr = 0
  · subst hhdr
    refine .failed ⟨statusUnsuccessful, 0⟩ (pipeOpen s name).1 ?_ hunsuccessful hopened ?_
    · rw [hserve, if_neg hzero]
      rfl
    · rw [hmeets, if_pos rfl, hstate]
      constructor
      · intro hkept _
        have hsame := hkept.pipes o ho
        rw [hobody] at hsame
        exact (Function.update_self ..).symm.trans hsame
      · intro hpipe
        rw [hpipe hzero, Function.update_eq_self]
        exact .refl s
  · obtain ⟨hbody, hcreated⟩ := newFile_body (pipeOpen s name).1 hhdr
    have hallowed : hdrAllowed (pipeOpen s name).1 hdr fileObjectSize := by
      rw [hstate]
      exact hok.1
    have hnew : Sound (newFile (pipeOpen s name).1 hdr).1 := hopened.newObject hallowed obTypeFile none
    have hsound : Sound (setFile (newFile (pipeOpen s name).1 hdr).1 (newFileObject hdr).body
        ⟨0, (pipeOpen s name).2, 0, 0, false⟩) := hnew.congr rfl rfl
    have hmem : newFileObject hdr ∈ (setFile (newFile (pipeOpen s name).1 hdr).1
        (newFileObject hdr).body ⟨0, (pipeOpen s name).2, 0, 0, false⟩).created :=
      hcreated ▸ List.mem_append_right _ List.mem_cons_self
    refine .gave _ _ [] ?_ hsound hmem trivial rfl ((hsound.held_nil hmem).trans ?_)
    · rw [hserve, if_neg hzero]
      dsimp only
      rw [hbody, if_neg newFileObject_ne]
      rfl
    · have hhandles : (newFile (pipeOpen s name).1 hdr).1.ob.sHandles = s.ob.sHandles :=
        (newObject_handles ..).trans (by rw [hstate]; rfl)
      rw [hmeets, if_neg hhdr]
      exact (slotFree_congr hhandles).trans ⟨fun hfree _ => hfree, fun hpipe => hpipe hzero⟩

theorem outcome_createFile (h : Sound s)
    (hok : callAllowed s (.createFile hdr driver volume volumeDevice name)) :
    Outcome s (.createFile hdr driver volume volumeDevice name) := by
  have hnotFound : statusObjectNameNotFound ≠ statusSuccess := by decide
  have hunsuccessful : statusUnsuccessful ≠ statusSuccess := by decide
  have hprocess : obTypeFile ≠ obTypeProcess := by decide
  have hthread : obTypeFile ≠ obTypeThread := by decide
  rcases hvolume : volume with _ | _ | info
  · by_cases hpipeName : isPipeName name = true
    · subst hvolume
      exact outcome_pipe h hok hpipeName
    · subst hvolume
      by_cases hfound : obLookupObject s.ob name = 0 ∨
          obTypeOf s.ob (obLookupObject s.ob name) ≠ obTypeDevice.toNat
      · refine .failed ⟨statusUnsuccessful, 0⟩ s ?_ hunsuccessful h (iff_of_true (.refl s) ?_)
        · dsimp only [serve, sysCreateFile]
          rw [if_neg hpipeName, if_pos hfound]
        · dsimp only [Meets]
          rw [if_neg hpipeName]
          exact fun hne htype => absurd hfound (by rintro (hzero | hother); exacts [hne hzero, hother htype])
      by_cases hhdr : hdr = 0
      · subst hhdr
        refine .failed ⟨statusUnsuccessful, 0⟩ s ?_ hunsuccessful h (iff_of_true (.refl s) ?_)
        · dsimp only [serve, sysCreateFile]
          rw [if_neg hpipeName, if_neg hfound]
          rfl
        · dsimp only [Meets]
          rw [if_neg hpipeName]
          exact fun _ _ hne => absurd rfl hne
      obtain ⟨hzero, htype⟩ := not_or.1 hfound
      refine outcome_driven h hok hhdr ?_ ?_
      · dsimp only [serve, sysCreateFile, driverEntry]
        rw [if_neg hpipeName, if_neg hfound, (newFile_body s hhdr).1, if_neg newFileObject_ne]
      · dsimp only [Meets]
        rw [if_neg hpipeName]
        exact ⟨fun hfree _ _ _ => hfree, fun hmeets => hmeets hzero (not_not.1 htype) hhdr⟩
  · exact .failed ⟨statusObjectNameNotFound, 0⟩ s rfl hnotFound h (iff_of_true (.refl s) trivial)
  · by_cases hhdr : hdr = 0
    · subst hhdr
      refine .failed ⟨statusUnsuccessful, 0⟩ s rfl hunsuccessful h (iff_of_true (.refl s) fun hne => absurd rfl hne)
    obtain ⟨hbody, hcreated⟩ := newFile_body s hhdr
    by_cases hdev : volumeDevice = 0
    · have hnew : Sound (newFile s hdr).1 := h.newObject hok.1 obTypeFile none
      have hkept : Unchanged s (newFile s hdr).1 :=
        (unchanged_iff h hnew hcreated hprocess hthread (newObject_handles ..) (fun _ _ => rfl)
          (fun _ _ => rfl) rfl).2 (lookup_unnamed h hnew hcreated rfl)
      refine .failed ⟨statusUnsuccessful, 0⟩ (newFile s hdr).1 ?_ hunsuccessful hnew (iff_of_true hkept fun _ hdev' => absurd hdev hdev')
      dsimp only [serve, sysCreateFile]
      rw [if_pos (.inr hdev)]
    · subst hvolume
      refine outcome_driven h hok hhdr ?_ ⟨fun hfree _ _ => hfree, fun hmeets => hmeets hhdr hdev⟩
      dsimp only [serve, sysCreateFile, driverEntry]
      rw [hbody, if_neg (by rintro (hzero | hzero); exacts [newFileObject_ne hzero, hdev hzero])]

end CreateFile

/-! ## Processes and threads -/

theorem outcome_createProcess {child : List Act} (h : Sound s)
    (hok : callAllowed s (.createProcess hdr child)) : Outcome s (.createProcess hdr child) := by
  by_cases hhdr : hdr = 0
  · subst hhdr
    exact .failed ⟨statusUnsuccessful, 0⟩ s rfl (by decide) h (iff_of_true (.refl s) fun hne => absurd rfl hne)
  obtain ⟨hbody, hcreated⟩ := newObject_body (s := s) hhdr obTypeProcess eprocessSize none
  have hne : hdr + objectHeader ≠ 0 := Nat.ne_of_gt (Nat.add_pos_right hdr (by decide))
  have hnew := h.newObject hok.1 obTypeProcess none
  let s₁ : Services :=
    { (newObject s hdr obTypeProcess eprocessSize none).1 with ps := (psCreateProcess s.ps hdr).1 }
  have hsound : Sound s₁ := hnew.congr rfl rfl
  have ho : ⟨hdr + objectHeader, obTypeProcess, none⟩ ∈ s₁.created :=
    hcreated ▸ List.mem_append_right _ List.mem_cons_self
  have hentry : childEntry s hdr = (giveHandle s₁ (hdr + objectHeader)).2 := by
    unfold childEntry
    dsimp only
    rw [hbody]
  refine .gave s₁ _ child ?_ hsound ho (hentry ▸ hok.2) rfl ?_
  · dsimp only [serve, sysCreateProcess]
    rw [hbody, if_neg hne]
  · unfold Held
    dsimp only [Meets]
    rw [hentry, show s₁.ob.sHandles = s.ob.sHandles from newObject_handles ..]
    exact ⟨fun hheld _ => hheld, fun hmeets => hmeets hhdr⟩

theorem actStep_other {x : Services} (hob : x.ob = s.ob) (hcreated : x.created = s.created) :
    actStep s (.other x) = x := by
  dsimp only [actStep]
  rw [← hob, ← hcreated]
  rfl

theorem recordLaunch_ob (t : ThreadSys) (h kt : Nat) : (Ke.recordLaunch t h kt).ob = t.ob := by
  unfold Ke.recordLaunch
  split <;> rfl

theorem outcome_createThread {hproc start kt : Nat} (h : Sound s)
    (hok : callAllowed s (.createThread hproc start hdr kt)) :
    Outcome s (.createThread hproc start hdr kt) := by
  have hunsuccessful : Ke.statusUnsuccessful ≠ statusSuccess := by decide
  by_cases hproc0 : Ke.threadProcess s.threads hproc = 0
  · have hnone : Ke.sysCreateThread s.threads hproc start hdr kt =
        (Ke.statusUnsuccessful, 0, 0, s.threads) := if_pos hproc0
    refine .failed ⟨Ke.statusUnsuccessful, 0⟩ s ?_ hunsuccessful h
      (iff_of_true (.refl s) fun hne => absurd hproc0 hne)
    simp only [serve, sysCreateThread, hnone, if_neg hunsuccessful, if_true]
  by_cases hhdr : hdr = 0
  · subst hhdr
    have hnone : Ke.sysCreateThread s.threads hproc start 0 kt =
        (Ke.statusUnsuccessful, 0, 0, s.threads) := if_neg hproc0
    refine .failed ⟨Ke.statusUnsuccessful, 0⟩ s ?_ hunsuccessful h
      (iff_of_true (.refl s) fun _ hne => absurd rfl hne)
    simp only [serve, sysCreateThread, hnone, if_neg hunsuccessful, if_true]
  obtain ⟨hbody, hcreated⟩ := newObject_body (s := s) hhdr obTypeThread Ke.ethreadSize none
  have hne : hdr + objectHeader ≠ 0 := Nat.ne_of_gt (Nat.add_pos_right hdr (by decide))
  have hnew := h.newObject hok obTypeThread none
  have ho : ⟨hdr + objectHeader, obTypeThread, none⟩ ∈
      (newObject s hdr obTypeThread Ke.ethreadSize none).1.created :=
    hcreated ▸ List.mem_append_right _ List.mem_cons_self
  obtain ⟨t, hcall, hob⟩ : ∃ t, Ke.sysCreateThread s.threads hproc start hdr kt =
      (statusSuccess, (giveHandle (newObject s hdr obTypeThread Ke.ethreadSize none).1
        (hdr + objectHeader)).1.handle, hdr + objectHeader, t) ∧
      t.ob = (giveHandle (newObject s hdr obTypeThread Ke.ethreadSize none).1
        (hdr + objectHeader)).2.ob := by
    have hmade : (obCreateObject s.threads.ob hdr Ke.obTypeThread Ke.ethreadSize none).2 =
        hdr + objectHeader := hbody
    unfold Ke.sysCreateThread
    rw [if_neg hproc0]
    dsimp only
    rw [hmade, if_neg hne]
    refine ⟨_, rfl, ?_⟩
    split
    · exact recordLaunch_ob ..
    · rfl
  -- the launch is noted after the handle is made, and touches no object
  refine .gave _ _ [.other (serve s (.createThread hproc start hdr kt)).2] ?_ hnew ho
    ⟨trivial, trivial⟩ rfl (Iff.trans ?_ ((hnew.held_nil ho).trans ?_))
  · refine Prod.ext ?_ (Eq.symm (actStep_other ?_ ?_))
    · simp only [serve, sysCreateThread, hcall]
      rfl
    · simp only [serve, sysCreateThread, hcall]
      exact hob
    · simp only [serve, sysCreateThread, hcall, if_neg hne]
      exact hcreated.symm
  · exact Iff.rfl
  · refine (slotFree_congr (newObject_handles ..)).trans ?_
    exact ⟨fun hfree _ _ => hfree, fun hmeets => hmeets hproc0 hhdr⟩

/-! ## `NtCreateNamedPipeFile` -/

def newPipeObject (hdr : Nat) (name : CString) : Created :=
  ⟨hdr + objectHeader, obTypePipe, some (pipeNormalizeName name)⟩

theorem newPipeObject_ne (hdr : Nat) (name : CString) : (newPipeObject hdr name).body ≠ 0 :=
  Nat.ne_of_gt (Nat.add_pos_right hdr (by decide))

theorem pipeNormalizeName_chars (name : CString) :
    (pipeNormalizeName name).chars ≠ [] ∧ (pipeNormalizeName name).chars.length ≤ 63 := by
  refine ⟨?_, List.length_take_le ..⟩
  unfold pipeNormalizeName
  exact fun h => absurd h (by rw [List.take_eq_nil_iff]; simp [ascii])

theorem pipeCreate_zero (h : obLookupObject s.ob (pipeNormalizeName name) ≠ 0 ∨ hdr = 0) :
    pipeCreate s hdr name = (s, 0) := by
  unfold pipeCreate
  dsimp only
  by_cases hfound : obLookupObject s.ob (pipeNormalizeName name) ≠ 0
  · rw [if_pos hfound]
  · obtain rfl := h.resolve_left hfound
    rw [if_neg hfound]
    rfl

/-- The pipe is registered, whatever becomes of the file for it. -/
theorem pipeCreate_made (h : Sound s) (hok : hdrAllowed s hdr pipeObjectSize) (hhdr : hdr ≠ 0)
    (hnew : obLookupObject s.ob (pipeNormalizeName name) = 0) :
    (pipeCreate s hdr name).2 = (newPipeObject hdr name).body ∧ Sound (pipeCreate s hdr name).1 ∧
      (pipeCreate s hdr name).1.created = s.created ++ [newPipeObject hdr name] ∧
      (Unchanged s (pipeCreate s hdr name).1 ↔ maxNamed ≤ s.ob.sNamed.length) ∧
      (pipeCreate s hdr name).1.ob.sHandles = s.ob.sHandles := by
  obtain ⟨hbody, hcreated⟩ :=
    newObject_body (s := s) hhdr obTypePipe pipeObjectSize (some (pipeNormalizeName name))
  have hobject := h.newObject hok obTypePipe (some (pipeNormalizeName name))
  have heq : pipeCreate s hdr name =
      ({ (newObject s hdr obTypePipe pipeObjectSize (some (pipeNormalizeName name))).1 with
          pipes := Function.update s.pipes (newPipeObject hdr name).body
            (newPipe (pipeNormalizeName name).chars) }, (newPipeObject hdr name).body) := by
    unfold pipeCreate
    dsimp only
    rw [if_neg (not_not_intro hnew), hbody]
    exact if_neg (newPipeObject_ne hdr name)
  rw [heq]
  have hsound : Sound { (newObject s hdr obTypePipe pipeObjectSize (some (pipeNormalizeName name))).1 with
      pipes := Function.update s.pipes (newPipeObject hdr name).body
        (newPipe (pipeNormalizeName name).chars) } := hobject.congr rfl rfl
  refine ⟨rfl, hsound, hcreated, ?_, newObject_handles ..⟩
  obtain ⟨hchars, hshort⟩ := pipeNormalizeName_chars name
  have hprocess : obTypePipe ≠ obTypeProcess := by decide
  have hthread : obTypePipe ≠ obTypeThread := by decide
  refine (unchanged_iff h hsound hcreated hprocess hthread (newObject_handles ..)
    (fun o ho => ?_) (fun _ _ => rfl) rfl).trans ?_
  · exact Function.update_of_ne (h.new_body hhdr hok ho) ..
  · refine (obLookupObject_named h.ns hsound.ns hcreated ((newPipeObject hdr name).named_iff.2 hchars)
      (List.take_of_length_le hshort)).trans ?_
    exact or_iff_left (not_not_intro hnew)

theorem outcome_createNamedPipe {hdrPipe hdrFile : Nat} (h : Sound s)
    (hok : callAllowed s (.createNamedPipe hdrPipe hdrFile name)) :
    Outcome s (.createNamedPipe hdrPipe hdrFile name) := by
  have hunsuccessful : statusUnsuccessful ≠ statusSuccess := by decide
  by_cases hnone : obLookupObject s.ob (pipeNormalizeName name) ≠ 0 ∨ hdrPipe = 0
  · refine .failed ⟨statusUnsuccessful, 0⟩ s ?_ hunsuccessful h (iff_of_true (.refl s) ?_)
    · dsimp only [serve, sysCreateNamedPipe]
      rw [pipeCreate_zero hnone, if_pos rfl]
    · exact fun hnew hhdr => absurd hnone (by rintro (hfound | hzero); exacts [hfound hnew, hhdr hzero])
  obtain ⟨hnew, hhdr⟩ := not_or.1 hnone
  rw [not_not] at hnew
  obtain ⟨hbody, hpipe, hcreated, hkept, hhandles⟩ := pipeCreate_made h hok.1 hhdr hnew
  by_cases hfile : hdrFile = 0
  · subst hfile
    refine .failed ⟨statusUnsuccessful, 0⟩ (pipeCreate s hdrPipe name).1 ?_ hunsuccessful hpipe
      (hkept.trans ?_)
    · dsimp only [serve, sysCreateNamedPipe]
      rw [hbody, if_neg (newPipeObject_ne hdrPipe name)]
      rfl
    · exact ⟨fun hfull _ _ => hfull, fun hmeets => hmeets hnew hhdr⟩
  · obtain ⟨hfileBody, hfileCreated⟩ := newFile_body (pipeCreate s hdrPipe name).1 hfile
    have hfileSound : Sound (newFile (pipeCreate s hdrPipe name).1 hdrFile).1 :=
      hpipe.newObject hok.2 obTypeFile none
    have hsound : Sound (setFile (newFile (pipeCreate s hdrPipe name).1 hdrFile).1
        (newFileObject hdrFile).body ⟨0, (newPipeObject hdrPipe name).body, 0, 0, false⟩) :=
      hfileSound.congr rfl rfl
    have ho : newFileObject hdrFile ∈ (setFile (newFile (pipeCreate s hdrPipe name).1 hdrFile).1
        (newFileObject hdrFile).body ⟨0, (newPipeObject hdrPipe name).body, 0, 0, false⟩).created :=
      hfileCreated ▸ List.mem_append_right _ List.mem_cons_self
    refine .gave _ _ [] ?_ hsound ho trivial rfl ((hsound.held_nil ho).trans ?_)
    · dsimp only [serve, sysCreateNamedPipe]
      rw [hbody, if_neg (newPipeObject_ne hdrPipe name), hfileBody, if_neg newFileObject_ne]
      rfl
    · dsimp only [Meets]
      rw [if_neg hfile]
      refine (slotFree_congr ((newObject_handles ..).trans hhandles)).trans ?_
      exact ⟨fun hfree _ _ => hfree, fun hmeets => hmeets hnew hhdr⟩

/-! ## Sections -/

theorem asciiName_length (name : Option UnicodeString) : (Mm.asciiName name).chars.length ≤ 63 := by
  change (Cm.uniToAscii name 64).length ≤ 63
  unfold Cm.uniToAscii
  split
  · refine (List.takeWhile_sublist _).length_le.trans ?_
    rw [List.length_map, List.length_range]
    exact Nat.min_le_right ..
  · exact Nat.zero_le _

/-- The state of the section services. -/
def secWorld (s : Services) : Mm.SecWorld := ⟨⟨s.ob, s.sections⟩, s.created, []⟩

/-- The services with the state of the section services. -/
def fromSec (s : Services) (w : Mm.SecWorld) : Services :=
  { s.setOb w.st.ob with sections := w.st.sections, created := w.created }

theorem onSections_eq (s : Services) (op : Mm.SecOp) : onSections s op =
    (⟨(secStep (secWorld s) op).2.status, (secStep (secWorld s) op).2.sectionHandle.getD 0⟩,
      fromSec s (secStep (secWorld s) op).1) := rfl

def newSectionObject (hdr : Nat) (name : Option UnicodeString) : Created :=
  ⟨hdr + objectHeader, Mm.obTypeSection, Mm.nameOpt name⟩

theorem nameOpt_chars (name : Option UnicodeString) :
    ((Mm.nameOpt name).map CString.chars).getD [] = (Mm.asciiName name).chars := by
  unfold Mm.nameOpt
  by_cases hempty : (Mm.asciiName name).chars = []
  · rw [if_pos hempty, hempty]
    rfl
  · rw [if_neg hempty]
    rfl

section CreateSection

variable {backing : Option Alloc} {size : UInt64} {secName : Option UnicodeString} {protect : UInt32}

variable (backing size secName protect) in
/-- The section without its handle. -/
theorem withObject_kept (h : Sound s) (hhdr : hdr ≠ 0) (hok : hdrAllowed s hdr Mm.sectionObjectSize) :
    Sound (fromSec s (Mm.withObject (secWorld s) hdr backing size secName protect)) ∧
      (Unchanged s (fromSec s (Mm.withObject (secWorld s) hdr backing size secName protect)) ↔
        (Mm.asciiName secName).chars = [] ∨ maxNamed ≤ s.ob.sNamed.length ∨
          obLookupObject s.ob (Mm.asciiName secName) ≠ 0) := by
  have hns := Mm.withObject_ns (w := secWorld s) backing size secName protect h.ns hhdr
    (hok.resolve_left hhdr)
  have hhandles : (fromSec s (Mm.withObject (secWorld s) hdr backing size secName protect)).ob.sHandles =
      s.ob.sHandles := Mm.obCreateObject_handles ..
  have hcreated : (fromSec s (Mm.withObject (secWorld s) hdr backing size secName protect)).created =
      s.created ++ [newSectionObject hdr secName] := rfl
  have hsound : Sound (fromSec s (Mm.withObject (secWorld s) hdr backing size secName protect)) := by
    refine ⟨hns, fun i hlo hhi hused => ?_⟩
    rw [hhandles] at hused ⊢
    obtain ⟨o, ho, hbody⟩ := h.slots i hlo hhi hused
    exact ⟨o, List.mem_append_left _ ho, hbody⟩
  have hprocess : Mm.obTypeSection ≠ obTypeProcess := by decide
  have hthread : Mm.obTypeSection ≠ obTypeThread := by decide
  have hchars : (newSectionObject hdr secName).chars = (Mm.asciiName secName).chars :=
    nameOpt_chars secName
  refine ⟨hsound, (unchanged_iff h hsound hcreated hprocess hthread hhandles (fun _ _ => rfl)
    (fun o ho => Function.update_of_ne (h.new_body hhdr hok ho) ..) rfl).trans ?_⟩
  by_cases hempty : (Mm.asciiName secName).chars = []
  · refine iff_of_true (lookup_unnamed h hsound hcreated ?_) (.inl hempty)
    exact Bool.eq_false_iff.2 fun hnamed =>
      (newSectionObject hdr secName).named_iff.1 hnamed (hchars.trans hempty)
  · refine (obLookupObject_named h.ns hsound.ns hcreated
      ((newSectionObject hdr secName).named_iff.2 (hchars ▸ hempty)) ?_).trans
        (or_iff_right hempty).symm
    unfold Created.stored
    rw [hchars]
    exact List.take_of_length_le (asciiName_length secName)

theorem outcome_createSection {sectionHandle : Bool} {maximumSize : Option UInt64} (h : Sound s)
    (hok : callAllowed s (.createSection hdr backing sectionHandle maximumSize secName protect)) :
    Outcome s (.createSection hdr backing sectionHandle maximumSize secName protect) := by
  cases hmade : makesObject hdr sectionHandle maximumSize with
  | false =>
    obtain ⟨hsame, hstatus⟩ : (secStep (secWorld s)
        (.create hdr backing sectionHandle maximumSize secName protect)).1 = secWorld s ∧ _ :=
      Mm.create_unmade hmade
    refine .failed
      (serve s (.createSection hdr backing sectionHandle maximumSize secName protect)).1 s ?_ hstatus h
      (iff_of_true (.refl s) fun hmakes => ?_)
    · refine Prod.ext rfl ((congrArg Prod.snd (onSections_eq s _)).trans ?_)
      dsimp only
      rw [hsame]
      rfl
    · rw [hmade] at hmakes
      cases hmakes
  | true =>
    obtain ⟨rfl, hhdr, size, rfl, hsize⟩ := Mm.makesObject_true hmade
    have hne : hdr + objectHeader ≠ 0 := Nat.ne_of_gt (Nat.add_pos_right hdr (by decide))
    obtain ⟨hptr, hnone⟩ := Mm.pointer_eq fun a ha => (hok.2 a ha).1
    cases backing with
    | none =>
      obtain ⟨hsound, hkept⟩ := withObject_kept none size secName Mm.pageReadwrite h hhdr hok.1
      refine .failed ⟨Mm.statusNoMemory, 0⟩ _ ?_ (by decide) hsound (hkept.trans ?_)
      · refine (onSections_eq s _).trans ?_
        rw [Mm.create_failed hhdr hsize (hnone.2 rfl)]
        rfl
      · exact ⟨fun hhidden _ => hhidden, fun hmeets => hmeets hmade⟩
    | some a =>
      obtain ⟨hgranted, hroom⟩ := hok.2 a rfl
      obtain ⟨hsound, -⟩ := withObject_kept (some a) size secName protect h hhdr hok.1
      have hapart : ∀ o ∈ (Mm.withObject (secWorld s) hdr (some a) size secName protect).created,
          (Mm.pointer (some a)).toNat + size.toNat ≤ o.body - objectHeader ∨
            o.body ≤ (Mm.pointer (some a)).toNat := by
        intro o ho
        have hmem : o.body ∈ (hdr + objectHeader) :: s.created.map Created.body := by
          rcases List.mem_append.1 ho with ho | ho
          · exact List.mem_cons_of_mem _ (List.mem_map_of_mem ho)
          · obtain rfl := List.mem_singleton.1 ho
            exact List.mem_cons_self
        have hout := hgranted.apart o.body hmem
        rw [hptr a rfl]
        simp only [Option.getD_some] at hroom
        omega
      have hzeroed : Sound (fromSec s (Mm.zeroed
          (Mm.withObject (secWorld s) hdr (some a) size secName protect) (Mm.pointer (some a)) size)) :=
        ⟨hsound.ns.blit hapart, hsound.slots⟩
      have ho : newSectionObject hdr secName ∈ (fromSec s (Mm.zeroed
          (Mm.withObject (secWorld s) hdr (some a) size secName protect) (Mm.pointer (some a))
            size)).created := List.mem_append_right _ List.mem_cons_self
      refine .gave _ _ [] ?_ hzeroed ho trivial rfl ((hzeroed.held_nil ho).trans ?_)
      · refine (onSections_eq s _).trans ?_
        rw [Mm.create_done hhdr hsize (mt hnone.1 (Option.some_ne_none a))]
        rfl
      · refine (slotFree_congr (Mm.obCreateObject_handles ..)).trans ?_
        exact ⟨fun hfree _ => hfree, fun hmeets => hmeets hmade⟩

end CreateSection

theorem outcome_openSection {sectionHandle : Bool} {secName : Option UnicodeString} (h : Sound s) :
    Outcome s (.openSection sectionHandle secName) := by
  have hinvalid : Mm.statusInvalidParameter ≠ statusSuccess := by decide
  cases sectionHandle with
  | false =>
    exact .failed ⟨Mm.statusInvalidParameter, 0⟩ s rfl hinvalid h
      (iff_of_true (.refl s) fun hhandle => by cases hhandle)
  | true =>
    cases secName with
    | none =>
      exact .failed ⟨Mm.statusInvalidParameter, 0⟩ s rfl hinvalid h
        (iff_of_true (.refl s) fun _ hname => by cases hname)
    | some n =>
      have hcall : secStep (secWorld s) (.openSection true (some n)) =
          if obLookupObject s.ob (Mm.asciiName (some n)) = 0 then
            (secWorld s, ⟨Mm.statusObjectNameNotFound, none⟩)
          else
            ({ secWorld s with
                st.ob := (obCreateHandle s.ob (obLookupObject s.ob (Mm.asciiName (some n)))).1 },
              ⟨Mm.statusSuccess, some (obCreateHandle s.ob (obLookupObject s.ob (Mm.asciiName (some n)))).2⟩) := by
        unfold secStep Mm.ntOpenSection
        dsimp only [secWorld]
        split <;> rfl
      by_cases hfound : obLookupObject s.ob (Mm.asciiName (some n)) = 0
      · refine .failed ⟨Mm.statusObjectNameNotFound, 0⟩ s ?_ (by decide) h
          (iff_of_true (.refl s) fun _ _ hne => absurd hfound hne)
        refine (onSections_eq s _).trans ?_
        rw [hcall, if_pos hfound]
        rfl
      · obtain ⟨o, ho, -, hbody⟩ := obLookupObject_mem h.ns hfound
        have hbody : o.body = obLookupObject s.ob (Mm.asciiName (some n)) := hbody
        refine .gave s o [] ?_ h ho trivial ?_ ((h.held_nil ho).trans ?_)
        · refine (onSections_eq s _).trans ?_
          rw [hcall, if_neg hfound, hbody]
          rfl
        · dsimp only [subject]
          rw [← hbody]
          unfold obTypeOf
          rw [if_pos (hbody ▸ hfound), h.ns.type_eq o ho]
        · exact ⟨fun hfree _ _ _ => hfree, fun hmeets => hmeets rfl rfl hfound⟩

/-! ## Every run -/

theorem Sound.outcome (h : Sound s) (c : Call) (hok : callAllowed s c) : Outcome s c := by
  cases c with
  | createFile hdr driver volume volumeDevice name => exact outcome_createFile h hok
  | createProcess hdr child => exact outcome_createProcess h hok
  | createThread hproc start hdr kt => exact outcome_createThread h hok
  | createNamedPipe hdrPipe hdrFile name => exact outcome_createNamedPipe h hok
  | createSection hdr backing sectionHandle maximumSize name protect => exact outcome_createSection h hok
  | openSection sectionHandle name => exact outcome_openSection h

theorem servReach_sound {s : Services} (h : Reach ServStart ServStep (fun _ _ => True) s) : Sound s := by
  apply h.invariant
  · rintro s ⟨hstart, hempty⟩
    exact ⟨nsReach_inv (.start hstart), fun i hlo hhi hused => absurd (hempty i hlo hhi) hused⟩
  · rintro s op s' hs - hstep
    cases op with
    | call c =>
      obtain ⟨hok, rfl⟩ := hstep
      exact (hs.outcome c hok).sound
    | act a =>
      obtain ⟨hok, rfl⟩ := hstep
      exact (hs.act hok).1

/-- When the services keep their promises, in every state and with every answer of `kmalloc`. -/
theorem services_keep {s : Services} (h : Reach ServStart ServStep (fun _ _ => True) s) (c : Call)
    (hok : callAllowed s c) : (Truthful s c ∧ Atomic s c) ↔ Meets s c :=
  ((servReach_sound h).outcome c hok).kept_iff

/-! ## Two calls -/

/-- Nothing created and no handle given. -/
def noServices : Services where
  threads := ⟨⟨fun _ => 0, fun _ => 0, [], []⟩, 0, fun _ => (0, 0), 0, fun _ => false⟩
  sections := fun _ => ⟨0, 0, 0⟩
  pipes := fun _ => newPipe []
  files := fun _ => ⟨0, 0, 0, 0, false⟩
  ps := ⟨fun _ => 0, [], fun _ => ⟨0, 0, 0, 0, false, 0⟩, fun _ => ⟨0, 0, 0, false⟩,
    fun _ => ⟨0, false, 0⟩, 0, 4, 4, 0, []⟩
  target := (0, false)
  created := []

theorem noServices_reach : Reach ServStart ServStep (fun _ _ => True) noServices :=
  .start ⟨⟨rfl, rfl, rfl⟩, fun _ _ _ => rfl⟩

theorem services_keep_process :
    Truthful noServices (.createProcess 128 []) ∧ Atomic noServices (.createProcess 128 []) :=
  (services_keep noServices_reach (.createProcess 128 [])
    ⟨.inr ⟨by decide, List.forall_mem_nil _⟩, trivial⟩).2 fun _ => ⟨1, by decide, by decide +kernel⟩

theorem pipeA_terminated : 0 ∉ ([65] : List UInt8) := by decide

def pipeA : CString := ⟨[65], pipeA_terminated⟩

/-- There was memory for the pipe and none for the file: the call fails and the pipe is there. -/
theorem pipe_left_behind : ∃ s c, Reach ServStart ServStep (fun _ _ => True) s ∧ callAllowed s c ∧
    (serve s c).1.status = statusUnsuccessful ∧ obLookupObject s.ob (pipeNormalizeName pipeA) = 0 ∧
    obLookupObject (serve s c).2.ob (pipeNormalizeName pipeA) = 208 ∧ ¬ Atomic s c := by
  have hbefore : obLookupObject noServices.ob (pipeNormalizeName pipeA) = 0 := rfl
  have hafter : obLookupObject (serve noServices (.createNamedPipe 128 0 pipeA)).2.ob
      (pipeNormalizeName pipeA) = 208 := by decide +kernel
  have hfails : (serve noServices (.createNamedPipe 128 0 pipeA)).1.status = statusUnsuccessful := by
    decide +kernel
  refine ⟨noServices, .createNamedPipe 128 0 pipeA, noServices_reach,
    ⟨.inr ⟨by decide, List.forall_mem_nil _⟩, .inl rfl⟩, hfails, hbefore, hafter, fun hatomic => ?_⟩
  have hkept := (hatomic (by rw [hfails]; decide)).lookup (pipeNormalizeName pipeA)
  rw [hafter, hbefore] at hkept
  exact absurd hkept (by decide)

end MeuOS.Syscall
