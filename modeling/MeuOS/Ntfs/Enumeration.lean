import MeuOS.Ntfs.FileSystem

/-! Enumerating directories through handles. What the calls deliver since the enumeration
last started over is a first part of the listing of one directory, whichever handles asked;
an open of the volume starts it over, and so does a query on another directory. -/
namespace MeuOS.Ntfs

open MeuOS.Lib

inductive Call
  | createFile (name : List UInt8)
  | queryDirectoryFile (h outLen : Nat)

inductive Event
  | opened (a : Opened)
  | asked (h dir : Nat) (a : Answer)
deriving DecidableEq

/-- A call that concerns the volume: a name on it, or a handle of one of its files. -/
def fsCall (v : Volume) (env : Env) (c : Call) (s : FsState) : Option (Event × FsState) :=
  match c with
  | .createFile name =>
      (ntfsVolumeSubpath name).bind fun path =>
        (sysCreateFile v env path s).map fun (a, s) => (.opened a, s)
  | .queryDirectoryFile h outLen =>
      (s.handles h).bind fun file =>
        (sysQueryDirectoryFile v env h true outLen s).map fun (a, s) =>
          (.asked h file.fsContext a, s)

/-- Runs of opens and queries on a volume that has just been mounted, latest event first. -/
inductive FsRun (v : Volume) (env : Env) : List Event → FsState → Prop
  | mounted {s : FsState} (hext : s.ext = mountedExt) : FsRun v env [] s
  | step {s s' : FsState} {c : Call} {ev : Event} {hist : List Event} (hrun : FsRun v env hist s)
      (hcall : fsCall v env c s = some (ev, s')) : FsRun v env (ev :: hist) s'

/-- Asking for another directory starts over. -/
def retarget (dir : Nat) (t : Nat × List FileInfo) : Nat × List FileInfo :=
  if t.1 = dir then t else (dir, [])

/-- The directory being enumerated and the entries delivered since it started over. -/
def stretch : List Event → Nat × List FileInfo
  | [] => (ntfsMftRoot, [])
  | .opened a :: hist =>
      match a.target with
      | none => stretch hist
      | some info =>
          let t := if info.isDir then retarget info.mftRecord (stretch hist) else stretch hist
          if a.created then (if t.1 = 0 then ntfsMftRoot else t.1, []) else t
  | .asked _ dir a :: hist =>
      let t := retarget dir (stretch hist)
      (t.1, t.2 ++ a.entry.toList)

/-- Record 0 stands for the root. -/
def dirOf (dir : Nat) : Nat := if dir = 0 then ntfsMftRoot else dir

/-- The volume does not change: every listing of a directory that is made during the run is
`L` of it, or a first part where memory or the disk fails. -/
def Reports (L : Nat → List FileInfo) (hist : List Event) : Prop :=
  ∀ h dir a, .asked h dir a ∈ hist → a.listed <+: L (dirOf dir)

variable {v : Volume} {env : Env} {s s' : FsState} {hist : List Event} {L : Nat → List FileInfo}

/-- The context of the volume is where the stretch has come to. -/
structure Tracks (L : Nat → List FileInfo) (ext : VolumeExt) (t : Nat × List FileInfo) : Prop where
  record : ext.dirRecord = t.1
  index : ext.dirIndex = t.2.length
  given : t.2 <+: L (dirOf t.1)

theorem Tracks.setTarget {ext : VolumeExt} {t : Nat × List FileInfo} (h : Tracks L ext t) (dir : Nat) :
    Tracks L (ntfsFsSetTarget ext dir true) (retarget dir t) := by
  unfold ntfsFsSetTarget retarget
  rw [if_pos rfl, h.record]
  by_cases hsame : t.1 = dir
  · rw [if_neg (not_not.mpr hsame), if_pos hsame]
    exact h
  · rw [if_pos hsame, if_neg hsame]
    exact ⟨rfl, rfl, List.nil_prefix⟩

theorem Tracks.create {ext : VolumeExt} {t : Nat × List FileInfo} (h : Tracks L ext t) :
    Tracks L (ntfsCreate ext) (if t.1 = 0 then ntfsMftRoot else t.1, []) := by
  refine ⟨?_, rfl, List.nil_prefix⟩
  unfold ntfsCreate
  rw [h.record]

theorem sysCreateFile_tracks {path : List UInt8} {a : Opened} (h : Tracks L s.ext (stretch hist))
    (hrun : sysCreateFile v env path s = some (a, s')) :
    Tracks L s'.ext (stretch (.opened a :: hist)) := by
  unfold sysCreateFile at hrun
  obtain ⟨⟨info, sys⟩, -, hrun⟩ := Option.map_eq_some_iff.mp hrun
  cases info with
  | none =>
    cases hrun
    exact h
  | some info =>
    rcases halloc : allocates env sys with ⟨_ | _, sys'⟩
    · simp only [halloc] at hrun
      cases hrun
      exact h
    · simp only [halloc] at hrun
      cases hrun
      have ht : Tracks L (ntfsFsSetTarget s.ext info.mftRecord info.isDir)
          (if info.isDir then retarget info.mftRecord (stretch hist) else stretch hist) := by
        cases hdir : info.isDir with
        | true => exact h.setTarget info.mftRecord
        | false => exact ⟨h.record, h.index, h.given⟩
      unfold stretch
      simp only
      cases (allocates env sys').1 with
      | true => exact ht.create
      | false => exact ht

/-- The entry under the cursor is the next one of the listing. -/
theorem Tracks.deliver {ext : VolumeExt} {t : Nat × List FileInfo} (h : Tracks L ext t)
    {listed : List FileInfo} (hlisted : listed <+: L (dirOf t.1)) {hit : FileInfo}
    (hhit : listed[ext.dirIndex]? = some hit) :
    Tracks L { ext with dirIndex := ext.dirIndex + 1 } (t.1, t.2 ++ [hit]) := by
  refine ⟨h.record, ?_, ?_⟩
  · rw [h.index, List.length_append, List.length_singleton]
  · have hnext : (L (dirOf t.1))[t.2.length]? = some hit := by
      obtain ⟨later, hlater⟩ := hlisted
      rw [← h.index, ← hlater,
        List.getElem?_append_left (List.getElem?_eq_some_iff.mp hhit).1, hhit]
    obtain ⟨rest, hrest⟩ := h.given
    rw [← hrest] at hnext ⊢
    rw [List.getElem?_append_right (Nat.le_refl _), Nat.sub_self] at hnext
    cases rest with
    | nil => cases hnext
    | cons x rest =>
      cases hnext
      exact ⟨rest, by rw [List.append_assoc]; rfl⟩

theorem ntfsDirectoryControl_tracks {ext ext' : VolumeExt} {t : Nat × List FileInfo}
    (h : Tracks L ext t) {buffer : Bool} {outLen : Nat} {sys sys' : Sys} {a : Answer}
    (hlisted : a.listed <+: L (dirOf t.1))
    (hrun : ntfsDirectoryControl v env ext buffer outLen sys = some (a, ext', sys')) :
    Tracks L ext' (t.1, t.2 ++ a.entry.toList) ∧
      (a.status = statusNoMoreFiles → a.entry = none ∧ a.listed.length ≤ t.2.length) := by
  have hkept : Tracks L ext (t.1, t.2 ++ (none : Option FileInfo).toList) := by
    rw [Option.toList_none, List.append_nil]
    exact h
  unfold ntfsDirectoryControl at hrun
  simp only at hrun
  split at hrun
  case isTrue =>
    cases hrun
    exact ⟨hkept, nofun⟩
  case isFalse =>
    obtain ⟨⟨infos, sys''⟩, -, hrun⟩ := Option.map_eq_some_iff.mp hrun
    cases hhit : infos[ext.dirIndex]? with
    | none =>
      simp only [hhit] at hrun
      cases hrun
      refine ⟨hkept, fun _ => ⟨rfl, ?_⟩⟩
      rw [← h.index]
      exact List.getElem?_eq_none_iff.mp hhit
    | some hit =>
      simp only [hhit] at hrun
      cases hrun
      exact ⟨h.deliver hlisted hhit, nofun⟩

/-- The end is reported only behind the whole listing, if the listing was complete. -/
def EndsAfterAll (L : Nat → List FileInfo) (t : Nat × List FileInfo) : Event → Prop
  | .opened _ => True
  | .asked _ dir a => t.1 = dir ∧
      (a.status = statusNoMoreFiles → a.listed = L (dirOf dir) → t.2 = L (dirOf dir))

/-- A query moves the volume to the directory of its handle and delivers the next entry. -/
theorem sysQueryDirectoryFile_tracks {h outLen : Nat} {file : FileObject} {a : Answer}
    (hfile : s.handles h = some file) (ht : Tracks L s.ext (stretch hist))
    (hlisted : a.listed <+: L (dirOf file.fsContext))
    (hrun : sysQueryDirectoryFile v env h true outLen s = some (a, s')) :
    Tracks L s'.ext (stretch (.asked h file.fsContext a :: hist)) ∧
      EndsAfterAll L (stretch (.asked h file.fsContext a :: hist)) (.asked h file.fsContext a) := by
  have hdir : (retarget file.fsContext (stretch hist)).1 = file.fsContext := by
    unfold retarget
    split <;> trivial
  have htarget := ht.setTarget file.fsContext
  unfold sysQueryDirectoryFile at hrun
  simp only [hfile, not_true_eq_false, if_false] at hrun
  unfold stretch EndsAfterAll
  simp only
  rcases hirp : ioBuildRead env outLen s.sys with ⟨_ | buffer, sys⟩
  · simp only [hirp] at hrun
    cases hrun
    rw [Option.toList_none, List.append_nil]
    exact ⟨htarget, hdir, nofun⟩
  · simp only [hirp] at hrun
    obtain ⟨⟨a', ext, sys'⟩, hcontrol, hrun⟩ := Option.map_eq_some_iff.mp hrun
    cases hrun
    rw [← hdir] at hlisted
    obtain ⟨htracks, hmore⟩ := ntfsDirectoryControl_tracks htarget hlisted hcontrol
    refine ⟨htracks, hdir, fun hstatus hall => ?_⟩
    obtain ⟨hnone, hlen⟩ := hmore hstatus
    have hgiven := htracks.given
    rw [hnone, Option.toList_none, List.append_nil] at hgiven ⊢
    rw [hall] at hlen
    rw [hdir] at hgiven
    exact hgiven.eq_of_length_le hlen

theorem fsCall_tracks {c : Call} {ev : Event} (ht : Tracks L s.ext (stretch hist))
    (hL : Reports L (ev :: hist)) (hcall : fsCall v env c s = some (ev, s')) :
    Tracks L s'.ext (stretch (ev :: hist)) ∧ EndsAfterAll L (stretch (ev :: hist)) ev := by
  cases c with
  | createFile name =>
    obtain ⟨path, -, hcall⟩ := Option.bind_eq_some_iff.mp hcall
    obtain ⟨⟨a, s''⟩, hrun, hcall⟩ := Option.map_eq_some_iff.mp hcall
    cases hcall
    exact ⟨sysCreateFile_tracks ht hrun, trivial⟩
  | queryDirectoryFile h outLen =>
    obtain ⟨file, hfile, hcall⟩ := Option.bind_eq_some_iff.mp hcall
    obtain ⟨⟨a, s''⟩, hrun, hcall⟩ := Option.map_eq_some_iff.mp hcall
    cases hcall
    exact sysQueryDirectoryFile_tracks hfile ht (hL _ _ _ (List.mem_cons_self ..)) hrun

theorem FsRun.tracks (hrun : FsRun v env hist s) (hL : Reports L hist) :
    Tracks L s.ext (stretch hist) := by
  induction hrun with
  | mounted hext =>
    rw [hext]
    exact ⟨rfl, rfl, List.nil_prefix⟩
  | step hrun hcall ih =>
    have hearlier := ih fun h dir a hmem => hL h dir a (List.mem_cons_of_mem _ hmem)
    exact (fsCall_tracks hearlier hL hcall).1

/-- Since the enumeration last started over, the entries delivered are a first part of the
listing of the directory it is on, and the end is reported only behind all of it. -/
theorem enumeration_in_order (hrun : FsRun v env hist s) (hL : Reports L hist) :
    (stretch hist).2 <+: L (dirOf (stretch hist).1) ∧
    ∀ ev earlier, hist = ev :: earlier → EndsAfterAll L (stretch hist) ev := by
  refine ⟨(hrun.tracks hL).given, fun ev earlier heq => ?_⟩
  subst heq
  cases hrun with
  | step hbefore hcall =>
    have hearlier := hbefore.tracks fun h dir a hmem => hL h dir a (List.mem_cons_of_mem _ hmem)
    exact (fsCall_tracks hearlier hL hcall).2

/-! ## Two handles of one directory -/

/-- What has been delivered on one handle. -/
def returnedOn (h : Nat) : List Event → List FileInfo
  | [] => []
  | .opened _ :: hist => returnedOn h hist
  | .asked h' _ a :: hist => returnedOn h hist ++ if h' = h then a.entry.toList else []

def fsCalls (v : Volume) (env : Env) : List Call → List Event × FsState → Option (List Event × FsState)
  | [], r => some r
  | c :: calls, (hist, s) =>
      (fsCall v env c s).bind fun (ev, s) => fsCalls v env calls (ev :: hist, s)

theorem fsCalls_run {calls : List Call} {r : List Event × FsState} (hrun : FsRun v env hist s)
    (h : fsCalls v env calls (hist, s) = some r) : FsRun v env r.1 r.2 := by
  induction calls generalizing hist s with
  | nil =>
    cases h
    exact hrun
  | cons c calls ih =>
    obtain ⟨⟨ev, s'⟩, hcall, hrest⟩ := Option.bind_eq_some_iff.mp h
    exact ih (.step hrun hcall) hrest

/-- A directory with one entry, the file `a` in record 27. -/
def dirRecord : Mem :=
  let header : Mem := fun i =>
    [0x46, 0x49, 0x4C, 0x45, 0x30, 0, 3, 0, 0, 0, 0, 0, 0, 0, 0, 0,
      1, 0, 1, 0, 0x38, 0, 3, 0, 0, 0, 0, 0, 0, 4, 0, 0,
      0, 0, 0, 0, 0, 0, 0, 0, 0, 0, 0, 0, 0, 0, 0, 0,
      1, 0, 0, 0, 0, 0, 0, 0, 0x90, 0, 0, 0, 0xA0, 0, 0, 0,
      0, 0, 0, 0, 0, 0, 0, 0, 0x88, 0, 0, 0, 0x18, 0, 0, 0,
      0x30, 0, 0, 0, 1, 0, 0, 0, 0, 0x10, 0, 0, 1, 0, 0, 0,
      0x10, 0, 0, 0, 0x78, 0, 0, 0, 0x78, 0, 0, 0, 0, 0, 0, 0].getD i 0
  let key := (buildFilenameContent 320 5 [0x61] fileAttrArchive 1 8 fun _ => 0).getD fun _ => 0
  let entered := writeEntry header 0x70 27 key [0x61]
  writeEnd ((entered.write 0xD0 2 0x10).write 0xD4 2 2) 0xD8

/-- The volume with that directory as its root, just mounted. -/
def dirState : FsState where
  sys := match ntfsWriteMftRecord kibVolume calmEnv 5 dirRecord blankSys with
    | some (_, _, s) => s
    | none => blankSys
  ext := mountedExt
  handles := fun _ => none

def aInfo : FileInfo := ⟨27, false, 1, [0x61]⟩

/-- `C:`, `c:\`, a query on each of the two handles, `C:` and a query on the first. -/
def twoHandles : List Call :=
  [.createFile [0x43, 0x3A], .createFile [0x63, 0x3A, 0x5C], .queryDirectoryFile 1 280,
    .queryDirectoryFile 2 280, .createFile [0x43, 0x3A], .queryDirectoryFile 1 280]

def twoHandlesLog : List Event :=
  let root : Event := .opened ⟨statusSuccess, some ⟨5, true, 0, [0x5C]⟩, true⟩
  let found : Answer := ⟨statusSuccess, some aInfo, [aInfo]⟩
  [.asked 1 5 found, root, .asked 2 5 ⟨statusNoMoreFiles, none, [aInfo]⟩, .asked 1 5 found, root, root]

theorem twoHandles_run : ∃ s, FsRun kibVolume calmEnv twoHandlesLog s := by
  have hlog : (fsCalls kibVolume calmEnv twoHandles ([], dirState)).map Prod.fst =
      some twoHandlesLog := by decide +kernel
  obtain ⟨r, hrun, hfst⟩ := Option.map_eq_some_iff.mp hlog
  rw [← hfst]
  exact ⟨r.2, fsCalls_run (.mounted rfl) hrun⟩

theorem twoHandles_reports : Reports (fun _ => [aInfo]) twoHandlesLog := by
  intro h dir a hmem
  simp only [twoHandlesLog, List.mem_cons, Event.asked.injEq, reduceCtorEq, List.not_mem_nil,
    or_false, false_or] at hmem
  rcases hmem with ⟨-, -, rfl⟩ | ⟨-, -, rfl⟩ | ⟨-, -, rfl⟩ <;> exact List.prefix_refl _

theorem enumeration_in_order_two :
    (stretch twoHandlesLog).2 <+: [aInfo] ∧
    ∀ ev earlier, twoHandlesLog = ev :: earlier →
      EndsAfterAll (fun _ => [aInfo]) (stretch twoHandlesLog) ev := by
  obtain ⟨s, hrun⟩ := twoHandles_run
  exact enumeration_in_order hrun twoHandles_reports

/-- The second handle is told the end without having been given anything, and an open gives
the first one its entry again. -/
theorem handles_share_cursor :
    (∃ s, FsRun kibVolume calmEnv twoHandlesLog s) ∧ Reports (fun _ => [aInfo]) twoHandlesLog ∧
      returnedOn 1 twoHandlesLog = [aInfo, aInfo] ∧ returnedOn 2 twoHandlesLog = [] ∧
      .asked 2 5 ⟨statusNoMoreFiles, none, [aInfo]⟩ ∈ twoHandlesLog :=
  ⟨twoHandles_run, twoHandles_reports, by decide, by decide, by decide⟩

end MeuOS.Ntfs
