import Mathlib.Data.List.TakeWhile
import MeuOS.Lib.Run
import MeuOS.Ntfs.NodeEdit
import MeuOS.Ntfs.ReadBack

/-! A directory as a list of entries: what a listing gives of a record whose index is all in its `$INDEX_ROOT`, and what
the edits make of it, whatever their order. -/
namespace MeuOS.Ntfs

open MeuOS.Lib

/-- The `$INDEX_ROOT` is the last attribute, and there is no other index. -/
structure DirRecord (v : Volume) (m : Mem) (init : List Nat) (a : Nat) (es : List Nat) (x e : Nat) : Prop extends
    IndexLast v m init a es x e where
  only : ∀ b ∈ init, attrType m b ≠ attrIndexRoot ∧ attrType m b ≠ attrIndexAllocation
  keys : ∀ b ∈ es, KeyFits m b

/-- The record an entry refers to, and what it is reported as, if it is. -/
structure DirEntry where
  child : Nat
  info : Option FileInfo
deriving DecidableEq

def dirEntry (m : Mem) (stop b : Nat) : DirEntry := ⟨entryRef m b, entryInfo m stop b⟩

def dirEntries (m : Mem) (es : List Nat) (x : Nat) : List DirEntry := es.map (dirEntry m (x + entryLen m x))

/-- The record is a directory of these entries. -/
def IsDir (v : Volume) (m : Mem) (E : List DirEntry) : Prop :=
  ∃ init a es x e, DirRecord v m init a es x e ∧ dirEntries m es x = E

/-- The entry of a new file; what cannot be printed of its name is reported as `?`. -/
def newEntry (childRef : Nat) (name : List UInt8) (isDir : Bool) (real : Nat) : DirEntry :=
  let shown := name.map fun c => asciiChar c.toNat
  ⟨childRef % 2 ^ 48, if name = [] ∨ shown = [0x2E] then none
    else some ⟨childRef % 2 ^ 48, isDir, if isDir then 0 else real, shown⟩⟩

variable {v : Volume} {env : Env} {m m' : Mem} {init es : List Nat} {a x e : Nat}

/-! ## Entries that are moved -/

section Moved

variable {lo hi stop stop' : Nat} (h : Plain m lo es hi) (hkeys : ∀ b ∈ es, KeyFits m b) (hstop : hi ≤ stop)
include h hkeys hstop

theorem Plain.moved {lo' : Nat} (hsame : m.SameAt lo m' lo' (hi - lo)) (hstop' : lo' + (hi - lo) ≤ stop') :
    let es' := es.map fun b => lo' + (b - lo)
    es'.map (dirEntry m' stop') = es.map (dirEntry m stop) ∧ ∀ b ∈ es', KeyFits m' b := by
  intro es'
  have hentry : ∀ b ∈ es, m.SameAt b m' (lo' + (b - lo)) (entryLen m b) ∧ 0x10 + keyLen m b ≤ entryLen m b := by
    intro b hb
    obtain ⟨hlo, hlong, hhi⟩ := h.mem hb
    have hskip := hsame.skip (b - lo)
    rw [Nat.add_sub_cancel' hlo] at hskip
    exact ⟨hskip.mono (by omega), hlong⟩
  constructor
  · rw [List.map_map]
    apply List.map_congr_left
    intro b hb
    obtain ⟨hlo, hlong, hhi⟩ := h.mem hb
    have hinfo : entryInfo m' stop' (lo' + (b - lo)) = entryInfo m stop b :=
      entryInfo_same (hkeys b hb) (hentry b hb).1 hlong (by omega) (by omega)
    show dirEntry m' stop' (lo' + (b - lo)) = _
    unfold dirEntry
    rw [(entry_same (hentry b hb).1 (by omega)).1, hinfo]
  · intro b' hb'
    obtain ⟨b, hb, rfl⟩ := List.mem_map.1 hb'
    exact (hkeys b hb).same (hentry b hb).1 (hentry b hb).2

theorem Plain.stayed (hagree : Mem.Agree m m' lo hi) (hstop' : hi ≤ stop') :
    es.map (dirEntry m' stop') = es.map (dirEntry m stop) ∧ ∀ b ∈ es, KeyFits m' b := by
  have hle := h.le
  have hend : lo + (hi - lo) ≤ stop' := by omega
  have hmoved := h.moved hkeys hstop (hagree.sameAt (Nat.le_refl lo) (by omega)) hend
  have hplace : (es.map fun b => lo + (b - lo)) = es := by
    refine (List.map_congr_left fun b hb => ?_).trans (List.map_id es)
    exact Nat.add_sub_cancel' (h.mem hb).1
  rwa [hplace] at hmoved

end Moved

/-! ## Finding and listing -/

theorem filter_matches_last (type : Nat) (hinit : ∀ b ∈ init, attrType m b ≠ type) (nameI30 : Bool) :
    (init ++ [a]).filter (attrMatches v m type nameI30) = if attrMatches v m type nameI30 a then [a] else [] := by
  have hnone : init.filter (attrMatches v m type nameI30) = [] := by
    apply List.filter_eq_nil_iff.2
    intro b hb hmatch
    unfold attrMatches at hmatch
    exact hinit b hb (of_decide_eq_true (Bool.and_eq_true _ _ ▸ hmatch).1)
  rw [List.filter_append, hnone, List.nil_append, List.filter_singleton, Bool.cond_eq_ite]

namespace DirRecord

variable (h : DirRecord v m init a es x e)
include h

theorem root : findIndexRoot v m = some (some a) := by
  have hinit : ∀ b ∈ init, attrType m b ≠ attrIndexRoot := fun b hb => (h.only b hb).1
  have hplain : attrMatches v m attrIndexRoot false a = true := by
    unfold attrMatches
    rw [h.type]
    rfl
  unfold findIndexRoot
  rw [h.wf.find, h.wf.find, filter_matches_last _ hinit, filter_matches_last _ hinit, if_pos hplain]
  split <;> rfl

theorem residentRoot : residentIndexRoot v m = some (some a) := by
  unfold residentIndexRoot
  rw [h.root, Option.map_some, Option.filter_some, h.res]
  rfl

theorem noAllocation : findIndexAllocation v m = some none := by
  have hnone : ∀ nameI30, (init ++ [a]).filter (attrMatches v m attrIndexAllocation nameI30) = [] := by
    intro nameI30
    rw [filter_matches_last _ fun b hb => (h.only b hb).2]
    unfold attrMatches
    rw [h.type]
    rfl
  unfold findIndexAllocation
  rw [h.wf.find, h.wf.find, hnone, hnone]
  rfl

/-- A record that differs in its update sequence array only is the same directory. -/
theorem of_same (hsame : SameRecord v m m') :
    DirRecord v m' init a es x e ∧ dirEntries m' es x = dirEntries m es x ∧ ∀ name,
      enteredEnd m' a name = enteredEnd m a name := by
  obtain ⟨hlow, -, hmarker, hinside, hsize, hheader, hcontent, hnode, hfirst, hentries, hendLen, hused, hroom⟩ :=
    h.layout
  have hmem := h.wf.mem (mem_last init a)
  have hbody : Mem.Agree m m' a v.mftRecordSize := (h.wf.same hsame).2.mono hmem.1 (Nat.le_refl _)
  have hattrs : ∀ b ∈ init ++ [a], Mem.Agree m m' b (b + 24) := fun b hb => (h.wf.same_attr hsame hb).2
  obtain ⟨htype, -, hres, hclen, hcoff⟩ := attr_congr (hattrs a (mem_last init a))
  have hnodeEq : indexNode m' a = indexNode m a := by
    unfold indexNode attrResidentData
    rw [hcoff]
  have hread : ∀ o, indexNode m a ≤ o → o + 4 ≤ v.mftRecordSize → m'.rd32 o = m.rd32 o := fun o hlo hhi =>
    Mem.read_congr (hbody.mono (by omega) hhi).symm
  have hfirstEq : firstEntry m' a = firstEntry m a := by
    unfold firstEntry
    rw [hnodeEq, hread _ (Nat.le_refl _) (by omega)]
  have husedEq : totalUsed m' a = totalUsed m a := by
    unfold totalUsed
    rw [hnodeEq, hread _ (by omega) (by omega)]
  have hendSame : m.SameAt x m' x (entryLen m x) := hbody.sameAt (by omega) (by omega)
  have hendEq := (entry_same hendSame hendLen).2.1
  have hkept : Mem.Agree m m' (firstEntry m a) x := hbody.mono (by omega) (by omega)
  obtain ⟨hlist, hkeys⟩ := h.node.toPlain.stayed h.keys (Nat.le_add_right x (entryLen m x)) hkept
    (Nat.le_add_right x (entryLen m' x))
  have hplain : Plain m' (firstEntry m' a) es x := hfirstEq ▸ h.node.toPlain.keep hkept
  refine ⟨⟨⟨h.wf.of_same hsame, ?_, hres.trans h.res, htype.trans h.type⟩, fun b hb => ?_, hkeys⟩, hlist, fun name => ?_⟩
  · exact { hplain, h.node.toIsEnd.copy hendSame hendLen with
      behind := by rw [hnodeEq, hfirstEq]; exact hfirst
      used := by rw [hendEq, hnodeEq, husedEq]; exact hused
      inside := by rw [hclen, husedEq]; exact hroom }
  · rw [(attr_congr (hattrs b (List.mem_append_left _ hb))).1]
    exact h.only b hb
  · unfold enteredEnd indexLen
    rw [hclen, hcoff]

/-- A listing of the directory, whatever the drive and the heap do. -/
theorem lists (hgeo : Geometry v) (hmounted : v.mounted) {s : Sys} {no : Nat} (hholds : Holds v s no m) (env : Env) :
    ∃ infos s', ntfsListDir v env no s = some (infos, s') ∧
      (infos = [] ∨ infos = (dirEntries m es x).filterMap DirEntry.info) ∧
      (env.noMem s.allocs = false → (∀ n, env.diskFails n = false) →
        infos = (dirEntries m es x).filterMap DirEntry.info) := by
  obtain ⟨rec, n, k, hload, hsame, -, hok⟩ := loadRecord_spec hgeo env h.wf.file h.wf.usa hholds
  unfold ntfsListDir
  rw [if_neg (not_not_intro hmounted), hload, Option.bind_some]
  cases rec with
  | none =>
    refine ⟨[], _, rfl, .inl rfl, fun hmem hdisk => ?_⟩
    obtain ⟨m', heq⟩ := hok hmem hdisk
    cases heq
  | some m' =>
    obtain ⟨h', heq, -⟩ := h.of_same (hsame m' rfl)
    have hlist : listIndexRoot v m' = some ((dirEntries m es x).filterMap DirEntry.info) := by
      rw [h'.node.list h'.root h'.res, ← heq]
      unfold nodeInfos dirEntries
      rw [List.filterMap_map]
      rfl
    unfold listIndexAllocation
    dsimp only
    rw [hlist, Option.bind_some, h'.noAllocation, Option.bind_some, Option.map_some, List.append_nil]
    exact ⟨_, _, rfl, .inr rfl, fun _ _ => rfl⟩

end DirRecord

/-! ## The new entry -/

theorem read_put_of_disjoint (m : Mem) {o n i : Nat} (b : UInt8) (h : i < o ∨ o + n ≤ i) :
    (m.put i b).read o n = m.read o n :=
  Mem.read_congr fun j hlo hhi => Mem.put_other m b (by omega)

theorem asciiChar_ne_zero {c : UInt8} (hc : c ≠ 0) : asciiChar c.toNat ≠ 0 := by
  have hzero : c.toNat ≠ 0 := fun h => hc (UInt8.toNat_inj.1 h)
  unfold asciiChar
  rw [if_neg hzero, UInt8.ofNat_toNat]
  split
  · exact hc
  · decide

/-- A name is read as it was written, but for the characters that cannot be printed. -/
theorem utf16ToAscii_asciiToUtf16 (out : Mem) (o : Nat) {name : List UInt8} (hlen : name.length ≤ ntfsMaxName)
    (hname : 0 ∉ name) :
    utf16ToAscii (asciiToUtf16 out o name) o name.length = name.map fun c => asciiChar c.toNat := by
  have hread : ∀ i (hi : i < name.length), (asciiToUtf16 out o name).rd16 (o + i * 2) = name[i].toNat := by
    intro i hi
    have hlow : asciiToUtf16 out o name (o + i * 2) = name[i] := by
      unfold asciiToUtf16
      rw [Mem.blit_inside _ _ (by omega) (by omega), if_pos (by omega), show (o + i * 2 - o) / 2 = i by omega]
      simp [hi]
    have hhigh : asciiToUtf16 out o name (o + i * 2 + 1) = 0 := by
      unfold asciiToUtf16
      rw [Mem.blit_inside _ _ (by omega) (by omega), if_neg (by omega)]
    show (asciiToUtf16 out o name (o + i * 2)).toNat +
      256 * ((asciiToUtf16 out o name (o + i * 2 + 1)).toNat + 256 * 0) = _
    rw [hlow, hhigh]
    rfl
  have hmap : (List.range (min name.length ntfsMaxName)).map
      (fun i => asciiChar ((asciiToUtf16 out o name).rd16 (o + i * 2))) = name.map fun c => asciiChar c.toNat := by
    rw [Nat.min_eq_left hlen]
    apply List.ext_getElem
    · rw [List.length_map, List.length_range, List.length_map]
    · intro i hi hi'
      rw [List.length_map] at hi'
      rw [List.getElem_map, List.getElem_range, List.getElem_map, hread i hi']
  unfold utf16ToAscii
  rw [hmap]
  apply List.takeWhile_eq_self_iff.2
  intro c hc
  obtain ⟨c', hc', rfl⟩ := List.mem_map.1 hc
  exact bne_iff_ne.2 (asciiChar_ne_zero fun hzero => hname (hzero ▸ hc'))

/-- An entry with a key that was built is reported as what was asked for. -/
theorem builtKey_reported {childRef parentRef real alloc stop : Nat} {name : List UInt8} {isDir : Bool} {out key : Mem}
    (hkey : buildFilenameContent 320 parentRef name (if isDir then fileAttrDirectory else fileAttrArchive)
      (if isDir then 0 else real) alloc out = some key)
    (hlen : filenameLen name ≤ 320) (hname : 0 ∉ name) (hreal : real < 2 ^ 64)
    (hsame : key.SameAt 0 m (x + 0x10) (filenameLen name)) (hklen : keyLen m x = filenameLen name)
    (href : entryRef m x = childRef % 2 ^ 48) (hstop : x + 0x10 + filenameLen name ≤ stop) :
    dirEntry m stop x = newEntry childRef name isDir real ∧ KeyFits m x := by
  have hcount : name.length ≤ 127 := by
    unfold filenameLen at hlen
    omega
  have hsize : (if isDir then 0 else real) < 256 ^ 8 := by split <;> omega
  unfold buildFilenameContent at hkey
  rw [if_neg (Nat.not_lt.2 hlen)] at hkey
  obtain ⟨hcounted, hspace, hbytes, hdir⟩ := fileName_same hsame (Nat.le_add_right _ _)
  have hchars : key.SameAt (0 + 0x42) m (x + 0x10 + 0x42) (2 * name.length) :=
    (hsame.skip 0x42).mono (by unfold filenameLen; omega)
  have hshown := utf16ToAscii_same hchars
  cases hkey
  rw [Nat.zero_add, utf16ToAscii_asciiToUtf16 _ _ (by unfold ntfsMaxName; omega) hname] at hshown
  unfold asciiToUtf16 at hcounted hspace hbytes hdir
  simp (disch := omega) only [fnNameLen, fnNamespace, fnRealSize, fnIsDir, Nat.zero_add, Mem.rd64, Mem.rd32,
    Mem.blit_outside, Mem.put_other, Mem.put_same, Mem.read_blit_of_disjoint, read_put_of_disjoint,
    Mem.read_write_of_disjoint, Mem.read_write_same] at hcounted hspace hbytes hdir
  have hcount' : fnNameLen m (x + 0x10) = name.length := by
    refine hcounted.trans ?_
    rw [UInt8.toNat_ofNat']
    exact Nat.mod_eq_of_lt (by omega)
  have hspace' : fnNamespace m (x + 0x10) = 3 := hspace
  have hsize' : fnRealSize m (x + 0x10) = if isDir then 0 else real := hbytes.trans (Nat.mod_eq_of_lt hsize)
  have hdir' : fnIsDir m (x + 0x10) = isDir := hdir.trans (by cases isDir <;> rfl)
  have hopen : ¬(keyLen m x < 0x42 ∨ stop < x + 0x10 + keyLen m x) := by
    rw [hklen]
    unfold filenameLen at hstop ⊢
    omega
  refine ⟨?_, fun _ => ?_⟩
  · unfold dirEntry newEntry entryInfo
    dsimp only
    rw [if_neg hopen, hspace', hcount', hsize', hdir', href, hshown]
    by_cases hempty : name = []
    · rw [if_pos (.inr (List.length_eq_zero_iff.2 hempty)), if_pos (.inl hempty)]
    · rw [if_neg (by simp [hempty])]
      by_cases hdot : (name.map fun c => asciiChar c.toNat) = [0x2E]
      · rw [if_pos hdot, if_pos (.inr hdot)]
      · rw [if_neg hdot, if_neg (not_or.2 ⟨hempty, hdot⟩)]
        cases isDir <;> rfl
  · rw [hcount', hklen]
    exact Nat.le_refl _

/-! ## The edits -/

theorem DirRecord.only_below (h : DirRecord v m init a es x e) (hbelow : ∀ j < a, ¬(0x18 ≤ j ∧ j < 0x1C) → m' j = m j) :
    ∀ b ∈ init, attrType m' b ≠ attrIndexRoot ∧ attrType m' b ≠ attrIndexAllocation := by
  intro b hb
  obtain ⟨mid, hinit, rfl, -⟩ := span_append.1 h.wf.span
  have hplace := span_mem hinit hb
  have hlong := h.wf.header b (List.mem_append_left _ hb)
  have hlow := h.wf.low
  have htype : attrType m' b = attrType m b := Mem.read_congr fun j hlo hhi => hbelow j (by omega) (by omega)
  rw [htype]
  exact h.only b hb

/-- A new entry goes behind the others, unless the record has no room. -/
theorem DirRecord.insert {childRef real : Nat} {name : List UInt8} {isDir : Bool} (h : DirRecord v m init a es x e)
    (hlen : filenameLen name ≤ 320) (hname : 0 ∉ name) (hreal : real < 2 ^ 64) (parent : Nat) (stack : Mem) :
    ∃ r, insertEntry v m a parent childRef name isDir real stack = some r ∧
      (r = none ↔ ¬enteredEnd m a name + 8 ≤ v.mftRecordSize) ∧
      ∀ m', r = some m' → IsDir v m' (dirEntries m es x ++ [newEntry childRef name isDir real]) := by
  obtain ⟨built, hbuilt, hins⟩ := insertEntry_eq h.toIndexLast hlen parent childRef isDir real stack
  refine ⟨_, hins, ?_, fun m' hm' => ?_⟩
  · simp
  · obtain ⟨hfit, hm'⟩ := Option.ite_none_left_eq_some.1 hm'
    cases hm'
    have hent := enterEntry_spec h.toIndexLast hlen childRef built (Nat.not_lt.1 hfit)
    have hlast := hent.last
    have hend := hlast.node.lastLen
    have hentry := entryLenFor_eq hlen
    let stop := x + entryLenFor name + entryLen (enterEntry m a x childRef built name) (x + entryLenFor name)
    have hkeyEnd : x + 0x10 + filenameLen name ≤ stop := by omega
    have hbefore : x ≤ stop := by omega
    obtain ⟨hold, hkeys⟩ := h.node.toPlain.stayed h.keys (Nat.le_add_right x (entryLen m x)) hent.kept hbefore
    obtain ⟨hnew, hkey⟩ := builtKey_reported hbuilt hlen hname hreal hent.key hent.keyLen hent.ref hkeyEnd
    refine ⟨init, a, es ++ [x], _, _, ⟨hlast, h.only_below hent.below, fun b hb => ?_⟩, ?_⟩
    · rcases List.mem_append.1 hb with hb | hb
      · exact hkeys b hb
      · rwa [List.mem_singleton.1 hb]
    · unfold dirEntries
      rw [List.map_append, hold, List.map_singleton, hnew]

/-- The first entry of a child goes, if there is one. -/
theorem DirRecord.remove (h : DirRecord v m init a es x e) (child : Nat) :
    (removeEntry v m a child = none ↔ ¬∃ d ∈ dirEntries m es x, d.child = child) ∧
      ∀ m', removeEntry v m a child = some m' →
        IsDir v m' ((dirEntries m es x).eraseP fun d => d.child = child) := by
  rw [removeEntry_eq h.toIndexLast]
  constructor
  · unfold dirEntries dirEntry
    simp
  · intro m' hm'
    obtain ⟨hit, hfind, rfl⟩ := Option.map_eq_some_iff.1 hm'
    obtain ⟨hhit, before, after, rfl, hnone⟩ := List.find?_eq_some_iff_append.1 hfind
    have hleft := leaveEntry_spec h.toIndexLast
    obtain ⟨at', hbefore, hrest⟩ := h.node.toPlain.split
    obtain ⟨rfl, -, hlong, hafter⟩ := hrest.tail
    have hle := hafter.le
    let last := hit + (x - (hit + entryLen m hit))
    let stop := last + entryLen (leaveEntry m a hit) last
    have hfront : hit ≤ stop := by omega
    have hback : last ≤ stop := by omega
    have hhit' : hit ≤ x + entryLen m x := by omega
    obtain ⟨hold, hfits⟩ := hbefore.stayed (fun b hb => h.keys b (List.mem_append_left _ hb)) hhit' hleft.kept hfront
    obtain ⟨hnew, hfits'⟩ := hafter.moved (fun b hb => h.keys b (List.mem_append_right _ (List.mem_cons_of_mem _ hb)))
      (Nat.le_add_right x (entryLen m x)) (hleft.moved.mono (by omega)) hback
    refine ⟨init, a, _, _, _, ⟨hleft.last, h.only_below hleft.below, fun b hb => ?_⟩, ?_⟩
    · rcases List.mem_append.1 hb with hb | hb
      · exact hfits b hb
      · exact hfits' b hb
    · unfold dirEntries
      have hfirst : decide ((dirEntry m (x + entryLen m x) hit).child = child) = true := hhit
      rw [List.map_append, hold, hnew, List.map_append, List.map_cons, List.eraseP_append_right _ ?_,
        List.eraseP_cons_of_pos (p := fun d : DirEntry => d.child = child) hfirst]
      intro d hd hmatch
      obtain ⟨b, hb, rfl⟩ := List.mem_map.1 hd
      have hother := hnone b hb
      rw [show decide (entryRef m b = child) = true from hmatch] at hother
      cases hother

/-- On the disk the record is a directory of these entries. -/
def HoldsDir (v : Volume) (s : Sys) (no : Nat) (E : List DirEntry) : Prop := ∃ m, Holds v s no m ∧ IsDir v m E

/-! ## Runs -/

inductive DirCall
  | insert (childRef : Nat) (name : List UInt8) (isDir : Bool) (real : Nat) (stack : Mem)
  | remove (child : Nat)

/-- What a call that succeeds makes of the entries. -/
def DirCall.done (E : List DirEntry) : DirCall → List DirEntry
  | .insert childRef name isDir real _ => E ++ [newEntry childRef name isDir real]
  | .remove child => E.eraseP fun d => d.child = child

/-- The record has room, or the entry is there. -/
def DirCall.Possible (v : Volume) (m : Mem) (E : List DirEntry) : DirCall → Prop
  | .insert _ name .. => ∃ a, residentIndexRoot v m = some (some a) ∧ enteredEnd m a name + 8 ≤ v.mftRecordSize
  | .remove child => ∃ d ∈ E, d.child = child

/-- The key of a new entry fits where it is built. -/
def DirCall.Fits : DirCall → Prop
  | .insert _ name _ real _ => filenameLen name ≤ 320 ∧ 0 ∉ name ∧ real < 2 ^ 64
  | .remove _ => True

/-- What the calls have made of the entries, the latest first. -/
def entriesAfter (E : List DirEntry) : List (DirCall × Int) → List DirEntry
  | [] => E
  | (call, r) :: hist => if r = 0 then call.done (entriesAfter E hist) else entriesAfter E hist

structure DirWorld where
  sys : Sys
  hist : List (DirCall × Int)

def dirCall (v : Volume) (env : Env) (dir : Nat) (s : Sys) : DirCall → Option (Int × Sys)
  | .insert childRef name isDir real stack => ntfsIndexInsert v env dir childRef name isDir real stack s
  | .remove child => ntfsIndexRemove v env dir child s

def dirStep (v : Volume) (env : Env) (dir : Nat) (w : DirWorld) (call : DirCall) : Option DirWorld :=
  (dirCall v env dir w.sys call).map fun (r, s) => ⟨s, (call, r) :: w.hist⟩

def DirReach (v : Volume) (env : Env) (dir : Nat) (s₀ : Sys) : DirWorld → Prop :=
  Reach (fun w => w = ⟨s₀, []⟩) (fun w call w' => dirStep v env dir w call = some w') fun _ call => call.Fits

/-- The disk has the entries that the answers tell of. -/
def EntriesHeld (v : Volume) (dir : Nat) (E : List DirEntry) (w : DirWorld) : Prop :=
  HoldsDir v w.sys dir (entriesAfter E w.hist)

section Runs

variable (hgeo : Geometry v) (hmounted : v.mounted) (hdisk : ∀ n, env.diskFails n = false)
include hgeo hmounted hdisk

/-- An edit is refused, or what it makes of the record is written. -/
theorem editIndex_spec {no : Nat} {s : Sys} {E : List DirEntry} {ok : Prop} (h : DirRecord v m init a es x e)
    (hholds : Holds v s no m) (edit : Mem → Nat → Option (Option Mem))
    (hedit : ∀ m', SameRecord v m m' → ∃ r, edit m' a = some r ∧ (r = none ↔ ¬ok) ∧
      ∀ m'', r = some m'' → IsDir v m'' E) :
    ∃ r s', editIndex v env no edit s = some (r, s') ∧ (r = 0 ↔ env.noMem s.allocs = false ∧ ok) ∧
      HoldsDir v s' no (if r = 0 then E else dirEntries m es x) := by
  obtain ⟨rec, n, k, hload, hsame, hnomem, hok⟩ := loadRecord_spec hgeo env h.wf.file h.wf.usa hholds
  have hstill : HoldsDir v { s with transfers := n, allocs := k } no (dirEntries m es x) :=
    ⟨m, hholds, init, a, es, x, e, h, rfl⟩
  unfold editIndex
  rw [hload, Option.bind_some]
  cases rec with
  | none =>
    refine ⟨-1, _, rfl, ⟨nofun, fun hr => ?_⟩, hstill⟩
    obtain ⟨m', heq⟩ := hok hr.1 hdisk
    cases heq
  | some m' =>
    have hmem : env.noMem s.allocs = false := Bool.eq_false_iff.2 fun hno => nomatch hnomem hno
    obtain ⟨r, hrun, hnone, hdir⟩ := hedit m' (hsame m' rfl)
    dsimp only
    rw [(h.of_same (hsame m' rfl)).1.residentRoot, Option.bind_some]
    dsimp only
    rw [hrun, Option.bind_some]
    cases r with
    | none => exact ⟨-1, _, rfl, ⟨nofun, fun hr => absurd hr.2 (hnone.1 rfl)⟩, hstill⟩
    | some m'' =>
      have hisDir := hdir m'' rfl
      obtain ⟨_, _, _, _, _, h'', -⟩ := hisDir
      obtain ⟨r, image, s', hwrite, -, -, -, hholds', hwrote⟩ := ntfsWriteMftRecord_spec hgeo hmounted env no
        h''.wf.file h''.wf.usa { s with transfers := n, allocs := k }
      obtain rfl := hwrote hdisk
      dsimp only
      rw [hwrite]
      exact ⟨0, s', rfl, ⟨fun _ => ⟨hmem, by_contra fun hno => nomatch hnone.2 hno⟩, fun _ => rfl⟩, m'', hholds' rfl,
        hdir m'' rfl⟩

theorem dirCall_spec {no : Nat} {s : Sys} {E : List DirEntry} (hholds : Holds v s no m) (hdir : IsDir v m E)
    {call : DirCall} (hfits : call.Fits) :
    ∃ r s', dirCall v env no s call = some (r, s') ∧ (r = 0 ↔ env.noMem s.allocs = false ∧ call.Possible v m E) ∧
      HoldsDir v s' no (if r = 0 then call.done E else E) := by
  obtain ⟨init, a, es, x, e, h, rfl⟩ := hdir
  cases call with
  | insert childRef name isDir real stack =>
    obtain ⟨hlen, hname, hreal⟩ := hfits
    have hroom : DirCall.Possible v m (dirEntries m es x) (.insert childRef name isDir real stack) ↔
        enteredEnd m a name + 8 ≤ v.mftRecordSize := by
      unfold DirCall.Possible
      rw [h.residentRoot]
      simp
    rw [hroom]
    refine editIndex_spec hgeo hmounted hdisk h hholds _ fun m' hsame => ?_
    obtain ⟨h', heq, hend⟩ := h.of_same hsame
    rw [← heq, ← hend]
    exact h'.insert hlen hname hreal no stack
  | remove child =>
    refine editIndex_spec hgeo hmounted hdisk h hholds _ fun m' hsame => ?_
    obtain ⟨h', heq, -⟩ := h.of_same hsame
    rw [← heq]
    exact ⟨_, rfl, h'.remove child⟩

/-- After every run of insertions and removals, whichever allocations failed, the directory on the disk has the entries
that the answers tell of, and a listing gives them; the next call fails if there is no memory, the record has no room or
the entry is not there, and only then. -/
theorem directory_lists {dir : Nat} {s₀ : Sys} {E : List DirEntry} (hstart : HoldsDir v s₀ dir E) {w : DirWorld}
    (hrun : DirReach v env dir s₀ w) :
    EntriesHeld v dir E w ∧
      (∀ env, ∃ infos s', ntfsListDir v env dir w.sys = some (infos, s') ∧
        (infos = [] ∨ infos = (entriesAfter E w.hist).filterMap DirEntry.info) ∧
        (Calm env → infos = (entriesAfter E w.hist).filterMap DirEntry.info)) ∧
      ∀ m, Holds v w.sys dir m → IsDir v m (entriesAfter E w.hist) → ∀ call : DirCall, call.Fits →
        ∃ r s', dirStep v env dir w call = some ⟨s', (call, r) :: w.hist⟩ ∧
          (r = 0 ↔ env.noMem w.sys.allocs = false ∧ call.Possible v m (entriesAfter E w.hist)) := by
  have hinv : EntriesHeld v dir E w := by
    refine hrun.invariant (fun w hw => hw ▸ hstart) fun w call w' ⟨m, hholds, hdir⟩ hfits hstep => ?_
    obtain ⟨r, s', hcall, -, hdone⟩ := dirCall_spec hgeo hmounted hdisk hholds hdir hfits
    unfold dirStep at hstep
    rw [hcall] at hstep
    cases hstep
    exact hdone
  refine ⟨hinv, fun env => ?_, fun m hholds hdir call hfits => ?_⟩
  · obtain ⟨m, hholds, init, a, es, x, e, h, heq⟩ := hinv
    obtain ⟨infos, s', hlist, hsome, hall⟩ := h.lists hgeo hmounted hholds env
    rw [heq] at hsome hall
    exact ⟨infos, s', hlist, hsome, fun hcalm => hall (hcalm.mem _) hcalm.disk⟩
  · obtain ⟨r, s', hcall, hiff, -⟩ := dirCall_spec hgeo hmounted hdisk hholds hdir hfits
    exact ⟨r, s', Option.map_eq_some_iff.2 ⟨_, hcall, rfl⟩, hiff⟩

end Runs

/-! ## A directory with one file -/

/-- A record whose one attribute is an empty index. -/
def emptyDirectory : Mem :=
  let root := buildResidentAttr 640 attrIndexRoot (buildEmptyIndexRoot kibVolume fun _ => 0) 48 [] fun _ => 0
  writeEnd (helloRecord.blit 0x38 0x48 (root.getD fun _ => 0)) 0x80

theorem emptyDirectory_dir : IsDir kibVolume emptyDirectory [] := by
  have hwf : RecordWf kibVolume emptyDirectory ([] ++ [0x38]) 0x80 :=
    { span := ⟨by decide +kernel, by decide +kernel,
        show 0x38 + attrLen emptyDirectory 0x38 = 0x80 by decide +kernel⟩
      type := by decide +kernel
      header := by decide +kernel
      marker := by decide +kernel
      inside := by decide
      used := by decide +kernel
      file := by decide +kernel
      usa := helloRecord_wf.usa.congr fun i _ hi =>
        ((writeEnd_outside _ (by omega) (by omega)).trans (Mem.blit_outside _ _ (by omega))).symm
      usaPlace := by decide +kernel
      low := by decide +kernel
      aligned := by decide
      resident := by decide +kernel }
  have hnode : NodeWf emptyDirectory 0x38 [] 0x70 :=
    { span := show firstEntry emptyDirectory 0x38 = 0x70 by decide +kernel
      plain := nofun
      key := nofun
      last := by decide +kernel
      lastLen := by decide +kernel
      behind := by decide +kernel
      used := by decide +kernel
      inside := by decide +kernel }
  exact ⟨[], 0x38, [], 0x70, 0x80, ⟨⟨hwf, hnode, by decide +kernel, by decide +kernel⟩, nofun, nofun⟩, rfl⟩

def rootSys : Sys :=
  match ntfsWriteMftRecord kibVolume calmEnv 5 emptyDirectory blankSys with
  | some (_, _, s) => s
  | none => blankSys

theorem rootSys_holds : Holds kibVolume rootSys 5 emptyDirectory := by
  obtain ⟨_, _, _, _, _, h, -⟩ := emptyDirectory_dir
  obtain ⟨r, image, s', hrun, -, -, -, hholds, hok⟩ := ntfsWriteMftRecord_spec kibVolume_geometry rfl
    calmEnv 5 h.wf.file h.wf.usa blankSys
  unfold rootSys
  rw [hrun]
  exact hholds (hok fun _ => rfl)

theorem directory_lists_file : ∃ w, DirReach kibVolume calmEnv 5 rootSys w ∧
    HoldsDir kibVolume w.sys 5 [⟨27, some ⟨27, false, 2, [0x41]⟩⟩] := by
  have hstart : HoldsDir kibVolume rootSys 5 [] := ⟨_, rootSys_holds, emptyDirectory_dir⟩
  have hfits : DirCall.Fits (.insert 27 [0x41] false 2 fun _ => 0) := ⟨by decide, by decide, by decide⟩
  have hfirst : DirReach kibVolume calmEnv 5 rootSys ⟨rootSys, []⟩ := .start rfl
  obtain ⟨-, -, hnext⟩ := directory_lists kibVolume_geometry rfl (fun _ => rfl) hstart hfirst
  obtain ⟨r, s', hstep, hr⟩ := hnext _ rootSys_holds emptyDirectory_dir _ hfits
  obtain rfl := hr.2 ⟨rfl, 0x38, by decide +kernel, by decide +kernel⟩
  have hreach := hfirst.step hfits hstep
  obtain ⟨hheld, -⟩ := directory_lists kibVolume_geometry rfl (fun _ => rfl) hstart hreach
  exact ⟨_, hreach, hheld⟩

end MeuOS.Ntfs
