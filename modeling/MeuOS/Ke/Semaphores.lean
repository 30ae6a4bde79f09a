import Mathlib.Algebra.Ring.Int.Defs
import MeuOS.Ke.WaitRuns

/-! The counts of semaphores. A wait on several objects looks at every signal first and takes
them in a second pass. Between the calls anything may happen that is not about semaphores. -/
namespace MeuOS.Ke

open MeuOS.Lib

inductive WaitType
  | all | any
  deriving DecidableEq, Repr

namespace WaitSys

/-- `sc_consume` of an object. -/
def consume (s : WaitSys) (obj : Nat) : WaitSys := s.setHeader obj (scConsume (s.header obj))

/-- The test of an element of the array. -/
def signalled (s : WaitSys) (obj : Nat) : Bool := obj ≠ 0 ∧ (s.header obj).signalState ≠ 0

end WaitSys

/-- The status, the objects whose signal was taken, and the state. The call never blocks. -/
def keWaitForMultipleObjects (objs : List Nat) (type : WaitType) (s : WaitSys) :
    WaitStatus × List Nat × WaitSys :=
  if s.timers.legacy then (.success, [], s)
  else
    match type with
    | .any =>
        match objs.find? s.signalled with
        | some obj => (.success, [obj], s.consume obj)
        | none => (.success, [], s)
    | .all =>
        if objs.countP s.signalled = objs.length then (.success, objs, objs.foldl WaitSys.consume s)
        else (.success, [], s)

/-- What `KeReleaseSemaphore` returns. -/
def releaseResult (sem : Nat) (s : WaitSys) : Int := if sem = 0 then 0 else (s.header sem).signalState

/-- `ready` are the semaphores that were initialised, with their `Limit`. -/
structure SemWorld where
  sys : WaitSys
  limit : Nat → Int
  ready : Nat → Bool

def SemWorld.count (w : SemWorld) (sem : Nat) : Int := (w.sys.header sem).signalState

inductive SemOp
  | init (sem : Nat) (count limit : Int)
  | release (cur : Tid) (sem : Nat) (adj : Int)
  /-- One pass of the loop of `KeWaitForSingleObject`. -/
  | pass (cur : Tid) (obj : Nat) (timeout : Option Int)
  | multiple (objs : List Nat) (type : WaitType)
  /-- Anything that leaves the semaphores alone. -/
  | other (sys : WaitSys)

def SemStep (w : SemWorld) : SemOp → SemWorld → Prop
  | .init sem count limit, w' =>
      sem ≠ 0 ∧ 0 ≤ count ∧ count ≤ limit ∧ limit < 2 ^ 31 ∧
        w' = { sys := keInitializeSemaphore sem count w.sys
               limit := Function.update w.limit sem limit
               ready := Function.update w.ready sem true }
  | .release cur sem adj, w' =>
      w.ready sem = true ∧ 0 < adj ∧ adj < 2 ^ 31 ∧
        w' = { w with sys := keReleaseSemaphore cur sem adj w.sys }
  | .pass cur obj timeout, w' =>
      obj ≠ 0 ∧ ∃ r, waitPass cur obj timeout w.sys = some r ∧ w' = { w with sys := r.2 }
  | .multiple objs type, w' => w' = { w with sys := (keWaitForMultipleObjects objs type w.sys).2.2 }
  | .other sys, w' =>
      (∀ sem, w.ready sem = true → sys.header sem = w.sys.header sem) ∧ w' = { w with sys := sys }

def SemStart (w : SemWorld) : Prop := ∀ sem, w.ready sem = false

/-- A release stays within the limit. Where all objects of an array are signalled, a semaphore is
named in it no more often than it has units. -/
def SemStepOk (w : SemWorld) : SemOp → Prop
  | .release _ sem adj => w.count sem + adj ≤ w.limit sem
  | .multiple objs .all =>
      w.sys.timers.legacy = true ∨ (∃ obj ∈ objs, w.sys.signalled obj = false) ∨
        ∀ sem, w.ready sem = true → (objs.count sem : Int) ≤ w.count sem
  | _ => True

/-- The objects whose signal a step takes. -/
def SemOp.taken (w : SemWorld) : SemOp → List Nat
  | .pass _ obj _ => if (w.sys.header obj).signalState ≠ 0 then [obj] else []
  | .multiple objs type => (keWaitForMultipleObjects objs type w.sys).2.1
  | _ => []

/-- Every object of the array can be had as often as it is named. -/
def SemWorld.Satisfiable (w : SemWorld) (objs : List Nat) : Prop :=
  ∀ obj ∈ objs, w.sys.signalled obj = true ∧
    (w.ready obj = true → (objs.count obj : Int) ≤ w.count obj)

structure SemBounded (w : SemWorld) : Prop where
  type : ∀ sem, w.ready sem = true → sem ≠ 0 ∧ (w.sys.header sem).type = 5
  count : ∀ sem, w.ready sem = true → 0 ≤ w.count sem ∧ w.count sem ≤ w.limit sem
  limit : ∀ sem, w.ready sem = true → w.limit sem < 2 ^ 31

/-- A release adds what it says and returns what there was; a wait takes one unit for each
naming, and one that cannot have all its objects takes nothing. -/
def SemExact (w : SemWorld) (op : SemOp) (w' : SemWorld) : Prop :=
  match op with
  | .init _ _ _ | .other _ => True
  | .release _ sem adj =>
      releaseResult sem w.sys = w.count sem ∧
        ∀ o, w.ready o = true → w'.count o = w.count o + if o = sem then adj else 0
  | .pass _ _ _ => ∀ sem, w.ready sem = true → w'.count sem = w.count sem - (op.taken w).count sem
  | .multiple objs type =>
      (∀ sem, w.ready sem = true → w'.count sem = w.count sem - (op.taken w).count sem) ∧
        (type = .all → ¬w.Satisfiable objs → ∀ o, w'.sys.header o = w.sys.header o)

/-! ## Headers -/

section Headers

variable {s : WaitSys} {obj sem : Nat}

theorem header_setHeader (s : WaitSys) (obj : Nat) (h : DispatcherHeader) (o : Nat) :
    (s.setHeader obj h).header o = if o = obj then h else s.header o := by
  unfold WaitSys.header WaitSys.setHeader TimerSys.setHeader
  by_cases ho : o = obj
  · rw [if_pos ho, ho]
    exact Function.update_self ..
  · rw [if_neg ho]
    exact Function.update_of_ne ho ..

/-- A unit, if there is one. -/
theorem scConsume_semaphore {h : DispatcherHeader} (htype : h.type = 5) (hcount : 0 ≤ h.signalState) :
    scConsume h = ⟨5, max 0 (h.signalState - 1)⟩ := by
  obtain ⟨type, n⟩ := h
  dsimp only at htype hcount ⊢
  subst htype
  unfold scConsume
  rw [if_neg (by simp), if_pos rfl]
  dsimp only
  split
  · congr 1
    omega
  · congr 1
    omega

/-- One unit for each naming, as long as there are any. -/
theorem consume_all (objs : List Nat) {n : Int} (hsem : s.header sem = ⟨5, n⟩) (hcount : 0 ≤ n) :
    (objs.foldl WaitSys.consume s).header sem = ⟨5, max 0 (n - objs.count sem)⟩ := by
  induction objs generalizing s n with
  | nil =>
    rw [List.foldl_nil, hsem, List.count_nil]
    congr 1
    omega
  | cons obj objs ih =>
    rw [List.foldl_cons]
    by_cases hobj : sem = obj
    · have hfirst : (s.consume obj).header sem = ⟨5, max 0 (n - 1)⟩ := by
        unfold WaitSys.consume
        rw [header_setHeader, if_pos hobj, ← hobj, hsem]
        exact scConsume_semaphore rfl hcount
      rw [ih hfirst (by omega), hobj, List.count_cons_self]
      congr 1
      omega
    · have hfirst : (s.consume obj).header sem = ⟨5, n⟩ := by
        unfold WaitSys.consume
        rw [header_setHeader, if_neg hobj, hsem]
      rw [ih hfirst hcount, List.count_cons_of_ne (Ne.symm hobj)]

theorem waitPass_header {cur : Tid} {timeout : Option Int} {r : Option WaitStatus × WaitSys}
    (hrun : waitPass cur obj timeout s = some r) (o : Nat) : r.2.header o =
      if o = obj ∧ (s.header obj).signalState ≠ 0 then scConsume (s.header obj) else s.header o := by
  unfold waitPass at hrun
  by_cases hsignal : (s.header obj).signalState ≠ 0
  · rw [if_pos hsignal] at hrun
    cases hrun
    change (s.setHeader obj _).header o = _
    rw [header_setHeader]
    exact if_congr (and_iff_left hsignal).symm rfl rfl
  · rw [if_neg hsignal] at hrun
    rw [if_neg fun hboth => hsignal hboth.2]
    split at hrun
    · cases hrun
      rfl
    · split at hrun
      · cases hrun
        rfl
      · obtain ⟨sched, -, rfl⟩ := Option.map_eq_some_iff.1 hrun
        rfl

theorem keReleaseSemaphore_header (cur : Tid) (adj : Int) {n : Int} (hsem : sem ≠ 0)
    (hheader : s.header sem = ⟨5, n⟩) (o : Nat) : (keReleaseSemaphore cur sem adj s).header o =
      if o = sem then ⟨5, Int.bmod (n + adj) 4294967296⟩ else s.header o := by
  have hsignal : (s.signal sem (Int.bmod ((s.header sem).signalState + adj) 4294967296)).header o =
      if o = sem then ⟨5, Int.bmod (n + adj) 4294967296⟩ else s.header o := by
    unfold WaitSys.signal
    rw [header_setHeader, hheader]
  unfold keReleaseSemaphore
  rw [if_neg hsem]
  dsimp only
  split
  · exact hsignal
  · exact hsignal

/-- Adding two counts stays below the limit, or the sum says so. -/
theorem bmod_le_iff {n adj limit : Int} (hn : 0 ≤ n) (hle : n ≤ limit) (hadj : 0 < adj)
    (hadj' : adj < 2 ^ 31) (hlimit : limit < 2 ^ 31) :
    n + adj ≤ limit ↔ 0 ≤ Int.bmod (n + adj) 4294967296 ∧ Int.bmod (n + adj) 4294967296 ≤ limit := by
  unfold Int.bmod
  dsimp only
  split
  · omega
  · omega

theorem bmod_eq {n : Int} (hn : 0 ≤ n) (hlt : n < 2 ^ 31) : Int.bmod n 4294967296 = n := by
  unfold Int.bmod
  dsimp only
  rw [if_pos (by omega)]
  omega

end Headers

/-! ## One step -/

section Step

variable {w w' : SemWorld} {op : SemOp} {objs : List Nat} {sem : Nat}

theorem SemBounded.header (h : SemBounded w) (hsem : w.ready sem = true) :
    w.sys.header sem = ⟨5, w.count sem⟩ := by
  have htype := (h.type sem hsem).2
  unfold SemWorld.count
  rw [← htype]

/-- Bounds are about the headers of the semaphores. -/
theorem SemBounded.of_count (h : SemBounded w) {sys : WaitSys} {n : Nat → Int}
    (hheader : ∀ sem, w.ready sem = true → sys.header sem = ⟨5, n sem⟩) :
    SemBounded { w with sys := sys } ↔ ∀ sem, w.ready sem = true → 0 ≤ n sem ∧ n sem ≤ w.limit sem := by
  have hcount : ∀ sem, w.ready sem = true → (SemWorld.count { w with sys := sys } sem) = n sem :=
    fun sem hsem => congrArg DispatcherHeader.signalState (hheader sem hsem)
  constructor
  · intro h' sem hsem
    rw [← hcount sem hsem]
    exact h'.count sem hsem
  · intro hn
    refine ⟨fun sem hsem => ⟨(h.type sem hsem).1, ?_⟩, fun sem hsem => ?_, h.limit⟩
    · exact congrArg DispatcherHeader.type (hheader sem hsem)
    · rw [hcount sem hsem]
      exact hn sem hsem

theorem semInit_bounded (h : SemBounded w) {count limit : Int} (hsem : sem ≠ 0) (hpos : 0 ≤ count)
    (hle : count ≤ limit) (hlimit : limit < 2 ^ 31) :
    SemBounded { sys := keInitializeSemaphore sem count w.sys
                 limit := Function.update w.limit sem limit
                 ready := Function.update w.ready sem true } := by
  have hheader : ∀ o, (keInitializeSemaphore sem count w.sys).header o =
      if o = sem then ⟨5, count⟩ else w.sys.header o := fun o => by
    unfold keInitializeSemaphore
    rw [if_neg hsem]
    exact header_setHeader w.sys sem _ o
  have hold : ∀ o, o ≠ sem → Function.update w.ready sem true o = true → w.ready o = true :=
    fun o ho hready => by rwa [Function.update_of_ne ho] at hready
  refine ⟨fun o hready => ?_, fun o hready => ?_, fun o hready => ?_⟩
  · rw [hheader]
    by_cases ho : o = sem
    · rw [if_pos ho, ho]
      exact ⟨hsem, rfl⟩
    · rw [if_neg ho]
      exact h.type o (hold o ho hready)
  · unfold SemWorld.count
    dsimp only
    rw [hheader]
    by_cases ho : o = sem
    · rw [if_pos ho, ho, Function.update_self]
      exact ⟨hpos, hle⟩
    · rw [if_neg ho, Function.update_of_ne ho]
      exact h.count o (hold o ho hready)
  · dsimp only
    by_cases ho : o = sem
    · rw [ho, Function.update_self]
      exact hlimit
    · rw [Function.update_of_ne ho]
      exact h.limit o (hold o ho hready)

theorem semRelease_iff (h : SemBounded w) {cur : Tid} {adj : Int} (hsem : w.ready sem = true)
    (hpos : 0 < adj) (hadj : adj < 2 ^ 31) :
    w.count sem + adj ≤ w.limit sem ↔
      SemBounded { w with sys := keReleaseSemaphore cur sem adj w.sys } ∧
        SemExact w (.release cur sem adj) { w with sys := keReleaseSemaphore cur sem adj w.sys } := by
  have hne := (h.type sem hsem).1
  obtain ⟨hlow, hhigh⟩ := h.count sem hsem
  have hlimit := h.limit sem hsem
  have hheader := keReleaseSemaphore_header cur adj hne (h.header hsem)
  have hcounts : ∀ o, w.ready o = true → (keReleaseSemaphore cur sem adj w.sys).header o =
      ⟨5, if o = sem then Int.bmod (w.count sem + adj) 4294967296 else w.count o⟩ := fun o ho => by
    rw [hheader]
    split
    · rfl
    · exact h.header ho
  rw [h.of_count hcounts]
  constructor
  · intro hok
    have hexact : Int.bmod (w.count sem + adj) 4294967296 = w.count sem + adj :=
      bmod_eq (by omega) (by omega)
    refine ⟨fun o ho => ?_, if_neg hne, fun o ho => ?_⟩
    · split
      · subst o
        rw [hexact]
        exact ⟨by omega, hok⟩
      · exact h.count o ho
    · have hcount := congrArg DispatcherHeader.signalState (hcounts o ho)
      change ((keReleaseSemaphore cur sem adj w.sys).header o).signalState = _
      rw [hcount]
      dsimp only
      split
      · subst o
        exact hexact
      · exact (Int.add_zero _).symm
  · rintro ⟨hbound, -⟩
    have hself := hbound sem hsem
    rw [if_pos rfl] at hself
    exact (bmod_le_iff hlow hhigh hpos hadj hlimit).mpr hself

/-- A wait takes what it takes from each semaphore, down to 0. -/
theorem semTake (h : SemBounded w) {sys : WaitSys} (taken : List Nat)
    (hheader : ∀ sem, w.ready sem = true →
      sys.header sem = ⟨5, max 0 (w.count sem - taken.count sem)⟩) :
    SemBounded { w with sys := sys } ∧
      ((∀ sem, w.ready sem = true →
          (SemWorld.count { w with sys := sys } sem) = w.count sem - taken.count sem) ↔
        ∀ sem, w.ready sem = true → (taken.count sem : Int) ≤ w.count sem) := by
  constructor
  · refine (h.of_count hheader).mpr fun sem hsem => ?_
    have hbound := h.count sem hsem
    omega
  · refine forall_congr' fun sem => forall_congr' fun hsem => ?_
    have hcount : (SemWorld.count { w with sys := sys } sem) = max 0 (w.count sem - taken.count sem) :=
      congrArg DispatcherHeader.signalState (hheader sem hsem)
    rw [hcount]
    omega

/-- One signalled object. -/
theorem semTake_one (h : SemBounded w) {obj : Nat} (hsignal : (w.sys.header obj).signalState ≠ 0)
    (hsem : w.ready sem = true) : (([obj] : List Nat).count sem : Int) ≤ w.count sem := by
  have hbound := h.count sem hsem
  by_cases hobj : obj = sem
  · subst hobj
    rw [List.count_singleton_self]
    unfold SemWorld.count at *
    omega
  · rw [List.count_singleton, if_neg (by simpa using hobj)]
    exact hbound.1

theorem consume_one (h : SemBounded w) {obj : Nat} (hsem : w.ready sem = true) :
    (w.sys.consume obj).header sem = ⟨5, max 0 (w.count sem - ([obj] : List Nat).count sem)⟩ :=
  consume_all [obj] (h.header hsem) (h.count sem hsem).1

theorem keep_header (h : SemBounded w) (hsem : w.ready sem = true) :
    w.sys.header sem = ⟨5, max 0 (w.count sem - ([] : List Nat).count sem)⟩ :=
  consume_all [] (h.header hsem) (h.count sem hsem).1

theorem semPass_exact (h : SemBounded w) {cur : Tid} {obj : Nat} {timeout : Option Int}
    {r : Option WaitStatus × WaitSys} (hrun : waitPass cur obj timeout w.sys = some r) :
    SemBounded { w with sys := r.2 } ∧ SemExact w (.pass cur obj timeout) { w with sys := r.2 } := by
  have hheader := waitPass_header hrun
  unfold SemExact SemOp.taken
  dsimp only
  by_cases hsignal : (w.sys.header obj).signalState ≠ 0
  · rw [if_pos hsignal]
    obtain ⟨hbounded, hexact⟩ := semTake h [obj] fun sem hsem => by
      rw [← consume_one h hsem, hheader]
      unfold WaitSys.consume
      rw [header_setHeader]
      exact if_congr (and_iff_left hsignal) rfl rfl
    exact ⟨hbounded, hexact.mpr fun sem hsem => semTake_one h hsignal hsem⟩
  · rw [if_neg hsignal]
    obtain ⟨hbounded, hexact⟩ := semTake h [] fun sem hsem => by
      rw [← keep_header h hsem, hheader]
      exact if_neg fun hboth => hsignal hboth.2
    exact ⟨hbounded, hexact.mpr fun sem hsem => by simpa using (h.count sem hsem).1⟩

/-- Nothing is taken. -/
theorem semMultiple_nothing {type : WaitType}
    (hrun : keWaitForMultipleObjects objs type w.sys = (.success, [], w.sys)) :
    SemExact w (.multiple objs type) { w with sys := (keWaitForMultipleObjects objs type w.sys).2.2 } := by
  unfold SemExact SemOp.taken
  dsimp only
  rw [hrun]
  refine ⟨fun sem hsem => ?_, fun _ _ _ => rfl⟩
  rw [List.count_nil]
  exact (Int.sub_zero _).symm

theorem semMultiple_iff (h : SemBounded w) (objs : List Nat) (type : WaitType) :
    SemStepOk w (.multiple objs type) ↔
      SemBounded { w with sys := (keWaitForMultipleObjects objs type w.sys).2.2 } ∧
        SemExact w (.multiple objs type)
          { w with sys := (keWaitForMultipleObjects objs type w.sys).2.2 } := by
  by_cases hlegacy : w.sys.timers.legacy = true
  · have hrun : keWaitForMultipleObjects objs type w.sys = (.success, [], w.sys) := if_pos hlegacy
    refine iff_of_true ?_ ⟨by rw [hrun]; exact h, semMultiple_nothing hrun⟩
    cases type
    · exact .inl hlegacy
    · trivial
  cases type with
  | any =>
    refine iff_of_true trivial ?_
    cases hfind : objs.find? w.sys.signalled with
    | none =>
      have hrun : keWaitForMultipleObjects objs .any w.sys = (.success, [], w.sys) := by
        unfold keWaitForMultipleObjects
        rw [if_neg hlegacy]
        dsimp only
        rw [hfind]
      exact ⟨by rw [hrun]; exact h, semMultiple_nothing hrun⟩
    | some obj =>
      have hsignal : (w.sys.header obj).signalState ≠ 0 := by
        have htest := List.find?_some hfind
        exact (of_decide_eq_true htest).2
      have hrun : keWaitForMultipleObjects objs .any w.sys = (.success, [obj], w.sys.consume obj) := by
        unfold keWaitForMultipleObjects
        rw [if_neg hlegacy]
        dsimp only
        rw [hfind]
      obtain ⟨hbounded, hexact⟩ := semTake h [obj] fun sem hsem => consume_one h hsem
      unfold SemExact SemOp.taken
      dsimp only
      rw [hrun]
      exact ⟨hbounded, hexact.mpr fun sem hsem => semTake_one h hsignal hsem, nofun⟩
  | all =>
    by_cases hall : objs.countP w.sys.signalled = objs.length
    · have hsignalled := List.countP_eq_length.mp hall
      have hrun : keWaitForMultipleObjects objs .all w.sys =
          (.success, objs, objs.foldl WaitSys.consume w.sys) := by
        unfold keWaitForMultipleObjects
        rw [if_neg hlegacy]
        exact if_pos hall
      obtain ⟨hbounded, hexact⟩ := semTake h objs fun sem hsem =>
        consume_all objs (h.header hsem) (h.count sem hsem).1
      have hok : SemStepOk w (.multiple objs .all) ↔
          ∀ sem, w.ready sem = true → (objs.count sem : Int) ≤ w.count sem := by
        refine ⟨?_, fun hfits => .inr (.inr hfits)⟩
        rintro (hleg | ⟨obj, hobj, hnot⟩ | hfits)
        · exact absurd hleg hlegacy
        · exact absurd (hsignalled obj hobj) (by rw [hnot]; exact Bool.false_ne_true)
        · exact hfits
      unfold SemExact SemOp.taken
      dsimp only
      rw [hok, hrun, ← hexact]
      constructor
      · intro hunits
        refine ⟨hbounded, hunits, fun _ hnot => absurd (fun obj hobj => ⟨hsignalled obj hobj, ?_⟩) hnot⟩
        exact hexact.mp hunits obj
      · rintro ⟨-, hunits, -⟩
        exact hunits
    · have hrun : keWaitForMultipleObjects objs .all w.sys = (.success, [], w.sys) := by
        unfold keWaitForMultipleObjects
        rw [if_neg hlegacy]
        exact if_neg hall
      refine iff_of_true (.inr (.inl ?_)) ⟨by rw [hrun]; exact h, semMultiple_nothing hrun⟩
      by_contra hnone
      refine hall (List.countP_eq_length.mpr fun obj hobj => ?_)
      by_contra hnot
      exact hnone ⟨obj, hobj, Bool.eq_false_iff.mpr hnot⟩

/-- A step that meets its condition keeps the counts in their bounds and takes exactly what it
should, and no other step does. -/
theorem semStep_iff (h : SemBounded w) (hstep : SemStep w op w') :
    SemStepOk w op ↔ SemBounded w' ∧ SemExact w op w' := by
  cases op with
  | init sem count limit =>
    obtain ⟨hsem, hpos, hle, hlimit, rfl⟩ := hstep
    exact iff_of_true trivial ⟨semInit_bounded h hsem hpos hle hlimit, trivial⟩
  | release cur sem adj =>
    obtain ⟨hsem, hpos, hadj, rfl⟩ := hstep
    exact semRelease_iff h hsem hpos hadj
  | pass cur obj timeout =>
    obtain ⟨-, r, hrun, rfl⟩ := hstep
    exact iff_of_true trivial (semPass_exact h hrun)
  | multiple objs type =>
    obtain rfl := hstep
    exact semMultiple_iff h objs type
  | other sys =>
    obtain ⟨hkept, rfl⟩ := hstep
    refine iff_of_true trivial ⟨?_, trivial⟩
    exact (h.of_count fun sem hsem => (hkept sem hsem).trans (h.header hsem)).mpr h.count

end Step

/-! ## Every run -/

theorem semStart_bounded {w : SemWorld} (h : SemStart w) : SemBounded w := by
  have hnone : ∀ sem, ¬w.ready sem = true := fun sem => by rw [h sem]; exact Bool.false_ne_true
  exact ⟨fun sem hsem => absurd hsem (hnone sem), fun sem hsem => absurd hsem (hnone sem),
    fun sem hsem => absurd hsem (hnone sem)⟩

theorem semReach_bounded {w : SemWorld} (h : Reach SemStart SemStep SemStepOk w) : SemBounded w :=
  h.invariant (fun _ => semStart_bounded) fun _ _ _ hw hok hstep => ((semStep_iff hw hstep).mp hok).1

/-- While every step so far met its condition the counts are in their bounds, and the next one
keeps them there and is exact as long as it meets its own. -/
theorem semaphores_bounded (w : SemWorld) (h : Reach SemStart SemStep SemStepOk w) :
    SemBounded w ∧ ∀ op w', SemStep w op w' → (SemStepOk w op ↔ SemBounded w' ∧ SemExact w op w') :=
  ⟨semReach_bounded h, fun _ _ => semStep_iff (semReach_bounded h)⟩

/-- Semaphore 7 was initialised with `Count` and `Limit`. -/
def oneSemaphore (count limit : Int) : SemWorld :=
  { sys := keInitializeSemaphore 7 count bootedWaits
    limit := Function.update (fun _ => 0) 7 limit
    ready := Function.update (fun _ => false) 7 true }

theorem oneSemaphore_step (count limit : Int) (hpos : 0 ≤ count) (hle : count ≤ limit)
    (hlimit : limit < 2 ^ 31) : Reach SemStart SemStep SemStepOk (oneSemaphore count limit) :=
  .step (a := .init 7 count limit) (.start (s := ⟨bootedWaits, fun _ => 0, fun _ => false⟩) fun _ => rfl)
    trivial ⟨by decide, hpos, hle, hlimit, rfl⟩

theorem semaphores_bounded_released : ∃ w, SemStep (oneSemaphore 1 2) (.release (.idle 0) 7 1) w ∧
    w.count 7 = 2 ∧ SemBounded w := by
  have hstep : SemStep (oneSemaphore 1 2) (.release (.idle 0) 7 1)
      { oneSemaphore 1 2 with sys := keReleaseSemaphore (.idle 0) 7 1 (oneSemaphore 1 2).sys } :=
    ⟨rfl, by decide, by decide, rfl⟩
  have hok : SemStepOk (oneSemaphore 1 2) (.release (.idle 0) 7 1) := by
    change (oneSemaphore 1 2).count 7 + 1 ≤ (oneSemaphore 1 2).limit 7
    decide +kernel
  have hreach := oneSemaphore_step 1 2 (by decide) (by decide) (by decide)
  have hcount : SemWorld.count { oneSemaphore 1 2 with
      sys := keReleaseSemaphore (.idle 0) 7 1 (oneSemaphore 1 2).sys } 7 = 2 := by decide +kernel
  exact ⟨_, hstep, hcount, (((semaphores_bounded _ hreach).2 _ _ hstep).mp hok).1⟩

/-- A full semaphore is released all the same, and an array that names a semaphore twice has its
one unit. -/
theorem semaphore_over_limit : Reach SemStart SemStep SemStepOk (oneSemaphore 1 1) ∧
    (∃ w, SemStep (oneSemaphore 1 1) (.release (.idle 0) 7 1) w ∧ w.count 7 = 2 ∧ w.limit 7 = 1) ∧
    ¬(oneSemaphore 1 1).Satisfiable [7, 7] ∧
    ∃ w, SemStep (oneSemaphore 1 1) (.multiple [7, 7] .all) w ∧ w.count 7 = 0 := by
  have hstep : SemStep (oneSemaphore 1 1) (.release (.idle 0) 7 1)
      { oneSemaphore 1 1 with sys := keReleaseSemaphore (.idle 0) 7 1 (oneSemaphore 1 1).sys } :=
    ⟨rfl, by decide, by decide, rfl⟩
  have hcount : SemWorld.count { oneSemaphore 1 1 with
      sys := keReleaseSemaphore (.idle 0) 7 1 (oneSemaphore 1 1).sys } 7 = 2 := by decide +kernel
  have htaken : SemWorld.count { oneSemaphore 1 1 with
      sys := (keWaitForMultipleObjects [7, 7] .all (oneSemaphore 1 1).sys).2.2 } 7 = 0 := by
    decide +kernel
  have hone : (oneSemaphore 1 1).count 7 = 1 := by decide +kernel
  refine ⟨oneSemaphore_step 1 1 (by decide) (by decide) (by decide), ⟨_, hstep, hcount, rfl⟩, fun hfits => ?_,
    _, rfl, htaken⟩
  have htwo := (hfits 7 List.mem_cons_self).2 rfl
  rw [hone] at htwo
  exact absurd htwo (by decide)

end MeuOS.Ke
