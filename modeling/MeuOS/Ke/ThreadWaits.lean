import MeuOS.Ke.ThreadHandles
import MeuOS.Lib.Slots

/-! Waits over whole histories. The side table is the list of the 16 oldest launches, so a
wait is for the first of them to get its handle's value. -/
namespace MeuOS.Ke

open MeuOS.Lib

structure JoinInv (w : JoinWorld) : Prop where
  count : w.sys.ring3Count = (w.launches.take ring3Max).length
  entries : ∀ i l, (w.launches.take ring3Max)[i]? = some l → w.sys.ring3 i = (l.handle, l.kthread)
  nonzero : ∀ l ∈ w.launches, l.kthread ≠ 0
  oneEthread : ∀ l ∈ w.launches, ∀ l' ∈ w.launches, l.ethread = l'.ethread → l = l'
  oneKthread : ∀ l ∈ w.launches, ∀ l' ∈ w.launches, l.kthread = l'.kthread → l = l'

section Steps

variable {w : JoinWorld} {h t i : Nat} {op : JoinOp}

theorem firstLaunch_eq (hinv : JoinInv w) (h : Nat) :
    firstLaunch w h = (waitEntry w.sys h).bind fun i => (w.launches.take ring3Max)[i]? := by
  unfold firstLaunch waitEntry
  rw [hinv.count]
  apply find?_places
  intro i l hl
  have hmem : l ∈ w.launches := List.mem_of_mem_take (List.mem_of_getElem? hl)
  rw [hinv.entries i l hl]
  simp [hinv.nonzero l hmem]

/-- An entry is that of a launch. -/
theorem waitEntry_launch (hinv : JoinInv w) (hentry : waitEntry w.sys h = some i) :
    ∃ l ∈ w.launches, firstLaunch w h = some l ∧ w.sys.ring3 i = (l.handle, l.kthread) := by
  have hrange : i < w.sys.ring3Count := by
    unfold waitEntry at hentry
    exact List.mem_range.mp (List.mem_of_find?_eq_some hentry)
  rw [hinv.count] at hrange
  obtain ⟨l, hl⟩ : ∃ l, (w.launches.take ring3Max)[i]? = some l :=
    ⟨_, List.getElem?_eq_getElem hrange⟩
  refine ⟨l, List.mem_of_mem_take (List.mem_of_getElem? hl), ?_, hinv.entries i l hl⟩
  rw [firstLaunch_eq hinv, hentry]
  exact hl

theorem runs_iff (hinv : JoinInv w) {l : Launch} (hl : l ∈ w.launches) (t : Nat) :
    Runs w t l.kthread ↔ l.ethread = t := by
  constructor
  · rintro ⟨l', hl', rfl, hkt⟩
    rw [hinv.oneKthread l' hl' l hl hkt]
  · intro ht
    exact ⟨l, hl, ht, rfl⟩

theorem waitRight_iff (hinv : JoinInv w) (h t : Nat) : WaitRight w h t ↔ FirstOrOver w h t := by
  unfold WaitRight FirstOrOver
  cases hentry : waitEntry w.sys h with
  | none =>
    have hfirst : firstLaunch w h = none := by
      rw [firstLaunch_eq hinv, hentry]
      rfl
    rw [hfirst]
    simp [waitDone]
  | some i =>
    obtain ⟨l, hl, hfirst, hring⟩ := waitEntry_launch hinv hentry
    have hdone : waitDone w.sys (some i) = w.sys.terminated l.kthread := by
      unfold waitDone kiThreadIsTerminated
      dsimp only
      rw [hring]
      simp [hinv.nonzero l hl]
    rw [hfirst, hdone]
    by_cases hterm : w.sys.terminated l.kthread = true
    · rw [if_pos hterm]
      constructor
      · intro hover
        refine .inr ⟨fun l' hl' => ?_, hover⟩
        cases hl'
        exact hterm
      · rintro (⟨l', hl', rfl⟩ | ⟨-, hover⟩)
        · cases hl'
          exact ⟨l.kthread, ⟨l, hl, rfl, rfl⟩, hterm⟩
        · exact hover
    · rw [if_neg hterm]
      constructor
      · rintro ⟨j, hj, hruns⟩
        cases hj
        rw [hring] at hruns
        exact .inl ⟨l, rfl, (runs_iff hinv hl t).mp hruns⟩
      · rintro (⟨l', hl', rfl⟩ | ⟨hall, -⟩)
        · cases hl'
          refine ⟨i, rfl, ?_⟩
          rw [hring]
          exact ⟨l, hl, rfl, rfl⟩
        · exact absurd (hall l rfl) hterm

/-- `NtCreateThread` launches nothing, or one thread that is recorded while there is room. -/
theorem createThread_spec (s : ThreadSys) (hproc start hdr kt : Nat) :
    (sysCreateThread s hproc start hdr kt).2.2.2.terminated = s.terminated ∧
    (newLaunch s hproc start hdr kt = [] ∧
        (sysCreateThread s hproc start hdr kt).2.2.2.ring3 = s.ring3 ∧
        (sysCreateThread s hproc start hdr kt).2.2.2.ring3Count = s.ring3Count ∨
      ∃ h ob, kt ≠ 0 ∧ newLaunch s hproc start hdr kt = [⟨h, hdr + Ob.objectHeader, kt⟩] ∧
        (sysCreateThread s hproc start hdr kt).2.2.2 = recordLaunch { s with ob := ob } h kt) := by
  unfold newLaunch
  dsimp only
  unfold sysCreateThread
  by_cases hproc0 : threadProcess s hproc = 0
  · rw [if_pos hproc0]
    exact ⟨rfl, .inl ⟨rfl, rfl, rfl⟩⟩
  · rw [if_neg hproc0]
    by_cases hmade : (Ob.obCreateObject s.ob hdr obTypeThread ethreadSize none).2 = 0
    · rw [if_pos hmade]
      exact ⟨rfl, .inl ⟨rfl, rfl, rfl⟩⟩
    · rw [if_neg hmade]
      dsimp only
      have hbody : (Ob.obCreateObject s.ob hdr obTypeThread ethreadSize none).2 =
          hdr + Ob.objectHeader := by
        unfold Ob.obCreateObject at hmade ⊢
        by_cases hhdr : hdr = 0
        · rw [if_pos hhdr] at hmade
          exact absurd rfl hmade
        · rw [if_neg hhdr]
      by_cases hstart : start = 0
      · rw [if_neg (not_not_intro hstart), if_neg fun hall => hall.2.1 hstart]
        exact ⟨rfl, .inl ⟨rfl, rfl, rfl⟩⟩
      · rw [if_pos hstart]
        by_cases hkt : kt = 0
        · rw [if_neg fun hall => hall.2.2 hkt]
          unfold recordLaunch
          rw [if_neg fun hall => hall.1 hkt]
          exact ⟨rfl, .inl ⟨rfl, rfl, rfl⟩⟩
        · rw [if_pos ⟨rfl, hstart, hkt⟩, hbody]
          refine ⟨?_, .inr ⟨_, _, hkt, rfl, rfl⟩⟩
          unfold recordLaunch
          split <;> rfl

theorem joinInv_launch (hinv : JoinInv w) {ob : Ob.ObState} {l : Launch} (hkt : l.kthread ≠ 0)
    (hfresh : ∀ l' ∈ w.launches, l'.ethread ≠ l.ethread ∧ l'.kthread ≠ l.kthread) :
    JoinInv { w with
      sys := recordLaunch { w.sys with ob := ob } l.handle l.kthread
      launches := w.launches ++ [l] } := by
  have hmem : ∀ {l'}, l' ∈ w.launches ++ [l] → l' ∈ w.launches ∨ l' = l := fun hl' =>
    (List.mem_append.mp hl').imp_right List.mem_singleton.mp
  have htable : (recordLaunch { w.sys with ob := ob } l.handle l.kthread).ring3Count =
        ((w.launches ++ [l]).take ring3Max).length ∧
      ∀ i l', ((w.launches ++ [l]).take ring3Max)[i]? = some l' →
        (recordLaunch { w.sys with ob := ob } l.handle l.kthread).ring3 i = (l'.handle, l'.kthread) := by
    have hcount := hinv.count
    have hentries := hinv.entries
    rw [List.length_take] at hcount
    unfold recordLaunch
    by_cases hroom : w.launches.length < ring3Max
    · have hall : w.launches.take ring3Max = w.launches := List.take_of_length_le (by omega)
      rw [hall] at hentries
      rw [if_pos ⟨hkt, by dsimp only; omega⟩, List.take_of_length_le (by simp; omega)]
      dsimp only
      refine ⟨by rw [List.length_append, List.length_singleton]; omega, fun i l' hl' => ?_⟩
      have hlen : w.sys.ring3Count = w.launches.length := by omega
      by_cases hi : i = w.launches.length
      · rw [hi, List.getElem?_append_right (Nat.le_refl _), Nat.sub_self] at hl'
        cases hl'
        rw [hlen, hi, Function.update_self]
      · rw [hlen, Function.update_of_ne hi]
        have hlt : i < w.launches.length := by
          have hbound := (List.getElem?_eq_some_iff.mp hl').1
          rw [List.length_append, List.length_singleton] at hbound
          omega
        rw [List.getElem?_append_left hlt] at hl'
        exact hentries i l' hl'
    · rw [if_neg fun hall => by have := hall.2; dsimp only at this; omega,
        List.take_append_of_le_length (by omega)]
      exact ⟨hinv.count, hentries⟩
  refine ⟨htable.1, htable.2, fun l' hl' => ?_, fun a ha b hb heq => ?_, fun a ha b hb heq => ?_⟩
  · rcases hmem hl' with hold | rfl
    · exact hinv.nonzero l' hold
    · exact hkt
  · rcases hmem ha with hola | rfl <;> rcases hmem hb with holb | rfl
    · exact hinv.oneEthread a hola b holb heq
    · exact absurd heq (hfresh a hola).1
    · exact absurd heq.symm (hfresh b holb).1
    · rfl
  · rcases hmem ha with hola | rfl <;> rcases hmem hb with holb | rfl
    · exact hinv.oneKthread a hola b holb heq
    · exact absurd heq (hfresh a hola).2
    · exact absurd heq.symm (hfresh b holb).2
    · rfl

theorem joinStep_inv (hinv : JoinInv w) (hop : Proper w op) : JoinInv (joinStep w op) := by
  cases op with
  | createThread hproc start hdr kt =>
    change JoinInv { w with
      sys := (sysCreateThread w.sys hproc start hdr kt).2.2.2
      launches := w.launches ++ newLaunch w.sys hproc start hdr kt }
    obtain ⟨-, ⟨hnone, hring, hcount⟩ | ⟨h, ob, hkt, hone, hsys⟩⟩ :=
      createThread_spec w.sys hproc start hdr kt
    · rw [hnone, List.append_nil]
      exact ⟨hcount.trans hinv.count, fun i l hl => hring ▸ hinv.entries i l hl, hinv.nonzero,
        hinv.oneEthread, hinv.oneKthread⟩
    · rw [hone, hsys]
      exact joinInv_launch (l := ⟨h, hdr + Ob.objectHeader, kt⟩) hinv hkt hop.1
  | createObject | createHandle | close | exit | wait | resume =>
    exact ⟨hinv.count, hinv.entries, hinv.nonzero, hinv.oneEthread, hinv.oneKthread⟩

end Steps

/-! ## Runs -/

/-- A wait on a thread's handle is made when it is right. -/
def Honest (w : JoinWorld) : JoinOp → Prop
  | .wait _ h => threadOf w.sys h ≠ 0 → FirstOrOver w h (threadOf w.sys h)
  | _ => True

def JoinReach (init : JoinWorld → Prop) (guard : JoinWorld → JoinOp → Prop) : JoinWorld → Prop :=
  Reach init (fun w op w' => w' = joinStep w op) guard

/-- Before the first thread of ring 3 there are any objects and handles. -/
def JoinStart (w : JoinWorld) : Prop :=
  w.sys.ring3Count = 0 ∧ w.launches = [] ∧ ∀ caller, w.waiting caller = none

/-- Those that wait for a thread wait for that one. -/
def WaitsRight (w : JoinWorld) : Prop :=
  ∀ caller t i, w.waiting caller = some (t, i) → t ≠ 0 →
    i < w.sys.ring3Count ∧ Runs w t (w.sys.ring3 i).2

section Runs

variable {w : JoinWorld} {h t i : Nat} {op : JoinOp}

theorem joinReach_inv (hrun : JoinReach JoinStart Proper w) : JoinInv w := by
  apply hrun.invariant
  · rintro w ⟨hcount, hlaunches, -⟩
    refine ⟨?_, ?_, ?_, ?_, ?_⟩
    all_goals rw [hlaunches]
    · exact hcount
    · exact nofun
    · exact nofun
    · exact nofun
    · exact nofun
  · rintro w op _ hinv hop rfl
    exact joinStep_inv hinv hop

/-- What a thread runs on is never changed, nor is an entry. -/
theorem joinStep_keeps (w : JoinWorld) (op : JoinOp) :
    (∀ t kt, Runs w t kt → Runs (joinStep w op) t kt) ∧
    ∀ i < w.sys.ring3Count, i < (joinStep w op).sys.ring3Count ∧
      (joinStep w op).sys.ring3 i = w.sys.ring3 i := by
  cases op with
  | createThread hproc start hdr kt =>
    refine ⟨?_, fun i hi => ?_⟩
    · rintro t kt ⟨l, hl, ht, hkt⟩
      exact ⟨l, List.mem_append_left _ hl, ht, hkt⟩
    · change i < (sysCreateThread w.sys hproc start hdr kt).2.2.2.ring3Count ∧
        (sysCreateThread w.sys hproc start hdr kt).2.2.2.ring3 i = w.sys.ring3 i
      obtain ⟨-, ⟨-, hring, hcount⟩ | ⟨h, ob, -, -, hsys⟩⟩ := createThread_spec w.sys hproc start hdr kt
      · rw [hring, hcount]
        exact ⟨hi, rfl⟩
      · rw [hsys]
        unfold recordLaunch
        split
        · exact ⟨Nat.lt_succ_of_lt hi, Function.update_of_ne hi.ne ..⟩
        · exact ⟨hi, rfl⟩
  | createObject | createHandle | close | exit | wait | resume =>
    exact ⟨fun _ _ hruns => hruns, fun i hi => ⟨hi, rfl⟩⟩

theorem waitEntry_lt {s : ThreadSys} (hentry : waitEntry s h = some i) : i < s.ring3Count := by
  unfold waitEntry at hentry
  exact List.mem_range.mp (List.mem_of_find?_eq_some hentry)

theorem joinStep_waitsRight (hinv : JoinInv w) (hright : WaitsRight w) (hhonest : Honest w op) :
    WaitsRight (joinStep w op) := by
  obtain ⟨hruns, hentries⟩ := joinStep_keeps w op
  have hkept : ∀ caller t i, w.waiting caller = some (t, i) → t ≠ 0 →
      i < (joinStep w op).sys.ring3Count ∧ Runs (joinStep w op) t ((joinStep w op).sys.ring3 i).2 :=
    fun caller t i hwait ht => by
      obtain ⟨hi, hrun⟩ := hright caller t i hwait ht
      obtain ⟨hi', hsame⟩ := hentries i hi
      rw [hsame]
      exact ⟨hi', hruns t _ hrun⟩
  intro caller t i hwait ht
  cases op with
  | wait caller' h =>
    by_cases hcaller : caller = caller'
    · subst hcaller
      change Function.update w.waiting caller _ caller = _ at hwait
      rw [Function.update_self] at hwait
      split at hwait
      · cases hwait
      · rename_i hdone
        obtain ⟨j, hj, heq⟩ := Option.map_eq_some_iff.mp hwait
        cases heq
        have hwr := (waitRight_iff hinv h _).mpr (hhonest ht)
        unfold WaitRight at hwr
        rw [if_neg hdone] at hwr
        obtain ⟨k, hk, hrun⟩ := hwr
        rw [hj] at hk
        cases hk
        exact ⟨waitEntry_lt hj, hrun⟩
    · change Function.update w.waiting caller' _ caller = _ at hwait
      rw [Function.update_of_ne hcaller] at hwait
      exact hkept caller t i hwait ht
  | resume caller' =>
    by_cases hcaller : caller = caller'
    · subst hcaller
      change Function.update w.waiting caller _ caller = _ at hwait
      rw [Function.update_self] at hwait
      exact hkept caller t i (Option.filter_eq_some_iff.mp hwait).1 ht
    · change Function.update w.waiting caller' _ caller = _ at hwait
      rw [Function.update_of_ne hcaller] at hwait
      exact hkept caller t i hwait ht
  | createThread | createObject | createHandle | close | exit => exact hkept caller t i hwait ht

theorem returned_over (hinv : JoinInv w) (hright : WaitsRight w) (hhonest : Honest w op) (ht : t ≠ 0)
    (hret : returned w op = some t) : Over w t := by
  cases op with
  | wait caller h =>
    unfold returned at hret
    dsimp only at hret
    split at hret
    · rename_i hdone
      cases hret
      have hwr := (waitRight_iff hinv h _).mpr (hhonest ht)
      unfold WaitRight at hwr
      rw [if_pos hdone] at hwr
      exact hwr
    · cases hret
  | resume caller =>
    obtain ⟨⟨t', i⟩, hwait, rfl⟩ := Option.map_eq_some_iff.mp hret
    obtain ⟨hwait, hdone⟩ := Option.filter_eq_some_iff.mp hwait
    obtain ⟨-, hrun⟩ := hright caller t' i hwait ht
    obtain ⟨l, hl, hlt, hkt⟩ := hrun
    have hterm : kiThreadIsTerminated w.sys (w.sys.ring3 i).2 = true := hdone
    unfold kiThreadIsTerminated at hterm
    rw [← hkt, Bool.or_eq_true, beq_iff_eq] at hterm
    exact ⟨l.kthread, ⟨l, hl, hlt, rfl⟩, hterm.resolve_left (hinv.nonzero l hl)⟩
  | createThread | createObject | createHandle | close | exit => cases hret

/-- When a wait on a thread's handle is right, in every state; and where all waits are made
then, those that wait for a thread wait for that one and return when it is over. -/
theorem waits_exact (hrun : JoinReach JoinStart Proper w) :
    (∀ h, threadOf w.sys h ≠ 0 →
      (WaitRight w h (threadOf w.sys h) ↔ FirstOrOver w h (threadOf w.sys h))) ∧
    (JoinReach JoinStart (fun w op => Proper w op ∧ Honest w op) w →
      WaitsRight w ∧ ∀ op t, Honest w op → t ≠ 0 → returned w op = some t → Over w t) := by
  have hinv := joinReach_inv hrun
  refine ⟨fun h _ => waitRight_iff hinv h _, fun hhonest => ?_⟩
  have hright : WaitsRight w ∧ JoinInv w := by
    apply hhonest.invariant
    · rintro w hstart
      refine ⟨fun caller t i hwait => ?_, joinReach_inv (.start hstart)⟩
      rw [hstart.2.2 caller] at hwait
      cases hwait
    · rintro w op _ ⟨hright, hinv⟩ ⟨hop, hhonest⟩ rfl
      exact ⟨joinStep_waitsRight hinv hright hhonest, joinStep_inv hinv hop⟩
  exact ⟨hright.1, fun op t hop ht => returned_over hinv hright.1 hop ht⟩

/-- No object but the current process. -/
def joinInit : JoinWorld :=
  { sys :=
      { ob := ⟨fun _ => 0, fun _ => 0, [], []⟩
        currentProcess := 1
        ring3 := fun _ => (0, 0)
        ring3Count := 0
        terminated := fun _ => false }
    launches := []
    waiting := fun _ => none }

/-- A thread is created. -/
def oneThread : JoinWorld := joinStep joinInit (.createThread 0 0x401000 0x1000 0x9000)

/-- It ends, its handle is closed and another is created, which gets the same handle. -/
def sameHandle : JoinWorld :=
  joinStep (joinStep (joinStep oneThread (.exit 0x9000)) (.close 4)) (.createThread 0 0x402000 0x3000 0xA000)

theorem oneThread_proper : Proper joinInit (.createThread 0 0x401000 0x1000 0x9000) := ⟨nofun, rfl⟩

theorem oneThread_reach : JoinReach JoinStart Proper oneThread :=
  .step (.start ⟨rfl, rfl, fun _ => rfl⟩) oneThread_proper rfl

theorem waits_exact_oneThread : JoinReach JoinStart Proper oneThread ∧
    threadOf oneThread.sys 4 = 0x1050 ∧
    (WaitRight oneThread 4 (threadOf oneThread.sys 4) ↔ FirstOrOver oneThread 4 (threadOf oneThread.sys 4)) ∧
    WaitsRight oneThread := by
  have hthread : threadOf oneThread.sys 4 = 0x1050 := by decide +kernel
  have hhonest : JoinReach JoinStart (fun w op => Proper w op ∧ Honest w op) oneThread :=
    .step (.start ⟨rfl, rfl, fun _ => rfl⟩) ⟨oneThread_proper, trivial⟩ rfl
  have hexact := waits_exact oneThread_reach
  exact ⟨oneThread_reach, hthread, hexact.1 4 (by rw [hthread]; decide), (hexact.2 hhonest).1⟩

theorem sameHandle_launches : sameHandle.launches = [⟨4, 0x1050, 0x9000⟩, ⟨4, 0x3050, 0xA000⟩] := by
  decide +kernel

/-- The wait on the second thread finds the entry of the first and returns at once. -/
theorem wait_too_early : JoinReach JoinStart Proper sameHandle ∧
    threadOf sameHandle.sys 4 = 0x3050 ∧ returned sameHandle (.wait 0 4) = some 0x3050 ∧
    ¬Over sameHandle 0x3050 ∧ ¬WaitRight sameHandle 4 0x3050 := by
  have hreach : JoinReach JoinStart Proper sameHandle := by
    have hexit : Proper oneThread (.exit 0x9000) := trivial
    have hclose : Proper (joinStep oneThread (.exit 0x9000)) (.close 4) := trivial
    have hcreate : Proper (joinStep (joinStep oneThread (.exit 0x9000)) (.close 4))
        (.createThread 0 0x402000 0x3000 0xA000) := by
      refine ⟨fun l hl => ?_, by decide +kernel⟩
      have hlaunches : oneThread.launches = [⟨4, 0x1050, 0x9000⟩] := by decide +kernel
      have hone : l = ⟨4, 0x1050, 0x9000⟩ := List.mem_singleton.mp (hlaunches ▸ hl)
      rw [hone]
      exact ⟨by decide, by decide⟩
    exact .step (.step (.step oneThread_reach hexit rfl) hclose rfl) hcreate rfl
  have hrunning : sameHandle.sys.terminated 0xA000 = false := by decide +kernel
  have hdone : waitDone sameHandle.sys (waitEntry sameHandle.sys 4) = true := by decide +kernel
  have hover : ¬Over sameHandle 0x3050 := by
    rintro ⟨kt, ⟨l, hl, ht, rfl⟩, hterm⟩
    rw [sameHandle_launches] at hl
    rcases List.mem_cons.mp hl with rfl | hl
    · cases ht
    · rw [List.mem_singleton.mp hl, hrunning] at hterm
      cases hterm
  refine ⟨hreach, by decide +kernel, by decide +kernel, hover, fun hright => hover ?_⟩
  unfold WaitRight at hright
  rw [if_pos hdone] at hright
  exact hright

end Runs

end MeuOS.Ke
