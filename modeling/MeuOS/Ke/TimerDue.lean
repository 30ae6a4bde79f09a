import Mathlib.Tactic.NormNum
import MeuOS.Ke.TimerRuns

/-! Due times. System time moves in ticks of 10 ms, and a time in units of 100 ns is turned into
the tick that is to reach it. -/
namespace MeuOS.Ke

open MeuOS.Lib

/-- `EPOCH_2026`. -/
def epoch2026 : Nat := 132934176000000000

/-- The LONGLONG that is reported. -/
def keQuerySystemTime (ticks : Nat) : Int :=
  let ns100 : Nat := (epoch2026 + ticks * 100000) % 2 ^ 64
  if ns100 < 2 ^ 63 then ns100 else (ns100 : Int) - 2 ^ 64

/-- The loop of the delay: `reads` are the values of `g_ticks` it sees. -/
def delayLoop (target : Nat) : List Nat → Option Nat
  | [] => none
  | g :: reads => if g < target then delayLoop target reads else some g

/-- The tick count when the call returns; `none` for `Interval` is the null pointer. -/
def keDelayExecutionThread (interval : Option Int) (ticks : Nat) (reads : List Nat) : Option Nat :=
  match interval with
  | none => some ticks
  | some v =>
      if 0 ≤ v then some ticks
      else
        let n := (-v).toNat % 2 ^ 64 / 100000
        if n = 0 then some ticks else delayLoop ((ticks + n) % 2 ^ 64) reads

/-- The system time of a tick count is a LONGLONG. -/
def TimeFits (ticks : Nat) : Prop := epoch2026 + ticks * 100000 < 2 ^ 63

/-- The later ticks from `dueTime` on are the later ticks at which the time has come. -/
def OnTime (ticks dueTime : Nat) (due : Int) : Prop :=
  ∀ later, ticks < later → TimeFits later → (dueTime ≤ later ↔ due ≤ keQuerySystemTime later)

/-- The system time a timer is due that is armed now. -/
def dueSystemTime (ticks : Nat) (due : Int) : Int :=
  if due < 0 then keQuerySystemTime ticks - due else due

/-- A relative time is a multiple of a tick, or less than one. An absolute one has passed, or
is so close that the tick count does not matter that is added to it, or comes out right by chance
in the first two ticks. -/
def DueOk (ticks : Nat) (due : Int) : Prop :=
  if due < 0 then -100000 < due ∨ due % 100000 = 0
  else due ≤ epoch2026 ∨ (due < epoch2026 + 200000 ∧ due ≤ epoch2026 + (ticks + 1) * 100000) ∨
    (ticks = 0 ∧ (due - epoch2026) % 100000 = 0) ∨ (ticks = 1 ∧ (due - epoch2026) % 100000 ≠ 0)

/-- A period is a multiple of a tick, or less than one. -/
def PeriodOk (period : Int) : Prop := period < 10 ∨ period % 10 = 0

/-- The tick a timer is armed for again. -/
def rearmTick (ticks : Nat) (period : Int) : Nat :=
  (ticks + if period.toNat / 10 = 0 then 1 else period.toNat / 10) % 2 ^ 64

section Arming

variable {ticks g : Nat} {due period v : Int}

theorem timeFits_iff : TimeFits ticks ↔ ticks ≤ 90904378608547 := by
  unfold TimeFits epoch2026
  norm_num
  omega

theorem keQuerySystemTime_eq (h : TimeFits ticks) :
    keQuerySystemTime ticks = 132934176000000000 + (ticks : Int) * 100000 := by
  have hlt : epoch2026 + ticks * 100000 < 2 ^ 63 := h
  unfold keQuerySystemTime
  dsimp only
  rw [Nat.mod_eq_of_lt (Nat.lt_trans hlt (by norm_num)), if_pos hlt]
  unfold epoch2026
  push_cast
  rfl

theorem TimeFits.mono (h : TimeFits g) (hle : ticks ≤ g) : TimeFits ticks := by
  rw [timeFits_iff] at *
  omega

/-- A timer is armed for the tick that is this many ticks away. -/
theorem dueToTick_relative (hfits : TimeFits ticks) (hlow : -9223372036854775808 ≤ due) (hneg : due < 0) :
    dueToTick ticks due = ticks + max 1 ((-due).toNat / 100000) := by
  rw [timeFits_iff] at hfits
  unfold dueToTick
  rw [if_pos hneg]
  dsimp only
  rw [Nat.mod_eq_of_lt (by omega : (-due).toNat < 2 ^ 64)]
  split
  · rw [Nat.mod_eq_of_lt (by omega)]
    omega
  · rw [Nat.mod_eq_of_lt (by omega)]
    omega

theorem dueToTick_absolute (hfits : TimeFits ticks) (hhigh : due < 9223372036854775808) (hneg : ¬due < 0) :
    dueToTick ticks due = ticks + (due.toNat - 132934176000000000) / 100000 := by
  rw [timeFits_iff] at hfits
  unfold dueToTick
  rw [if_neg hneg]
  split
  · omega
  · exact Nat.mod_eq_of_lt (by omega)

theorem onTime_of_dueOk (hfits : TimeFits ticks) (hlow : -9223372036854775808 ≤ due)
    (hhigh : due < 9223372036854775808) (h : DueOk ticks due) :
    OnTime ticks (dueToTick ticks due) (dueSystemTime ticks due) := by
  intro later hlater hlaterFits
  rw [keQuerySystemTime_eq hlaterFits]
  unfold DueOk epoch2026 at h
  unfold dueSystemTime
  by_cases hneg : due < 0
  · rw [if_pos hneg] at h
    rw [if_pos hneg, keQuerySystemTime_eq hfits, dueToTick_relative hfits hlow hneg]
    omega
  · rw [if_neg hneg] at h
    rw [if_neg hneg, dueToTick_absolute hfits hhigh hneg]
    push_cast at h
    omega

/-- Where the due time is well in range, nothing else is on time. -/
theorem onTime_set_iff (hnext : TimeFits (ticks + 1)) (hlow : -9223372036854775808 ≤ due)
    (hhigh : due < 9223372036854775808) (hrange : dueSystemTime ticks due + 200000 < 9223372036854775808) :
    OnTime ticks (dueToTick ticks due) (dueSystemTime ticks due) ↔ DueOk ticks due := by
  have hfits : TimeFits ticks := hnext.mono (Nat.le_succ ticks)
  refine ⟨fun h => ?_, onTime_of_dueOk hfits hlow hhigh⟩
  rw [timeFits_iff] at hnext
  unfold DueOk epoch2026
  by_cases hneg : due < 0
  · rw [dueToTick_relative hfits hlow hneg] at h
    unfold dueSystemTime at h hrange
    rw [if_pos hneg, keQuerySystemTime_eq hfits] at h hrange
    rw [if_pos hneg]
    by_contra hbad
    have hlater : TimeFits (ticks + (-due).toNat / 100000) := timeFits_iff.2 (by omega)
    have hsame := h _ (by omega) hlater
    rw [keQuerySystemTime_eq hlater] at hsame
    push_cast at hsame
    omega
  · rw [dueToTick_absolute hfits hhigh hneg] at h
    unfold dueSystemTime at h hrange
    rw [if_neg hneg] at h hrange
    rw [if_neg hneg]
    by_contra hbad
    -- the first tick the timer could expire at, and the first it should
    obtain ⟨d, hd⟩ : ∃ d, due.toNat - 132934176000000000 = d := ⟨_, rfl⟩
    rw [hd] at h
    obtain ⟨later, hdef⟩ : ∃ later,
        later = min (max (ticks + 1) (ticks + d / 100000)) (max (ticks + 1) ((d + 99999) / 100000)) := ⟨_, rfl⟩
    have hlater : TimeFits later := timeFits_iff.2 (by omega)
    have hsame := h later (by omega) hlater
    rw [keQuerySystemTime_eq hlater] at hsame
    push_cast at hbad
    omega

theorem rearmTick_eq (hfits : TimeFits ticks) (hhigh : period < 2147483648) :
    rearmTick ticks period = ticks + max 1 (period.toNat / 10) := by
  rw [timeFits_iff] at hfits
  unfold rearmTick
  split
  · rw [Nat.mod_eq_of_lt (by omega)]
    omega
  · rw [Nat.mod_eq_of_lt (by omega)]
    omega

theorem onTime_of_periodOk (hfits : TimeFits ticks) (hpos : 0 < period) (hhigh : period < 2147483648)
    (h : PeriodOk period) :
    OnTime ticks (rearmTick ticks period) (keQuerySystemTime ticks + period * 10000) := by
  intro later hlater hlaterFits
  unfold PeriodOk at h
  rw [rearmTick_eq hfits hhigh, keQuerySystemTime_eq hfits, keQuerySystemTime_eq hlaterFits]
  omega

/-- A periodic timer is armed for one period later, exactly when that is a tick. -/
theorem onTime_rearm_iff (hpos : 0 < period) (hhigh : period < 2147483648)
    (hrange : TimeFits (ticks + period.toNat / 10)) :
    OnTime ticks (rearmTick ticks period) (keQuerySystemTime ticks + period * 10000) ↔ PeriodOk period := by
  have hfits : TimeFits ticks := hrange.mono (Nat.le_add_right ..)
  refine ⟨fun h => ?_, onTime_of_periodOk hfits hpos hhigh⟩
  unfold PeriodOk
  by_contra hbad
  have hsame := h _ (by omega) hrange
  rw [rearmTick_eq hfits hhigh, keQuerySystemTime_eq hfits, keQuerySystemTime_eq hrange] at hsame
  push_cast at hsame
  omega

theorem delayLoop_some {target : Nat} {reads : List Nat} (h : delayLoop target reads = some g) :
    target ≤ g ∧ g ∈ reads := by
  induction reads with
  | nil => cases h
  | cons r reads ih =>
    unfold delayLoop at h
    split at h
    · obtain ⟨hle, hmem⟩ := ih h
      exact ⟨hle, List.mem_cons_of_mem r hmem⟩
    · cases h
      exact ⟨Nat.not_lt.1 ‹_›, List.mem_cons_self⟩

/-- Whatever the loop sees, the interval has passed when the call returns. -/
def DelayElapsed (v : Int) (ticks : Nat) : Prop :=
  ∀ reads g, keDelayExecutionThread (some v) ticks reads = some g → TimeFits g →
    -v ≤ keQuerySystemTime g - keQuerySystemTime ticks

theorem delayElapsed_iff (hlow : -9223372036854775808 ≤ v) (hneg : v < 0)
    (hrange : TimeFits (ticks + (-v).toNat / 100000)) : DelayElapsed v ticks ↔ v % 100000 = 0 := by
  have hfits : TimeFits ticks := hrange.mono (Nat.le_add_right ..)
  have hbound := timeFits_iff.1 hfits
  have hrun : ∀ reads, keDelayExecutionThread (some v) ticks reads =
      if (-v).toNat / 100000 = 0 then some ticks
      else delayLoop (ticks + (-v).toNat / 100000) reads := fun reads => by
    unfold keDelayExecutionThread
    dsimp only
    rw [if_neg (Int.not_le.2 hneg), Nat.mod_eq_of_lt (by omega : (-v).toNat < 2 ^ 64),
      Nat.mod_eq_of_lt (by omega : ticks + (-v).toNat / 100000 < 2 ^ 64)]
  unfold DelayElapsed
  rw [keQuerySystemTime_eq hfits]
  by_cases hzero : (-v).toNat / 100000 = 0
  · constructor
    · intro h
      have helapsed := h [] ticks (by rw [hrun, if_pos hzero]) hfits
      rw [keQuerySystemTime_eq hfits] at helapsed
      omega
    · omega
  · constructor
    · intro h
      have hfirst : keDelayExecutionThread (some v) ticks [ticks + (-v).toNat / 100000] =
          some (ticks + (-v).toNat / 100000) := by
        rw [hrun, if_neg hzero]
        exact if_neg (Nat.lt_irrefl _)
      have helapsed := h _ _ hfirst hrange
      rw [keQuerySystemTime_eq hrange] at helapsed
      push_cast at helapsed
      omega
    · intro hmultiple reads g hg hlater
      rw [hrun, if_neg hzero] at hg
      rw [keQuerySystemTime_eq hlater]
      have hle := (delayLoop_some hg).1
      omega

theorem OnTime.later {dueTime : Nat} (h : OnTime ticks dueTime due) (hle : ticks ≤ g) :
    OnTime g dueTime due :=
  fun later hlater => h later (Nat.lt_of_le_of_lt hle hlater)

end Arming

/-! ## Runs -/

/-- `due` is the system time a timer is due since it was armed: what its caller asked for, or one
period after its last expiry. -/
structure TimedSys where
  sys : TimerSys
  due : Nat → Int

def TimedSys.dueAfter (w : TimedSys) : TimerAction → Nat → Int
  | .set t due _ _ =>
      if t = 0 then w.due else Function.update w.due t (dueSystemTime w.sys.ticks due)
  | .tickRearm =>
      match w.sys.firing with
      | t :: _ =>
          if 0 < (w.sys.timer t).period then
            Function.update w.due t (keQuerySystemTime w.sys.ticks + (w.sys.timer t).period * 10000)
          else w.due
      | [] => w.due
  | _ => w.due

def TimedStep (w : TimedSys) (a : TimerAction) (w' : TimedSys) : Prop :=
  TimerStep w.sys a w'.sys ∧ w'.due = w.dueAfter a

def TimedStart (w : TimedSys) : Prop := TimersBooted w.sys ∧ TimeFits w.sys.ticks

/-- The list is kept in order, due times (LONGLONG) and periods (LONG) come out at ticks, and the
system time is a LONGLONG. -/
def TimedStepOk (w : TimedSys) (a : TimerAction) : Prop :=
  TimerStepOk w.sys a ∧
    match a with
    | .set _ due period _ => -9223372036854775808 ≤ due ∧ due < 9223372036854775808 ∧
        period < 2147483648 ∧ DueOk w.sys.ticks due ∧ PeriodOk period
    | .tickStart => TimeFits (w.sys.ticks + 1)
    | _ => True

/-- The timers of `l` are pending, and a tick takes out those whose time has come: none before,
and all of them unless 16 go. -/
structure TimersTimely (w : TimedSys) (l : List Nat) : Prop where
  list : TimerList w.sys.links l
  early : ∀ w', TimedStepOk w .tickStart → TimedStep w .tickStart w' →
    ∀ t ∈ w'.sys.firing, t ∈ l ∧ w.due t ≤ keQuerySystemTime w'.sys.ticks
  late : ∀ w', TimedStepOk w .tickStart → TimedStep w .tickStart w' →
    (∀ t ∈ l, w.due t ≤ keQuerySystemTime w'.sys.ticks → t ∈ w'.sys.firing) ∨ 16 ≤ w'.sys.firing.length

structure TimedInv (w : TimedSys) (l : List Nat) : Prop where
  inv : TimerInv w.sys l
  fits : TimeFits w.sys.ticks
  onTime : ∀ t ∈ l, OnTime w.sys.ticks (w.sys.timer t).dueTime (w.due t)
  period : ∀ t, t ∈ l ∨ t ∈ w.sys.firing →
    PeriodOk (w.sys.timer t).period ∧ (w.sys.timer t).period < 2147483648

section Step

variable {w w' : TimedSys} {s s' : TimerSys} {l l' : List Nat} {t : Nat} {b : Bool}

theorem keSetTimerEx_effect (h : TimerInv s l) (ht : t ≠ 0) {due period : Int} {dpc : Nat}
    (hrun : keSetTimerEx t due period dpc s = some (b, s')) :
    s'.timer = Function.update s.timer t ⟨dueToTick s.ticks due, dpc, period⟩ ∧ s'.ticks = s.ticks ∧
      s'.firing = s.firing := by
  unfold keSetTimerEx at hrun
  rw [if_neg ht, if_neg (by simp [h.legacy, h.ready])] at hrun
  obtain ⟨L₁, -, hrest⟩ := Option.bind_eq_some_iff.1 hrun
  obtain ⟨L₂, -, heq⟩ := Option.map_eq_some_iff.1 hrest
  cases heq
  exact ⟨rfl, rfl, rfl⟩

theorem keCancelTimer_effect (h : TimerInv s l) (ht : t ≠ 0) (hrun : keCancelTimer t s = some (b, s')) :
    s'.timer = s.timer ∧ s'.ticks = s.ticks ∧ s'.firing = s.firing := by
  unfold keCancelTimer at hrun
  rw [if_neg ht, if_neg (by simp [h.legacy, h.ready])] at hrun
  obtain ⟨L₁, -, heq⟩ := Option.map_eq_some_iff.1 hrun
  cases heq
  exact ⟨rfl, rfl, rfl⟩

theorem keInitializeTimerEx_effect (s : TimerSys) (t : Nat) (type : TimerType) :
    ((keInitializeTimerEx t type s).timer = s.timer ∨
      (keInitializeTimerEx t type s).timer = Function.update s.timer t ⟨0, 0, 0⟩) ∧
      (keInitializeTimerEx t type s).ticks = s.ticks ∧ (keInitializeTimerEx t type s).firing = s.firing := by
  unfold keInitializeTimerEx
  dsimp only
  split
  · exact ⟨.inl rfl, rfl, rfl⟩
  · split
    · exact ⟨.inr rfl, rfl, rfl⟩
    · exact ⟨.inr rfl, rfl, rfl⟩

theorem tickFire_effect (hrun : tickFire s = some s') :
    s'.timer = s.timer ∧ s'.ticks = s.ticks ∧ s'.firing = s.firing := by
  unfold tickFire at hrun
  split at hrun
  case h_1 t rest hfiring =>
    split at hrun
    case isTrue => cases hrun
    case isFalse =>
      cases hrun
      exact ⟨rfl, rfl, hfiring.symm ▸ rfl⟩
  case h_2 => cases hrun

theorem tickRearm_effect {rest : List Nat} (hfiring : s.firing = t :: rest) (hrun : tickRearm s = some s') :
    s'.ticks = s.ticks ∧ s'.firing = rest ∧
      s'.timer = if 0 < (s.timer t).period then
        Function.update s.timer t { s.timer t with dueTime := rearmTick s.ticks (s.timer t).period }
      else s.timer := by
  unfold tickRearm at hrun
  rw [hfiring] at hrun
  dsimp only at hrun
  split at hrun
  case isTrue => cases hrun
  case isFalse =>
    split at hrun
    case isTrue hperiod =>
      obtain ⟨L, -, heq⟩ := Option.map_eq_some_iff.1 hrun
      cases heq
      exact ⟨rfl, rfl, (if_pos hperiod).symm⟩
    case isFalse hperiod =>
      cases hrun
      exact ⟨rfl, rfl, (if_neg hperiod).symm⟩

/-- A step after which no more timers are pending or in the batch, and those that are have what
they had. -/
theorem TimedInv.fewer (h : TimedInv w l) (hinv : TimerInv s' l') (hticks : s'.ticks = w.sys.ticks)
    (hsub : ∀ t ∈ l', t ∈ l) (hfiring : ∀ t ∈ s'.firing, t ∈ w.sys.firing)
    (htimer : ∀ t ∈ l', s'.timer t = w.sys.timer t)
    (hperiod : ∀ t, s'.timer t = w.sys.timer t ∨ (s'.timer t).period = 0) : TimedInv ⟨s', w.due⟩ l' := by
  refine ⟨hinv, ?_, fun t ht => ?_, fun t ht => ?_⟩
  · rw [hticks]
    exact h.fits
  · dsimp only
    rw [hticks, htimer t ht]
    exact h.onTime t (hsub t ht)
  · rcases hperiod t with heq | hzero
    · rw [heq]
      exact h.period t (ht.imp (hsub t) (hfiring t))
    · rw [hzero]
      exact ⟨.inl (by decide), by decide⟩

theorem TimedInv.set (h : TimedInv w l) (ht : t ≠ 0) {due period : Int} {dpc : Nat}
    (hok : TimedStepOk w (.set t due period dpc))
    (hrun : keSetTimerEx t due period dpc w.sys = some (b, s')) :
    TimedInv ⟨s', w.dueAfter (.set t due period dpc)⟩ (l.erase t ++ [t]) := by
  obtain ⟨hlist, hlow, hhigh, hlong, hdue, hperiod⟩ := hok
  obtain ⟨s₁, hrun', hinv⟩ := keSetTimerEx_spec h.inv ht due dpc hlist
  rw [hrun, Option.some.injEq, Prod.mk.injEq] at hrun'
  obtain ⟨-, rfl⟩ := hrun'
  obtain ⟨htimer, hticks, hfiring⟩ := keSetTimerEx_effect h.inv ht hrun
  have hafter : w.dueAfter (.set t due period dpc) =
      Function.update w.due t (dueSystemTime w.sys.ticks due) := if_neg ht
  rw [hafter]
  refine ⟨hinv, ?_, fun u hu => ?_, fun u hu => ?_⟩
  · rw [hticks]
    exact h.fits
  · dsimp only
    rw [hticks, htimer]
    by_cases hut : u = t
    · rw [hut, Function.update_self, Function.update_self]
      exact onTime_of_dueOk h.fits hlow hhigh hdue
    · rw [Function.update_of_ne hut, Function.update_of_ne hut]
      refine h.onTime u ?_
      rcases List.mem_append.1 hu with hu | hu
      · exact List.mem_of_mem_erase hu
      · exact absurd (List.mem_singleton.1 hu) hut
  · dsimp only at hu ⊢
    rw [htimer]
    by_cases hut : u = t
    · rw [hut, Function.update_self]
      exact ⟨hperiod, hlong⟩
    · rw [Function.update_of_ne hut]
      refine h.period u (hu.imp (fun hu => ?_) fun hu => hfiring ▸ hu)
      rcases List.mem_append.1 hu with hu | hu
      · exact List.mem_of_mem_erase hu
      · exact absurd (List.mem_singleton.1 hu) hut

theorem TimedInv.rearm (h : TimedInv w l) {rest : List Nat} (hfiring : w.sys.firing = t :: rest)
    (hrun : tickRearm w.sys = some s')
    (hinv : TimerInv s' (if 0 < (w.sys.timer t).period then l ++ [t] else l)) :
    TimedInv ⟨s', w.dueAfter .tickRearm⟩ (if 0 < (w.sys.timer t).period then l ++ [t] else l) := by
  obtain ⟨hticks, hrest, htimer⟩ := tickRearm_effect hfiring hrun
  have hsub : ∀ u ∈ rest, u ∈ w.sys.firing := fun u hu => hfiring ▸ List.mem_cons_of_mem t hu
  have hafter : w.dueAfter .tickRearm = if 0 < (w.sys.timer t).period then
      Function.update w.due t (keQuerySystemTime w.sys.ticks + (w.sys.timer t).period * 10000)
      else w.due := by
    unfold TimedSys.dueAfter
    rw [hfiring]
  rw [hafter]
  by_cases hperiod : 0 < (w.sys.timer t).period
  · simp only [if_pos hperiod] at hinv htimer ⊢
    obtain ⟨hok, hlong⟩ := h.period t (.inr (hfiring ▸ List.mem_cons_self))
    refine ⟨hinv, ?_, fun u hu => ?_, fun u hu => ?_⟩
    · rw [hticks]
      exact h.fits
    · dsimp only
      rw [hticks, htimer]
      by_cases hut : u = t
      · rw [hut, Function.update_self, Function.update_self]
        exact onTime_of_periodOk h.fits hperiod hlong hok
      · rw [Function.update_of_ne hut, Function.update_of_ne hut]
        refine h.onTime u ?_
        rcases List.mem_append.1 hu with hu | hu
        · exact hu
        · exact absurd (List.mem_singleton.1 hu) hut
    · dsimp only at hu ⊢
      rw [htimer]
      by_cases hut : u = t
      · rw [hut, Function.update_self]
        exact ⟨hok, hlong⟩
      · rw [Function.update_of_ne hut]
        refine h.period u (hu.imp (fun hu => ?_) fun hu => hsub u (hrest ▸ hu))
        rcases List.mem_append.1 hu with hu | hu
        · exact hu
        · exact absurd (List.mem_singleton.1 hu) hut
  · simp only [if_neg hperiod] at hinv htimer ⊢
    exact h.fewer hinv hticks (fun _ => id) (fun u hu => hsub u (hrest ▸ hu))
      (fun u _ => congrFun htimer u) fun u => .inl (congrFun htimer u)

theorem TimedInv.tick (h : TimedInv w l) (hfits : TimeFits (w.sys.ticks + 1)) (hinv : TimerInv s' l')
    (htook : TickTook w.sys s' l l') : s'.ticks = w.sys.ticks + 1 ∧ TimedInv ⟨s', w.due⟩ l' := by
  have hticks : s'.ticks = w.sys.ticks + 1 := by
    have hbound := timeFits_iff.1 hfits
    rw [htook.ticks, Nat.mod_eq_of_lt (by omega)]
  refine ⟨hticks, hinv, ?_, fun t ht => ?_, fun t ht => ?_⟩
  · rw [hticks]
    exact hfits
  · dsimp only
    rw [hticks, htook.timer]
    exact (h.onTime t ((htook.kept t).1 ht).1).later (Nat.le_succ _)
  · dsimp only at ht ⊢
    rw [htook.timer]
    exact h.period t (.inl (ht.elim (fun ht => ((htook.kept t).1 ht).1) fun ht => (htook.took t ht).1))

theorem timedStep_inv (h : TimedInv w l) {a : TimerAction} (hok : TimedStepOk w a)
    (hstep : TimedStep w a w') : ∃ l', TimedInv w' l' := by
  obtain ⟨s', due'⟩ := w'
  obtain ⟨⟨fuel, hrun⟩, hdue⟩ := hstep
  dsimp only at hrun hdue
  subst hdue
  cases a with
  | initTimer t type =>
    cases hrun
    obtain ⟨htimer, hticks, hfiring⟩ := keInitializeTimerEx_effect w.sys t type
    have hinv := keInitializeTimerEx_inv h.inv type hok.1
    have hout : t ∉ l := fun hin => by
      have hset : timerSet w.sys.links t = true := h.inv.list.timerSet_iff.2 hin
      rw [show timerSet w.sys.links t = false from hok.1] at hset
      cases hset
    refine ⟨l, h.fewer hinv hticks (fun _ => id) (fun u hu => hfiring ▸ hu) (fun u hu => ?_) fun u => ?_⟩
    · rcases htimer with heq | heq
      · rw [heq]
      · rw [heq, Function.update_of_ne fun hut : u = t => hout (hut ▸ hu)]
    · rcases htimer with heq | heq
      · exact .inl (congrFun heq u)
      · rw [heq]
        by_cases hut : u = t
        · rw [hut, Function.update_self]
          exact .inr rfl
        · exact .inl (Function.update_of_ne hut ..)
  | set t due period dpc =>
    by_cases ht : t = 0
    · have hsame : keSetTimerEx t due period dpc w.sys = some (false, w.sys) := if_pos ht
      simp only [timerStep, hsame, Option.map_some, Option.some.injEq] at hrun
      subst hrun
      have hafter : w.dueAfter (.set t due period dpc) = w.due := if_pos ht
      rw [hafter]
      exact ⟨l, h⟩
    · obtain ⟨r, hset, rfl⟩ := Option.map_eq_some_iff.1 hrun
      exact ⟨_, h.set ht hok hset⟩
  | cancel t =>
    by_cases ht : t = 0
    · have hsame : keCancelTimer t w.sys = some (false, w.sys) := if_pos ht
      simp only [timerStep, hsame, Option.map_some, Option.some.injEq] at hrun
      subst hrun
      exact ⟨l, h⟩
    · obtain ⟨r, hcancel, rfl⟩ := Option.map_eq_some_iff.1 hrun
      obtain ⟨s₁, hrun', hinv⟩ := keCancelTimer_spec h.inv ht hok.1
      rw [hcancel, Option.some.injEq] at hrun'
      subst hrun'
      obtain ⟨htimer, hticks, hfiring⟩ := keCancelTimer_effect h.inv ht hcancel
      exact ⟨_, h.fewer hinv hticks (fun _ => List.mem_of_mem_erase) (fun u hu => hfiring ▸ hu)
        (fun u _ => congrFun htimer u) fun u => .inl (congrFun htimer u)⟩
  | tickStart =>
    obtain ⟨l', hinv, htook⟩ := tickStart_inv h.inv hrun
    exact ⟨l', (h.tick hok.2 hinv htook).2⟩
  | tickFire =>
    obtain ⟨htimer, hticks, hfiring⟩ := tickFire_effect hrun
    exact ⟨l, h.fewer (tickFire_spec h.inv hrun) hticks (fun _ => id) (fun u hu => hfiring ▸ hu)
      (fun u _ => congrFun htimer u) fun u => .inl (congrFun htimer u)⟩
  | tickRearm =>
    cases hfiring : w.sys.firing with
    | nil =>
      simp only [timerStep, tickRearm, hfiring] at hrun
      cases hrun
    | cons t rest =>
      cases hcalled : w.sys.called with
      | false =>
        simp only [timerStep, tickRearm, hfiring, hcalled] at hrun
        cases hrun
      | true =>
        obtain ⟨s₁, hrun', hinv⟩ := tickRearm_spec h.inv hfiring hcalled
        have hsame : tickRearm w.sys = some s' := hrun
        rw [hsame, Option.some.injEq] at hrun'
        subst hrun'
        exact ⟨_, h.rearm hfiring hsame hinv⟩

theorem TimedInv.timely (h : TimedInv w l) : TimersTimely w l := by
  have hboth : ∀ w', TimedStepOk w .tickStart → TimedStep w .tickStart w' →
      (∀ t ∈ w'.sys.firing, t ∈ l ∧ w.due t ≤ keQuerySystemTime w'.sys.ticks) ∧
        ((∀ t ∈ l, w.due t ≤ keQuerySystemTime w'.sys.ticks → t ∈ w'.sys.firing) ∨
          16 ≤ w'.sys.firing.length) := by
    rintro w' ⟨-, hfits⟩ ⟨⟨fuel, hrun⟩, -⟩
    obtain ⟨l', hinv, htook⟩ := tickStart_inv h.inv hrun
    obtain ⟨hticks, -⟩ := h.tick hfits hinv htook
    have hiff : ∀ t ∈ l, (w.sys.timer t).dueTime ≤ w'.sys.ticks ↔
        w.due t ≤ keQuerySystemTime w'.sys.ticks := fun t ht => by
      rw [hticks]
      exact h.onTime t ht _ (Nat.lt_succ_self _) hfits
    refine ⟨fun t ht => ?_, htook.late.imp_left fun hlate t ht hdue => ?_⟩
    · obtain ⟨hin, hdue⟩ := htook.took t ht
      exact ⟨hin, (hiff t hin).1 hdue⟩
    · by_contra hout
      exact absurd ((hiff t ht).2 hdue) (Nat.not_le.2 (hlate t ((htook.kept t).2 ⟨ht, hout⟩)))
  exact ⟨h.inv.list, fun w' hok hstep => (hboth w' hok hstep).1, fun w' hok hstep => (hboth w' hok hstep).2⟩

end Step

theorem timedReach_inv {w : TimedSys} (h : Reach TimedStart TimedStep TimedStepOk w) :
    ∃ l, TimedInv w l := by
  apply h.invariant
  · rintro w ⟨hboot, hfits⟩
    have hidle : w.sys.firing = [] := by
      obtain ⟨s₀, heq, -, hfiring, -⟩ := hboot
      rw [heq]
      exact hfiring
    refine ⟨[], timersBooted_inv hboot, hfits, List.forall_mem_nil _, fun t ht => ?_⟩
    rw [hidle] at ht
    exact absurd (ht.elim id id) List.not_mem_nil
  · rintro w a w' ⟨l, hl⟩ hok hstep
    exact timedStep_inv hl hok hstep

/-- The three conversions are right for these times and no others, and in every run that keeps
to them each tick takes out the timers whose time has come. -/
theorem timers_on_time (w : TimedSys) (h : Reach TimedStart TimedStep TimedStepOk w) :
    (∃ l, TimersTimely w l) ∧
    (∀ ticks due, TimeFits (ticks + 1) → -9223372036854775808 ≤ due → due < 9223372036854775808 →
      dueSystemTime ticks due + 200000 < 9223372036854775808 →
      (OnTime ticks (dueToTick ticks due) (dueSystemTime ticks due) ↔ DueOk ticks due)) ∧
    (∀ ticks period, 0 < period → period < 2147483648 → TimeFits (ticks + period.toNat / 10) →
      (OnTime ticks (rearmTick ticks period) (keQuerySystemTime ticks + period * 10000) ↔
        PeriodOk period)) ∧
    ∀ ticks v, -9223372036854775808 ≤ v → v < 0 → TimeFits (ticks + (-v).toNat / 100000) →
      (DelayElapsed v ticks ↔ v % 100000 = 0) := by
  obtain ⟨l, hl⟩ := timedReach_inv h
  exact ⟨⟨l, hl.timely⟩, fun _ _ hnext hlow hhigh hrange => onTime_set_iff hnext hlow hhigh hrange,
    fun _ _ hpos hhigh hrange => onTime_rearm_iff hpos hhigh hrange,
    fun _ _ hlow hneg hrange => delayElapsed_iff hlow hneg hrange⟩

instance (ticks : Nat) : Decidable (TimeFits ticks) := inferInstanceAs (Decidable (_ < _))

instance (ticks : Nat) (due : Int) : Decidable (DueOk ticks due) :=
  inferInstanceAs (Decidable (if due < 0 then _ else _))

instance (period : Int) : Decidable (PeriodOk period) := inferInstanceAs (Decidable (_ ∨ _))

instance (w : TimedSys) (a : TimerAction) : Decidable (TimedStepOk w a) :=
  match a with
  | .set _ _ _ _ => inferInstanceAs (Decidable (_ ∧ _))
  | .tickStart => inferInstanceAs (Decidable (_ ∧ _))
  | .initTimer _ _ | .cancel _ | .tickFire | .tickRearm => inferInstanceAs (Decidable (_ ∧ _))

def bootedClock : TimedSys := ⟨bootedTimers, fun _ => 0⟩

theorem bootedClock_start : TimedStart bootedClock := ⟨bootedTimers_booted, by decide⟩

def timedNext (w : TimedSys) (a : TimerAction) : Option TimedSys :=
  (timerStep 8 w.sys a).map fun s => ⟨s, w.dueAfter a⟩

theorem timedNext_step {w w' : TimedSys} {a : TimerAction} (h : timedNext w a = some w') :
    TimedStep w a w' := by
  obtain ⟨s, hrun, rfl⟩ := Option.map_eq_some_iff.1 h
  exact ⟨⟨8, hrun⟩, rfl⟩

/-- 20 ms, and then every 20 ms. -/
def timelyActions : List TimerAction :=
  [.initTimer 5 .synchronization, .set 5 (-200000) 20 77, .tickStart, .tickStart, .tickFire, .tickRearm,
    .tickStart]

theorem timers_on_time_periodic : ∃ w, (∃ l, TimersTimely w l) ∧
    w.sys.log = [.tick, .fired 5, .tick, .tick, .set 5 false] := by
  have hlog : (runSteps (fun w a => if TimedStepOk w a then timedNext w a else none) timelyActions
      bootedClock).map (fun w => w.sys.log) = some [.tick, .fired 5, .tick, .tick, .set 5 false] := by
    decide +kernel
  obtain ⟨w, hrun, hw⟩ := Option.map_eq_some_iff.1 hlog
  have hreach : Reach TimedStart TimedStep TimedStepOk w :=
    runGuarded_reach (fun _ _ => id) (fun _ _ _ => timedNext_step) (.start bootedClock_start) hrun
  exact ⟨w, (timers_on_time w hreach).1, hw⟩

/-- 15 ms are over after 10. -/
theorem timer_too_early : ∃ w w', Reach TimedStart TimedStep (fun _ _ => True) w ∧
    TimedStep w .tickStart w' ∧ w'.sys.firing = [5] ∧ keQuerySystemTime w'.sys.ticks < w.due 5 := by
  have hrun : ((runSteps timedNext [.initTimer 5 .notification, .set 5 (-150000) 0 0] bootedClock).bind
      fun w => (timedNext w .tickStart).map fun w' =>
        (w'.sys.firing, decide (keQuerySystemTime w'.sys.ticks < w.due 5))) = some ([5], true) := by
    decide +kernel
  obtain ⟨w, hsteps, hrest⟩ := Option.bind_eq_some_iff.1 hrun
  obtain ⟨w', htick, heq⟩ := Option.map_eq_some_iff.1 hrest
  obtain ⟨hfiring, hearly⟩ := Prod.mk.inj heq
  have hreach : Reach TimedStart TimedStep (fun _ _ => True) w :=
    runSteps_reach (fun _ _ _ h => ⟨trivial, timedNext_step h⟩) (.start bootedClock_start) hsteps
  exact ⟨w, w', hreach, timedNext_step htick, hfiring, of_decide_eq_true hearly⟩

end MeuOS.Ke
