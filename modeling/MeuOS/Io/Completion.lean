import MeuOS.Io.Descent

/-! The completion walk plays the frames back from the bottom up, through any number of
halts. What is left is when the counters let it, and when a frame that fires was put
there by the driver it belongs to. -/
namespace MeuOS.Io

open MeuOS.Lib

/-! ## The way up -/

/-- An IRP in a walk: everything but the cursors is as in `base`. -/
structure Walking (base irp : Irp) (sc : Nat) : Prop where
  stackCount : irp.stackCount = schar sc
  allocated : irp.allocated = sc + 1
  current : irp.currentLocation = schar (irp.currentStackLocation + 1)
  locations : irp.locations = base.locations
  status : irp.status = base.status
  cancel : irp.cancel = base.cancel
  userIosb : irp.userIosb = base.userIosb
  userEvent : irp.userEvent = base.userEvent

theorem Walking.ascend {base irp : Irp} {sc : Nat} (h : Walking base irp sc) :
    Walking base irp.ascend sc := by
  refine ⟨h.stackCount, h.allocated, ?_, h.locations, h.status, h.cancel, h.userIosb, h.userEvent⟩
  simp only [Irp.ascend, h.current, schar_schar_add, Nat.cast_add, Nat.cast_one]

theorem Walking.pending {base irp : Irp} {sc : Nat} (h : Walking base irp sc) (p : Nat) :
    Walking base { irp with pendingReturned := p } sc :=
  ⟨h.stackCount, h.allocated, h.current, h.locations, h.status, h.cancel, h.userIosb, h.userEvent⟩

theorem Walking.finish {base irp : Irp} {sc : Nat} (h : Walking base irp sc) :
    irp.finish = base.finish := by
  unfold Irp.finish
  rw [h.userIosb, h.userEvent, h.status]

/-- From location `lo` up the counter stays within its bound exactly as long as there are
locations left. -/
def Counts (sc lo : Nat) : Prop :=
  ∀ x : Nat, lo ≤ x → x ≤ sc →
    ((schar (x + 2) ≤ schar (sc + 1) ↔ x < sc) ∧ (schar (x + 2) = schar (sc + 1) ↔ x + 1 = sc))

theorem Walking.bound {base irp : Irp} {sc lo i : Nat} (h : Walking base irp sc)
    (hcounts : Counts sc lo) (hlo : lo ≤ i) (hi : i ≤ sc) (hcsl : irp.currentStackLocation = i + 1) :
    (irp.currentLocation ≤ schar (irp.stackCount + 1) ↔ i < sc) ∧
      (irp.currentLocation = schar (irp.stackCount + 1) ↔ i + 1 = sc) := by
  have hcur : irp.currentLocation = schar (i + 2) := by
    rw [h.current, hcsl]
    rfl
  rw [hcur, h.stackCount, schar_schar_add]
  exact hcounts i hlo hi

/-- One pass of the loop body over a frame. -/
theorem ioCompleteLoop_step (mpr : Nat → Bool) (fuel : Nat) {base irp : Irp} {sc lo i : Nat}
    {f : Frame} {fs : List Frame} (h : Walking base irp sc) (hcounts : Counts sc lo) (hlo : lo ≤ i)
    (hdepth : i + (f :: fs).length = sc) (hcsl : irp.currentStackLocation = i + 1)
    (hholds : Holds base.locations i (f :: fs)) :
    ∃ irp', Walking base irp' sc ∧ irp'.currentStackLocation = i + 1 ∧
      ioCompleteLoop mpr (fuel + 1) irp i =
        if f.fires base.status base.cancel = true ∧ mpr i = true then
          some (irp', frameEvents base.status base.cancel i [f], true)
        else (ioCompleteLoop mpr fuel irp'.ascend (i + 1)).map
          (Walk.after (frameEvents base.status base.cancel i [f])) := by
  simp only [List.length_cons] at hdepth
  obtain ⟨hc, hr, hx, habove, -⟩ := hholds
  obtain ⟨henter, htop⟩ := h.bound hcounts hlo (by omega) hcsl
  refine ⟨_, h.pending ((base.locations i).control &&& slPendingReturned), hcsl, ?_⟩
  have hin : i < irp.allocated := by
    rw [h.allocated]
    omega
  have hdevice : Irp.callbackDevice { irp with
      pendingReturned := (base.locations i).control &&& slPendingReturned } = some f.above := by
    unfold Irp.callbackDevice
    simp only [htop, h.allocated, h.locations, hcsl]
    by_cases hlast : fs = []
    · subst hlast
      rw [if_pos rfl] at habove
      rw [if_pos (by simpa using hdepth), habove]
    · have hmore : i + 1 ≠ sc := by
        have := List.length_pos_of_ne_nil hlast
        omega
      rw [if_neg hlast] at habove
      rw [if_neg hmore, if_pos (by omega), habove]
  have hfires : (invokes irp.status irp.cancel (irp.locations i).control = true ∧
      (irp.locations i).completionRoutine ≠ 0) ↔ f.fires base.status base.cancel = true := by
    rw [h.status, h.cancel, h.locations, hc, hr, Frame.fires, Bool.and_eq_true, bne_iff_ne]
  rw [ioCompleteLoop, if_pos (henter.mpr (by omega)), if_pos hin]
  simp only [hfires]
  simp only [h.locations] at hdevice ⊢
  rw [hdevice, Option.bind_some, hr, hx]
  unfold frameEvents frameEvents Frame.invocation
  by_cases hf : f.fires base.status base.cancel = true
  · simp [hf]
  · simp [hf]

/-- One call of the walk: it plays all frames back and finishes, or halts behind some. -/
theorem ioCompleteLoop_spec (mpr : Nat → Bool) {base irp : Irp} {sc lo i fuel : Nat}
    {fs : List Frame} (h : Walking base irp sc) (hcounts : Counts sc lo) (hlo : lo ≤ i)
    (hdepth : i + fs.length = sc) (hcsl : irp.currentStackLocation = i + 1)
    (hholds : Holds base.locations i fs) (hfuel : fs.length < fuel) :
    (∃ irp', ioCompleteLoop mpr fuel irp i =
      some (irp', frameEvents base.status base.cancel i fs ++ base.finish, false)) ∨
    ∃ irp' pre post, ioCompleteLoop mpr fuel irp i =
        some (irp', frameEvents base.status base.cancel i pre, true) ∧
      fs = pre ++ post ∧ pre ≠ [] ∧ Walking base irp' sc ∧
      irp'.currentStackLocation = i + pre.length := by
  induction fs generalizing irp i fuel with
  | nil =>
    obtain ⟨fuel, rfl⟩ : ∃ k, fuel = k + 1 := ⟨fuel - 1, by omega⟩
    simp only [List.length_nil, Nat.add_zero] at hdepth
    have hend := (h.bound hcounts hlo (by omega) hcsl).1
    left
    rw [ioCompleteLoop, if_neg (by rw [hend]; omega)]
    exact ⟨irp, by rw [h.finish]; rfl⟩
  | cons f fs ih =>
    obtain ⟨fuel, rfl⟩ : ∃ k, fuel = k + 1 := ⟨fuel - 1, by omega⟩
    simp only [List.length_cons] at hdepth hfuel
    obtain ⟨irp₁, hwalk, hcsl₁, hstep⟩ := ioCompleteLoop_step mpr fuel h hcounts
      hlo hdepth hcsl hholds
    rw [hstep]
    split
    case isTrue =>
      right
      exact ⟨irp₁, [f], fs, rfl, rfl, List.cons_ne_nil f [], hwalk, hcsl₁⟩
    case isFalse =>
      have hcsl₂ : irp₁.ascend.currentStackLocation = i + 1 + 1 := by
        simp only [Irp.ascend, hcsl₁]
      have happend : ∀ gs, frameEvents base.status base.cancel i [f] ++
          frameEvents base.status base.cancel (i + 1) gs =
            frameEvents base.status base.cancel i (f :: gs) :=
        fun gs => (frameEvents_append base.status base.cancel i [f] gs).symm
      rcases ih (i := i + 1) hwalk.ascend (by omega) (by omega) hcsl₂ hholds.2.2.2.2
        (show fs.length < fuel by omega) with
        ⟨irp₂, hrun⟩ | ⟨irp₂, pre, post, hrun, hsplit, -, hwalk₂, hcsl₃⟩
      · left
        refine ⟨irp₂, ?_⟩
        rw [hrun, Option.map_some, Walk.after, ← List.append_assoc, happend]
      · right
        refine ⟨irp₂, f :: pre, post, ?_, by rw [hsplit]; rfl, List.cons_ne_nil f pre, hwalk₂, ?_⟩
        · rw [hrun, Option.map_some, Walk.after, happend]
        · rw [hcsl₃, List.length_cons]
          omega

theorem Holds.drop {locations : Nat → StackLocation} {i : Nat} {pre post : List Frame}
    (h : Holds locations i (pre ++ post)) : Holds locations (i + pre.length) post := by
  induction pre generalizing i with
  | nil => exact h
  | cons f pre ih =>
    have hrest := ih h.2.2.2.2
    rwa [List.length_cons, Nat.add_comm pre.length 1, ← Nat.add_assoc]

/-- Halted and resumed any number of times, the walk plays every frame back once. -/
theorem completeAndResume_spec (mpr : Nat → Bool) {base irp : Irp} {sc lo fuel : Nat}
    {fs : List Frame} (h : Walking base irp sc) (hcounts : Counts sc lo)
    (hlo : lo ≤ irp.currentStackLocation) (hdepth : irp.currentStackLocation + fs.length = sc)
    (hholds : Holds base.locations irp.currentStackLocation fs) (hfuel : fs.length < fuel) :
    completeAndResume mpr fuel irp =
      some (frameEvents base.status base.cancel irp.currentStackLocation fs ++ base.finish) := by
  induction fuel generalizing irp fs with
  | zero => omega
  | succ fuel ih =>
    have hlen : fs.length < irp.allocated + 1 := by
      rw [h.allocated]
      omega
    rw [completeAndResume, ioCompleteRequest]
    rcases ioCompleteLoop_spec mpr h.ascend hcounts hlo hdepth rfl hholds hlen with
      ⟨irp', hrun⟩ | ⟨irp', pre, post, hrun, hsplit, hne, hwalk, hcsl⟩
    · simp [hrun]
    · subst hsplit
      have hpos := List.length_pos_of_ne_nil hne
      rw [List.length_append] at hdepth hfuel
      have hrest := ih hwalk (by omega) (by omega) (hcsl ▸ hholds.drop) (by omega)
      rw [hrun, Option.bind_some]
      simp only [if_true, hrest, Option.map_some, hcsl]
      rw [frameEvents_append, List.append_assoc]

/-! ## What the frames say about the registrations -/

theorem frameEvents_invoke (status : Int) (cancel : Bool) (i : Nat) (fs : List Frame) :
    (frameEvents status cancel i fs).filter Event.isInvoke =
      (fs.filter fun f => f.fires status cancel).map Frame.invocation := by
  induction fs generalizing i with
  | nil => rfl
  | cons f fs ih =>
    by_cases hf : f.fires status cancel = true
    · simp [frameEvents, hf, ih, List.filter_cons, Frame.invocation]
    · simp [frameEvents, hf, ih]

theorem frameEvents_visit (status : Int) (cancel : Bool) (i : Nat) (fs : List Frame) :
    (frameEvents status cancel i fs).filter Event.isVisit =
      (List.range' i fs.length).map .visit := by
  induction fs generalizing i with
  | nil => rfl
  | cons f fs ih =>
    rw [List.length_cons, List.range'_succ, List.map_cons, ← ih]
    by_cases hf : f.fires status cancel = true
    · simp [frameEvents, hf, List.filter_cons, Frame.invocation]
    · simp [frameEvents, hf, List.filter_cons]

theorem frameEvents_walk {status : Int} {cancel : Bool} {i : Nat} {fs : List Frame} {e : Event}
    (h : e ∈ frameEvents status cancel i fs) : e.isVisit = true ∨ e.isInvoke = true := by
  induction fs generalizing i with
  | nil => cases h
  | cons f fs ih =>
    simp only [frameEvents, List.cons_append, List.mem_cons, List.mem_append] at h
    rcases h with rfl | h | h
    · exact .inl rfl
    · split at h
      · obtain rfl := List.mem_singleton.mp h
        exact .inr rfl
      · cases h
    · exact ih h

/-- A level that only copies does so from a location whose routine does not fire: the
condition on the drivers, from the location holding `held` down. -/
def NoStaleCopy (status : Int) (cancel : Bool) : Option Registration → List Level → Prop
  | _, [] => True
  | held, l :: ls =>
      match l.choice with
      | .copy => (∀ r ∈ held, r.fires status cancel = false) ∧ NoStaleCopy status cancel held ls
      | .copySet r => NoStaleCopy status cancel (some r) ls
      | .skip => NoStaleCopy status cancel held ls

/-- Every frame that fires is at the level that registered it. -/
def AllOwn (status : Int) (cancel : Bool) (fs : List Frame) : Prop :=
  ∀ f ∈ fs, f.fires status cancel = true → f.own = true

theorem fires_none (status : Int) (cancel : Bool) (f : Frame) (h : f.routine = 0) :
    f.fires status cancel = false := by
  simp [Frame.fires, h]

theorem allOwn_pushLevels {status : Int} {cancel : Bool} (f : Frame) (fs : List Frame)
    (held : Option Registration) (ls : List Level)
    (hheld : f.fires status cancel = true ↔ ∃ r ∈ held, r.fires status cancel = true) :
    AllOwn status cancel (pushLevels (f :: fs) ls) ↔
      AllOwn status cancel (f :: fs) ∧ NoStaleCopy status cancel held ls := by
  induction ls generalizing f fs held with
  | nil => simp [pushLevels, NoStaleCopy]
  | cons l ls ih =>
    change AllOwn status cancel (pushLevels (l.choice.push l.device (f :: fs)) ls) ↔ _
    unfold NoStaleCopy
    cases l.choice with
    | skip => exact ih f fs held hheld
    | copySet r =>
      have hfires := ofRegistration_fires r l.device status cancel
      have hnext := ih (Frame.ofRegistration r l.device) (f :: fs) (some r)
        (by simp [hfires])
      refine hnext.trans (and_congr_left fun _ => ?_)
      unfold AllOwn
      simp [Frame.ofRegistration]
    | copy =>
      have hsame : ({ f with above := l.device, own := false } : Frame).fires status cancel =
          f.fires status cancel := rfl
      have hnext := ih { f with above := l.device, own := false } (f :: fs) held
        (by rw [hsame, hheld])
      refine hnext.trans ?_
      have hnone : (∀ r ∈ held, r.fires status cancel = false) ↔ f.fires status cancel = false := by
        rw [← Bool.not_eq_true, hheld]
        simp
      unfold AllOwn
      simp only [hnone, List.forall_mem_cons, hsame, Bool.false_eq_true, imp_false, Bool.not_eq_true]
      tauto

theorem frames_allOwn (q : Request) :
    AllOwn q.status q.cancel q.frames ↔ NoStaleCopy q.status q.cancel q.originator q.levels := by
  have htop : AllOwn q.status q.cancel [topFrame q.originator] := by
    intro f hf hfires
    obtain rfl := List.mem_singleton.mp hf
    cases horig : q.originator with
    | none => simp [horig, topFrame, fires_none] at hfires
    | some r => rfl
  unfold Request.frames
  rw [allOwn_pushLevels (topFrame q.originator) [] q.originator]
  · exact and_iff_right htop
  · cases q.originator with
    | none => simp [topFrame, fires_none]
    | some r => simp [topFrame, ofRegistration_fires]

def ownInvocations (status : Int) (cancel : Bool) (fs : List Frame) : List Event :=
  (fs.filter fun f => f.own && f.fires status cancel).map Frame.invocation

theorem ownInvocations_pushLevels (status : Int) (cancel : Bool) {fs : List Frame} (hfs : fs ≠ [])
    (ls : List Level) :
    ownInvocations status cancel (pushLevels fs ls) =
      (((ls.filterMap Level.registration).reverse.filter fun p => p.1.fires status cancel).map
        fun p => .invoke p.1.routine p.2 p.1.context) ++ ownInvocations status cancel fs := by
  induction ls generalizing fs with
  | nil => rfl
  | cons l ls ih =>
    change ownInvocations status cancel (pushLevels (l.choice.push l.device fs) ls) = _
    rw [ih (push_ne_nil hfs l.device l.choice), List.filterMap_cons]
    obtain ⟨f, gs, rfl⟩ := List.exists_cons_of_ne_nil hfs
    unfold Level.registration
    cases l.choice with
    | skip => rfl
    | copy => simp [ownInvocations, Choice.push]
    | copySet r =>
      have hfires := ofRegistration_fires r l.device status cancel
      have hown : (Frame.ofRegistration r l.device).own = true := rfl
      have hinv : (Frame.ofRegistration r l.device).invocation =
        .invoke r.routine l.device r.context := rfl
      by_cases hr : r.fires status cancel = true
      · simp [ownInvocations, Choice.push, List.filter_cons, hfires, hown, hr, hinv]
      · simp [ownInvocations, Choice.push, List.filter_cons, hfires, hr]

/-- The registrations that fire are the frames that fire at their own level. -/
theorem expected_eq (q : Request) : q.expected = ownInvocations q.status q.cancel q.frames := by
  unfold Request.frames Request.expected Request.registrations
  rw [ownInvocations_pushLevels _ _ (List.cons_ne_nil _ _), List.reverse_append, List.filter_append,
    List.map_append]
  congr 1
  cases q.originator with
  | none => simp [ownInvocations, topFrame]
  | some r =>
    have hfires := ofRegistration_fires r 0 q.status q.cancel
    have hown : (Frame.ofRegistration r 0).own = true := rfl
    have hinv : (Frame.ofRegistration r 0).invocation = .invoke r.routine 0 r.context := rfl
    by_cases hr : r.fires q.status q.cancel = true
    · simp [ownInvocations, topFrame, hfires, hown, hr, hinv]
    · simp [ownInvocations, topFrame, hfires, hr]

/-- Counting shows that an extra invocation cannot hide. -/
theorem invocations_eq_iff (status : Int) (cancel : Bool) (fs : List Frame) :
    (fs.filter fun f => f.fires status cancel).map Frame.invocation =
      ownInvocations status cancel fs ↔ AllOwn status cancel fs := by
  have hfilter : (fs.filter fun f => f.own && f.fires status cancel) =
      (fs.filter fun f => f.fires status cancel).filter Frame.own := by
    rw [List.filter_filter]
  unfold ownInvocations
  rw [hfilter]
  constructor
  · intro heq f hf hfires
    have hlen := congrArg List.length heq
    rw [List.length_map, List.length_map] at hlen
    have hall := List.length_filter_eq_length_iff.mp hlen.symm
    exact hall f (List.mem_filter.mpr ⟨hf, hfires⟩)
  · intro hall
    have hkeep : ((fs.filter fun f => f.fires status cancel).filter Frame.own) =
        fs.filter fun f => f.fires status cancel := by
      apply List.filter_eq_self.mpr
      intro f hf
      obtain ⟨hmem, hfires⟩ := List.mem_filter.mp hf
      exact hall f hmem hfires
    rw [hkeep]

/-! ## The counters -/

/-- With `used` of `sc` locations in use, the `signed char` counters stay in step. -/
def CountersFit (sc used : Nat) : Prop := sc ≤ 125 ∨ (127 ≤ sc ∧ used + 126 ≤ sc)

theorem CountersFit.counts {sc used : Nat} (h : CountersFit sc used) (hsc : sc < 256) :
    Counts sc (sc - used) := by
  intro x hlo hhi
  unfold CountersFit at h
  unfold schar
  rcases h with h | ⟨h, hused⟩
  · constructor <;> omega
  · constructor <;> omega

/-- From depth 127 on a walk over too many locations is past its bound at once. -/
theorem bound_lt_of_deep {sc used : Nat} (hsc : sc < 256) (hdeep : 127 ≤ sc) (hfit : used ≤ sc)
    (hmany : sc < used + 126) : schar (sc + 1) < schar ((sc - used : Nat) + 1 + 1) := by
  unfold schar
  omega

/-- With depth 126 the bound is the largest `signed char`: no walk comes to an end. -/
theorem ioCompleteLoop_kept (mpr : Nat → Bool) (irp : Irp) {fuel sp : Nat} {r : Walk}
    (hcount : irp.stackCount = schar 126) (hcur : irp.currentLocation ≤ 127)
    (h : ioCompleteLoop mpr fuel irp sp = some r) : r.2.2 = true ∧ r.1.stackCount = schar 126 := by
  have htop : schar (schar 126 + 1) = 127 := by decide
  induction fuel generalizing irp sp r with
  | zero => cases h
  | succ fuel ih =>
    have hrest : ∀ {p r'}, ioCompleteLoop mpr fuel (Irp.ascend { irp with pendingReturned := p })
        (sp + 1) = some r' → r'.2.2 = true ∧ r'.1.stackCount = schar 126 :=
      fun hrun => ih (Irp.ascend { irp with pendingReturned := _ }) hcount (schar_le _) hrun
    rw [ioCompleteLoop, if_pos (by rw [hcount, htop]; exact hcur)] at h
    split at h
    case isFalse => cases h
    case isTrue =>
      simp only at h
      split at h
      case isTrue =>
        obtain ⟨device, -, h⟩ := Option.bind_eq_some_iff.mp h
        split at h
        case isTrue =>
          cases h
          exact ⟨rfl, hcount⟩
        case isFalse =>
          obtain ⟨r', hrun, rfl⟩ := Option.map_eq_some_iff.mp h
          obtain ⟨hkept, hcount'⟩ := hrest hrun
          exact ⟨hkept, hcount'⟩
      case isFalse =>
        obtain ⟨r', hrun, rfl⟩ := Option.map_eq_some_iff.mp h
        obtain ⟨hkept, hcount'⟩ := hrest hrun
        exact ⟨hkept, hcount'⟩

theorem completeAndResume_endless (mpr : Nat → Bool) {irp : Irp} (fuel : Nat)
    (hcount : irp.stackCount = schar 126) : completeAndResume mpr fuel irp = none := by
  induction fuel generalizing irp with
  | zero => rfl
  | succ fuel ih =>
    rw [completeAndResume]
    cases hrun : ioCompleteRequest mpr irp with
    | none => rfl
    | some r =>
      obtain ⟨irp', es, kept⟩ := r
      obtain ⟨hkept, hcount'⟩ := ioCompleteLoop_kept mpr irp.ascend hcount (schar_le _) hrun
      simp only at hkept hcount'
      rw [Option.bind_some]
      simp only [hkept, if_true, ih hcount', Option.map_none]

/-! ## The whole request -/

/-- The IRP at the bottom of the stack, its outcome set, ready to be completed. -/
theorem Request.reaches_bottom (q : Request) (hfit : q.used ≤ q.stackCount) :
    ∃ irp, q.run = completeAndResume q.mpr (irp.allocated + 1) irp ∧
      Walking irp irp q.stackCount ∧ irp.currentStackLocation = q.stackCount - q.used ∧
      Holds irp.locations irp.currentStackLocation q.frames ∧ irp.status = q.status ∧
      irp.cancel = q.cancel ∧ irp.finish = q.deliveries := by
  have hlen : q.frames.length = q.used := by
    rw [Request.frames, pushLevels_length (List.cons_ne_nil _ _), List.length_singleton,
      Request.used, Nat.add_comm]
  obtain ⟨irp₀, hstart, hready⟩ := q.start_ready
  obtain ⟨irp, hdescend, hcalled⟩ := hready.descend (List.cons_ne_nil _ _) q.bottom q.levels
    (hlen.trans_le hfit)
  have hdepth : irp.currentStackLocation + q.frames.length = q.stackCount := hcalled.depth
  refine ⟨{ irp with status := q.status, cancel := q.cancel }, ?_, ⟨hcalled.stackCount,
    hcalled.allocated, hcalled.current, rfl, rfl, rfl, rfl, rfl⟩, ?_, hcalled.holds, rfl, rfl, ?_⟩
  · rw [Request.run, hstart, Option.bind_some, hdescend, Option.bind_some]
  · simp only
    omega
  · simp only [Irp.finish, Request.deliveries, hcalled.userIosb, hcalled.userEvent]

theorem Request.run_of_fit (q : Request) (hsize : q.stackSize < 256) (hfit : q.used ≤ q.stackCount)
    (hcounters : CountersFit q.stackCount q.used) :
    q.run = some (frameEvents q.status q.cancel (q.stackCount - q.used) q.frames ++ q.deliveries) := by
  have hsc : q.stackCount < 256 := by
    unfold Request.stackCount
    split <;> omega
  have hlen : q.frames.length = q.used := by
    rw [Request.frames, pushLevels_length (List.cons_ne_nil _ _), List.length_singleton,
      Request.used, Nat.add_comm]
  obtain ⟨irp, hrun, hwalk, hcsl, hholds, hstatus, hcancel, hfinish⟩ := q.reaches_bottom hfit
  have hall := completeAndResume_spec q.mpr hwalk (hcounters.counts hsc) (Nat.le_of_eq hcsl.symm)
    (by omega) hholds (show q.frames.length < irp.allocated + 1 by rw [hwalk.allocated]; omega)
  rw [hrun, hall, hstatus, hcancel, hcsl, hfinish]

theorem Request.not_delivered_of_overflow (q : Request) (hsize : q.stackSize < 256)
    (hfit : q.used ≤ q.stackCount) (hcounters : ¬CountersFit q.stackCount q.used) :
    ¬q.Delivered := by
  have hsc : q.stackCount < 256 := by
    unfold Request.stackCount
    split <;> omega
  obtain ⟨irp, hrun, hwalk, hcsl, -, -, -, hfinish⟩ := q.reaches_bottom hfit
  rintro ⟨walk, hdone, -, -, hvisits⟩
  rw [hrun] at hdone
  unfold CountersFit at hcounters
  by_cases hendless : q.stackCount = 126
  · have hcount : irp.stackCount = schar 126 := by
      rw [hwalk.stackCount, hendless]
      rfl
    rw [completeAndResume_endless q.mpr _ hcount] at hdone
    cases hdone
  · have hlt := bound_lt_of_deep hsc (by omega) hfit (by omega)
    have hcur : ¬irp.ascend.currentLocation ≤ schar (irp.ascend.stackCount + 1) := by
      simp only [Irp.ascend, hwalk.current, hwalk.stackCount, schar_schar_add, hcsl]
      omega
    have hfin : irp.ascend.finish = q.deliveries := hfinish
    rw [completeAndResume, ioCompleteRequest, ioCompleteLoop, if_neg hcur, Option.bind_some] at hdone
    simp only [Bool.false_eq_true, if_false, hfin, Option.some.injEq] at hdone
    -- nothing is left for the walk, but one location at least was to be visited
    obtain rfl : walk = [] := List.append_left_eq_self.mp hdone.symm
    have hused : q.used ≠ 0 := Nat.succ_ne_zero _
    simp [hused] at hvisits

/-- A request is completed as its drivers were promised exactly when its depth suits the
`signed char` counters and no level copies a routine that fires. -/
theorem Request.delivered_iff (q : Request) (hsize : q.stackSize < 256)
    (hfit : q.used ≤ q.stackCount) :
    q.Delivered ↔ CountersFit q.stackCount q.used ∧
      NoStaleCopy q.status q.cancel q.originator q.levels := by
  by_cases hcounters : CountersFit q.stackCount q.used
  · have hlen : q.frames.length = q.used := by
      rw [Request.frames, pushLevels_length (List.cons_ne_nil _ _), List.length_singleton,
        Request.used, Nat.add_comm]
    have hrun := q.run_of_fit hsize hfit hcounters
    have hinvoke := frameEvents_invoke q.status q.cancel (q.stackCount - q.used) q.frames
    rw [← frames_allOwn, ← invocations_eq_iff, ← expected_eq, ← hinvoke]
    constructor
    · rintro ⟨walk, hdone, -, hexpected, -⟩
      rw [hrun, Option.some.injEq] at hdone
      rw [List.append_cancel_right hdone]
      exact ⟨hcounters, hexpected⟩
    · rintro ⟨-, hexpected⟩
      refine ⟨_, hrun, fun e => frameEvents_walk, hexpected, ?_⟩
      rw [frameEvents_visit, hlen]
  · constructor
    · exact fun h => absurd h (q.not_delivered_of_overflow hsize hfit hcounters)
    · exact fun h => absurd h.1 hcounters

/-- A routine and a context for every outcome. -/
def always (routine context : Nat) : Registration := ⟨routine, context, true, true, true⟩

/-- Originator, filter, a skipping level and a second filter, the upper filter's routine
keeping the IRP once. -/
def filterStack : Request where
  stackSize := 3
  originator := some (always 9 99)
  levels := [⟨10, .copySet (always 1 11)⟩, ⟨20, .skip⟩, ⟨30, .copySet (always 2 22)⟩]
  bottom := 40
  status := 0
  cancel := false
  userIosb := 1
  userEvent := 1
  mpr := fun i => i == 1

theorem delivered_iff_filterStack : filterStack.Delivered :=
  (filterStack.delivered_iff (by decide) (by decide)).mpr
    ⟨.inl (by decide), by simp [filterStack, NoStaleCopy]⟩

/-- The level below the filter merely copies and calls down. -/
def copyStack : Request :=
  { filterStack with originator := none, levels := [⟨10, .copySet (always 1 11)⟩, ⟨20, .copy⟩] }

/-- The filter's routine runs twice, first with the device of the level that copied. -/
theorem copyStack_not_delivered :
    ¬ ∀ q : Request, q.stackSize < 256 → q.used ≤ q.stackCount → q.Delivered := by
  intro h
  obtain ⟨walk, hdone, -, hexpected, -⟩ := h copyStack (by decide) (by decide)
  have hrun : copyStack.run = some ([.visit 0, .invoke 1 20 11, .visit 1, .invoke 1 10 11,
      .visit 2] ++ copyStack.deliveries) := by decide +kernel
  rw [hrun, Option.some.injEq] at hdone
  rw [← List.append_cancel_right hdone] at hexpected
  exact absurd hexpected (by decide)

end MeuOS.Io
