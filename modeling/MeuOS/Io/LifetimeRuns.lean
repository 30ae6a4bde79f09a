import MeuOS.Io.Lifetime

/-! When a service keeps its IRP for as long as the driver has it. A driver that lets go of
the IRP in its dispatch routine leaves the service alone with it, and the service works
through its steps. A driver that does not has its IRP taken away. -/
namespace MeuOS.Io

open MeuOS.Lib

variable {q : ServiceCall} {w w' : Lifetime} {irp : Irp}

/-! ## The IRP of a service -/

/-- The IRP while the driver has it: one location, nobody to call and nobody to tell. -/
structure Sole (irp : Irp) : Prop where
  stackCount : irp.stackCount = 1
  current : irp.currentLocation = 1
  location : irp.currentStackLocation = 0
  allocated : irp.allocated = 2
  routine : (irp.locations 0).completionRoutine = 0
  userIosb : irp.userIosb = 0
  userEvent : irp.userEvent = 0

theorem sole_start (device : Nat) :
    ∃ irp, ioCallDriver (ioAllocIrp 1 0 0) device = some irp ∧ Sole irp := by
  refine ⟨_, rfl, ?_⟩
  constructor <;> rfl

/-- The walk over such an IRP visits its location and does nothing else. -/
theorem Sole.complete (h : Sole irp) (mpr : Nat → Bool) :
    ∃ irp', ioCompleteRequest mpr irp = some (irp', [.visit 0], false) ∧
      irp'.status = irp.status := by
  obtain ⟨hcount, hcurrent, hlocation, hallocated, hroutine, hiosb, hevent⟩ := h
  refine ⟨{ irp with currentLocation := 3, currentStackLocation := 2, pendingReturned :=
    (irp.locations 0).control &&& slPendingReturned }, ?_, rfl⟩
  unfold ioCompleteRequest
  rw [hallocated, hlocation]
  simp [ioCompleteLoop, Irp.ascend, Irp.finish, Walk.after, hcount, hcurrent, hlocation, hallocated,
    hroutine, hiosb, hevent, schar]

theorem Sole.write (h : Sole w.packet) (d : DriverWrite) : Sole (w.write d).packet := by
  obtain ⟨hcount, hcurrent, hlocation, hallocated, hroutine, hiosb, hevent⟩ := h
  cases d with
  | markPending =>
    refine ⟨hcount, hcurrent, hlocation, hallocated, ?_, hiosb, hevent⟩
    simp [Lifetime.write, Irp.setLocation, hlocation, hroutine]
  | _ => exact ⟨hcount, hcurrent, hlocation, hallocated, hroutine, hiosb, hevent⟩

/-! ## A driver that lets go -/

/-- A system buffer has the size it was allocated with. -/
def BufferSized (q : ServiceCall) (w : Lifetime) : Prop :=
  ∀ bytes, w.systemBuffer = some bytes → bytes.length = q.bufferSize

theorem ServiceCall.length_le (q : ServiceCall) : q.length ≤ q.bufferSize := by
  unfold bufferSize
  split
  · split <;> omega
  · exact le_rfl

theorem BufferSized.write (h : BufferSized q w) (d : DriverWrite) : BufferSized q (w.write d) := by
  cases d with
  | output i b =>
    intro bytes hbytes
    obtain ⟨old, hold, rfl⟩ := Option.map_eq_some_iff.1 hbytes
    rw [List.length_set]
    exact h old hold
  | _ => exact h

def Lifetime.Frees (w : Lifetime) (buffer irp : Nat) : Prop :=
  w.bufferFrees = buffer ∧ w.irpFrees = irp

/-- How often the system buffer is freed: once if there is one. -/
def Lifetime.bufferOnce (w : Lifetime) : Nat := if w.systemBuffer.isSome then 1 else 0

/-- The IRP holds what the driver left in it. -/
structure Lifetime.Settled (q : ServiceCall) (w : Lifetime) : Prop where
  outcome : w.outcome = some ⟨BitVec.ofInt 32 w.packet.status, w.information,
    q.output w.information w.systemBuffer⟩
  information : w.information = informationAfter 0 q.behaviour.writes

/-- The service has read `info` and copied the output. -/
structure Lifetime.Copied (q : ServiceCall) (w : Lifetime) (info : BitVec 64) : Prop
    extends w.Settled q where
  info_eq : info = w.information
  copied : w.copied = q.output w.information w.systemBuffer

/-- What holds where the service is. -/
def Lifetime.At (q : ServiceCall) (w : Lifetime) : Pc → Prop
  | .dispatch ws => Sole w.packet ∧ w.outcome = none ∧ w.answer = none ∧ w.copied = [] ∧
      w.Frees 0 0 ∧ informationAfter w.information ws = informationAfter 0 q.behaviour.writes
  | .collect => w.Settled q ∧ w.answer = none ∧ w.copied = [] ∧ w.Frees 0 0
  | .copy info left => w.Settled q ∧ w.answer = none ∧ info = w.information ∧ w.Frees 0 0 ∧
      q.copies = true ∧ w.copied.length + left = min info.toNat q.length ∧
      ∃ bytes, w.systemBuffer = some bytes ∧ w.copied = bytes.take w.copied.length
  | .status info => w.Copied q info ∧ w.answer = none ∧ w.Frees 0 0
  | .freeBuffer info st => w.Copied q info ∧ st = BitVec.ofInt 32 w.packet.status ∧
      w.answer = none ∧ w.Frees 0 0
  | .freeIrp info st => w.Copied q info ∧ st = BitVec.ofInt 32 w.packet.status ∧
      w.answer = none ∧ w.Frees w.bufferOnce 0
  | .answered => w.Settled q ∧ w.Frees w.bufferOnce 1 ∧
      w.answer = some ⟨(BitVec.ofInt 32 w.packet.status).setWidth 64,
        if q.counts then some (w.information.setWidth 32) else none,
        q.output w.information w.systemBuffer⟩

structure Lifetime.Follows (q : ServiceCall) (w : Lifetime) : Prop where
  later : w.later = none
  sized : BufferSized q w
  at_pc : w.At q w.pc

/-- Steps the service has before it. -/
def Pc.left (q : ServiceCall) : Pc → Nat
  | .dispatch ws => ws.length + q.length + 6
  | .collect => q.length + 5
  | .copy _ n => n + 4
  | .status _ => 3
  | .freeBuffer .. => 2
  | .freeIrp .. => 1
  | .answered => 0

theorem Pc.left_eq_zero {pc : Pc} : pc.left q = 0 ↔ pc = .answered := by
  cases pc <;> simp [Pc.left]

theorem follows_start (q : ServiceCall) : ∃ w, q.start = some w ∧ w.Follows q := by
  obtain ⟨irp, hcall, hsole⟩ := sole_start q.device
  refine ⟨_, by rw [ServiceCall.start, hcall, Option.map_some], ?_⟩
  refine ⟨rfl, ?_, hsole, rfl, rfl, rfl, ⟨rfl, rfl⟩, rfl⟩
  intro bytes hbytes
  obtain ⟨-, block, -, rfl⟩ : q.bufferSize ≠ 0 ∧ ∃ block, q.block = some block ∧
      (List.range q.bufferSize).map (q.initial block) = bytes := by
    simpa [ServiceCall.systemBuffer] using hbytes
  simp

theorem informationAfter_write (w : Lifetime) (d : DriverWrite) (ws : List DriverWrite) :
    informationAfter (w.write d).information ws = informationAfter w.information (d :: ws) := by
  cases d <;> rfl

/-- The step out of the dispatch routine. -/
theorem follows_return (hgo : q.behaviour.LetsGo) (hfollows : w.Follows q) (hpc : w.pc = .dispatch []) :
    ∃ w', w.serviceStep q = some w' ∧ w'.Follows q ∧ w'.pc = .collect := by
  obtain ⟨hlater, hsized, hat⟩ := hfollows
  rw [hpc] at hat
  obtain ⟨hsole, -, hanswer, hcopied, hfrees, hinformation⟩ := hat
  cases hb : q.behaviour with
  | completes ws =>
    obtain ⟨irp', hwalk, hstatus⟩ := hsole.complete fun _ => false
    refine ⟨_, by simp only [Lifetime.serviceStep, hpc, hb, Lifetime.complete, hwalk, Option.map_some]; rfl, ?_,
      rfl⟩
    refine ⟨hlater, hsized, ⟨?_, hinformation⟩, hanswer, hcopied, hfrees⟩
    simp only [Lifetime.letGo, hstatus]
  | defers ws later =>
    rw [hb] at hgo
    exact hgo.elim
  | fails ws =>
    refine ⟨_, by simp only [Lifetime.serviceStep, hpc, hb]; rfl, ?_, rfl⟩
    exact ⟨hlater, hsized, ⟨rfl, hinformation⟩, hanswer, hcopied, hfrees⟩

/-- The service copies one more byte. -/
theorem follows_copy (hfollows : w.Follows q) {info : BitVec 64} {n : Nat}
    (hpc : w.pc = .copy info (n + 1)) :
    ∃ w', w.serviceStep q = some w' ∧ w'.Follows q ∧ w'.pc = .copy info n := by
  obtain ⟨hlater, hsized, hat⟩ := hfollows
  rw [hpc] at hat
  obtain ⟨hsettled, hanswer, hinfo, hfrees, hcopies, hleft, bytes, hbytes, hcopied⟩ := hat
  have hlt : w.copied.length < bytes.length := by
    have hsize := hsized bytes hbytes
    have hle := q.length_le
    omega
  have hget : (w.systemBuffer.bind fun bytes => bytes[w.copied.length]?) =
      some (bytes.get ⟨w.copied.length, hlt⟩) := by
    rw [hbytes, Option.bind_some, List.getElem?_eq_getElem hlt]
    rfl
  refine ⟨_, by simp only [Lifetime.serviceStep, hpc, hget, Option.map_some]; rfl, ?_, rfl⟩
  refine ⟨hlater, hsized, ⟨hsettled.outcome, hsettled.information⟩, hanswer, hinfo, hfrees, hcopies, ?_,
    bytes, hbytes, ?_⟩
  · simp only [List.length_append, List.length_singleton]
    omega
  · simp only [List.length_append, List.length_singleton]
    rw [List.take_add_one, ← hcopied, List.getElem?_eq_getElem hlt]
    rfl

/-- Where nothing is copied there is no output. -/
theorem output_of_skip (h : ¬(q.copies ∧ w.systemBuffer.isSome ∧ w.information ≠ 0)) :
    q.output w.information w.systemBuffer = [] := by
  unfold ServiceCall.output
  split
  next hcopies =>
    by_cases hsome : w.systemBuffer.isSome
    · have hzero : w.information = 0 := by
        by_contra hne
        exact h ⟨hcopies, hsome, hne⟩
      simp [hzero]
    · rw [Option.not_isSome_iff_eq_none.1 hsome]
      simp
  next => rfl

/-- The service reads how much there is to copy. -/
theorem follows_collect (hfollows : w.Follows q) (hpc : w.pc = .collect) :
    ∃ w', w.serviceStep q = some w' ∧ w'.Follows q ∧ w'.pc.left q ≤ q.length + 4 := by
  obtain ⟨hlater, hsized, hat⟩ := hfollows
  rw [hpc] at hat
  obtain ⟨hsettled, hanswer, hcopied, hfrees⟩ := hat
  by_cases hcopies : q.copies ∧ w.systemBuffer.isSome ∧ w.information ≠ 0
  · obtain ⟨bytes, hbytes⟩ := Option.isSome_iff_exists.1 hcopies.2.1
    refine ⟨_, by simp only [Lifetime.serviceStep, hpc, if_pos hcopies]; rfl, ?_, by simp [Pc.left]⟩
    refine ⟨hlater, hsized, ⟨hsettled.outcome, hsettled.information⟩, hanswer, rfl, hfrees, hcopies.1, ?_,
      bytes, hbytes, ?_⟩
    · simp [hcopied]
    · simp [hcopied]
  · refine ⟨_, by simp only [Lifetime.serviceStep, hpc, if_neg hcopies]; rfl, ?_, by simp [Pc.left]⟩
    exact ⟨hlater, hsized, ⟨⟨hsettled.outcome, hsettled.information⟩, rfl,
      hcopied.trans (output_of_skip hcopies).symm⟩, hanswer, hfrees⟩

/-- The service takes its next step, and is nearer to its end. -/
theorem follows_service (hgo : q.behaviour.LetsGo) (hfollows : w.Follows q) :
    ∃ w', w.serviceStep q = some w' ∧ w'.Follows q ∧ w'.pc.left q ≤ w.pc.left q - 1 := by
  have hall := hfollows
  obtain ⟨hlater, hsized, hat⟩ := hfollows
  cases hpc : w.pc with
  | dispatch ws =>
    cases ws with
    | nil =>
      obtain ⟨w', hstep, hfollows', hpc'⟩ := follows_return hgo hall hpc
      exact ⟨w', hstep, hfollows', by simp [Pc.left, hpc']⟩
    | cons d ws =>
      rw [hpc] at hat
      obtain ⟨hsole, houtcome, hanswer, hcopied, hfrees, hinformation⟩ := hat
      refine ⟨_, by simp only [Lifetime.serviceStep, hpc]; rfl, ?_, by simp only [Pc.left, List.length_cons]; omega⟩
      refine ⟨?_, hsized.write d, hsole.write d, ?_, ?_, ?_, ?_,
        (informationAfter_write w d ws).trans hinformation⟩
      · cases d <;> exact hlater
      · cases d <;> exact houtcome
      · cases d <;> exact hanswer
      · cases d <;> exact hcopied
      · cases d <;> exact hfrees
  | collect => exact follows_collect hall hpc
  | copy info left =>
    cases left with
    | zero =>
      rw [hpc] at hat
      obtain ⟨hsettled, hanswer, hinfo, hfrees, hcopies, hleft, bytes, hbytes, hcopied⟩ := hat
      refine ⟨_, by simp only [Lifetime.serviceStep, hpc]; rfl, ?_, by simp [Pc.left]⟩
      refine ⟨hlater, hsized, ⟨⟨hsettled.outcome, hsettled.information⟩, hinfo, ?_⟩, hanswer, hfrees⟩
      simp only [ServiceCall.output, hcopies, if_true, hbytes, Option.getD_some, ← hinfo, ← hleft,
        Nat.add_zero]
      exact hcopied
    | succ n =>
      obtain ⟨w', hstep, hfollows', hpc'⟩ := follows_copy hall hpc
      exact ⟨w', hstep, hfollows', by simp [Pc.left, hpc']⟩
  | status info =>
    rw [hpc] at hat
    obtain ⟨hcopied, hanswer, hfrees⟩ := hat
    refine ⟨_, by simp only [Lifetime.serviceStep, hpc]; rfl, ?_, by simp [Pc.left]⟩
    exact ⟨hlater, hsized, ⟨⟨hcopied.outcome, hcopied.information⟩, hcopied.info_eq, hcopied.copied⟩, rfl,
      hanswer, hfrees⟩
  | freeBuffer info st =>
    rw [hpc] at hat
    obtain ⟨hcopied, hst, hanswer, hbuffer, hirp⟩ := hat
    refine ⟨_, by simp only [Lifetime.serviceStep, hpc]; rfl, ?_, by simp [Pc.left]⟩
    refine ⟨hlater, hsized, ⟨⟨hcopied.outcome, hcopied.information⟩, hcopied.info_eq, hcopied.copied⟩, hst,
      hanswer, ?_, hirp⟩
    simp only [Lifetime.bufferOnce, hbuffer]
  | freeIrp info st =>
    rw [hpc] at hat
    obtain ⟨hcopied, rfl, hanswer, hbuffer, hirp⟩ := hat
    refine ⟨_, by simp only [Lifetime.serviceStep, hpc]; rfl, ?_, by simp [Pc.left]⟩
    refine ⟨hlater, hsized, ⟨hcopied.outcome, hcopied.information⟩, ⟨hbuffer, by simp only [hirp]⟩, ?_⟩
    simp only [hcopied.info_eq, hcopied.copied]
  | answered => exact ⟨w, by simp only [Lifetime.serviceStep, hpc], hall, by simp [Pc.left, hpc]⟩

theorem follows_step (hgo : q.behaviour.LetsGo) (hfollows : w.Follows q) (t : Turn) :
    ∃ w', lifetimeStep q w t = some w' ∧ w'.Follows q ∧
      w'.pc.left q ≤ w.pc.left q - if t == .service then 1 else 0 := by
  cases t with
  | service => exact follows_service hgo hfollows
  | driver =>
    refine ⟨w, ?_, hfollows, by simp⟩
    simp only [lifetimeStep, Lifetime.driverStep, hfollows.later]

/-- Every order of turns, and how far it brings the service. -/
theorem follows_run (hgo : q.behaviour.LetsGo) (turns : List Turn) :
    ∃ w, q.run turns = some w ∧ w.Follows q ∧
      w.pc.left q ≤ q.behaviour.writes.length + q.length + 6 - turns.count .service := by
  obtain ⟨w₀, hstart, hfollows⟩ := follows_start q
  have hleft : w₀.pc.left q = q.behaviour.writes.length + q.length + 6 := by
    obtain ⟨irp, -, rfl⟩ := Option.map_eq_some_iff.1 hstart
    rfl
  obtain ⟨w, hrun, hinv, hle⟩ := runSteps_progress (fun w t h => follows_step hgo h t) turns hfollows
  refine ⟨w, by rw [ServiceCall.run, hstart, Option.bind_some, hrun], hinv, ?_⟩
  rw [← hleft]
  exact hle

/-! ## What the caller gets -/

theorem Lifetime.bufferOnce_le (w : Lifetime) : w.bufferOnce ≤ 1 := by
  unfold bufferOnce
  split <;> omega

theorem Lifetime.bufferOnce_eq_one : w.bufferOnce = 1 ↔ w.systemBuffer.isSome := by
  unfold bufferOnce
  split <;> simp_all

/-- A byte count below `2^32` survives as a `uint32_t`. -/
theorem count_eq_iff (n : BitVec 64) : (n.setWidth 32).toNat = n.toNat ↔ n.toNat < 2 ^ 32 := by
  rw [BitVec.toNat_setWidth]
  exact ⟨fun h => h ▸ Nat.mod_lt _ (by decide), fun h => Nat.mod_eq_of_lt h⟩

theorem follows_not_held (h : w.Follows q) (hpc : ∀ ws, w.pc ≠ .dispatch ws) : ¬w.Held := by
  rintro (⟨ws, hws⟩ | hlater)
  · exact hpc ws hws
  · rw [h.later] at hlater
    cases hlater

/-- Before the answer, only the frees are in question. -/
theorem lawful_of_frees {buffer : Nat} (hfrees : w.Frees buffer 0) (hbuffer : buffer ≤ 1)
    (hheld : w.Held → buffer = 0) (hanswer : w.answer = none) (hpc : w.pc ≠ .answered) : w.Lawful where
  held h := ⟨hfrees.2, hfrees.1.trans (hheld h)⟩
  once := ⟨by rw [hfrees.2]; omega, by rw [hfrees.1]; exact hbuffer⟩
  freed h := absurd h hpc
  reports a ha := by
    rw [hanswer] at ha
    cases ha

theorem follows_lawful (hcount : q.counts = true → (informationAfter 0 q.behaviour.writes).toNat < 2 ^ 32)
    (hfollows : w.Follows q) : w.Lawful := by
  have hat := hfollows.at_pc
  have hnot := follows_not_held hfollows
  cases hpc : w.pc with
  | dispatch ws =>
    rw [hpc] at hat
    obtain ⟨-, -, hanswer, -, hfrees, -⟩ := hat
    exact lawful_of_frees hfrees (by omega) (fun _ => rfl) hanswer (by rw [hpc]; nofun)
  | collect =>
    rw [hpc] at hat
    obtain ⟨-, hanswer, -, hfrees⟩ := hat
    exact lawful_of_frees hfrees (by omega) (fun _ => rfl) hanswer (by rw [hpc]; nofun)
  | copy info left =>
    rw [hpc] at hat
    obtain ⟨-, hanswer, -, hfrees, -⟩ := hat
    exact lawful_of_frees hfrees (by omega) (fun _ => rfl) hanswer (by rw [hpc]; nofun)
  | status info =>
    rw [hpc] at hat
    obtain ⟨-, hanswer, hfrees⟩ := hat
    exact lawful_of_frees hfrees (by omega) (fun _ => rfl) hanswer (by rw [hpc]; nofun)
  | freeBuffer info st =>
    rw [hpc] at hat
    obtain ⟨-, -, hanswer, hfrees⟩ := hat
    exact lawful_of_frees hfrees (by omega) (fun _ => rfl) hanswer (by rw [hpc]; nofun)
  | freeIrp info st =>
    rw [hpc] at hat hnot
    obtain ⟨-, -, hanswer, hfrees⟩ := hat
    exact lawful_of_frees hfrees w.bufferOnce_le (fun h => absurd h (hnot nofun)) hanswer
      (by rw [hpc]; nofun)
  | answered =>
    rw [hpc] at hat hnot
    obtain ⟨hsettled, ⟨hbuffer, hirp⟩, hanswer⟩ := hat
    refine ⟨fun h => absurd h (hnot nofun), ⟨hirp.le, hbuffer ▸ w.bufferOnce_le⟩,
      fun _ => ⟨hirp, by rw [hbuffer]; exact Lifetime.bufferOnce_eq_one⟩, ?_⟩
    intro a ha o ho
    rw [hanswer, Option.mem_some_iff] at ha
    rw [hsettled.outcome, Option.mem_some_iff] at ho
    subst ha ho
    refine ⟨rfl, fun n hn => ?_, rfl⟩
    obtain ⟨hcounts, rfl⟩ : q.counts = true ∧ w.information.setWidth 32 = n := by simpa using hn
    exact (count_eq_iff _).2 (hsettled.information ▸ hcount hcounts)

/-! ## A driver that keeps the IRP -/

/-- The service never takes the IRP back from a driver that defers its completion. -/
theorem held_service {ws later : List DriverWrite} (hb : q.behaviour = .defers ws later)
    (hheld : w.Held) (hstep : w.serviceStep q = some w') : w'.Held := by
  cases hpc : w.pc with
  | dispatch todo =>
    cases todo with
    | nil =>
      simp only [Lifetime.serviceStep, hpc, hb, Option.some.injEq] at hstep
      subst hstep
      exact .inr rfl
    | cons d todo =>
      simp only [Lifetime.serviceStep, hpc, Option.some.injEq] at hstep
      subst hstep
      exact .inl ⟨todo, rfl⟩
  | copy info left =>
    have hlater : w.later.isSome := hheld.resolve_left fun ⟨ws, h⟩ => by simp [hpc] at h
    cases left with
    | zero =>
      simp only [Lifetime.serviceStep, hpc, Option.some.injEq] at hstep
      subst hstep
      exact .inr hlater
    | succ n =>
      simp only [Lifetime.serviceStep, hpc] at hstep
      obtain ⟨b, -, rfl⟩ := Option.map_eq_some_iff.1 hstep
      exact .inr hlater
  | _ =>
    have hlater : w.later.isSome := hheld.resolve_left fun ⟨ws, h⟩ => by simp [hpc] at h
    simp only [Lifetime.serviceStep, hpc, Option.some.injEq] at hstep
    subst hstep
    exact .inr hlater

theorem held_services {ws later : List DriverWrite} (hb : q.behaviour = .defers ws later) (n : Nat)
    (hheld : w.Held) (hrun : runSteps (lifetimeStep q) (List.replicate n .service) w = some w') :
    w'.Held := by
  induction n generalizing w with
  | zero =>
    cases hrun
    exact hheld
  | succ n ih =>
    rw [List.replicate_succ, runSteps] at hrun
    obtain ⟨w₁, hstep, hrest⟩ := Option.bind_eq_some_iff.1 hrun
    exact ih (held_service hb hheld hstep) hrest

/-- The turns of the service alone free an IRP the driver has. -/
theorem not_kept_of_defers {ws later : List DriverWrite} (hb : q.behaviour = .defers ws later) :
    ¬q.Kept := by
  intro hkept
  obtain ⟨n, hends⟩ := hkept.ends
  obtain ⟨w, hrun, hpc⟩ := hends (List.replicate n .service) (by simp)
  obtain ⟨w', hrun', hlawful⟩ := hkept.lawful (List.replicate n .service)
  rw [hrun] at hrun'
  cases hrun'
  obtain ⟨w₀, hstart, hsteps⟩ := Option.bind_eq_some_iff.1 hrun
  have hheld₀ : w₀.Held := by
    obtain ⟨irp, -, rfl⟩ := Option.map_eq_some_iff.1 hstart
    exact .inl ⟨_, rfl⟩
  have hzero := (hlawful.held (held_services hb n hheld₀ hsteps)).1
  have hone := (hlawful.freed hpc).1
  omega

/-- A byte count from `2^32` on is cut off in the answer. -/
theorem not_kept_of_count (hgo : q.behaviour.LetsGo) (hcounts : q.counts = true)
    (hlarge : ¬(informationAfter 0 q.behaviour.writes).toNat < 2 ^ 32) : ¬q.Kept := by
  intro hkept
  obtain ⟨n, hends⟩ := hkept.ends
  obtain ⟨w, hrun, hpc⟩ := hends (List.replicate n .service) (by simp)
  obtain ⟨w', hrun', hlawful⟩ := hkept.lawful (List.replicate n .service)
  obtain ⟨w₁, hrun₁, hfollows, -⟩ := follows_run hgo (List.replicate n .service)
  rw [hrun] at hrun' hrun₁
  cases hrun'
  cases hrun₁
  have hat := hfollows.at_pc
  rw [hpc] at hat
  obtain ⟨hsettled, -, hanswer⟩ := hat
  rw [hcounts, if_pos rfl] at hanswer
  have hreports := (hlawful.reports _ hanswer _ hsettled.outcome).count _ rfl
  exact hlarge (hsettled.information ▸ (count_eq_iff _).1 hreports)

/-- A read of four bytes from a driver that marks the IRP pending and completes it from its
DPC, where it fills the buffer. -/
def dpcRead : ServiceCall where
  service := .readFile
  buffer := 0x400000
  length := 4
  input := fun _ => 0
  inLength := 0
  count := 0x500000
  device := 0x1000
  routine := some (.defers [.markPending]
    [.output 0 1, .output 1 2, .output 2 3, .output 3 4, .information 4#64, .status 0#32])
  block := some fun _ => 0

end MeuOS.Io
