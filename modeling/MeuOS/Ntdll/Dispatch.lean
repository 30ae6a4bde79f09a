import MeuOS.Ldr.FunctionTable
import MeuOS.Ntdll.Unwind

/-! Exceptions. The first walk over the stack asks the handlers of the frames, the second one runs the frames' unwind
handlers up to the frame that catches, and goes on there. The walks are those of one thread; what the handlers do is a
parameter, and the words of the stack that the walks read are not among it. -/
namespace MeuOS.Ntdll

open MeuOS.Lib MeuOS.Ldr

def excNoncontinuable : Nat := 0x01
def excUnwinding : Nat := 0x02
def excExitUnwind : Nat := 0x04
def excTargetUnwind : Nat := 0x20

/-- A call of a language handler: what `DISPATCHER_CONTEXT` says, and `ExceptionFlags`. -/
structure HandlerCall where
  handler : Nat
  handlerData : Nat
  establisher : BitVec 64
  flags : Nat
  controlPc : BitVec 64
  imageBase : Nat
  functionEntry : Nat
  targetIp : BitVec 64
deriving DecidableEq

/-- What a handler answers. One that has found a `catch` unwinds to it and does not return. -/
inductive Disposition
  | continueExecution (c : Context)
  | continueSearch
  | unwinds

def Disposition.passes : Disposition → Bool
  | .continueSearch => true
  | .continueExecution _ | .unwinds => false

/-- How the first walk ends: nobody wants the exception, the code goes on with the registers a handler left, or a
handler unwinds. -/
inductive Dispatched
  | unhandled
  | resumed (c : Context)
  | caught (call : HandlerCall)

section Walks

variable (m : Mem) (s : Loader) (main fuel : Nat)

/-- The entry for the code that runs, 0 if there is none, and the base of its image. -/
def entryFor (c : Context) : Nat × Nat := rtlLookupFunctionEntry m s main c.rip.toNat

def handlerCall (fn base : Nat) (u : Unwound) (flags : Nat) (pc targetIp : BitVec 64) : HandlerCall :=
  ⟨u.handler, u.handlerData, u.establisher, flags, pc, base, fn, targetIp⟩

/-- The handlers that were asked, in order, and the end. -/
def dispatchLoop (answer : HandlerCall → Disposition) (flags : Nat) :
    Nat → Context → Option (List HandlerCall × Dispatched)
  | 0, _ => some ([], .unhandled)
  | left + 1, cur =>
      let (fn, base) := entryFor m s main cur
      if fn = 0 then
        if cur.rsp.toNat < 0x10000 then some ([], .unhandled)
        else
          let cur := cur.popReturn m
          if cur.rip = 0 then some ([], .unhandled) else dispatchLoop answer flags left cur
      else
        (rtlVirtualUnwind m fuel uflagEhandler base fn cur).bind fun u =>
          let next := if u.ctx.rip = 0 then some ([], .unhandled) else dispatchLoop answer flags left u.ctx
          if u.handler = 0 then next
          else
            let call := handlerCall fn base u flags cur.rip 0
            match answer call with
            | .continueSearch => next.map fun (calls, r) => (call :: calls, r)
            | .continueExecution c =>
                some ([call], if flags &&& excNoncontinuable ≠ 0 then .unhandled else .resumed c)
            | .unwinds => some ([call], .caught call)

def rtlDispatchException (answer : HandlerCall → Disposition) (flags : Nat) (c : Context) :
    Option (List HandlerCall × Dispatched) :=
  dispatchLoop m s main fuel answer flags 4096 c

/-- `touch` is what an unwind handler makes of the registers it is shown. -/
def unwindLoop (touch : HandlerCall → Context → Context) (targetFrame targetIp : BitVec 64) :
    Nat → Nat → Context → Option (List HandlerCall × Context)
  | 0, _, cur => some ([], cur)
  | left + 1, flags, cur =>
      let (fn, base) := entryFor m s main cur
      if fn = 0 then
        if cur.rsp.toNat < 0x10000 then some ([], cur)
        else
          let cur := cur.popReturn m
          if cur.rip = 0 then some ([], cur) else unwindLoop touch targetFrame targetIp left flags cur
      else
        (rtlVirtualUnwind m fuel uflagUhandler base fn cur).bind fun u =>
          let isTarget := u.establisher = targetFrame
          let flags := if isTarget then flags ||| excTargetUnwind else flags
          let call := handlerCall fn base u flags cur.rip targetIp
          let calls := if u.handler ≠ 0 then [call] else []
          let cur := if u.handler ≠ 0 then touch call cur else cur
          if isTarget then some (calls, cur)
          else if u.ctx.rip = 0 then some (calls, u.ctx)
          else
            (unwindLoop touch targetFrame targetIp left flags u.ctx).map fun (rest, c) => (calls ++ rest, c)

/-- `RtlRestoreContext` pushes `Rip` and returns to it. -/
def rtlRestoreContext (c : Context) : Machine := ⟨c, m.putWord (c.rsp - 8).toNat c.rip⟩

/-- The flags the handlers see on the way to the target; a record has its flags, or there is none. -/
def unwindingFlags (targetFrame : BitVec 64) (rec : Option Nat) : Nat :=
  let flags := rec.getD 0 ||| excUnwinding
  if targetFrame = 0 then flags ||| excExitUnwind else flags

/-- `c` are the registers that `RtlCaptureContext` gets. -/
def rtlUnwindEx (touch : HandlerCall → Context → Context) (targetFrame targetIp retval : BitVec 64)
    (rec : Option Nat) (c : Context) : Option (List HandlerCall × Machine) :=
  (unwindLoop m s main fuel touch targetFrame targetIp 4096 (unwindingFlags targetFrame rec) c).map fun (calls, cur) =>
    (calls, rtlRestoreContext m ({ cur with rip := targetIp }.setReg rax retval))

end Walks

/-! ## Stacks -/

/-- Registers that are the same for everything a caller counts on. -/
structure Like (c c' : Context) : Prop where
  kept : ∀ r, Nonvolatile r → c.gpr r = c'.gpr r
  rsp : c.rsp = c'.rsp
  rip : c.rip = c'.rip

theorem Like.refl (c : Context) : Like c c := ⟨fun _ _ => rfl, rfl, rfl⟩

/-- A function on the stack: its registers where it is, and how it was called; a leaf has no prolog. -/
structure Frame where
  ctx : Context
  act : Option Activation

section Stacks

variable (m : Mem) (s : Loader) (main fuel : Nat)

/-- The function tables tell the truth of a frame. -/
def Frame.Described (f : Frame) : Prop :=
  match f.act with
  | none => (entryFor m s main f.ctx).1 = 0 ∧ 0x10000 ≤ f.ctx.rsp.toNat
  | some x =>
      let e := entryFor m s main f.ctx
      e.1 ≠ 0 ∧ (∃ n ≤ fuel, Chain m e.2 x.fr x.fo (e.2 + m.rd32 (e.1 + 8)) x.prolog n) ∧ x.Running f.ctx m

/-- These are the registers of the frame's caller. -/
def Frame.CalledFrom (f : Frame) (c : Context) : Prop :=
  match f.act with
  | none => Like (f.ctx.popReturn m) c
  | some x => x.Returned c

/-- The registers of the first frame, or those below the last. -/
def topCtx (fs : List Frame) (bottom : Context) : Context := (fs.head?.map Frame.ctx).getD bottom

/-- Frames of which each was called by the next. -/
def IsStack (bottom : Context) : List Frame → Prop
  | [] => True
  | f :: fs => f.Described m s main fuel ∧ f.CalledFrom m (topCtx fs bottom) ∧
      (fs ≠ [] → (topCtx fs bottom).rip ≠ 0) ∧ IsStack bottom fs

/-- The call of the frame's handler of the kind, if it has one. -/
def Frame.call (type flags : Nat) (targetIp : BitVec 64) (f : Frame) : Option HandlerCall :=
  f.act.bind fun x =>
    let e := entryFor m s main f.ctx
    let h := chainHandler m type e.2 fuel (e.2 + m.rd32 (e.1 + 8))
    if h.1 = 0 then none else some ⟨h.1, h.2, x.base, flags, f.ctx.rip, e.2, e.1, targetIp⟩

end Stacks

section Steps

variable {m : Mem} {s : Loader} {main fuel : Nat} {x : Activation} {c c' cur : Context} {f : Frame}

theorem Like.trans {c'' : Context} (h : Like c c') (h' : Like c' c'') : Like c c'' where
  kept r hr := (h.kept r hr).trans (h'.kept r hr)
  rsp := h.rsp.trans h'.rsp
  rip := h.rip.trans h'.rip

theorem Like.popReturn (h : Like c c') : Like (c.popReturn m) (c'.popReturn m) where
  kept r hr := by
    rw [Context.popReturn_other m c hr.ne.2, Context.popReturn_other m c' hr.ne.2]
    exact h.kept r hr
  rsp := by rw [Context.popReturn_rsp, Context.popReturn_rsp, h.rsp]
  rip := by rw [Context.popReturn_rip, Context.popReturn_rip, h.rsp]

theorem Like.entryFor (h : Like c c') : entryFor m s main c = entryFor m s main c' := by
  unfold Ntdll.entryFor
  rw [h.rip]

theorem Activation.Running.like (h : x.Running c m) (hlike : Like c' c) : x.Running c' m where
  kept r hr hsaved := (hlike.kept r hr).trans (h.kept r hr hsaved)
  frame hfr := (hlike.kept _ (saved_frame x.fits (x.framed hfr)).1).trans (h.frame hfr)
  rsp hfr := hlike.rsp.trans (h.rsp hfr)
  stored := h.stored

theorem Activation.Returned.like (h : x.Returned c) (h' : x.Returned c') : Like c c' where
  kept r hr := (h.kept r hr).trans (h'.kept r hr).symm
  rsp := h.rsp.trans h'.rsp.symm
  rip := h.rip.trans h'.rip.symm

/-- A leaf is left by its return. -/
theorem Frame.leaf_step (hf : f.Described m s main fuel) (hcalled : f.CalledFrom m c) (hleaf : f.act = none)
    (hcur : Like cur f.ctx) :
    (entryFor m s main cur).1 = 0 ∧ ¬cur.rsp.toNat < 0x10000 ∧ Like (cur.popReturn m) c := by
  unfold Frame.Described at hf
  unfold Frame.CalledFrom at hcalled
  rw [hleaf] at hf hcalled
  obtain ⟨hentry, hsp⟩ := hf
  refine ⟨by rw [hcur.entryFor, hentry], ?_, hcur.popReturn.trans hcalled⟩
  rw [hcur.rsp]
  exact Nat.not_lt.2 hsp

theorem Frame.call_leaf (hleaf : f.act = none) (type flags : Nat) (targetIp : BitVec 64) :
    f.call m s main fuel type flags targetIp = none := by
  unfold Frame.call
  rw [hleaf]
  rfl

/-- Any other function is unwound. -/
theorem Frame.unwind_step (hf : f.Described m s main fuel) (hcalled : f.CalledFrom m c) (hact : f.act = some x)
    (hcur : Like cur f.ctx) (type : Nat) :
    (entryFor m s main cur).1 ≠ 0 ∧ ∃ u,
      rtlVirtualUnwind m fuel type (entryFor m s main cur).2 (entryFor m s main cur).1 cur = some u ∧
        Like u.ctx c ∧ u.establisher = x.base ∧ ∀ flags targetIp,
          f.call m s main fuel type flags targetIp = if u.handler = 0 then none else
            some (handlerCall (entryFor m s main cur).1 (entryFor m s main cur).2 u flags cur.rip targetIp) := by
  unfold Frame.Described at hf
  unfold Frame.CalledFrom at hcalled
  rw [hact] at hf hcalled
  obtain ⟨hentry, ⟨n, hn, hchain⟩, hrun⟩ := hf
  rw [← hcur.entryFor] at hentry hchain
  obtain ⟨u, hu, hreturned, hest, hhandler⟩ := unwinding_inverts hchain hn (hrun.like hcur) type
  refine ⟨hentry, u, hu, hreturned.like hcalled, hest, fun flags targetIp => ?_⟩
  unfold Frame.call handlerCall
  rw [hact, Option.bind_some, ← hcur.entryFor, ← hcur.rip, hest]
  dsimp only
  rw [← hhandler]

end Steps

/-! ## The first walk -/

section Dispatch

variable {m : Mem} {s : Loader} {main fuel : Nat} {bottom : Context}

/-- What comes of the first handler that does not pass. -/
def Dispatched.of (answer : HandlerCall → Disposition) (flags : Nat) : Option HandlerCall → Dispatched
  | none => .unhandled
  | some call =>
      match answer call with
      | .continueSearch => .unhandled
      | .continueExecution c => if flags &&& excNoncontinuable ≠ 0 then .unhandled else .resumed c
      | .unwinds => .caught call

/-- The handlers up to the first that does not pass. -/
def askedOf (answer : HandlerCall → Disposition) (calls : List HandlerCall) : List HandlerCall :=
  let passes call := (answer call).passes
  calls.takeWhile passes ++ (calls.dropWhile passes).take 1

theorem askedOf_pass {answer : HandlerCall → Disposition} {call : HandlerCall} (calls : List HandlerCall)
    (h : (answer call).passes = true) : askedOf answer (call :: calls) = call :: askedOf answer calls := by
  simp [askedOf, h]

theorem askedOf_stop {answer : HandlerCall → Disposition} {call : HandlerCall} (calls : List HandlerCall)
    (h : (answer call).passes = false) : askedOf answer (call :: calls) = [call] := by
  simp [askedOf, h]

theorem dispatchLoop_asks (answer : HandlerCall → Disposition) (flags : Nat) (hbottom : bottom.rip = 0)
    {fs : List Frame} (hne : fs ≠ []) (hstack : IsStack m s main fuel bottom fs) {left : Nat}
    (hleft : fs.length ≤ left) {cur : Context} (hcur : Like cur (topCtx fs bottom)) :
    let calls := fs.filterMap (Frame.call m s main fuel uflagEhandler flags 0)
    dispatchLoop m s main fuel answer flags left cur =
      some (askedOf answer calls, .of answer flags (calls.find? fun call => !(answer call).passes)) := by
  induction fs generalizing left cur with
  | nil => exact absurd rfl hne
  | cons f fs ih =>
    obtain ⟨hf, hcalled, hrip, hrest⟩ := hstack
    obtain ⟨left, rfl⟩ := Nat.exists_eq_add_of_le' (Nat.le_trans (Nat.le_add_left 1 _) hleft)
    -- where the walk goes on from the caller's registers
    have hnext : ∀ c, Like c (topCtx fs bottom) →
        (if c.rip = 0 then some ([], .unhandled) else dispatchLoop m s main fuel answer flags left c) =
          let calls := fs.filterMap (Frame.call m s main fuel uflagEhandler flags 0)
          some (askedOf answer calls, .of answer flags (calls.find? fun call => !(answer call).passes)) := by
      intro c hc
      by_cases hlast : fs = []
      · subst hlast
        rw [if_pos (hc.rip.trans hbottom)]
        rfl
      · rw [if_neg (by rw [hc.rip]; exact hrip hlast)]
        exact ih hlast hrest (by simpa using hleft) hc
    cases hact : f.act with
    | none =>
      obtain ⟨hentry, hsp, hlike⟩ := f.leaf_step hf hcalled hact hcur
      unfold dispatchLoop
      dsimp only
      rw [if_pos hentry, if_neg hsp, List.filterMap_cons_none (f.call_leaf hact ..)]
      exact hnext _ hlike
    | some x =>
      obtain ⟨hentry, u, hu, hlike, -, hcall⟩ := f.unwind_step hf hcalled hact hcur uflagEhandler
      unfold dispatchLoop
      dsimp only
      rw [if_neg hentry, hu, Option.bind_some, hnext _ hlike]
      dsimp only
      by_cases hnone : u.handler = 0
      · have hskip : f.call m s main fuel uflagEhandler flags 0 = none := (hcall flags 0).trans (if_pos hnone)
        rw [if_pos hnone, List.filterMap_cons_none hskip]
      · have hasked := (hcall flags 0).trans (if_neg hnone)
        rw [if_neg hnone, List.filterMap_cons_some hasked]
        cases hanswer : answer (handlerCall (entryFor m s main cur).1 (entryFor m s main cur).2 u flags cur.rip 0) with
        | continueSearch =>
          have hpass := congrArg Disposition.passes hanswer
          dsimp only
          rw [askedOf_pass _ hpass, List.find?_cons_of_neg (by rw [hpass]; decide)]
          rfl
        | continueExecution | unwinds =>
          have hstop := congrArg Disposition.passes hanswer
          dsimp only
          rw [askedOf_stop _ hstop, List.find?_cons_of_pos (by rw [hstop]; rfl)]
          simp only [Dispatched.of, hanswer]

/-- One frame, whose caller is nobody. -/
def savingFrame : Frame := ⟨savingBody, some savingCall⟩

def nobody : Context := { savingEntry.ctx with rip := 0 }.addRsp 8

theorem savingFrame_stack : IsStack savingStack ⟨[], 0⟩ 0x10000 1 nobody [savingFrame] := by
  have hentry : entryFor savingStack ⟨[], 0⟩ 0x10000 savingBody = (0x10200, 0x10000) := by decide +kernel
  have hinfo : 0x10000 + savingStack.rd32 (0x10200 + 8) = 0x10300 := by decide +kernel
  refine ⟨?_, ⟨by decide +kernel, by decide +kernel, by decide +kernel⟩, fun h => absurd rfl h, trivial⟩
  unfold Frame.Described
  dsimp only [savingFrame]
  rw [hentry]
  refine ⟨by decide, ⟨1, Nat.le_refl 1, ?_⟩, savingCall_running⟩
  rw [hinfo]
  exact savingCall_chain

end Dispatch

/-! ## The second walk -/

section UnwindEx

variable {m : Mem} {s : Loader} {main fuel : Nat} {bottom : Context}

/-- The same as far as the code that goes on is concerned; where it goes on is not part of it. -/
structure KeptBy (c c' : Context) : Prop where
  kept : ∀ r, Nonvolatile r → c.gpr r = c'.gpr r
  rsp : c.rsp = c'.rsp

theorem unwindLoop_runs {touch : HandlerCall → Context → Context} (htouch : ∀ call c, KeptBy (touch call c) c)
    {targetFrame : BitVec 64} (targetIp : BitVec 64) (flags : Nat) {passed outer : List Frame} {target : Frame}
    {x : Activation} (hstack : IsStack m s main fuel bottom (passed ++ target :: outer)) (hact : target.act = some x)
    (htarget : x.base = targetFrame) (hpassed : ∀ f ∈ passed, ∀ y, f.act = some y → y.base ≠ targetFrame)
    {left : Nat} (hleft : passed.length < left) {cur : Context}
    (hcur : Like cur (topCtx (passed ++ target :: outer) bottom)) :
    ∃ c, unwindLoop m s main fuel touch targetFrame targetIp left flags cur =
        some (passed.filterMap (Frame.call m s main fuel uflagUhandler flags targetIp) ++
          (target.call m s main fuel uflagUhandler (flags ||| excTargetUnwind) targetIp).toList, c) ∧
      KeptBy c target.ctx := by
  induction passed generalizing left cur with
  | nil =>
    obtain ⟨hf, hcalled, -, -⟩ := hstack
    obtain ⟨left, rfl⟩ := Nat.exists_eq_add_of_le' (show 1 ≤ left from hleft)
    obtain ⟨hentry, u, hu, hlike, hest, hcall⟩ := target.unwind_step hf hcalled hact hcur uflagUhandler
    have hsame : KeptBy cur target.ctx := ⟨hcur.kept, hcur.rsp⟩
    unfold unwindLoop
    dsimp only
    rw [if_neg hentry, hu, Option.bind_some, if_pos (hest.trans htarget), if_pos (hest.trans htarget), hcall]
    by_cases hnone : u.handler = 0
    · rw [if_neg (not_not.2 hnone), if_neg (not_not.2 hnone), if_pos hnone]
      exact ⟨cur, rfl, hsame⟩
    · rw [if_pos hnone, if_pos hnone, if_neg hnone]
      generalize handlerCall _ _ u _ _ _ = call
      obtain ⟨hkept, hsp⟩ := htouch call cur
      exact ⟨_, rfl, fun r hr => (hkept r hr).trans (hsame.kept r hr), hsp.trans hsame.rsp⟩
  | cons f passed ih =>
    obtain ⟨hf, hcalled, hrip, hrest⟩ := hstack
    obtain ⟨left, rfl⟩ := Nat.exists_eq_add_of_le' (show 1 ≤ left by omega)
    have hleft : passed.length < left := by simpa using hleft
    have hpassed' : ∀ f ∈ passed, ∀ y, f.act = some y → y.base ≠ targetFrame := fun g hg =>
      hpassed g (List.mem_cons_of_mem _ hg)
    have hgoes : (topCtx (passed ++ target :: outer) bottom).rip ≠ 0 := hrip (by simp)
    cases hactf : f.act with
    | none =>
      obtain ⟨hentry, hsp, hlike⟩ := f.leaf_step hf hcalled hactf hcur
      unfold unwindLoop
      dsimp only
      rw [if_pos hentry, if_neg hsp, if_neg (by rw [hlike.rip]; exact hgoes),
        List.filterMap_cons_none (f.call_leaf hactf ..)]
      exact ih hrest hpassed' hleft hlike
    | some y =>
      obtain ⟨hentry, u, hu, hlike, hest, hcall⟩ := f.unwind_step hf hcalled hactf hcur uflagUhandler
      have hother : u.establisher ≠ targetFrame := by
        rw [hest]
        exact hpassed f List.mem_cons_self y hactf
      obtain ⟨c, hloop, hkept⟩ := ih hrest hpassed' hleft hlike
      refine ⟨c, ?_, hkept⟩
      unfold unwindLoop
      dsimp only
      rw [if_neg hentry, hu, Option.bind_some, if_neg hother, if_neg hother, if_neg (by rw [hlike.rip]; exact hgoes),
        hloop, Option.map_some]
      by_cases hnone : u.handler = 0
      · rw [if_neg (not_not.2 hnone), List.filterMap_cons_none ((hcall flags targetIp).trans (if_pos hnone))]
        rfl
      · rw [if_pos hnone, List.filterMap_cons_some ((hcall flags targetIp).trans (if_neg hnone))]
        rfl

end UnwindEx

end MeuOS.Ntdll
