import MeuOS.Lib.Words

/-! Unwinding a frame. The codes of a function say, the last instruction first, what its prolog did; the unwinder
undoes it on a copy of the registers, and takes no notice of where in the function the code was. -/
namespace MeuOS.Ntdll

open MeuOS.Lib

/-- The registers by their numbers in the codes, and `Rip`. -/
structure Context where
  gpr : Fin 16 → BitVec 64
  rip : BitVec 64

def rax : Fin 16 := 0

namespace Context

def rsp (c : Context) : BitVec 64 := c.gpr 4

def setReg (c : Context) (r : Fin 16) (w : BitVec 64) : Context := { c with gpr := Function.update c.gpr r w }

def addRsp (c : Context) (w : BitVec 64) : Context := c.setReg 4 (c.rsp + w)

/-- The return address is taken off the stack. -/
def popReturn (m : Mem) (c : Context) : Context := { c with rip := m.word c.rsp.toNat }.addRsp 8

@[simp] theorem setReg_same (c : Context) (r : Fin 16) (w : BitVec 64) : (c.setReg r w).gpr r = w :=
  Function.update_self ..

theorem setReg_other (c : Context) {r r' : Fin 16} (w : BitVec 64) (h : r' ≠ r) :
    (c.setReg r w).gpr r' = c.gpr r' :=
  Function.update_of_ne h ..

@[simp] theorem addRsp_rsp (c : Context) (w : BitVec 64) : (c.addRsp w).rsp = c.rsp + w := setReg_same ..

theorem addRsp_other (c : Context) {r : Fin 16} (w : BitVec 64) (h : r ≠ 4) : (c.addRsp w).gpr r = c.gpr r :=
  setReg_other c _ h

@[simp] theorem popReturn_rsp (m : Mem) (c : Context) : (c.popReturn m).rsp = c.rsp + 8 := addRsp_rsp _ _

@[simp] theorem popReturn_rip (m : Mem) (c : Context) : (c.popReturn m).rip = m.word c.rsp.toNat := rfl

theorem popReturn_other (m : Mem) (c : Context) {r : Fin 16} (h : r ≠ 4) : (c.popReturn m).gpr r = c.gpr r :=
  addRsp_other _ _ h

end Context

/-! ## `UNWIND_INFO` -/

def uflagEhandler : Nat := 1
def uflagUhandler : Nat := 2
def uflagChaininfo : Nat := 4

section Info

variable (m : Mem) (info : Nat)

def unwindFlags : Nat := (m info).toNat / 8
def countCodes : Nat := (m (info + 2)).toNat
def frameRegister : Fin 16 := Fin.ofNat 16 (m (info + 3)).toNat
def frameOffset : Nat := (m (info + 3)).toNat / 16
def codeAt (i : Nat) : Nat := m.rd16 (info + 4 + 2 * i)
def farAt (i : Nat) : Nat := m.rd32 (info + 4 + 2 * i)

/-- What stands behind the codes, whose number is made even. -/
def behindCodes : Nat := info + 4 + 2 * ((countCodes m info + 1) / 2 * 2)

end Info

/-- Where the saved registers are counted from. -/
def frameBase (fr : Fin 16) (fo : Nat) (c : Context) : BitVec 64 :=
  if fr ≠ 0 then c.gpr fr - BitVec.ofNat 64 (fo * 16) else c.rsp

section Unwind

variable (m : Mem)

/-- The code at `i`: how many slots it takes, and what it makes of the registers. The flag says that a machine frame
was found. -/
def unwindCode (info : Nat) (fr : Fin 16) (fo : Nat) (base : BitVec 64) (i : Nat) (u : Context × Bool) :
    Nat × Context × Bool :=
  let op := codeAt m info i / 256
  let oi : Fin 16 := Fin.ofNat 16 (op / 16)
  let c := u.1
  match op % 16 with
  | 0 => (1, (c.setReg oi (m.word c.rsp.toNat)).addRsp 8, u.2)
  | 1 =>
      if oi = 0 then (2, c.addRsp (BitVec.ofNat 64 (codeAt m info (i + 1) * 8)), u.2)
      else (3, c.addRsp (BitVec.ofNat 64 (farAt m info (i + 1))), u.2)
  | 2 => (1, c.addRsp (BitVec.ofNat 64 (oi.val * 8 + 8)), u.2)
  | 3 => (1, c.setReg 4 (c.gpr fr - BitVec.ofNat 64 (fo * 16)), u.2)
  | 4 => (2, c.setReg oi (m.word (base + BitVec.ofNat 64 (codeAt m info (i + 1) * 8)).toNat), u.2)
  | 5 => (3, c.setReg oi (m.word (base + BitVec.ofNat 64 (farAt m info (i + 1))).toNat), u.2)
  | 8 => (2, u)
  | 9 => (3, u)
  | 10 =>
      let sp := if oi ≠ 0 then c.rsp + 8 else c.rsp
      (1, { c with rip := m.word sp.toNat }.setReg 4 (m.word (sp + 24).toNat), true)
  | _ => (1, u)

/-- The codes from `i` on. -/
def unwindCodes (info : Nat) (fr : Fin 16) (fo : Nat) (base : BitVec 64) :
    Nat → Nat → Context × Bool → Context × Bool
  | 0, _, u => u
  | left + 1, i, u =>
      if i < countCodes m info then
        let next := unwindCode m info fr fo base i u
        unwindCodes info fr fo base left (i + next.1) next.2
      else u

/-- The handler of an info and its data, where the info has one of the kind; 0 where not. -/
def infoHandler (base type info : Nat) : Nat × Nat :=
  if unwindFlags m info &&& type ≠ 0 then (base + m.rd32 (behindCodes m info), behindCodes m info + 4) else (0, 0)

/-- The info of the code this one belongs to. -/
def chainedInfo (base info : Nat) : Nat := base + m.rd32 (behindCodes m info + 8)

/-- The loop over chained infos. The frame's register, offset and base stay those of the first. -/
def unwindChain (type base : Nat) (fr : Fin 16) (fo : Nat) (fb : BitVec 64) :
    Nat → Nat → Nat × Nat → Context × Bool → Option ((Nat × Nat) × Context × Bool)
  | 0, _, _, _ => none
  | left + 1, info, handler, u =>
      let u := unwindCodes m info fr fo fb (countCodes m info) 0 u
      let handler := if handler.1 = 0 then infoHandler m base type info else handler
      if unwindFlags m info &&& uflagChaininfo ≠ 0 then
        unwindChain type base fr fo fb left (chainedInfo m base info) handler u
      else some (handler, u)

/-- The handler of the frame with its data, `EstablisherFrame`, and the registers of the caller. -/
structure Unwound where
  handler : Nat
  handlerData : Nat
  establisher : BitVec 64
  ctx : Context

/-- `fuel` bounds how many infos are chained. -/
def rtlVirtualUnwind (fuel type base fn : Nat) (c : Context) : Option Unwound :=
  let info := base + m.rd32 (fn + 8)
  let fr := frameRegister m info
  let fo := frameOffset m info
  let fb := frameBase fr fo c
  (unwindChain m type base fr fo fb fuel info (0, 0) (c, false)).map fun (handler, c, machframe) =>
    ⟨handler.1, handler.2, fb, if machframe then c else c.popReturn m⟩

end Unwind

/-! ## Prologs -/

/-- The registers a function must leave as they were. -/
def Nonvolatile (r : Fin 16) : Prop := r = 3 ∨ r = 5 ∨ r = 6 ∨ r = 7 ∨ 12 ≤ r

instance (r : Fin 16) : Decidable (Nonvolatile r) := inferInstanceAs (Decidable (_ ∨ _))

theorem Nonvolatile.ne {r : Fin 16} (h : Nonvolatile r) : r ≠ 0 ∧ r ≠ 4 := by
  revert r
  decide

/-- An instruction of a prolog that has a code. Registers are saved at an offset from the frame's base; what a vector
register holds is of no interest here. -/
inductive PrologOp
  | pushNonvol (r : Fin 16)
  | alloc (n : Nat)
  | setFpreg
  | saveNonvol (r : Fin 16) (off : Nat)
  | saveXmm128 (off : Nat) (lo hi : BitVec 64)
deriving DecidableEq

structure Machine where
  ctx : Context
  mem : Mem

/-- The words an instruction stores. -/
def PrologOp.stores (fb : BitVec 64) (c : Context) : PrologOp → List (BitVec 64 × BitVec 64)
  | .pushNonvol r => [(c.rsp - 8, c.gpr r)]
  | .saveNonvol r off => [(fb + BitVec.ofNat 64 off, c.gpr r)]
  | .saveXmm128 off lo hi => [(fb + BitVec.ofNat 64 off, lo), (fb + BitVec.ofNat 64 off + 8, hi)]
  | .alloc _ | .setFpreg => []

/-- What it does to the registers. -/
def PrologOp.sets (fr : Fin 16) (fo : Nat) (c : Context) : PrologOp → Context
  | .pushNonvol _ => c.addRsp (-8)
  | .alloc n => c.addRsp (-BitVec.ofNat 64 n)
  | .setFpreg => c.setReg fr (c.rsp + BitVec.ofNat 64 (fo * 16))
  | .saveNonvol .. | .saveXmm128 .. => c

def storeWords (m : Mem) (ws : List (BitVec 64 × BitVec 64)) : Mem :=
  ws.foldl (fun m w => m.putWord w.1.toNat w.2) m

/-- The machine after the instructions, the last of which comes first. -/
def afterProlog (fr : Fin 16) (fo : Nat) (fb : BitVec 64) (entry : Machine) : List PrologOp → Machine
  | [] => entry
  | op :: earlier =>
      let s := afterProlog fr fo fb entry earlier
      ⟨op.sets fr fo s.ctx, storeWords s.mem (op.stores fb s.ctx)⟩

/-- The registers whose value on entry the instructions store. -/
def savedRegs : List PrologOp → List (Fin 16)
  | [] => []
  | .pushNonvol r :: earlier | .saveNonvol r _ :: earlier => r :: savedRegs earlier
  | .alloc _ :: earlier | .setFpreg :: earlier | .saveXmm128 .. :: earlier => savedRegs earlier

/-- An instruction may follow the earlier ones: the frame register is set once, after it was saved, and nothing is
pushed after that. -/
def PrologOp.Fits (fr : Fin 16) (earlier : List PrologOp) : PrologOp → Prop
  | .pushNonvol r => r ≠ 4 ∧ .setFpreg ∉ earlier
  | .saveNonvol r _ => r ≠ 4 ∧ (.setFpreg ∈ earlier → r ≠ fr)
  | .setFpreg => Nonvolatile fr ∧ .setFpreg ∉ earlier ∧ fr ∈ savedRegs earlier
  | .alloc _ | .saveXmm128 .. => True

instance (fr : Fin 16) (earlier : List PrologOp) : (op : PrologOp) → Decidable (op.Fits fr earlier)
  | .pushNonvol _ => inferInstanceAs (Decidable (_ ∧ _))
  | .saveNonvol .. => inferInstanceAs (Decidable (_ ∧ (_ → _)))
  | .setFpreg => inferInstanceAs (Decidable (_ ∧ _ ∧ _))
  | .alloc _ | .saveXmm128 .. => isTrue trivial

def PrologFits (fr : Fin 16) : List PrologOp → Prop
  | [] => True
  | op :: earlier => op.Fits fr earlier ∧ PrologFits fr earlier

instance decidablePrologFits (fr : Fin 16) : (ops : List PrologOp) → Decidable (PrologFits fr ops)
  | [] => isTrue trivial
  | _ :: earlier => have := decidablePrologFits fr earlier; inferInstanceAs (Decidable (_ ∧ _))

/-! ## Codes -/

section Codes

variable (m : Mem)

/-- The `k` slots from `i` on say that the prolog did this. -/
inductive CodeFor (info i : Nat) : PrologOp → Nat → Prop
  | pushNonvol (r : Fin 16) (h : codeAt m info i / 256 = 16 * r.val) : CodeFor info i (.pushNonvol r) 1
  | allocLarge (h : codeAt m info i / 256 = 1) : CodeFor info i (.alloc (codeAt m info (i + 1) * 8)) 2
  | allocHuge (oi : Fin 16) (hoi : oi ≠ 0) (h : codeAt m info i / 256 = 16 * oi.val + 1) :
      CodeFor info i (.alloc (farAt m info (i + 1))) 3
  | allocSmall (oi : Fin 16) (h : codeAt m info i / 256 = 16 * oi.val + 2) :
      CodeFor info i (.alloc (oi.val * 8 + 8)) 1
  | setFpreg (oi : Fin 16) (h : codeAt m info i / 256 = 16 * oi.val + 3) : CodeFor info i .setFpreg 1
  | saveNonvol (r : Fin 16) (h : codeAt m info i / 256 = 16 * r.val + 4) :
      CodeFor info i (.saveNonvol r (codeAt m info (i + 1) * 8)) 2
  | saveNonvolFar (r : Fin 16) (h : codeAt m info i / 256 = 16 * r.val + 5) :
      CodeFor info i (.saveNonvol r (farAt m info (i + 1))) 3
  | saveXmm128 (x : Fin 16) (lo hi : BitVec 64) (h : codeAt m info i / 256 = 16 * x.val + 8) :
      CodeFor info i (.saveXmm128 (codeAt m info (i + 1) * 16) lo hi) 2
  | saveXmm128Far (x : Fin 16) (lo hi : BitVec 64) (h : codeAt m info i / 256 = 16 * x.val + 9) :
      CodeFor info i (.saveXmm128 (farAt m info (i + 1)) lo hi) 3

/-- The codes from slot `i` to the last one say that the prolog did these, the last one first. -/
inductive Codes (info : Nat) : Nat → List PrologOp → Prop
  | done {i : Nat} (h : i = countCodes m info) : Codes info i []
  | code {i k : Nat} {op : PrologOp} {ops : List PrologOp} (h : CodeFor m info i op k)
      (hrest : Codes info (i + k) ops) : Codes info i (op :: ops)

/-- A chain of infos that name one frame register: what the prologs of all of them did, and how many they are. -/
inductive Chain (base : Nat) (fr : Fin 16) (fo : Nat) : Nat → List PrologOp → Nat → Prop
  | last {info : Nat} {ops : List PrologOp} (hcodes : Codes m info 0 ops)
      (hfr : frameRegister m info = fr ∧ frameOffset m info = fo)
      (hflag : unwindFlags m info &&& uflagChaininfo = 0) : Chain base fr fo info ops 1
  | link {info n : Nat} {ops earlier : List PrologOp} (hcodes : Codes m info 0 ops)
      (hfr : frameRegister m info = fr ∧ frameOffset m info = fo)
      (hflag : unwindFlags m info &&& uflagChaininfo ≠ 0)
      (hrest : Chain base fr fo (chainedInfo m base info) earlier n) : Chain base fr fo info (ops ++ earlier) (n + 1)

/-- The first handler of the kind in a chain. -/
def chainHandler (type base : Nat) : Nat → Nat → Nat × Nat
  | 0, _ => (0, 0)
  | left + 1, info =>
      if (infoHandler m base type info).1 ≠ 0 then infoHandler m base type info
      else if unwindFlags m info &&& uflagChaininfo ≠ 0 then chainHandler type base left (chainedInfo m base info)
      else infoHandler m base type info

end Codes

/-- What the unwinder does for an instruction. -/
def PrologOp.undo (m : Mem) (fr : Fin 16) (fo : Nat) (fb : BitVec 64) (c : Context) : PrologOp → Context
  | .pushNonvol r => (c.setReg r (m.word c.rsp.toNat)).addRsp 8
  | .alloc n => c.addRsp (BitVec.ofNat 64 n)
  | .setFpreg => c.setReg 4 (c.gpr fr - BitVec.ofNat 64 (fo * 16))
  | .saveNonvol r off => c.setReg r (m.word (fb + BitVec.ofNat 64 off).toNat)
  | .saveXmm128 .. => c

section Interpreter

variable {m : Mem} {info type base : Nat} {fr : Fin 16} {fo : Nat} {fb : BitVec 64}

theorem CodeFor.pos {i k : Nat} {op : PrologOp} (h : CodeFor m info i op k) : 0 < k := by
  cases h <;> decide

theorem unwindCode_eq {i k : Nat} {op : PrologOp} (h : CodeFor m info i op k) (c : Context) (b : Bool) :
    unwindCode m info fr fo fb i (c, b) = (k, op.undo m fr fo fb c, b) := by
  have hlow : ∀ (x : Fin 16) (n : Nat), n < 16 →
      (16 * x.val + n) % 16 = n ∧ Fin.ofNat 16 ((16 * x.val + n) / 16) = x := by
    intro x n hn
    exact ⟨by omega, Fin.ext (by rw [Fin.val_ofNat]; omega)⟩
  unfold unwindCode
  cases h with
  | pushNonvol r h =>
    obtain ⟨hop, hoi⟩ := hlow r 0 (by decide)
    simp only [Nat.add_zero] at hop hoi
    simp only [h, hop, hoi]
    rfl
  | allocLarge h => simp [h, PrologOp.undo]
  | allocHuge oi hoi h =>
    obtain ⟨hop, hdiv⟩ := hlow oi 1 (by decide)
    simp only [h, hop, hdiv, hoi, if_false]
    rfl
  | allocSmall oi h =>
    obtain ⟨hop, hoi⟩ := hlow oi 2 (by decide)
    simp only [h, hop, hoi]
    rfl
  | setFpreg oi h =>
    obtain ⟨hop, hoi⟩ := hlow oi 3 (by decide)
    simp only [h, hop]
    rfl
  | saveNonvol r h =>
    obtain ⟨hop, hoi⟩ := hlow r 4 (by decide)
    simp only [h, hop, hoi]
    rfl
  | saveNonvolFar r h =>
    obtain ⟨hop, hoi⟩ := hlow r 5 (by decide)
    simp only [h, hop, hoi]
    rfl
  | saveXmm128 x lo hi h =>
    obtain ⟨hop, -⟩ := hlow x 8 (by decide)
    simp only [h, hop]
    rfl
  | saveXmm128Far x lo hi h =>
    obtain ⟨hop, -⟩ := hlow x 9 (by decide)
    simp only [h, hop]
    rfl

theorem Codes.le {i : Nat} {ops : List PrologOp} (h : Codes m info i ops) : i ≤ countCodes m info := by
  induction h with
  | done h => exact Nat.le_of_eq h
  | code h hrest ih => omega

/-- The codes undo the instructions one by one. -/
theorem unwindCodes_eq {i left : Nat} {ops : List PrologOp} (h : Codes m info i ops)
    (hleft : countCodes m info ≤ i + left) (c : Context) (b : Bool) :
    unwindCodes m info fr fo fb left i (c, b) = (ops.foldl (PrologOp.undo m fr fo fb) c, b) := by
  induction h generalizing left c with
  | done h =>
    cases left with
    | zero => rfl
    | succ left => exact if_neg (Nat.not_lt.2 (Nat.le_of_eq h.symm))
  | @code i k op ops h hrest ih =>
    have hpos := h.pos
    have hle := hrest.le
    obtain ⟨left, rfl⟩ := Nat.exists_eq_add_of_le' (show 1 ≤ left by omega)
    unfold unwindCodes
    rw [if_pos (by omega), unwindCode_eq h]
    exact ih (by omega) _

theorem unwindChain_eq {n fuel : Nat} {ops : List PrologOp} {found : Nat × Nat}
    (h : Chain m base fr fo info ops n) (hfuel : n ≤ fuel) (c : Context) (b : Bool) :
    unwindChain m type base fr fo fb fuel info found (c, b) =
      some (if found.1 = 0 then chainHandler m type base fuel info else found,
        ops.foldl (PrologOp.undo m fr fo fb) c, b) := by
  induction h generalizing fuel found c with
  | @last info _ hcodes hfr hflag =>
    obtain ⟨fuel, rfl⟩ := Nat.exists_eq_add_of_le' hfuel
    unfold unwindChain chainHandler
    dsimp only
    rw [unwindCodes_eq hcodes (by omega), if_neg (not_not.2 hflag), if_neg (not_not.2 hflag), ite_self]
  | @link info _ _ _ hcodes hfr hflag hrest ih =>
    obtain ⟨fuel, rfl⟩ := Nat.exists_eq_add_of_le' (Nat.le_trans (Nat.le_add_left 1 _) hfuel)
    unfold unwindChain chainHandler
    dsimp only
    rw [unwindCodes_eq hcodes (by omega), if_pos hflag, if_pos hflag, ih (by omega), List.foldl_append]
    by_cases hfound : found.1 = 0
    · rw [if_pos hfound, if_pos hfound]
      by_cases hnone : (infoHandler m base type info).1 = 0
      · rw [if_pos hnone, if_neg (not_not.2 hnone)]
      · rw [if_neg hnone, if_pos hnone]
    · rw [if_neg hfound, if_neg hfound, if_neg hfound]

end Interpreter

/-! ## Activations -/

/-- What the prolog stored, and the return address. -/
def storedWords (fr : Fin 16) (fo : Nat) (fb : BitVec 64) (entry : Machine) :
    List PrologOp → List (BitVec 64 × BitVec 64)
  | [] => [(entry.ctx.rsp, entry.mem.word entry.ctx.rsp.toNat)]
  | op :: earlier =>
      op.stores fb (afterProlog fr fo fb entry earlier).ctx ++ storedWords fr fo fb entry earlier

/-- A call of a function: the machine at its entry, and its prolog, run from there. -/
structure Activation where
  fr : Fin 16
  fo : Nat
  base : BitVec 64
  entry : Machine
  prolog : List PrologOp
  fits : PrologFits fr prolog
  framed : fr ≠ 0 → .setFpreg ∈ prolog
  base_eq : base = frameBase fr fo (afterProlog fr fo base entry prolog).ctx
  apart : (storedWords fr fo base entry prolog).Pairwise fun w w' =>
    w.1.toNat + 8 ≤ w'.1.toNat ∨ w'.1.toNat + 8 ≤ w.1.toNat

namespace Activation

variable (x : Activation)

def after (ops : List PrologOp) : Machine := afterProlog x.fr x.fo x.base x.entry ops

/-- The function has run on from its prolog: what it must keep is as the prolog left it. Only a function with a frame
register may have moved `rsp`. -/
structure Running (c : Context) (m : Mem) : Prop where
  kept : ∀ r, Nonvolatile r → r ∉ savedRegs x.prolog → c.gpr r = (x.after x.prolog).ctx.gpr r
  frame : x.fr ≠ 0 → c.gpr x.fr = (x.after x.prolog).ctx.gpr x.fr
  rsp : x.fr = 0 → c.rsp = (x.after x.prolog).ctx.rsp
  stored : ∀ w ∈ storedWords x.fr x.fo x.base x.entry x.prolog,
    m.word w.1.toNat = (x.after x.prolog).mem.word w.1.toNat

/-- The registers as the caller gets them back. -/
structure Returned (c : Context) : Prop where
  kept : ∀ r, Nonvolatile r → c.gpr r = x.entry.ctx.gpr r
  rsp : c.rsp = x.entry.ctx.rsp + 8
  rip : c.rip = x.entry.mem.word x.entry.ctx.rsp.toNat

end Activation

/-! ## What a prolog leaves -/

section Prolog

variable {fr : Fin 16} {fo : Nat} {fb : BitVec 64} {entry : Machine}

def FarFrom (p q : BitVec 64) : Prop := p.toNat + 8 ≤ q.toNat ∨ q.toNat + 8 ≤ p.toNat

theorem storeWords_other {m : Mem} {ws : List (BitVec 64 × BitVec 64)} {p : BitVec 64}
    (h : ∀ w ∈ ws, FarFrom w.1 p) : (storeWords m ws).word p.toNat = m.word p.toNat := by
  induction ws generalizing m with
  | nil => rfl
  | cons w ws ih =>
    have hrest := ih (m := m.putWord w.1.toNat w.2) fun w' hw' => h w' (List.mem_cons_of_mem _ hw')
    have hfirst := h w List.mem_cons_self
    exact hrest.trans (word_putWord_of_disjoint m _ hfirst)

theorem storeWords_same {m : Mem} {ws : List (BitVec 64 × BitVec 64)}
    (hapart : ws.Pairwise fun w w' => FarFrom w.1 w'.1) {w : BitVec 64 × BitVec 64} (hw : w ∈ ws) :
    (storeWords m ws).word w.1.toNat = w.2 := by
  induction ws generalizing m with
  | nil => exact absurd hw List.not_mem_nil
  | cons w' ws ih =>
    obtain ⟨hfirst, hrest⟩ := List.pairwise_cons.1 hapart
    rcases List.mem_cons.1 hw with rfl | hw
    · have hlater := storeWords_other (m := m.putWord w.1.toNat w.2) fun w' hw' => (hfirst w' hw').symm
      exact hlater.trans (word_putWord_same m _ _)
    · exact ih hrest hw

/-- At the end of the prolog the words it stored are there, and the return address is. -/
theorem stored_words {ops : List PrologOp}
    (hapart : (storedWords fr fo fb entry ops).Pairwise fun w w' => FarFrom w.1 w'.1) {w : BitVec 64 × BitVec 64}
    (hw : w ∈ storedWords fr fo fb entry ops) : (afterProlog fr fo fb entry ops).mem.word w.1.toNat = w.2 := by
  induction ops with
  | nil =>
    rw [storedWords, List.mem_singleton] at hw
    subst hw
    rfl
  | cons op earlier ih =>
    obtain ⟨hnew, hold, hbetween⟩ := List.pairwise_append.1 hapart
    rcases List.mem_append.1 hw with hw | hw
    · exact storeWords_same hnew hw
    · have hkept := storeWords_other (m := (afterProlog fr fo fb entry earlier).mem) fun w' hw' => hbetween w' hw' w hw
      exact hkept.trans (ih hold hw)

/-- Only `rsp` and, once it is set, the frame register are changed. -/
theorem afterProlog_gpr {ops : List PrologOp} {r : Fin 16} (hr : r ≠ 4) (hfr : .setFpreg ∈ ops → r ≠ fr) :
    (afterProlog fr fo fb entry ops).ctx.gpr r = entry.ctx.gpr r := by
  induction ops with
  | nil => rfl
  | cons op earlier ih =>
    have hrest := ih fun h => hfr (List.mem_cons_of_mem _ h)
    rw [← hrest]
    cases op with
    | pushNonvol | alloc => exact Context.addRsp_other _ _ hr
    | setFpreg => exact Context.setReg_other _ _ (hfr List.mem_cons_self)
    | saveNonvol | saveXmm128 => rfl

/-- The frame register keeps what it was set to. -/
theorem frame_kept {op : PrologOp} {earlier : List PrologOp} (hfits : op.Fits fr earlier) (hfr : fr ≠ 4)
    (hset : .setFpreg ∈ earlier) :
    (afterProlog fr fo fb entry (op :: earlier)).ctx.gpr fr = (afterProlog fr fo fb entry earlier).ctx.gpr fr := by
  cases op with
  | pushNonvol | alloc => exact Context.addRsp_other _ _ hfr
  | setFpreg => exact absurd hset hfits.2.1
  | saveNonvol | saveXmm128 => rfl

theorem saved_frame {ops : List PrologOp} (hfits : PrologFits fr ops) (hset : .setFpreg ∈ ops) :
    Nonvolatile fr ∧ fr ∈ savedRegs ops := by
  induction ops with
  | nil => exact absurd hset List.not_mem_nil
  | cons op earlier ih =>
    obtain ⟨hop, hrest⟩ := hfits
    rcases List.mem_cons.1 hset with rfl | hset
    · exact ⟨hop.1, hop.2.2⟩
    · obtain ⟨hfr, hsaved⟩ := ih hrest hset
      refine ⟨hfr, ?_⟩
      cases op with
      | pushNonvol | saveNonvol => exact List.mem_cons_of_mem _ hsaved
      | alloc | setFpreg | saveXmm128 => exact hsaved

end Prolog

/-! ## Undoing it -/

namespace Activation

variable {x : Activation} {m : Mem} {c : Context}

/-- The registers when these instructions are still to be undone. -/
structure Undone (x : Activation) (left : List PrologOp) (c : Context) : Prop where
  kept : ∀ r, Nonvolatile r → r ∉ savedRegs left → c.gpr r = x.entry.ctx.gpr r
  frame : .setFpreg ∈ left → c.gpr x.fr = x.base + BitVec.ofNat 64 (x.fo * 16) ∧
    (x.after left).ctx.gpr x.fr = x.base + BitVec.ofNat 64 (x.fo * 16)
  rsp : .setFpreg ∉ left → c.rsp = (x.after left).ctx.rsp

/-- A register that gets its value on entry back is kept from then on. -/
theorem kept_setReg {r r' : Fin 16} {w : BitVec 64} {left : List (Fin 16)}
    (h : ∀ r', Nonvolatile r' → r' ∉ r :: left → c.gpr r' = x.entry.ctx.gpr r') (hw : w = x.entry.ctx.gpr r)
    (hr' : Nonvolatile r') (hleft : r' ∉ left) : (c.setReg r w).gpr r' = x.entry.ctx.gpr r' := by
  by_cases heq : r' = r
  · subst heq
    rw [Context.setReg_same, hw]
  · rw [Context.setReg_other _ _ heq]
    exact h r' hr' (List.not_mem_cons_of_ne_of_not_mem heq hleft)

/-- One instruction is undone. -/
theorem Undone.undo {op : PrologOp} {earlier : List PrologOp} (h : Undone x (op :: earlier) c)
    (hfits : op.Fits x.fr earlier)
    (hwords : ∀ w ∈ op.stores x.base (x.after earlier).ctx, m.word w.1.toNat = w.2)
    (hfour : .setFpreg ∈ op :: earlier → x.fr ≠ 4) : Undone x earlier (op.undo m x.fr x.fo x.base c) := by
  have hvalue : ∀ r, r ≠ 4 → (.setFpreg ∈ earlier → r ≠ x.fr) →
      (x.after earlier).ctx.gpr r = x.entry.ctx.gpr r := fun _ hr hfr => afterProlog_gpr hr hfr
  have hframe : .setFpreg ∈ earlier → (x.after earlier).ctx.gpr x.fr = x.base + BitVec.ofNat 64 (x.fo * 16) := by
    intro hset
    have hmem := List.mem_cons_of_mem op hset
    exact (frame_kept hfits (hfour hmem) hset).symm.trans (h.frame hmem).2
  cases op with
  | pushNonvol r =>
    obtain ⟨hr, hset⟩ := hfits
    have hsp : c.rsp = (x.after earlier).ctx.rsp - 8 := by
      rw [h.rsp (by simpa using hset)]
      show (Context.addRsp _ _).rsp = _
      rw [Context.addRsp_rsp, BitVec.sub_eq_add_neg]
      rfl
    have hword : m.word c.rsp.toNat = x.entry.ctx.gpr r := by
      rw [hsp, ← hvalue r hr fun h => absurd h hset]
      exact hwords ((x.after earlier).ctx.rsp - 8, (x.after earlier).ctx.gpr r) List.mem_cons_self
    refine ⟨fun r' hr' hleft => ?_, fun h => absurd h hset, fun _ => ?_⟩
    · show ((c.setReg r _).addRsp 8).gpr r' = _
      rw [Context.addRsp_other _ _ hr'.ne.2]
      exact kept_setReg h.kept hword hr' hleft
    · show ((c.setReg r _).addRsp 8).rsp = _
      rw [Context.addRsp_rsp]
      show (c.setReg r _).gpr 4 + 8 = _
      rw [Context.setReg_other _ _ hr.symm]
      show c.rsp + 8 = _
      rw [hsp, BitVec.sub_add_cancel]
  | alloc n =>
    refine ⟨fun r hr hleft => ?_, fun hset => ⟨?_, hframe hset⟩, fun hset => ?_⟩
    · show (c.addRsp _).gpr r = _
      rw [Context.addRsp_other _ _ hr.ne.2]
      exact h.kept r hr hleft
    · have hmem := List.mem_cons_of_mem (PrologOp.alloc n) hset
      show (c.addRsp _).gpr x.fr = _
      rw [Context.addRsp_other _ _ (hfour hmem)]
      exact (h.frame hmem).1
    · show (c.addRsp _).rsp = _
      rw [Context.addRsp_rsp, h.rsp (by simpa using hset)]
      show (Context.addRsp _ _).rsp + _ = _
      rw [Context.addRsp_rsp, BitVec.add_assoc, BitVec.add_left_neg, BitVec.add_zero]
      rfl
  | setFpreg =>
    obtain ⟨hfr, hset, hsaved⟩ := hfits
    obtain ⟨hreg, hafter⟩ := h.frame List.mem_cons_self
    refine ⟨fun r hr hleft => ?_, fun h => absurd h hset, fun _ => ?_⟩
    · show (c.setReg 4 _).gpr r = _
      rw [Context.setReg_other _ _ hr.ne.2]
      exact h.kept r hr hleft
    · have hset : (x.after earlier).ctx.rsp + BitVec.ofNat 64 (x.fo * 16) =
          x.base + BitVec.ofNat 64 (x.fo * 16) := (Context.setReg_same _ _ _).symm.trans hafter
      show (c.setReg 4 _).gpr 4 = _
      rw [Context.setReg_same, hreg, BitVec.add_sub_cancel]
      exact ((BitVec.add_left_inj _).1 hset).symm
  | saveNonvol r off =>
    obtain ⟨hr, hfr⟩ := hfits
    have hword : m.word (x.base + BitVec.ofNat 64 off).toNat = x.entry.ctx.gpr r := by
      rw [← hvalue r hr hfr]
      exact hwords (x.base + BitVec.ofNat 64 off, (x.after earlier).ctx.gpr r) List.mem_cons_self
    refine ⟨fun r' hr' hleft => kept_setReg h.kept hword hr' hleft, fun hset => ⟨?_, hframe hset⟩, fun hset => ?_⟩
    · show (c.setReg r _).gpr x.fr = _
      rw [Context.setReg_other _ _ (hfr hset).symm]
      exact (h.frame (List.mem_cons_of_mem _ hset)).1
    · show (c.setReg r _).gpr 4 = _
      rw [Context.setReg_other _ _ hr.symm]
      exact h.rsp (by simpa using hset)
  | saveXmm128 off lo hi =>
    refine ⟨h.kept, fun hset => ⟨?_, hframe hset⟩, fun hset => h.rsp (by simpa using hset)⟩
    exact (h.frame (List.mem_cons_of_mem _ hset)).1

/-- All of it is. -/
theorem Undone.all {ops : List PrologOp} (h : Undone x ops c) (hfits : PrologFits x.fr ops)
    (hwords : ∀ w ∈ storedWords x.fr x.fo x.base x.entry ops, m.word w.1.toNat = w.2) :
    Undone x [] (ops.foldl (PrologOp.undo m x.fr x.fo x.base) c) := by
  induction ops generalizing c with
  | nil => exact h
  | cons op earlier ih =>
    have hstep := h.undo hfits.1 (fun w hw => hwords w (List.mem_append_left _ hw)) fun hset =>
      (saved_frame hfits hset).1.ne.2
    exact ih hstep hfits.2 fun w hw => hwords w (List.mem_append_right _ hw)

theorem Running.word (h : x.Running c m) {w : BitVec 64 × BitVec 64}
    (hw : w ∈ storedWords x.fr x.fo x.base x.entry x.prolog) : m.word w.1.toNat = w.2 :=
  (h.stored w hw).trans (stored_words x.apart hw)

theorem Running.undone (h : x.Running c m) : Undone x x.prolog c := by
  refine ⟨fun r hr hleft => ?_, fun hset => ?_, fun hset => ?_⟩
  · rw [h.kept r hr hleft]
    refine afterProlog_gpr hr.ne.2 fun hset heq => hleft ?_
    subst heq
    exact (saved_frame x.fits hset).2
  · have hzero := (saved_frame x.fits hset).1.ne.1
    have hbase : x.base = (x.after x.prolog).ctx.gpr x.fr - BitVec.ofNat 64 (x.fo * 16) :=
      x.base_eq.trans (if_pos hzero)
    have hreg : (x.after x.prolog).ctx.gpr x.fr = x.base + BitVec.ofNat 64 (x.fo * 16) := by
      rw [hbase, BitVec.sub_add_cancel]
    exact ⟨(h.frame hzero).trans hreg, hreg⟩
  · exact h.rsp (by_contra fun hzero => hset (x.framed hzero))

/-- The frame's base is read off the registers wherever the function is. -/
theorem Running.frameBase (h : x.Running c m) : frameBase x.fr x.fo c = x.base := by
  rw [x.base_eq]
  unfold Ntdll.frameBase
  by_cases hzero : x.fr = 0
  · rw [if_neg (not_not.2 hzero), if_neg (not_not.2 hzero)]
    exact h.rsp hzero
  · rw [if_pos hzero, if_pos hzero, h.frame hzero]
    rfl

end Activation

theorem Chain.frame {m : Mem} {base info n fo : Nat} {fr : Fin 16} {ops : List PrologOp}
    (h : Chain m base fr fo info ops n) : frameRegister m info = fr ∧ frameOffset m info = fo := by
  cases h with
  | last _ hfr _ => exact hfr
  | link _ hfr _ _ => exact hfr

theorem return_stored (fr : Fin 16) (fo : Nat) (fb : BitVec 64) (entry : Machine) (ops : List PrologOp) :
    (entry.ctx.rsp, entry.mem.word entry.ctx.rsp.toNat) ∈ storedWords fr fo fb entry ops := by
  induction ops with
  | nil => exact List.mem_singleton_self _
  | cons op earlier ih => exact List.mem_append_right _ ih

/-- With all of the prolog undone the return address is on top. -/
theorem Activation.Undone.returned {x : Activation} {m : Mem} {c : Context} (h : x.Undone [] c)
    (hreturn : m.word x.entry.ctx.rsp.toNat = x.entry.mem.word x.entry.ctx.rsp.toNat) :
    x.Returned (c.popReturn m) := by
  have hsp : c.rsp = x.entry.ctx.rsp := h.rsp List.not_mem_nil
  refine ⟨fun r hr => ?_, ?_, ?_⟩
  · rw [Context.popReturn_other m c hr.ne.2]
    exact h.kept r hr List.not_mem_nil
  · rw [Context.popReturn_rsp, hsp]
  · rw [Context.popReturn_rip, hsp, hreturn]

/-- Unwinding inverts the prolog: wherever a function has got to behind it, its caller's registers come back. -/
theorem unwinding_inverts {x : Activation} {m : Mem} {c : Context} {base fn n fuel : Nat}
    (hchain : Chain m base x.fr x.fo (base + m.rd32 (fn + 8)) x.prolog n) (hfuel : n ≤ fuel)
    (hrun : x.Running c m) (type : Nat) :
    ∃ u, rtlVirtualUnwind m fuel type base fn c = some u ∧ x.Returned u.ctx ∧ u.establisher = x.base ∧
      (u.handler, u.handlerData) = chainHandler m type base fuel (base + m.rd32 (fn + 8)) := by
  obtain ⟨hfr, hfo⟩ := hchain.frame
  have hundone := hrun.undone.all x.fits fun w hw => hrun.word hw
  have hreturn := hrun.word (return_stored x.fr x.fo x.base x.entry x.prolog)
  refine ⟨⟨_, _, x.base, (x.prolog.foldl (PrologOp.undo m x.fr x.fo x.base) c).popReturn m⟩, ?_,
    hundone.returned hreturn, rfl, rfl⟩
  unfold rtlVirtualUnwind
  dsimp only
  rw [hfr, hfo, hrun.frameBase, unwindChain_eq hchain hfuel]
  rfl

/-- An image at 64 KiB with one function, which pushes `rbx` and takes 32 bytes, and has a handler of both kinds. -/
def savingImage : Mem :=
  [(0x1003C, 4, 0x40), (0x10040, 4, 0x00004550), (0x10058, 2, 0x20B), (0x10090, 4, 0x20000), (0x100E0, 4, 0x200),
    (0x100E4, 4, 12), (0x10200, 4, 0x1000), (0x10204, 4, 0x1100), (0x10208, 4, 0x300), (0x10300, 4, 0x00020519),
    (0x10304, 2, 0x3205), (0x10306, 2, 0x3001), (0x10308, 4, 0x2000)].foldl
    (fun m (off, n, v) => Mem.write m off n v) fun _ => 0

def savingEntry : Machine where
  ctx := ⟨fun r => if r = 3 then 7 else if r = 4 then 0x70100 else 0, 0x11000⟩
  mem := savingImage

/-- It was called with 7 in `rbx`, and returns to 0. -/
def savingCall : Activation where
  fr := 0
  fo := 0
  base := 0x700D8
  entry := savingEntry
  prolog := [.alloc 32, .pushNonvol 3]
  fits := by decide
  framed h := absurd rfl h
  base_eq := by decide
  apart := by decide +kernel

/-- The memory when it has got to its body, where it has 42 in `rbx`. -/
def savingStack : Mem := savingImage.putWord 0x700F8 7

def savingBody : Context := ⟨fun r => if r = 3 then 42 else if r = 4 then 0x700D8 else 0, 0x11010⟩

theorem savingCall_chain : Chain savingStack 0x10000 0 0 0x10300 [.alloc 32, .pushNonvol 3] 1 := by
  have hpush : CodeFor savingStack 0x10300 1 (.pushNonvol 3) 1 := .pushNonvol 3 (by decide +kernel)
  have halloc : CodeFor savingStack 0x10300 0 (.alloc 32) 1 := .allocSmall 3 (by decide +kernel)
  exact .last (.code halloc (.code hpush (.done (by decide +kernel)))) (by decide +kernel) (by decide +kernel)

theorem savingCall_running : savingCall.Running savingBody savingStack where
  kept := by decide +kernel
  frame h := absurd rfl h
  rsp := by decide
  stored := by
    have hall : (storedWords savingCall.fr savingCall.fo savingCall.base savingCall.entry savingCall.prolog).all
        (fun w => savingStack.word w.1.toNat = (savingCall.after savingCall.prolog).mem.word w.1.toNat) = true := by
      decide +kernel
    exact fun w hw => of_decide_eq_true (List.all_eq_true.1 hall w hw)

theorem unwinding_inverts_push : ∃ u,
    rtlVirtualUnwind savingStack 1 uflagEhandler 0x10000 0x10200 savingBody = some u ∧
      savingCall.Returned u.ctx ∧ u.establisher = 0x700D8 ∧ (u.handler, u.handlerData) = (0x12000, 0x1030C) := by
  have hinfo : 0x10000 + savingStack.rd32 (0x10200 + 8) = 0x10300 := by decide +kernel
  have hchain : Chain savingStack 0x10000 savingCall.fr savingCall.fo (0x10000 + savingStack.rd32 (0x10200 + 8))
      savingCall.prolog 1 := by
    rw [hinfo]
    exact savingCall_chain
  obtain ⟨u, hu, hreturned, hbase, hhandler⟩ :=
    unwinding_inverts hchain (Nat.le_refl 1) savingCall_running uflagEhandler
  exact ⟨u, hu, hreturned, hbase, hhandler.trans (by decide +kernel)⟩

end MeuOS.Ntdll
