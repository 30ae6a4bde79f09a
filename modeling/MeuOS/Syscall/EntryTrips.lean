import MeuOS.Syscall.Entry

/-! Both ways through the kernel. The frame that `syscall_entry` imitates holds what the processor
pushes for an interrupt, with one slot too few: the RSP in it was read behind the first push. -/
namespace MeuOS.Syscall

open MeuOS.Lib

variable {writable : Nat → Bool} {c d : Cpu} {m : Mem} {p : Nat} {r : Regs}

/-! ## Pushing -/

theorem roomTest_iff {top : Nat} : roomTest writable top = true ↔ Room writable top 8 := by
  unfold roomTest Room
  rw [Bool.and_eq_true, decide_eq_true_iff, List.all_eq_true]
  refine and_congr_right fun htop => ⟨fun h a hlo hhi => ?_, fun h i hi => ?_⟩
  · have hi := h (a - (top - 8)) (List.mem_range.2 (by omega))
    rwa [Nat.add_sub_cancel' hlo] at hi
  · have hlt := List.mem_range.1 hi
    exact h _ (Nat.le_add_right _ _) (by omega)

theorem room_add {top n k : Nat} : Room writable top (n + k) ↔ Room writable top n ∧ Room writable (top - n) k := by
  unfold Room
  constructor
  · rintro ⟨htop, h⟩
    exact ⟨⟨by omega, fun a hlo hhi => h a (by omega) hhi⟩, by omega, fun a hlo hhi => h a (by omega) (by omega)⟩
  · rintro ⟨⟨htop, hhigh⟩, hrest, hlow⟩
    refine ⟨by omega, fun a hlo hhi => ?_⟩
    by_cases ha : top - n ≤ a
    · exact hhigh a ha hhi
    · exact hlow a (by omega) (by omega)

/-- The state after the words were pushed. -/
def Cpu.pushed (c : Cpu) (vs : List (BitVec 64)) : Cpu :=
  { c with
    gpr := Function.update c.gpr .rsp (BitVec.ofNat 64 ((c.gpr .rsp).toNat - 8 * vs.length))
    mem := pushWords c.mem (c.gpr .rsp).toNat vs }

theorem gpr_pushed_rsp {vs : List (BitVec 64)} :
    (c.pushed vs).gpr .rsp = BitVec.ofNat 64 ((c.gpr .rsp).toNat - 8 * vs.length) := by
  simp only [Cpu.pushed, Function.update_self]

theorem toNat_pushed {vs : List (BitVec 64)} :
    ((c.pushed vs).gpr .rsp).toNat = (c.gpr .rsp).toNat - 8 * vs.length := by
  rw [gpr_pushed_rsp, BitVec.toNat_ofNat, Nat.mod_eq_of_lt]
  exact lt_of_le_of_lt (Nat.sub_le _ _) (c.gpr .rsp).isLt

theorem push_eq_some_iff {v : BitVec 64} :
    c.push writable v = some d ↔ Room writable (c.gpr .rsp).toNat 8 ∧ d = c.pushed [v] := by
  unfold Cpu.push
  rw [Option.ite_none_right_eq_some, roomTest_iff]
  refine and_congr_right fun hroom => ?_
  have hrsp : c.gpr .rsp - 8 = BitVec.ofNat 64 ((c.gpr .rsp).toNat - 8) := by
    apply BitVec.eq_of_toNat_eq
    have hlt := (c.gpr .rsp).isLt
    have hle := hroom.1
    rw [BitVec.toNat_sub_of_le (by exact hle), BitVec.toNat_ofNat]
    exact (Nat.mod_eq_of_lt (by omega)).symm
  rw [Option.some.injEq, eq_comm, hrsp]
  rfl

theorem pushed_pushed (c : Cpu) (vs ws : List (BitVec 64)) : (c.pushed vs).pushed ws = c.pushed (vs ++ ws) := by
  have hmem : ∀ (us : List (BitVec 64)) (m : Mem) (top : Nat),
      pushWords (pushWords m top us) (top - 8 * us.length) ws = pushWords m top (us ++ ws) := by
    intro us
    induction us with
    | nil => exact fun _ _ => rfl
    | cons u us ih =>
      intro m top
      rw [pushWords, List.cons_append, pushWords, ← ih, List.length_cons,
        show top - 8 * (us.length + 1) = top - 8 - 8 * us.length by omega]
  have hmem' := hmem vs c.mem (c.gpr .rsp).toNat
  rw [← toNat_pushed] at hmem'
  unfold Cpu.pushed at hmem' ⊢
  simp only [Function.update_idem, List.length_append] at hmem' ⊢
  rw [hmem']
  have htop : ((c.pushed vs).gpr .rsp).toNat = (c.gpr .rsp).toNat - 8 * vs.length := toNat_pushed
  unfold Cpu.pushed at htop
  simp only at htop
  rw [htop, show (c.gpr .rsp).toNat - 8 * vs.length - 8 * ws.length
    = (c.gpr .rsp).toNat - 8 * (vs.length + ws.length) by omega]

theorem pushList_eq_some_iff {vs : List (BitVec 64)} :
    pushList writable vs c = some d ↔ Room writable (c.gpr .rsp).toNat (8 * vs.length) ∧ d = c.pushed vs := by
  induction vs generalizing c with
  | nil =>
    have hroom : Room writable (c.gpr .rsp).toNat 0 := ⟨Nat.zero_le _, fun a hlo hhi => by omega⟩
    have hsame : c.pushed [] = c := by
      unfold Cpu.pushed
      simp [pushWords]
    simp only [pushList, List.length_nil, Nat.mul_zero, hroom, true_and, hsame, Option.some.injEq, eq_comm]
  | cons v vs ih =>
    rw [pushList, Option.bind_eq_some_iff]
    simp only [push_eq_some_iff, ih]
    rw [List.length_cons, show 8 * (vs.length + 1) = 8 + 8 * vs.length by omega, room_add]
    constructor
    · rintro ⟨_, ⟨hroom, rfl⟩, hrest, rfl⟩
      rw [toNat_pushed] at hrest
      exact ⟨⟨hroom, hrest⟩, pushed_pushed c [v] vs⟩
    · rintro ⟨⟨hroom, hrest⟩, rfl⟩
      refine ⟨c.pushed [v], ⟨hroom, rfl⟩, ?_, (pushed_pushed c [v] vs).symm⟩
      rw [toNat_pushed]
      exact hrest

/-- What the pushes of a stub push: each sees the RSP the ones before it left. -/
def operandValues : List Operand → (Reg → BitVec 64) → List (BitVec 64)
  | [], _ => []
  | o :: os, gpr => o.value gpr :: operandValues os (Function.update gpr .rsp (gpr .rsp - 8))

theorem run_pushes (os : List Operand) (is : List Insn) :
    run writable (os.map .push ++ is) c =
      (pushList writable (operandValues os c.gpr) c).bind (run writable is) := by
  induction os generalizing c with
  | nil => rfl
  | cons o os ih =>
    rw [List.map_cons, List.cons_append, run, operandValues, pushList, Option.bind_assoc]
    refine Option.bind_congr fun d hd => ?_
    have hgpr : d.gpr = Function.update c.gpr .rsp (c.gpr .rsp - 8) := by
      change c.push writable (o.value c.gpr) = some d at hd
      unfold Cpu.push at hd
      rw [Option.ite_none_right_eq_some] at hd
      rw [← Option.some.inj hd.2]
    rw [ih, hgpr]

/-! ## Popping -/

/-- The general registers a frame holds. -/
def Regs.gpr (r : Regs) : Reg → BitVec 64
  | .rax => r.rax
  | .rbx => r.rbx
  | .rcx => r.rcx
  | .rdx => r.rdx
  | .rsi => r.rsi
  | .rdi => r.rdi
  | .rbp => r.rbp
  | .rsp => r.rsp
  | .r8 => r.r8
  | .r9 => r.r9
  | .r10 => r.r10
  | .r11 => r.r11
  | .r12 => r.r12
  | .r13 => r.r13
  | .r14 => r.r14
  | .r15 => r.r15

/-- The registers of a frame, the lowest first. -/
def frameOrder : List Reg :=
  [.r15, .r14, .r13, .r12, .r11, .r10, .r9, .r8, .rbp, .rdi, .rsi, .rdx, .rcx, .rbx, .rax]

theorem words_eq (r : Regs) :
    r.words = frameOrder.map r.gpr ++ [r.intNo, r.errCode, r.rip, r.cs, r.rflags, r.rsp, r.ss] := rfl

theorem load_eq (h : Words m p r.words) : Regs.load m p = r := by
  simp only [Regs.words, words_cons, Nat.add_assoc, Nat.reduceAdd] at h
  obtain ⟨h0, h1, h2, h3, h4, h5, h6, h7, h8, h9, h10, h11, h12, h13, h14, h15, h16, h17, h18, h19, h20, h21, -⟩ := h
  unfold Regs.load
  rw [h0, h1, h2, h3, h4, h5, h6, h7, h8, h9, h10, h11, h12, h13, h14, h15, h16, h17, h18, h19, h20, h21]

theorem toNat_add_of_lt {v : BitVec 64} {n : Nat} (h : v.toNat + n < 2 ^ 64) :
    (v + BitVec.ofNat 64 n).toNat = v.toNat + n := by
  rw [BitVec.toNat_add, BitVec.toNat_ofNat, Nat.add_mod_mod, Nat.mod_eq_of_lt h]

theorem gpr_pop_self (c : Cpu) (x : Reg) : (c.pop x).gpr x = c.mem.word (c.gpr .rsp).toNat := by
  simp only [Cpu.pop, Function.update_self]

theorem gpr_pop_rsp {x : Reg} (hx : x ≠ .rsp) : (c.pop x).gpr .rsp = c.gpr .rsp + 8 := by
  simp only [Cpu.pop, Function.update_of_ne hx.symm, Function.update_self]

theorem gpr_pop_of_ne {x y : Reg} (hx : y ≠ x) (hrsp : y ≠ .rsp) : (c.pop x).gpr y = c.gpr y := by
  simp only [Cpu.pop, Function.update_of_ne hx, Function.update_of_ne hrsp]

theorem run_pops {xs : List Reg} {g : Reg → BitVec 64} (hxs : .rsp ∉ xs) (is : List Insn)
    (htop : (c.gpr .rsp).toNat + 8 * xs.length < 2 ^ 64) (hwords : Words c.mem (c.gpr .rsp).toNat (xs.map g)) :
    run writable (xs.map .pop ++ is) c = run writable is
      { c with gpr := fun x =>
          if x = .rsp then c.gpr .rsp + BitVec.ofNat 64 (8 * xs.length) else if x ∈ xs then g x else c.gpr x } := by
  induction xs generalizing c with
  | nil =>
    congr 1
    cases c
    congr 1
    funext x
    split_ifs with hx
    · rw [hx]
      exact (BitVec.add_zero _).symm
    · contradiction
    · rfl
  | cons x xs ih =>
    obtain ⟨hfirst, hrest⟩ := words_cons.1 hwords
    have hx : x ≠ .rsp := fun heq => hxs (heq ▸ List.mem_cons_self)
    rw [List.length_cons] at htop
    have hnext : ((c.pop x).gpr .rsp).toNat = (c.gpr .rsp).toNat + 8 := by
      rw [gpr_pop_rsp hx]
      exact toNat_add_of_lt (n := 8) (by omega)
    rw [List.map_cons, List.cons_append, run]
    change run writable _ (c.pop x) = _
    rw [ih (fun hmem => hxs (List.mem_cons_of_mem _ hmem)) (by rw [hnext]; omega) (by rw [hnext]; exact hrest)]
    have hgpr : (fun y => if y = .rsp then (c.pop x).gpr .rsp + BitVec.ofNat 64 (8 * xs.length)
        else if y ∈ xs then g y else (c.pop x).gpr y) =
        fun y => if y = .rsp then c.gpr .rsp + BitVec.ofNat 64 (8 * (xs.length + 1))
        else if y ∈ x :: xs then g y else c.gpr y := by
      funext y
      by_cases hy : y = .rsp
      · have hlen : BitVec.ofNat 64 8 + BitVec.ofNat 64 (8 * xs.length) = BitVec.ofNat 64 (8 * (xs.length + 1)) := by
          rw [← BitVec.ofNat_add, Nat.mul_succ, Nat.add_comm]
        rw [if_pos hy, if_pos hy, gpr_pop_rsp hx, BitVec.add_assoc, ← hlen]
        rfl
      · rw [if_neg hy, if_neg hy]
        by_cases hmem : y ∈ xs
        · rw [if_pos hmem, if_pos (List.mem_cons_of_mem _ hmem)]
        · by_cases hyx : y = x
          · rw [if_neg hmem, if_pos (hyx ▸ List.mem_cons_self), hyx, gpr_pop_self]
            exact hfirst
          · rw [if_neg hmem, if_neg (List.not_mem_cons_of_ne_of_not_mem hyx hmem), gpr_pop_of_ne hyx hy]
    exact congrArg (fun gpr => run writable is { c with gpr }) hgpr

/-- What both stubs do behind the call. -/
theorem run_leave (hrsp : (c.gpr .rsp).toNat = p) (htop : p + 176 < 2 ^ 64) (hwords : Words c.mem p r.words) :
    run writable (restoreRegs ++ [.add .rsp 16, .iretq]) c =
      some ⟨r.gpr, r.rip, r.cs, r.rflags, r.ss, c.mem⟩ := by
  subst hrsp
  rw [words_eq, words_append] at hwords
  obtain ⟨hregs, htail⟩ := hwords
  rw [List.length_map] at htail
  simp only [words_cons, frameOrder, List.length_cons, List.length_nil, Nat.add_assoc, Nat.reduceAdd,
    Nat.reduceMul] at htail
  obtain ⟨-, -, hrip, hcs, hrflags, hrsp, hss, -⟩ := htail
  have hpops : restoreRegs = frameOrder.map .pop := rfl
  rw [hpops, run_pops (by decide) _ (by simp [frameOrder]; omega) hregs]
  have hframe : (c.gpr .rsp + BitVec.ofNat 64 (8 * frameOrder.length) + 16).toNat = (c.gpr .rsp).toNat + 136 := by
    have hlen : 8 * frameOrder.length = 120 := rfl
    rw [hlen, BitVec.add_assoc]
    exact toNat_add_of_lt (n := 136) (by omega)
  simp only [run, stepInsn, Option.bind_some, Cpu.iretq, Function.update_self, if_true, hframe,
    Nat.add_assoc, Nat.reduceAdd, hrip, hcs, hrflags, hrsp, hss, Function.update_idem]
  congr 2
  funext x
  cases x <;> rfl

/-! ## The frames -/

/-- The frame with these general registers. -/
def frameOf (gpr : Reg → BitVec 64) (rip cs rflags rsp ss : BitVec 64) : Regs where
  r15 := gpr .r15
  r14 := gpr .r14
  r13 := gpr .r13
  r12 := gpr .r12
  r11 := gpr .r11
  r10 := gpr .r10
  r9 := gpr .r9
  r8 := gpr .r8
  rbp := gpr .rbp
  rdi := gpr .rdi
  rsi := gpr .rsi
  rdx := gpr .rdx
  rcx := gpr .rcx
  rbx := gpr .rbx
  rax := gpr .rax
  intNo := 0x80
  errCode := 0
  rip
  cs
  rflags
  rsp
  ss

/-- What `syscall_entry` builds: its RSP is the one behind the first push. -/
def syscallFrame (c : Cpu) : Regs :=
  frameOf (syscallTrap c).gpr c.rip 0x1B c.rflags (c.gpr .rsp - 8) 0x23

def int80Frame (c : Cpu) : Regs := frameOf c.gpr c.rip c.cs c.rflags (c.gpr .rsp) c.ss

/-- The handler's frame `r` is at the top of the stack, `top - 176`, and nothing else changed. -/
structure Entered (m : Mem) (top : Nat) (r : Regs) (d : Cpu) : Prop where
  rdi : (d.gpr .rdi).toNat = top - 176
  rsp : (d.gpr .rsp).toNat = top - 176
  frame : Words d.mem (top - 176) r.words
  outside : ∀ a, a < top - 176 ∨ top ≤ a → d.mem a = m a

theorem length_operandValues (os : List Operand) (gpr : Reg → BitVec 64) :
    (operandValues os gpr).length = os.length := by
  induction os generalizing gpr with
  | nil => rfl
  | cons o os ih => rw [operandValues, List.length_cons, ih, List.length_cons]

/-- A stub that pushes and then runs `is`, which cannot fault. -/
theorem run_enter_iff {os : List Operand} {is : List Insn} {f : Cpu → Cpu}
    (hrest : ∀ e, run writable is e = some (f e)) :
    run writable (os.map .push ++ is) c = some d ↔
      Room writable (c.gpr .rsp).toNat (8 * os.length) ∧ d = f (c.pushed (operandValues os c.gpr)) := by
  rw [run_pushes, Option.bind_eq_some_iff]
  simp only [pushList_eq_some_iff, hrest, length_operandValues, Option.some.injEq]
  constructor
  · rintro ⟨_, ⟨hroom, rfl⟩, rfl⟩
    exact ⟨hroom, rfl⟩
  · rintro ⟨hroom, rfl⟩
    exact ⟨_, ⟨hroom, rfl⟩, rfl⟩

theorem operandValues_eq {os : List Operand} {gpr : Reg → BitVec 64} (v : BitVec 64) (hos : .reg .rsp ∉ os) :
    operandValues os (Function.update gpr .rsp v) = os.map fun o => o.value gpr := by
  induction os generalizing v with
  | nil => rfl
  | cons o os ih =>
    rw [List.mem_cons, not_or] at hos
    rw [operandValues, Function.update_idem, ih _ hos.2, List.map_cons]
    cases o with
    | imm w => rfl
    | reg x =>
      have hx : x ≠ .rsp := fun heq => hos.1 (by rw [heq])
      exact congrArg (· :: _) (Function.update_of_ne hx _ _)

/-- The operands of `saveRegs`. -/
def savedOperands : List Operand := frameOrder.reverse.map .reg

def syscallOperands : List Operand :=
  [.reg .r11, .imm 0x1B, .reg .rcx, .imm 0, .imm 0x80] ++ savedOperands

def isrOperands : List Operand := [.imm 0, .imm 0x80] ++ savedOperands

theorem syscall_values (c : Cpu) :
    (operandValues (.imm 0x23 :: .reg .rsp :: syscallOperands) (syscallTrap c).gpr).reverse =
      (syscallFrame c).words := by
  rw [operandValues, operandValues, Function.update_idem, operandValues_eq _ (by decide)]
  rfl

/-- `mov rdi, rsp`, and the flags. -/
def Cpu.point (e : Cpu) (rflags : BitVec 64) : Cpu :=
  { e with gpr := Function.update e.gpr .rdi (e.gpr .rsp), rflags }

theorem Entered.of_point (c : Cpu) {vs : List (BitVec 64)} (rflags : BitVec 64) (hvs : vs.reverse = r.words)
    (hroom : 176 ≤ (c.gpr .rsp).toNat) :
    Entered c.mem (c.gpr .rsp).toNat r ((c.pushed vs).point rflags) := by
  have hlen : 8 * vs.length = 176 := by
    rw [← List.length_reverse, hvs]
    rfl
  have htop : ((c.pushed vs).gpr .rsp).toNat = (c.gpr .rsp).toNat - 8 * vs.length := toNat_pushed
  rw [hlen] at htop
  refine ⟨?_, ?_, ?_, fun a ha => ?_⟩
  · simp only [Cpu.point, Function.update_self]
    exact htop
  · simp only [Cpu.point, Function.update_of_ne (show Reg.rsp ≠ .rdi by decide)]
    exact htop
  · have hwords := words_pushWords (hlen.trans_le hroom) (words_nil (m := c.mem))
    rw [hlen, List.append_nil, hvs] at hwords
    exact hwords
  · exact pushWords_outside (hlen.trans_le hroom) (by rw [hlen]; exact ha)

/-- The entry gets through exactly if the stack has room for the frame. -/
theorem syscall_enters (d : Cpu) : run writable syscallEntry.enter (syscallTrap c) = some d ↔
    Room writable (c.gpr .rsp).toNat 176 ∧
      d = ((syscallTrap c).pushed (operandValues (.imm 0x23 :: .reg .rsp :: syscallOperands)
        (syscallTrap c).gpr)).point ((c.rflags &&& ~~~sfmask) &&& ~~~0x400) := by
  have henter : syscallEntry.enter =
      (.imm 0x23 :: .reg .rsp :: syscallOperands).map .push ++ [.mov .rdi .rsp, .cld] := rfl
  have hrest : ∀ e, run writable [.mov .rdi .rsp, .cld] e = some (e.point (e.rflags &&& ~~~0x400)) := fun _ => rfl
  have hrsp : (syscallTrap c).gpr .rsp = c.gpr .rsp := rfl
  rw [henter, run_enter_iff hrest, hrsp]
  exact Iff.rfl

theorem syscall_entered (hroom : 176 ≤ (c.gpr .rsp).toNat) (henter : run writable syscallEntry.enter (syscallTrap c) = some d) :
    Entered c.mem (c.gpr .rsp).toNat (syscallFrame c) d := by
  obtain ⟨-, rfl⟩ := (syscall_enters d).1 henter
  exact Entered.of_point (syscallTrap c) _ (syscall_values c) hroom

theorem Entered.congr {d' : Cpu} {top : Nat} (h : Entered m top r d) (hgpr : d'.gpr = d.gpr) (hmem : d'.mem = d.mem) :
    Entered m top r d' :=
  ⟨hgpr ▸ h.rdi, hgpr ▸ h.rsp, hmem ▸ h.frame, hmem ▸ h.outside⟩

theorem isr_values (c : Cpu) (k : BitVec 64) :
    ([c.ss, c.gpr .rsp, c.rflags, c.cs, c.rip] ++
      operandValues isrOperands (Function.update c.gpr .rsp k)).reverse = (int80Frame c).words := by
  rw [operandValues_eq k (by decide)]
  rfl

/-- On the kernel's stack there is room. -/
theorem int80_enters {rsp0 : BitVec 64} (hroom : Room writable (rsp0 &&& ~~~0xF).toNat 176) :
    ∃ t d, int80Trap writable rsp0 c = some t ∧ run writable isrStub128.enter t = some d ∧
      Entered c.mem (rsp0 &&& ~~~0xF).toNat (int80Frame c) d := by
  generalize htop : rsp0 &&& ~~~0xF = top at hroom
  obtain ⟨hfirst, hrest⟩ := room_add.1 (show Room writable top.toNat (40 + 136) from hroom)
  let c₀ : Cpu := { c with gpr := Function.update c.gpr .rsp top }
  have hrsp₀ : c₀.gpr .rsp = top := by
    simp only [c₀, Function.update_self]
  let five := [c.ss, c.gpr .rsp, c.rflags, c.cs, c.rip]
  let t : Cpu := { c₀.pushed five with cs := selKcode, ss := 0 }
  have htrap : int80Trap writable rsp0 c = some t := by
    unfold int80Trap
    rw [htop]
    refine Option.map_eq_some_iff.2 ⟨c₀.pushed five, pushList_eq_some_iff.2 ⟨?_, rfl⟩, rfl⟩
    change Room writable (c₀.gpr .rsp).toNat 40
    rw [hrsp₀]
    exact hfirst
  have hrsp : (t.gpr .rsp).toNat = top.toNat - 40 := by
    change ((c₀.pushed five).gpr .rsp).toNat = _
    rw [toNat_pushed, hrsp₀]
    rfl
  have henter : isrStub128.enter = isrOperands.map .push ++ [.mov .rdi .rsp] := rfl
  have hmov : ∀ e, run writable [.mov .rdi .rsp] e = some (e.point e.rflags) := fun _ => rfl
  refine ⟨t, (t.pushed (operandValues isrOperands t.gpr)).point t.rflags, htrap, ?_, ?_⟩
  · rw [henter, run_enter_iff hmov]
    refine ⟨?_, rfl⟩
    rw [hrsp]
    exact hrest
  · have hgpr : t.gpr = Function.update c.gpr .rsp ((c₀.pushed five).gpr .rsp) := by
      change (c₀.pushed five).gpr = _
      unfold Cpu.pushed
      simp only [Function.update_self]
      exact Function.update_idem ..
    have hvalues := isr_values c ((c₀.pushed five).gpr .rsp)
    rw [← hgpr] at hvalues
    have hentered := Entered.of_point c₀ t.rflags hvalues (by rw [hrsp₀]; exact hroom.1)
    rw [hrsp₀] at hentered
    have hpushed := pushed_pushed c₀ five (operandValues isrOperands t.gpr)
    exact hentered.congr (by rw [← hpushed]; rfl) (by rw [← hpushed]; rfl)

/-! ## The way back -/

/-- A service leaves the frame of its own call alone; the dispatcher writes its RAX. -/
def KeepsFrame (ssdt : Nat → Option Service) : Prop :=
  ∀ n f, ssdt n = some (.returns f) → ∀ p r m, Mem.Agree m (f p r m).2 p (p + 176)

variable {ssdt : Nat → Option Service}

theorem is32_of_cs (hcs : r.cs = 0x1B) : r.is32 = false := by
  unfold Regs.is32
  rw [hcs]
  decide

/-- What a service answers: RAX and the memory. -/
def answer (ssdt : Nat → Option Service) (p : Nat) (r : Regs) (m : Mem) : Option (BitVec 64 × Mem) :=
  match ssdt r.rax.toNat with
  | some (.returns f) => some (f p r m)
  | some .ends => none
  | none => some (-1, m)

theorem answer_eq_none_iff : answer ssdt p r m = none ↔ ssdt r.rax.toNat = some .ends := by
  unfold answer
  cases ssdt r.rax.toNat with
  | none => simp
  | some s => cases s <;> simp

theorem answer_frame (hkeep : KeepsFrame ssdt) {v : BitVec 64} {m' : Mem} (h : answer ssdt p r m = some (v, m')) :
    Mem.Agree m m' p (p + 176) := by
  unfold answer at h
  cases hs : ssdt r.rax.toNat with
  | none =>
    rw [hs] at h
    cases h
    exact fun _ _ _ => rfl
  | some s =>
    rw [hs] at h
    cases s with
    | ends => cases h
    | returns f =>
      have hframe := hkeep _ f hs p r m
      rw [Option.some.inj h] at hframe
      exact hframe

theorem syscallDispatch_eq (hwords : Words m p r.words) (h64 : r.is32 = false) :
    syscallDispatch ssdt p m = (answer ssdt p r m).map fun a => a.2.putWord (p + 112) a.1 := by
  unfold syscallDispatch answer
  rw [load_eq hwords]
  have hsame : r.normalise = r := by
    unfold Regs.normalise
    rw [h64]
    rfl
  simp only [hsame, h64, Bool.false_eq_true, if_false]
  cases ssdt r.rax.toNat with
  | none => rfl
  | some s => cases s <;> rfl

/-- The state a frame brings back, with the answer in RAX. -/
def Regs.resume (r : Regs) (v : BitVec 64) (m : Mem) : Cpu :=
  ⟨{ r with rax := v }.gpr, r.rip, r.cs, r.rflags, r.ss, m⟩

theorem words_rax (hwords : Words m p r.words) (v : BitVec 64) :
    Words (m.putWord (p + 112) v) p { r with rax := v }.words := by
  have hset : r.words.set 14 v = { r with rax := v }.words := rfl
  rw [← hset]
  exact hwords.putWord v

theorem run_resume {a : BitVec 64 × Mem} (hrsp : (c.gpr .rsp).toNat = p) (hroom : p + 176 < 2 ^ 64)
    (hwords : Words a.2 p r.words) (hmem : c.mem = a.2.putWord (p + 112) a.1) :
    run writable (restoreRegs ++ [.add .rsp 16, .iretq]) c = some (r.resume a.1 (a.2.putWord (p + 112) a.1)) := by
  have hframe := words_rax hwords a.1
  rw [← hmem] at hframe ⊢
  exact run_leave hrsp hroom hframe

theorem travel_eq {stub : Stub} {scratch : Reg → BitVec 64} {top : Nat} (hkeep : KeepsFrame ssdt)
    (hleave : stub.leave = restoreRegs ++ [.add .rsp 16, .iretq]) (henter : run writable stub.enter c = some d)
    (hentered : Entered m top r d) (hroom : 176 ≤ top) (htop : top < 2 ^ 64) (h64 : r.is32 = false) :
    travel writable ssdt scratch stub c = some ⟨r, d.mem,
      (answer ssdt (top - 176) r d.mem).map fun a => r.resume a.1 (a.2.putWord (top - 176 + 112) a.1)⟩ := by
  unfold travel
  rw [henter, Option.map_some, hentered.rdi]
  dsimp only
  rw [load_eq hentered.frame]
  have hback : ((syscallDispatch ssdt (top - 176) d.mem).bind fun mem =>
      run writable stub.leave { d with gpr := Function.update scratch .rsp (d.gpr .rsp), mem }) =
      (answer ssdt (top - 176) r d.mem).map fun a => r.resume a.1 (a.2.putWord (top - 176 + 112) a.1) := by
    rw [syscallDispatch_eq hentered.frame h64, hleave]
    cases ha : answer ssdt (top - 176) r d.mem with
    | none => rfl
    | some a =>
      rw [Option.map_some, Option.bind_some, Option.map_some]
      refine run_resume ?_ (by omega) (hentered.frame.congr (answer_frame hkeep ha)) rfl
      simp only [Function.update_self]
      exact hentered.rsp
  exact congrArg (fun back => some (Trip.mk r d.mem back)) hback

/-! ## Equivalence -/

/-- What the services read as arguments, and the number of the service. -/
def Regs.args (r : Regs) : List (BitVec 64) := [r.rax, r.rdi, r.rsi, r.rdx, r.r10, r.r8, r.r9]

/-- Two ways through the kernel that a caller cannot tell apart. -/
structure SameTrip (user : Nat → Prop) (c : Cpu) (s i : Trip) : Prop where
  args : s.frame.args = i.frame.args
  above : ∀ a, user a → (c.gpr .rsp).toNat ≤ a → s.entered a = c.mem a ∧ i.entered a = c.mem a
  returns : s.back.isSome ↔ i.back.isSome
  back : ∀ d ∈ s.back, ∀ e ∈ i.back, d.rip = c.rip ∧ e.rip = c.rip ∧
    ∀ x, x ≠ .rcx → x ≠ .r11 → d.gpr x = e.gpr x

/-- From this state both instructions lead through the kernel in the same way. -/
def EntriesAgree (writable : Nat → Bool) (user : Nat → Prop) (ssdt : Nat → Option Service)
    (scratch : Reg → BitVec 64) (rsp0 : BitVec 64) (c : Cpu) : Prop :=
  ∃ s i, travel writable ssdt scratch syscallEntry (syscallTrap c) = some s ∧
    (int80Trap writable rsp0 c).bind (travel writable ssdt scratch isrStub128) = some i ∧ SameTrip user c s i

/-- The kernel's stack has room, and is no user memory. -/
structure KernelStack (writable : Nat → Bool) (user : Nat → Prop) (rsp0 : BitVec 64) : Prop where
  room : Room writable (rsp0 &&& ~~~0xF).toNat 176
  kernel : ∀ a, user a → a < (rsp0 &&& ~~~0xF).toNat - 176 ∨ (rsp0 &&& ~~~0xF).toNat ≤ a

section Agree

variable {user : Nat → Prop} {scratch : Reg → BitVec 64} {rsp0 : BitVec 64}

/-- The two frames hold the same arguments. -/
theorem frames_args : (syscallFrame c).args = (int80Frame c).args := rfl

theorem int80_travel (scratch : Reg → BitVec 64) (hkeep : KeepsFrame ssdt)
    (hstack : KernelStack writable user rsp0)
    (h64 : (int80Frame c).is32 = false) :
    ∃ d, Entered c.mem (rsp0 &&& ~~~0xF).toNat (int80Frame c) d ∧
      (int80Trap writable rsp0 c).bind (travel writable ssdt scratch isrStub128) = some ⟨int80Frame c, d.mem,
        (answer ssdt ((rsp0 &&& ~~~0xF).toNat - 176) (int80Frame c) d.mem).map fun a =>
          (int80Frame c).resume a.1 (a.2.putWord ((rsp0 &&& ~~~0xF).toNat - 176 + 112) a.1)⟩ := by
  obtain ⟨t, d, htrap, henter, hentered⟩ := int80_enters (c := c) hstack.room
  refine ⟨d, hentered, ?_⟩
  rw [htrap, Option.bind_some]
  exact travel_eq hkeep rfl henter hentered hstack.room.1 (rsp0 &&& ~~~0xF).isLt h64

theorem syscall_travel (hkeep : KeepsFrame ssdt) {s : Trip}
    (hs : travel writable ssdt scratch syscallEntry (syscallTrap c) = some s) :
    Room writable (c.gpr .rsp).toNat 176 ∧ ∃ d, Entered c.mem (c.gpr .rsp).toNat (syscallFrame c) d ∧
      s = ⟨syscallFrame c, d.mem, (answer ssdt ((c.gpr .rsp).toNat - 176) (syscallFrame c) d.mem).map fun a =>
        (syscallFrame c).resume a.1 (a.2.putWord ((c.gpr .rsp).toNat - 176 + 112) a.1)⟩ := by
  obtain ⟨d, henter, -⟩ := Option.map_eq_some_iff.1 hs
  have hroom := ((syscall_enters d).1 henter).1
  have hentered := syscall_entered hroom.1 henter
  refine ⟨hroom, d, hentered, ?_⟩
  rw [travel_eq hkeep rfl henter hentered hroom.1 (c.gpr .rsp).isLt (is32_of_cs rfl)] at hs
  exact (Option.some.inj hs).symm

/-- A service that returns brings back an RSP that is 8 too low. -/
theorem EntriesAgree.ends (hkeep : KeepsFrame ssdt) (h64 : (int80Frame c).is32 = false)
    (hstack : KernelStack writable user rsp0) (h : EntriesAgree writable user ssdt scratch rsp0 c) :
    Room writable (c.gpr .rsp).toNat 176 ∧ ssdt (c.gpr .rax).toNat = some .ends := by
  obtain ⟨s, i, hs, hi, hsame⟩ := h
  obtain ⟨hroom, d, -, rfl⟩ := syscall_travel hkeep hs
  refine ⟨hroom, ?_⟩
  obtain ⟨e, -, hint⟩ := int80_travel (c := c) scratch hkeep hstack h64
  obtain rfl := Option.some.inj (hint.symm.trans hi)
  have hnone : answer ssdt ((c.gpr .rsp).toNat - 176) (syscallFrame c) d.mem = none := by
    by_contra hsome
    obtain ⟨a, ha⟩ := Option.ne_none_iff_exists'.1 hsome
    have hback := hsame.returns.1 (by simp only [ha, Option.map_some, Option.isSome_some])
    obtain ⟨b, hb⟩ := Option.isSome_iff_exists.1 ((Option.isSome_map ..).symm.trans hback)
    have hdrift := (hsame.back _ (Option.mem_map_of_mem _ ha) _ (Option.mem_map_of_mem _ hb)).2.2 .rsp
      (by decide) (by decide)
    change c.gpr .rsp - 8 = c.gpr .rsp at hdrift
    have hlow := congrArg BitVec.toNat hdrift
    rw [BitVec.toNat_sub_of_le (by exact le_trans (by decide) hroom.1)] at hlow
    have hge := hroom.1
    change _ - 8 = _ at hlow
    omega
  exact answer_eq_none_iff.1 hnone

end Agree

/-! ## A caller -/

/-- `NtWrite` answers, `ExitProcess` ends; the others are left out. -/
def fewServices : Nat → Option Service
  | 1 => some (.returns fun _ _ m => (0, m))
  | 2 => some .ends
  | _ => none

theorem fewServices_keepsFrame : KeepsFrame fewServices := by
  intro n f hf p r m a _ _
  unfold fewServices at hf
  split at hf
  · cases hf
    rfl
  · cases hf
  · cases hf

/-- Its stack is in the window from 0x600000 on. -/
def windowCaller (service : BitVec 64) : Cpu where
  gpr x := if x = .rsp then 0x6F0000 else if x = .rax then service else 0
  rip := 0x401000
  cs := 0x1B
  rflags := 0x202
  ss := 0x23
  mem := fun _ => 0

theorem window_room (n : Nat) (hn : n ≤ 0x1000) (service : BitVec 64) :
    Room (fun _ => true) ((windowCaller service).gpr .rsp).toNat n := by
  refine ⟨hn.trans ?_, fun _ _ _ => rfl⟩
  change 0x1000 ≤ (0x6F0000 : BitVec 64).toNat
  decide

theorem window_kernelStack : KernelStack (fun _ => true) (· < 0x800000) 0x900000 where
  room := ⟨by decide, fun _ _ _ => rfl⟩
  kernel a ha := .inl (lt_of_lt_of_le ha (by decide))

end MeuOS.Syscall
