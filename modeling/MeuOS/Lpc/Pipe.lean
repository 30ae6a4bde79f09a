import MeuOS.Lib.Fifo
import MeuOS.Lib.Run

/-! Named pipes: one circular buffer of bytes that both ends write to and read from. The
calls run with interrupts off, so they come one after the other. -/
namespace MeuOS.Lpc

open MeuOS.Lib

def pipeBufSize : Nat := 4096

inductive PipeState
  | disconnected
  | listening
  | connected
  deriving DecidableEq, Repr

/-- `ring` is `Buffer`, `Head`, `Tail` and `Count`. -/
structure Pipe where
  name : List UInt8
  state : PipeState
  serverConnected : Bool
  clientConnected : Bool
  ring : Fifo UInt8

namespace Pipe

def push (b : UInt8) (p : Pipe) : Pipe := { p with ring := p.ring.push pipeBufSize b }

def drop (p : Pipe) : Pipe := { p with ring := p.ring.drop pipeBufSize }

end Pipe

/-- The object after `pipe_create`. -/
def newPipe (name : List UInt8) : Pipe :=
  ⟨name, .disconnected, false, false, ⟨fun _ => 0, 0, 0, 0⟩⟩

/-- What `pipe_open` does to the pipe it finds. -/
def pipeOpened (p : Pipe) : Pipe := { p with clientConnected := true, state := .connected }

def pipeConnect (p : Pipe) : Pipe :=
  { p with serverConnected := true, state := if p.clientConnected then .connected else .listening }

def pipeWriteLoop : List UInt8 → Pipe → Nat × Pipe
  | [], p => (0, p)
  | b :: buf, p =>
      if p.ring.count < pipeBufSize then
        let r := pipeWriteLoop buf (p.push b)
        (r.1 + 1, r.2)
      else (0, p)

/-- The bytes at `buf`, `len` of them; `none` is the null pointer. -/
def pipeWrite (buf : Option (List UInt8)) (p : Pipe) : Nat × Pipe :=
  match buf with
  | some bytes => pipeWriteLoop bytes p
  | none => (0, p)

def pipeReadLoop : Nat → Pipe → List UInt8 × Pipe
  | 0, p => ([], p)
  | len + 1, p =>
      if 0 < p.ring.count then
        let r := pipeReadLoop len p.drop
        (p.ring.slots p.ring.head :: r.1, r.2)
      else ([], p)

/-- The bytes it stores at `buf`, which may be the null pointer. -/
def pipeRead (buf : Bool) (len : Nat) (p : Pipe) : List UInt8 × Pipe :=
  if buf then pipeReadLoop len p else ([], p)

variable {p : Pipe}

/-! ## One call -/

theorem pipeWriteLoop_spec (buf : List UInt8) (hp : p.ring.Sound pipeBufSize) :
    (pipeWriteLoop buf p).1 ≤ buf.length ∧ (pipeWriteLoop buf p).2.ring.Sound pipeBufSize ∧
      (pipeWriteLoop buf p).2.ring.contents pipeBufSize =
        p.ring.contents pipeBufSize ++ buf.take (pipeWriteLoop buf p).1 ∧
      ((pipeWriteLoop buf p).1 < buf.length → (pipeWriteLoop buf p).2.ring.count = pipeBufSize) := by
  induction buf generalizing p with
  | nil => exact ⟨Nat.le_refl _, hp, (List.append_nil _).symm, fun hlt => absurd hlt (Nat.lt_irrefl _)⟩
  | cons b buf ih =>
    unfold pipeWriteLoop
    by_cases hroom : p.ring.count < pipeBufSize
    · rw [if_pos hroom]
      obtain ⟨hle, hsound, hcontents, hfull⟩ := ih (p := p.push b) (Fifo.push_sound hp hroom b)
      refine ⟨Nat.succ_le_succ hle, hsound, ?_, fun hlt => hfull (Nat.lt_of_succ_lt_succ hlt)⟩
      have hpushed : (p.push b).ring.contents pipeBufSize = p.ring.contents pipeBufSize ++ [b] :=
        Fifo.push_contents hp hroom b
      change (pipeWriteLoop buf (p.push b)).2.ring.contents pipeBufSize = _
      rw [hcontents, hpushed, List.take_succ_cons, List.append_assoc]
      rfl
    · rw [if_neg hroom]
      exact ⟨Nat.zero_le _, hp, (List.append_nil _).symm,
        fun _ => Nat.le_antisymm hp.count_le (Nat.not_lt.1 hroom)⟩

theorem pipeReadLoop_spec (len : Nat) (hp : p.ring.Sound pipeBufSize) :
    (pipeReadLoop len p).1.length ≤ len ∧ (pipeReadLoop len p).2.ring.Sound pipeBufSize ∧
      p.ring.contents pipeBufSize =
        (pipeReadLoop len p).1 ++ (pipeReadLoop len p).2.ring.contents pipeBufSize := by
  induction len generalizing p with
  | zero => exact ⟨Nat.le_refl _, hp, rfl⟩
  | succ len ih =>
    unfold pipeReadLoop
    by_cases hsome : 0 < p.ring.count
    · rw [if_pos hsome]
      obtain ⟨hle, hsound, hcontents⟩ := ih (p := p.drop) (Fifo.drop_sound hp hsome)
      refine ⟨Nat.succ_le_succ hle, hsound, ?_⟩
      have hdropped : p.ring.contents pipeBufSize =
          p.ring.slots (p.ring.head % pipeBufSize) :: p.drop.ring.contents pipeBufSize :=
        Fifo.drop_contents hsome
      rw [hdropped, Nat.mod_eq_of_lt hp.head_lt, hcontents]
      rfl
    · rw [if_neg hsome]
      exact ⟨Nat.zero_le _, hp, rfl⟩

/-! ## Runs -/

/-- `accepted` and `returned` are the bytes of all writes and reads so far. -/
structure PipeRun where
  pipe : Pipe
  accepted : List UInt8
  returned : List UInt8

/-- The calls of either end. -/
inductive PipeOp
  | connect
  | opened
  | write (buf : Option (List UInt8))
  | read (buf : Bool) (len : Nat)

def pipeStep (s : PipeRun) : PipeOp → PipeRun
  | .connect => { s with pipe := pipeConnect s.pipe }
  | .opened => { s with pipe := pipeOpened s.pipe }
  | .write buf =>
      let r := pipeWrite buf s.pipe
      { s with pipe := r.2, accepted := s.accepted ++ (buf.getD []).take r.1 }
  | .read buf len =>
      let r := pipeRead buf len s.pipe
      { s with pipe := r.2, returned := s.returned ++ r.1 }

def PipeStart (s : PipeRun) : Prop := ∃ name, s = ⟨newPipe name, [], []⟩

def PipeStep (s : PipeRun) (op : PipeOp) (s' : PipeRun) : Prop := s' = pipeStep s op

structure PipeInv (s : PipeRun) : Prop where
  ring : s.pipe.ring.Sound pipeBufSize
  bytes : s.accepted = s.returned ++ s.pipe.ring.contents pipeBufSize

theorem pipeStep_inv {s : PipeRun} (h : PipeInv s) (op : PipeOp) : PipeInv (pipeStep s op) := by
  cases op with
  | connect => exact ⟨h.ring, h.bytes⟩
  | opened => exact ⟨h.ring, h.bytes⟩
  | write buf =>
    cases buf with
    | none => exact ⟨h.ring, (List.append_nil _).trans h.bytes⟩
    | some bytes =>
      obtain ⟨-, hsound, hcontents, -⟩ := pipeWriteLoop_spec bytes h.ring
      refine ⟨hsound, ?_⟩
      change s.accepted ++ bytes.take (pipeWriteLoop bytes s.pipe).1 =
        s.returned ++ (pipeWriteLoop bytes s.pipe).2.ring.contents pipeBufSize
      rw [hcontents, h.bytes, List.append_assoc]
  | read buf len =>
    cases buf with
    | false => exact ⟨h.ring, by simpa [pipeStep, pipeRead] using h.bytes⟩
    | true =>
      obtain ⟨-, hsound, hcontents⟩ := pipeReadLoop_spec len h.ring
      refine ⟨hsound, ?_⟩
      change s.accepted = (s.returned ++ (pipeReadLoop len s.pipe).1) ++
        (pipeReadLoop len s.pipe).2.ring.contents pipeBufSize
      rw [h.bytes, hcontents, List.append_assoc]

theorem pipeReach_inv {s : PipeRun} (h : Reach PipeStart PipeStep (fun _ _ => True) s) : PipeInv s := by
  apply h.invariant
  · rintro s ⟨name, rfl⟩
    exact ⟨⟨Nat.zero_lt_succ _, rfl, Nat.zero_le _⟩, rfl⟩
  · rintro s op s' hs - rfl
    exact pipeStep_inv hs op

/-- The difference of the two positions, around the end of the buffer. -/
theorem count_eq {cap : Nat} {q : Fifo UInt8} (hq : q.Sound cap) :
    q.count = (q.tail + cap - q.head) % cap ∨ q.count = cap := by
  have hlt := hq.head_lt
  have hle := hq.count_le
  rcases Nat.lt_or_eq_of_le hle with hroom | hfull
  · left
    rw [hq.tail_eq]
    rcases Nat.lt_or_ge (q.head + q.count) cap with hin | hout
    · rw [Nat.mod_eq_of_lt hin, show q.head + q.count + cap - q.head = q.count + cap by omega,
        Nat.add_mod_right, Nat.mod_eq_of_lt hroom]
    · have hwrap : (q.head + q.count) % cap = q.head + q.count - cap := by
        rw [Nat.mod_eq_sub_mod hout, Nat.mod_eq_of_lt (by omega)]
      rw [hwrap, show q.head + q.count - cap + cap - q.head = q.count by omega,
        Nat.mod_eq_of_lt hroom]
  · exact .inr hfull

/-- What was read is the first part of what was written, and the rest is in the buffer. A
write takes less than its buffer only when it fills the pipe. -/
theorem pipe_fifo {s : PipeRun} (h : Reach PipeStart PipeStep (fun _ _ => True) s) :
    s.accepted = s.returned ++ s.pipe.ring.contents pipeBufSize ∧
      (s.pipe.ring.contents pipeBufSize).length = s.pipe.ring.count ∧
      s.pipe.ring.count ≤ pipeBufSize ∧
      (s.pipe.ring.count = (s.pipe.ring.tail + pipeBufSize - s.pipe.ring.head) % pipeBufSize ∨
        s.pipe.ring.count = pipeBufSize) ∧
      ∀ buf, (pipeWrite (some buf) s.pipe).1 ≤ buf.length ∧
        ((pipeWrite (some buf) s.pipe).1 < buf.length →
          (pipeWrite (some buf) s.pipe).2.ring.count = pipeBufSize) := by
  obtain ⟨hring, hbytes⟩ := pipeReach_inv h
  refine ⟨hbytes, Fifo.length_contents .., hring.count_le, count_eq hring, fun buf => ?_⟩
  obtain ⟨hle, -, -, hfull⟩ := pipeWriteLoop_spec buf hring
  exact ⟨hle, hfull⟩

theorem pipe_fifo_abc : ∃ s : PipeRun, s.accepted = [97, 98, 99] ∧ s.returned = [97, 98] ∧
    s.accepted = s.returned ++ s.pipe.ring.contents pipeBufSize ∧ s.pipe.ring.count = 1 := by
  have hreach : Reach PipeStart PipeStep (fun _ _ => True)
      (pipeStep (pipeStep ⟨newPipe [], [], []⟩ (.write (some [97, 98, 99]))) (.read true 2)) :=
    .step (.step (.start ⟨[], rfl⟩) trivial rfl) trivial rfl
  exact ⟨_, rfl, rfl, (pipe_fifo hreach).1, rfl⟩

end MeuOS.Lpc
