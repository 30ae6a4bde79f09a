import MeuOS.Lib.ByteLoops
import MeuOS.Lib.Run
import Mathlib.Data.List.Pairwise

/-! Allocators that only go forward. A block in use is a range of bytes, perhaps with a header
before it; the room that is left touches none of them. What a caller goes by is stated for an
allocator of any kind, over whole runs. -/
namespace MeuOS.Lib.Bump

structure Block where
  lo : Nat
  size : Nat
  deriving DecidableEq

def Block.stop (b : Block) : Nat := b.lo + b.size

/-- The two blocks share no byte, and neither has one in the `head` bytes before the other. -/
def Clear (head : Nat) (a b : Block) : Prop := a.stop + head ≤ b.lo ∨ b.stop + head ≤ a.lo

abbrev Apart : Block → Block → Prop := Clear 0

theorem Clear.symm {head : Nat} {a b : Block} (h : Clear head a b) : Clear head b a := Or.symm h

theorem Clear.apart {head : Nat} {a b : Block} (h : Clear head a b) : Apart a b :=
  h.imp (fun h => by omega) fun h => by omega

def Block.Within (b : Block) (lo hi : Nat) : Prop := lo ≤ b.lo ∧ b.stop ≤ hi

/-- The blocks in use keep clear of each other and of the room from `lo` to `hi`. -/
structure Room (head : Nat) (live : List Block) (lo hi : Nat) : Prop where
  clear : live.Pairwise (Clear head)
  outside : ∀ b ∈ live, b.stop ≤ lo ∨ hi + head ≤ b.lo

namespace Room

variable {head lo hi lo' : Nat} {live live' : List Block} {b : Block}

theorem empty : Room head [] lo hi := ⟨.nil, nofun⟩

theorem fresh (h : Room head live lo hi) (hlo : lo + head ≤ b.lo) (hhi : b.stop ≤ hi) :
    ∀ c ∈ live, Clear head b c := by
  intro c hc
  rcases h.outside c hc with hbelow | habove
  · exact .inr (by omega)
  · exact .inl (by omega)

/-- A block is taken from the start of the room. -/
theorem take (h : Room head live lo hi) (hlo : lo + head ≤ b.lo) (hstop : b.stop ≤ lo') (hhi : lo' ≤ hi) :
    Room head (b :: live) lo' hi := by
  refine ⟨List.pairwise_cons.mpr ⟨h.fresh hlo (by omega), h.clear⟩, fun c hc => ?_⟩
  rcases List.mem_cons.mp hc with rfl | hc
  · exact .inl hstop
  · refine (h.outside c hc).imp_left fun hbelow => ?_
    have hpos : b.lo ≤ b.stop := Nat.le_add_right _ _
    omega

theorem drop (h : Room head live lo hi) (hsub : live'.Sublist live) : Room head live' lo hi :=
  ⟨h.clear.sublist hsub, fun c hc => h.outside c (hsub.subset hc)⟩

/-- The room is given up for another. -/
theorem renew (h : Room head live lo hi) {lo' hi' : Nat} (hout : ∀ b ∈ live, b.stop ≤ lo' ∨ hi' + head ≤ b.lo) :
    Room head live lo' hi' :=
  ⟨h.clear, hout⟩

theorem apart (h : Room head live lo hi) {a c : Block} (ha : a ∈ live) (hc : c ∈ live) (hne : a ≠ c) :
    Clear head a c := by
  have hsymm : Std.Symm (Clear head) := ⟨fun _ _ => Clear.symm⟩
  exact h.clear.forall ha hc hne

end Room

/-! ## Requests and what is given -/

/-- So many bytes, all zero, or in the place of a block. -/
structure Request where
  bytes : Nat
  zero : Bool
  old : Option Block

/-- How many bytes are to be those of the old block. -/
def Request.kept (r : Request) : Nat :=
  match r.old with
  | none => 0
  | some b => min b.size r.bytes

/-- `p` is the block that was asked for: `residue` modulo 16, in the memory the allocator has. -/
structure Given (residue : Nat) (inside : Block → Prop) (live : List Block) (r : Request) (m m' : Mem) (p : Nat) :
    Prop where
  aligned : p % 16 = residue
  inside : inside ⟨p, r.bytes⟩
  apart : ∀ b ∈ live, Apart ⟨p, r.bytes⟩ b
  kept : ∀ b, r.old = some b → Mem.SameAt m b.lo m' p r.kept
  zero : r.zero = true → ∀ i, r.kept ≤ i → i < r.bytes → m' (p + i) = 0

structure World (σ : Type) where
  heap : σ
  mem : Mem
  live : List Block

inductive Act (κ : Type)
  | call (c : κ)
  | free (b : Block)
  /-- The caller stores a byte in a block. -/
  | store (i : Nat) (v : UInt8)

structure Allocator (σ κ : Type) where
  start : σ
  serve : κ → σ → Mem → Nat × σ × Mem
  ask : κ → Request
  /-- What the allocator may rely on from those it calls itself. -/
  promised : σ → κ → Prop
  inside : σ → Block → Prop
  residue : Nat

namespace Allocator

variable {σ κ : Type} (A : Allocator σ κ)

/-- A null pointer changes nothing for the caller; another block comes in the place of the old one. -/
def liveAfter (live : List Block) (r : Request) (p : Nat) : List Block :=
  if p = 0 then live
  else
    ⟨p, r.bytes⟩ :: match r.old with
      | none => live
      | some b => live.erase b

/-- Beside a new block there are only blocks that were in use. -/
theorem liveAfter_new (live : List Block) (r : Request) {p : Nat} (hp : p ≠ 0) :
    ∃ rest, rest.Sublist live ∧ liveAfter live r p = ⟨p, r.bytes⟩ :: rest := by
  unfold liveAfter
  rw [if_neg hp]
  cases r.old with
  | none => exact ⟨live, .refl _, rfl⟩
  | some b => exact ⟨live.erase b, List.erase_sublist, rfl⟩

def after (w : World σ) (c : κ) : World σ :=
  let r := A.serve c w.heap w.mem
  ⟨r.2.1, r.2.2, liveAfter w.live (A.ask c) r.1⟩

def Start (w : World σ) : Prop := w.heap = A.start ∧ w.live = []

/-- The call can be made: a block that is to be reallocated is in use. -/
def MayCall (w : World σ) (c : κ) : Prop := A.promised w.heap c ∧ ∀ b, (A.ask c).old = some b → b ∈ w.live

inductive Step : World σ → Act κ → World σ → Prop
  | call {w : World σ} {c : κ} (hc : A.MayCall w c) : Step w (.call c) (A.after w c)
  | free {w : World σ} {b : Block} (hb : b ∈ w.live) : Step w (.free b) { w with live := w.live.erase b }
  | store {w : World σ} {b : Block} {i : Nat} (v : UInt8) (hb : b ∈ w.live) (hlo : b.lo ≤ i) (hhi : i < b.stop) :
      Step w (.store i v) { w with mem := w.mem.put i v }

/-- The answer to a call: a null pointer or what was asked for, and all other blocks as they were. -/
def Right (w : World σ) (c : κ) : Prop :=
  let r := A.serve c w.heap w.mem
  (r.1 ≠ 0 → Given A.residue (A.inside r.2.1) w.live (A.ask c) w.mem r.2.2 r.1) ∧
    ∀ b ∈ w.live, Mem.Agree r.2.2 w.mem b.lo b.stop

def Guard (ok : σ → κ → Prop) (w : World σ) : Act κ → Prop
  | .call c => ok w.heap c
  | _ => True

/-- In every run whose calls meet the condition, every call that meets it is answered rightly. -/
def Sound (ok : σ → κ → Prop) : Prop :=
  ∀ w, Reach A.Start A.Step (Guard ok) w → ∀ c, A.MayCall w c → ok w.heap c → A.Right w c

variable {A}

/-- An invariant that holds at the start, that calls keep and answer rightly under, and that does not depend on
the bytes of the blocks. -/
theorem sound_of_invariant {ok : σ → κ → Prop} (Inv : World σ → Prop) (hstart : ∀ w, A.Start w → Inv w)
    (hcall : ∀ w c, Inv w → A.MayCall w c → ok w.heap c → A.Right w c ∧ Inv (A.after w c))
    (hfree : ∀ (w : World σ) b, Inv w → Inv { w with live := w.live.erase b })
    (hstore : ∀ (w : World σ) b i v, Inv w → b ∈ w.live → b.lo ≤ i → i < b.stop →
      Inv { w with mem := w.mem.put i v }) :
    A.Sound ok := by
  intro w hw c hc hok
  refine (hcall w c (hw.invariant hstart ?_) hc hok).1
  intro w a w' hinv hguard hstep
  cases hstep with
  | call hc => exact (hcall w _ hinv hc hguard).2
  | free hb => exact hfree w _ hinv
  | store v hb hlo hhi => exact hstore w _ _ v hinv hb hlo hhi

theorem reach_call {ok : σ → κ → Prop} {w : World σ} {c : κ} (h : Reach A.Start A.Step (Guard ok) w)
    (hok : ok w.heap c) (hc : A.MayCall w c) : Reach A.Start A.Step (Guard ok) (A.after w c) :=
  h.step (a := .call c) hok (.call hc)

theorem reach_store {ok : σ → κ → Prop} {w : World σ} {b : Block} (h : Reach A.Start A.Step (Guard ok) w) (i : Nat)
    (v : UInt8) (hb : b ∈ w.live) (hlo : b.lo ≤ i) (hhi : i < b.stop) :
    Reach A.Start A.Step (Guard ok) { w with mem := w.mem.put i v } :=
  h.step (a := .store i v) trivial (.store v hb hlo hhi)

end Allocator

/-! ## One arena -/

/-- `(n + 15) & ~15` in 64 bits. -/
def roundUp (n : Nat) : Nat := (n + 15) % 2 ^ 64 / 16 * 16

/-- No block is given: its rounded size is refused, or the sum with the offset is over the capacity. -/
def Refused (cap : Nat) (refuse : Nat → Bool) (off n : Nat) : Prop :=
  refuse (roundUp n) = true ∨ cap < (off + roundUp n) % 2 ^ 64

instance (cap : Nat) (refuse : Nat → Bool) (off n : Nat) : Decidable (Refused cap refuse off n) :=
  inferInstanceAs (Decidable (_ ∨ _))

/-- The pointer and the new offset. -/
def bump (cap : Nat) (refuse : Nat → Bool) (base off n : Nat) : Nat × Nat :=
  if Refused cap refuse off n then (0, off) else (base + off, (off + roundUp n) % 2 ^ 64)

/-- A static array of `cap` bytes. -/
structure Arena (cap : Nat) where
  base : Nat
  pos : 0 < base
  aligned : base % 16 = 0

/-- The call is refused, or nothing wraps around and no old bytes are to be copied. -/
def Meets (cap : Nat) (refuse : Nat → Bool) (off : Nat) (r : Request) : Prop :=
  Refused cap refuse off (r.bytes % 2 ^ 64) ∨ off + r.bytes + 15 < 2 ^ 64 ∧ r.kept = 0

variable {cap off n : Nat} {refuse : Nat → Bool}

/-- A block that is given fits in the arena if its size and the offset do not wrap around. -/
theorem bump_fits (h16 : off % 16 = 0) (hfits : off + n + 15 < 2 ^ 64) (h : ¬ Refused cap refuse off n) :
    off + n ≤ (off + roundUp n) % 2 ^ 64 ∧ (off + roundUp n) % 2 ^ 64 ≤ cap ∧
      (off + roundUp n) % 2 ^ 64 % 16 = 0 := by
  have hcap := Nat.not_lt.mp (not_or.mp h).2
  unfold roundUp at *
  omega

variable {κ : Type}

/-- An allocator with one arena, whose state is the offset. -/
def arenaAllocator (a : Arena cap) (serve : κ → Nat → Mem → Nat × Nat × Mem) (ask : κ → Request) :
    Allocator Nat κ where
  start := 0
  serve := serve
  ask := ask
  promised _ _ := True
  inside _ b := b.Within a.base (a.base + cap)
  residue := 0

/-- All blocks are below the offset. -/
structure ArenaInv (a : Arena cap) (w : World Nat) : Prop where
  off : w.heap % 16 = 0
  cap : w.heap ≤ cap
  clear : w.live.Pairwise Apart
  within : ∀ b ∈ w.live, b.Within a.base (a.base + w.heap)

/-- Nothing is given and nothing changed, or the bytes at the offset and none of an old block. -/
def Serves (a : Arena cap) (r : Request) (off : Nat) (m : Mem) (res : Nat × Nat × Mem) : Prop :=
  res = (0, off, m) ∨ ∃ off' m', res = (a.base + off, off', m') ∧
    (off + r.bytes ≤ off' ∧ off' ≤ cap ∧ off' % 16 = 0) ∧ r.kept = 0 ∧
    (∀ i < a.base + off, m' i = m i) ∧ (r.zero = true → ∀ i < r.bytes, m' (a.base + off + i) = 0)

section OneArena

variable {a : Arena cap} {w : World Nat} {off' : Nat} {m' : Mem} {r : Request}

theorem ArenaInv.room (h : ArenaInv a w) : Room 0 w.live (a.base + w.heap) (a.base + cap) :=
  ⟨h.clear, fun b hb => .inl (h.within b hb).2⟩

theorem ArenaInv.given (h : ArenaInv a w) (hfits : w.heap + r.bytes ≤ off') (hcap : off' ≤ cap)
    (h16 : off' % 16 = 0) :
    ArenaInv a ⟨off', m', Allocator.liveAfter w.live r (a.base + w.heap)⟩ := by
  have hpos := a.pos
  obtain ⟨rest, hold, hlive⟩ := Allocator.liveAfter_new w.live r (show a.base + w.heap ≠ 0 by omega)
  have hstop : Block.stop ⟨a.base + w.heap, r.bytes⟩ ≤ a.base + off' := by
    show a.base + w.heap + r.bytes ≤ a.base + off'
    omega
  rw [hlive]
  refine ⟨h16, hcap, ((h.room.drop hold).take (Nat.le_refl _) hstop (by omega)).clear, fun b hb => ?_⟩
  rcases List.mem_cons.mp hb with rfl | hb
  · exact ⟨Nat.le_add_right _ _, hstop⟩
  · have hin := h.within b (hold.subset hb)
    refine ⟨hin.1, hin.2.trans ?_⟩
    show a.base + w.heap ≤ a.base + off'
    omega

theorem ArenaInv.right (h : ArenaInv a w) (hfits : w.heap + r.bytes ≤ off') (hcap : off' ≤ cap)
    (hkept : r.kept = 0) (hzero : r.zero = true → ∀ i < r.bytes, m' (a.base + w.heap + i) = 0) :
    Given 0 (fun b => b.Within a.base (a.base + cap)) w.live r w.mem m' (a.base + w.heap) := by
  have hstop : Block.stop ⟨a.base + w.heap, r.bytes⟩ ≤ a.base + cap := by
    show a.base + w.heap + r.bytes ≤ a.base + cap
    omega
  refine ⟨?_, ⟨Nat.le_add_right _ _, hstop⟩, h.room.fresh (Nat.le_refl _) hstop, fun b _ i hi => ?_,
    fun hz i _ hi => hzero hz i hi⟩
  · have h16 := h.off
    have haligned := a.aligned
    omega
  · omega

/-- Calls that are served so are answered rightly in every run. -/
theorem arena_sound {serve : κ → Nat → Mem → Nat × Nat × Mem} {ask : κ → Request} {ok : Nat → κ → Prop}
    (hserve : ∀ c off m, off % 16 = 0 → off ≤ cap → ok off c → Serves a (ask c) off m (serve c off m)) :
    (arenaAllocator a serve ask).Sound ok := by
  refine Allocator.sound_of_invariant (ArenaInv a) ?_ ?_ ?_ ?_
  · rintro ⟨heap, mem, live⟩ ⟨hheap, hlive⟩
    cases hheap
    cases hlive
    exact ⟨rfl, Nat.zero_le _, .nil, nofun⟩
  · intro w c hinv _ hok
    unfold Allocator.Right Allocator.after
    rcases hserve c w.heap w.mem hinv.off hinv.cap hok with
      hnull | ⟨off', m', hres, ⟨hfits, hcap, h16⟩, hkept, hmem, hzero⟩
    · rw [show (arenaAllocator a serve ask).serve c w.heap w.mem = _ from hnull]
      exact ⟨⟨fun hne => absurd rfl hne, fun _ _ _ _ _ => rfl⟩, hinv⟩
    · rw [show (arenaAllocator a serve ask).serve c w.heap w.mem = _ from hres]
      refine ⟨⟨fun _ => hinv.right hfits hcap hkept hzero, fun b hb i _ hi => hmem i ?_⟩,
        hinv.given hfits hcap h16⟩
      exact hi.trans_le (hinv.within b hb).2
  · exact fun w b h => ⟨h.off, h.cap, h.clear.sublist List.erase_sublist,
      fun c hc => h.within c (List.mem_of_mem_erase hc)⟩
  · exact fun w b i v h _ _ _ => ⟨h.off, h.cap, h.clear, h.within⟩

/-- What `bump` gives under the condition. -/
theorem serves_bump {off n : Nat} (h16 : off % 16 = 0) (hn : r.bytes % 2 ^ 64 = n)
    (h : Meets cap refuse off r) :
    (bump cap refuse a.base off n = (0, off)) ∨ ∃ off', bump cap refuse a.base off n = (a.base + off, off') ∧
      (off + r.bytes ≤ off' ∧ off' ≤ cap ∧ off' % 16 = 0) ∧ r.kept = 0 ∧ n = r.bytes := by
  subst hn
  unfold bump
  by_cases href : Refused cap refuse off (r.bytes % 2 ^ 64)
  · exact .inl (if_pos href)
  · obtain ⟨hfits, hkept⟩ := h.resolve_left href
    have hsmall : r.bytes % 2 ^ 64 = r.bytes := Nat.mod_eq_of_lt (by omega)
    rw [hsmall] at href ⊢
    exact .inr ⟨_, if_neg href, bump_fits h16 hfits href, hkept, rfl⟩

/-- A call that hands on what `bump` gives, with the memory as it is. -/
theorem serves_plain {off : Nat} {m : Mem} (h16 : off % 16 = 0) (hbytes : r.bytes < 2 ^ 64) (hzero : r.zero = false)
    (h : Meets cap refuse off r) :
    Serves a r off m ((bump cap refuse a.base off r.bytes).1, (bump cap refuse a.base off r.bytes).2, m) := by
  rcases serves_bump (a := a) h16 (Nat.mod_eq_of_lt hbytes) h with hnull | ⟨off', hgiven, hfits, hkept, -⟩
  · rw [hnull]
    exact .inl rfl
  · rw [hgiven]
    exact .inr ⟨off', m, rfl, hfits, hkept, fun _ _ => rfl, fun hz => nomatch hzero.symm.trans hz⟩

end OneArena

end MeuOS.Lib.Bump
