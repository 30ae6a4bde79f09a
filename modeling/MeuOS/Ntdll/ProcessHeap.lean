import MeuOS.Ucrt.Malloc
import MeuOS.Combase.TaskMem

/-! The heap of `ntdll`: blocks with their size before them, taken forward from chunks that `NtVirtualAlloc`
gives. With the heaps of the C runtime and of COM, what their callers can rely on. -/
namespace MeuOS.Ntdll

open MeuOS.Lib Bump

/-- `g_heap_arena`, `g_heap_off` and `g_heap_cap`. `chunks` are all that the process was given so far; no code
reads them. -/
structure NtHeap where
  arena : Nat
  off : Nat
  cap : Nat
  chunks : List Block

def heapZeroMemory : Nat := 8

/-- Size and header, rounded up. -/
def need (size : Nat) : Nat := (size + 8 + 15) % 2 ^ 64 / 16 * 16

def chunkFor (need : Nat) : Nat :=
  if 0x200000 < need then (need + 0xFFFFF) % 2 ^ 64 / 0x100000 * 0x100000 else 0x200000

/-- The header is written and the pointer behind it given. -/
def NtHeap.take (h : NtHeap) (m : Mem) (size : Nat) : Nat × NtHeap × Mem :=
  (h.arena + h.off + 8, { h with off := (h.off + need size) % 2 ^ 64 }, m.write (h.arena + h.off) 8 size)

section

variable (ntVirtualAlloc : Nat → Nat) (h : NtHeap) (m : Mem)

def ntdHeapBump (size : Nat) : Nat × NtHeap × Mem :=
  if h.arena = 0 ∨ h.cap < (h.off + need size) % 2 ^ 64 then
    let chunk := chunkFor (need size)
    let a := ntVirtualAlloc chunk
    if a = 0 then (0, h, m) else NtHeap.take ⟨a, 0, chunk, ⟨a, chunk⟩ :: h.chunks⟩ m size
  else h.take m size

def rtlAllocateHeap (flags size : Nat) : Nat × NtHeap × Mem :=
  let (p, h, m) := ntdHeapBump ntVirtualAlloc h m size
  (p, h, if p ≠ 0 ∧ flags &&& heapZeroMemory ≠ 0 then m.fillUp p size 0 else m)

def rtlReAllocateHeap (flags p size : Nat) : Nat × NtHeap × Mem :=
  if p = 0 then rtlAllocateHeap ntVirtualAlloc h m flags size
  else
    let old := m.rd64 (p - 8)
    let (np, h, m) := ntdHeapBump ntVirtualAlloc h m size
    if np = 0 then (0, h, m)
    else
      let m := m.copyUp np p (if old < size then old else size)
      (np, h, if flags &&& heapZeroMemory ≠ 0 ∧ old < size then m.fillUp (np + old) (size - old) 0 else m)

end

theorem need_lt (size : Nat) : need size < 2 ^ 64 := by
  unfold need
  omega

/-- A chunk that is smaller than what is needed has no bytes at all. -/
theorem le_chunkFor {n : Nat} (hn : n < 2 ^ 64) (hpos : 0 < chunkFor n) : n ≤ chunkFor n := by
  unfold chunkFor at *
  split at hpos <;> split <;> omega

/-! ## Calls -/

inductive HeapCall
  | allocate (flags size : Nat)
  /-- A null pointer is `none`. -/
  | reallocate (flags : Nat) (p : Option Block) (size : Nat)

def HeapCall.ask : HeapCall → Request
  | .allocate flags size => ⟨size, decide (flags &&& heapZeroMemory ≠ 0), none⟩
  | .reallocate flags p size => ⟨size, decide (flags &&& heapZeroMemory ≠ 0), p⟩

def HeapCall.serve (c : HeapCall) (ntVirtualAlloc : Nat → Nat) (h : NtHeap) (m : Mem) : Nat × NtHeap × Mem :=
  match c with
  | .allocate flags size => rtlAllocateHeap ntVirtualAlloc h m flags size
  | .reallocate flags p size => rtlReAllocateHeap ntVirtualAlloc h m flags ((p.map Block.lo).getD 0) size

/-- `sys_virtualalloc`: nothing for no bytes, or whole frames that nobody has. -/
def Fresh (chunks : List Block) (ntVirtualAlloc : Nat → Nat) : Prop :=
  ∀ size, ntVirtualAlloc size ≠ 0 → 0 < size ∧ ntVirtualAlloc size % 4096 = 0 ∧
    ∀ c ∈ chunks, Apart ⟨ntVirtualAlloc size, size⟩ c

/-- A call comes with what the kernel would give for it. -/
abbrev ntHeap (residue : Nat) : Allocator NtHeap (HeapCall × (Nat → Nat)) where
  start := ⟨0, 0, 0, []⟩
  serve c h m := c.1.serve c.2 h m
  ask c := c.1.ask
  promised h c := Fresh h.chunks c.2
  inside h b := ∃ c ∈ h.chunks, b.Within c.lo c.stop
  residue := residue

/-- Neither the size with its header nor the sum with the offset wraps around. -/
def HeapCall.Meets (h : NtHeap) (c : HeapCall) : Prop := h.off + c.ask.bytes + 23 < 2 ^ 64

/-! ## What a call keeps -/

/-- The blocks are in the chunks, each behind its header, and the room is what is left of the last chunk. -/
structure NtHeap.Holds (h : NtHeap) (live : List Block) : Prop where
  arena : h.arena % 16 = 0
  off : h.off % 16 = 0
  cap : h.off ≤ h.cap
  current : h.arena ≠ 0 → ⟨h.arena, h.cap⟩ ∈ h.chunks
  room : Room 8 live (h.arena + h.off) (h.arena + h.cap)
  within : ∀ b ∈ live, ∃ c ∈ h.chunks, b.Within (c.lo + 8) c.stop

namespace NtHeap.Holds

variable {h : NtHeap} {live live' : List Block}

theorem drop (hh : h.Holds live) (hsub : live'.Sublist live) : h.Holds live' :=
  ⟨hh.arena, hh.off, hh.cap, hh.current, hh.room.drop hsub, fun b hb => hh.within b (hsub.subset hb)⟩

/-- A new chunk, apart from all others. -/
theorem renew (hh : h.Holds live) {a n : Nat} (ha : a % 4096 = 0) (hapart : ∀ c ∈ h.chunks, Apart ⟨a, n⟩ c) :
    NtHeap.Holds ⟨a, 0, n, ⟨a, n⟩ :: h.chunks⟩ live := by
  refine ⟨by dsimp only; omega, rfl, Nat.zero_le _, fun _ => List.mem_cons_self .., hh.room.renew fun b hb => ?_,
    fun b hb => ?_⟩
  · obtain ⟨c, hc, hlo, hhi⟩ := hh.within b hb
    have hclear : a + n + 0 ≤ c.lo ∨ c.stop + 0 ≤ a := hapart c hc
    dsimp only
    omega
  · obtain ⟨c, hc, hin⟩ := hh.within b hb
    exact ⟨c, List.mem_cons_of_mem _ hc, hin⟩

/-- A block with its header is taken from the room. -/
theorem take (hh : h.Holds live) (size : Nat) (hne : h.arena ≠ 0) (hfits : h.off + size + 23 < 2 ^ 64)
    (hroom : h.off + need size ≤ h.cap) :
    NtHeap.Holds { h with off := (h.off + need size) % 2 ^ 64 } (⟨h.arena + h.off + 8, size⟩ :: live) := by
  have hoff := hh.off
  have hneed : size + 8 ≤ need size ∧ need size % 16 = 0 ∧ h.off + need size < 2 ^ 64 := by
    unfold need
    omega
  rw [Nat.mod_eq_of_lt hneed.2.2]
  have hstop : Block.stop ⟨h.arena + h.off + 8, size⟩ ≤ h.arena + (h.off + need size) := by
    show h.arena + h.off + 8 + size ≤ _
    omega
  refine ⟨hh.arena, by dsimp only; omega, hroom, hh.current,
    hh.room.take (Nat.le_refl _) hstop (by dsimp only; omega), fun b hb => ?_⟩
  rcases List.mem_cons.mp hb with rfl | hb
  · refine ⟨⟨h.arena, h.cap⟩, hh.current hne, ?_, hstop.trans ?_⟩
    · show h.arena + 8 ≤ h.arena + h.off + 8
      omega
    · show _ ≤ h.arena + h.cap
      omega
  · exact hh.within b hb

end NtHeap.Holds

section Bump

variable {h : NtHeap} {live : List Block} {va : Nat → Nat} {m : Mem} {size : Nat}

/-- Nothing, or a new block 8 bytes off the alignment, with its size before it. -/
theorem ntdHeapBump_cases (hh : h.Holds live) (hfresh : Fresh h.chunks va) (hfits : h.off + size + 23 < 2 ^ 64) :
    ntdHeapBump va h m size = (0, h, m) ∨ ∃ q h', ntdHeapBump va h m size = (q + 8, h', m.write q 8 size) ∧
      q % 16 = 0 ∧ h'.Holds (⟨q + 8, size⟩ :: live) := by
  have hoff := hh.off
  unfold ntdHeapBump
  by_cases hmore : h.arena = 0 ∨ h.cap < (h.off + need size) % 2 ^ 64
  · rw [if_pos hmore]
    dsimp only
    by_cases hnone : va (chunkFor (need size)) = 0
    · exact .inl (if_pos hnone)
    · obtain ⟨hpos, hpage, hapart⟩ := hfresh _ hnone
      have hbig := le_chunkFor (need_lt size) hpos
      have hheld := (hh.renew hpage hapart).take size hnone (by dsimp only; omega) (by dsimp only; omega)
      refine .inr ⟨va (chunkFor (need size)), _, by rw [if_neg hnone]; rfl, by omega, hheld⟩
  · have hin := not_or.mp hmore
    have hneed : h.off + need size < 2 ^ 64 := by
      unfold need
      omega
    rw [Nat.mod_eq_of_lt hneed] at hin
    have harena := hh.arena
    exact .inr ⟨h.arena + h.off, _, if_neg hmore, by omega, hh.take size hin.1 hfits (by omega)⟩

/-- A call gives nothing, or a new block with what was asked for, and only stores in it and its header. -/
def NtServes (h : NtHeap) (live : List Block) (r : Request) (m : Mem) (res : Nat × NtHeap × Mem) : Prop :=
  res = (0, h, m) ∨ ∃ q h' m', res = (q + 8, h', m') ∧ q % 16 = 0 ∧ h'.Holds (⟨q + 8, r.bytes⟩ :: live) ∧
    (∀ i, i < q ∨ q + 8 + r.bytes ≤ i → m' i = m i) ∧ m'.rd64 q = r.bytes ∧
    (∀ b, r.old = some b → Mem.SameAt m b.lo m' (q + 8) r.kept) ∧
    (r.zero = true → ∀ i, r.kept ≤ i → i < r.bytes → m' (q + 8 + i) = 0)

theorem rd64_header {q : Nat} {m' : Mem} (hsize : size < 2 ^ 64) (h : Mem.Agree m' (m.write q 8 size) q (q + 8)) :
    m'.rd64 q = size :=
  (Mem.rd64_congr h).trans (Mem.read_write_of_lt m hsize)

variable {flags : Nat}

theorem rtlAllocateHeap_serves (hh : h.Holds live) (hfresh : Fresh h.chunks va) (hfits : h.off + size + 23 < 2 ^ 64) :
    NtServes h live (HeapCall.allocate flags size).ask m (rtlAllocateHeap va h m flags size) := by
  have hsize : size < 2 ^ 64 := by omega
  unfold rtlAllocateHeap
  rcases ntdHeapBump_cases (m := m) hh hfresh hfits with hnull | ⟨q, h', hgiven, hq, hheld⟩
  · rw [hnull]
    exact .inl rfl
  · rw [hgiven]
    refine .inr ⟨q, h', _, rfl, hq, hheld, ?_⟩
    by_cases hzero : flags &&& heapZeroMemory ≠ 0
    · rw [if_pos ⟨by omega, hzero⟩]
      refine ⟨fun i hi => ?_, rd64_header hsize (Mem.agree_fillUp (.inl (Nat.le_refl _))), nofun,
        fun _ i _ hi => Mem.fillUp_inside hi⟩
      rw [Mem.fillUp_outside (by dsimp only [HeapCall.ask] at hi; omega), Mem.write_outside _ _ (by omega)]
    · rw [if_neg fun hand => hzero hand.2]
      exact ⟨fun i hi => Mem.write_outside _ _ (by omega), rd64_header hsize fun _ _ _ => rfl, nofun,
        fun hz => absurd (of_decide_eq_true hz) hzero⟩

theorem rtlReAllocateHeap_serves {b : Block} (hh : h.Holds live) (hb : b ∈ live) (hheader : m.rd64 (b.lo - 8) = b.size)
    (hfresh : Fresh h.chunks va) (hfits : h.off + size + 23 < 2 ^ 64) :
    NtServes h live (HeapCall.reallocate flags (some b) size).ask m (rtlReAllocateHeap va h m flags b.lo size) := by
  obtain ⟨c, -, hlo, -⟩ := hh.within b hb
  have hsize : size < 2 ^ 64 := by omega
  unfold rtlReAllocateHeap
  rw [if_neg (by omega), hheader]
  rcases ntdHeapBump_cases (m := m) hh hfresh hfits with hnull | ⟨q, h', hgiven, hq, hheld⟩
  · rw [hnull]
    exact .inl rfl
  · rw [hgiven]
    have hmin : (if b.size < size then b.size else size) = min b.size size := by
      rw [Nat.min_def]
      split <;> split <;> omega
    have hclear : q + 8 + size + 8 ≤ b.lo ∨ b.lo + b.size + 8 ≤ q + 8 :=
      (List.pairwise_cons.mp hheld.room.clear).1 b hb
    have hagree : Mem.Agree (m.write q 8 size) m b.lo (b.lo + b.size) := Mem.agree_write m size (by omega)
    have hold : Mem.SameAt m b.lo (m.write q 8 size) b.lo (min b.size size) :=
      hagree.symm.sameAt (Nat.le_refl _) (by omega)
    have hcopy := hold.trans (Mem.copyUp_sameAt (d := q + 8) (by omega))
    refine .inr ⟨q, h', ?_⟩
    dsimp only
    rw [if_neg (show ¬ q + 8 = 0 by omega), hmin]
    by_cases hzero : flags &&& heapZeroMemory ≠ 0 ∧ b.size < size
    · rw [if_pos hzero]
      have hkept : min b.size size = b.size := by omega
      rw [hkept] at hcopy ⊢
      refine ⟨_, rfl, hq, hheld, fun i hi => ?_, rd64_header (m := m) hsize fun i hlo hhi => ?_, fun c hc i hi => ?_,
        fun _ i hlo hhi => ?_⟩
      · have hi' : i < q ∨ q + 8 + size ≤ i := hi
        rw [Mem.fillUp_outside (by omega), Mem.copyUp_outside (by omega), Mem.write_outside _ _ (by omega)]
      · exact (Mem.fillUp_outside (by omega)).trans (Mem.copyUp_outside (by omega))
      · cases hc
        have hi' : i < min b.size size := hi
        rw [Mem.fillUp_outside (by omega)]
        exact hcopy i (by omega)
      · have hlo' : min b.size size ≤ i := hlo
        have hhi' : i < size := hhi
        rw [show q + 8 + i = q + 8 + b.size + (i - b.size) by omega]
        exact Mem.fillUp_inside (by omega)
    · rw [if_neg hzero]
      refine ⟨_, rfl, hq, hheld, fun i hi => ?_, rd64_header (m := m) hsize fun i hlo hhi => ?_, fun c hc => ?_,
        fun hz i hlo hhi => ?_⟩
      · have hi' : i < q ∨ q + 8 + size ≤ i := hi
        rw [Mem.copyUp_outside (by omega), Mem.write_outside _ _ (by omega)]
      · exact Mem.copyUp_outside (by omega)
      · cases hc
        exact hcopy
      · have hlo' : min b.size size ≤ i := hlo
        have hhi' : i < size := hhi
        exact absurd ⟨of_decide_eq_true hz, by omega⟩ hzero

end Bump

/-! ## Whole runs -/

section Runs

variable {residue : Nat} {w : World NtHeap} {c : HeapCall × (Nat → Nat)}

/-- The heap holds the blocks in use, and before each of them stands its size. -/
structure NtInv (w : World NtHeap) : Prop where
  holds : w.heap.Holds w.live
  header : ∀ b ∈ w.live, w.mem.rd64 (b.lo - 8) = b.size

theorem NtInv.serves (h : NtInv w) (hc : (ntHeap residue).MayCall w c) (hok : c.1.Meets w.heap) :
    NtServes w.heap w.live c.1.ask w.mem (c.1.serve c.2 w.heap w.mem) := by
  obtain ⟨call, va⟩ := c
  obtain ⟨hfresh, hold⟩ := hc
  cases call with
  | allocate flags size => exact rtlAllocateHeap_serves h.holds hfresh hok
  | reallocate flags p size =>
    cases p with
    | none => exact rtlAllocateHeap_serves h.holds hfresh hok
    | some b => exact rtlReAllocateHeap_serves h.holds (hold b rfl) (h.header b (hold b rfl)) hfresh hok

/-- Blocks other than the new one keep their bytes and their headers. -/
theorem agree_behind {h' : NtHeap} {q n : Nat} {b : Block} {m m' : Mem} (hheld : h'.Holds (⟨q + 8, n⟩ :: w.live))
    (hb : b ∈ w.live) (hmem : ∀ i, i < q ∨ q + 8 + n ≤ i → m' i = m i) :
    8 ≤ b.lo ∧ Mem.Agree m' m (b.lo - 8) b.stop := by
  obtain ⟨c, -, hlo, -⟩ := hheld.within b (List.mem_cons_of_mem _ hb)
  have hclear : q + 8 + n + 8 ≤ b.lo ∨ b.stop + 8 ≤ q + 8 := (List.pairwise_cons.mp hheld.room.clear).1 b hb
  exact ⟨by omega, fun i _ _ => hmem i (by omega)⟩

theorem NtInv.call (h : NtInv w) (hc : (ntHeap 8).MayCall w c) (hok : c.1.Meets w.heap) :
    (ntHeap 8).Right w c ∧ NtInv ((ntHeap 8).after w c) := by
  unfold Allocator.Right Allocator.after
  rcases h.serves hc hok with hnull | ⟨q, h', m', hres, hq, hheld, hmem, hheader, hkept, hzero⟩
  · rw [show (ntHeap 8).serve c w.heap w.mem = _ from hnull]
    exact ⟨⟨fun hne => absurd rfl hne, fun _ _ _ _ _ => rfl⟩, h⟩
  · rw [show (ntHeap 8).serve c w.heap w.mem = _ from hres]
    have hclear := (List.pairwise_cons.mp hheld.room.clear).1
    obtain ⟨k, hk, hlo, hhi⟩ := hheld.within _ (List.mem_cons_self ..)
    have hinside : ∃ d ∈ h'.chunks, Block.Within ⟨q + 8, c.1.ask.bytes⟩ d.lo d.stop :=
      ⟨k, hk, (Nat.le_add_right _ 8).trans hlo, hhi⟩
    refine ⟨⟨fun _ => ⟨by dsimp only; omega, hinside, fun b hb => (hclear b hb).apart, hkept, hzero⟩,
      fun b hb => (agree_behind hheld hb hmem).2.mono (by omega) (Nat.le_refl _)⟩, ?_⟩
    obtain ⟨rest, hsub, hlive⟩ := Allocator.liveAfter_new w.live c.1.ask (show q + 8 ≠ 0 by omega)
    dsimp only
    rw [hlive]
    refine ⟨hheld.drop (hsub.cons_cons _), fun b hb => ?_⟩
    rcases List.mem_cons.mp hb with rfl | hb
    · exact hheader
    · obtain ⟨hpos, hagree⟩ := agree_behind hheld (hsub.subset hb) hmem
      refine (Mem.rd64_congr (hagree.mono (Nat.le_refl _) ?_)).trans (h.header b (hsub.subset hb))
      have hstop : b.lo ≤ b.stop := Nat.le_add_right _ _
      omega

theorem ntHeap_sound : (ntHeap 8).Sound fun h c => c.1.Meets h := by
  refine Allocator.sound_of_invariant NtInv ?_ (fun w c h hc hok => h.call hc hok) ?_ ?_
  · rintro ⟨heap, mem, live⟩ ⟨hheap, hlive⟩
    cases hheap
    cases hlive
    exact ⟨⟨rfl, rfl, Nat.le_refl _, fun hne => absurd rfl hne, .empty, nofun⟩, nofun⟩
  · exact fun w b h => ⟨h.holds.drop List.erase_sublist, fun c hc => h.header c (List.mem_of_mem_erase hc)⟩
  · intro w b i v h hb hlo hhi
    refine ⟨h.holds, fun c hc => (Mem.rd64_congr fun j hj hj' => Mem.put_other _ _ ?_).trans (h.header c hc)⟩
    -- no byte of a block is in a header
    obtain ⟨k, -, hk, -⟩ := h.holds.within c hc
    by_cases hbc : b = c
    · subst hbc
      omega
    · have hclear : b.stop + 8 ≤ c.lo ∨ c.stop + 8 ≤ b.lo := h.holds.room.apart hb hc hbc
      have hstop : c.lo ≤ c.stop := Nat.le_add_right _ _
      omega

end Runs

/-- What the callers of the three heaps can rely on, over every run whose calls meet the condition. The blocks of
`ntdll` are all 8 bytes off the alignment that those of the others have. -/
theorem allocators_sound (g : Arena Ucrt.gHeapSize) (a : Arena Combase.comHeapSize) :
    (Ucrt.ucrtHeap g).Sound (fun off c => c.Meets off) ∧ (Combase.taskHeap a).Sound (fun off c => c.Meets off) ∧
      (ntHeap 8).Sound fun h c => c.1.Meets h :=
  ⟨Ucrt.ucrtHeap_sound g, Combase.taskHeap_sound a, ntHeap_sound⟩

def arenaAt (cap : Nat) : Arena cap := ⟨0x10000, by decide, rfl⟩

/-- A kernel that gives the pages from 0x100000 on. -/
def givesPages (size : Nat) : Nat := if size = 0 then 0 else 0x100000

theorem givesPages_fresh : Fresh [] givesPages := by
  intro size h
  have hpos : size ≠ 0 := fun h0 => h (by rw [h0]; rfl)
  unfold givesPages
  rw [if_neg hpos]
  exact ⟨Nat.pos_of_ne_zero hpos, rfl, nofun⟩

/-- A size that wraps around when it is rounded, a product that wraps around, a sum with the offset that does, a
reallocation that copies nothing, a pointer that is not aligned, and a size that wraps around with its header. -/
theorem allocators_wrap :
    let ucrt := Ucrt.ucrtHeap (arenaAt _)
    let task := Combase.taskHeap (arenaAt _)
    ¬ ucrt.Right ⟨0, fun _ => 0, []⟩ (.malloc (2 ^ 64 - 1)) ∧
    ¬ ucrt.Right ⟨0, fun _ => 0, []⟩ (.calloc (2 ^ 32) (2 ^ 32)) ∧
    ¬ task.Sound (fun _ c => c.ask.bytes < 2 ^ 64) ∧
    ¬ ucrt.Sound (fun off c => off + c.ask.bytes + 15 < 2 ^ 64) ∧
    ¬ (ntHeap 0).Sound (fun _ c => c.1.ask.bytes < 2 ^ 63) ∧
    ¬ (ntHeap 8).Sound (fun _ c => c.1.ask.bytes < 2 ^ 64) := by
  intro ucrt task
  have hnt : ∀ residue, (ntHeap residue).Start ⟨⟨0, 0, 0, []⟩, fun _ => 0, []⟩ := fun _ => ⟨rfl, rfl⟩
  refine ⟨fun h => ?_, fun h => ?_, fun h => ?_, fun h => ?_, fun h => ?_, fun h => ?_⟩
  · exact absurd (h.1 (by decide)).inside.2 (by decide)
  · exact absurd (h.1 (by decide)).inside.2 (by decide)
  · have hstart : Reach task.Start task.Step (Allocator.Guard fun _ c => c.ask.bytes < 2 ^ 64)
        ⟨0, fun _ => 0, []⟩ := .start ⟨rfl, rfl⟩
    have hone := Allocator.reach_call (c := .alloc 16) hstart (by decide) ⟨trivial, nofun⟩
    have hcall := h _ hone (.alloc (2 ^ 64 - 16)) ⟨trivial, nofun⟩ (by decide)
    exact absurd (hcall.1 (by decide)).inside.2 (by decide)
  · have hstart : Reach ucrt.Start ucrt.Step (Allocator.Guard fun off c => off + c.ask.bytes + 15 < 2 ^ 64)
        ⟨0, fun _ => 0, []⟩ := .start ⟨rfl, rfl⟩
    have hone := Allocator.reach_call (c := .malloc 1) hstart (by decide) ⟨trivial, nofun⟩
    have hseven := Allocator.reach_store (b := ⟨0x10000, 1⟩) hone 0x10000 7 (List.mem_singleton.mpr rfl)
      (by decide) (by decide)
    have hcall := h _ hseven (.realloc (some ⟨0x10000, 1⟩) 1)
      ⟨trivial, fun b hb => List.mem_singleton.mpr (Option.some.inj hb).symm⟩ (by decide)
    exact absurd ((hcall.1 (by decide)).kept _ rfl 0 (by decide)) (by decide)
  · have hcall := h _ (.start (hnt 0)) (.allocate 0 16, givesPages) ⟨givesPages_fresh, nofun⟩ (by decide)
    exact absurd (hcall.1 (by decide)).aligned (by decide)
  · have hcall := h _ (.start (hnt 8)) (.allocate 0 (2 ^ 64 - 1), givesPages) ⟨givesPages_fresh, nofun⟩ (by decide)
    obtain ⟨k, hk, -, hhi⟩ := (hcall.1 (by decide)).inside
    have hchunk : k = ⟨0x100000, 0x200000⟩ := List.mem_singleton.mp hk
    subst hchunk
    exact absurd hhi (by decide)

end MeuOS.Ntdll
