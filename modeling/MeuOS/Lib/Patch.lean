import Mathlib.Data.List.Basic
import Mathlib.Data.Nat.ModEq
import MeuOS.Lib.Mem

/-! Adding a number to words of a memory. A place is an offset and a width; the words are
where the places are from a base, so that a patched region can be moved. -/
namespace MeuOS.Lib

structure Place where
  off : Nat
  width : Nat
deriving DecidableEq, Repr

namespace Place

def Apart (s t : Place) : Prop := s.off + s.width ≤ t.off ∨ t.off + t.width ≤ s.off

def add (b d : Nat) (m : Mem) (s : Place) : Mem :=
  m.write (b + s.off) s.width ((m.read (b + s.off) s.width + d) % 256 ^ s.width)

def addAll (b d : Nat) (ss : List Place) (m : Mem) : Mem := ss.foldl (add b d) m

variable {b c d d' n : Nat} {m m' : Mem} {s t : Place} {ss : List Place}

theorem addAll_cons : addAll b d (s :: ss) m = addAll b d ss (add b d m s) := rfl

theorem addAll_append (ts : List Place) : addAll b d (ss ++ ts) m = addAll b d ts (addAll b d ss m) :=
  List.foldl_append ..

theorem read_add : (add b d m s).read (b + s.off) s.width =
    (m.read (b + s.off) s.width + d) % 256 ^ s.width := by
  unfold add
  rw [Mem.read_write_same, Nat.mod_mod]

theorem add_outside {a : Nat} (h : a < b + s.off ∨ b + s.off + s.width ≤ a) : add b d m s a = m a :=
  Mem.write_outside _ _ h

theorem read_add_apart (h : Apart s t) : (add b d m s).read (b + t.off) t.width =
    m.read (b + t.off) t.width := by
  apply Mem.read_write_of_disjoint
  unfold Apart at h
  omega

theorem addAll_outside {a : Nat} (h : ∀ s ∈ ss, a < b + s.off ∨ b + s.off + s.width ≤ a) :
    addAll b d ss m a = m a := by
  induction ss generalizing m with
  | nil => rfl
  | cons s ss ih =>
    rw [addAll_cons, ih fun t ht => h t (List.mem_cons_of_mem _ ht), add_outside (h s (List.mem_cons_self ..))]

/-- The patched region seen from its base. -/
theorem addAll_agree {lo hi : Nat} (h : ∀ s ∈ ss, s.off + s.width ≤ lo ∨ hi ≤ s.off) :
    Mem.Agree ((addAll b d ss m).shift b) (m.shift b) lo hi := by
  intro o hlo hhi
  apply addAll_outside
  intro s hs
  have := h s hs
  omega

theorem read_addAll_apart (h : ∀ s ∈ ss, Apart s t) : (addAll b d ss m).read (b + t.off) t.width =
    m.read (b + t.off) t.width := by
  induction ss generalizing m with
  | nil => rfl
  | cons s ss ih =>
    rw [addAll_cons, ih fun q hq => h q (List.mem_cons_of_mem _ hq),
      read_add_apart (h s (List.mem_cons_self ..))]

/-- Every word has the number added once. -/
theorem read_addAll (hapart : ss.Pairwise Apart) (hs : s ∈ ss) :
    (addAll b d ss m).read (b + s.off) s.width = (m.read (b + s.off) s.width + d) % 256 ^ s.width := by
  induction ss generalizing m with
  | nil => cases hs
  | cons t ss ih =>
    obtain ⟨hfirst, hrest⟩ := List.pairwise_cons.mp hapart
    rw [addAll_cons]
    rcases List.mem_cons.mp hs with rfl | hs
    · rw [read_addAll_apart fun q hq => (hfirst q hq).symm, read_add]
    · rw [ih hrest hs, read_add_apart (hfirst s hs)]

/-- A memory is known from its words at the places and its bytes elsewhere. -/
theorem ext_words (b : Nat) (ss : List Place)
    (hwords : ∀ s ∈ ss, m.read (b + s.off) s.width = m'.read (b + s.off) s.width)
    (hbytes : ∀ a, (∀ s ∈ ss, a < b + s.off ∨ b + s.off + s.width ≤ a) → m a = m' a) : m = m' := by
  funext a
  by_cases h : ∀ s ∈ ss, a < b + s.off ∨ b + s.off + s.width ≤ a
  · exact hbytes a h
  · push Not at h
    obtain ⟨s, hs, hlo, hhi⟩ := h
    have hbyte := Mem.le_read m (b + s.off) s.width (i := a - (b + s.off)) (by omega)
    rw [hwords s hs, Mem.le_read m' (b + s.off) s.width (by omega)] at hbyte
    rw [Nat.add_sub_cancel' hlo] at hbyte
    exact hbyte.symm

/-- Adding twice is adding the sum. -/
theorem addAll_addAll (hapart : ss.Pairwise Apart) :
    addAll b d' ss (addAll b d ss m) = addAll b (d + d') ss m := by
  apply ext_words b ss
  · intro s hs
    rw [read_addAll hapart hs, read_addAll hapart hs, read_addAll hapart hs, Nat.mod_add_mod,
      Nat.add_assoc]
  · intro a ha
    rw [addAll_outside ha, addAll_outside ha, addAll_outside ha]

/-- Only what the number is to each width counts. -/
theorem addAll_congr (hapart : ss.Pairwise Apart) (h : ∀ s ∈ ss, d ≡ d' [MOD 256 ^ s.width]) :
    addAll b d ss m = addAll b d' ss m := by
  apply ext_words b ss
  · intro s hs
    rw [read_addAll hapart hs, read_addAll hapart hs]
    exact Nat.ModEq.add_left _ (h s hs)
  · intro a ha
    rw [addAll_outside ha, addAll_outside ha]

theorem addAll_zero (hapart : ss.Pairwise Apart) : addAll b 0 ss m = m := by
  apply ext_words b ss
  · intro s hs
    rw [read_addAll hapart hs, Nat.add_zero, Nat.mod_eq_of_lt (Mem.read_lt ..)]
  · intro a ha
    rw [addAll_outside ha]

theorem add_move (h : Mem.SameAt m b m' c n) (hin : s.off + s.width ≤ n) :
    Mem.SameAt (add b d m s) b (add c d m' s) c n := by
  intro o ho
  have hread : m'.read (c + s.off) s.width = m.read (b + s.off) s.width := h.read hin
  by_cases hcov : s.off ≤ o ∧ o < s.off + s.width
  · unfold add Mem.write
    rw [Mem.blit_inside _ _ (by omega) (by omega), Mem.blit_inside _ _ (by omega) (by omega), hread,
      Nat.add_sub_add_left, Nat.add_sub_add_left]
  · rw [add_outside (by omega), add_outside (by omega)]
    exact h o ho

/-- A region is patched the same wherever it is. -/
theorem addAll_move (h : Mem.SameAt m b m' c n) (hin : ∀ s ∈ ss, s.off + s.width ≤ n) :
    Mem.SameAt (addAll b d ss m) b (addAll c d ss m') c n := by
  induction ss generalizing m m' with
  | nil => exact h
  | cons s ss ih =>
    exact ih (add_move h (hin s (List.mem_cons_self ..))) fun t ht => hin t (List.mem_cons_of_mem _ ht)

end Place

/-! Stores into a memory, one after the other: which bytes they leave alone, and what is read where
one of them wrote. -/

structure Store where
  off : Nat
  width : Nat
  value : Nat
deriving DecidableEq, Repr

namespace Store

def place (s : Store) : Place := ⟨s.off, s.width⟩

/-- The offsets are from `b`. -/
def run (b : Nat) (l : List Store) (m : Mem) : Mem :=
  l.foldl (fun m s => m.write (b + s.off) s.width s.value) m

/-- Nothing is stored in `[lo, hi)`. -/
def Clear (l : List Store) (lo hi : Nat) : Prop := ∀ s ∈ l, s.off + s.width ≤ lo ∨ hi ≤ s.off

/-- Everything is stored in `[lo, hi)`. -/
def Inside (l : List Store) (lo hi : Nat) : Prop := ∀ s ∈ l, lo ≤ s.off ∧ s.off + s.width ≤ hi

variable {b lo hi off n : Nat} {m : Mem} {s : Store} {l l' : List Store}

theorem run_append : run b (l ++ l') m = run b l' (run b l m) := List.foldl_append ..

theorem run_cons : run b (s :: l) m = run b l (m.write (b + s.off) s.width s.value) := rfl

theorem clear_append : Clear (l ++ l') lo hi ↔ Clear l lo hi ∧ Clear l' lo hi := List.forall_mem_append

theorem Inside.clear (h : Inside l lo hi) {lo' hi' : Nat} (hout : hi ≤ lo' ∨ hi' ≤ lo) : Clear l lo' hi' := by
  intro s hs
  have := h s hs
  omega

theorem Inside.mono (h : Inside l lo hi) {lo' hi' : Nat} (hlo : lo' ≤ lo) (hhi : hi ≤ hi') :
    Inside l lo' hi' := by
  intro s hs
  have := h s hs
  omega

theorem run_agree (h : Clear l lo hi) : Mem.Agree (run b l m) m (b + lo) (b + hi) := by
  induction l generalizing m with
  | nil => exact fun _ _ _ => rfl
  | cons s l ih =>
    have hout := h s List.mem_cons_self
    have hrest := ih (m := m.write (b + s.off) s.width s.value) fun t ht => h t (List.mem_cons_of_mem _ ht)
    exact hrest.trans (Mem.agree_write _ _ (by omega))

theorem read_run_clear (h : Clear l off (off + n)) : (run b l m).read (b + off) n = m.read (b + off) n :=
  Mem.read_congr (by rw [Nat.add_assoc]; exact run_agree h)

/-- Where stores lie apart, each is read back. -/
theorem read_run_mem (hapart : (l.map place).Pairwise Place.Apart) (hs : s ∈ l) :
    (run b l m).read (b + s.off) s.width = s.value % 256 ^ s.width := by
  induction l generalizing m with
  | nil => cases hs
  | cons t l ih =>
    obtain ⟨hfirst, hrest⟩ := List.pairwise_cons.1 hapart
    rcases List.mem_cons.1 hs with rfl | hs
    · have hclear : Clear l s.off (s.off + s.width) := by
        intro q hq
        have := hfirst _ (List.mem_map_of_mem hq)
        unfold Place.Apart place at this
        dsimp only at this
        omega
      exact (read_run_clear hclear).trans (Mem.read_write_same ..)
    · exact ih hrest hs

end Store

end MeuOS.Lib
