import MeuOS.Lib.CString
import Mathlib.Data.List.Induction
import Mathlib.Data.List.Lex

/-! Binary search over what a comparison says of each index, the comparison of strings, and the last of the
highest in a list. -/
namespace MeuOS.Lib

/-- The search in `[lo, hi)`: `cmp` compares the element at an index with what is searched. -/
def bsearch (cmp : Nat → Ordering) (lo hi : Nat) : Option Nat :=
  if lo < hi then
    let mid := (lo + hi) / 2
    match cmp mid with
    | .eq => some mid
    | .lt => bsearch cmp (mid + 1) hi
    | .gt => bsearch cmp lo mid
  else none
termination_by hi - lo

section Search

variable {cmp : Nat → Ordering} {lo hi i : Nat}

theorem bsearch_lt (h : bsearch cmp lo hi = some i) : i < hi := by
  fun_induction bsearch cmp lo hi with
  | case1 lo hi hlt mid heq =>
    have hmid : mid = i := Option.some.inj h
    omega
  | case2 lo hi hlt mid heq ih => exact ih h
  | case3 lo hi hlt mid heq ih =>
    have := ih h
    omega
  | case4 lo hi hle => cases h

theorem bsearch_found (h : bsearch cmp lo hi = some i) : cmp i = .eq := by
  fun_induction bsearch cmp lo hi with
  | case1 lo hi hlt mid heq =>
    have hmid : mid = i := Option.some.inj h
    rw [← hmid]
    exact heq
  | case2 lo hi hlt mid heq ih => exact ih h
  | case3 lo hi hlt mid heq ih => exact ih h
  | case4 lo hi hle => cases h

/-- An element is found if all in front of it are smaller and all behind it are larger. -/
theorem bsearch_eq (hlo : lo ≤ i) (hhi : i < hi) (hbefore : ∀ k < i, cmp k = .lt) (hat : cmp i = .eq)
    (hbehind : ∀ k, i < k → k < hi → cmp k = .gt) : bsearch cmp lo hi = some i := by
  fun_induction bsearch cmp lo hi with
  | case1 lo hi hlt mid heq =>
    rcases Nat.lt_trichotomy mid i with hmid | hmid | hmid
    · rw [hbefore mid hmid] at heq
      cases heq
    · rw [hmid]
    · rw [hbehind mid hmid (by omega)] at heq
      cases heq
  | case2 lo hi hlt mid heq ih =>
    refine ih (Nat.succ_le_of_lt (Nat.lt_of_not_le fun hle => ?_)) hhi hbehind
    rcases Nat.lt_or_eq_of_le hle with hmid | hmid
    · rw [hbehind mid hmid (by omega)] at heq
      cases heq
    · rw [← hmid, hat] at heq
      cases heq
  | case3 lo hi hlt mid heq ih =>
    refine ih hlo (Nat.lt_of_not_le fun hle => ?_) fun k hk hlt => hbehind k hk (by omega)
    rcases Nat.lt_or_eq_of_le hle with hmid | hmid
    · rw [hbefore mid hmid] at heq
      cases heq
    · rw [hmid, hat] at heq
      cases heq
  | case4 lo hi hle => omega

end Search

namespace Mem

/-- `strcmp` of a string in memory and one of the caller. -/
def strcmp (m : Mem) (a : Nat) : List UInt8 → Ordering
  | [] => if m a = 0 then .eq else .gt
  | c :: cs => if m a < c then .lt else if c < m a then .gt else strcmp m (a + 1) cs

variable {m : Mem} {a : Nat} {l key : List UInt8}

theorem strcmp_self (h : m.Str a l) : m.strcmp a l = .eq := by
  induction l generalizing a with
  | nil =>
    unfold strcmp
    rw [if_pos (str_nil.1 h)]
  | cons c cs ih =>
    obtain ⟨hfirst, hrest⟩ := str_cons.1 h
    unfold strcmp
    rw [hfirst, if_neg (UInt8.lt_irrefl c), if_neg (UInt8.lt_irrefl c)]
    exact ih hrest

theorem strcmp_lt (h : m.Str a l) (hkey : 0 ∉ key) (hlt : l < key) : m.strcmp a key = .lt := by
  induction l generalizing a key with
  | nil =>
    cases key with
    | nil => exact absurd hlt (List.not_lt_nil _)
    | cons c cs =>
      have hzero : c ≠ 0 := fun hc => hkey (hc ▸ List.mem_cons_self)
      unfold strcmp
      rw [str_nil.1 h, if_pos (UInt8.pos_iff_ne_zero.2 hzero)]
  | cons x xs ih =>
    obtain ⟨hfirst, hrest⟩ := str_cons.1 h
    cases key with
    | nil => exact absurd hlt (List.not_lt_nil _)
    | cons c cs =>
      unfold strcmp
      rw [hfirst]
      rcases List.cons_lt_cons_iff.1 hlt with hless | ⟨rfl, hless⟩
      · rw [if_pos hless]
      · rw [if_neg (UInt8.lt_irrefl x), if_neg (UInt8.lt_irrefl x)]
        exact ih hrest (fun hmem => hkey (List.mem_cons_of_mem _ hmem)) hless

theorem strcmp_gt (h : m.Str a l) (hl : 0 ∉ l) (hlt : key < l) : m.strcmp a key = .gt := by
  induction key generalizing a l with
  | nil =>
    cases l with
    | nil => exact absurd hlt (List.not_lt_nil _)
    | cons x xs =>
      have hzero : x ≠ 0 := fun hx => hl (hx ▸ List.mem_cons_self)
      unfold strcmp
      rw [(str_cons.1 h).1, if_neg hzero]
  | cons c cs ih =>
    cases l with
    | nil => exact absurd hlt (List.not_lt_nil _)
    | cons x xs =>
      obtain ⟨hfirst, hrest⟩ := str_cons.1 h
      unfold strcmp
      rw [hfirst]
      rcases List.cons_lt_cons_iff.1 hlt with hless | ⟨rfl, hless⟩
      · rw [if_neg (UInt8.lt_asymm hless), if_pos hless]
      · rw [if_neg (UInt8.lt_irrefl c), if_neg (UInt8.lt_irrefl c)]
        exact ih hrest (fun hmem => hl (List.mem_cons_of_mem _ hmem)) hless

end Mem

section Foremost

variable {α : Type} {height : α → Nat} {l : List α} {a : α}

/-- None in front of it is higher, and those behind it are lower. -/
def Foremost (height : α → Nat) (l : List α) (a : α) : Prop :=
  ∃ pre post, l = pre ++ a :: post ∧ (∀ b ∈ pre, height b ≤ height a) ∧ ∀ b ∈ post, height b < height a

/-- What is at least as high as the best so far takes its place. -/
def takeHigher (height : α → Nat) (best : Option α) (a : α) : Option α :=
  if best.elim 0 height ≤ height a then some a else best

theorem foremost_le (h : Foremost height l a) {b : α} (hb : b ∈ l) : height b ≤ height a := by
  obtain ⟨pre, post, rfl, hpre, hpost⟩ := h
  rcases List.mem_append.1 hb with hb | hb
  · exact hpre b hb
  rcases List.mem_cons.1 hb with rfl | hb
  · exact Nat.le_refl _
  · exact Nat.le_of_lt (hpost b hb)

/-- In two orders the same is foremost. -/
theorem foremost_unique {b : α} (h : Foremost height l a) (h' : Foremost height l b) : a = b := by
  obtain ⟨pre, post, rfl, hpre, hpost⟩ := h
  obtain ⟨pre', post', heq, hpre', hpost'⟩ := h'
  rcases List.append_eq_append_iff.1 heq with ⟨mid, rfl, hmid⟩ | ⟨mid, rfl, hmid⟩
  · cases mid with
    | nil => exact (List.cons.inj hmid).1
    | cons c mid =>
      obtain ⟨rfl, rfl⟩ := List.cons.inj hmid
      have hlow := hpost b (List.mem_append_right _ List.mem_cons_self)
      have hhigh := hpre' a (List.mem_append_right _ List.mem_cons_self)
      omega
  · cases mid with
    | nil => exact (List.cons.inj hmid).1.symm
    | cons c mid =>
      obtain ⟨rfl, rfl⟩ := List.cons.inj hmid
      have hlow := hpost' a (List.mem_append_right _ List.mem_cons_self)
      have hhigh := hpre b (List.mem_append_right _ List.mem_cons_self)
      omega

/-- Going through a list, the last of the highest is found. -/
theorem foldl_takeHigher (height : α → Nat) (l : List α) :
    (l.foldl (takeHigher height) none = none ∧ l = []) ∨
      ∃ a, l.foldl (takeHigher height) none = some a ∧ Foremost height l a := by
  induction l using List.reverseRecOn with
  | nil => exact .inl ⟨rfl, rfl⟩
  | append_singleton l x ih =>
    refine .inr ?_
    rw [List.foldl_append, List.foldl_cons, List.foldl_nil]
    rcases ih with ⟨hnone, rfl⟩ | ⟨a, hsome, hfore⟩
    · exact ⟨x, by rw [hnone]; rfl, [], [], rfl, nofun, nofun⟩
    rw [hsome]
    by_cases hle : height a ≤ height x
    · exact ⟨x, if_pos hle, l, [], rfl, fun b hb => Nat.le_trans (foremost_le hfore hb) hle, nofun⟩
    · obtain ⟨pre, post, rfl, hpre, hpost⟩ := hfore
      refine ⟨a, if_neg hle, pre, post ++ [x], List.append_assoc .., hpre, fun b hb => ?_⟩
      rcases List.mem_append.1 hb with hb | hb
      · exact hpost b hb
      · rw [List.mem_singleton.1 hb]
        exact Nat.lt_of_not_le hle

end Foremost

end MeuOS.Lib
