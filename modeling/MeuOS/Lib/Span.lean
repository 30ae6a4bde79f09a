import Mathlib.Data.List.Basic

/-! Records laid end to end. Where a record starts is a number, how long it is is read
off at its start, and a span from `lo` to `hi` is the list of the starts in between. -/
namespace MeuOS.Lib

def Span (len : Nat → Nat) : Nat → List Nat → Nat → Prop
  | lo, [], hi => lo = hi
  | lo, a :: as, hi => a = lo ∧ 0 < len a ∧ Span len (a + len a) as hi

variable {len len' : Nat → Nat} {as bs : List Nat} {lo hi : Nat}

theorem span_le (h : Span len lo as hi) : lo ≤ hi := by
  induction as generalizing lo with
  | nil => exact Nat.le_of_eq h
  | cons a as ih =>
    obtain ⟨rfl, -, hrest⟩ := h
    have := ih hrest
    omega

theorem span_mem (h : Span len lo as hi) {a : Nat} (ha : a ∈ as) :
    lo ≤ a ∧ 0 < len a ∧ a + len a ≤ hi := by
  induction as generalizing lo with
  | nil => cases ha
  | cons b as ih =>
    obtain ⟨rfl, hpos, hrest⟩ := h
    rcases List.mem_cons.mp ha with rfl | ha
    · exact ⟨Nat.le_refl _, hpos, span_le hrest⟩
    · have := ih hrest ha
      exact ⟨by omega, this.2⟩

theorem span_append : Span len lo (as ++ bs) hi ↔ ∃ mid, Span len lo as mid ∧ Span len mid bs hi := by
  induction as generalizing lo with
  | nil => simp [Span]
  | cons a as ih =>
    simp only [List.cons_append, Span, ih]
    constructor
    · rintro ⟨rfl, hpos, mid, hl, hr⟩
      exact ⟨mid, ⟨rfl, hpos, hl⟩, hr⟩
    · rintro ⟨mid, ⟨rfl, hpos, hl⟩, hr⟩
      exact ⟨rfl, hpos, mid, hl, hr⟩

theorem span_congr (h : Span len lo as hi) (hlen : ∀ a ∈ as, len' a = len a) :
    Span len' lo as hi := by
  induction as generalizing lo with
  | nil => exact h
  | cons a as ih =>
    obtain ⟨rfl, hpos, hrest⟩ := h
    have heq := hlen a (List.mem_cons_self ..)
    refine ⟨rfl, by omega, ?_⟩
    rw [heq]
    exact ih hrest fun b hb => hlen b (List.mem_cons_of_mem _ hb)

/-- Two records of a span are the same, or one ends before the other starts. -/
theorem span_apart (h : Span len lo as hi) {a b : Nat} (ha : a ∈ as) (hb : b ∈ as) :
    a = b ∨ a + len a ≤ b ∨ b + len b ≤ a := by
  induction as generalizing lo with
  | nil => cases ha
  | cons c as ih =>
    obtain ⟨rfl, -, hrest⟩ := h
    rcases List.mem_cons.mp ha with rfl | ha' <;> rcases List.mem_cons.mp hb with rfl | hb'
    · exact .inl rfl
    · exact .inr (.inl (span_mem hrest hb').1)
    · exact .inr (.inr (span_mem hrest ha').1)
    · exact ih hrest ha' hb'

theorem span_length {k : Nat} (h : Span len lo as hi) (hmin : ∀ a ∈ as, k ≤ len a) :
    lo + k * as.length ≤ hi := by
  induction as generalizing lo with
  | nil => simpa using span_le h
  | cons a as ih =>
    obtain ⟨rfl, -, hrest⟩ := h
    have hhead := hmin a (List.mem_cons_self ..)
    have htail := ih hrest fun b hb => hmin b (List.mem_cons_of_mem _ hb)
    rw [List.length_cons, Nat.mul_succ]
    omega

end MeuOS.Lib
