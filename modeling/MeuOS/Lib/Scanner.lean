import Mathlib.Init

/-! Scanners of a text: each looks at the characters from a position on and stops at the first one
that is not right. What it was looking for and how far it looked compose. -/
namespace MeuOS.Lib

/-- From a position, what was found, if all was right, and the position after the last character
that was looked at. -/
abbrev Scanner (α : Type) := Nat → Option α × Nat

variable {α β : Type}

def Scanner.bind (x : Scanner α) (f : α → Scanner β) : Scanner β := fun p =>
  match x p with
  | (some a, p') => f a p'
  | (none, p') => (none, p')

def Scanner.pure (a : α) : Scanner α := fun p => (some a, p)

/-- `x` looks at `n` characters from `p` on and finds what `post` is true of, or it stops at the
first one that is not `ok`, and looks at as many more as `extra` gives there. -/
def Scans (ok : Nat → Prop) (extra : Nat → Nat) (x : Scanner α) (p n : Nat) (post : α → Prop) : Prop :=
  (∃ a, x p = (some a, p + n) ∧ (∀ i < n, ok (p + i)) ∧ post a) ∨
    ∃ j < n, x p = (none, p + j + 1 + extra (p + j)) ∧ (∀ i < j, ok (p + i)) ∧ ¬ok (p + j)

section Rules

variable {ok : Nat → Prop} {extra : Nat → Nat} {x : Scanner α} {f : α → Scanner β} {p n n' : Nat}
  {post : α → Prop} {post' : β → Prop}

theorem Scans.bind (hx : Scans ok extra x p n post)
    (hf : ∀ a, post a → Scans ok extra (f a) (p + n) n' post') :
    Scans ok extra (x.bind f) p (n + n') post' := by
  rcases hx with ⟨a, hxa, hok, hpost⟩ | ⟨j, hj, hxj, hok, hbad⟩
  · have hbind : x.bind f p = f a (p + n) := by
      unfold Scanner.bind
      rw [hxa]
    have hjoin : ∀ k, (∀ i < k, ok (p + n + i)) → ∀ i < n + k, ok (p + i) := by
      intro k hk i hi
      rcases Nat.lt_or_ge i n with hlt | hge
      · exact hok i hlt
      · have hnext := hk (i - n) (by omega)
        rwa [show p + n + (i - n) = p + i by omega] at hnext
    rcases hf a hpost with ⟨b, hfb, hokb, hpostb⟩ | ⟨k, hk, hfk, hokk, hbad⟩
    · refine .inl ⟨b, ?_, hjoin n' hokb, hpostb⟩
      rw [hbind, hfb, Nat.add_assoc]
    · refine .inr ⟨n + k, by omega, ?_, hjoin k hokk, ?_⟩
      · rw [hbind, hfk, Nat.add_assoc p n k]
      · rwa [← Nat.add_assoc]
  · refine .inr ⟨j, by omega, ?_, hok, hbad⟩
    unfold Scanner.bind
    rw [hxj]

theorem Scans.pure {a : α} (h : post a) : Scans ok extra (Scanner.pure a) p 0 post :=
  .inl ⟨a, rfl, fun _ hi => absurd hi (Nat.not_lt_zero _), h⟩

theorem Scans.mono {post₂ : α → Prop} (hx : Scans ok extra x p n post) (hpost : ∀ a, post a → post₂ a) :
    Scans ok extra x p n post₂ := by
  rcases hx with ⟨a, hxa, hok, ha⟩ | hstop
  · exact .inl ⟨a, hxa, hok, hpost a ha⟩
  · exact .inr hstop

end Rules

end MeuOS.Lib
