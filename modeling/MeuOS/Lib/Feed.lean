import Mathlib.Data.List.Basic

/-! A machine that is fed a stream and puts out something now and then. Where it is in step with
the frames of the stream, it puts out what each frame says. -/
namespace MeuOS.Lib

variable {σ β ε φ : Type}

/-- The state a list leads to, and what is put out on the way. -/
def feed (step : σ → β → σ × Option ε) : List β → σ → σ × List ε
  | [], s => (s, [])
  | b :: l, s =>
      let r := step s b
      let rest := feed step l r.1
      (rest.1, r.2.toList ++ rest.2)

variable {step : σ → β → σ × Option ε}

theorem feed_append (l l' : List β) (s : σ) :
    feed step (l ++ l') s =
      ((feed step l' (feed step l s).1).1, (feed step l s).2 ++ (feed step l' (feed step l s).1).2) := by
  induction l generalizing s with
  | nil => rfl
  | cons b l ih => simp only [List.cons_append, feed, ih, List.append_assoc]

/-- Frame after frame, each taken whole. -/
theorem feed_frames {InStep : σ → Prop} {bytes : φ → List β} {meant : φ → ε}
    (hframe : ∀ f s, InStep s → InStep (feed step (bytes f) s).1 ∧ (feed step (bytes f) s).2 = [meant f])
    (fs : List φ) {s : σ} (hs : InStep s) :
    InStep (feed step (fs.flatMap bytes) s).1 ∧ (feed step (fs.flatMap bytes) s).2 = fs.map meant := by
  induction fs generalizing s with
  | nil => exact ⟨hs, rfl⟩
  | cons f fs ih =>
    obtain ⟨hkept, hout⟩ := hframe f s hs
    obtain ⟨hkept', hout'⟩ := ih hkept
    rw [List.flatMap_cons, feed_append]
    exact ⟨hkept', by rw [hout, hout', List.map_cons, List.singleton_append]⟩

end MeuOS.Lib
