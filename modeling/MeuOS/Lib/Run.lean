import Mathlib.Init

/-! Guarded runs of a labelled transition system, and the one induction every
safety result over whole runs goes through. -/
namespace MeuOS.Lib

variable {σ α : Type}

/-- States reached from `init` by steps whose label meets `guard` in the state it is
taken from. -/
inductive Reach (init : σ → Prop) (step : σ → α → σ → Prop) (guard : σ → α → Prop) : σ → Prop
  | start {s : σ} (h : init s) : Reach init step guard s
  | step {s s' : σ} {a : α} (h : Reach init step guard s) (hguard : guard s a)
      (hstep : step s a s') : Reach init step guard s'

variable {init : σ → Prop} {step : σ → α → σ → Prop} {guard : σ → α → Prop}

/-- An invariant holds initially and is kept by every guarded step. -/
theorem Reach.invariant {Inv : σ → Prop} {s : σ} (h : Reach init step guard s)
    (hinit : ∀ s, init s → Inv s)
    (hstep : ∀ s a s', Inv s → guard s a → step s a s' → Inv s') : Inv s := by
  induction h with
  | start h => exact hinit _ h
  | step _ hguard hs ih => exact hstep _ _ _ ih hguard hs

theorem Reach.mono {guard' : σ → α → Prop} {s : σ} (h : Reach init step guard s)
    (hguard : ∀ s a, guard s a → guard' s a) : Reach init step guard' s := by
  induction h with
  | start h => exact .start h
  | step _ hmeets hs ih => exact .step ih (hguard _ _ hmeets) hs

/-- What one step does to a stack. -/
inductive StackMove {τ : Type} : List τ → List τ → Prop
  | keep (l : List τ) : StackMove l l
  | push (x : τ) (l : List τ) : StackMove l (x :: l)
  | pop (x : τ) (l : List τ) : StackMove (x :: l) l
  | clear (l : List τ) : StackMove l []

/-- A stack that never gets lower than `base` before a step still has `base` at the bottom. -/
theorem Reach.stack_bottom {τ : Type} {stack : σ → List τ} {base : List τ} {s : σ}
    (h : Reach init step guard s) (hinit : ∀ s, init s → base <:+ stack s)
    (hmove : ∀ s a s', step s a s' → StackMove (stack s) (stack s'))
    (hguard : ∀ s a, guard s a → base.length ≤ (stack s).length) :
    (stack s).length < base.length ∨ base <:+ stack s := by
  induction h with
  | start h => exact .inr (hinit _ h)
  | step _ hmeets hstep ih =>
    obtain ⟨top, htop⟩ := ih.resolve_left (Nat.not_lt.2 (hguard _ _ hmeets))
    have hm := hmove _ _ _ hstep
    generalize stack _ = l at htop hm
    generalize stack _ = l' at hm ⊢
    cases hm with
    | keep => exact .inr ⟨top, htop⟩
    | push x => exact .inr ⟨x :: top, by rw [List.cons_append, htop]⟩
    | clear =>
      cases base with
      | nil => exact .inr List.nil_suffix
      | cons y base => exact .inl (Nat.succ_pos _)
    | pop x =>
      cases top with
      | nil =>
        subst htop
        exact .inl (Nat.lt_succ_self _)
      | cons y top => exact .inr ⟨top, (List.cons.inj htop).2⟩

/-- The state a list of steps leads to, where each of them can be taken. -/
def runSteps (step : σ → α → Option σ) : List α → σ → Option σ
  | [], s => some s
  | a :: l, s => (step s a).bind (runSteps step l)

theorem runSteps_reach {next : σ → α → Option σ} {s s' : σ} {l : List α}
    (hnext : ∀ s a s', next s a = some s' → guard s a ∧ step s a s')
    (h : Reach init step guard s) (hrun : runSteps next l s = some s') : Reach init step guard s' := by
  induction l generalizing s with
  | nil =>
    cases hrun
    exact h
  | cons a l ih =>
    obtain ⟨s₁, hs₁, hrest⟩ := Option.bind_eq_some_iff.1 hrun
    obtain ⟨hguard, hstep⟩ := hnext s a s₁ hs₁
    exact ih (.step h hguard hstep) hrest

/-- Steps that are only taken where they meet the guard. -/
theorem runGuarded_reach {next : σ → α → Option σ} {ok : σ → α → Prop} [∀ s a, Decidable (ok s a)]
    (hok : ∀ s a, ok s a → guard s a) (hnext : ∀ s a s', next s a = some s' → step s a s')
    {s s' : σ} {l : List α} (h : Reach init step guard s)
    (hrun : runSteps (fun s a => if ok s a then next s a else none) l s = some s') :
    Reach init step guard s' := by
  refine runSteps_reach (fun s a s' hs => ?_) h hrun
  obtain ⟨hmeets, hs⟩ := Option.ite_none_right_eq_some.1 hs
  exact ⟨hok s a hmeets, hnext s a s' hs⟩

/-- Steps that can all be taken, the ones that work each with less left to do. -/
theorem runSteps_progress {next : σ → α → Option σ} {Inv : σ → Prop} {left : σ → Nat}
    {works : α → Bool}
    (hnext : ∀ s a, Inv s → ∃ s', next s a = some s' ∧ Inv s' ∧
      left s' ≤ left s - if works a then 1 else 0)
    {s : σ} (l : List α) (h : Inv s) :
    ∃ s', runSteps next l s = some s' ∧ Inv s' ∧ left s' ≤ left s - l.countP works := by
  induction l generalizing s with
  | nil => exact ⟨s, rfl, h, by simp⟩
  | cons a l ih =>
    obtain ⟨s₁, hs₁, hinv, hleft⟩ := hnext s a h
    obtain ⟨s', hrun, hinv', hleft'⟩ := ih hinv
    refine ⟨s', by rw [runSteps, hs₁, Option.bind_some, hrun], hinv', ?_⟩
    rw [List.countP_cons]
    omega

/-- `P` holds in the state and in every state the steps lead to. -/
def Along (next : σ → α → Option σ) (P : σ → Prop) : List α → σ → Prop
  | [], s => P s
  | a :: l, s => P s ∧ ∀ s', next s a = some s' → Along next P l s'

/-- Each of the steps that is taken meets `ok` in the state it is taken from. -/
def AllOk (next : σ → α → Option σ) (ok : σ → α → Prop) : List α → σ → Prop
  | [], _ => True
  | a :: l, s => ∀ s', next s a = some s' → ok s a ∧ AllOk next ok l s'

theorem Along.head {next : σ → α → Option σ} {P : σ → Prop} {l : List α} {s : σ}
    (h : Along next P l s) : P s := by
  cases l with
  | nil => exact h
  | cons a l => exact h.1

/-- Where a step keeps `P` exactly if it meets `ok`, a run keeps it exactly if all its steps do. -/
theorem along_iff {next : σ → α → Option σ} {P : σ → Prop} {ok : σ → α → Prop}
    (hnext : ∀ s a s', P s → next s a = some s' → (P s' ↔ ok s a)) (l : List α) {s : σ} (h : P s) :
    Along next P l s ↔ AllOk next ok l s := by
  induction l generalizing s with
  | nil => exact iff_of_true h trivial
  | cons a l ih =>
    constructor
    · rintro ⟨-, hrest⟩ s' hs'
      have hP := (hrest s' hs').head
      exact ⟨(hnext s a s' h hs').1 hP, (ih hP).1 (hrest s' hs')⟩
    · intro hall
      refine ⟨h, fun s' hs' => ?_⟩
      obtain ⟨hok, hrest⟩ := hall s' hs'
      exact (ih ((hnext s a s' h hs').2 hok)).2 hrest

end MeuOS.Lib
