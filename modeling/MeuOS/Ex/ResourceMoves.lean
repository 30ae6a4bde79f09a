import MeuOS.Ex.Resource

/-! The resource as its callers see it: the count, whether the event is up, and where each of
them is. Who holds the resource, and that a waiter is never forgotten while it is free, follow
from what a move of one caller may do. -/
namespace MeuOS.Ex

open MeuOS.Lib MeuOS.Ke

namespace ResourcePhase

def holdsExclusive : ResourcePhase → Bool
  | .claimed => true
  | .holding .exclusive => true
  | .releasing .exclusive _ => true
  | .disowned => true
  | _ => false

def holdsShared : ResourcePhase → Bool
  | .holding .shared => true
  | .releasing .shared _ => true
  | _ => false

/-- In the wait of an acquire, or about to enter it. -/
def behind : ResourcePhase → Bool
  | .failed _ => true
  | .waiting _ => true
  | _ => false

/-- In the wait of a shared acquire, or about to enter it. -/
def sharedBehind : ResourcePhase → Bool
  | .failed .shared => true
  | .waiting .shared => true
  | _ => false

/-- About to look at the count once more, or to set the event. -/
def active : ResourcePhase → Bool
  | .trying _ _ => true
  | .loaded _ _ => true
  | .signalling => true
  | _ => false

/-- What the thread may have read. -/
def SeenOk : ResourcePhase → Prop
  | .loaded _ seen => 0 ≤ seen
  | .releasing .exclusive seen => seen = -1
  | .releasing .shared seen => 0 < seen
  | _ => True

end ResourcePhase

/-- A caller goes from a phase to another, and leaves the count and the event so. -/
inductive Move (count : Int) (up : Bool) : ResourcePhase → Int → Bool → ResourcePhase → Prop
  | stay (x : ResourcePhase) : Move count up x count up x
  | enter (mode : ResourceMode) (wait : Bool) : Move count up .outside count up (.trying mode wait)
  | claim (wait : Bool) (hfree : count = 0) : Move count up (.trying .exclusive wait) (-1) up .claimed
  | fail (mode : ResourceMode) (wait : Bool) (hheld : count ≠ 0) (hshared : mode = .shared → count < 0) :
      Move count up (.trying mode wait) count up (if wait then .failed mode else .outside)
  | load (wait : Bool) (hopen : 0 ≤ count) :
      Move count up (.trying .shared wait) count up (.loaded wait count)
  | join (wait : Bool) : Move count up (.loaded wait count) (count + 1) up (.holding .shared)
  | lose (wait : Bool) (seen : Int) (hchanged : count ≠ seen) :
      Move count up (.loaded wait seen) count up (.trying .shared wait)
  | own : Move count up .claimed count up (.holding .exclusive)
  | release (mode : ResourceMode) : Move count up (.holding mode) count up (.releasing mode count)
  | disown (mode : ResourceMode) : Move count up (.releasing mode (-1)) count up .disowned
  | leave (mode : ResourceMode) (seen : Int) (hshared : 0 < seen) :
      Move count up (.releasing mode seen) (count - 1) up .signalling
  | skip (mode : ResourceMode) (seen : Int) (hneither : seen ≠ -1 ∧ ¬0 < seen) :
      Move count up (.releasing mode seen) count up .signalling
  | free : Move count up .disowned 0 up .signalling
  | set : Move count up .signalling count true .waking
  | woken : Move count up .waking count up .outside
  | pass (x : ResourcePhase) (mode : ResourceMode) (hx : x = .failed mode ∨ x = .waiting mode)
      (hup : up = true) : Move count up x count false (.trying mode true)
  | sleep (x : ResourcePhase) (mode : ResourceMode) (hx : x = .failed mode ∨ x = .waiting mode)
      (hdown : up = false) : Move count up x count up (.waiting mode)

/-- `E` threads have the resource exclusively and `N` shared, and while it is free a waiter has
someone to look after it. -/
structure Entrance (count : Int) (up : Bool) (phase : Tid → ResourcePhase) (E N : Nat) : Prop where
  exclusive : Headcount phase ResourcePhase.holdsExclusive E
  shared : Headcount phase ResourcePhase.holdsShared N
  holders : (E = 0 ∧ count = N) ∨ (E = 1 ∧ N = 0 ∧ count = -1)
  seen : ∀ t, (phase t).SeenOk
  token : (∃ t, (phase t).behind = true) →
    count ≠ 0 ∨ up = true ∨ ∃ t, (phase t).active = true

variable {count count' : Int} {up up' : Bool} {phase : Tid → ResourcePhase} {E N : Nat} {cur : Tid}
  {x : ResourcePhase}

/-- A move that changes neither who holds the resource nor the count. -/
theorem Entrance.holders_same (h : Entrance count up phase E N) {y : ResourcePhase} {E' N' : Nat}
    (hexclusive : x.holdsExclusive = y.holdsExclusive) (hshared : x.holdsShared = y.holdsShared)
    (hE : E' + y.holdsExclusive.toNat = E + x.holdsExclusive.toNat)
    (hN : N' + y.holdsShared.toNat = N + x.holdsShared.toNat) :
    (E' = 0 ∧ count = N') ∨ (E' = 1 ∧ N' = 0 ∧ count = -1) := by
  rw [hexclusive] at hE
  rw [hshared] at hN
  have hsame : E' = E ∧ N' = N := by omega
  rw [hsame.1, hsame.2]
  exact h.holders

/-- What a move does to the numbers of holders and to the count. -/
theorem Entrance.move_holders (h : Entrance count up phase E N)
    (hmove : Move count up (phase cur) count' up' x) {E' N' : Nat}
    (hE : E' + (phase cur).holdsExclusive.toNat = E + x.holdsExclusive.toNat)
    (hN : N' + (phase cur).holdsShared.toNat = N + x.holdsShared.toNat) :
    (E' = 0 ∧ count' = N') ∨ (E' = 1 ∧ N' = 0 ∧ count' = -1) := by
  have hholders := h.holders
  have hseen := h.seen cur
  generalize phase cur = y at hmove hE hN hseen
  cases hmove with
  | stay => exact h.holders_same rfl rfl hE hN
  | enter mode wait => exact h.holders_same rfl rfl hE hN
  | claim wait hfree =>
    change E' + 0 = E + 1 at hE
    change N' + 0 = N + 0 at hN
    omega
  | fail mode wait hheld hshared => cases wait <;> exact h.holders_same rfl rfl hE hN
  | load wait hopen => exact h.holders_same rfl rfl hE hN
  | join wait =>
    change E' + 0 = E + 0 at hE
    change N' + 0 = N + 1 at hN
    change 0 ≤ count at hseen
    omega
  | lose wait seen hchanged => exact h.holders_same rfl rfl hE hN
  | own => exact h.holders_same rfl rfl hE hN
  | release mode => cases mode <;> exact h.holders_same rfl rfl hE hN
  | disown mode =>
    cases mode with
    | exclusive => exact h.holders_same rfl rfl hE hN
    | shared =>
      change (0 : Int) < -1 at hseen
      omega
  | leave mode seen hshared =>
    cases mode with
    | exclusive =>
      change seen = -1 at hseen
      omega
    | shared =>
      change E' + 0 = E + 0 at hE
      change N' + 1 = N + 0 at hN
      omega
  | skip mode seen hneither =>
    cases mode with
    | exclusive => exact absurd hseen hneither.1
    | shared => exact absurd hseen hneither.2
  | free =>
    change E' + 1 = E + 0 at hE
    change N' + 0 = N + 0 at hN
    omega
  | set => exact h.holders_same rfl rfl hE hN
  | woken => exact h.holders_same rfl rfl hE hN
  | pass y mode hx hup => rcases hx with rfl | rfl <;> exact h.holders_same rfl rfl hE hN
  | sleep y mode hx hdown => rcases hx with rfl | rfl <;> exact h.holders_same rfl rfl hE hN

/-- A thread that releases has read the count of its own hold. -/
theorem Entrance.move_seen (h : Entrance count up phase E N)
    (hmove : Move count up (phase cur) count' up' x) : x.SeenOk := by
  have hholders := h.holders
  have hseen := h.seen cur
  have hexclusive : (phase cur).holdsExclusive = true → 0 < E := h.exclusive.pos
  have hshared : (phase cur).holdsShared = true → 0 < N := h.shared.pos
  generalize phase cur = y at hmove hseen hexclusive hshared
  cases hmove with
  | stay => exact hseen
  | load wait hopen => exact hopen
  | release mode =>
    cases mode with
    | exclusive =>
      have hpos := hexclusive rfl
      change count = -1
      omega
    | shared =>
      have hpos := hshared rfl
      change 0 < count
      omega
  | fail mode wait => cases wait <;> trivial
  | _ => trivial

/-- A move of a thread that gives up looking after the waiters leaves them to another. -/
theorem Entrance.move_token (h : Entrance count up phase E N)
    (hmove : Move count up (phase cur) count' up' x) :
    (x.active = true ∨ count' ≠ 0 ∨ up' = true) ∨ ((phase cur).active = false ∧
      (x.behind = true → (phase cur).behind = true) ∧ count' = count ∧ up' = up) := by
  have hseen := h.seen cur
  generalize phase cur = y at hmove hseen
  cases hmove with
  | stay =>
    cases hactive : x.active with
    | true => exact .inl (.inl rfl)
    | false => exact .inr ⟨rfl, id, rfl, rfl⟩
  | enter mode wait => exact .inl (.inl rfl)
  | claim wait hfree => exact .inl (.inr (.inl (by decide)))
  | fail mode wait hheld hshared => exact .inl (.inr (.inl hheld))
  | load wait hopen => exact .inl (.inl rfl)
  | join wait =>
    change 0 ≤ count at hseen
    exact .inl (.inr (.inl (by omega)))
  | lose wait seen hchanged => exact .inl (.inl rfl)
  | own => exact .inr ⟨rfl, nofun, rfl, rfl⟩
  | release mode => exact .inr ⟨rfl, nofun, rfl, rfl⟩
  | disown mode => exact .inr ⟨rfl, nofun, rfl, rfl⟩
  | leave mode seen hshared => exact .inl (.inl rfl)
  | skip mode seen hneither => exact .inl (.inl rfl)
  | free => exact .inl (.inl rfl)
  | set => exact .inl (.inr (.inr rfl))
  | woken => exact .inr ⟨rfl, nofun, rfl, rfl⟩
  | pass y mode hx hup => exact .inl (.inl rfl)
  | sleep y mode hx hdown => rcases hx with rfl | rfl <;> exact .inr ⟨rfl, fun _ => rfl, rfl, rfl⟩

theorem Entrance.move (h : Entrance count up phase E N)
    (hmove : Move count up (phase cur) count' up' x) :
    ∃ E' N', Entrance count' up' (Function.update phase cur x) E' N' := by
  obtain ⟨E', hE', hE⟩ := h.exclusive.update cur x
  obtain ⟨N', hN', hN⟩ := h.shared.update cur x
  refine ⟨E', N', hE', hN', h.move_holders hmove hE hN, fun t => ?_, fun hbehind => ?_⟩
  · by_cases heq : t = cur
    · subst heq
      rw [Function.update_self]
      exact h.move_seen hmove
    · rw [Function.update_of_ne heq]
      exact h.seen t
  · rcases h.move_token hmove with (hactive | hcount | hup) | ⟨hidle, hold, rfl, rfl⟩
    · exact .inr (.inr ⟨cur, by rwa [Function.update_self]⟩)
    · exact .inl hcount
    · exact .inr (.inl hup)
    · obtain ⟨t, ht⟩ := hbehind
      have hbefore : (phase t).behind = true := by
        by_cases heq : t = cur
        · subst heq
          rw [Function.update_self] at ht
          exact hold ht
        · rwa [Function.update_of_ne heq] at ht
      rcases h.token ⟨t, hbefore⟩ with hcount | hup | ⟨u, hu⟩
      · exact .inl hcount
      · exact .inr (.inl hup)
      · have hne : u ≠ cur := by
          rintro rfl
          rw [hidle] at hu
          cases hu
        exact .inr (.inr ⟨u, by rwa [Function.update_of_ne hne]⟩)

/-! ## Readers behind a reader -/

/-- While the resource is held shared nobody waits for it shared. -/
def NoneBehind (count : Int) (phase : Tid → ResourcePhase) : Prop :=
  0 < count → ∀ t, (phase t).sharedBehind = false

/-- It stays so as long as no thread gets the resource shared past another that waits. -/
theorem NoneBehind.move (h : NoneBehind count phase) (hseen : (phase cur).SeenOk)
    (hmove : Move count up (phase cur) count' up' x)
    (hjoin : x = .holding .shared → ∀ wait, phase cur = .loaded wait count →
      ∀ t, t ≠ cur → (phase t).sharedBehind = false) :
    NoneBehind count' (Function.update phase cur x) := by
  have hothers : (0 < count → x.sharedBehind = false) → count' ≤ count →
      NoneBehind count' (Function.update phase cur x) := by
    intro hx hle hpos t
    by_cases heq : t = cur
    · subst heq
      rw [Function.update_self]
      exact hx (by omega)
    · rw [Function.update_of_ne heq]
      exact h (by omega) t
  have hself : 0 < count → (phase cur).sharedBehind = false := fun hpos => h hpos cur
  generalize hy : phase cur = y at hmove hself hseen
  cases hmove with
  | stay => exact hothers hself (Int.le_refl _)
  | claim wait hfree => exact hothers (fun _ => rfl) (by omega)
  | fail mode wait hheld hshared =>
    refine hothers (fun hpos => ?_) (Int.le_refl _)
    cases mode with
    | exclusive => cases wait <;> rfl
    | shared =>
      have hneg := hshared rfl
      omega
  | join wait =>
    intro _ t
    by_cases heq : t = cur
    · subst heq
      rw [Function.update_self]
      rfl
    · rw [Function.update_of_ne heq]
      exact hjoin rfl wait hy t heq
  | leave mode seen hshared => exact hothers (fun _ => rfl) (by omega)
  | free =>
    intro hpos
    cases hpos
  | sleep y mode hx hdown =>
    refine hothers (fun hpos => ?_) (Int.le_refl _)
    have hnot := hself hpos
    cases mode with
    | exclusive => rfl
    | shared => rcases hx with rfl | rfl <;> cases hnot
  | _ => exact hothers (fun _ => rfl) (Int.le_refl _)

end MeuOS.Ex
