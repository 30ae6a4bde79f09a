import Mathlib.Data.List.Basic
import Mathlib.Logic.Relation

/-! A flag that is handed to one sleeper at a time. Raising it leaves a wake to do; a wake
makes the sleeper who has waited longest look at the flag again, and whoever looks takes it
down. The flag is raised only when it is down, and a newcomer does not look at a raised flag
others are waiting for. -/
namespace MeuOS.Lib

/-- `owed` has an entry for each wake still to do, `done` one for each time the flag was
taken down. -/
structure HandOff (τ : Type) where
  signal : Bool
  asleep : List τ
  awake : List τ
  owed : List τ
  sets : Nat
  entered : Nat
  done : List τ

namespace HandOff

variable {τ : Type} [DecidableEq τ]

inductive Step : HandOff τ → HandOff τ → Prop
  | set (h : HandOff τ) (u : τ) (hdown : h.signal = false) :
      Step h { h with signal := true, owed := u :: h.owed, sets := h.sets + 1 }
  | wakeNone (h : HandOff τ) (u : τ) (howed : u ∈ h.owed) (hnone : h.asleep = []) :
      Step h { h with owed := h.owed.erase u }
  | wakeFirst (h : HandOff τ) (u t : τ) (rest : List τ) (howed : u ∈ h.owed)
      (hfirst : h.asleep = t :: rest) :
      Step h { h with owed := h.owed.erase u, asleep := rest, awake := t :: h.awake }
  | pass (h : HandOff τ) (t : τ) (hawake : t ∈ h.awake) (hup : h.signal = true) :
      Step h { h with signal := false, awake := h.awake.erase t, done := t :: h.done }
  | sleepAgain (h : HandOff τ) (t : τ) (hawake : t ∈ h.awake) (hdown : h.signal = false) :
      Step h { h with awake := h.awake.erase t, asleep := h.asleep ++ [t] }
  | enterPass (h : HandOff τ) (t : τ) (hup : h.signal = true) (hnone : h.asleep = [] ∧ h.awake = []) :
      Step h { h with signal := false, entered := h.entered + 1, done := t :: h.done }
  | enterSleep (h : HandOff τ) (t : τ) (hdown : h.signal = false) :
      Step h { h with asleep := h.asleep ++ [t], entered := h.entered + 1 }

/-- `orig` sleeps, and nothing else has happened yet. -/
def start (orig : List τ) : HandOff τ := ⟨false, orig, [], [], 0, 0, []⟩

variable {h h' : HandOff τ} {orig left : List τ} {k : Nat}

/-! ## Conservation -/

structure Balanced (k : Nat) (h : HandOff τ) : Prop where
  taken : h.done.length + h.signal.toNat = h.sets
  waits : h.asleep.length + h.awake.length + h.done.length = k + h.entered
  raised : h.signal = true → h.owed ≠ [] ∨ h.awake ≠ [] ∨ h.asleep = []

omit [DecidableEq τ] in
theorem balanced_start (orig : List τ) : Balanced orig.length (start orig) :=
  ⟨rfl, rfl, nofun⟩

/-- Who looks at a raised flag is on the way, or nobody sleeps. -/
def Raised (h : HandOff τ) : Prop :=
  h.signal = true → h.owed ≠ [] ∨ h.awake ≠ [] ∨ h.asleep = []

theorem Step.raised (hstep : Step h h') : Raised h' := by
  cases hstep with
  | set u hdown => exact fun _ => .inl (by simp)
  | wakeNone u howed hnone => exact fun _ => .inr (.inr hnone)
  | wakeFirst u t rest howed hfirst => exact fun _ => .inr (.inl (by simp))
  | pass t hawake hup => exact nofun
  | sleepAgain t hawake hdown =>
    intro hup
    rw [hdown] at hup
    cases hup
  | enterPass t hup hnone => exact nofun
  | enterSleep t hdown =>
    intro hup
    rw [hdown] at hup
    cases hup

theorem Balanced.step (hb : Balanced k h) (hstep : Step h h') : Balanced k h' := by
  refine ⟨?_, ?_, hstep.raised⟩
  · have htaken := hb.taken
    cases hstep with
    | set u hdown =>
      rw [hdown] at htaken
      simpa using htaken
    | wakeNone u howed hnone => exact htaken
    | wakeFirst u t rest howed hfirst => exact htaken
    | pass t hawake hup =>
      rw [hup] at htaken
      simpa using htaken
    | sleepAgain t hawake hdown => exact htaken
    | enterPass t hup hnone =>
      rw [hup] at htaken
      simpa using htaken
    | enterSleep t hdown => exact htaken
  · have hwaits := hb.waits
    cases hstep with
    | set u hdown => exact hwaits
    | wakeNone u howed hnone => exact hwaits
    | wakeFirst u t rest howed hfirst =>
      rw [hfirst] at hwaits
      simp only [List.length_cons] at hwaits ⊢
      omega
    | pass t hawake hup =>
      have hone := List.length_erase_of_mem hawake
      have hpos := List.length_pos_of_mem hawake
      simp only [List.length_cons]
      omega
    | sleepAgain t hawake hdown =>
      have hone := List.length_erase_of_mem hawake
      have hpos := List.length_pos_of_mem hawake
      simp only [List.length_append, List.length_singleton]
      omega
    | enterPass t hup hnone =>
      simp only [List.length_cons]
      omega
    | enterSleep t hdown =>
      simp only [List.length_append, List.length_singleton]
      omega

/-! ## First come, first served -/

/-- Those of the first sleepers who are `left` stand in front, and a raised flag is on its way
to the first of them. -/
inductive Turn (h : HandOff τ) : List τ → Prop
  | settled : Turn h []
  | allAsleep {left q : List τ} (hasleep : h.asleep = left ++ q) (hawake : h.awake = [])
      (howed : h.owed.length = h.signal.toNat) : Turn h left
  | firstAwake {t : τ} {l q : List τ} (hasleep : h.asleep = l ++ q) (hawake : h.awake = [t])
      (howed : h.owed = []) (hup : h.signal = true) : Turn h (t :: l)

structure Served (orig : List τ) (h : HandOff τ) (gone left : List τ) : Prop where
  split : orig = gone ++ left
  served : ∀ t ∈ gone, t ∈ h.done
  turn : Turn h left
  sets : left ≠ [] → h.sets = gone.length + h.signal.toNat

omit [DecidableEq τ] in
theorem served_start (orig : List τ) : Served orig (start orig) [] orig :=
  ⟨rfl, nofun, .allAsleep (List.append_nil orig).symm rfl rfl, fun _ => rfl⟩

/-- Once all are served they stay so. -/
theorem Served.settled {gone : List τ} (hs : Served orig h gone []) (hstep : Step h h') :
    Served orig h' gone [] := by
  have hgone : ∀ t ∈ gone, t ∈ h'.done := by
    intro t ht
    have hdone := hs.served t ht
    cases hstep <;> simp [hdone]
  exact ⟨hs.split, hgone, .settled, fun hne => absurd rfl hne⟩

theorem Served.step {gone : List τ} (hs : Served orig h gone left) (hstep : Step h h') :
    ∃ gone' left', Served orig h' gone' left' := by
  by_cases hleft : left = []
  · subst hleft
    exact ⟨gone, [], hs.settled hstep⟩
  · obtain ⟨hsplit, hgone, hturn, hsets⟩ := hs
    have hcount := hsets hleft
    cases hturn with
    | settled => exact absurd rfl hleft
    | @allAsleep left q hasleep hawake howed =>
      cases hstep with
      | set u hdown =>
        rw [hdown] at howed hcount
        refine ⟨gone, left, hsplit, hgone, .allAsleep hasleep hawake ?_, fun _ => ?_⟩
        · simpa using howed
        · simpa using hcount
      | wakeNone u hu hnone =>
        rw [hasleep] at hnone
        exact absurd (List.append_eq_nil_iff.1 hnone).1 hleft
      | wakeFirst u t rest hu hfirst =>
        have hup : h.signal = true := by
          by_contra hdown
          rw [Bool.not_eq_true] at hdown
          rw [hdown, Bool.toNat_false, List.length_eq_zero_iff] at howed
          rw [howed] at hu
          cases hu
        have hone : h.owed.erase u = [] := by
          rw [hup, Bool.toNat_true] at howed
          rw [← List.length_eq_zero_iff, List.length_erase_of_mem hu, howed]
        obtain ⟨x, l, rfl⟩ := List.exists_cons_of_ne_nil hleft
        rw [hasleep, List.cons_append, List.cons.injEq] at hfirst
        obtain ⟨rfl, rfl⟩ := hfirst
        exact ⟨gone, x :: l, hsplit, hgone, .firstAwake rfl (by rw [hawake]) hone hup, fun _ => hcount⟩
      | pass t ht hup =>
        rw [hawake] at ht
        cases ht
      | sleepAgain t ht hdown =>
        rw [hawake] at ht
        cases ht
      | enterPass t hup hnone =>
        rw [hasleep] at hnone
        exact absurd (List.append_eq_nil_iff.1 hnone.1).1 hleft
      | enterSleep t hdown =>
        have hq : h.asleep ++ [t] = left ++ (q ++ [t]) := by rw [hasleep, List.append_assoc]
        exact ⟨gone, left, hsplit, hgone, .allAsleep hq hawake howed, fun _ => hcount⟩
    | @firstAwake x l q hasleep hawake howed hup =>
      cases hstep with
      | set u hdown =>
        rw [hup] at hdown
        cases hdown
      | wakeNone u hu hnone =>
        rw [howed] at hu
        cases hu
      | wakeFirst u t rest hu hfirst =>
        rw [howed] at hu
        cases hu
      | pass t ht _ =>
        rw [hawake, List.mem_singleton] at ht
        subst ht
        refine ⟨gone ++ [t], l, by simpa using hsplit, fun u hu => ?_, .allAsleep hasleep ?_ ?_,
          fun _ => ?_⟩
        · rcases List.mem_append.1 hu with hu | hu
          · exact List.mem_cons_of_mem t (hgone u hu)
          · rw [List.mem_singleton.1 hu]
            exact List.mem_cons_self
        · rw [hawake]
          simp
        · rw [howed]
          rfl
        · rw [hup] at hcount
          simpa using hcount
      | sleepAgain t ht hdown =>
        rw [hup] at hdown
        cases hdown
      | enterPass t _ hnone =>
        rw [hawake] at hnone
        cases hnone.2
      | enterSleep t hdown =>
        rw [hup] at hdown
        cases hdown

theorem run_inv (hrun : Relation.ReflTransGen Step (start orig) h) :
    Balanced orig.length h ∧ ∃ gone left, Served orig h gone left := by
  induction hrun with
  | refl => exact ⟨balanced_start orig, [], orig, served_start orig⟩
  | tail _ hstep ih =>
    obtain ⟨hb, gone, left, hs⟩ := ih
    exact ⟨hb.step hstep, hs.step hstep⟩

/-- When no wake is outstanding and nobody is awake, as many waits are over as the flag was
raised, up to all of them. -/
theorem conserved (hrun : Relation.ReflTransGen Step (start orig) h) (howed : h.owed = [])
    (hawake : h.awake = []) : h.done.length = min h.sets (orig.length + h.entered) := by
  obtain ⟨⟨htaken, hwaits, hraised⟩, -⟩ := run_inv hrun
  rw [hawake, List.length_nil] at hwaits
  cases hsignal : h.signal with
  | false =>
    rw [hsignal, Bool.toNat_false] at htaken
    omega
  | true =>
    have hasleep : h.asleep = [] := by
      have := hraised hsignal
      tauto
    rw [hasleep, List.length_nil] at hwaits
    omega

/-- When it was raised as often as there were sleepers at first, those have all been served. -/
theorem first_served (hrun : Relation.ReflTransGen Step (start orig) h) (howed : h.owed = [])
    (hawake : h.awake = []) (hsets : orig.length ≤ h.sets) : ∀ t ∈ orig, t ∈ h.done := by
  obtain ⟨-, gone, left, hs⟩ := run_inv hrun
  have hleft : left = [] := by
    by_contra hne
    have hcount := hs.sets hne
    have hdown : h.signal.toNat = 0 := by
      cases hs.turn with
      | settled => exact absurd rfl hne
      | allAsleep _ _ hcalls => rw [← hcalls, howed, List.length_nil]
      | firstAwake _ hone =>
        rw [hawake] at hone
        cases hone
    have hpos := List.length_pos_of_ne_nil hne
    rw [hs.split, List.length_append] at hsets
    omega
  rw [hs.split, hleft, List.append_nil]
  exact hs.served

end HandOff

end MeuOS.Lib
