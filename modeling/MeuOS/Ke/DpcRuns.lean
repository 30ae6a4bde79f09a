import MeuOS.Ke.Dpc
import MeuOS.Lib.Run

/-! Runs of the DPC queues on any number of processors. The queues are read off the links;
what became of every insert is read off the log. -/
namespace MeuOS.Ke

open MeuOS.Lib

def DpcEvent.dpc : DpcEvent → Nat
  | .inserted _ r => r.dpc
  | .ran _ r _ _ => r.dpc
  | .removed _ d => d

/-- The latest event about `d`. -/
def lastAbout (d : Nat) (log : List DpcEvent) : Option DpcEvent := log.find? fun e => e.dpc = d

/-- The last request for `d` taken out of a list. -/
def eraseLast (d : Nat) (l : List DpcRequest) : List DpcRequest :=
  (l.reverse.eraseP fun r => r.dpc = d).reverse

/-- The inserts on `cpu` in their order, without those that were removed again. -/
def keptOn (cpu : Nat) : List DpcEvent → List DpcRequest
  | [] => []
  | .inserted c r :: log => if c = cpu then keptOn cpu log ++ [r] else keptOn cpu log
  | .removed c d :: log => if c = cpu then eraseLast d (keptOn cpu log) else keptOn cpu log
  | .ran .. :: log => keptOn cpu log

/-- The calls on `cpu` in their order. -/
def ranOn (cpu : Nat) : List DpcEvent → List DpcRequest
  | [] => []
  | .ran c r _ _ :: log => if c = cpu then ranOn cpu log ++ [r] else ranOn cpu log
  | .inserted .. :: log => ranOn cpu log
  | .removed .. :: log => ranOn cpu log

/-- The event is the call an insert on `cpu` asked for, or its removal. -/
def Settles (cpu : Nat) (r : DpcRequest) : DpcEvent → Prop
  | .inserted .. => False
  | .ran c r' _ _ => c = cpu ∧ r' = r
  | .removed c d => c = cpu ∧ d = r.dpc

/-- An insert about which nothing else is known yet is settled by the next event about its
object, and nothing else is a call or a removal. -/
def Accounted : List DpcEvent → Prop
  | [] => True
  | e :: log =>
      (∀ c r, lastAbout e.dpc log = some (.inserted c r) → Settles c r e) ∧
        ((∀ c r, e ≠ .inserted c r) → ∃ c r, lastAbout e.dpc log = some (.inserted c r)) ∧
          Accounted log

/-! ## Accounts -/

variable {s s' : DpcSys} {q : Nat → List DpcRequest} {d c : Nat} {r : DpcRequest} {e : DpcEvent}
  {log : List DpcEvent}

theorem lastAbout_cons (d : Nat) (e : DpcEvent) (log : List DpcEvent) :
    lastAbout d (e :: log) = if e.dpc = d then some e else lastAbout d log := by
  unfold lastAbout
  rw [List.find?_cons]
  by_cases h : e.dpc = d <;> simp [h]

theorem lastAbout_iff : lastAbout d log = some e ↔
    e.dpc = d ∧ ∃ post pre, log = post ++ e :: pre ∧ ∀ e' ∈ post, e'.dpc ≠ d := by
  unfold lastAbout
  rw [List.find?_eq_some_iff_append]
  simp

theorem Accounted.suffix {post : List DpcEvent} (h : Accounted (post ++ log)) : Accounted log := by
  induction post with
  | nil => exact h
  | cons e post ih => exact ih h.2.2

/-- The first event about `d` in a stretch of the log. -/
theorem firstAbout (d : Nat) (post : List DpcEvent) :
    (∀ e ∈ post, e.dpc ≠ d) ∨
      ∃ post' e mid, post = post' ++ e :: mid ∧ e.dpc = d ∧ ∀ e' ∈ mid, e'.dpc ≠ d := by
  induction post with
  | nil => exact .inl (by simp)
  | cons e post ih =>
    rcases ih with hnone | ⟨post', e', mid, rfl, he', hmid⟩
    · by_cases he : e.dpc = d
      · exact .inr ⟨[], e, post, rfl, he, hnone⟩
      · apply Or.inl
        intro e' hmem
        rcases List.mem_cons.1 hmem with rfl | hmem
        · exact he
        · exact hnone e' hmem
    · exact .inr ⟨e :: post', e', mid, rfl, he', hmid⟩

/-- An insert is the latest event about its object, or the next one about it settles it. -/
theorem Accounted.settled {post pre : List DpcEvent}
    (h : Accounted (post ++ .inserted c r :: pre)) :
    (∀ e ∈ post, e.dpc ≠ r.dpc) ∨ ∃ post' e mid, post = post' ++ e :: mid ∧ Settles c r e ∧
      ∀ e' ∈ mid, e'.dpc ≠ r.dpc := by
  rcases firstAbout r.dpc post with hnone | ⟨post', e, mid, rfl, he, hmid⟩
  · exact .inl hnone
  · refine .inr ⟨post', e, mid, rfl, ?_, hmid⟩
    rw [List.append_assoc] at h
    have hlast : lastAbout r.dpc (mid ++ .inserted c r :: pre) = some (.inserted c r) :=
      lastAbout_iff.2 ⟨rfl, mid, pre, rfl, hmid⟩
    exact h.suffix.1 c r (he ▸ hlast)

/-- A call or a removal settles the insert before it. -/
theorem Accounted.caused {post pre : List DpcEvent} (h : Accounted (post ++ e :: pre))
    (hsettle : ∀ c r, e ≠ .inserted c r) : ∃ c r mid pre', pre = mid ++ .inserted c r :: pre' ∧
      Settles c r e ∧ ∀ e' ∈ mid, e'.dpc ≠ r.dpc := by
  obtain ⟨hsettles, hcause, -⟩ := h.suffix
  obtain ⟨c, r, hlast⟩ := hcause hsettle
  obtain ⟨hdpc, mid, pre', hpre, hmid⟩ := lastAbout_iff.1 hlast
  refine ⟨c, r, mid, pre', hpre, hsettles c r hlast, fun e' he' => ?_⟩
  rw [show r.dpc = e.dpc from hdpc]
  exact hmid e' he'

theorem eraseLast_append {l q₁ q₂ : List DpcRequest} (hfree : ∀ r' ∈ q₂, r'.dpc ≠ r.dpc) :
    eraseLast r.dpc (l ++ (q₁ ++ r :: q₂)) = l ++ (q₁ ++ q₂) := by
  have hback : ∀ r' ∈ q₂.reverse, ¬decide (r'.dpc = r.dpc) = true := fun r' hr' => by
    simpa using hfree r' (List.mem_reverse.1 hr')
  unfold eraseLast
  simp only [List.reverse_append, List.reverse_cons, List.append_assoc]
  rw [List.eraseP_append_right _ hback]
  simp

/-! ## The queues -/

/-- The links of the queues are `q`, and the log accounts for every request in them. -/
structure DpcInv (s : DpcSys) (q : Nat → List DpcRequest) : Prop where
  ready : s.ready = true
  ring : ∀ c < dpcMaxCpus, s.links.Ring (.head c) ((q c).map fun r => .entry r.dpc)
  queued : ∀ c, ∀ r ∈ q c, c < dpcMaxCpus ∧ (s.dpc r.dpc).number = c ∧
    (s.dpc r.dpc).systemArgument1 = r.arg1 ∧ (s.dpc r.dpc).systemArgument2 = r.arg2
  number : ∀ d, (s.dpc d).number = notQueued ∨ ∃ r ∈ q (s.dpc d).number, r.dpc = d
  pending : ∀ c, q c ≠ [] → s.pending c = true
  fifo : ∀ c, keptOn c s.log = ranOn c s.log ++ q c
  accounted : Accounted s.log
  outstanding : ∀ d c r, lastAbout d s.log = some (.inserted c r) ↔ r ∈ q c ∧ r.dpc = d
  called : ∀ c r f x, .ran c r f x ∈ s.log →
    f = (s.dpc r.dpc).deferredRoutine ∧ x = (s.dpc r.dpc).deferredContext

/-- An object is in one queue at most, and there once. -/
theorem DpcInv.apart (h : DpcInv s q) {c c' : Nat} {r r' : DpcRequest} (hr : r ∈ q c)
    (hr' : r' ∈ q c') (heq : r.dpc = r'.dpc) : c = c' :=
  (h.queued c r hr).2.1.symm.trans ((congrArg (fun d => (s.dpc d).number) heq).trans
    (h.queued c' r' hr').2.1)

theorem DpcInv.nodup (h : DpcInv s q) {q₁ q₂ : List DpcRequest} (hq : q c = q₁ ++ r :: q₂) :
    ∀ r' ∈ q₁ ++ q₂, r'.dpc ≠ r.dpc := by
  have hc := (h.queued c r (by simp [hq])).1
  have hnodup := (List.nodup_cons.1 (h.ring c hc).nodup).2
  rw [hq, List.map_append, List.map_cons, List.nodup_middle, List.nodup_cons] at hnodup
  intro r' hr' heq
  apply hnodup.1
  rw [← List.map_append]
  exact List.mem_map.2 ⟨r', hr', by rw [heq]⟩

/-- One queue changed, and with it only links of its own. -/
theorem rings_update {L L' : Links DpcNode} {l : List DpcRequest}
    (h : ∀ c < dpcMaxCpus, L.Ring (.head c) ((q c).map fun r => .entry r.dpc))
    (hring : L'.Ring (.head c) (l.map fun r => .entry r.dpc))
    (hframe : ∀ x, x ≠ .head c → (∀ d, x = .entry d → ∀ r ∈ q c ++ l, r.dpc ≠ d) →
      L'.next x = L.next x ∧ L'.prev x = L.prev x)
    (hapart : ∀ c' ≠ c, ∀ r' ∈ q c', ∀ r ∈ q c ++ l, r.dpc ≠ r'.dpc) :
    ∀ c' < dpcMaxCpus, L'.Ring (.head c') ((Function.update q c l c').map fun r => .entry r.dpc) := by
  intro c' hc'
  by_cases heq : c' = c
  · subst heq
    rw [Function.update_self]
    exact hring
  · rw [Function.update_of_ne heq]
    have hother : ∀ x ∈ DpcNode.head c' :: (q c').map fun r => DpcNode.entry r.dpc,
        L'.next x = L.next x ∧ L'.prev x = L.prev x := by
      intro x hx
      apply hframe
      · rintro rfl
        simp [Ne.symm heq] at hx
      · rintro d rfl
        obtain ⟨r', hr', rfl⟩ : ∃ r' ∈ q c', r'.dpc = d := by simpa using hx
        exact hapart c' heq r' hr'
    exact (h c' hc').congr (fun x hx => (hother x hx).1) fun x hx => (hother x hx).2

/-- A request leaves its queue, and `e` says why. -/
theorem DpcInv.take (h : DpcInv s q) (q₁ q₂ : List DpcRequest) (hq : q c = q₁ ++ r :: q₂)
    (hsettles : Settles c r e)
    (hfifo : ∀ c', keptOn c' (e :: s.log) =
      ranOn c' (e :: s.log) ++ Function.update q c (q₁ ++ q₂) c')
    (hcalled : ∀ c' r' f x, e = .ran c' r' f x →
      f = (s.dpc r.dpc).deferredRoutine ∧ x = (s.dpc r.dpc).deferredContext) :
    ∃ links, s.links.detach (.entry r.dpc) = some links ∧
      DpcInv { s.setDpc r.dpc { s.dpc r.dpc with number := notQueued } with
        links := links, log := e :: s.log } (Function.update q c (q₁ ++ q₂)) := by
  have hr : r ∈ q c := by simp [hq]
  have hc := (h.queued c r hr).1
  have hfree := h.nodup hq
  have hring := h.ring c hc
  rw [hq, List.map_append, List.map_cons] at hring
  obtain ⟨links, hdetach, hring', hframe⟩ := hring.detach
  have hdpc : e.dpc = r.dpc := by
    cases e with
    | inserted c' r' => exact hsettles.elim
    | ran c' r' f x => exact congrArg DpcRequest.dpc hsettles.2
    | removed c' d => exact hsettles.2
  have hdpcs : ∀ d ≠ r.dpc,
      Function.update s.dpc r.dpc { s.dpc r.dpc with number := notQueued } d = s.dpc d :=
    fun d hd => Function.update_of_ne hd ..
  have hkept : ∀ d, (Function.update s.dpc r.dpc { s.dpc r.dpc with number := notQueued } d).deferredRoutine =
      (s.dpc d).deferredRoutine ∧ (Function.update s.dpc r.dpc
        { s.dpc r.dpc with number := notQueued } d).deferredContext = (s.dpc d).deferredContext := by
    intro d
    by_cases hd : d = r.dpc
    · subst hd
      rw [Function.update_self]
      exact ⟨rfl, rfl⟩
    · rw [hdpcs d hd]
      exact ⟨rfl, rfl⟩
  have hmem : ∀ c' r', r' ∈ Function.update q c (q₁ ++ q₂) c' ↔ r' ∈ q c' ∧ r'.dpc ≠ r.dpc := by
    intro c' r'
    by_cases heq : c' = c
    · subst heq
      rw [Function.update_self, hq]
      constructor
      · intro hr'
        refine ⟨?_, hfree r' hr'⟩
        rcases List.mem_append.1 hr' with hmem | hmem
        · exact List.mem_append_left _ hmem
        · exact List.mem_append_right _ (List.mem_cons_of_mem r hmem)
      · rintro ⟨hr', hne⟩
        rcases List.mem_append.1 hr' with hmem | hmem
        · exact List.mem_append_left _ hmem
        · rcases List.mem_cons.1 hmem with rfl | hmem
          · exact absurd rfl hne
          · exact List.mem_append_right _ hmem
    · rw [Function.update_of_ne heq]
      exact ⟨fun hr' => ⟨hr', fun hd => heq (h.apart hr' hr hd)⟩, And.left⟩
  refine ⟨links, hdetach, ?_⟩
  constructor
  case ready => exact h.ready
  case ring =>
    apply rings_update h.ring (by simpa using hring')
    · intro x hx hout
      apply hframe
      simp only [List.mem_cons, List.mem_append, List.mem_map, not_or, not_exists, not_and]
      refine ⟨hx, fun r' hr' heq => ?_, fun heq => ?_, fun r' hr' heq => ?_⟩
      · exact hout r'.dpc heq.symm r' (by simp [hr']) rfl
      · exact hout r.dpc heq r (by simp [hq]) rfl
      · exact hout r'.dpc heq.symm r' (by simp [hr']) rfl
    · intro c' hne r' hr' r'' hr'' heq
      have hr''q : r'' ∈ q c := by
        rw [hq] at hr'' ⊢
        simp only [List.mem_append, List.mem_cons] at hr'' ⊢
        tauto
      exact hne (h.apart hr''q hr' heq).symm
  case queued =>
    intro c' r' hr'
    obtain ⟨hr', hne⟩ := (hmem c' r').1 hr'
    simp only [DpcSys.setDpc]
    rw [hdpcs r'.dpc hne]
    exact h.queued c' r' hr'
  case number =>
    intro d
    simp only [DpcSys.setDpc]
    by_cases hd : d = r.dpc
    · subst hd
      rw [Function.update_self]
      exact .inl rfl
    · rw [hdpcs d hd]
      rcases h.number d with hfree | ⟨r', hr', rfl⟩
      · exact .inl hfree
      · exact .inr ⟨r', (hmem _ r').2 ⟨hr', hd⟩, rfl⟩
  case pending =>
    intro c' hne
    apply h.pending c'
    intro hnil
    obtain ⟨r', hr'⟩ := List.exists_mem_of_ne_nil _ hne
    have := ((hmem c' r').1 hr').1
    simp [hnil] at this
  case fifo => exact hfifo
  case accounted =>
    have hlast : lastAbout e.dpc s.log = some (.inserted c r) :=
      (h.outstanding _ c r).2 ⟨hr, hdpc.symm⟩
    refine ⟨fun c' r' hlast' => ?_, fun _ => ⟨c, r, hlast⟩, h.accounted⟩
    rw [hlast] at hlast'
    cases hlast'
    exact hsettles
  case outstanding =>
    intro d c' r'
    show lastAbout d (e :: s.log) = _ ↔ _
    rw [lastAbout_cons, hmem, hdpc]
    split
    case isTrue hd =>
      constructor
      · intro heq
        cases heq
        exact hsettles.elim
      · rintro ⟨⟨-, hne⟩, hd'⟩
        exact absurd (hd'.trans hd.symm) hne
    case isFalse hd =>
      rw [h.outstanding d c' r']
      constructor
      · rintro ⟨hr', rfl⟩
        exact ⟨⟨hr', fun heq => hd heq.symm⟩, rfl⟩
      · rintro ⟨⟨hr', -⟩, rfl⟩
        exact ⟨hr', rfl⟩
  case called =>
    intro c' r' f x hran
    simp only [DpcSys.setDpc]
    rw [(hkept r'.dpc).1, (hkept r'.dpc).2]
    rcases List.mem_cons.1 hran with heq | hran
    · have hr' : r'.dpc = r.dpc := by
        rw [← hdpc, ← heq]
        rfl
      rw [hr']
      exact hcalled c' r' f x heq.symm
    · exact h.called c' r' f x hran

/-! ## The calls -/

/-- `d` is linked in the queue of `c`. -/
def DpcLinked (s : DpcSys) (c d : Nat) : Prop :=
  c < dpcMaxCpus ∧ ∃ l : List Nat, s.links.Ring (.head c) (l.map .entry) ∧ d ∈ l

theorem DpcInv.linked_iff (h : DpcInv s q) : DpcLinked s c d ↔ ∃ r ∈ q c, r.dpc = d := by
  constructor
  · rintro ⟨hc, l, hring, hd⟩
    have heq := hring.unique (h.ring c hc)
    have hmem : DpcNode.entry d ∈ (q c).map fun r => DpcNode.entry r.dpc :=
      heq ▸ List.mem_map.2 ⟨d, hd, rfl⟩
    simpa using hmem
  · rintro ⟨r, hr, rfl⟩
    have hc := (h.queued c r hr).1
    refine ⟨hc, (q c).map DpcRequest.dpc, ?_, List.mem_map.2 ⟨r, hr, rfl⟩⟩
    rw [List.map_map]
    exact h.ring c hc

theorem curCpu_lt (index : Nat) : curCpu index < dpcMaxCpus := by
  unfold curCpu dpcMaxCpus
  split <;> omega

theorem DpcInv.unlinked_iff (h : DpcInv s q) :
    (s.dpc d).number = notQueued ↔ ∀ c, ¬DpcLinked s c d := by
  constructor
  · intro hfree c hlinked
    obtain ⟨r, hr, rfl⟩ := h.linked_iff.1 hlinked
    obtain ⟨hc, hnumber, -⟩ := h.queued c r hr
    rw [hfree] at hnumber
    subst hnumber
    exact absurd hc (by decide)
  · intro hnone
    rcases h.number d with hfree | hr
    · exact hfree
    · exact absurd (h.linked_iff.2 hr) (hnone _)

theorem DpcInv.append (h : DpcInv s q) (hfree : (s.dpc r.dpc).number = notQueued)
    (hc : c < dpcMaxCpus) :
    ∃ links, s.links.insertTail (.head c) (.entry r.dpc) = some links ∧
      DpcInv { (s.setDpc r.dpc { s.dpc r.dpc with
          number := c, systemArgument1 := r.arg1, systemArgument2 := r.arg2 }).setPending c true with
        links := links, log := .inserted c r :: s.log } (Function.update q c (q c ++ [r])) := by
  have hout : ∀ c', ∀ r' ∈ q c', r'.dpc ≠ r.dpc := by
    intro c' r' hr' heq
    apply (h.unlinked_iff.1 hfree) c'
    exact h.linked_iff.2 ⟨r', hr', heq⟩
  have hentry : DpcNode.entry r.dpc ∉ DpcNode.head c :: (q c).map fun r => DpcNode.entry r.dpc := by
    simpa using hout c
  obtain ⟨links, hinsert, hring, hframe⟩ := (h.ring c hc).insertTail hentry
  have hmem : ∀ c' r', r' ∈ Function.update q c (q c ++ [r]) c' ↔ r' ∈ q c' ∨ c' = c ∧ r' = r := by
    intro c' r'
    by_cases heq : c' = c
    · subst heq
      simp
    · simp [heq]
  refine ⟨links, hinsert, ?_⟩
  constructor
  case ready => exact h.ready
  case ring =>
    apply rings_update h.ring (by simpa using hring)
    · intro x hx hlink
      apply hframe x
      · simp only [List.mem_cons, List.mem_map, not_or, not_exists, not_and]
        exact ⟨hx, fun r' hr' heq => hlink r'.dpc heq.symm r' (by simp [hr']) rfl⟩
      · rintro rfl
        exact hlink r.dpc rfl r (by simp) rfl
    · intro c' hne r' hr' r'' hr'' heq
      have hcases : r'' ∈ q c ∨ r'' = r := by
        simp only [List.mem_append, List.mem_singleton] at hr''
        tauto
      rcases hcases with hold | rfl
      · exact hne (h.apart hold hr' heq).symm
      · exact hout c' r' hr' heq.symm
  case queued =>
    intro c' r' hr'
    simp only [DpcSys.setDpc, DpcSys.setPending]
    rcases (hmem c' r').1 hr' with hold | ⟨rfl, rfl⟩
    · rw [Function.update_of_ne (hout c' r' hold)]
      exact h.queued c' r' hold
    · rw [Function.update_self]
      exact ⟨hc, rfl, rfl, rfl⟩
  case number =>
    intro d
    simp only [DpcSys.setDpc, DpcSys.setPending]
    by_cases hd : d = r.dpc
    · subst hd
      rw [Function.update_self]
      exact .inr ⟨r, (hmem c r).2 (.inr ⟨rfl, rfl⟩), rfl⟩
    · rw [Function.update_of_ne hd]
      rcases h.number d with hnone | ⟨r', hr', rfl⟩
      · exact .inl hnone
      · exact .inr ⟨r', (hmem _ r').2 (.inl hr'), rfl⟩
  case pending =>
    intro c' hne
    simp only [DpcSys.setPending]
    by_cases heq : c' = c
    · subst heq
      rw [Function.update_self]
    · rw [Function.update_of_ne heq] at hne ⊢
      exact h.pending c' hne
  case fifo =>
    intro c'
    have hfifo := h.fifo c'
    simp only [keptOn, ranOn]
    by_cases heq : c = c'
    · subst heq
      rw [if_pos rfl, Function.update_self, hfifo, List.append_assoc]
    · rw [if_neg heq, Function.update_of_ne (Ne.symm heq), hfifo]
  case accounted =>
    refine ⟨fun c' r' hlast => ?_, fun hno => absurd rfl (hno c r), h.accounted⟩
    obtain ⟨hr', hd⟩ := (h.outstanding _ c' r').1 hlast
    exact absurd hd (hout c' r' hr')
  case outstanding =>
    intro d c' r'
    show lastAbout d (.inserted c r :: s.log) = _ ↔ _
    rw [lastAbout_cons, hmem]
    split
    case isTrue hd =>
      constructor
      · intro heq
        cases heq
        exact ⟨.inr ⟨rfl, rfl⟩, hd⟩
      · rintro ⟨hold | ⟨rfl, rfl⟩, hd'⟩
        · exact absurd (hd'.trans hd.symm) (hout c' r' hold)
        · rfl
    case isFalse hd =>
      rw [h.outstanding d c' r']
      constructor
      · rintro ⟨hold, hd'⟩
        exact ⟨.inl hold, hd'⟩
      · rintro ⟨hold | ⟨rfl, rfl⟩, hd'⟩
        · exact ⟨hold, hd'⟩
        · exact absurd hd' hd
  case called =>
    intro c' r' f x hran
    simp only [DpcSys.setDpc, DpcSys.setPending]
    have hold : .ran c' r' f x ∈ s.log := by simpa using hran
    obtain ⟨hf, hx⟩ := h.called c' r' f x hold
    by_cases hd : r'.dpc = r.dpc
    · rw [hd, Function.update_self, hf, hx, hd]
      exact ⟨rfl, rfl⟩
    · rw [Function.update_of_ne hd]
      exact ⟨hf, hx⟩

theorem keInsertQueueDpc_spec (h : DpcInv s q) (index d arg1 arg2 : Nat) :
    ∃ b s', keInsertQueueDpc index d arg1 arg2 s = some (b, s') ∧
      (b = true ↔ d ≠ 0 ∧ ∀ c, ¬DpcLinked s c d) ∧ (b = false → s' = s) ∧
      (b = true → DpcLinked s' (curCpu index) d) ∧ ∃ q', DpcInv s' q' := by
  unfold keInsertQueueDpc
  by_cases hnull : d = 0
  · exact ⟨false, s, if_pos (.inl hnull), by simp [hnull], fun _ => rfl, nofun, q, h⟩
  · rw [if_neg (by simp [hnull, h.ready])]
    by_cases hfree : (s.dpc d).number = notQueued
    · obtain ⟨links, hinsert, hinv⟩ := h.append (r := ⟨d, arg1, arg2⟩) hfree (curCpu_lt index)
      refine ⟨true, _, by simp only [ne_eq, hfree, not_true, if_false, hinsert, Option.map_some],
        ⟨fun _ => ⟨hnull, h.unlinked_iff.1 hfree⟩, fun _ => rfl⟩, nofun, fun _ => ?_, _, hinv⟩
      exact hinv.linked_iff.2 ⟨⟨d, arg1, arg2⟩, by simp, rfl⟩
    · refine ⟨false, s, if_pos hfree, ⟨nofun, fun hnone => ?_⟩, fun _ => rfl, nofun, q, h⟩
      exact absurd (h.unlinked_iff.2 hnone.2) hfree

theorem kiRetireDpc_nil (h : DpcInv s q) (hc : c < dpcMaxCpus) (hq : q c = []) :
    kiRetireDpc c s = some (true, s.setPending c false) ∧ DpcInv (s.setPending c false) q := by
  have hnext := (h.ring c hc).next_head
  rw [hq] at hnext
  unfold kiRetireDpc
  rw [if_neg (by simp [h.ready]; omega), hnext, Option.bind_some]
  refine ⟨if_pos rfl, { h with pending := fun c' hne => ?_ }⟩
  have hcc : c' ≠ c := by
    rintro rfl
    exact hne hq
  simp only [DpcSys.setPending]
  rw [Function.update_of_ne hcc]
  exact h.pending c' hne

/-- The first request leaves its queue and its routine is called. -/
theorem kiRetireDpc_cons (h : DpcInv s q) {rest : List DpcRequest} (hq : q c = r :: rest) :
    ∃ s', kiRetireDpc c s = some (false, s') ∧ DpcInv s' (Function.update q c rest) ∧
      s'.log = .ran c r (s.dpc r.dpc).deferredRoutine (s.dpc r.dpc).deferredContext :: s.log := by
  obtain ⟨hc, hnumber, harg1, harg2⟩ := h.queued c r (by simp [hq])
  have hnext := (h.ring c hc).next_head
  rw [hq] at hnext
  have hr : (⟨r.dpc, (s.dpc r.dpc).systemArgument1, (s.dpc r.dpc).systemArgument2⟩ : DpcRequest) = r := by
    rw [harg1, harg2]
  have hfifo : ∀ c', keptOn c' (.ran c r (s.dpc r.dpc).deferredRoutine
      (s.dpc r.dpc).deferredContext :: s.log) = ranOn c' (.ran c r (s.dpc r.dpc).deferredRoutine
      (s.dpc r.dpc).deferredContext :: s.log) ++ Function.update q c ([] ++ rest) c' := by
    intro c'
    have hfifo := h.fifo c'
    simp only [keptOn, ranOn, List.nil_append]
    by_cases heq : c = c'
    · subst heq
      rw [if_pos rfl, Function.update_self, hfifo, hq, List.append_assoc]
      rfl
    · rw [if_neg heq, Function.update_of_ne (Ne.symm heq), hfifo]
  obtain ⟨links, hdetach, hinv⟩ := h.take [] rest hq (show Settles c r (.ran c r _ _) from ⟨rfl, rfl⟩)
    hfifo fun c' r' f x heq => by
    cases heq
    exact ⟨rfl, rfl⟩
  refine ⟨_, ?_, hinv, rfl⟩
  unfold kiRetireDpc
  rw [if_neg (by simp [h.ready]; omega), hnext, Option.bind_some]
  simp only [List.map_cons, List.headD_cons, hdetach, Option.map_some, hr]

/-- `n` turns of the drain with nothing in between. -/
def drainTurns (cpu : Nat) : Nat → DpcSys → Option DpcSys
  | 0, s => some s
  | n + 1, s => (kiRetireDpc cpu s).bind fun r => drainTurns cpu n r.2

/-- A drain that nothing disturbs comes to its end, and has called everything then. -/
theorem drainTurns_empties (h : DpcInv s q) (hc : c < dpcMaxCpus) :
    ∃ s', drainTurns c ((q c).length + 1) s = some s' ∧ (∀ d, ¬DpcLinked s' c d) ∧
      ranOn c s'.log = keptOn c s.log := by
  obtain ⟨n, hn⟩ : ∃ n, (q c).length = n := ⟨_, rfl⟩
  induction n generalizing s q with
  | zero =>
    have hq : q c = [] := List.length_eq_zero_iff.1 hn
    obtain ⟨hrun, hinv⟩ := kiRetireDpc_nil h hc hq
    refine ⟨s.setPending c false, ?_, fun d hlinked => ?_, ?_⟩
    · rw [hn]
      simp only [drainTurns, hrun, Option.bind_some]
    · obtain ⟨r, hr, -⟩ := hinv.linked_iff.1 hlinked
      simp [hq] at hr
    · have hfifo := h.fifo c
      rw [hq, List.append_nil] at hfifo
      exact hfifo.symm
  | succ n ih =>
    obtain ⟨r, rest, hq⟩ := List.exists_cons_of_length_eq_add_one hn
    obtain ⟨s₁, hrun, hinv, hlog⟩ := kiRetireDpc_cons h hq
    have hrest : (Function.update q c rest c).length = n := by
      rw [Function.update_self]
      rw [hq] at hn
      simpa using hn
    obtain ⟨s', hdrain, hempty, hall⟩ := ih hinv hrest
    refine ⟨s', ?_, hempty, ?_⟩
    · rw [hrest] at hdrain
      rw [hn, drainTurns, hrun, Option.bind_some]
      exact hdrain
    · rw [hall, hlog]
      rfl

theorem removeQueueDpcLocked_spec (h : DpcInv s q) (d : Nat) :
    ∃ b s', removeQueueDpcLocked d s = some (b, s') ∧ (b = true ↔ ∃ c, DpcLinked s c d) ∧
      (b = false → s' = s) ∧ (b = true → ∀ c, ¬DpcLinked s' c d) ∧ ∃ q', DpcInv s' q' := by
  unfold removeQueueDpcLocked
  by_cases hfree : (s.dpc d).number = notQueued
  · refine ⟨false, s, if_pos hfree, ⟨nofun, ?_⟩, fun _ => rfl, nofun, q, h⟩
    rintro ⟨c, hlinked⟩
    exact absurd hlinked (h.unlinked_iff.1 hfree c)
  · obtain ⟨r, hr, rfl⟩ := (h.number d).resolve_left hfree
    obtain ⟨q₁, q₂, hq⟩ := List.append_of_mem hr
    have hafter : ∀ r' ∈ q₂, r'.dpc ≠ r.dpc := fun r' hr' => h.nodup hq r' (List.mem_append_right q₁ hr')
    obtain ⟨links, hdetach, hinv⟩ := h.take (e := .removed (s.dpc r.dpc).number r.dpc) q₁ q₂ hq ⟨rfl, rfl⟩
      (fun c' => by
        have hfifo := h.fifo c'
        simp only [keptOn, ranOn]
        by_cases heq : (s.dpc r.dpc).number = c'
        · subst heq
          rw [if_pos rfl, Function.update_self, hfifo, hq, eraseLast_append hafter]
        · rw [if_neg heq, Function.update_of_ne (Ne.symm heq), hfifo]) nofun
    refine ⟨true, _, ?_, ⟨fun _ => ⟨_, h.linked_iff.2 ⟨r, hr, rfl⟩⟩, fun _ => rfl⟩, nofun,
      fun _ => hinv.unlinked_iff.1 ?_, _, hinv⟩
    · rw [if_neg hfree, hdetach]
      rfl
    · simp only [DpcSys.setDpc]
      rw [Function.update_self]

/-! ## Runs -/

theorem initHeads_ring (L : Links DpcNode) {n : Nat} (hc : c < n) : (initHeads L n).Ring (.head c) [] := by
  induction n with
  | zero => exact absurd hc (Nat.not_lt_zero c)
  | succ n ih =>
    unfold initHeads
    by_cases heq : c = n
    · subst heq
      exact Links.ring_initHead _ _
    · have hother : ∀ x ∈ [DpcNode.head c], ((initHeads L n).initHead (.head n)).next x =
          (initHeads L n).next x ∧ ((initHeads L n).initHead (.head n)).prev x =
            (initHeads L n).prev x := by
        intro x hx
        rw [List.mem_singleton.1 hx]
        exact Links.initHead_outside _ (by simp [heq])
      exact (ih (by omega)).congr (fun x hx => (hother x hx).1) fun x hx => (hother x hx).2

theorem dpcBooted_inv (h : DpcBooted s) : DpcInv s fun _ => [] := by
  obtain ⟨s₀, rfl, -, hlog, hdpc⟩ := h
  have hlog' : (kiInitializeDpcSubsystem s₀).log = [] := hlog
  constructor
  case ready => rfl
  case ring => exact fun c hc => initHeads_ring s₀.links hc
  case queued => exact fun c r hr => absurd hr List.not_mem_nil
  case number =>
    intro d
    obtain ⟨f, x, hd⟩ := hdpc d
    exact .inl (by show (s₀.dpc d).number = _; rw [hd]; rfl)
  case pending => exact fun c hne => absurd rfl hne
  case fifo =>
    intro c
    rw [hlog']
    rfl
  case accounted =>
    rw [hlog']
    exact trivial
  case outstanding =>
    intro d c r
    rw [hlog']
    simp [lastAbout]
  case called =>
    intro c r f x hran
    rw [hlog'] at hran
    exact absurd hran List.not_mem_nil

theorem dpcStep_inv (h : DpcInv s q) {a : DpcAction} (hstep : DpcStep s a s') : ∃ q', DpcInv s' q' := by
  unfold DpcStep at hstep
  cases a with
  | insert index d arg1 arg2 =>
    obtain ⟨b, s₁, hrun, -, -, -, hinv⟩ := keInsertQueueDpc_spec h index d arg1 arg2
    simp only [dpcStep, hrun, Option.map_some, Option.some.injEq] at hstep
    exact hstep ▸ hinv
  | retire c =>
    by_cases hc : c < dpcMaxCpus
    · cases hq : q c with
      | nil =>
        obtain ⟨hrun, hinv⟩ := kiRetireDpc_nil h hc hq
        simp only [dpcStep, hrun, Option.map_some, Option.some.injEq] at hstep
        exact ⟨q, hstep ▸ hinv⟩
      | cons r rest =>
        obtain ⟨s₁, hrun, hinv, -⟩ := kiRetireDpc_cons h hq
        simp only [dpcStep, hrun, Option.map_some, Option.some.injEq] at hstep
        exact ⟨_, hstep ▸ hinv⟩
    · have hrun : kiRetireDpc c s = some (true, s) := if_pos (.inl (by omega))
      simp only [dpcStep, hrun, Option.map_some, Option.some.injEq] at hstep
      exact ⟨q, hstep ▸ h⟩
  | removeRead d =>
    simp only [dpcStep] at hstep
    split at hstep
    · cases hstep
      exact ⟨q, h⟩
    · cases hstep
      exact ⟨q, { h with }⟩
  | removeLocked d c =>
    simp only [dpcStep] at hstep
    split at hstep
    · have h₁ : DpcInv { s with removing := s.removing.erase (d, c) } q := { h with }
      obtain ⟨b, s₁, hrun, -, -, -, hinv⟩ := removeQueueDpcLocked_spec h₁ d
      simp only [hrun, Option.map_some, Option.some.injEq] at hstep
      exact hstep ▸ hinv
    · cases hstep

theorem dpcRun_inv (h : Reach DpcBooted DpcStep (fun _ _ => True) s) : ∃ q, DpcInv s q := by
  apply h.invariant (fun s hs => ⟨_, dpcBooted_inv hs⟩)
  rintro s a s' ⟨q, hq⟩ - hstep
  exact dpcStep_inv hq hstep

/-- What holds between two sections under a lock. -/
structure DpcSound (s : DpcSys) : Prop where
  lists : ∀ c < dpcMaxCpus, ∃ l : List Nat, s.links.Ring (.head c) (l.map .entry)
  once : ∀ c c' d, DpcLinked s c d → DpcLinked s c' d → c = c'
  pending : ∀ c d, DpcLinked s c d → s.pending c = true
  settled : ∀ post pre c r, s.log = post ++ .inserted c r :: pre →
    (DpcLinked s c r.dpc ∧ (s.dpc r.dpc).systemArgument1 = r.arg1 ∧
      (s.dpc r.dpc).systemArgument2 = r.arg2 ∧ ∀ e ∈ post, e.dpc ≠ r.dpc) ∨
    ∃ post' e mid, post = post' ++ e :: mid ∧ Settles c r e ∧ ∀ e' ∈ mid, e'.dpc ≠ r.dpc
  caused : ∀ post pre e, s.log = post ++ e :: pre → (∀ c r, e ≠ .inserted c r) →
    ∃ c r mid pre', pre = mid ++ .inserted c r :: pre' ∧ Settles c r e ∧ ∀ e' ∈ mid, e'.dpc ≠ r.dpc
  called : ∀ c r f x, .ran c r f x ∈ s.log →
    f = (s.dpc r.dpc).deferredRoutine ∧ x = (s.dpc r.dpc).deferredContext
  fifo : ∀ c < dpcMaxCpus, ∃ l, keptOn c s.log = ranOn c s.log ++ l ∧
    s.links.Ring (.head c) (l.map fun r => .entry r.dpc)

/-- What the calls do from there: an insert returns TRUE exactly when it links the object, a
removal exactly when it takes it out, and a drain calls what there is. -/
structure DpcCalls (s : DpcSys) : Prop where
  insert : ∀ index d arg1 arg2, ∃ b s', keInsertQueueDpc index d arg1 arg2 s = some (b, s') ∧
    (b = true ↔ d ≠ 0 ∧ ∀ c, ¬DpcLinked s c d) ∧ (b = false → s' = s) ∧
      (b = true → DpcLinked s' (curCpu index) d)
  remove : ∀ d, ∃ b s', removeQueueDpcLocked d s = some (b, s') ∧
    (b = true ↔ ∃ c, DpcLinked s c d) ∧ (b = false → s' = s) ∧ (b = true → ∀ c, ¬DpcLinked s' c d)
  drain : ∀ c < dpcMaxCpus, ∃ n s', drainTurns c n s = some s' ∧ (∀ d, ¬DpcLinked s' c d) ∧
    ranOn c s'.log = keptOn c s.log

theorem DpcInv.sound (h : DpcInv s q) : DpcSound s where
  lists c hc := ⟨(q c).map DpcRequest.dpc, by rw [List.map_map]; exact h.ring c hc⟩
  once c c' d hd hd' := by
    obtain ⟨r, hr, rfl⟩ := h.linked_iff.1 hd
    obtain ⟨r', hr', heq⟩ := h.linked_iff.1 hd'
    exact h.apart hr hr' heq.symm
  pending c d hd := by
    obtain ⟨r, hr, -⟩ := h.linked_iff.1 hd
    exact h.pending c fun hnil => by simp [hnil] at hr
  settled post pre c r hlog := by
    have hacc := h.accounted
    rw [hlog] at hacc
    rcases hacc.settled with hnone | hsettled
    · have hlast : lastAbout r.dpc s.log = some (.inserted c r) :=
        lastAbout_iff.2 ⟨rfl, post, pre, hlog, hnone⟩
      have hr := ((h.outstanding _ c r).1 hlast).1
      obtain ⟨-, -, harg1, harg2⟩ := h.queued c r hr
      exact .inl ⟨h.linked_iff.2 ⟨r, hr, rfl⟩, harg1, harg2, hnone⟩
    · exact .inr hsettled
  caused post pre e hlog hsettle := by
    have hacc := h.accounted
    rw [hlog] at hacc
    exact hacc.caused hsettle
  called := h.called
  fifo c hc := ⟨q c, h.fifo c, h.ring c hc⟩

theorem DpcInv.calls (h : DpcInv s q) : DpcCalls s where
  insert index d arg1 arg2 := by
    obtain ⟨b, s', hrun, hiff, hsame, hlinked, -⟩ := keInsertQueueDpc_spec h index d arg1 arg2
    exact ⟨b, s', hrun, hiff, hsame, hlinked⟩
  remove d := by
    obtain ⟨b, s', hrun, hiff, hsame, hgone, -⟩ := removeQueueDpcLocked_spec h d
    exact ⟨b, s', hrun, hiff, hsame, hgone⟩
  drain c hc := ⟨_, drainTurns_empties h hc⟩

/-- Two objects are queued on processor 1 and one of them is called. -/
def dpcActions : List DpcAction := [.insert 1 5 2 3, .insert 1 6 0 0, .retire 1]

def bootedDpc : DpcSys :=
  kiInitializeDpcSubsystem ⟨⟨fun _ => none, fun _ => none⟩, fun _ => keInitializeDpc 0x4000 7,
    fun _ => false, false, [], []⟩

end MeuOS.Ke
