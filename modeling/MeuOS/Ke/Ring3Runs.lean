import MeuOS.Ke.Ring3
import Mathlib.Data.List.Nodup

/-! What keeps the contexts of ring 3 apart. The kernel stack, the GS base and the CR3 of the
CPU are those of the innermost context of the current thread, every suspended context has
its frame on a stack of its own, and every child has the registers of its parent saved. -/
namespace MeuOS.Ke

open MeuOS.Lib

/-! ## One thread -/

/-- The frame of the context is on the stack, if it has one, and still there. -/
structure Ring3Context.Fits (c : Ring3Context) (kstack : Nat) : Prop where
  frame : c.frame = none ∨ c.frame = some kstack
  intact : c.intact = true

namespace Ring3Thread

variable {th : Ring3Thread} {c : Ring3Context} {f : Ring3Context → Ring3Context}

/-- Each child has saved the registers of the context below it, which waits. -/
def Suspended (base : Option BaseContext) (kstackTop : Nat) : List ChildContext → Prop
  | [] => True
  | c :: rest => c.saved.rsp0 = stackOf kstackTop rest ∧
      (∃ p, innermostOf base rest = some p ∧ c.saved.gsBase = p.teb ∧ c.saved.cr3 = p.cr3 ∧
        p.frame ≠ none) ∧
      Suspended base kstackTop rest

structure Sound (th : Ring3Thread) : Prop where
  nodup : th.kstacks.Nodup
  fits : ∀ p ∈ th.contexts, p.1.Fits p.2
  marked : th.base ≠ none → th.isRing3 = true
  suspended : Suspended th.base th.kstackTop th.children
  dead : th.terminated = true → th.base = none ∧ th.children = []

theorem sound_empty (hbase : th.base = none) (hchildren : th.children = []) : th.Sound := by
  refine ⟨?_, ?_, fun h => absurd hbase h, ?_, fun _ => ⟨hbase, hchildren⟩⟩
  · rw [kstacks, hchildren]
    exact List.nodup_singleton _
  · rw [contexts, hbase, hchildren]
    nofun
  · rw [hchildren]
    trivial

theorem sound_new (teb kstack procCr3 : Nat) :
    Sound ⟨true, teb, kstack, false, some ⟨⟨teb, procCr3, none, true⟩, 0⟩, []⟩ := by
  refine ⟨List.nodup_singleton _, fun p hp => ?_, fun _ => rfl, trivial, nofun⟩
  obtain rfl := List.mem_singleton.1 hp
  exact ⟨.inl rfl, rfl⟩

theorem innermost_eq_none (h : th.innermost = none) : th.base = none ∧ th.children = [] := by
  unfold innermost at h
  cases hchildren : th.children with
  | nil =>
    rw [hchildren] at h
    exact ⟨Option.map_eq_none_iff.1 h, rfl⟩
  | cons c rest =>
    rw [hchildren] at h
    cases h

theorem innermost_of_empty (hbase : th.base = none) (hchildren : th.children = []) :
    th.innermost = none := by
  rw [innermost, hchildren, hbase]
  rfl

theorem topStack_mem (th : Ring3Thread) : th.topStack ∈ th.kstacks := by
  unfold topStack kstacks
  cases th.children with
  | nil => exact List.mem_cons_self
  | cons c rest => exact List.mem_cons_of_mem _ List.mem_cons_self

theorem innermost_mem (h : th.innermost = some c) : (c, th.topStack) ∈ th.contexts := by
  unfold innermost at h
  unfold contexts topStack
  cases hchildren : th.children with
  | nil =>
    rw [hchildren] at h
    obtain ⟨b, hb, rfl⟩ := Option.map_eq_some_iff.1 h
    simp [hb, stackOf]
  | cons d rest =>
    rw [hchildren] at h
    cases h
    simp [stackOf]

theorem contexts_kstacks {p : Ring3Context × Nat} (hp : p ∈ th.contexts) : p.2 ∈ th.kstacks := by
  unfold contexts at hp
  unfold kstacks
  rcases List.mem_append.1 hp with hp | hp
  · obtain ⟨c, hc, rfl⟩ := List.mem_map.1 hp
    exact List.mem_cons_of_mem _ (List.mem_map_of_mem hc)
  · obtain ⟨b, -, rfl⟩ : ∃ b, th.base = some b ∧ (b.context, th.kstackTop) = p := by simpa using hp
    exact List.mem_cons_self

/-- A context is the innermost one, or has another kernel stack. -/
theorem Sound.innermost_or (hth : th.Sound) (hc : th.innermost = some c) {p : Ring3Context × Nat}
    (hp : p ∈ th.contexts) : p = (c, th.topStack) ∨ p.2 ≠ th.topStack := by
  have hnodup := hth.nodup
  unfold innermost at hc
  unfold contexts at hp
  unfold kstacks at hnodup
  unfold topStack
  cases hchildren : th.children with
  | nil =>
    rw [hchildren] at hc hp
    obtain ⟨b, hb, rfl⟩ := Option.map_eq_some_iff.1 hc
    left
    simpa [hb, stackOf] using hp
  | cons d rest =>
    rw [hchildren] at hc hp hnodup
    cases hc
    simp only [List.map_cons, List.nodup_cons, List.mem_cons, not_or] at hnodup
    obtain ⟨⟨htop, hrest⟩, hd, -⟩ := hnodup
    simp only [List.map_cons, List.cons_append, List.mem_cons, List.mem_append, List.mem_map] at hp
    rcases hp with rfl | ⟨e, he, rfl⟩ | hbase
    · exact .inl rfl
    · refine .inr fun heq => hd ?_
      rw [stackOf] at heq
      rw [← heq]
      exact List.mem_map_of_mem he
    · obtain ⟨b, hb, rfl⟩ : ∃ b, th.base = some b ∧ (b.context, th.kstackTop) = p := by
        simpa using hbase
      exact .inr htop

/-- Under a child the base waits. -/
theorem Sound.base_waits (hth : th.Sound) (hne : th.children ≠ []) {b : BaseContext}
    (hb : th.base = some b) : b.context.frame ≠ none := by
  have hsus := hth.suspended
  generalize th.children = cs at hne hsus
  induction cs with
  | nil => exact absurd rfl hne
  | cons c rest ih =>
    obtain ⟨-, ⟨p, hp, -, -, hframe⟩, hrest⟩ := hsus
    cases rest with
    | nil =>
      rw [innermostOf, hb] at hp
      cases hp
      exact hframe
    | cons d rest => exact ih (by simp) hrest

/-! ## Changing contexts -/

theorem mapContexts_eq_self (h : ∀ p ∈ th.contexts, f p.1 = p.1) : th.mapContexts f = th := by
  obtain ⟨isRing3, userTeb, kstackTop, terminated, base, children⟩ := th
  have hbase : (base.map fun b => { b with context := f b.context }) = base := by
    cases base with
    | none => rfl
    | some b =>
      have hb : f b.context = b.context := h (b.context, kstackTop) (by simp [contexts])
      rw [Option.map_some, hb]
  have hchildren : (children.map fun c => { c with context := f c.context }) = children := by
    refine (List.map_congr_left fun c hc => ?_).trans (List.map_id children)
    have hc' : f c.context = c.context := h (c.context, c.kstk)
      (List.mem_append_left _ (List.mem_map_of_mem hc))
    rw [hc']
    rfl
  simp only [mapContexts, hbase, hchildren]

section mapInnermost

variable (f : Ring3Context → Ring3Context) (th : Ring3Thread)

theorem mapInnermost_kstacks : (th.mapInnermost f).kstacks = th.kstacks := by
  unfold mapInnermost kstacks
  cases th.children <;> simp

theorem mapInnermost_topStack : (th.mapInnermost f).topStack = th.topStack := by
  unfold mapInnermost topStack
  cases th.children <;> simp [stackOf]

theorem mapInnermost_fields : (th.mapInnermost f).userTeb = th.userTeb ∧
    (th.mapInnermost f).isRing3 = th.isRing3 ∧ (th.mapInnermost f).kstackTop = th.kstackTop ∧
    (th.mapInnermost f).terminated = th.terminated := by
  unfold mapInnermost
  cases th.children <;> exact ⟨rfl, rfl, rfl, rfl⟩

theorem mapInnermost_saved : (th.mapInnermost f).children.map ChildContext.saved =
    th.children.map ChildContext.saved := by
  unfold mapInnermost
  cases th.children <;> simp

end mapInnermost

theorem mapInnermost_innermost (h : th.innermost = some c) :
    (th.mapInnermost f).innermost = some (f c) := by
  unfold innermost at h ⊢
  unfold mapInnermost
  cases hchildren : th.children with
  | nil =>
    rw [hchildren] at h
    obtain ⟨b, hb, rfl⟩ := Option.map_eq_some_iff.1 h
    simp [innermostOf, hb]
  | cons d rest =>
    rw [hchildren] at h
    cases h
    rfl

theorem mapInnermost_contexts (h : th.innermost = some c) {p : Ring3Context × Nat}
    (hp : p ∈ (th.mapInnermost f).contexts) : p = (f c, th.topStack) ∨ p ∈ th.contexts := by
  unfold innermost at h
  unfold mapInnermost contexts at hp
  unfold topStack contexts
  cases hchildren : th.children with
  | nil =>
    rw [hchildren] at h hp
    obtain ⟨b, hb, rfl⟩ := Option.map_eq_some_iff.1 h
    left
    simpa [hb, hchildren, stackOf] using hp
  | cons d rest =>
    rw [hchildren] at h hp
    cases h
    simp only [List.map_cons, List.cons_append, List.mem_cons] at hp ⊢
    rcases hp with rfl | hp
    · exact .inl rfl
    · exact .inr (.inr hp)

/-- The base of a thread changes with its innermost context only where it is that. -/
theorem mapInnermost_base {b : BaseContext} (hb : (th.mapInnermost f).base = some b) :
    th.base = some b ∧ th.children ≠ [] ∨
      th.children = [] ∧ ∃ b₀, th.base = some b₀ ∧ b = { b₀ with context := f b₀.context } := by
  unfold mapInnermost at hb
  cases hchildren : th.children with
  | nil =>
    rw [hchildren] at hb
    obtain ⟨b₀, hb₀, rfl⟩ := Option.map_eq_some_iff.1 hb
    exact .inr ⟨rfl, b₀, hb₀, rfl⟩
  | cons c rest =>
    rw [hchildren] at hb
    exact .inl ⟨hb, by simp⟩

theorem Sound.mapInnermost (hth : th.Sound) (hc : th.innermost = some c)
    (hfits : (f c).Fits th.topStack) : (th.mapInnermost f).Sound := by
  obtain ⟨-, hring, hkstack, hterm⟩ := mapInnermost_fields f th
  refine ⟨by rw [mapInnermost_kstacks]; exact hth.nodup, fun p hp => ?_, fun h => ?_, ?_, fun h => ?_⟩
  · rcases mapInnermost_contexts hc hp with rfl | hp
    · exact hfits
    · exact hth.fits p hp
  · rw [hring]
    refine hth.marked fun hnone => h ?_
    unfold Ring3Thread.mapInnermost
    cases th.children <;> simp [hnone]
  · have hsus := hth.suspended
    unfold Ring3Thread.mapInnermost
    cases hchildren : th.children with
    | nil => exact trivial
    | cons d rest =>
      rw [hchildren] at hsus
      exact hsus
  · rw [hterm] at h
    obtain ⟨hbase, hchildren⟩ := hth.dead h
    rw [innermost_of_empty hbase hchildren] at hc
    cases hc

end Ring3Thread

/-! ## The machine -/

namespace Ring3Machine

variable {s s' : Ring3Machine} {c : Ring3Context}

/-- No two threads have a kernel stack in common. -/
def Apart (thread : Nat → Ring3Thread) (created : Nat) : Prop :=
  ∀ t u, t < created → u < created → t ≠ u → (thread t).kstacks.Disjoint (thread u).kstacks

structure Inv (s : Ring3Machine) : Prop where
  found : s.lost = false
  current_lt : s.current < s.created
  nonzero : ∀ t, t < s.created → (s.thread t).kstackTop ≠ 0
  sound : ∀ t, (s.thread t).Sound
  apart : Apart s.thread s.created
  uncreated : ∀ t, s.created ≤ t → (s.thread t).base = none ∧ (s.thread t).children = []
  inactive : s.ring3Active = false → s.rsp0 = (s.thread 0).kstackTop ∧
    ∀ t, (s.thread t).base = none ∧ (s.thread t).children = []
  active : s.ring3Active = true → s.currentThread.terminated = false →
    s.rsp0 = s.currentThread.topStack
  regs : ∀ c, s.currentThread.innermost = some c → s.gsBase = c.teb ∧ s.cr3 = c.cr3
  ring : s.inRing3 = true → ∃ c, s.currentThread.innermost = some c ∧ c.frame = none
  unstarted : ∀ t b, (s.thread t).base = some b → b.context.frame = none →
    t = s.current ∧ s.inRing3 = true ∨ (s.thread t).userTeb = b.context.teb

theorem Ring3Booted.inv (h : Ring3Booted s) : s.Inv := by
  obtain ⟨⟨hcur, hcreated, hring, hactive⟩, hlost, ⟨hrsp0, hne⟩, hempty⟩ := h
  have hinner : s.currentThread.innermost = none :=
    Ring3Thread.innermost_of_empty (hempty _).1 (hempty _).2
  refine ⟨hlost, by omega, fun t ht => ?_, fun t => Ring3Thread.sound_empty (hempty t).1 (hempty t).2,
    fun t u ht hu hne => by omega, fun t _ => hempty t, fun _ => ⟨hrsp0, hempty⟩, fun h => ?_,
    fun c hc => ?_, fun h => ?_, fun t b hb => ?_⟩
  · obtain rfl : t = 0 := by omega
    exact hne
  · rw [hactive] at h
    cases h
  · rw [hinner] at hc
    cases hc
  · rw [hring] at h
    cases h
  · rw [(hempty t).1] at hb
    cases hb

/-- A thread with a context of ring 3 has switched the kernel to ring 3. -/
theorem Inv.active_of_innermost (h : s.Inv) (hc : s.currentThread.innermost = some c) :
    s.ring3Active = true ∧ s.rsp0 = s.currentThread.topStack := by
  have halive : s.currentThread.terminated = false := by
    by_contra hdead
    obtain ⟨hbase, hchildren⟩ := (h.sound s.current).dead (Bool.of_not_eq_false hdead)
    have hnone := Ring3Thread.innermost_of_empty hbase hchildren
    exact absurd (hc.symm.trans hnone) nofun
  have hactive : s.ring3Active = true := by
    by_contra hinactive
    obtain ⟨hbase, hchildren⟩ := (h.inactive (Bool.of_not_eq_true hinactive)).2 s.current
    have hnone := Ring3Thread.innermost_of_empty hbase hchildren
    exact absurd (hc.symm.trans hnone) nofun
  exact ⟨hactive, h.active hactive halive⟩

/-- A context that is not the innermost of the current thread has its frame elsewhere. -/
theorem Inv.frame_elsewhere (h : s.Inv) (hc : s.currentThread.innermost = some c) {t : Nat}
    {p : Ring3Context × Nat} (hp : p ∈ (s.thread t).contexts) :
    t = s.current ∧ p = (c, s.currentThread.topStack) ∨ p.1.frame ≠ some s.rsp0 := by
  have hrsp0 := (h.active_of_innermost hc).2
  have hfits := (h.sound t).fits p hp
  by_cases ht : t = s.current
  · subst ht
    rcases (h.sound s.current).innermost_or hc hp with heq | hne
    · exact .inl ⟨rfl, heq⟩
    · refine .inr fun hframe => hne ?_
      rcases hfits.frame with hnone | hsome
      · rw [hnone] at hframe
        cases hframe
      · rw [hsome, hrsp0] at hframe
        exact Option.some.inj hframe
  · refine .inr fun hframe => ?_
    have hlt : t < s.created := by
      by_contra hge
      obtain ⟨hbase, hchildren⟩ := h.uncreated t (Nat.le_of_not_lt hge)
      rw [Ring3Thread.contexts, hbase, hchildren] at hp
      cases hp
    have hmem : p.2 ∈ (s.thread t).kstacks := Ring3Thread.contexts_kstacks hp
    rcases hfits.frame with hnone | hsome
    · rw [hnone] at hframe
      cases hframe
    · rw [hsome, hrsp0] at hframe
      rw [Option.some.inj hframe] at hmem
      exact h.apart t s.current hlt h.current_lt ht hmem (Ring3Thread.topStack_mem _)

/-- While a context runs, no frame is on the stack that its traps land on. -/
theorem Inv.no_frame (h : s.Inv) (hring : s.inRing3 = true) (t : Nat) :
    ∀ p ∈ (s.thread t).contexts, p.1.frame ≠ some s.rsp0 := by
  intro p hp
  obtain ⟨c, hc, hframe⟩ := h.ring hring
  rcases h.frame_elsewhere hc hp with ⟨-, rfl⟩ | hne
  · rw [hframe]
    nofun
  · exact hne

theorem Inv.integrity (h : s.Inv) : s.Integrity where
  rsp0 hring := by
    obtain ⟨c, hc, -⟩ := h.ring hring
    refine ⟨⟨s.current, h.current_lt, ?_⟩, h.no_frame hring⟩
    rw [(h.active_of_innermost hc).2]
    exact Ring3Thread.topStack_mem _
  regs hring := by
    obtain ⟨c, hc, -⟩ := h.ring hring
    exact ⟨c, hc, h.regs c hc⟩
  intact t p hp := ((h.sound t).fits p hp).intact
  found := h.found

/-! ## Steps of the current thread -/

@[simp] theorem currentThread_setCurrent (th : Ring3Thread) : (s.setCurrent th).currentThread = th := by
  simp [currentThread, setCurrent]

theorem forall_update {P : Ring3Thread → Prop} {thread : Nat → Ring3Thread} (h : ∀ t, P (thread t))
    {a : Nat} {th : Ring3Thread} (hth : P th) (t : Nat) : P (Function.update thread a th t) := by
  by_cases ht : t = a
  · subst ht
    rw [Function.update_self]
    exact hth
  · rw [Function.update_of_ne ht]
    exact h t

/-- A thread may get a kernel stack that nobody has. -/
theorem Apart.update {thread : Nat → Ring3Thread} {created a : Nat} {th : Ring3Thread}
    (h : Apart thread created) (ha : a < created)
    (hnew : ∀ k ∈ th.kstacks, k ∈ (thread a).kstacks ∨ ∀ t, t < created → k ∉ (thread t).kstacks) :
    Apart (Function.update thread a th) created := by
  have hone : ∀ t, t < created → t ≠ a → th.kstacks.Disjoint (thread t).kstacks := by
    intro t ht hta k hk hkt
    rcases hnew k hk with hold | hfresh
    · exact h a t ha ht (Ne.symm hta) hold hkt
    · exact hfresh t ht hkt
  intro t u ht hu hne
  by_cases hta : t = a
  · subst hta
    rw [Function.update_self, Function.update_of_ne (Ne.symm hne)]
    exact hone u hu (Ne.symm hne)
  · rw [Function.update_of_ne hta]
    by_cases hua : u = a
    · subst hua
      rw [Function.update_self]
      exact fun k hkt hk => hone t ht hne hk hkt
    · rw [Function.update_of_ne hua]
      exact h t u ht hu hne

theorem Inv.alive_of_innermost (h : s.Inv) (hc : s.currentThread.innermost = some c) :
    s.currentThread.terminated = false := by
  by_contra hdead
  obtain ⟨hbase, hchildren⟩ := (h.sound s.current).dead (Bool.of_not_eq_false hdead)
  exact absurd (hc.symm.trans (Ring3Thread.innermost_of_empty hbase hchildren)) nofun

/-- The current thread becomes `th`, on the kernel stacks it had or on new ones. -/
theorem Inv.setThread (h : s.Inv) {th : Ring3Thread}
    (hthread : s'.thread = Function.update s.thread s.current th) (hcreated : s'.created = s.created)
    (hcurrent : s'.current = s.current) (hlost : s'.lost = false) (hsound : th.Sound)
    (hkstack : th.kstackTop = s.currentThread.kstackTop)
    (hnew : ∀ k ∈ th.kstacks, k ∈ s.currentThread.kstacks ∨
      ∀ t, t < s.created → k ∉ (s.thread t).kstacks)
    (hactive : s'.ring3Active = true) (hrsp0 : th.terminated = false → s'.rsp0 = th.topStack)
    (hregs : ∀ c, th.innermost = some c → s'.gsBase = c.teb ∧ s'.cr3 = c.cr3)
    (hring : s'.inRing3 = true → ∃ c, th.innermost = some c ∧ c.frame = none)
    (hunstarted : ∀ b, th.base = some b → b.context.frame = none →
      s'.inRing3 = true ∨ th.userTeb = b.context.teb) : s'.Inv := by
  have hcur : s'.currentThread = th := by
    rw [currentThread, hthread, hcurrent, Function.update_self]
  have hother : ∀ t, t ≠ s.current → s'.thread t = s.thread t := by
    intro t ht
    rw [hthread, Function.update_of_ne ht]
  have hsame : s'.thread s.current = th := by
    rw [hthread, Function.update_self]
  refine ⟨hlost, by rw [hcurrent, hcreated]; exact h.current_lt, fun t ht => ?_, fun t => ?_, ?_,
    fun t ht => ?_, fun hin => absurd (hactive.symm.trans hin) nofun, fun _ => ?_, ?_, ?_,
    fun t b hb hframe => ?_⟩
  · by_cases ht' : t = s.current
    · rw [ht', hsame, hkstack]
      exact h.nonzero _ h.current_lt
    · rw [hother t ht']
      exact h.nonzero t (hcreated ▸ ht)
  · rw [hthread]
    exact forall_update h.sound hsound t
  · rw [hthread, hcreated]
    exact h.apart.update h.current_lt hnew
  · rw [hcreated] at ht
    rw [hother t fun heq => absurd h.current_lt (Nat.not_lt.2 (heq ▸ ht))]
    exact h.uncreated t ht
  · rw [hcur]
    exact hrsp0
  · rw [hcur]
    exact hregs
  · rw [hcur]
    exact hring
  · by_cases ht : t = s.current
    · rw [ht, hsame] at hb
      rw [ht, hsame, hcurrent]
      exact (hunstarted b hb hframe).imp_left fun hr => ⟨rfl, hr⟩
    · rw [hother t ht] at hb ⊢
      exact .inr ((h.unstarted t b hb hframe).resolve_left fun hleft => ht hleft.1)

/-- The innermost context of the current thread gets or loses its frame. -/
theorem Inv.mapInnermost (h : s.Inv) (hc : s.currentThread.innermost = some c)
    {f : Ring3Context → Ring3Context} {ring : Bool} (hfits : (f c).Fits s.currentThread.topStack)
    (hteb : (f c).teb = c.teb) (hcr3 : (f c).cr3 = c.cr3)
    (hring : ring = true ↔ (f c).frame = none) :
    Inv { s.setCurrent (s.currentThread.mapInnermost f) with inRing3 := ring } := by
  obtain ⟨hactive, hrsp0⟩ := h.active_of_innermost hc
  have hinner := Ring3Thread.mapInnermost_innermost (f := f) hc
  obtain ⟨-, -, hkstack, -⟩ := Ring3Thread.mapInnermost_fields f s.currentThread
  refine h.setThread rfl rfl rfl h.found ((h.sound s.current).mapInnermost hc hfits) hkstack
    (fun k hk => .inl ?_) hactive (fun _ => ?_) (fun d hd => ?_) (fun hr => ⟨f c, hinner, hring.1 hr⟩)
    fun b hb hframe => .inl (hring.2 ?_)
  · rw [Ring3Thread.mapInnermost_kstacks] at hk
    exact hk
  · rw [Ring3Thread.mapInnermost_topStack]
    exact hrsp0
  · rw [hinner] at hd
    cases hd
    rw [hteb, hcr3]
    exact h.regs c hc
  · rcases Ring3Thread.mapInnermost_base hb with ⟨hold, hne⟩ | ⟨hempty, b₀, hb₀, rfl⟩
    · exact absurd hframe ((h.sound s.current).base_waits hne hold)
    · have hcb : c = b₀.context := by
        rw [Ring3Thread.innermost, hempty, hb₀] at hc
        exact (Option.some.inj hc).symm
      rw [hcb]
      exact hframe

/-- A trap overwrites nobody's frame. -/
theorem Inv.pushFrame_eq (h : s.Inv) (hring : s.inRing3 = true) :
    s.pushFrame = { s.setCurrent (s.currentThread.mapInnermost fun c =>
      { c with frame := some s.rsp0, intact := true }) with inRing3 := false } := by
  have hkeep : (fun t => (s.thread t).mapContexts fun c =>
      if c.frame = some s.rsp0 then { c with intact := false } else c) = s.thread := by
    funext t
    exact Ring3Thread.mapContexts_eq_self fun p hp => if_neg (h.no_frame hring t p hp)
  unfold pushFrame
  simp only [hkeep]
  rfl

theorem Inv.trap (h : s.Inv) (hring : s.inRing3 = true) : s.pushFrame.Inv := by
  rw [h.pushFrame_eq hring]
  obtain ⟨c, hc, -⟩ := h.ring hring
  refine h.mapInnermost hc ⟨.inr ?_, rfl⟩ rfl rfl ⟨nofun, nofun⟩
  rw [(h.active_of_innermost hc).2]

theorem Inv.iret (h : s.Inv) (hc : s.currentThread.innermost = some c) :
    Inv { s.setCurrent (s.currentThread.mapInnermost fun c => { c with frame := none })
      with inRing3 := true } :=
  h.mapInnermost hc ⟨.inl rfl, ((h.sound s.current).fits _ (Ring3Thread.innermost_mem hc)).intact⟩
    rfl rfl ⟨fun _ => rfl, fun _ => rfl⟩

/-- A thread of ring 3 starts. -/
theorem Inv.ring3Trampoline (h : s.Inv) {b : BaseContext} (hkernel : s.inRing3 = false)
    (hbase : s.currentThread.base = some b) (hnew : b.context.frame = none)
    (halone : s.currentThread.children = []) :
    Inv { s with rsp0 := s.currentThread.kstackTop, gsBase := s.currentThread.userTeb, inRing3 := true } := by
  have hc : s.currentThread.innermost = some b.context := by
    rw [Ring3Thread.innermost, halone, hbase]
    rfl
  have huser : s.currentThread.userTeb = b.context.teb :=
    (h.unstarted s.current b hbase hnew).resolve_left fun hleft =>
      absurd (hkernel.symm.trans hleft.2) nofun
  have hactive := (h.active_of_innermost hc).1
  refine h.setThread (Function.update_eq_self s.current s.thread).symm rfl rfl h.found
    (h.sound s.current) rfl (fun k hk => .inl hk) hactive (fun _ => ?_) (fun c' hc' => ?_)
    (fun _ => ⟨_, hc, hnew⟩) fun b' hb' _ => .inl rfl
  · show s.currentThread.kstackTop = s.currentThread.topStack
    rw [Ring3Thread.topStack, halone]
    rfl
  · obtain rfl := Option.some.inj (hc.symm.trans hc')
    exact ⟨huser, (h.regs _ hc).2⟩

/-- A thread that runs an image of ring 3. -/
def markedThread (th : Ring3Thread) : Ring3Thread := { th with isRing3 := true, userTeb := tebAddr }

/-- The current thread behind `usermode_enter` and a change `g` of its own. -/
theorem usermodeEnter_thread (hne : s.currentThread.kstackTop ≠ 0) (image : Ring3Image) (depth : Nat)
    (g : Ring3Thread → Ring3Thread) :
    ((s.usermodeEnter image depth).setCurrent (g (s.usermodeEnter image depth).currentThread)).thread =
      Function.update s.thread s.current (g (markedThread s.currentThread)) := by
  have hmark : (s.usermodeEnter image depth).thread =
      Function.update s.thread s.current (markedThread s.currentThread) := by
    show Function.update s.thread s.current _ = _
    congr 1
    show ({ s.currentThread with
      isRing3 := true, userTeb := tebAddr, kstackTop := if s.currentThread.kstackTop = 0 then s.rsp0
        else s.currentThread.kstackTop } : Ring3Thread) = _
    rw [if_neg hne]
    rfl
  have hcur : (s.usermodeEnter image depth).currentThread = markedThread s.currentThread := by
    show (s.usermodeEnter image depth).thread s.current = _
    rw [hmark, Function.update_self]
  show Function.update (s.usermodeEnter image depth).thread s.current _ = _
  rw [hcur, hmark, Function.update_idem]

/-- A new context fits anywhere. -/
theorem imageContext_fits (image : Ring3Image) (k : Nat) : (s.imageContext image).Fits k :=
  ⟨.inl rfl, rfl⟩

theorem Inv.ldrRun (h : s.Inv) (image : Ring3Image) (hboot : s.current = 0)
    (hnone : s.currentThread.innermost = none) (halive : s.currentThread.terminated = false) :
    (s.ldrRun image).Inv := by
  obtain ⟨-, hchildren⟩ := Ring3Thread.innermost_eq_none hnone
  let base : BaseContext := ⟨s.imageContext image, s.cr3⟩
  let th : Ring3Thread := { markedThread s.currentThread with base := some base }
  have hthread : (s.ldrRun image).thread = Function.update s.thread s.current th :=
    usermodeEnter_thread (h.nonzero _ h.current_lt) image 0 fun t => { t with base := some base }
  have hinner : th.innermost = some (s.imageContext image) := by
    show Ring3Thread.innermostOf _ s.currentThread.children = _
    rw [hchildren]
    rfl
  have hsound : th.Sound := by
    refine ⟨(h.sound s.current).nodup, fun p hp => ?_, fun _ => rfl, ?_, fun hdead => ?_⟩
    · obtain rfl : p = (s.imageContext image, s.currentThread.kstackTop) := by
        have hmem : p ∈ s.currentThread.children.map (fun c => (c.context, c.kstk)) ++
            [(s.imageContext image, s.currentThread.kstackTop)] := hp
        rw [hchildren] at hmem
        simpa using hmem
      exact imageContext_fits image _
    · show Ring3Thread.Suspended _ _ s.currentThread.children
      rw [hchildren]
      trivial
    · exact absurd (halive.symm.trans hdead) nofun
  refine h.setThread hthread rfl rfl h.found hsound rfl (fun k hk => .inl hk) rfl (fun _ => ?_)
    (fun c hc => ?_) (fun _ => ⟨_, hinner, rfl⟩) fun b hb _ => .inl rfl
  · show s.rsp0 = Ring3Thread.stackOf s.currentThread.kstackTop s.currentThread.children
    rw [hchildren]
    cases hactive : s.ring3Active with
    | false =>
      rw [(h.inactive hactive).1, ← hboot]
      rfl
    | true =>
      rw [h.active hactive halive, Ring3Thread.topStack, hchildren]
  · rw [hinner] at hc
    cases hc
    exact ⟨rfl, rfl⟩

theorem Inv.runChildImage (h : s.Inv) (image : Ring3Image) {kstk : Nat} (hserving : s.Serving c)
    (hfresh : s.FreshStack kstk) : (s.runChildImage image kstk).Inv := by
  obtain ⟨-, hc, hframe⟩ := hserving
  obtain ⟨hactive, hrsp0⟩ := h.active_of_innermost hc
  let child : ChildContext := ⟨s.imageContext image, kstk, s.snapshot⟩
  let th : Ring3Thread := { markedThread s.currentThread with
    children := child :: s.currentThread.children }
  have hthread : (s.runChildImage image kstk).thread = Function.update s.thread s.current th :=
    usermodeEnter_thread (s := { s with rsp0 := kstk }) (h.nonzero _ h.current_lt) image _
      fun t => { t with children := child :: t.children }
  have hold := h.sound s.current
  have hnew : ∀ k ∈ th.kstacks, k = kstk ∨ k ∈ s.currentThread.kstacks := by
    intro k hk
    simp only [Ring3Thread.kstacks, th, markedThread, child, List.map_cons, List.mem_cons] at hk ⊢
    tauto
  have hsound : th.Sound := by
    refine ⟨?_, fun p hp => ?_, fun _ => rfl, ?_, fun hdead => ?_⟩
    · have hnodup := hold.nodup
      have hnot := hfresh.2 s.current h.current_lt
      simp only [Ring3Thread.kstacks, th, markedThread, child, List.map_cons, List.nodup_cons,
        List.mem_cons, not_or] at hnodup hnot ⊢
      exact ⟨⟨Ne.symm hnot.1, hnodup.1⟩, hnot.2, hnodup.2⟩
    · have hmem : p ∈ (child.context, kstk) :: s.currentThread.contexts := hp
      rcases List.mem_cons.1 hmem with rfl | hmem
      · exact imageContext_fits image _
      · exact hold.fits p hmem
    · exact ⟨hrsp0, ⟨c, hc, (h.regs c hc).1, (h.regs c hc).2, hframe⟩, hold.suspended⟩
    · exact absurd ((h.alive_of_innermost hc).symm.trans hdead) nofun
  refine h.setThread hthread rfl rfl h.found hsound rfl (fun k hk => ?_) rfl (fun _ => rfl)
    (fun d hd => ?_) (fun _ => ⟨_, rfl, rfl⟩) fun b hb _ => .inl rfl
  · rcases hnew k hk with rfl | hk
    · exact .inr hfresh.2
    · exact .inl hk
  · obtain rfl : s.imageContext image = d := Option.some.inj hd
    exact ⟨rfl, rfl⟩

/-- The thread that ends keeps its kernel stack. -/
theorem Inv.kiRing3ThreadExit (h : s.Inv) (hserving : s.Serving c) : s.kiRing3ThreadExit.Inv := by
  obtain ⟨hkernel, hc, -⟩ := hserving
  refine h.setThread rfl rfl rfl h.found (Ring3Thread.sound_empty rfl rfl) rfl (fun k hk => .inl ?_)
    (h.active_of_innermost hc).1 (fun halive => nomatch halive) (fun d hd => nomatch hd)
    (fun hr => absurd (hkernel.symm.trans hr) nofun) fun b hb => nomatch hb
  obtain rfl : k = s.currentThread.kstackTop := by simpa [Ring3Thread.kstacks] using hk
  exact List.mem_cons_self

/-- The jump of the last process to be entered: to its parent, or back to `kmain`. -/
theorem longjmpExit_cases (hjump : s.longjmpExit = some s')
    (hok : s.exitBuffer = some ⟨s.current, s.currentThread.children.length⟩) :
    (∃ ch rest, s.currentThread.children = ch :: rest ∧
      s' = (s.setCurrent { s.currentThread with children := rest }).restoreParent ch.saved) ∨
    ∃ b, s.currentThread.children = [] ∧ s.currentThread.base = some b ∧
      s' = { s.setCurrent { s.currentThread with base := none, children := [] } with
        cr3 := b.kernelCr3, gsBase := s.kpcr } := by
  unfold longjmpExit at hjump
  simp only [if_neg (not_not.2 hok)] at hjump
  cases hchildren : s.currentThread.children with
  | cons ch rest =>
    rw [hchildren] at hjump
    exact .inl ⟨ch, rest, rfl, (Option.some.inj hjump).symm⟩
  | nil =>
    rw [hchildren] at hjump
    cases hbase : s.currentThread.base with
    | none =>
      rw [hbase] at hjump
      cases hjump
    | some b =>
      rw [hbase] at hjump
      exact .inr ⟨b, rfl, rfl, (Option.some.inj hjump).symm⟩

/-- The parent is the innermost context again, and waits. -/
theorem Inv.parent (h : s.Inv) {ch : ChildContext} {rest : List ChildContext}
    (hchildren : s.currentThread.children = ch :: rest) :
    ch.saved.rsp0 = Ring3Thread.stackOf s.currentThread.kstackTop rest ∧
      ∃ p, Ring3Thread.innermostOf s.currentThread.base rest = some p ∧ ch.saved.gsBase = p.teb ∧
        ch.saved.cr3 = p.cr3 ∧ p.frame ≠ none := by
  have hsus := (h.sound s.current).suspended
  have hsus' : Ring3Thread.Suspended s.currentThread.base s.currentThread.kstackTop
      s.currentThread.children := hsus
  rw [hchildren] at hsus'
  exact ⟨hsus'.1, hsus'.2.1⟩

theorem Inv.longjmpExit (h : s.Inv) (hserving : s.Serving c) (hjump : s.longjmpExit = some s')
    (hok : s.exitBuffer = some ⟨s.current, s.currentThread.children.length⟩) : s'.Inv := by
  obtain ⟨hkernel, hc, -⟩ := hserving
  have hactive := (h.active_of_innermost hc).1
  have hold := h.sound s.current
  rcases longjmpExit_cases hjump hok with ⟨ch, rest, hchildren, rfl⟩ | ⟨b, hchildren, hbase, rfl⟩
  · obtain ⟨hrsp0, p, hp, hgs, hcr3, hframe⟩ := h.parent hchildren
    have hchildren' : (s.thread s.current).children = ch :: rest := hchildren
    have hsound : Ring3Thread.Sound { s.currentThread with children := rest } := by
      refine ⟨?_, fun q hq => ?_, hold.marked, ?_, fun hdead => ?_⟩
      · have hnodup := hold.nodup
        simp only [Ring3Thread.kstacks, hchildren', List.map_cons, List.nodup_cons, List.mem_cons,
          not_or] at hnodup
        exact List.nodup_cons.2 ⟨hnodup.1.2, hnodup.2.2⟩
      · refine hold.fits q ?_
        simp only [Ring3Thread.contexts, hchildren', List.map_cons, List.cons_append]
        exact List.mem_cons_of_mem _ hq
      · have hsus := hold.suspended
        rw [hchildren'] at hsus
        exact hsus.2.2
      · exact absurd ((h.alive_of_innermost hc).symm.trans hdead) nofun
    refine h.setThread rfl rfl rfl h.found hsound rfl (fun k hk => .inl ?_) hactive (fun _ => hrsp0)
      (fun d hd => ?_) (fun hr => absurd (hkernel.symm.trans hr) nofun) fun b hb hnone => ?_
    · simp only [Ring3Thread.kstacks, hchildren, List.map_cons, List.mem_cons] at hk ⊢
      tauto
    · obtain rfl : p = d := Option.some.inj (hp.symm.trans hd)
      exact ⟨hgs, hcr3⟩
    · exact absurd hnone (hold.base_waits (by rw [hchildren']; simp) hb)
  · refine h.setThread rfl rfl rfl h.found (Ring3Thread.sound_empty rfl rfl) rfl (fun k hk => .inl ?_)
      hactive (fun _ => ?_) (fun d hd => nomatch hd)
      (fun hr => absurd (hkernel.symm.trans hr) nofun) fun b' hb' => nomatch hb'
    · obtain rfl : k = s.currentThread.kstackTop := by simpa [Ring3Thread.kstacks] using hk
      exact List.mem_cons_self
    · refine (h.active_of_innermost hc).2.trans ?_
      rw [Ring3Thread.topStack, hchildren]
      rfl

/-- A thread outside `NtCreateProcess` comes back to its own registers. -/
theorem Inv.kiQuantumEnd (h : s.Inv) {next : Nat} (hkernel : s.inRing3 = false)
    (hnext : next < s.created) (hok : s.EventOk (.quantumEnd next)) : (s.kiQuantumEnd next).Inv := by
  have halone := hok.alone next rfl
  have hunstarted : ∀ t b, (s.thread t).base = some b → b.context.frame = none →
      (s.thread t).userTeb = b.context.teb := by
    intro t b hb hframe
    exact (h.unstarted t b hb hframe).resolve_left fun hleft =>
      absurd (hkernel.symm.trans hleft.2) nofun
  cases hactive : s.ring3Active with
  | false =>
    have heq : s.kiQuantumEnd next = { s with current := next } := by
      unfold Ring3Machine.kiQuantumEnd
      exact if_neg (by rw [hactive]; nofun)
    rw [heq]
    refine ⟨h.found, hnext, h.nonzero, h.sound, h.apart, h.uncreated, h.inactive, fun hin => ?_,
      fun c hc => ?_, fun hr => ?_, fun t b hb hframe => .inr (hunstarted t b hb hframe)⟩
    · exact absurd (hactive.symm.trans hin) nofun
    · obtain ⟨hbase, hchildren⟩ := (h.inactive hactive).2 next
      exact absurd (hc.symm.trans (Ring3Thread.innermost_of_empty hbase hchildren)) nofun
    · exact absurd (hkernel.symm.trans hr) nofun
  | true =>
    have heq : s.kiQuantumEnd next = { s with
        current := next, rsp0 := (s.thread next).kstackTop,
        gsBase := if (s.thread next).isRing3 then (s.thread next).userTeb else s.kpcr } := by
      unfold Ring3Machine.kiQuantumEnd
      exact if_pos hactive
    rw [heq]
    refine ⟨h.found, hnext, h.nonzero, h.sound, h.apart, h.uncreated,
      fun hin => absurd (hactive.symm.trans hin) nofun, fun _ _ => ?_, fun c hc => ?_,
      fun hr => absurd (hkernel.symm.trans hr) nofun,
      fun t b hb hframe => .inr (hunstarted t b hb hframe)⟩
    · show (s.thread next).kstackTop = (s.thread next).topStack
      rw [Ring3Thread.topStack, halone]
      rfl
    · have hc' : (s.thread next).innermost = some c := hc
      rw [Ring3Thread.innermost, halone] at hc'
      obtain ⟨b, hb, rfl⟩ := Option.map_eq_some_iff.1 hc'
      have hmarked : (s.thread next).isRing3 = true := (h.sound next).marked (by rw [hb]; nofun)
      obtain ⟨hteb, hcr3⟩ := hok.own next b rfl hb
      exact ⟨(if_pos hmarked).trans hteb, hcr3⟩

/-- A new thread, with a kernel stack that nobody has. -/
theorem Inv.addThread (h : s.Inv) {th : Ring3Thread} (hsound : th.Sound) (hchildren : th.children = [])
    (hfresh : s.FreshStack th.kstackTop)
    (hteb : ∀ b, th.base = some b → th.userTeb = b.context.teb) {active : Bool}
    (hactive : s.ring3Active = true ∧ active = true ∨ th.base = none ∧ active = s.ring3Active) :
    Inv { s.addThread th with ring3Active := active } := by
  have hnew : Function.update s.thread s.created th s.created = th := Function.update_self _ _ _
  have hold : ∀ t, t ≠ s.created → Function.update s.thread s.created th t = s.thread t :=
    fun t ht => Function.update_of_ne ht _ _
  have hcur : (Ring3Machine.currentThread { s.addThread th with ring3Active := active }) =
      s.currentThread := hold s.current (Nat.ne_of_lt h.current_lt)
  have hstacks : th.kstacks = [th.kstackTop] := by
    rw [Ring3Thread.kstacks, hchildren]
    rfl
  refine ⟨h.found, Nat.lt_succ_of_lt h.current_lt, fun t ht => ?_, forall_update h.sound hsound, ?_,
    fun t ht => ?_, fun hin => ?_, fun hin halive => ?_, fun c hc => ?_, fun hr => ?_,
    fun t b hb hframe => ?_⟩
  · show (Function.update s.thread s.created th t).kstackTop ≠ 0
    by_cases hc : t = s.created
    · rw [hc, hnew]
      exact hfresh.1
    · rw [hold t hc]
      exact h.nonzero t (Nat.lt_of_le_of_ne (Nat.le_of_lt_succ ht) hc)
  · intro t u ht hu hne
    show (Function.update s.thread s.created th t).kstacks.Disjoint
      (Function.update s.thread s.created th u).kstacks
    have hlt : ∀ v, v < s.created + 1 → v ≠ s.created → v < s.created := fun v hv hvc => by omega
    by_cases htc : t = s.created
    · have huc : u ≠ s.created := fun heq => hne (htc.trans heq.symm)
      rw [htc, hnew, hold u huc, hstacks]
      exact List.singleton_disjoint.2 (hfresh.2 u (hlt u hu huc))
    · rw [hold t htc]
      by_cases huc : u = s.created
      · rw [huc, hnew, hstacks]
        exact List.disjoint_singleton.2 (hfresh.2 t (hlt t ht htc))
      · rw [hold u huc]
        exact h.apart t u (hlt t ht htc) (hlt u hu huc) hne
  · show (Function.update s.thread s.created th t).base = none ∧
      (Function.update s.thread s.created th t).children = []
    have ht' : s.created + 1 ≤ t := ht
    rw [hold t (by omega)]
    exact h.uncreated t (by omega)
  · rcases hactive with ⟨-, hon⟩ | ⟨hbase, hsame⟩
    · exact absurd (hon.symm.trans hin) nofun
    · obtain ⟨hrsp0, hempty⟩ := h.inactive (hsame.symm.trans hin)
      refine ⟨?_, fun t => ?_⟩
      · show s.rsp0 = (Function.update s.thread s.created th 0).kstackTop
        have hpos := h.current_lt
        rw [hold 0 (by omega)]
        exact hrsp0
      · exact forall_update (P := fun th => th.base = none ∧ th.children = []) hempty
          ⟨hbase, hchildren⟩ t
  · rw [hcur] at halive ⊢
    refine h.active ?_ halive
    rcases hactive with ⟨hon, -⟩ | ⟨-, hsame⟩
    · exact hon
    · exact hsame.symm.trans hin
  · rw [hcur] at hc
    exact h.regs c hc
  · rw [hcur]
    exact h.ring hr
  · have hb' : (Function.update s.thread s.created th t).base = some b := hb
    show _ ∨ (Function.update s.thread s.created th t).userTeb = _
    by_cases hc : t = s.created
    · rw [hc, hnew] at hb' ⊢
      exact .inr (hteb b hb')
    · rw [hold t hc] at hb' ⊢
      exact h.unstarted t b hb' hframe

theorem Inv.step (h : s.Inv) {e : Ring3Event} (hok : s.EventOk e) (hstep : Ring3Step s e s') :
    s'.Inv := by
  cases hstep with
  | trap hring => exact h.trap hring
  | iret c hserving => exact h.iret hserving.2.1
  | ring3Trampoline b hkernel hbase hnew halone => exact h.ring3Trampoline hkernel hbase hnew halone
  | quantumEnd next hkernel hnext hother => exact h.kiQuantumEnd hkernel hnext hok
  | ldrRun image hkernel hboot hbase halive => exact h.ldrRun image hboot hbase halive
  | runChildImage image kstk c hserving hfresh => exact h.runChildImage image hserving hfresh
  | launchRing3Thread teb kstack procCr3 c hserving hfresh =>
    refine h.addThread (Ring3Thread.sound_new teb kstack procCr3) rfl hfresh (fun b hb => ?_)
      (.inl ⟨(h.active_of_innermost hserving.2.1).1, rfl⟩)
    obtain rfl := Option.some.inj hb
    rfl
  | createSystemThread kstack hkernel hfresh =>
    exact h.addThread (Ring3Thread.sound_empty rfl rfl) rfl hfresh (fun b (hb : none = some b) => nomatch hb)
      (.inr ⟨rfl, rfl⟩)
  | sysExitMain _ rsp c hserving hrsp hjump => exact h.longjmpExit hserving hjump (hok.process hrsp)
  | sysExitWorker rsp c hserving hrsp => exact h.kiRing3ThreadExit hserving
  | terminateProcess _ c hserving hjump => exact h.longjmpExit hserving hjump (hok.process trivial)
  | sysThreadExit c hserving => exact h.kiRing3ThreadExit hserving
  | userWrite off b hring hoff =>
    exact ⟨h.found, h.current_lt, h.nonzero, h.sound, h.apart, h.uncreated, h.inactive, h.active,
      h.regs, h.ring, h.unstarted⟩

theorem reach_inv (h : Reach Ring3Booted Ring3Step Ring3Machine.EventOk s) : s.Inv :=
  h.invariant (fun _ h => Ring3Booted.inv h) fun _ _ _ hinv hok hstep => hinv.step hok hstep

end Ring3Machine

end MeuOS.Ke
