import MeuOS.Cm.RegOps

/-! Paths: the names in them, and where a walk along them ends in a well-formed tree. -/
namespace MeuOS.Cm

open MeuOS.Lib MeuOS.Mm

/-! ## The names in a path -/

theorem component_ne_nil {c : UInt8} {cs : List UInt8} (hc : isSeparator c = false) :
    0 < (component (c :: cs)).length := by
  unfold component
  rw [show maxName - 1 = 62 + 1 from rfl, List.take_succ_cons,
    List.takeWhile_cons_of_pos (by rw [hc]; rfl)]
  exact Nat.succ_pos _

/-- What the turns of `reg_resolve_path` look for. -/
def components : List UInt8 → List (List UInt8)
  | [] => []
  | c :: cs =>
      if isSeparator c then components cs
      else component (c :: cs) :: components ((c :: cs).drop (component (c :: cs)).length)
termination_by path => path.length
decreasing_by
  · exact Nat.lt_succ_self _
  · rename_i hc
    have hpos : 0 < (component (c :: cs)).length := component_ne_nil (Bool.not_eq_true _ ▸ hc)
    rw [List.length_drop, List.length_cons]
    omega

def walk (create : Bool) : RegState → Nat → List (List UInt8) → Option (RegState × Nat)
  | s, k, [] => some (s, k)
  | s, k, name :: rest => (nextKey s k name create).bind fun r =>
      if r.2 = 0 then some (r.1, 0) else walk create r.1 r.2 rest

theorem resolveLoop_eq {create : Bool} {fuel : Nat} {s : RegState} {k : Nat} {path : List UInt8}
    (hfuel : path.length ≤ fuel) : resolveLoop create fuel s k path = walk create s k (components path) := by
  induction fuel generalizing s k path with
  | zero =>
    cases path with
    | nil =>
      rw [components]
      rfl
    | cons c cs => exact absurd hfuel (Nat.not_succ_le_zero _)
  | succ fuel ih =>
    cases path with
    | nil =>
      rw [components]
      rfl
    | cons c cs =>
      rw [components]
      unfold resolveLoop
      by_cases hc : isSeparator c = true
      · rw [if_pos hc, if_pos hc]
        exact ih (Nat.le_of_succ_le_succ hfuel)
      · rw [if_neg hc, if_neg hc, walk]
        have hpos : 0 < (component (c :: cs)).length := component_ne_nil (Bool.not_eq_true _ ▸ hc)
        have hlength : ((c :: cs).drop (component (c :: cs)).length).length ≤ fuel := by
          rw [List.length_cons] at hfuel
          rw [List.length_drop, List.length_cons]
          omega
        refine Option.bind_congr fun r _ => ?_
        dsimp only
        rw [ih hlength]

theorem regResolvePath_eq {s : RegState} {k : Nat} (hk : k ≠ 0) (path : List UInt8) (create : Bool) :
    regResolvePath s k path create = walk create s k (components path) := by
  unfold regResolvePath
  dsimp only
  rw [if_neg hk, if_neg hk]
  exact resolveLoop_eq (Nat.le_refl _)

/-- A name between separators. -/
theorem noSeparator {name : List UInt8} (h : (name.all fun c => !isSeparator c) = true) :
    ∀ c ∈ name, isSeparator c = false := by
  simpa only [List.all_eq_true, Bool.not_eq_true'] using h

theorem components_segment {name rest : List UInt8} (hne : name ≠ [])
    (hname : ∀ c ∈ name, isSeparator c = false) (hshort : name.length < maxName)
    (hrest : ∀ c ∈ rest.head?, isSeparator c = true) :
    components (name ++ rest) = name :: components rest := by
  cases name with
  | nil => exact absurd rfl hne
  | cons c cs =>
    have hcomponent : component (c :: cs ++ rest) = c :: cs := by
      unfold component
      rw [List.take_append, List.take_of_length_le (by simp only [maxName] at hshort ⊢; omega),
        List.takeWhile_append_of_pos fun d hd => by rw [hname d hd]; rfl]
      have hstop : (rest.take (maxName - 1 - (c :: cs).length)).takeWhile (fun d => !isSeparator d) = [] := by
        cases rest with
        | nil => rw [List.take_nil, List.takeWhile_nil]
        | cons d ds =>
          cases maxName - 1 - (c :: cs).length with
          | zero => rfl
          | succ left =>
            rw [List.take_succ_cons, List.takeWhile_cons_of_neg (by rw [hrest d rfl]; exact Bool.false_ne_true)]
      rw [hstop, List.append_nil]
    rw [List.cons_append, components, if_neg (by rw [hname c List.mem_cons_self]; exact Bool.false_ne_true),
      ← List.cons_append, hcomponent, List.drop_left]

theorem components_separator {c : UInt8} (hc : isSeparator c = true) (rest : List UInt8) :
    components (c :: rest) = components rest := by
  rw [components, if_pos hc]

/-- Names are short, and strings if the path is one. -/
theorem components_names {path : List UInt8} (hpath : 0 ∉ path) :
    ∀ n ∈ components path, n.length < maxName ∧ 0 ∉ n := by
  induction path using components.induct with
  | case1 =>
    rw [components]
    exact fun n hn => absurd hn List.not_mem_nil
  | case2 c cs hc ih =>
    rw [components_separator hc]
    exact ih fun h0 => hpath (List.mem_cons_of_mem _ h0)
  | case3 c cs hc ih =>
    rw [components, if_neg hc]
    intro n hn
    rcases List.mem_cons.1 hn with rfl | hn
    · unfold component
      refine ⟨?_, fun h0 => hpath (List.mem_of_mem_take (List.takeWhile_subset _ h0))⟩
      have hle := (List.takeWhile_sublist (fun c => !isSeparator c) (l := (c :: cs).take (maxName - 1))).length_le
      rw [List.length_take] at hle
      simp only [maxName] at hle ⊢
      omega
    · exact ih (fun h0 => hpath (List.mem_of_mem_drop h0)) n hn

/-! ## Walking a tree -/

/-- The walk ends early: a key is missing and, where keys are made, there is no memory for it. -/
inductive Lost (create : Bool) : RegState → Nat → List (List UInt8) → Prop
  | here {s : RegState} {k : Nat} {name : List UInt8} {rest : List (List UInt8)}
      (hmissing : regFindChild s.mem k name = some 0)
      (hmemory : create = true → regKmalloc s regKeySize = some (s, 0)) :
      Lost create s k (name :: rest)
  | later {s s' : RegState} {k j : Nat} {name : List UInt8} {rest : List (List UInt8)}
      (hnext : nextKey s k name create = some (s', j)) (hj : j ≠ 0) (hlost : Lost create s' j rest) :
      Lost create s k (name :: rest)

section Walk

variable {s s' : RegState} {live : List Alloc} {role : Nat → Option Role} {k : Nat}
  {above : List Nat} {create : Bool} {name : List UInt8}

theorem RegTree.nextKey (h : RegTree s live role none) (hk : role k = some (.key above))
    (hshort : name.length < maxName) (hname : 0 ∉ name) (create : Bool) :
    ∃ s' j, nextKey s k name create = some (s', j) ∧
      ∃ role', RegStep s role s' role' ∧ (j ≠ 0 → role' j = some (.key (k :: above)) ∧
        strcmpci s'.mem j name = 0) := by
  cases create with
  | false =>
    obtain ⟨j, hfind, hchild⟩ := h.findChild hk name
    refine ⟨s, j, ?_, role, h.same, hchild⟩
    unfold Cm.nextKey
    rw [if_neg Bool.false_ne_true, hfind]
    rfl
  | true =>
    unfold Cm.nextKey
    rw [if_pos rfl]
    exact h.getOrCreateChild hk hshort hname

/-- When a step of the walk finds nothing. -/
theorem RegTree.nextKey_zero (h : RegTree s live role none) (hk : role k = some (.key above)) :
    (∃ s', Cm.nextKey s k name create = some (s', 0)) ↔ regFindChild s.mem k name = some 0 ∧
      (create = true → regKmalloc s regKeySize = some (s, 0)) := by
  obtain ⟨j, hfind, -⟩ := h.findChild hk name
  unfold Cm.nextKey regGetOrCreateChild
  rw [hfind]
  cases create with
  | false =>
    rw [if_neg Bool.false_ne_true, Option.map_some]
    constructor
    · rintro ⟨s', heq⟩
      cases heq
      exact ⟨rfl, fun hcreate => by cases hcreate⟩
    · rintro ⟨hj, -⟩
      cases hj
      exact ⟨s, rfl⟩
  | true =>
    rw [if_pos rfl, Option.bind_some]
    by_cases hj : j ≠ 0
    · rw [if_pos hj]
      refine iff_of_false ?_ fun hboth => hj (Option.some.inj hboth.1)
      rintro ⟨s', heq⟩
      cases heq
      exact hj rfl
    rw [if_neg hj, not_not.1 hj]
    unfold regAllocKey
    rcases h.kmalloc (show regKeySize + 15 < 2 ^ 64 by decide) with
      hnull | ⟨m, a, hrun, hne, -, -, -, -⟩
    · rw [hnull]
      exact iff_of_true ⟨s, rfl⟩ ⟨rfl, fun _ => rfl⟩
    · rw [hrun, Option.map_some]
      dsimp only
      rw [if_neg hne, Option.map_some]
      dsimp only
      rw [if_neg hne]
      refine iff_of_false ?_ fun hboth => hne (congrArg Prod.snd (Option.some.inj (hboth.2 rfl)))
      rintro ⟨s', heq⟩
      exact hne (congrArg Prod.snd (Option.some.inj heq))

/-- A walk of `n` names ends `n` levels down, or is lost. -/
theorem RegTree.walk {names : List (List UInt8)} (h : RegTree s live role none)
    (hk : role k = some (.key above)) (hne : k ≠ 0)
    (hnames : ∀ n ∈ names, n.length < maxName ∧ 0 ∉ n) (create : Bool) :
    ∃ s' k', walk create s k names = some (s', k') ∧ (k' = 0 ↔ Lost create s k names) ∧
      ∃ role', RegStep s role s' role' ∧ (k' ≠ 0 → ∃ above', role' k' = some (.key above') ∧
        above'.length = above.length + names.length ∧
        ∀ n ∈ names.getLast?, strcmpci s'.mem k' n = 0) := by
  induction names generalizing s k above live role with
  | nil =>
    refine ⟨s, k, rfl, iff_of_false hne (by rintro ⟨⟩), role, h.same, fun _ => ⟨above, hk, rfl, ?_⟩⟩
    exact fun n hn => by cases hn
  | cons name rest ih =>
    obtain ⟨hshort, hname⟩ := hnames name List.mem_cons_self
    obtain ⟨s₁, j, hnext, role₁, hstep, hchild⟩ := h.nextKey hk hshort hname create
    unfold Cm.walk
    rw [hnext, Option.bind_some]
    dsimp only
    by_cases hj : j = 0
    · subst hj
      obtain ⟨hmissing, hmemory⟩ := (h.nextKey_zero hk).1 ⟨s₁, hnext⟩
      rw [if_pos rfl]
      exact ⟨s₁, 0, rfl, iff_of_true rfl (.here hmissing hmemory), role₁, hstep, fun hne => absurd rfl hne⟩
    · rw [if_neg hj]
      obtain ⟨hrole, hnamed⟩ := hchild hj
      obtain ⟨live₁, htree⟩ := hstep.tree
      obtain ⟨s', k', hwalk, hzero, role', hrest, hfound⟩ :=
        ih htree hrole hj fun n hn => hnames n (List.mem_cons_of_mem _ hn)
      refine ⟨s', k', hwalk, hzero.trans ⟨fun hlost => .later hnext hj hlost, fun hlost => ?_⟩, role',
        hstep.trans hrest, fun hk' => ?_⟩
      · cases hlost with
        | here hmissing hmemory =>
          obtain ⟨s₂, hnext₂⟩ := (h.nextKey_zero hk).2 ⟨hmissing, hmemory⟩
          rw [hnext] at hnext₂
          cases hnext₂
          exact absurd rfl hj
        | later hnext₂ _ hlost =>
          rw [hnext] at hnext₂
          cases hnext₂
          exact hlost
      · obtain ⟨above', hrole', hlength, hlast⟩ := hfound hk'
        refine ⟨above', hrole', ?_, fun n hn => ?_⟩
        · rw [hlength, List.length_cons, List.length_cons]
          omega
        · cases rest with
          | nil =>
            cases hn
            cases hwalk
            exact hnamed
          | cons _ _ => exact hlast n hn

end Walk

end MeuOS.Cm
