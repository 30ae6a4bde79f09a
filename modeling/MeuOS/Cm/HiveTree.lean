import MeuOS.Cm.Hive
import Mathlib.Data.List.Find

/-! What the keys of a hive form, and what making a key leaves as it was. -/
namespace MeuOS.Cm

open MeuOS.Lib

instance (a b : List UInt8) : Decidable (SameName a b) := inferInstanceAs (Decidable (_ = _))

theorem SameName.symm {a b : List UInt8} (h : SameName a b) : SameName b a := Eq.symm h

theorem SameName.trans {a b c : List UInt8} (h : SameName a b) (h' : SameName b c) : SameName a c :=
  Eq.trans h h'

namespace Hive

/-- Keys are made below keys that are there, so a child has the later address. -/
structure Sound (h : Hive) : Prop where
  root : 0 < h.sRoot ∧ h.sRoot ≤ h.mallocs
  below : ∀ k, ∀ c ∈ (h.keys k).children, k < c ∧ c ≤ h.mallocs ∧ (h.keys c).parent = k
  nodup : ∀ k, (h.keys k).children.Nodup
  unused : ∀ k, h.mallocs < k → (h.keys k).children = [] ∧ (h.keys k).values = []

theorem strcmpci_eq_zero {a b : List UInt8} : strcmpci a b = 0 ↔ SameName a b := by
  unfold SameName
  induction a generalizing b with
  | nil => cases b <;> simp [strcmpci]
  | cons c a ih =>
    cases b with
    | nil => simp [strcmpci]
    | cons d b =>
      unfold strcmpci
      rw [List.map_cons, List.map_cons, List.cons.injEq]
      by_cases hcd : toLower c = toLower d
      · rw [if_pos hcd, and_iff_right hcd]
        exact ih
      · rw [if_neg hcd]
        exact iff_of_false Nat.one_ne_zero fun hboth => hcd hboth.1

variable {h h' h'' : Hive} {k c : Nat} {name : List UInt8}

theorem Sound.of_keys (hs : h.Sound) (hkeys : h'.keys = h.keys) (hroot : h'.sRoot = h.sRoot)
    (hmallocs : h.mallocs ≤ h'.mallocs) : h'.Sound := by
  refine ⟨hroot ▸ ⟨hs.root.1, Nat.le_trans hs.root.2 hmallocs⟩, ?_, ?_, ?_⟩
  · rw [hkeys]
    exact fun j c hc => (hs.below j c hc).imp_right (And.imp_left fun hle => Nat.le_trans hle hmallocs)
  · rw [hkeys]
    exact hs.nodup
  · rw [hkeys]
    exact fun j hj => hs.unused j (Nat.lt_of_le_of_lt hmallocs hj)

/-! ## Searching -/

theorem regFindChild_named (hne : h.regFindChild k name ≠ 0) :
    h.regFindChild k name ∈ (h.keys k).children ∧ SameName (h.keys (h.regFindChild k name)).name.chars name := by
  unfold regFindChild at hne ⊢
  cases hfind : (h.keys k).children.find? fun c => strcmpci (h.keys c).name.chars name = 0 with
  | none =>
    rw [hfind] at hne
    exact absurd rfl hne
  | some c =>
    have hmatch := List.find?_some hfind
    exact ⟨List.mem_of_find?_eq_some hfind, strcmpci_eq_zero.1 (of_decide_eq_true hmatch)⟩

theorem regFindChild_congr (hchildren : (h'.keys k).children = (h.keys k).children)
    (hnames : ∀ c ∈ (h.keys k).children, (h'.keys c).name = (h.keys c).name) :
    h'.regFindChild k name = h.regFindChild k name := by
  unfold regFindChild
  rw [hchildren]
  congr 1
  exact List.find?_congr fun c hc => by rw [hnames c hc]

/-- A walk along names that makes no keys. -/
def find (h : Hive) : Nat → List (List UInt8) → Nat
  | k, [] => k
  | k, name :: rest => if h.regFindChild k name = 0 then 0 else h.find (h.regFindChild k name) rest

theorem find_of_keys (hkeys : h'.keys = h.keys) (j : Nat) (names : List (List UInt8)) :
    h'.find j names = h.find j names := by
  induction names generalizing j with
  | nil => rfl
  | cons n names ih =>
    have hchild : h'.regFindChild j n = h.regFindChild j n :=
      regFindChild_congr (by rw [hkeys]) fun c _ => by rw [hkeys]
    unfold find
    rw [hchild, ih]

theorem resolve_false (h : Hive) (k : Nat) (names : List (List UInt8)) :
    resolve false h k names = (h, h.find k names) := by
  induction names generalizing k with
  | nil => rfl
  | cons name rest ih =>
    unfold resolve find
    rw [if_neg Bool.false_ne_true]
    by_cases hnone : h.regFindChild k name = 0
    · rw [if_pos hnone]
      exact if_pos hnone
    · rw [if_neg hnone, ← ih]
      exact if_neg hnone

theorem regResolvePath_false (hroot : k ≠ 0) (path : List UInt8) :
    h.regResolvePath k path false = (h, h.find k (components path)) := by
  unfold regResolvePath
  rw [if_neg hroot]
  dsimp only
  rw [if_neg hroot, resolve_false]

/-! ## Making keys -/

/-- The keys that are there are still found, with their values; others may have come, without any. -/
structure Grows (h h' : Hive) : Prop where
  root : h'.sRoot = h.sRoot
  mallocs : h.mallocs ≤ h'.mallocs
  granted : h'.granted = h.granted
  kept : ∀ k ≤ h.mallocs, (h'.keys k).name = (h.keys k).name ∧ (h'.keys k).parent = (h.keys k).parent ∧
    (h'.keys k).values = (h.keys k).values
  found : ∀ k ≤ h.mallocs, ∀ name, h.regFindChild k name ≠ 0 →
    h'.regFindChild k name = h.regFindChild k name
  missing : ∀ k ≤ h.mallocs, ∀ name, h.regFindChild k name = 0 →
    h'.regFindChild k name = 0 ∨ h.mallocs < h'.regFindChild k name
  new : ∀ k, h.mallocs < k → (h'.keys k).values = []

theorem Grows.refl (hs : h.Sound) : Grows h h :=
  ⟨rfl, Nat.le_refl _, rfl, fun _ _ => ⟨rfl, rfl, rfl⟩, fun _ _ _ _ => rfl, fun _ _ _ hnone => .inl hnone,
    fun k hk => (hs.unused k hk).2⟩

theorem Sound.child_le (hs : h.Sound) (k : Nat) (name : List UInt8) : h.regFindChild k name ≤ h.mallocs := by
  by_cases hne : h.regFindChild k name = 0
  · omega
  · exact (hs.below k _ (regFindChild_named hne).1).2.1

theorem Grows.trans (hg : Grows h h') (hg' : Grows h' h'') : Grows h h'' := by
  refine ⟨hg'.root.trans hg.root, Nat.le_trans hg.mallocs hg'.mallocs, hg'.granted.trans hg.granted,
    fun k hk => ?_, fun k hk name hne => ?_, fun k hk name hnone => ?_, fun k hk => ?_⟩
  · obtain ⟨hname, hparent, hvalues⟩ := hg.kept k hk
    obtain ⟨hname', hparent', hvalues'⟩ := hg'.kept k (Nat.le_trans hk hg.mallocs)
    exact ⟨hname'.trans hname, hparent'.trans hparent, hvalues'.trans hvalues⟩
  · have hsame := hg.found k hk name hne
    rw [hg'.found k (Nat.le_trans hk hg.mallocs) name (by rwa [hsame]), hsame]
  · by_cases hnone' : h'.regFindChild k name = 0
    · refine (hg'.missing k (Nat.le_trans hk hg.mallocs) name hnone').imp_right fun hlt => ?_
      exact Nat.lt_of_le_of_lt hg.mallocs hlt
    · rw [hg'.found k (Nat.le_trans hk hg.mallocs) name hnone']
      exact .inr ((hg.missing k hk name hnone).resolve_left hnone')
  · by_cases hlate : k ≤ h'.mallocs
    · rw [(hg'.kept k hlate).2.2]
      exact hg.new k hk
    · exact hg'.new k (Nat.lt_of_not_le hlate)

/-- Below keys that are there the walk finds the same keys, and no others that were there. -/
theorem Grows.find (hs : h.Sound) (hs' : h'.Sound) (hg : Grows h h') (names : List (List UInt8)) {k : Nat}
    (hk : k ≤ h.mallocs) :
    (h.find k names ≠ 0 → h'.find k names = h.find k names) ∧
    (h.find k names = 0 → h'.find k names = 0 ∨ k = 0 ∨ h.mallocs < h'.find k names) := by
  induction names generalizing k with
  | nil => exact ⟨fun _ => rfl, fun hzero => .inr (.inl hzero)⟩
  | cons name rest ih =>
    unfold Hive.find
    by_cases hnone : h.regFindChild k name = 0
    · rw [if_pos hnone]
      refine ⟨fun hne => absurd rfl hne, fun _ => ?_⟩
      rcases hg.missing k hk name hnone with hzero | hlate
      · rw [if_pos hzero]
        exact .inl rfl
      · rw [if_neg (by omega)]
        have hmono : ∀ (names : List (List UInt8)) (j : Nat), h.mallocs < j →
            h'.find j names = 0 ∨ h.mallocs < h'.find j names := by
          intro names
          induction names with
          | nil => exact fun j hj => .inr hj
          | cons name rest ih' =>
            intro j hj
            unfold Hive.find
            by_cases hnone' : h'.regFindChild j name = 0
            · rw [if_pos hnone']
              exact .inl rfl
            · rw [if_neg hnone']
              have hlt := (hs'.below j _ (regFindChild_named hnone').1).1
              exact ih' _ (by omega)
        exact (hmono rest _ hlate).imp_right .inr
    · rw [if_neg hnone, hg.found k hk name hnone, if_neg hnone]
      obtain ⟨hfound, hmissing⟩ := ih (hs.child_le k name)
      exact ⟨hfound, fun hzero => (hmissing hzero).imp_right fun hor => .inr (hor.resolve_left hnone)⟩

/-! ## One key more -/

/-- A new last key, in front of the children of `k`. -/
def withChild (h : Hive) (k : Nat) (name : List UInt8) : Hive :=
  (h.kmalloc.1.setKey (h.mallocs + 1) ⟨strcpyn name, k, [], []⟩).linkChild k (h.mallocs + 1)

/-- The three ways to get or create a child. -/
theorem regGetOrCreateChild_cases (h : Hive) (k : Nat) (name : List UInt8) :
    (h.regFindChild k name ≠ 0 ∧ h.regGetOrCreateChild k name = (h, h.regFindChild k name)) ∨
    (h.regFindChild k name = 0 ∧ h.granted h.mallocs = false ∧
      h.regGetOrCreateChild k name = (h.kmalloc.1, 0)) ∨
    (h.regFindChild k name = 0 ∧ h.granted h.mallocs = true ∧
      h.regGetOrCreateChild k name = (h.withChild k name, h.mallocs + 1)) := by
  unfold regGetOrCreateChild regAllocKey withChild
  by_cases hfound : h.regFindChild k name ≠ 0
  · exact .inl ⟨hfound, if_pos hfound⟩
  · refine .inr ?_
    dsimp only
    rw [if_neg hfound]
    unfold kmalloc
    cases hgranted : h.granted h.mallocs with
    | false => exact .inl ⟨not_not.1 hfound, rfl, rfl⟩
    | true => exact .inr ⟨not_not.1 hfound, rfl, rfl⟩

theorem keys_withChild (hk : k ≤ h.mallocs) (name : List UInt8) (j : Nat) :
    (h.withChild k name).keys j =
      if j = h.mallocs + 1 then ⟨strcpyn name, k, [], []⟩
      else if j = k then { h.keys k with children := (h.mallocs + 1) :: (h.keys k).children }
      else h.keys j := by
  have hne : k ≠ h.mallocs + 1 := by omega
  unfold withChild linkChild setKey kmalloc
  dsimp only
  rw [Function.update_of_ne hne]
  by_cases hj : j = k
  · subst hj
    rw [Function.update_self, if_neg hne, if_pos rfl]
  · rw [Function.update_of_ne hj, if_neg hj]
    by_cases hnew : j = h.mallocs + 1
    · rw [hnew, Function.update_self, if_pos rfl]
    · rw [Function.update_of_ne hnew, if_neg hnew]

theorem withChild_sound (hs : h.Sound) (hk : k ≤ h.mallocs) (name : List UInt8) :
    (h.withChild k name).Sound := by
  have hmallocs : (h.withChild k name).mallocs = h.mallocs + 1 := rfl
  refine ⟨⟨hs.root.1, Nat.le_succ_of_le hs.root.2⟩, fun j c hc => ?_, fun j => ?_, fun j hj => ?_⟩
  · rw [keys_withChild hk] at hc
    rw [keys_withChild hk, hmallocs]
    by_cases hnew : j = h.mallocs + 1
    · rw [if_pos hnew] at hc
      exact absurd hc List.not_mem_nil
    rw [if_neg hnew] at hc
    have hold : c ∈ (h.keys j).children → j < c ∧ c ≤ h.mallocs + 1 ∧
        (if c = h.mallocs + 1 then (⟨strcpyn name, k, [], []⟩ : RegKey)
          else if c = k then { h.keys k with children := (h.mallocs + 1) :: (h.keys k).children }
          else h.keys c).parent = j := by
      intro hmem
      obtain ⟨hlt, hle, hparent⟩ := hs.below j c hmem
      refine ⟨hlt, Nat.le_succ_of_le hle, ?_⟩
      rw [if_neg (by omega)]
      by_cases hck : c = k
      · rw [if_pos hck, ← hck]
        exact hparent
      · rw [if_neg hck]
        exact hparent
    by_cases hjk : j = k
    · rw [if_pos hjk] at hc
      rcases List.mem_cons.1 hc with rfl | hmem
      · exact ⟨by omega, Nat.le_refl _, by rw [if_pos rfl, hjk]⟩
      · exact hold (hjk ▸ hmem)
    · rw [if_neg hjk] at hc
      exact hold hc
  · rw [keys_withChild hk]
    by_cases hnew : j = h.mallocs + 1
    · rw [if_pos hnew]
      exact List.nodup_nil
    · rw [if_neg hnew]
      by_cases hjk : j = k
      · rw [if_pos hjk]
        exact List.nodup_cons.2 ⟨fun hmem => Nat.not_succ_le_self _ (hs.below k _ hmem).2.1, hs.nodup k⟩
      · rw [if_neg hjk]
        exact hs.nodup j
  · rw [hmallocs] at hj
    rw [keys_withChild hk, if_neg (by omega), if_neg (by omega)]
    exact hs.unused j (by omega)

/-- The new child is found under its name, and nothing else is found differently. -/
theorem regFindChild_withChild (hs : h.Sound) (hk : k ≤ h.mallocs) {name : List UInt8} (j : Nat)
    (n : List UInt8) :
    (h.withChild k name).regFindChild j n =
      if j = k ∧ SameName (strcpyn name).chars n then h.mallocs + 1
      else h.regFindChild j n := by
  have hnames : ∀ c ≤ h.mallocs, ((h.withChild k name).keys c).name = (h.keys c).name := by
    intro c hc
    rw [keys_withChild hk, if_neg (by omega)]
    by_cases hck : c = k
    · rw [if_pos hck, hck]
    · rw [if_neg hck]
  by_cases hjk : j = k
  · subst hjk
    have hchildren : ((h.withChild j name).keys j).children = (h.mallocs + 1) :: (h.keys j).children := by
      rw [keys_withChild hk, if_neg (by omega), if_pos rfl]
    have hnew : ((h.withChild j name).keys (h.mallocs + 1)).name = strcpyn name := by
      rw [keys_withChild hk, if_pos rfl]
    unfold regFindChild
    rw [hchildren, List.find?_cons, hnew]
    by_cases hsame : SameName (strcpyn name).chars n
    · rw [if_pos ⟨rfl, hsame⟩, decide_eq_true (strcmpci_eq_zero.2 hsame)]
      rfl
    · rw [if_neg fun hboth => hsame hboth.2, decide_eq_false (strcmpci_eq_zero.not.2 hsame)]
      dsimp only
      congr 1
      exact List.find?_congr fun c hc => by rw [hnames c (hs.below j c hc).2.1]
  · rw [if_neg fun hboth => hjk hboth.1]
    by_cases hnew : j = h.mallocs + 1
    · have hempty : ((h.withChild k name).keys j).children = [] := by
        rw [keys_withChild hk, if_pos hnew]
      refine regFindChild_congr ?_ fun c hc => ?_
      · rw [hempty, (hs.unused j (by omega)).1]
      · rw [(hs.unused j (by omega)).1] at hc
        exact absurd hc List.not_mem_nil
    · refine regFindChild_congr ?_ fun c hc => hnames c (hs.below j c hc).2.1
      rw [keys_withChild hk, if_neg hnew, if_neg hjk]

theorem withChild_grows (hs : h.Sound) (hk : k ≤ h.mallocs) {name : List UInt8}
    (hnone : h.regFindChild k name = 0) (hshort : name.length < maxName) : Grows h (h.withChild k name) := by
  have hwhole := strcpyn_whole hshort
  have hother : ∀ n, SameName (strcpyn name).chars n → h.regFindChild k n = 0 := by
    intro n hsame
    by_contra hne
    obtain ⟨hmem, hnamed⟩ := regFindChild_named hne
    rw [hwhole] at hsame
    unfold regFindChild at hnone
    rw [Option.getD_eq_iff] at hnone
    rcases hnone with hsome | ⟨hempty, -⟩
    · have hzero := (hs.below k 0 (List.mem_of_find?_eq_some hsome)).1
      omega
    · have hmiss := List.find?_eq_none.1 hempty _ hmem
      exact hmiss (decide_eq_true (strcmpci_eq_zero.2 (hnamed.trans hsame.symm)))
  refine ⟨rfl, Nat.le_succ _, rfl, fun j hj => ?_, fun j hj n hne => ?_, fun j hj n hzero => ?_,
    fun j hj => ?_⟩
  · rw [keys_withChild hk, if_neg (by omega)]
    by_cases hjk : j = k
    · rw [if_pos hjk, hjk]
      exact ⟨rfl, rfl, rfl⟩
    · rw [if_neg hjk]
      exact ⟨rfl, rfl, rfl⟩
  · rw [regFindChild_withChild hs hk, if_neg]
    rintro ⟨rfl, hsame⟩
    exact hne (hother n hsame)
  · rw [regFindChild_withChild hs hk]
    by_cases hsame : j = k ∧ SameName (strcpyn name).chars n
    · rw [if_pos hsame]
      exact .inr (Nat.lt_succ_self _)
    · rw [if_neg hsame]
      exact .inl hzero
  · rw [keys_withChild hk]
    by_cases hnew : j = h.mallocs + 1
    · rw [if_pos hnew]
    · rw [if_neg hnew, if_neg (by omega)]
      exact (hs.unused j hj).2

theorem kmalloc_sound (hs : h.Sound) : h.kmalloc.1.Sound := hs.of_keys rfl rfl (Nat.le_succ _)

theorem kmalloc_grows (hs : h.Sound) : Grows h h.kmalloc.1 :=
  ⟨rfl, Nat.le_succ _, rfl, fun _ _ => ⟨rfl, rfl, rfl⟩, fun _ _ _ _ => rfl, fun _ _ _ hnone => .inl hnone,
    fun k hk => (hs.unused k hk).2⟩

/-- What comes of making keys: the last one, under its name, or 0 without memory. -/
structure Made (h : Hive) (k : Nat) (names : List (List UInt8)) (h' : Hive) (k' : Nat) : Prop where
  sound : h'.Sound
  grows : Grows h h'
  le : k' ≤ h'.mallocs
  found : k' ≠ 0 → h'.find k names = k'
  made : (∀ n, h.granted n = true) → k ≠ 0 → k' ≠ 0

theorem find_single (h : Hive) (k : Nat) (name : List UInt8) : h.find k [name] = h.regFindChild k name := by
  unfold find find
  by_cases hnone : h.regFindChild k name = 0
  · rw [if_pos hnone, hnone]
  · rw [if_neg hnone]

theorem regGetOrCreateChild_made (hs : h.Sound) (hk : k ≤ h.mallocs) (hshort : name.length < maxName) :
    Made h k [name] (h.regGetOrCreateChild k name).1 (h.regGetOrCreateChild k name).2 := by
  rcases regGetOrCreateChild_cases h k name with ⟨hne, heq⟩ | ⟨-, hfull, heq⟩ | ⟨hnone, -, heq⟩
  · rw [heq]
    exact ⟨hs, .refl hs, hs.child_le k name, fun _ => find_single h k name, fun _ _ => hne⟩
  · rw [heq]
    exact ⟨kmalloc_sound hs, kmalloc_grows hs, Nat.zero_le _, fun hne => absurd rfl hne,
      fun hall _ => absurd (hall _) (hfull ▸ Bool.false_ne_true)⟩
  · rw [heq]
    refine ⟨withChild_sound hs hk name, withChild_grows hs hk hnone hshort, Nat.le_refl _, fun _ => ?_,
      fun _ _ => Nat.succ_ne_zero _⟩
    rw [find_single, regFindChild_withChild hs hk, if_pos]
    have hwhole := strcpyn_whole hshort
    exact ⟨rfl, congrArg _ hwhole⟩

theorem resolve_made (names : List (List UInt8)) (hs : h.Sound) (hk : k ≤ h.mallocs)
    (hshort : ∀ n ∈ names, n.length < maxName) :
    Made h k names (resolve true h k names).1 (resolve true h k names).2 := by
  induction names generalizing h k with
  | nil => exact ⟨hs, .refl hs, hk, fun _ => rfl, fun _ hne => hne⟩
  | cons name rest ih =>
    have hfirst := regGetOrCreateChild_made hs hk (hshort name List.mem_cons_self)
    unfold resolve
    rw [if_pos rfl]
    generalize h.regGetOrCreateChild k name = r at hfirst ⊢
    obtain ⟨h₁, c⟩ := r
    dsimp only at hfirst ⊢
    by_cases hc : c = 0
    · rw [if_pos hc]
      exact ⟨hfirst.sound, hfirst.grows, Nat.zero_le _, fun hne => absurd rfl hne,
        fun hall hne => absurd hc (hfirst.made hall hne)⟩
    · rw [if_neg hc]
      obtain ⟨hsound, hgrows, hle, hfound, hmade⟩ :=
        ih hfirst.sound hfirst.le fun n hn => hshort n (List.mem_cons_of_mem _ hn)
      refine ⟨hsound, hfirst.grows.trans hgrows, hle, fun hne => ?_, fun hall hne => ?_⟩
      · have hchild : h₁.regFindChild k name = c := (find_single h₁ k name).symm.trans (hfirst.found hc)
        have hchild' := hgrows.found k (Nat.le_trans hk hfirst.grows.mallocs) name (by rwa [hchild])
        unfold find
        rw [hchild', hchild, if_neg hc]
        exact hfound hne
      · exact hmade (fun n => by rw [hfirst.grows.granted]; exact hall n) hc

/-! ## Walks and paths -/

/-- Paths with the same names. -/
def SamePath (p q : List (List UInt8)) : Prop := p.map (List.map toLower) = q.map (List.map toLower)

instance (p q : List (List UInt8)) : Decidable (SamePath p q) := inferInstanceAs (Decidable (_ = _))

theorem regFindChild_same {name' : List UInt8} (hsame : SameName name name') :
    h.regFindChild k name = h.regFindChild k name' := by
  unfold regFindChild
  congr 1
  refine List.find?_congr fun c _ => decide_eq_decide.2 ?_
  rw [strcmpci_eq_zero, strcmpci_eq_zero]
  exact ⟨fun hc => hc.trans hsame, fun hc => hc.trans hsame.symm⟩

theorem find_same {p q : List (List UInt8)} (hsame : SamePath p q) : h.find k p = h.find k q := by
  induction p generalizing k q with
  | nil =>
    obtain rfl : q = [] := List.map_eq_nil_iff.1 hsame.symm
    rfl
  | cons n p ih =>
    cases q with
    | nil => exact absurd hsame (List.cons_ne_nil _ _)
    | cons m q =>
      obtain ⟨hname, hrest⟩ := List.cons.inj hsame
      unfold find
      rw [regFindChild_same hname, ih hrest]

theorem find_snoc (names : List (List UInt8)) (name : List UInt8) (hk : k ≠ 0) :
    h.find k (names ++ [name]) =
      if h.find k names = 0 then 0 else h.regFindChild (h.find k names) name := by
  induction names generalizing k with
  | nil =>
    rw [List.nil_append, find_single]
    exact (if_neg hk).symm
  | cons n names ih =>
    rw [List.cons_append, find, find]
    by_cases hnone : h.regFindChild k n = 0
    · rw [if_pos hnone, if_pos hnone, if_pos rfl]
    · rw [if_neg hnone, if_neg hnone]
      exact ih hnone

theorem find_ge {names : List (List UInt8)} (hs : h.Sound) (hne : h.find k names ≠ 0) :
    k ≤ h.find k names := by
  induction names generalizing k with
  | nil => exact Nat.le_refl _
  | cons n names ih =>
    rw [find] at hne ⊢
    by_cases hnone : h.regFindChild k n = 0
    · rw [if_pos hnone] at hne
      exact absurd rfl hne
    · rw [if_neg hnone] at hne ⊢
      have hlt := (hs.below k _ (regFindChild_named hnone).1).1
      have hle := ih hne
      omega

theorem find_le {names : List (List UInt8)} (hs : h.Sound) (hk : k ≤ h.mallocs) :
    h.find k names ≤ h.mallocs := by
  induction names generalizing k with
  | nil => exact hk
  | cons n names ih =>
    rw [find]
    by_cases hnone : h.regFindChild k n = 0
    · rw [if_pos hnone]
      exact Nat.zero_le _
    · rw [if_neg hnone]
      exact ih (hs.child_le k n)

/-- Two walks from one key to another go by the same names. -/
theorem find_inj {p q : List (List UInt8)} (hs : h.Sound) (hk : k ≠ 0) (hne : h.find k p ≠ 0)
    (heq : h.find k p = h.find k q) : SamePath p q := by
  have hback : ∀ (r : List (List UInt8)) (n : List UInt8), h.find k (r ++ [n]) ≠ 0 →
      h.find k r ≠ 0 ∧ h.find k (r ++ [n]) = h.regFindChild (h.find k r) n ∧
      k < h.find k (r ++ [n]) := by
    intro r n hfound
    rw [find_snoc r n hk] at hfound ⊢
    by_cases hzero : h.find k r = 0
    · rw [if_pos hzero] at hfound
      exact absurd rfl hfound
    · rw [if_neg hzero] at hfound ⊢
      exact ⟨hzero, rfl, Nat.lt_of_le_of_lt (find_ge hs hzero)
        (hs.below _ _ (regFindChild_named hfound).1).1⟩
  induction p using List.reverseRecOn generalizing q with
  | nil =>
    rcases List.eq_nil_or_concat' q with rfl | ⟨q, m, rfl⟩
    · rfl
    · have hlt := (hback q m (heq ▸ hne)).2.2
      rw [← heq] at hlt
      exact absurd hlt (Nat.lt_irrefl _)
  | append_singleton p n ih =>
    obtain ⟨hp, hchild, hlt⟩ := hback p n hne
    rcases List.eq_nil_or_concat' q with rfl | ⟨q, m, rfl⟩
    · rw [heq] at hlt
      exact absurd hlt (Nat.lt_irrefl _)
    · obtain ⟨-, hchild', -⟩ := hback q m (heq ▸ hne)
      have hnamed := regFindChild_named (hchild ▸ hne)
      have hnamed' := regFindChild_named (hchild' ▸ heq ▸ hne)
      have hsamekey := hchild.symm.trans (heq.trans hchild')
      have hparents : h.find k p = h.find k q := by
        rw [← (hs.below _ _ hnamed.1).2.2, hsamekey, (hs.below _ _ hnamed'.1).2.2]
      unfold SamePath
      rw [List.map_append, List.map_append, show p.map (List.map toLower) = q.map (List.map toLower) from
        ih hp hparents]
      have hname : SameName n m := hnamed.2.symm.trans (hsamekey ▸ hnamed'.2)
      exact congrArg _ (congrArg (· :: []) hname)

/-! ## Values -/

/-- A value as `reg_set_value` leaves it, with the block it got for the data. -/
def stored (name : List UInt8) (type : UInt32) (size : UInt32) (p : Option Mem) : RegValue :=
  ⟨strcpyn name, type, size, p⟩

section Values

variable {l : List RegValue} {n : List UInt8} {f : RegValue → RegValue}

/-- Changing the first value of a name is seen under that name only. -/
theorem find?_onValue (hf : ∀ v, (f v).name = v.name) :
    ((onValue name f l).find? fun v => strcmpci v.name.chars n = 0) =
      if SameName name n then (l.find? fun v => strcmpci v.name.chars name = 0).map f
      else l.find? fun v => strcmpci v.name.chars n = 0 := by
  induction l with
  | nil => by_cases hsame : SameName name n <;> simp [onValue, hsame]
  | cons v l ih =>
    unfold onValue
    rw [List.find?_cons, List.find?_cons]
    by_cases hv : strcmpci v.name.chars name = 0
    · have hvn : strcmpci v.name.chars n = 0 ↔ SameName name n := by
        rw [strcmpci_eq_zero] at hv ⊢
        exact ⟨fun hn => hv.symm.trans hn, fun hn => hv.trans hn⟩
      rw [if_pos hv, List.find?_cons, hf v, decide_eq_true hv]
      by_cases hsame : SameName name n
      · rw [if_pos hsame, decide_eq_true (hvn.2 hsame)]
        rfl
      · rw [if_neg hsame, decide_eq_false (hvn.not.2 hsame)]
    · rw [if_neg hv, List.find?_cons, ih, decide_eq_false hv]
      by_cases hsame : SameName name n
      · have hvn : ¬ strcmpci v.name.chars n = 0 := by
          rw [strcmpci_eq_zero] at hv ⊢
          exact fun hn => hv (hn.trans hsame.symm)
        rw [decide_eq_false hvn, if_pos hsame]
      · rw [if_neg hsame, if_neg hsame]

end Values

/-- A key with other values is where it was, with the same keys around it. -/
theorem setValues_sound (hs : h.Sound) (hk : k ≤ h.mallocs) (values : List RegValue) :
    (h.setValues k values).Sound := by
  have hkey : ∀ j, ((h.setValues k values).keys j).children = (h.keys j).children ∧
      ((h.setValues k values).keys j).parent = (h.keys j).parent := by
    intro j
    unfold setValues setKey
    by_cases hj : j = k
    · subst hj
      dsimp only
      rw [Function.update_self]
      exact ⟨rfl, rfl⟩
    · dsimp only
      rw [Function.update_of_ne hj]
      exact ⟨rfl, rfl⟩
  refine ⟨hs.root, fun j c hc => ?_, fun j => (hkey j).1.symm ▸ hs.nodup j, fun j hj => ?_⟩
  · rw [(hkey j).1] at hc
    rw [(hkey c).2]
    exact hs.below j c hc
  · have hlate : h.mallocs < j := hj
    refine ⟨(hkey j).1.trans (hs.unused j hlate).1, ?_⟩
    unfold setValues setKey
    dsimp only
    rw [Function.update_of_ne (by omega)]
    exact (hs.unused j hlate).2

theorem keys_setValues (h : Hive) (k : Nat) (values : List RegValue) (j : Nat) :
    ((h.setValues k values).keys j).children = (h.keys j).children ∧
      ((h.setValues k values).keys j).name = (h.keys j).name ∧
      ((h.setValues k values).keys j).values = if j = k then values else (h.keys j).values := by
  unfold setValues setKey
  dsimp only
  by_cases hj : j = k
  · subst hj
    rw [Function.update_self, if_pos rfl]
    exact ⟨rfl, rfl, rfl⟩
  · rw [Function.update_of_ne hj, if_neg hj]
    exact ⟨rfl, rfl, rfl⟩

theorem find_setValues (h : Hive) (k : Nat) (values : List RegValue) (j : Nat)
    (names : List (List UInt8)) : (h.setValues k values).find j names = h.find j names := by
  induction names generalizing j with
  | nil => rfl
  | cons n names ih =>
    have hchild : (h.setValues k values).regFindChild j n = h.regFindChild j n :=
      regFindChild_congr (keys_setValues h k values j).1 fun c _ => (keys_setValues h k values c).2.1
    unfold find
    rw [hchild, ih]

/-- The two calls of `kmalloc` a value needs. -/
theorem dataBlock_eq (h : Hive) (data : Option Mem) (size : UInt32) :
    ∃ h₁ p, h.dataBlock data size = (h₁, p) ∧ h₁.keys = h.keys ∧ h₁.sRoot = h.sRoot ∧
      h₁.granted = h.granted ∧ h.mallocs ≤ h₁.mallocs ∧
      (p = if size ≠ 0 ∧ h.granted h.mallocs = true then some (data.getD (h.leftover h.mallocs)) else none) := by
  unfold dataBlock
  by_cases hsize : size = 0
  · rw [if_pos hsize]
    exact ⟨h, none, rfl, rfl, rfl, rfl, Nat.le_refl _, (if_neg fun hboth => hboth.1 hsize).symm⟩
  · rw [if_neg hsize]
    unfold kmalloc
    cases hgranted : h.granted h.mallocs with
    | false => exact ⟨_, _, rfl, rfl, rfl, rfl, Nat.le_succ _, (if_neg fun hboth => Bool.false_ne_true hboth.2).symm⟩
    | true => exact ⟨_, _, rfl, rfl, rfl, rfl, Nat.le_succ _, (if_pos ⟨hsize, rfl⟩).symm⟩

/-- What `reg_set_value` does: nothing without a block for a new value; else the value under its
name is the new one, the others are as before. -/
inductive ValueSet (h : Hive) (k : Nat) (name : List UInt8) (type : UInt32) (data : Option Mem)
    (size : UInt32) : Hive × Bool → Prop
  | old (h' : Hive) (p : Option Mem) (hfound : (h.regFindValue k name).isSome = true)
      (hdata : p = if size ≠ 0 ∧ h.granted h.mallocs = true then
        some (data.getD (h.leftover h.mallocs)) else none)
      (hkeys : h'.keys = h.keys) (hroot : h'.sRoot = h.sRoot) (hgranted : h'.granted = h.granted)
      (hmallocs : h.mallocs ≤ h'.mallocs) :
      ValueSet h k name type data size
        (h'.setValues k (onValue name (fun v => ⟨v.name, type, size, p⟩) (h.keys k).values), true)
  | full (hfound : (h.regFindValue k name).isSome = false) (hnone : h.granted h.mallocs = false) :
      ValueSet h k name type data size (h.kmalloc.1, false)
  | new (h' : Hive) (p : Option Mem) (hfound : (h.regFindValue k name).isSome = false)
      (hsome : h.granted h.mallocs = true)
      (hdata : p = if size ≠ 0 ∧ h.granted (h.mallocs + 1) = true then
        some (data.getD (h.leftover (h.mallocs + 1))) else none)
      (hkeys : h'.keys = h.keys) (hroot : h'.sRoot = h.sRoot) (hgranted : h'.granted = h.granted)
      (hmallocs : h.mallocs ≤ h'.mallocs) :
      ValueSet h k name type data size
        (h'.setValues k (stored name type size p :: (h.keys k).values), true)

theorem regSetValue_set (h : Hive) (k : Nat) (name : List UInt8) (type : UInt32) (data : Option Mem)
    (size : UInt32) : ValueSet h k name type data size (h.regSetValue k name type data size) := by
  unfold regSetValue
  cases hfound : (h.regFindValue k name).isSome with
  | true =>
    rw [if_pos rfl]
    obtain ⟨h₁, p, hrun, hkeys, hroot, hgranted, hmallocs, hp⟩ := dataBlock_eq h data size
    rw [hrun]
    dsimp only
    rw [hkeys]
    exact .old h₁ p hfound hp hkeys hroot hgranted hmallocs
  | false =>
    rw [if_neg Bool.false_ne_true]
    obtain ⟨h₁, p, hrun, hkeys, hroot, hgranted, hmallocs, hp⟩ := dataBlock_eq h.kmalloc.1 data size
    cases hnone : h.granted h.mallocs with
    | false =>
      have hzero : h.kmalloc.2 = 0 := by
        unfold kmalloc
        rw [hnone]
        rfl
      dsimp only
      rw [if_pos hzero]
      exact .full hfound hnone
    | true =>
      have hne : h.kmalloc.2 ≠ 0 := by
        unfold kmalloc
        rw [hnone]
        exact Nat.succ_ne_zero _
      dsimp only
      rw [if_neg hne, hrun]
      dsimp only
      rw [hkeys]
      exact .new h₁ p hfound hnone hp hkeys hroot hgranted (Nat.le_trans (Nat.le_succ _) hmallocs)

end Hive

end MeuOS.Cm
