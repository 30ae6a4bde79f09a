import MeuOS.Ldr.ModuleLoads

/-! Names of modules: comparison without regard to case, base names, and the names that are not
those of any module. -/
namespace MeuOS.Ldr

open MeuOS.Lib

section Compare

variable {a b c : List UInt8}

theorem ieq_iff : ieq a b = true ↔ a.map lower = b.map lower := by
  induction a generalizing b with
  | nil => cases b <;> simp [ieq]
  | cons x a ih => cases b <;> simp [ieq, ih]

theorem ieq_refl (a : List UInt8) : ieq a a = true := by
  rw [ieq_iff]

theorem ieq_symm (h : ieq a b = true) : ieq b a = true := by
  rw [ieq_iff] at h ⊢
  exact h.symm

theorem ieq_trans (h : ieq a b = true) (h' : ieq b c = true) : ieq a c = true := by
  rw [ieq_iff] at h h' ⊢
  exact h.trans h'

theorem ieq_length (h : ieq a b = true) : a.length = b.length := by
  rw [ieq_iff] at h
  simpa using congrArg List.length h

theorem lower_separator (x : UInt8) : isSeparator (lower x) = isSeparator x := by
  have hall : ∀ n : Fin 256, isSeparator (lower (UInt8.ofNat n)) = isSeparator (UInt8.ofNat n) := by
    decide +kernel
  have hx := hall ⟨x.toNat, x.toNat_lt⟩
  rwa [show UInt8.ofNat (⟨x.toNat, x.toNat_lt⟩ : Fin 256).val = x from UInt8.ofNat_toNat] at hx

/-- Names that are equal have separators alike. -/
theorem ieq_separator (h : ieq a b = true) : a.any isSeparator = b.any isSeparator := by
  have hlower : ∀ l : List UInt8, (l.map lower).any isSeparator = l.any isSeparator := fun l => by
    rw [List.any_map]
    exact congrArg (List.any l) (funext lower_separator)
  rw [ieq_iff] at h
  rw [← hlower a, h, hlower]

end Compare

section Base

variable {p l : List UInt8}

/-- The best start so far has no separator in front of what is left. -/
theorem basenameFrom_plain (hp : p.any isSeparator = false) :
    (basenameFrom (p ++ l) l).any isSeparator = false := by
  induction l generalizing p with
  | nil => simpa [basenameFrom] using hp
  | cons x l ih =>
    unfold basenameFrom
    split
    · have hrest := ih (p := []) rfl
      rwa [List.nil_append] at hrest
    · rename_i hx
      have hrest := ih (p := p ++ [x]) (by simp [hp, hx])
      rwa [List.append_assoc, List.singleton_append] at hrest

theorem basename_plain (path : List UInt8) : (basename path).any isSeparator = false :=
  basenameFrom_plain (p := []) rfl

theorem basenameFrom_of_plain (hl : l.any isSeparator = false) : basenameFrom p l = p := by
  induction l generalizing p with
  | nil => rfl
  | cons x l ih =>
    rw [List.any_cons, Bool.or_eq_false_iff] at hl
    unfold basenameFrom
    rw [hl.1]
    exact ih hl.2

theorem basename_of_plain (h : p.any isSeparator = false) : basename p = p := basenameFrom_of_plain h

theorem basename_basename (path : List UInt8) : basename (basename path) = basename path :=
  basename_of_plain (basename_plain path)

end Base

/-! ## Paths on the volume -/

section Paths

variable {name : List UInt8} {mounted : Bool}

/-- A path on the volume starts with the drive letter or with a separator. -/
theorem isDiskPath_first (h : isDiskPath mounted name = true) :
    ∃ c cs, name = c :: cs ∧ (lower c = 0x63 ∨ lower c = 0x5C) := by
  unfold isDiskPath at h
  rw [Bool.and_eq_true] at h
  obtain ⟨path, hpath⟩ := Option.isSome_iff_exists.mp h.2
  unfold Ntfs.ntfsVolumeSubpath at hpath
  dsimp only at hpath
  obtain ⟨rest, hrest, -⟩ := Option.map_eq_some_iff.mp hpath
  cases name with
  | nil =>
    rw [if_neg (by simp)] at hrest
    rw [if_neg (by decide)] at hrest
    cases hrest
  | cons c cs =>
    refine ⟨c, cs, rfl, ?_⟩
    split at hrest
    · rename_i hdrive
      left
      rcases hdrive.1 with hc | hc
      · rw [Option.some.inj hc]
        decide
      · rw [Option.some.inj hc]
        decide
    · split at hrest
      · rename_i hdevice
        right
        have hfirst := congrArg List.head? hdevice
        rw [List.head?_map, List.head?_map, List.head?_take, if_neg (by decide)] at hfirst
        exact Option.some.inj hfirst
      · cases hrest

/-- No API set and no redirected name starts like that. -/
theorem apisetRedirect_disk (h : isDiskPath mounted name = true) : apisetRedirect name = name := by
  obtain ⟨c, cs, rfl, hc⟩ := isDiskPath_first h
  have hhosts : ∀ h ∈ apisetHosts,
      ∃ p ps, ascii h.1 = p :: ps ∧ lower p ≠ 0x63 ∧ lower p ≠ 0x5C := by
    have hfirsts : ∀ h ∈ apisetHosts, (ascii h.1).head?.any
        (fun p => lower p != 0x63 && lower p != 0x5C) = true := by decide +kernel
    intro h hmem
    have hfirst := hfirsts h hmem
    cases hs : ascii h.1 with
    | nil =>
      rw [hs] at hfirst
      cases hfirst
    | cons p ps =>
      rw [hs] at hfirst
      simp only [List.head?_cons, Option.any_some, Bool.and_eq_true, bne_iff_ne] at hfirst
      exact ⟨p, ps, rfl, hfirst⟩
  have hnone : apisetHosts.find? (fun h => hasPrefixCi (c :: cs) (ascii h.1)) = none := by
    rw [List.find?_eq_none]
    intro h hmem hstart
    obtain ⟨p, ps, hs, hdrive, hslash⟩ := hhosts h hmem
    rw [hs] at hstart
    unfold hasPrefixCi at hstart
    rw [Bool.and_eq_true, beq_iff_eq] at hstart
    rw [hstart.1] at hc
    exact hc.elim hdrive hslash
  unfold apisetRedirect
  rw [hnone]

end Paths

end MeuOS.Ldr
