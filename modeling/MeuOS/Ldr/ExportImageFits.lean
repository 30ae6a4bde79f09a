import MeuOS.Ldr.ExportImageBack

/-! For which lists of names the synthetic image is right. -/
namespace MeuOS.Ldr

open MeuOS.Lib

section Build

variable {resolve : CString → UInt64} {b cur n i : Nat} {names ns : List CString} {cs : List UInt8} {m : Mem}

/-- The names that the build takes. -/
def taken (names : List CString) : List CString := names.take (names.length % 2 ^ 32)

/-- The three ends of the first call. -/
theorem build_cases (resolve : CString → UInt64) (b : Nat) (names : List CString) (m : Mem) :
    ((∃ nm ∈ taken names, 2 ^ 32 ≤ nm.chars.length) ∧
      ldrPeExportImageBuild resolve b names ⟨false, 0, m⟩ = none) ∨
    ((∀ nm ∈ taken names, nm.chars.length < 2 ^ 32) ∧ ntosImgCap < sizeImage (taken names) ∧
      ∃ r, ldrPeExportImageBuild resolve b names ⟨false, 0, m⟩ = some r ∧ r.image = none) ∨
    ((∀ nm ∈ taken names, nm.chars.length < 2 ^ 32) ∧ sizeImage (taken names) ≤ ntosImgCap ∧
      ldrPeExportImageBuild resolve b names ⟨false, 0, m⟩ =
        some ⟨some b, some (sizeImage (taken names)),
          ⟨true, sizeImage (taken names), builtImage resolve b (taken names) m⟩,
          imageStores resolve b (taken names)⟩) := by
  have hrun : ldrPeExportImageBuild resolve b names ⟨false, 0, m⟩ =
      if ∃ nm ∈ taken names, 2 ^ 32 ≤ nm.chars.length then none
      else if ntosImgCap < sizeImage (taken names) then
        some ⟨none, none, ⟨false, 0, Store.run b (tableStores resolve (taken names)) m⟩,
          tableStores resolve (taken names)⟩
      else some ⟨some b, some (sizeImage (taken names)),
        ⟨true, sizeImage (taken names), builtImage resolve b (taken names) m⟩,
        imageStores resolve b (taken names)⟩ := rfl
  rw [hrun]
  by_cases hlong : ∃ nm ∈ taken names, 2 ^ 32 ≤ nm.chars.length
  · exact .inl ⟨hlong, if_pos hlong⟩
  have hshort : ∀ nm ∈ taken names, nm.chars.length < 2 ^ 32 := fun nm hnm =>
    Nat.lt_of_not_le fun hle => hlong ⟨nm, hnm, hle⟩
  rw [if_neg hlong]
  by_cases hlarge : ntosImgCap < sizeImage (taken names)
  · rw [if_pos hlarge]
    exact .inr (.inl ⟨hshort, hlarge, _, rfl, rfl⟩)
  · rw [if_neg hlarge]
    exact .inr (.inr ⟨hshort, Nat.le_of_not_lt hlarge, rfl⟩)

/-- A string that is stored inside the buffer did not wrap. -/
theorem cstrStores_bounded (h : Store.Inside (cstrStores cur cs) 0 ntosImgCap) :
    cur + cs.length + 1 ≤ ntosImgCap := by
  induction cs generalizing cur with
  | nil => exact (h _ List.mem_cons_self).2
  | cons c cs ih =>
    unfold cstrStores at h
    have hfirst := (h _ List.mem_cons_self).2
    have hcap : ntosImgCap = 98304 := rfl
    dsimp only at hfirst
    rw [Nat.mod_eq_of_lt (by omega)] at h
    have hrest := ih fun s hs => h s (List.mem_cons_of_mem _ hs)
    rw [List.length_cons]
    omega

theorem nameStores_bounded (h : Store.Inside (nameStores n i cur ns) 0 ntosImgCap) :
    ns = [] ∨ cur + span ns ≤ ntosImgCap := by
  induction ns generalizing i cur with
  | nil => exact .inl rfl
  | cons nm ns ih =>
    unfold nameStores at h
    have hstring := cstrStores_bounded fun s hs => h s (List.mem_append_left _ hs)
    have hcap : ntosImgCap = 98304 := rfl
    have hafter : afterCstr cur nm.chars = cur + nm.chars.length + 1 := Nat.mod_eq_of_lt (by omega)
    have hrest := ih fun s hs =>
      h s (List.mem_append_right _ (List.mem_cons_of_mem _ (List.mem_cons_of_mem _ hs)))
    rw [hafter] at hrest
    rw [span_cons]
    rcases hrest with rfl | hrest
    · have hnone : span ([] : List CString) = 0 := rfl
      exact .inr (by omega)
    · exact .inr (by omega)

/-- An image that was stored inside the buffer has a size of 32 bits. -/
theorem size_of_inside (h : Store.Inside (imageStores resolve b ns) 0 ntosImgCap) : fullSize ns < 2 ^ 32 := by
  have hnames : Store.Inside (nameStores ns.length 0 (offStrs ns.length) ns) 0 ntosImgCap := by
    intro s hs
    refine h s ?_
    unfold imageStores tableStores
    simp only [List.cons_append, List.mem_cons, List.mem_append]
    exact .inr (.inl (.inl (.inl (.inl (.inl hs)))))
  have hcount := length_le_span ns
  have hcap : ntosImgCap = 98304 := rfl
  have hspan : span ns ≤ 98304 := by
    rcases nameStores_bounded hnames with rfl | hbounded
    · exact Nat.zero_le _
    · omega
  unfold fullSize
  omega

theorem le_span {nm : CString} (h : nm ∈ ns) : nm.chars.length < span ns := by
  obtain ⟨i, hi⟩ := List.getElem?_of_mem h
  have := span_take_le hi
  omega

/-- The image is right if its size is a 32-bit number, and it is not if the size wraps and what is
left of it is small. -/
theorem builtRight_of_fits (horder : InOrder names) (h : ImageFits names) : BuiltRight resolve b m names := by
  unfold BuiltRight
  obtain ⟨hlong, -⟩ | ⟨-, -, r, hrun, hnone⟩ | ⟨-, hsize, hrun⟩ := build_cases resolve b names m
  · obtain ⟨nm, hnm, hlen⟩ := hlong
    obtain ⟨hcount, hfull⟩ | ⟨hshort, -⟩ := h
    · unfold taken at hnm
      rw [Nat.mod_eq_of_lt hcount, List.take_length] at hnm
      have hspan := le_span hnm
      unfold fullSize at hfull
      omega
    · exact absurd hlen (Nat.not_le_of_lt (hshort nm hnm))
  · exact ⟨r, hrun, .inl hnone⟩
  · rw [sizeImage_eq] at hsize
    obtain ⟨hcount, hfull⟩ | ⟨-, hlarge⟩ := h
    · have htaken : taken names = names := by
        unfold taken
        rw [Nat.mod_eq_of_lt hcount, List.take_length]
      rw [htaken] at hsize hrun
      rw [Nat.mod_eq_of_lt hfull] at hsize
      exact ⟨_, hrun, .inr ⟨imageStores_inside (placed hfull) hsize,
        ⟨_, rfl, rfl, image_parses_back (placed hfull) hsize horder⟩, rfl⟩⟩
    · exact absurd hsize (Nat.not_le_of_lt hlarge)

theorem fits_of_builtRight (h : BuiltRight resolve b m names) : ImageFits names := by
  unfold BuiltRight at h
  obtain ⟨r, hrun, hright⟩ := h
  obtain ⟨-, hnone⟩ | ⟨hshort, hlarge, -⟩ | ⟨-, -, hsome⟩ := build_cases resolve b names m
  · rw [hnone] at hrun
    cases hrun
  · rw [sizeImage_eq] at hlarge
    exact .inr ⟨hshort, hlarge⟩
  · rw [hsome] at hrun
    cases hrun
    obtain hnone | ⟨hin, ⟨size, -, -, hback⟩, -⟩ := hright
    · cases hnone
    have hfull := size_of_inside hin
    -- an index that is no 32-bit number is never found
    have hcount : names.length < 2 ^ 32 := by
      refine Nat.lt_of_not_le fun hle => ?_
      have hlast : 2 ^ 32 - 1 < names.length := by omega
      have hfound := bsearch_lt (hback.search _ _ (List.getElem?_eq_getElem hlast))
      have hnnames : (imageDir (builtImage resolve b (taken names) m) b).nnames < 2 ^ 32 := Mem.rd32_lt ..
      dsimp only at hfound
      omega
    have htaken : taken names = names := by
      unfold taken
      rw [Nat.mod_eq_of_lt hcount, List.take_length]
    rw [htaken] at hfull
    exact .inl ⟨hcount, hfull⟩

end Build

def dbgPrint : CString := ⟨ascii "DbgPrint", by decide⟩
def strlenName : CString := ⟨ascii "strlen", by decide⟩

/-- `n` times the letter `a`. -/
def letters (n : Nat) : CString := ⟨List.replicate n 97, fun h => by
  have hzero := List.eq_of_mem_replicate h
  exact absurd hzero (by decide)⟩

theorem fullSize_letters (n : Nat) : fullSize [letters n] =
    ((0x1028 + 10 + (n + 1) + 15) / 16 * 16 + 25 + 4095) / 4096 * 4096 := by
  have hlength : (letters n).chars.length = n := List.length_replicate
  have hspan : span [letters n] = n + 1 := by
    rw [span_cons, hlength]
    rfl
  unfold fullSize
  rw [hspan]
  rfl

end MeuOS.Ldr
