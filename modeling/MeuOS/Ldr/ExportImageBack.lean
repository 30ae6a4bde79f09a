import MeuOS.Ldr.ExportImage

/-! What is read back from the synthetic image: its headers, its directory, and each name with its
trampoline. -/
namespace MeuOS.Ldr

open MeuOS.Lib

section Built

variable {resolve : CString → UInt64} {b k : Nat} {ns : List CString} {m : Mem}

theorem length_le_span (ns : List CString) : ns.length ≤ span ns := by
  induction ns with
  | nil => exact Nat.le_refl _
  | cons nm ns ih =>
    rw [span_cons, List.length_cons]
    omega

theorem span_take_lt {i j : Nat} {nm : CString} (hi : ns[i]? = some nm) (hlt : i < j) :
    span (ns.take i) + nm.chars.length + 1 ≤ span (ns.take j) := by
  induction ns generalizing i j with
  | nil => cases hi
  | cons x ns ih =>
    obtain ⟨j, rfl⟩ := Nat.exists_eq_add_of_lt hlt
    rw [List.take_succ_cons, span_cons]
    cases i with
    | zero =>
      cases hi
      have hnone : span ([] : List CString) = 0 := rfl
      rw [List.take_zero, hnone]
      omega
    | succ i =>
      have hrest := ih (i := i) (j := i + j + 1) hi (by omega)
      rw [List.take_succ_cons, span_cons, show i + 1 + j = i + j + 1 by omega]
      omega

theorem span_take_le {i : Nat} {nm : CString} (hi : ns[i]? = some nm) :
    span (ns.take i) + nm.chars.length + 1 ≤ span ns := by
  have hall := span_take_lt hi (List.getElem?_eq_some_iff.1 hi).1
  rwa [List.take_length] at hall

/-- All that is stored. -/
def imageStores (resolve : CString → UInt64) (b : Nat) (ns : List CString) : List Store :=
  tableStores resolve ns ++ headerStores b (sizeImage ns) (secRawEnd ns)

def builtImage (resolve : CString → UInt64) (b : Nat) (ns : List CString) (m : Mem) : Mem :=
  Store.run b (imageStores resolve b ns) m

theorem headerStores_place (b size rawEnd : Nat) :
    (headerStores b size rawEnd).map Store.place = (headerStores 0 0 0).map Store.place := by
  unfold headerStores
  simp only [List.map_append, List.map_cons, List.map_nil, Store.place]

theorem headerStores_inside (b size rawEnd : Nat) : Store.Inside (headerStores b size rawEnd) 0 0x1000 := by
  have hall : ∀ p ∈ (headerStores 0 0 0).map Store.place, 0 ≤ p.off ∧ p.off + p.width ≤ 0x1000 :=
      by decide +kernel
  intro s hs
  exact hall s.place (headerStores_place b size rawEnd ▸ List.mem_map_of_mem hs)

theorem headerStores_apart (b size rawEnd : Nat) :
    ((headerStores b size rawEnd).map Store.place).Pairwise Place.Apart := by
  have hall : ((headerStores 0 0 0).map Store.place).Pairwise fun s t =>
      s.off + s.width ≤ t.off ∨ t.off + t.width ≤ s.off := by decide +kernel
  rw [headerStores_place]
  exact hall

/-- A field of the headers. -/
theorem header_field {off width value i : Nat}
    (h : (headerStores b (sizeImage ns) (secRawEnd ns))[i]? = some ⟨off, width, value⟩) :
    (builtImage resolve b ns m).read (b + off) width = value % 256 ^ width := by
  unfold builtImage imageStores
  rw [Store.run_append]
  exact Store.read_run_mem (headerStores_apart ..) (List.mem_of_getElem? h)

theorem directoryStores_inside (n : Nat) : Store.Inside (directoryStores n) 0x1000 0x1028 := by
  have hplaces : (directoryStores n).map Store.place = (directoryStores 0).map Store.place := rfl
  have hall : ∀ p ∈ (directoryStores 0).map Store.place, 0x1000 ≤ p.off ∧ p.off + p.width ≤ 0x1028 :=
      by decide +kernel
  intro s hs
  exact hall s.place (hplaces ▸ List.mem_map_of_mem hs)

theorem directoryStores_apart (n : Nat) : ((directoryStores n).map Store.place).Pairwise Place.Apart := by
  have hplaces : (directoryStores n).map Store.place = (directoryStores 0).map Store.place := rfl
  have hall : ((directoryStores 0).map Store.place).Pairwise fun s t =>
      s.off + s.width ≤ t.off ∨ t.off + t.width ≤ s.off := by decide +kernel
  rw [hplaces]
  exact hall

/-- What comes behind the directory: the name of the module and the headers. -/
def tailStores (b : Nat) (ns : List CString) : List Store :=
  cstrStores (offModname ns) modname ++ ([⟨offExpdir + 0x0C, 4, offModname ns⟩] ++
    headerStores b (sizeImage ns) (secRawEnd ns))

theorem builtImage_eq : builtImage resolve b ns m = Store.run b (tailStores b ns)
    (Store.run b (directoryStores ns.length) (Store.run b (trampStores resolve 0 (offTramp ns) ns)
      (Store.run b (nameStores ns.length 0 (offStrs ns.length) ns) (m.write (b + 0) ntosImgCap 0)))) := by
  unfold builtImage imageStores tableStores tailStores
  simp only [Store.run_append]
  rfl

section Fitting

variable {stringsEnd tramps lo hi : Nat}

theorem tail_clear (hp : Placed ns stringsEnd tramps) (hfit : fullSize ns ≤ ntosImgCap) (hlo : 0x1010 ≤ lo)
    (hhi : hi ≤ tramps + 12 * ns.length) : Store.Clear (tailStores b ns) lo hi := by
  have hsize := hp.size_le
  have hmod := hp.modname
  unfold ntosImgCap at hfit
  unfold tailStores
  refine Store.clear_append.2 ⟨?_, Store.clear_append.2 ⟨?_, ?_⟩⟩
  · exact (cstrStores_inside (by rw [modname_length]; omega)).clear (.inr (by omega))
  · exact List.forall_mem_singleton.2 (.inl hlo)
  · exact (headerStores_inside b _ _).clear (.inl (by omega))

/-- The `k`-th name in the image. -/
theorem name_read (resolve : CString → UInt64) (b : Nat) (m : Mem) (hp : Placed ns stringsEnd tramps) (hfit : fullSize ns ≤ ntosImgCap) {nm : CString}
    (hk : ns[k]? = some nm) :
    (builtImage resolve b ns m).Str (b + (offStrs ns.length + span (ns.take k))) nm.chars ∧
    (builtImage resolve b ns m).rd32 (b + (offNames ns.length + 4 * k)) =
        offStrs ns.length + span (ns.take k) ∧
    (builtImage resolve b ns m).rd16 (b + (offOrds ns.length + 2 * k)) = k := by
  have hcount := length_le_span ns
  have hin := span_take_le hk
  have hlt := (List.getElem?_eq_some_iff.1 hk).1
  have hcap : fullSize ns ≤ 98304 := hfit
  obtain ⟨hnames, hords, hstrs, hstrings, htramp, hle, -, -, -, hsize⟩ := id hp
  have hplaces := trampStores_places resolve 0 (offTramp ns) ns (by omega) (by omega)
  -- what is stored behind the names leaves the names and their tables alone
  have hlater : ∀ lo hi, 0x1028 + 4 * ns.length ≤ lo → hi ≤ stringsEnd → ∀ m',
      Mem.Agree (Store.run b (tailStores b ns)
      (Store.run b (directoryStores ns.length) (Store.run b (trampStores resolve 0 (offTramp ns) ns) m'))) m'
      (b + lo) (b + hi) := by
    intro lo hi hlo hhi m'
    have htail : Store.Clear (tailStores b ns) lo hi := tail_clear hp hfit (by omega) (by omega)
    have hdirectory : Store.Clear (directoryStores ns.length) lo hi :=
      (directoryStores_inside _).clear (.inl (by omega))
    have htramps : Store.Clear (trampStores resolve 0 (offTramp ns) ns) lo hi := by
      intro s hs
      have := hplaces s hs
      unfold TrampPlaces offFuncs offExpdir expRva at this
      omega
    exact (Store.run_agree htail).trans ((Store.run_agree hdirectory).trans (Store.run_agree htramps))
  obtain ⟨hstr, hname, hord⟩ := nameStores_entry b ns.length 0 (offStrs ns.length)
    (m.write (b + 0) ntosImgCap 0) (by omega) (by omega) (by omega) (by omega) hk
  rw [Nat.zero_add] at hname hord
  rw [builtImage_eq]
  refine ⟨hstr.congr fun a hlo hhi => ?_, ?_, ?_⟩
  · exact (hlater (offStrs ns.length + span (ns.take k))
      (offStrs ns.length + span (ns.take k) + nm.chars.length + 1)
      (by omega) (by omega) _ a hlo (by omega)).symm
  · rw [Mem.rd32_congr ((hlater (offNames ns.length + 4 * k) (offNames ns.length + 4 * k + 4) (by omega)
      (by omega) _).mono
      (Nat.le_refl _) (by omega)), hname]
  · rw [Mem.rd16, Mem.read_congr ((hlater (offOrds ns.length + 2 * k) (offOrds ns.length + 2 * k + 2)
      (by omega) (by omega)
      _).mono (Nat.le_refl _) (by omega)), ← Mem.rd16, hord]
    exact Nat.mod_eq_of_lt (by omega)

/-- The `k`-th trampoline in the image. -/
theorem tramp_read (resolve : CString → UInt64) (b : Nat) (m : Mem) (hp : Placed ns stringsEnd tramps) (hfit : fullSize ns ≤ ntosImgCap) {nm : CString}
    (hk : ns[k]? = some nm) :
    Trampoline (builtImage resolve b ns m) (b + (tramps + 12 * k)) (resolve nm).toNat ∧
    (builtImage resolve b ns m).rd32 (b + (offFuncs + 4 * k)) = tramps + 12 * k := by
  have hlt := (List.getElem?_eq_some_iff.1 hk).1
  have hcap : fullSize ns ≤ 98304 := hfit
  obtain ⟨-, -, hstrs, hstrings, htramp, hle, -, -, -, hsize⟩ := id hp
  have hfuncs : offFuncs = 0x1028 := rfl
  have hlater : ∀ lo hi, 0x1028 ≤ lo → hi ≤ tramps + 12 * ns.length → ∀ m', Mem.Agree
      (Store.run b (tailStores b ns) (Store.run b (directoryStores ns.length) m')) m' (b + lo) (b + hi) := by
    intro lo hi hlo hhi m'
    have htail : Store.Clear (tailStores b ns) lo hi := tail_clear hp hfit (by omega) hhi
    have hdirectory : Store.Clear (directoryStores ns.length) lo hi :=
      (directoryStores_inside _).clear (.inl (by omega))
    exact (Store.run_agree htail).trans (Store.run_agree hdirectory)
  obtain ⟨⟨hmov, himm, hjmp⟩, hslot⟩ := trampStores_entry resolve b 0 (offTramp ns)
    (Store.run b (nameStores ns.length 0 (offStrs ns.length) ns) (m.write (b + 0) ntosImgCap 0))
    (by omega) (by omega) (by omega) hk
  rw [Nat.zero_add] at hslot
  rw [htramp] at hmov himm hjmp hslot
  rw [builtImage_eq, htramp]
  have hcode := hlater (tramps + 12 * k) (tramps + 12 * k + 12) (by omega) (by omega)
  refine ⟨⟨⟨?_, ?_⟩, ?_, ?_, ?_⟩, ?_⟩
  · rw [hcode _ _ (by omega) (by omega), hmov.1]
  · rw [hcode _ _ (by omega) (by omega), hmov.2]
  · rw [Mem.rd64_congr ((hcode _).mono (by omega) (by omega)), himm]
  · rw [hcode _ _ (by omega) (by omega), hjmp.1]
  · rw [hcode _ _ (by omega) (by omega), hjmp.2]
  · rw [Mem.rd32_congr ((hlater (offFuncs + 4 * k) (offFuncs + 4 * k + 4) (by omega)
      (by omega) _).mono (by omega)
      (by omega)), hslot]

/-- A field of the directory behind its `Name`. -/
theorem directory_field (hp : Placed ns stringsEnd tramps) (hfit : fullSize ns ≤ ntosImgCap)
    {off width value i : Nat}
    (h : (directoryStores ns.length)[i]? = some ⟨off, width, value⟩) (hoff : 0x1010 ≤ off) :
    (builtImage resolve b ns m).read (b + off) width = value % 256 ^ width := by
  have hin := directoryStores_inside ns.length _ (List.mem_of_getElem? h)
  have hend : 0x1028 ≤ tramps := by
    have hstrs := hp.strs
    have hstrings := hp.strings
    have hle := hp.tramp_le
    omega
  dsimp only at hin
  rw [builtImage_eq, Store.read_run_clear (tail_clear hp hfit hoff (by omega))]
  exact Store.read_run_mem (directoryStores_apart _) (List.mem_of_getElem? h)

/-- The directory that is read back. -/
structure DirectoryRead (resolve : CString → UInt64) (m : Mem) (b : Nat) (ns : List CString)
    (tramps : Nat) : Prop where
  rva : (getDir m b 0).1 = 0x1000
  ordBase : (imageDir m b).ordBase = 1
  nfuncs : (imageDir m b).nfuncs = ns.length
  nnames : (imageDir m b).nnames = ns.length
  parts : tableParts m b ns.length =
    [⟨0x1028, 4 * ns.length⟩, ⟨0x1028 + 4 * ns.length, 4 * ns.length⟩,
      ⟨0x1028 + 8 * ns.length, 2 * ns.length⟩]
  entry : ∀ k nm, ns[k]? = some nm →
    (imageDir m b).table .names k = 0x1028 + 10 * ns.length + span (ns.take k) ∧
    (imageDir m b).table .ordinals k = k ∧ (imageDir m b).table .functions k = tramps + 12 * k ∧
    m.Str (b + (imageDir m b).table .names k) nm.chars ∧
    Trampoline m (b + (imageDir m b).table .functions k) (resolve nm).toNat

theorem builtImage_headers (resolve : CString → UInt64) (b : Nat) (ns : List CString) (m : Mem) :
    optHeader (builtImage resolve b ns m) b = b + 0x98 ∧
    (builtImage resolve b ns m).rd16 (b + 0x98) = 0x20B ∧
    (getDir (builtImage resolve b ns m) b 0).1 = 0x1000 := by
  have hlfa : (builtImage resolve b ns m).rd32 (b + 0x3C) = 0x80 := header_field (i := 2) rfl
  have hmagic : (builtImage resolve b ns m).rd16 (b + 0x98) = 0x20B := header_field (i := 14) rfl
  have hdirs : (builtImage resolve b ns m).rd32 (b + 0x104) = 16 := header_field (i := 42) rfl
  have hexport : (builtImage resolve b ns m).rd32 (b + 0x108) = 0x1000 := header_field (i := 43) rfl
  have hopt : optHeader (builtImage resolve b ns m) b = b + 0x98 := by
    unfold optHeader
    rw [hlfa]
  refine ⟨hopt, hmagic, ?_⟩
  have htable : dirTable (builtImage resolve b ns m) b = (112, 16) := by
    unfold dirTable
    rw [hopt, hmagic, if_pos rfl, Nat.add_assoc, hdirs]
  unfold getDir
  rw [htable, hopt, if_neg (by decide)]
  exact hexport

theorem directory_read (resolve : CString → UInt64) (b : Nat) (m : Mem) (hp : Placed ns stringsEnd tramps) (hfit : fullSize ns ≤ ntosImgCap) :
    DirectoryRead resolve (builtImage resolve b ns m) b ns tramps := by
  have hcap : fullSize ns ≤ 98304 := hfit
  have hcount := length_le_span ns
  obtain ⟨hnames, hords, hstrs, hstrings, htramp, hle, -, -, -, hsize⟩ := id hp
  obtain ⟨-, -, hrva⟩ := builtImage_headers resolve b ns m
  have hword : ∀ {off v i : Nat}, (directoryStores ns.length)[i]? = some ⟨off, 4, v⟩ → 0x1010 ≤ off →
      v < 256 ^ 4 →
      (builtImage resolve b ns m).rd32 (b + off) = v := fun h hoff hlt =>
    (directory_field hp hfit h hoff).trans (Nat.mod_eq_of_lt hlt)
  have hbase : (builtImage resolve b ns m).rd32 (b + 0x1000 + 0x10) = 1 := by
    rw [Nat.add_assoc]
    exact hword (i := 5) rfl (by decide) (by decide)
  have hnfuncs : (builtImage resolve b ns m).rd32 (b + 0x1000 + 0x14) = ns.length := by
    rw [Nat.add_assoc]
    exact hword (i := 6) rfl (by decide) (by omega)
  have hnnames : (builtImage resolve b ns m).rd32 (b + 0x1000 + 0x18) = ns.length := by
    rw [Nat.add_assoc]
    exact hword (i := 7) rfl (by decide) (by omega)
  have hfuncsAt : (builtImage resolve b ns m).rd32 (b + 0x1000 + 0x1C) = 0x1028 := by
    rw [Nat.add_assoc]
    exact hword (i := 8) rfl (by decide) (by decide)
  have hnamesAt : (builtImage resolve b ns m).rd32 (b + 0x1000 + 0x20) = offNames ns.length := by
    rw [Nat.add_assoc]
    exact hword (i := 9) rfl (by decide) (by omega)
  have hordsAt : (builtImage resolve b ns m).rd32 (b + 0x1000 + 0x24) = offOrds ns.length := by
    rw [Nat.add_assoc]
    exact hword (i := 10) rfl (by decide) (by omega)
  have hdir : imageDir (builtImage resolve b ns m) b = exportDir (builtImage resolve b ns m) b 0x1000 := by
    unfold imageDir
    rw [hrva]
  refine ⟨hrva, by rw [hdir]; exact hbase, by rw [hdir]; exact hnfuncs, by rw [hdir]; exact hnnames, ?_,
    fun k nm hk => ?_⟩
  · unfold tableParts
    dsimp only
    rw [hrva, hfuncsAt, hnamesAt, hordsAt, hnames, hords]
  · obtain ⟨hstr, hname, hord⟩ := name_read resolve b m hp hfit hk
    obtain ⟨hcode, hslot⟩ := tramp_read resolve b m hp hfit hk
    have hnameAt : (imageDir (builtImage resolve b ns m) b).table .names k =
        offStrs ns.length + span (ns.take k) := by
      rw [hdir]
      unfold exportDir
      dsimp only
      rw [hnamesAt, Nat.add_assoc]
      exact hname
    have hfuncAt : (imageDir (builtImage resolve b ns m) b).table .functions k = tramps + 12 * k := by
      rw [hdir]
      unfold exportDir
      dsimp only
      rw [hfuncsAt, Nat.add_assoc]
      exact hslot
    refine ⟨by rw [hnameAt, hstrs], ?_, hfuncAt, by rw [hnameAt]; exact hstr, by rw [hfuncAt]; exact hcode⟩
    rw [hdir]
    unfold exportDir
    dsimp only
    rw [hordsAt, Nat.add_assoc]
    exact hord

/-- `pe_parse` accepts the image. -/
theorem image_parses (resolve : CString → UInt64) (b : Nat) (ns : List CString) (m : Mem) :
    ∃ pi, peParse ((builtImage resolve b ns m).shift b) = some pi ∧ pi.sizeImage = sizeImage ns := by
  have hbyte : ∀ {off v i : Nat}, (headerStores b (sizeImage ns) (secRawEnd ns))[i]? = some ⟨off, 1, v⟩ →
      (builtImage resolve b ns m).shift b off = UInt8.ofNat (v % 256) :=
          fun h => byte_of_read (header_field h)
  have hfield : ∀ {off w v i : Nat}, (headerStores b (sizeImage ns) (secRawEnd ns))[i]? = some ⟨off, w, v⟩ →
      ((builtImage resolve b ns m).shift b).read off w = v % 256 ^ w := fun h =>
    (Mem.read_shift ..).trans (header_field h)
  have hlfa : ((builtImage resolve b ns m).shift b).rd32 0x3C = 0x80 := hfield (i := 2) rfl
  have hopt : optHeader ((builtImage resolve b ns m).shift b) 0 = 0x98 := by
    unfold optHeader
    rw [Nat.zero_add, hlfa]
  have hmagic : ((builtImage resolve b ns m).shift b).rd16 0x98 = 0x20B := hfield (i := 14) rfl
  have hsize : ((builtImage resolve b ns m).shift b).rd32 (0x98 + 56) = sizeImage ns :=
    (hfield (i := 32) rfl).trans (Nat.mod_eq_of_lt (by rw [sizeImage_eq]; exact Nat.mod_lt _ (by decide)))
  have hm : (builtImage resolve b ns m).shift b 0 = 0x4D := hbyte (i := 0) rfl
  have hz : (builtImage resolve b ns m).shift b 1 = 0x5A := hbyte (i := 1) rfl
  have hp : (builtImage resolve b ns m).shift b 0x80 = 0x50 := hbyte (i := 3) rfl
  have he : (builtImage resolve b ns m).shift b (0x80 + 1) = 0x45 := hbyte (i := 4) rfl
  have h0 : (builtImage resolve b ns m).shift b (0x80 + 2) = 0 := hbyte (i := 5) rfl
  have h0' : (builtImage resolve b ns m).shift b (0x80 + 3) = 0 := hbyte (i := 6) rfl
  have hno : ∀ {x y : UInt8}, x = y → ¬ x ≠ y := fun h hne => hne h
  unfold peParse
  dsimp only
  rw [hlfa, hopt, if_neg (not_or.2 ⟨hno hm, hno hz⟩),
    if_neg (not_or.2 ⟨hno hp, not_or.2 ⟨hno he, not_or.2 ⟨hno h0, hno h0'⟩⟩⟩), hmagic, if_pos rfl]
  exact ⟨_, rfl, hsize⟩

section Lookups

/-- The string at an element of `AddressOfNames` is the one that is compared. -/
theorem streq_str {a : Nat} {l key : List UInt8} (h : m.Str a l) (hl : 0 ∉ l) (hkey : 0 ∉ key) :
    streq m a key = true ↔ l = key := by
  induction key generalizing a l with
  | nil =>
    unfold streq
    cases l with
    | nil => exact ⟨fun _ => rfl, fun _ => decide_eq_true (Mem.str_nil.1 h)⟩
    | cons x xs =>
      have hx : x ≠ 0 := fun hx => hl (hx ▸ List.mem_cons_self)
      rw [(Mem.str_cons.1 h).1]
      exact ⟨fun hzero => absurd (of_decide_eq_true hzero) hx, fun heq => by cases heq⟩
  | cons c cs ih =>
    have hc : c ≠ 0 := fun hc => hkey (hc ▸ List.mem_cons_self)
    unfold streq
    cases l with
    | nil =>
      rw [if_pos (Mem.str_nil.1 h), Mem.str_nil.1 h]
      exact ⟨fun hzero => absurd (of_decide_eq_true hzero).symm hc, fun heq => by cases heq⟩
    | cons x xs =>
      obtain ⟨hfirst, hrest⟩ := Mem.str_cons.1 h
      have hx : x ≠ 0 := fun hx => hl (hx ▸ List.mem_cons_self)
      rw [hfirst, if_neg hx]
      by_cases hsame : x = c
      · subst hsame
        rw [if_neg (fun hne => hne rfl), ih hrest (fun hmem => hl (List.mem_cons_of_mem _ hmem))
          fun hmem => hkey (List.mem_cons_of_mem _ hmem)]
        exact ⟨fun heq => by rw [heq], fun heq => (List.cons.inj heq).2⟩
      · rw [if_pos hsame]
        exact ⟨fun hfalse => absurd hfalse Bool.false_ne_true, fun heq => absurd (List.cons.inj heq).1 hsame⟩

/-- The names in their order. -/
def InOrder (ns : List CString) : Prop := (ns.map CString.chars).Pairwise (· < ·)

theorem InOrder.lt (h : InOrder ns) {i j : Nat} {x y : CString} (hi : ns[i]? = some x) (hj : ns[j]? = some y)
    (hlt : i < j) : x.chars < y.chars := by
  obtain ⟨hi', rfl⟩ := List.getElem?_eq_some_iff.1 hi
  obtain ⟨hj', rfl⟩ := List.getElem?_eq_some_iff.1 hj
  have hpair := List.pairwise_iff_getElem.1 h i j (by rwa [List.length_map]) (by rwa [List.length_map]) hlt
  rwa [List.getElem_map, List.getElem_map] at hpair

theorem search_finds (hd : DirectoryRead resolve m b ns tramps) (horder : InOrder ns) {i : Nat} {nm : CString}
    (hi : ns[i]? = some nm) :
    bsearch (fun k => m.strcmp (b + (imageDir m b).table .names k) nm.chars) 0 (imageDir m b).nnames =
        some i := by
  have hlt := (List.getElem?_eq_some_iff.1 hi).1
  have hstr : ∀ k < ns.length, ∃ x, ns[k]? = some x ∧ m.Str (b + (imageDir m b).table .names k) x.chars :=
    fun k hk => ⟨ns[k], List.getElem?_eq_getElem hk, (hd.entry k _ (List.getElem?_eq_getElem hk)).2.2.2.1⟩
  rw [hd.nnames]
  refine bsearch_eq (Nat.zero_le i) hlt (fun k hk => ?_) ?_ fun k hk hkn => ?_
  · obtain ⟨x, hx, hat⟩ := hstr k (by omega)
    exact Mem.strcmp_lt hat nm.terminated (horder.lt hx hi hk)
  · exact Mem.strcmp_self (hd.entry i nm hi).2.2.2.1
  · obtain ⟨x, hx, hat⟩ := hstr k hkn
    exact Mem.strcmp_gt hat x.terminated (horder.lt hi hx hk)

theorem exports_found (hd : DirectoryRead resolve m b ns tramps) (horder : InOrder ns) {i : Nat}
    {nm : CString}
    (hi : ns[i]? = some nm) : (peGetExport m b nm).1 = b + (imageDir m b).table .functions i := by
  have hlt := (List.getElem?_eq_some_iff.1 hi).1
  have hrva : (getDir m b 0).1 ≠ 0 := by
    rw [hd.rva]
    decide
  obtain ⟨-, hord, -, hstr, -⟩ := hd.entry i nm hi
  rw [peGetExport_eq hrva]
  change (exportLoop m b (imageDir m b) nm.chars (imageDir m b).nnames 0).1 = _
  have hfirst : (exportLoop m b (imageDir m b) nm.chars (imageDir m b).nnames 0).1 = _ ∧ _ :=
    exportLoop_first (Nat.zero_le i) (by rw [hd.nnames]; omega)
      ((streq_str hstr nm.terminated nm.terminated).2 rfl) fun k _ hk hnamed => by
      have hx := List.getElem?_eq_getElem (show k < ns.length by omega)
      have hat := (hd.entry k _ hx).2.2.2.1
      have heq := (streq_str hat (ns[k]).terminated nm.terminated).1 hnamed
      have hless := horder.lt hx hi hk
      rw [heq] at hless
      exact absurd hless (List.lt_irrefl _)
  rw [hfirst.1, hord]

theorem ordinal_found (hd : DirectoryRead resolve m b ns tramps) (htramps : tramps ≠ 0) {i : Nat}
    {nm : CString}
    (hi : ns[i]? = some nm) :
    (peGetExportByOrdinal m b (i + 1)).1 = b + (imageDir m b).table .functions i := by
  have hlt := (List.getElem?_eq_some_iff.1 hi).1
  have hrva : (getDir m b 0).1 ≠ 0 := by
    rw [hd.rva]
    decide
  obtain ⟨-, -, hfunc, -⟩ := hd.entry i nm hi
  unfold peGetExportByOrdinal
  dsimp only
  rw [if_neg hrva]
  change (if i + 1 < (imageDir m b).ordBase then ((0 : Nat), _)
    else if (imageDir m b).nfuncs ≤ i + 1 - (imageDir m b).ordBase then _
    else (if (imageDir m b).table .functions (i + 1 - (imageDir m b).ordBase) = 0 then 0
      else b + (imageDir m b).table .functions (i + 1 - (imageDir m b).ordBase), _)).1 = _
  rw [hd.ordBase, hd.nfuncs, Nat.add_sub_cancel, if_neg (by omega), if_neg (by omega), hfunc,
      if_neg (by omega)]

/-- The parts lie one behind the other. -/
theorem parts_apart (hd : DirectoryRead resolve m b ns tramps)
    (hend : 0x1028 + 10 * ns.length + span ns ≤ tramps) : (imageParts m b ns).Pairwise Place.Apart := by
  have hname : ∀ i (hi : i < ns.length), (imageDir m b).table .names i =
      0x1028 + 10 * ns.length + span (ns.take i) ∧ span (ns.take i) + (ns[i]).chars.length + 1 ≤ span ns :=
    fun i hi => ⟨(hd.entry i _ (List.getElem?_eq_getElem hi)).1, span_take_le (List.getElem?_eq_getElem hi)⟩
  have hfunc : ∀ i < ns.length, (imageDir m b).table .functions i = tramps + 12 * i :=
    fun i hi => (hd.entry i _ (List.getElem?_eq_getElem hi)).2.2.1
  have hstrings : (ns.mapIdx fun i nm =>
      (⟨(imageDir m b).table .names i, nm.chars.length + 1⟩ : Place)).Pairwise fun s t => s.off + s.width ≤ t.off := by
    refine List.pairwise_iff_getElem.2 fun i j hi hj hlt => ?_
    rw [List.length_mapIdx] at hi hj
    rw [List.getElem_mapIdx, List.getElem_mapIdx]
    dsimp only
    rw [(hname i hi).1, (hname j hj).1]
    have := span_take_lt (List.getElem?_eq_getElem hi) hlt
    omega
  have htramps : ((List.range ns.length).map fun i =>
      (⟨(imageDir m b).table .functions i, 12⟩ : Place)).Pairwise fun s t => s.off + s.width ≤ t.off := by
    refine List.pairwise_iff_getElem.2 fun i j hi hj hlt => ?_
    rw [List.length_map, List.length_range] at hi hj
    rw [List.getElem_map, List.getElem_map, List.getElem_range, List.getElem_range]
    dsimp only
    rw [hfunc i hi, hfunc j hj]
    omega
  have hordered : (imageParts m b ns).Pairwise fun s t => s.off + s.width ≤ t.off := by
    unfold imageParts
    rw [hd.parts]
    refine List.pairwise_append.2 ⟨List.pairwise_append.2 ⟨?_, hstrings, ?_⟩, htramps, ?_⟩
    · simp only [List.pairwise_cons, List.mem_cons, List.not_mem_nil, or_false, forall_eq_or_imp, forall_eq,
        false_imp_iff, implies_true, List.Pairwise.nil, and_true]
      omega
    · intro s hs t ht
      obtain ⟨i, hi, rfl⟩ := List.mem_mapIdx.1 ht
      dsimp only
      rw [(hname i hi).1]
      simp only [List.mem_cons, List.not_mem_nil, or_false] at hs
      rcases hs with rfl | rfl | rfl
      all_goals dsimp only
      all_goals omega
    · intro s hs t ht
      obtain ⟨i, hi, rfl⟩ := List.mem_map.1 ht
      dsimp only
      rw [hfunc i (List.mem_range.1 hi)]
      rcases List.mem_append.1 hs with hs | hs
      · simp only [List.mem_cons, List.not_mem_nil, or_false] at hs
        rcases hs with rfl | rfl | rfl
        all_goals dsimp only
        all_goals omega
      · obtain ⟨j, hj, rfl⟩ := List.mem_mapIdx.1 hs
        have := hname j hj
        dsimp only
        omega
  exact hordered.imp fun h => .inl h

end Lookups

theorem image_parses_back (hp : Placed ns stringsEnd tramps) (hfit : fullSize ns ≤ ntosImgCap)
    (horder : InOrder ns) :
    ParsesBack resolve (builtImage resolve b ns m) b ns (sizeImage ns) := by
  have hd := directory_read resolve b m hp hfit
  have hstrs := hp.strs
  have hstrings := hp.strings
  have hle := hp.tramp_le
  refine ⟨image_parses resolve b ns m, fun i nm hi => search_finds hd horder hi, fun i nm hi =>
    ⟨exports_found hd horder hi, ordinal_found hd (by omega) hi, (hd.entry i nm hi).2.2.2.2⟩,
    parts_apart hd (by omega)⟩

theorem imageStores_inside (hp : Placed ns stringsEnd tramps) (hfit : fullSize ns ≤ ntosImgCap) :
    Store.Inside (imageStores resolve b ns) 0 ntosImgCap := by
  have hcap : fullSize ns ≤ 98304 := hfit
  have hcount := length_le_span ns
  have hfuncs : offFuncs = 0x1028 := rfl
  have himg : ntosImgCap = 98304 := rfl
  obtain ⟨hnames, hords, hstrs, hstrings, htramp, hle, hmod, -, -, hsize⟩ := hp
  have hin : ∀ {l : List Store} {lo hi : Nat}, Store.Inside l lo hi → hi ≤ 98304 →
      Store.Inside l 0 ntosImgCap :=
    fun h hhi => h.mono (Nat.zero_le _) hhi
  unfold imageStores tableStores
  intro s hs
  simp only [List.cons_append, List.mem_cons, List.mem_append, List.not_mem_nil, or_false] at hs
  obtain rfl | ((((hs | hs) | hs) | hs) | rfl) | hs := hs
  · exact ⟨Nat.zero_le _, Nat.le_of_eq (Nat.zero_add _)⟩
  · have := nameStores_places ns.length 0 (offStrs ns.length) ns (by omega) (by omega) s hs
    unfold NamePlaces at this
    omega
  · have := trampStores_places resolve 0 (offTramp ns) ns (by omega) (by omega) s hs
    unfold TrampPlaces at this
    omega
  · exact hin (directoryStores_inside _) (by decide) s hs
  · exact hin (cstrStores_inside (by rw [modname_length]; omega)) (by rw [modname_length]; omega) s hs
  · have hname : offExpdir + 0x0C + 4 ≤ ntosImgCap := by decide
    exact ⟨Nat.zero_le _, hname⟩
  · exact hin (headerStores_inside b _ _) (by decide) s hs

end Fitting

end Built

end MeuOS.Ldr
