import MeuOS.Ntfs.Attributes
import Mathlib.Algebra.BigOperators.Group.List.Basic

/-! What mapping pairs mean: a list of runs, each with its length and the step of the LCN, and
where a VCN lies in it. `ntfs_run_for_vcn` is a search of that list in 64-bit arithmetic. -/
namespace MeuOS.Ntfs

open MeuOS.Lib

/-- A run; a hole has no step. -/
structure Extent where
  clusters : Nat
  delta : Option Int

/-- `n` bytes in two's complement. -/
def signedAt (m : Mem) (p n : Nat) : Int :=
  if 128 ≤ (m (p + n - 1)).toNat then (m.read p n : Int) - 256 ^ n else m.read p n

def lenSize (m : Mem) (p : Nat) : Nat := (m p).toNat % 16
def offSize (m : Mem) (p : Nat) : Nat := (m p).toNat / 16
def nextPair (m : Mem) (p : Nat) : Nat := p + 1 + lenSize m p + offSize m p

def extentAt (m : Mem) (p : Nat) : Extent where
  clusters := m.read (p + 1) (lenSize m p)
  delta := if offSize m p = 0 then none else some (signedAt m (p + 1 + lenSize m p) (offSize m p))

/-- The bytes from a place up to `stop` encode a list of runs. -/
inductive Encodes (m : Mem) (stop : Nat) : Nat → List Extent → Prop
  | done {p : Nat} (hend : stop ≤ p ∨ m p = 0) : Encodes m stop p []
  | run {p : Nat} {rest : List Extent} (hlen : 1 ≤ lenSize m p ∧ lenSize m p ≤ 8) (hoff : offSize m p ≤ 8)
      (hfits : nextPair m p ≤ stop) (hrest : Encodes m stop (nextPair m p) rest) :
      Encodes m stop p (extentAt m p :: rest)

/-! ## Where a VCN lies -/

def startOf (runs : List Extent) : Nat := (runs.map Extent.clusters).sum

def lcnOf (runs : List Extent) : Int := (runs.map fun x => x.delta.getD 0).sum

/-- The VCN is in the run `x` behind `before`. -/
structure InRun (runs : List Extent) (vcn : Nat) (before : List Extent) (x : Extent) : Prop where
  split : ∃ after, runs = before ++ x :: after
  low : startOf before ≤ vcn
  high : vcn < startOf before + x.clusters

section Places

variable {runs before before' : List Extent} {x x' : Extent} {vcn : Nat}

theorem startOf_append (before after : List Extent) :
    startOf (before ++ after) = startOf before + startOf after := by
  unfold startOf
  rw [List.map_append, List.sum_append]

theorem startOf_cons (x : Extent) (rest : List Extent) : startOf (x :: rest) = x.clusters + startOf rest := by
  unfold startOf
  rw [List.map_cons, List.sum_cons]

theorem lcnOf_cons (x : Extent) (rest : List Extent) : lcnOf (x :: rest) = x.delta.getD 0 + lcnOf rest := by
  unfold lcnOf
  rw [List.map_cons, List.sum_cons]

theorem lcnOf_concat (before : List Extent) (x : Extent) :
    lcnOf (before ++ [x]) = lcnOf before + x.delta.getD 0 := by
  unfold lcnOf
  rw [List.map_append, List.sum_append, List.map_singleton, List.sum_singleton]

/-- Behind the run of a VCN no other one has it. -/
theorem InRun.length_le (h : InRun runs vcn before x) (h' : InRun runs vcn before' x') :
    before'.length ≤ before.length := by
  obtain ⟨after, hsplit⟩ := h.split
  obtain ⟨after', hsplit'⟩ := h'.split
  by_contra hlt
  have hrun : before ++ [x] <+: runs := ⟨after, by rw [hsplit, List.append_assoc]; rfl⟩
  have hlength : (before ++ [x]).length ≤ before'.length := by
    rw [List.length_append, List.length_singleton]
    omega
  obtain ⟨between, rfl⟩ := List.prefix_of_prefix_length_le hrun ⟨x' :: after', hsplit'.symm⟩ hlength
  have hlow := h'.low
  have hhigh := h.high
  rw [startOf_append, startOf_append, startOf_cons] at hlow
  simp only [startOf, List.map_nil, List.sum_nil] at hlow hhigh
  omega

theorem InRun.unique (h : InRun runs vcn before x) (h' : InRun runs vcn before' x') :
    before' = before ∧ x' = x := by
  obtain ⟨after, hsplit⟩ := h.split
  obtain ⟨after', hsplit'⟩ := h'.split
  have hlength := Nat.le_antisymm (h.length_le h') (h'.length_le h)
  obtain ⟨hbefore, hrest⟩ := List.append_inj (hsplit'.symm.trans hsplit) hlength
  exact ⟨hbefore, (List.cons.inj hrest).1⟩

/-- Every VCN below the end is in a run. -/
theorem exists_inRun (h : vcn < startOf runs) : ∃ before x, InRun runs vcn before x := by
  induction runs generalizing vcn with
  | nil => cases h
  | cons y rest ih =>
    rw [startOf_cons] at h
    by_cases hhere : vcn < y.clusters
    · exact ⟨[], y, ⟨rest, rfl⟩, Nat.zero_le _, by simpa [startOf] using hhere⟩
    · obtain ⟨before, x, ⟨after, hsplit⟩, hlow, hhigh⟩ :=
        ih (show vcn - y.clusters < startOf rest by omega)
      refine ⟨y :: before, x, ⟨after, by rw [hsplit]; rfl⟩, ?_, ?_⟩
      · rw [startOf_cons]
        omega
      · rw [startOf_cons]
        omega

end Places

/-! ## The search -/

/-- The search of `ntfs_run_for_vcn` over decoded runs; the LCN is reduced when it is reported. -/
def search64 (vcn : Nat) : Nat → Int → List Extent → Option Run
  | _, _, [] => none
  | cur, lcn, x :: rest =>
      let lcn := lcn + x.delta.getD 0
      if cur ≤ vcn ∧ vcn < (cur + x.clusters) % 2 ^ 64 then
        some
          { lcn := if x.delta.isNone then 0 else ((lcn + (vcn - cur : Nat)) % 2 ^ 64).toNat
            clusters := x.clusters - (vcn - cur)
            sparse := x.delta.isNone }
      else search64 vcn ((cur + x.clusters) % 2 ^ 64) lcn rest

/-- The runs up to the header that ends the list, and whether that header has a field of more
than 8 bytes, all of it inside the attribute. -/
def mappingPairs (m : Mem) (stop : Nat) : Nat → Nat → List Extent × Bool
  | 0, _ => ([], false)
  | fuel + 1, p =>
      if stop ≤ p ∨ m p = 0 then ([], false)
      else if lenSize m p = 0 ∨ stop < nextPair m p then ([], false)
      else if 8 < lenSize m p ∨ 8 < offSize m p then ([], true)
      else (extentAt m p :: (mappingPairs m stop fuel (nextPair m p)).1,
        (mappingPairs m stop fuel (nextPair m p)).2)

section Search

variable {m : Mem} {stop p vcn cur fuel : Nat} {lcn : Int} {runs rest : List Extent}

/-- The decoded step is the one the code adds. -/
theorem rdSigned_signedAt {n : Nat} (hn : 0 < n) (hn8 : n ≤ 8) :
    (rdSigned m p n : Int) % 2 ^ 64 = signedAt m p n % 2 ^ 64 := by
  have hlt := m.read_lt p n
  unfold rdSigned signedAt
  by_cases hneg : 128 ≤ (m (p + n - 1)).toNat
  · rw [if_pos hneg]
    rcases Nat.lt_or_eq_of_le hn8 with hlt8 | rfl
    · rw [if_pos ⟨hn, hlt8, hneg⟩]
      have hpow : 256 ^ n ≤ 2 ^ 64 := by
        calc 256 ^ n ≤ 256 ^ 8 := Nat.pow_le_pow_right (by decide) hn8
          _ = 2 ^ 64 := rfl
      have hcast : ((m.read p n + 2 ^ 64 - 256 ^ n : Nat) : Int) = (m.read p n : Int) - 256 ^ n + 2 ^ 64 := by
        rw [Nat.cast_sub (by omega)]
        push_cast
        ring
      rw [hcast, Int.add_emod_right]
    · rw [if_neg fun hsmall => absurd hsmall.2.1 (by decide)]
      have hcast : (m.read p 8 : Int) = (m.read p 8 : Int) - 256 ^ 8 + 2 ^ 64 := by norm_num
      conv_lhs => rw [hcast]
      rw [Int.add_emod_right]
  · rw [if_neg hneg, if_neg fun hboth => hneg hboth.2.2]

theorem extentAt_lt (hlen : lenSize m p ≤ 8) : (extentAt m p).clusters < 2 ^ 64 := by
  have hlt := m.read_lt (p + 1) (lenSize m p)
  calc (extentAt m p).clusters < 256 ^ lenSize m p := hlt
    _ ≤ 256 ^ 8 := Nat.pow_le_pow_right (by decide) hlen
    _ = 2 ^ 64 := rfl

theorem nextPair_gt (m : Mem) (p : Nat) : p < nextPair m p := by
  unfold nextPair
  omega

/-- The loop decodes and searches. -/
theorem runForVcnLoop_eq {l : Nat} (hl : (l : Int) = lcn % 2 ^ 64) (hfuel : stop < fuel + p) :
    runForVcnLoop m stop vcn fuel p cur l =
      match search64 vcn cur lcn (mappingPairs m stop fuel p).1 with
      | some run => some (some run)
      | none => if (mappingPairs m stop fuel p).2 then none else some none := by
  induction fuel generalizing p cur lcn l with
  | zero => rfl
  | succ fuel ih =>
    have hnextdef : p + 1 + (m p).toNat % 16 + (m p).toNat / 16 = nextPair m p := rfl
    have hlendef : (m p).toNat % 16 = lenSize m p := rfl
    have hoffdef : (m p).toNat / 16 = offSize m p := rfl
    unfold runForVcnLoop mappingPairs
    dsimp only
    rw [hnextdef, hlendef, hoffdef]
    by_cases hend : stop ≤ p ∨ m p = 0
    · rw [if_pos hend, if_pos hend]
      rfl
    rw [if_neg hend, if_neg hend]
    by_cases hbad : lenSize m p = 0 ∨ stop < nextPair m p
    · rw [if_pos hbad, if_pos hbad]
      rfl
    rw [if_neg hbad, if_neg hbad]
    by_cases hwide : 8 < lenSize m p ∨ 8 < offSize m p
    · rw [if_pos hwide, if_pos hwide]
      rfl
    rw [if_neg hwide, if_neg hwide]
    have hstep : (((if offSize m p = 0 then l
        else (l + rdSigned m (p + 1 + lenSize m p) (offSize m p)) % 2 ^ 64) : Nat) : Int) =
          (lcn + (extentAt m p).delta.getD 0) % 2 ^ 64 := by
      unfold extentAt
      by_cases hzero : offSize m p = 0
      · rw [if_pos hzero, if_pos hzero, Option.getD_none, Int.add_zero, hl]
      · rw [if_neg hzero, if_neg hzero, Option.getD_some]
        have hsigned := rdSigned_signedAt (m := m) (p := p + 1 + lenSize m p) (Nat.pos_of_ne_zero hzero)
          (not_lt.1 (not_or.1 hwide).2)
        omega
    generalize (if offSize m p = 0 then l
      else (l + rdSigned m (p + 1 + lenSize m p) (offSize m p)) % 2 ^ 64) = l' at hstep ⊢
    unfold search64
    dsimp only
    rw [show m.read (p + 1) (lenSize m p) = (extentAt m p).clusters from rfl]
    have hsparse : (extentAt m p).delta.isNone = decide (offSize m p = 0) := by
      unfold extentAt
      by_cases hzero : offSize m p = 0
      · rw [if_pos hzero, decide_eq_true hzero]
        rfl
      · rw [if_neg hzero, decide_eq_false hzero]
        rfl
    have hnext := nextPair_gt m p
    by_cases hfound : cur ≤ vcn ∧ vcn < (cur + (extentAt m p).clusters) % 2 ^ 64
    · rw [if_pos hfound, if_pos hfound, hsparse]
      dsimp only
      congr 3
      by_cases hzero : offSize m p = 0
      · rw [if_pos hzero, decide_eq_true hzero, if_pos rfl]
      · rw [if_neg hzero, decide_eq_false hzero, if_neg Bool.false_ne_true]
        omega
    · rw [if_neg hfound, if_neg hfound]
      exact ih hstep (by omega)

/-- Any number of turns from the length of the attribute on gives the same. -/
theorem mappingPairs_fuel {fuel' : Nat} (hfuel : stop < fuel + p) (hfuel' : stop < fuel' + p) :
    mappingPairs m stop fuel p = mappingPairs m stop fuel' p := by
  induction fuel generalizing p fuel' with
  | zero =>
    cases fuel' with
    | zero => rfl
    | succ fuel' => exact (if_pos (.inl (by omega))).symm
  | succ fuel ih =>
    cases fuel' with
    | zero => exact if_pos (.inl (by omega))
    | succ fuel' =>
      have hnext := nextPair_gt m p
      unfold mappingPairs
      rw [ih (by omega : stop < fuel + nextPair m p) (by omega : stop < fuel' + nextPair m p)]

theorem Encodes.mappingPairs (h : Encodes m stop p runs) (hfuel : stop < fuel + p) :
    Ntfs.mappingPairs m stop fuel p = (runs, false) := by
  induction h generalizing fuel with
  | done hend =>
    cases fuel with
    | zero => rfl
    | succ fuel => exact if_pos hend
  | @run p rest hlen hoff hfits hrest ih =>
    have hnext := nextPair_gt m p
    cases fuel with
    | zero => omega
    | succ fuel =>
      unfold Ntfs.mappingPairs
      by_cases hzero : m p = 0
      · have hlenzero : lenSize m p = 0 := by
          unfold lenSize
          rw [hzero]
          rfl
        omega
      rw [if_neg (by rintro (hstop | h0); exacts [by omega, hzero h0]), if_neg (by omega),
        if_neg (by omega), ih (by omega)]

theorem Encodes.clusters_lt (h : Encodes m stop p runs) : ∀ x ∈ runs, x.clusters < 2 ^ 64 := by
  induction h with
  | done => exact fun x hx => absurd hx List.not_mem_nil
  | run hlen hoff hfits hrest ih =>
    intro x hx
    rcases List.mem_cons.1 hx with rfl | hx
    · exact extentAt_lt hlen.2
    · exact ih x hx

/-! ## What the search finds -/

/-- Runs that end at or before the VCN are passed over. -/
theorem search64_skip {before : List Extent} (hvcn : vcn < 2 ^ 64) (hskip : cur + startOf before ≤ vcn) :
    search64 vcn cur lcn (before ++ rest) =
      search64 vcn (cur + startOf before) (lcn + lcnOf before) rest := by
  induction before generalizing cur lcn with
  | nil => simp [startOf, lcnOf]
  | cons x before ih =>
    rw [startOf_cons] at hskip
    rw [List.cons_append, search64, startOf_cons, lcnOf_cons]
    have hmod : (cur + x.clusters) % 2 ^ 64 = cur + x.clusters := Nat.mod_eq_of_lt (by omega)
    rw [hmod, if_neg (by omega), ih (by omega), Nat.add_assoc, Int.add_assoc]

/-- A run that is found ends below 2^64. -/
theorem search64_end {run : Run} (hclusters : ∀ x ∈ rest, x.clusters < 2 ^ 64)
    (hcur : cur < 2 ^ 64) (h : search64 vcn cur lcn rest = some run) : vcn + run.clusters < 2 ^ 64 := by
  induction rest generalizing cur lcn with
  | nil => cases h
  | cons x rest ih =>
    unfold search64 at h
    dsimp only at h
    have hx := hclusters x List.mem_cons_self
    by_cases hfound : cur ≤ vcn ∧ vcn < (cur + x.clusters) % 2 ^ 64
    · rw [if_pos hfound] at h
      cases h
      dsimp only
      omega
    · rw [if_neg hfound] at h
      exact ih (fun y hy => hclusters y (List.mem_cons_of_mem _ hy)) (Nat.mod_lt _ (by decide)) h

/-- What the claim of a lookup is about: the run of the VCN, if there is one. -/
def Reported (runs : List Extent) (vcn : Nat) : Option Run → Prop
  | none => ∀ before x, ¬InRun runs vcn before x
  | some run => ∃ before x, InRun runs vcn before x ∧ run.sparse = x.delta.isNone ∧
      (run.sparse = false → (run.lcn : Int) = (lcnOf (before ++ [x]) + (vcn - startOf before : Nat)) % 2 ^ 64) ∧
      run.clusters = startOf before + x.clusters - vcn

/-- The search reports the run of the VCN exactly when that run ends below 2^64. -/
theorem search64_reported (hclusters : ∀ x ∈ runs, x.clusters < 2 ^ 64) (hvcn : vcn < 2 ^ 64) :
    Reported runs vcn (search64 vcn 0 0 runs) ↔
      ∀ before x, InRun runs vcn before x → startOf before + x.clusters < 2 ^ 64 := by
  by_cases hin : ∃ before x, InRun runs vcn before x
  · obtain ⟨before, x, hx⟩ := hin
    have hrun := hx
    obtain ⟨⟨after, hsplit⟩, hlow, hhigh⟩ := hx
    have hxlt : x.clusters < 2 ^ 64 := hclusters x (by rw [hsplit]; simp)
    have hsearch : search64 vcn 0 0 runs = search64 vcn (startOf before) (lcnOf before) (x :: after) := by
      rw [hsplit, search64_skip hvcn (by omega), Nat.zero_add, Int.zero_add]
    rw [hsearch]
    by_cases hend : startOf before + x.clusters < 2 ^ 64
    · have hmod : (startOf before + x.clusters) % 2 ^ 64 = startOf before + x.clusters :=
        Nat.mod_eq_of_lt hend
      unfold search64
      dsimp only
      rw [hmod, if_pos ⟨hlow, hhigh⟩]
      refine iff_of_true ⟨before, x, hrun, rfl, fun hsparse => ?_, ?_⟩ fun before' x' h' => ?_
      · dsimp only at hsparse ⊢
        rw [hsparse, if_neg Bool.false_ne_true, lcnOf_concat]
        omega
      · dsimp only
        omega
      · obtain ⟨rfl, rfl⟩ := hrun.unique h'
        exact hend
    · -- the end wraps, and whatever run is found further on ends too early
      refine iff_of_false (fun hreported => ?_) fun hall => hend (hall before x hrun)
      have hfound := hreported
      cases hs : search64 vcn (startOf before) (lcnOf before) (x :: after) with
      | none =>
        rw [hs] at hfound
        exact hfound before x hrun
      | some run =>
        rw [hs] at hfound
        obtain ⟨before', x', h', -, -, hleft⟩ := hfound
        obtain ⟨rfl, rfl⟩ := hrun.unique h'
        have hbelow := search64_end (fun y hy => hclusters y (by rw [hsplit]; exact List.mem_append_right _ hy))
          (by omega) hs
        omega
  · have hnone : ∀ before x, ¬InRun runs vcn before x := fun before x hx => hin ⟨before, x, hx⟩
    have htotal : startOf runs ≤ vcn := by
      by_contra hlt
      obtain ⟨before, x, hx⟩ := exists_inRun (not_le.1 hlt)
      exact hnone before x hx
    have hsearch : search64 vcn 0 0 runs = none := by
      have hskip : search64 vcn 0 0 (runs ++ []) = search64 vcn (0 + startOf runs) (0 + lcnOf runs) [] :=
        search64_skip hvcn (by omega)
      rw [List.append_nil] at hskip
      rw [hskip]
      rfl
    rw [hsearch]
    exact iff_of_true hnone fun before x hx => absurd hx (hnone before x)

end Search

/-! ## What is read -/

/-- Addresses and numbers of bytes the walk over the headers can read, whatever it makes of their
values. -/
def pairReads (m : Mem) (stop : Nat) : Nat → Nat → List (Nat × Nat)
  | 0, _ => []
  | fuel + 1, p =>
      if stop ≤ p then []
      else (p, 1) :: if m p = 0 ∨ lenSize m p = 0 ∨ stop < nextPair m p then []
        else (p + 1, lenSize m p + offSize m p) :: pairReads m stop fuel (nextPair m p)

def pairsOff (m : Mem) (a : Nat) : Nat := a + m.rd16 (a + 0x20)
def attrStop (m : Mem) (a : Nat) : Nat := a + attrLen m a

def runReads (m : Mem) (a : Nat) : List (Nat × Nat) :=
  (a + 0x20, 2) :: (a + 4, 4) :: pairReads m (attrStop m a) (attrLen m a + 1) (pairsOff m a)

section Reads

variable {m m' : Mem} {a stop p vcn cur lcn fuel : Nat}

theorem pairReads_inside (ha : a ≤ p) : ∀ r ∈ pairReads m stop fuel p, a ≤ r.1 ∧ r.1 + r.2 ≤ stop := by
  induction fuel generalizing p with
  | zero => exact fun r hr => absurd hr List.not_mem_nil
  | succ fuel ih =>
    have hnext := nextPair_gt m p
    unfold pairReads
    by_cases hend : stop ≤ p
    · rw [if_pos hend]
      exact fun r hr => absurd hr List.not_mem_nil
    rw [if_neg hend]
    intro r hr
    rcases List.mem_cons.1 hr with rfl | hr
    · exact ⟨ha, Nat.not_le.1 hend⟩
    by_cases hbad : m p = 0 ∨ lenSize m p = 0 ∨ stop < nextPair m p
    · rw [if_pos hbad] at hr
      exact absurd hr List.not_mem_nil
    rw [if_neg hbad] at hr
    rcases List.mem_cons.1 hr with rfl | hr
    · have hfits := not_lt.1 (not_or.1 (not_or.1 hbad).2).2
      unfold nextPair at hfits
      exact ⟨by dsimp only; omega, by dsimp only; omega⟩
    · exact ih (by omega) r hr

/-- The reads are all there are: the loop does not depend on other bytes. -/
theorem runForVcnLoop_congr (h : ∀ r ∈ pairReads m stop fuel p, Mem.Agree m m' r.1 (r.1 + r.2)) :
    runForVcnLoop m' stop vcn fuel p cur lcn = runForVcnLoop m stop vcn fuel p cur lcn := by
  induction fuel generalizing p cur lcn with
  | zero => rfl
  | succ fuel ih =>
    unfold pairReads at h
    unfold runForVcnLoop
    by_cases hend : stop ≤ p
    · rw [if_pos (.inl hend), if_pos (.inl hend)]
    rw [if_neg hend] at h
    have hhdr : m' p = m p := (h (p, 1) List.mem_cons_self p (Nat.le_refl _) (Nat.lt_succ_self _)).symm
    rw [hhdr]
    by_cases hbad : m p = 0 ∨ lenSize m p = 0 ∨ stop < nextPair m p
    · by_cases hzero : m p = 0
      · rw [if_pos (.inr hzero), if_pos (.inr hzero)]
      · have hstop : (m p).toNat % 16 = 0 ∨ stop < p + 1 + (m p).toNat % 16 + (m p).toNat / 16 :=
          hbad.resolve_left hzero
        rw [if_neg (not_or.2 ⟨hend, hzero⟩), if_neg (not_or.2 ⟨hend, hzero⟩), if_pos hstop, if_pos hstop]
    rw [if_neg hbad] at h
    have hbytes : Mem.Agree m m' (p + 1) (p + 1 + (lenSize m p + offSize m p)) :=
      h (p + 1, lenSize m p + offSize m p) (List.mem_cons_of_mem _ List.mem_cons_self)
    have hlen : m'.read (p + 1) ((m p).toNat % 16) = m.read (p + 1) ((m p).toNat % 16) :=
      (Mem.read_congr (hbytes.mono (Nat.le_refl _) (by simp only [lenSize]; omega))).symm
    have hoff : rdSigned m' (p + 1 + (m p).toNat % 16) ((m p).toNat / 16) =
        rdSigned m (p + 1 + (m p).toNat % 16) ((m p).toNat / 16) := by
      have hread : m'.read (p + 1 + (m p).toNat % 16) ((m p).toNat / 16) =
          m.read (p + 1 + (m p).toNat % 16) ((m p).toNat / 16) :=
        (Mem.read_congr (hbytes.mono (by omega) (by simp only [lenSize, offSize]; omega))).symm
      unfold rdSigned
      rw [hread]
      by_cases hpos : 0 < (m p).toNat / 16
      · have hlast : m' (p + 1 + (m p).toNat % 16 + (m p).toNat / 16 - 1) =
            m (p + 1 + (m p).toNat % 16 + (m p).toNat / 16 - 1) :=
          (hbytes _ (by omega) (by simp only [lenSize, offSize]; omega)).symm
        rw [hlast]
      · rw [if_neg fun hall => hpos hall.1, if_neg fun hall => hpos hall.1]
    dsimp only
    rw [hlen, hoff]
    simp only [show ∀ cur lcn, runForVcnLoop m' stop vcn fuel (p + 1 + (m p).toNat % 16 + (m p).toNat / 16)
        cur lcn = runForVcnLoop m stop vcn fuel (p + 1 + (m p).toNat % 16 + (m p).toNat / 16) cur lcn from
      fun cur lcn => ih fun r hr => h r (List.mem_cons_of_mem _ (List.mem_cons_of_mem _ hr))]

theorem runReads_inside (ha : 0x22 ≤ attrLen m a) :
    ∀ r ∈ runReads m a, a ≤ r.1 ∧ r.1 + r.2 ≤ attrStop m a := by
  intro r hr
  have hstop : attrStop m a = a + attrLen m a := rfl
  rcases List.mem_cons.1 hr with rfl | hr
  · exact ⟨by dsimp only; omega, by dsimp only; omega⟩
  rcases List.mem_cons.1 hr with rfl | hr
  · exact ⟨by dsimp only; omega, by dsimp only; omega⟩
  · exact pairReads_inside (Nat.le_add_right _ _) r hr

theorem ntfsRunForVcn_congr (h : ∀ r ∈ runReads m a, Mem.Agree m m' r.1 (r.1 + r.2)) (vcn : Nat) :
    ntfsRunForVcn m' a vcn = ntfsRunForVcn m a vcn := by
  have hoff : m'.rd16 (a + 0x20) = m.rd16 (a + 0x20) :=
    (Mem.read_congr (h (a + 0x20, 2) List.mem_cons_self)).symm
  have hlen : attrLen m' a = attrLen m a :=
    (Mem.read_congr (h (a + 4, 4) (List.mem_cons_of_mem _ List.mem_cons_self))).symm
  unfold ntfsRunForVcn
  rw [hoff, hlen]
  exact runForVcnLoop_congr fun r hr => h r (List.mem_cons_of_mem _ (List.mem_cons_of_mem _ hr))

end Reads

/-! ## The lookup -/

section Lookup

variable {m : Mem} {a vcn : Nat}

/-- The mapping pairs of the attribute at `a`. -/
def attrPairs (m : Mem) (a : Nat) : List Extent × Bool :=
  mappingPairs m (attrStop m a) (attrLen m a + 1) (pairsOff m a)

/-- A header with a field of more than 8 bytes, inside the attribute, comes before the run in which
the VCN is found. -/
def WideBefore (m : Mem) (a vcn : Nat) : Prop :=
  (attrPairs m a).2 = true ∧ search64 vcn 0 0 (attrPairs m a).1 = none

theorem ntfsRunForVcn_eq (m : Mem) (a vcn : Nat) :
    ntfsRunForVcn m a vcn =
      match search64 vcn 0 0 (attrPairs m a).1 with
      | some run => some (some run)
      | none => if (attrPairs m a).2 then none else some none :=
  runForVcnLoop_eq (by decide) (by omega)

theorem ntfsRunForVcn_ne_none : ntfsRunForVcn m a vcn ≠ none ↔ ¬WideBefore m a vcn := by
  rw [ntfsRunForVcn_eq]
  unfold WideBefore
  cases search64 vcn 0 0 (attrPairs m a).1 with
  | some run => simp
  | none => simp

theorem Encodes.attrPairs {runs : List Extent} (h : Encodes m (attrStop m a) (pairsOff m a) runs) :
    Ntfs.attrPairs m a = (runs, false) :=
  h.mappingPairs (by unfold attrStop pairsOff; omega)

theorem Encodes.lookup {runs : List Extent} (h : Encodes m (attrStop m a) (pairsOff m a) runs) (vcn : Nat) :
    ntfsRunForVcn m a vcn = some (search64 vcn 0 0 runs) := by
  rw [ntfsRunForVcn_eq, h.attrPairs]
  cases search64 vcn 0 0 runs <;> rfl

/-- What is promised of a lookup: on mapping pairs that encode a list of runs it reports the run of
the VCN; on any bytes it is defined, keeps inside the attribute and ends. -/
structure LookupKept (m : Mem) (a vcn : Nat) : Prop where
  reported : ∀ runs, Encodes m (attrStop m a) (pairsOff m a) runs →
    ∃ out, ntfsRunForVcn m a vcn = some out ∧ Reported runs vcn out
  defined : ntfsRunForVcn m a vcn ≠ none
  inside : ∀ r ∈ runReads m a, a ≤ r.1 ∧ r.1 + r.2 ≤ attrStop m a
  only : ∀ m', (∀ r ∈ runReads m a, Mem.Agree m m' r.1 (r.1 + r.2)) →
    ntfsRunForVcn m' a vcn = ntfsRunForVcn m a vcn
  ends : ∀ fuel, attrLen m a < fuel →
    runForVcnLoop m (attrStop m a) vcn fuel (pairsOff m a) 0 0 = ntfsRunForVcn m a vcn

/-- The promise is kept exactly where the run of the VCN ends below 2^64 and no field of more than
8 bytes comes before it. -/
theorem run_lookup (ha : 0x22 ≤ attrLen m a) (hvcn : vcn < 2 ^ 64) :
    LookupKept m a vcn ↔
      (∀ runs, Encodes m (attrStop m a) (pairsOff m a) runs →
        ∀ before x, InRun runs vcn before x → startOf before + x.clusters < 2 ^ 64) ∧
      ¬WideBefore m a vcn := by
  have hreported : ∀ runs, Encodes m (attrStop m a) (pairsOff m a) runs →
      ((∃ out, ntfsRunForVcn m a vcn = some out ∧ Reported runs vcn out) ↔
        ∀ before x, InRun runs vcn before x → startOf before + x.clusters < 2 ^ 64) := by
    intro runs h
    rw [← search64_reported h.clusters_lt hvcn, h.lookup vcn]
    constructor
    · rintro ⟨out, heq, hout⟩
      cases heq
      exact hout
    · exact fun hout => ⟨_, rfl, hout⟩
  constructor
  · exact fun h => ⟨fun runs hruns => (hreported runs hruns).1 (h.reported runs hruns),
      ntfsRunForVcn_ne_none.1 h.defined⟩
  · rintro ⟨hends, hwide⟩
    refine ⟨fun runs hruns => (hreported runs hruns).2 (hends runs hruns), ntfsRunForVcn_ne_none.2 hwide,
      runReads_inside ha, fun m' h => ntfsRunForVcn_congr h vcn, fun fuel hfuel => ?_⟩
    have hpairs : mappingPairs m (attrStop m a) fuel (pairsOff m a) = attrPairs m a :=
      mappingPairs_fuel (by unfold attrStop pairsOff; omega) (by unfold attrStop pairsOff; omega)
    rw [ntfsRunForVcn_eq, ← hpairs]
    exact runForVcnLoop_eq (by decide) (by unfold attrStop pairsOff; omega)

end Lookup

/-- An attribute of 0x58 bytes whose mapping pairs start with these bytes. -/
def pairsAttr (pairs : List UInt8) : Mem := fun i =>
  if i = 4 then 0x58 else if i = 0x20 then 0x40 else if i < 0x40 then 0 else pairs.getD (i - 0x40) 0

/-- Four clusters at LCN 16, a hole of two, and three clusters 2 before the first ones. -/
theorem run_lookup_three : LookupKept (pairsAttr [0x11, 4, 16, 0x01, 2, 0x11, 3, 0xFE]) 0 7 ↔
    (∀ runs, Encodes (pairsAttr [0x11, 4, 16, 0x01, 2, 0x11, 3, 0xFE]) 0x58 0x40 runs →
      ∀ before x, InRun runs 7 before x → startOf before + x.clusters < 2 ^ 64) ∧
    ¬WideBefore (pairsAttr [0x11, 4, 16, 0x01, 2, 0x11, 3, 0xFE]) 0 7 :=
  run_lookup (by decide) (by decide)

/-- A length field of 15 bytes is shifted by up to 112 bits. -/
theorem run_lookup_wide : ¬∀ m a vcn, 0x22 ≤ attrLen m a → vcn < 2 ^ 64 → LookupKept m a vcn := by
  intro hall
  have hkept := hall (pairsAttr [0x1F]) 0 0 (by decide) (by decide)
  exact hkept.defined (by decide)

end MeuOS.Ntfs
