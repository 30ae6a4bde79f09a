import MeuOS.Lib.Mem

/-! The update sequence array. A protected record ends each of its sectors in the update
sequence number, and the bytes that were there wait in an array in the record itself.
The loops are those of the driver; a store past the end of the record is `none`. -/
namespace MeuOS.Ntfs

open MeuOS.Lib

/-- `(i + 1) * s_vol.bytes_per_sector - 2` in `uint32_t`. -/
def secEnd (bps i : Nat) : Nat := ((i + 1) * bps + 2 ^ 32 - 2) % 2 ^ 32

/-- `dst[0] = src[0]; dst[1] = src[1];` -/
def copyWord (m : Mem) (dst src : Nat) : Mem :=
  let m := m.put dst (m src)
  m.put (dst + 1) (m (src + 1))

def storeWord (m : Mem) (dst v : Nat) : Mem :=
  (m.put dst (UInt8.ofNat (v % 256))).put (dst + 1) (UInt8.ofNat (v / 256))

/-- The loop of `ntfs_apply_fixups` with `left` sectors to go. A mismatch of the number is
only logged. -/
def applyFixupsLoop (bps size usaOff : Nat) : Nat → Nat → Mem → Option (Int × Mem)
  | 0, _, m => some (0, m)
  | left + 1, i, m =>
      let e := secEnd bps i
      if size < (e + 2) % 2 ^ 32 then some (-1, m)
      else if size < e + 2 then none
      else applyFixupsLoop bps size usaOff left (i + 1) (copyWord m e (usaOff + 2 + i * 2))

def ntfsApplyFixups (bps : Nat) (m : Mem) (size usaOff usaCount : Nat) : Option (Int × Mem) :=
  if usaCount = 0 then some (0, m)
  else if size < usaOff + usaCount * 2 then some (-1, m)
  else applyFixupsLoop bps size usaOff (usaCount - 1) 0 m

/-- The loop of `ntfs_apply_fixups_for_write`. -/
def applyFixupsForWriteLoop (bps size usaOff usn : Nat) : Nat → Nat → Mem → Option (Int × Mem)
  | 0, _, m => some (0, m)
  | left + 1, i, m =>
      let e := secEnd bps i
      if size < (e + 2) % 2 ^ 32 then some (-1, m)
      else if size < e + 2 then none
      else
        let m := copyWord m (usaOff + 2 + i * 2) e
        applyFixupsForWriteLoop bps size usaOff usn left (i + 1) (storeWord m e usn)

/-- The number after `usn`, which is neither 0 nor 0xFFFF. -/
def nextUsn (usn : Nat) : Nat :=
  let next := (usn + 1) % 65536
  if next = 0 ∨ next = 0xFFFF then 1 else next

def ntfsApplyFixupsForWrite (bps : Nat) (m : Mem) (size usaOff usaCount : Nat) :
    Option (Int × Mem) :=
  if usaCount = 0 then some (0, m)
  else if size < usaOff + usaCount * 2 then some (-1, m)
  else
    let usn := nextUsn (m.rd16 usaOff)
    applyFixupsForWriteLoop bps size usaOff usn (usaCount - 1) 0 (storeWord m usaOff usn)

/-! ## Words -/

theorem copyWord_other (m : Mem) {dst src j : Nat} (h : j ≠ dst) (h' : j ≠ dst + 1) :
    copyWord m dst src j = m j := by
  unfold copyWord
  rw [Mem.put_other _ _ h', Mem.put_other _ _ h]

theorem copyWord_low (m : Mem) (dst src : Nat) : copyWord m dst src dst = m src := by
  unfold copyWord
  rw [Mem.put_other _ _ (by omega), Mem.put_same]

theorem copyWord_high (m : Mem) {dst src : Nat} (h : src + 1 ≠ dst) :
    copyWord m dst src (dst + 1) = m (src + 1) := by
  unfold copyWord
  rw [Mem.put_same, Mem.put_other _ _ h]

theorem storeWord_other (m : Mem) {dst v j : Nat} (h : j ≠ dst) (h' : j ≠ dst + 1) :
    storeWord m dst v j = m j := by
  unfold storeWord
  rw [Mem.put_other _ _ h', Mem.put_other _ _ h]

theorem rd16_storeWord (m : Mem) (dst : Nat) {v : Nat} (h : v < 65536) :
    (storeWord m dst v).rd16 dst = v := by
  have hlow : storeWord m dst v dst = UInt8.ofNat (v % 256) := by
    unfold storeWord
    rw [Mem.put_other _ _ (by omega), Mem.put_same]
  have hhigh : storeWord m dst v (dst + 1) = UInt8.ofNat (v / 256) := Mem.put_same ..
  simp only [Mem.rd16, Mem.read, hlow, hhigh, UInt8.toNat_ofNat']
  omega

theorem nextUsn_valid (usn : Nat) : nextUsn usn ≠ 0 ∧ nextUsn usn < 0xFFFF := by
  unfold nextUsn
  simp only
  split <;> omega

theorem nextUsn_ne (usn : Nat) : nextUsn usn ≠ usn := by
  unfold nextUsn
  simp only
  split <;> omega

/-! ## The protected words -/

/-- Every sector the array counts ends inside the record, at a multiple of a sector size
that leaves room for the number. -/
def SectorsFit (bps size usaCount : Nat) : Prop := 2 ≤ bps ∧ (usaCount - 1) * bps ≤ size

/-- The array does not overlap the sector ends it protects. -/
def UsaApart (bps usaOff usaCount : Nat) : Prop :=
  ∀ k, k < usaCount - 1 → secEnd bps k + 2 ≤ usaOff ∨ usaOff + usaCount * 2 ≤ secEnd bps k

/-- `UsaApart` for an array of `n` sectors whose ends are where they should be. -/
def EndsApart (bps usaOff n : Nat) : Prop :=
  ∀ k, k < n → (k + 1) * bps ≤ usaOff ∨ usaOff + 2 + n * 2 ≤ (k + 1) * bps - 2

theorem secEnd_of_lt {bps i : Nat} (hbps : 2 ≤ bps) (h : (i + 1) * bps < 2 ^ 32) :
    secEnd bps i = (i + 1) * bps - 2 := by
  have hle : bps ≤ (i + 1) * bps := Nat.le_mul_of_pos_left bps (Nat.succ_pos i)
  unfold secEnd
  omega

/-- Byte `j` lies in the last two bytes of one of the sectors `i, …, n - 1`. -/
def InEnds (bps i n j : Nat) : Prop :=
  ∃ k, i ≤ k ∧ k < n ∧ (j = (k + 1) * bps - 2 ∨ j = (k + 1) * bps - 2 + 1)

theorem sector_step (bps : Nat) {i k : Nat} (h : i < k) : (i + 1) * bps + bps ≤ (k + 1) * bps := by
  have hmul := Nat.mul_le_mul_right bps (show i + 2 ≤ k + 1 by omega)
  rw [show (i + 2) * bps = (i + 1) * bps + bps by ring] at hmul
  exact hmul

theorem sector_le {bps i n size : Nat} (h : i < n) (hfit : n * bps ≤ size) :
    bps ≤ (i + 1) * bps ∧ (i + 1) * bps ≤ size :=
  ⟨Nat.le_mul_of_pos_left bps (Nat.succ_pos i), (Nat.mul_le_mul_right bps h).trans hfit⟩

/-- The bytes of sector end `i` are in no later sector end. -/
theorem not_inEnds_self {bps i n j : Nat} (hbps : 2 ≤ bps)
    (hj : j = (i + 1) * bps - 2 ∨ j = (i + 1) * bps - 2 + 1) : ¬InEnds bps (i + 1) n j := by
  rintro ⟨k, hk, -, hmem⟩
  have hstep := sector_step bps (show i < k by omega)
  have hlow : bps ≤ (i + 1) * bps := Nat.le_mul_of_pos_left bps (Nat.succ_pos i)
  omega

theorem InEnds.of_succ {bps i n j : Nat} (h : InEnds bps (i + 1) n j) : InEnds bps i n j := by
  obtain ⟨k, hk, hk', hmem⟩ := h
  exact ⟨k, by omega, hk', hmem⟩

/-- The reading loop puts every saved word back and touches nothing else. -/
theorem applyFixupsLoop_spec {bps size usaOff n left i : Nat} (hbps : 2 ≤ bps)
    (hsize : size < 2 ^ 32) (hfit : n * bps ≤ size) (hapart : EndsApart bps usaOff n)
    (hn : i + left = n) (m : Mem) :
    ∃ m', applyFixupsLoop bps size usaOff left i m = some (0, m') ∧
      (∀ j, ¬InEnds bps i n j → m' j = m j) ∧
      ∀ k, i ≤ k → k < n → m' ((k + 1) * bps - 2) = m (usaOff + 2 + k * 2) ∧
        m' ((k + 1) * bps - 2 + 1) = m (usaOff + 2 + k * 2 + 1) := by
  induction left generalizing i m with
  | zero => exact ⟨m, rfl, fun _ _ => rfl, fun k hk hk' => by omega⟩
  | succ left ih =>
    obtain ⟨hlow, hhigh⟩ := sector_le (show i < n by omega) hfit
    have hend := secEnd_of_lt hbps (show (i + 1) * bps < 2 ^ 32 by omega)
    obtain ⟨m', hrun, hkeep, hword⟩ := ih (i := i + 1) (by omega)
      (copyWord m (secEnd bps i) (usaOff + 2 + i * 2))
    rw [hend] at hrun hkeep hword
    refine ⟨m', ?_, fun j hj => ?_, fun k hk hk' => ?_⟩
    · rw [applyFixupsLoop, hend, if_neg (by omega), if_neg (by omega), hrun]
    · rw [hkeep j fun h => hj h.of_succ, copyWord_other]
      · exact fun heq => hj ⟨i, Nat.le_refl i, by omega, .inl heq⟩
      · exact fun heq => hj ⟨i, Nat.le_refl i, by omega, .inr heq⟩
    · have hsep := hapart k hk'
      rcases Nat.eq_or_lt_of_le hk with rfl | hlt
      · rw [hkeep _ (not_inEnds_self hbps (.inl rfl)), hkeep _ (not_inEnds_self hbps (.inr rfl)),
          copyWord_low, copyWord_high _ (by omega)]
        exact ⟨rfl, rfl⟩
      · obtain ⟨hl, hh⟩ := hword k hlt hk'
        have hsep' := hapart i (by omega)
        rw [hl, hh, copyWord_other _ (by omega) (by omega), copyWord_other _ (by omega) (by omega)]
        exact ⟨rfl, rfl⟩

/-- The writing loop saves every sector end and puts the number there. -/
theorem applyFixupsForWriteLoop_spec (usn : Nat) {bps size usaOff n left i : Nat} (hbps : 2 ≤ bps)
    (hsize : size < 2 ^ 32) (hfit : n * bps ≤ size) (hapart : EndsApart bps usaOff n)
    (hn : i + left = n) (m : Mem) :
    ∃ m', applyFixupsForWriteLoop bps size usaOff usn left i m = some (0, m') ∧
      (∀ j, ¬InEnds bps i n j → ¬(usaOff + 2 + i * 2 ≤ j ∧ j < usaOff + 2 + n * 2) → m' j = m j) ∧
      ∀ k, i ≤ k → k < n → m' (usaOff + 2 + k * 2) = m ((k + 1) * bps - 2) ∧
        m' (usaOff + 2 + k * 2 + 1) = m ((k + 1) * bps - 2 + 1) := by
  induction left generalizing i m with
  | zero => exact ⟨m, rfl, fun _ _ _ => rfl, fun k hk hk' => by omega⟩
  | succ left ih =>
    obtain ⟨hlow, hhigh⟩ := sector_le (show i < n by omega) hfit
    have hend := secEnd_of_lt hbps (show (i + 1) * bps < 2 ^ 32 by omega)
    have hsep := hapart i (by omega)
    obtain ⟨m', hrun, hkeep, hword⟩ := ih (i := i + 1) (by omega)
      (storeWord (copyWord m (usaOff + 2 + i * 2) (secEnd bps i)) (secEnd bps i) usn)
    rw [hend] at hrun hkeep hword
    refine ⟨m', ?_, fun j hj hslot => ?_, fun k hk hk' => ?_⟩
    · rw [applyFixupsForWriteLoop, hend, if_neg (by omega), if_neg (by omega), hrun]
    · rw [hkeep j (fun h => hj h.of_succ) (by omega), storeWord_other, copyWord_other]
      · omega
      · omega
      · exact fun heq => hj ⟨i, Nat.le_refl i, by omega, .inl heq⟩
      · exact fun heq => hj ⟨i, Nat.le_refl i, by omega, .inr heq⟩
    · have hsep' := hapart k hk'
      rcases Nat.eq_or_lt_of_le hk with rfl | hlt
      · have hout : ∀ j, usaOff + 2 + i * 2 ≤ j → j < usaOff + 2 + (i + 1) * 2 →
            ¬InEnds bps (i + 1) n j := by
          rintro j hlo hhi ⟨k, hk₁, hk₂, hmem⟩
          have := hapart k hk₂
          have := sector_le hk₂ hfit
          omega
        rw [hkeep _ (hout _ (by omega) (by omega)) (by omega),
          hkeep _ (hout _ (by omega) (by omega)) (by omega), storeWord_other _ (by omega) (by omega),
          storeWord_other _ (by omega) (by omega), copyWord_low, copyWord_high _ (by omega)]
        exact ⟨rfl, rfl⟩
      · obtain ⟨hl, hh⟩ := hword k hlt hk'
        have hstep := sector_step bps (show i < k from hlt)
        rw [hl, hh, storeWord_other _ (by omega) (by omega), storeWord_other _ (by omega) (by omega),
          copyWord_other _ (by omega) (by omega), copyWord_other _ (by omega) (by omega)]
        exact ⟨rfl, rfl⟩

/-! ## Round trips -/

/-- `k` times a write and the read that follows it, as long as both return 0. -/
def alternate (bps size usaOff usaCount : Nat) : Nat → Mem → Option Mem
  | 0, m => some m
  | k + 1, m =>
      (ntfsApplyFixupsForWrite bps m size usaOff usaCount).bind fun w =>
        if w.1 = 0 then
          (ntfsApplyFixups bps w.2 size usaOff usaCount).bind fun r =>
            if r.1 = 0 then alternate bps size usaOff usaCount k r.2 else none
        else none

def InUsa (usaOff usaCount j : Nat) : Prop := usaOff ≤ j ∧ j < usaOff + usaCount * 2

/-- What the two directions owe to the record they are given. -/
structure UsaCorrect (bps size usaOff usaCount : Nat) (m : Mem) : Prop where
  write_fails : ∃ r m', ntfsApplyFixupsForWrite bps m size usaOff usaCount = some (r, m') ∧
    (r ≠ 0 → Mem.Agree m m' 0 size)
  read_fails : ∃ r m', ntfsApplyFixups bps m size usaOff usaCount = some (r, m') ∧
    (r ≠ 0 → Mem.Agree m m' 0 size)
  round_trip : usaOff + usaCount * 2 ≤ size → ∀ k, ∃ m',
    alternate bps size usaOff usaCount k m = some m' ∧
    (∀ j < size, ¬InUsa usaOff usaCount j → m' j = m j) ∧
    (0 < k → 0 < usaCount → m'.rd16 usaOff ≠ 0 ∧ m'.rd16 usaOff ≠ 0xFFFF)

theorem endsApart_of_usaApart {bps usaOff usaCount : Nat} (hbps : 2 ≤ bps) (hcount : 1 ≤ usaCount)
    (hsmall : (usaCount - 1) * bps < 2 ^ 32) (h : UsaApart bps usaOff usaCount) :
    EndsApart bps usaOff (usaCount - 1) := by
  intro k hk
  have hlt : (k + 1) * bps < 2 ^ 32 := (Nat.mul_le_mul_right bps hk).trans_lt hsmall
  have hlow : bps ≤ (k + 1) * bps := Nat.le_mul_of_pos_left bps (Nat.succ_pos k)
  have hapart := h k hk
  rw [secEnd_of_lt hbps hlt] at hapart
  omega

/-- The writing direction: the number, the saved words, the rest. -/
theorem fixupsForWrite_spec {bps size usaOff usaCount : Nat} (hsize : size < 2 ^ 32)
    (hcount : 1 ≤ usaCount) (hinside : usaOff + usaCount * 2 ≤ size)
    (hfit : usaCount = 1 ∨ SectorsFit bps size usaCount) (hapart : UsaApart bps usaOff usaCount)
    (m : Mem) :
    ∃ m', ntfsApplyFixupsForWrite bps m size usaOff usaCount = some (0, m') ∧
      m'.rd16 usaOff = nextUsn (m.rd16 usaOff) ∧
      (∀ j, ¬InEnds bps 0 (usaCount - 1) j → ¬InUsa usaOff usaCount j → m' j = m j) ∧
      ∀ k, k < usaCount - 1 → m' (usaOff + 2 + k * 2) = m ((k + 1) * bps - 2) ∧
        m' (usaOff + 2 + k * 2 + 1) = m ((k + 1) * bps - 2 + 1) := by
  have husn : nextUsn (m.rd16 usaOff) < 65536 := by
    have := (nextUsn_valid (m.rd16 usaOff)).2
    omega
  unfold ntfsApplyFixupsForWrite
  rw [if_neg (by omega), if_neg (by omega)]
  rcases hfit with rfl | ⟨hbps, hfit⟩
  · refine ⟨_, rfl, rd16_storeWord m usaOff husn, fun j _ hj => ?_, fun k hk => by omega⟩
    unfold InUsa at hj
    exact storeWord_other m (by omega) (by omega)
  · have hends := endsApart_of_usaApart hbps hcount (by omega) hapart
    obtain ⟨m', hrun, hkeep, hword⟩ := applyFixupsForWriteLoop_spec (i := 0)
      (nextUsn (m.rd16 usaOff)) hbps hsize hfit hends (Nat.zero_add _)
      (storeWord m usaOff (nextUsn (m.rd16 usaOff)))
    have hnumber : ∀ j, usaOff ≤ j → j < usaOff + 2 → ¬InEnds bps 0 (usaCount - 1) j := by
      rintro j hlo hhi ⟨k, -, hk, hmem⟩
      have := hends k hk
      have := sector_le hk hfit
      omega
    refine ⟨m', hrun, ?_, fun j hj husa => ?_, fun k hk => ?_⟩
    · rw [← rd16_storeWord m usaOff husn]
      apply Mem.read_congr
      intro j hlo hhi
      exact hkeep j (hnumber j hlo hhi) (by omega)
    · unfold InUsa at husa
      rw [hkeep j hj (by omega), storeWord_other _ (by omega) (by omega)]
    · obtain ⟨hl, hh⟩ := hword k (Nat.zero_le k) hk
      have := hends k hk
      have := sector_le hk hfit
      rw [hl, hh, storeWord_other _ (by omega) (by omega), storeWord_other _ (by omega) (by omega)]
      exact ⟨rfl, rfl⟩

/-- The reading direction, on any record. -/
theorem fixups_spec {bps size usaOff usaCount : Nat} (hsize : size < 2 ^ 32)
    (hcount : 1 ≤ usaCount) (hinside : usaOff + usaCount * 2 ≤ size)
    (hfit : usaCount = 1 ∨ SectorsFit bps size usaCount) (hapart : UsaApart bps usaOff usaCount)
    (m : Mem) :
    ∃ m', ntfsApplyFixups bps m size usaOff usaCount = some (0, m') ∧
      (∀ j, ¬InEnds bps 0 (usaCount - 1) j → m' j = m j) ∧
      ∀ k, k < usaCount - 1 → m' ((k + 1) * bps - 2) = m (usaOff + 2 + k * 2) ∧
        m' ((k + 1) * bps - 2 + 1) = m (usaOff + 2 + k * 2 + 1) := by
  unfold ntfsApplyFixups
  rw [if_neg (by omega), if_neg (by omega)]
  rcases hfit with rfl | ⟨hbps, hfit⟩
  · exact ⟨m, rfl, fun _ _ => rfl, fun k hk => by omega⟩
  · obtain ⟨m', hrun, hkeep, hword⟩ := applyFixupsLoop_spec (i := 0) hbps hsize hfit
      (endsApart_of_usaApart hbps hcount (by omega) hapart) (Nat.zero_add _) m
    exact ⟨m', hrun, hkeep, fun k hk => hword k (Nat.zero_le k) hk⟩

/-- Reading what a write left on the disk gives the record back outside the array. -/
theorem fixups_readBack {bps size usaOff usaCount : Nat} (hsize : size < 2 ^ 32)
    (hcount : 1 ≤ usaCount) (hinside : usaOff + usaCount * 2 ≤ size)
    (hfit : usaCount = 1 ∨ SectorsFit bps size usaCount) (hapart : UsaApart bps usaOff usaCount)
    {m m₁ b : Mem} (hwrite : ntfsApplyFixupsForWrite bps m size usaOff usaCount = some (0, m₁))
    (hdisk : Mem.Agree b m₁ 0 size) :
    ∃ m₂, ntfsApplyFixups bps b size usaOff usaCount = some (0, m₂) ∧
      (∀ j < size, ¬InUsa usaOff usaCount j → m₂ j = m j) ∧
      m₂.rd16 usaOff = nextUsn (m.rd16 usaOff) := by
  obtain ⟨m', hwrite', husn, hkeep, hsaved⟩ :=
    fixupsForWrite_spec hsize hcount hinside hfit hapart m
  obtain rfl : m' = m₁ := by simpa [hwrite'] using hwrite
  obtain ⟨m₂, hread, hkeep', hback⟩ := fixups_spec hsize hcount hinside hfit hapart b
  refine ⟨m₂, hread, fun j hj husa => ?_, ?_⟩
  · by_cases hend : InEnds bps 0 (usaCount - 1) j
    · obtain ⟨k, -, hk, hmem⟩ := hend
      obtain ⟨hl, hh⟩ := hback k hk
      obtain ⟨hl', hh'⟩ := hsaved k hk
      rcases hmem with rfl | rfl
      · rw [hl, hdisk _ (Nat.zero_le _) (by omega), hl']
      · rw [hh, hdisk _ (Nat.zero_le _) (by omega), hh']
    · rw [hkeep' j hend, hdisk j (Nat.zero_le _) hj, hkeep j hend husa]
  · rw [← husn]
    apply Mem.read_congr
    intro j hlo hhi
    rw [hkeep' j, hdisk j (Nat.zero_le _) (by omega)]
    rintro ⟨k, -, hk, hmem⟩
    rcases hfit with rfl | ⟨hbps, hfit⟩
    · omega
    · have := endsApart_of_usaApart hbps hcount (by omega) hapart k hk
      have := sector_le hk hfit
      omega

theorem alternate_spec {bps size usaOff usaCount : Nat} (hsize : size < 2 ^ 32)
    (hcount : 1 ≤ usaCount) (hinside : usaOff + usaCount * 2 ≤ size)
    (hfit : usaCount = 1 ∨ SectorsFit bps size usaCount) (hapart : UsaApart bps usaOff usaCount)
    (k : Nat) (m : Mem) :
    ∃ m', alternate bps size usaOff usaCount k m = some m' ∧
      (∀ j < size, ¬InUsa usaOff usaCount j → m' j = m j) ∧
      (0 < k → m'.rd16 usaOff ≠ 0 ∧ m'.rd16 usaOff ≠ 0xFFFF) := by
  induction k generalizing m with
  | zero => exact ⟨m, rfl, fun _ _ _ => rfl, fun h => absurd h (Nat.lt_irrefl 0)⟩
  | succ k ih =>
    obtain ⟨m₁, hwrite, -⟩ := fixupsForWrite_spec hsize hcount hinside hfit hapart m
    obtain ⟨m₂, hread, hkeep, husn⟩ :=
      fixups_readBack hsize hcount hinside hfit hapart hwrite fun _ _ _ => rfl
    obtain ⟨m', hrest, hkeep', hvalid⟩ := ih m₂
    refine ⟨m', ?_, fun j hj husa => (hkeep' j hj husa).trans (hkeep j hj husa), fun _ => ?_⟩
    · simp only [alternate, hwrite, hread, Option.bind_some, if_true, hrest]
    · cases k with
      | zero =>
        cases hrest
        have := nextUsn_valid (m.rd16 usaOff)
        omega
      | succ k => exact hvalid (Nat.succ_pos k)

/-! ## When a record is damaged -/

/-- The array counts a sector that ends past the record: the loop gives up, having left
the number alone. -/
theorem applyFixupsForWriteLoop_fails (usn : Nat) {bps size usaOff n left i : Nat} (hbps : 2 ≤ bps)
    (hsmall : n * bps < 2 ^ 32) (hover : size < n * bps) (hapart : EndsApart bps usaOff n)
    (hn : i + left = n) (hleft : 0 < left) (m : Mem) :
    ∃ m', applyFixupsForWriteLoop bps size usaOff usn left i m = some (-1, m') ∧
      m'.rd16 usaOff = m.rd16 usaOff := by
  induction left generalizing i m with
  | zero => omega
  | succ left ih =>
    have hlt : (i + 1) * bps < 2 ^ 32 := (Nat.mul_le_mul_right bps (by omega)).trans_lt hsmall
    have hlow : bps ≤ (i + 1) * bps := Nat.le_mul_of_pos_left bps (Nat.succ_pos i)
    have hend := secEnd_of_lt hbps hlt
    have hsep := hapart i (by omega)
    rw [applyFixupsForWriteLoop, hend]
    by_cases hout : size < (i + 1) * bps
    · exact ⟨m, if_pos (by omega), rfl⟩
    · rw [if_neg (by omega), if_neg (by omega)]
      have hmore : 0 < left := by
        apply Nat.pos_of_ne_zero
        rintro rfl
        exact hout (by rw [show i + 1 = n by omega]; exact hover)
      obtain ⟨m', hrun, hnumber⟩ := ih (i := i + 1) (by omega) hmore
        (storeWord (copyWord m (usaOff + 2 + i * 2) ((i + 1) * bps - 2)) ((i + 1) * bps - 2) usn)
      refine ⟨m', hrun, hnumber.trans (Mem.read_congr fun j hlo hhi => ?_)⟩
      rw [storeWord_other _ (by omega) (by omega), copyWord_other _ (by omega) (by omega)]

/-- An array inside the record that counts too many sectors, or sectors too small to hold
the number, costs the record its update sequence number. -/
theorem not_usaCorrect {bps size usaOff usaCount : Nat} (hsize : size < 2 ^ 32)
    (hbps : bps < 65536) (hcount : usaCount < 65536) (hmany : 2 ≤ usaCount)
    (hinside : usaOff + usaCount * 2 ≤ size) (hapart : UsaApart bps usaOff usaCount)
    (hfit : ¬SectorsFit bps size usaCount) (m : Mem) : ¬UsaCorrect bps size usaOff usaCount m := by
  rintro ⟨⟨r, m', hwrite, hsame⟩, -, -⟩
  unfold ntfsApplyFixupsForWrite at hwrite
  rw [if_neg (by omega), if_neg (by omega)] at hwrite
  by_cases htiny : bps < 2
  · obtain ⟨left, hleft⟩ : ∃ k, usaCount - 1 = k + 1 := ⟨usaCount - 2, by omega⟩
    have hend : size < secEnd bps 0 + 2 ∧ (secEnd bps 0 + 2) % 2 ^ 32 ≤ size := by
      unfold secEnd
      omega
    rw [hleft] at hwrite
    simp only at hwrite
    rw [applyFixupsForWriteLoop, if_neg (by omega), if_pos hend.1] at hwrite
    cases hwrite
  · have hsmall : (usaCount - 1) * bps < 2 ^ 32 := by
      have := Nat.mul_le_mul (show usaCount - 1 ≤ 65535 by omega) (show bps ≤ 65535 by omega)
      omega
    have hover : size < (usaCount - 1) * bps := by
      unfold SectorsFit at hfit
      omega
    obtain ⟨m₁, hrun, hnumber⟩ := applyFixupsForWriteLoop_fails (i := 0)
      (nextUsn (m.rd16 usaOff)) (by omega) hsmall hover
      (endsApart_of_usaApart (by omega) (by omega) hsmall hapart) (Nat.zero_add _) (by omega)
      (storeWord m usaOff (nextUsn (m.rd16 usaOff)))
    simp only [hrun, Option.some.injEq, Prod.mk.injEq] at hwrite
    obtain ⟨rfl, rfl⟩ := hwrite
    have hagree := hsame (by decide)
    have hold : m.rd16 usaOff = m₁.rd16 usaOff :=
      Mem.read_congr (hagree.mono (Nat.zero_le _) (by omega))
    have husn := (nextUsn_valid (m.rd16 usaOff)).2
    rw [hnumber, rd16_storeWord m usaOff (by omega)] at hold
    exact nextUsn_ne _ hold.symm

/-- The update sequence array works on a record exactly when an array that lies inside it
counts no sector that does not. -/
theorem usaCorrect_iff {bps size usaOff usaCount : Nat} (hsize : size < 2 ^ 32)
    (hbps : bps < 65536) (hcount : usaCount < 65536) (hapart : UsaApart bps usaOff usaCount)
    (m : Mem) :
    UsaCorrect bps size usaOff usaCount m ↔
      (usaOff + usaCount * 2 ≤ size → 2 ≤ usaCount → SectorsFit bps size usaCount) := by
  constructor
  · intro h hinside hmany
    by_contra hfit
    exact not_usaCorrect hsize hbps hcount hmany hinside hapart hfit m h
  · intro hfit
    by_cases hinside : usaOff + usaCount * 2 ≤ size
    · by_cases hnone : usaCount = 0
      · subst hnone
        refine ⟨⟨0, m, rfl, by simp⟩, ⟨0, m, rfl, by simp⟩, fun _ k => ⟨m, ?_, fun _ _ _ => rfl,
          by omega⟩⟩
        induction k with
        | zero => rfl
        | succ k ih => simpa [alternate, ntfsApplyFixupsForWrite, ntfsApplyFixups] using ih
      · have hfit' : usaCount = 1 ∨ SectorsFit bps size usaCount := by
          by_cases hone : usaCount = 1
          · exact .inl hone
          · exact .inr (hfit hinside (by omega))
        have hpos : 1 ≤ usaCount := by omega
        obtain ⟨m₁, hwrite, -, -⟩ := fixupsForWrite_spec hsize hpos hinside hfit' hapart m
        obtain ⟨m₂, hread, -, -⟩ := fixups_spec hsize hpos hinside hfit' hapart m
        refine ⟨⟨0, m₁, hwrite, by simp⟩, ⟨0, m₂, hread, by simp⟩, fun _ k => ?_⟩
        obtain ⟨m', hrun, hkeep, hvalid⟩ := alternate_spec hsize hpos hinside hfit' hapart k m
        exact ⟨m', hrun, hkeep, fun hk _ => hvalid hk⟩
    · by_cases hnone : usaCount = 0
      · subst hnone
        exact ⟨⟨0, m, rfl, by simp⟩, ⟨0, m, rfl, by simp⟩, fun h => absurd h hinside⟩
      · refine ⟨⟨-1, m, ?_, fun _ _ _ _ => rfl⟩, ⟨-1, m, ?_, fun _ _ _ _ => rfl⟩,
          fun h => absurd h hinside⟩
        · rw [ntfsApplyFixupsForWrite, if_neg hnone, if_pos (by omega)]
        · rw [ntfsApplyFixups, if_neg hnone, if_pos (by omega)]

end MeuOS.Ntfs
