import Mathlib.Tactic.Ring
import Mathlib.Tactic.NormNum

/-! Byte-addressed memory with little-endian words. A memory is total: what lies
past the end of a buffer is whatever bytes follow it, so a bound is always a
separate fact about an address. Every store is one `blit`. -/
namespace MeuOS.Lib

abbrev Mem := Nat → UInt8

namespace Mem

/-- Overwrite `[off, off + len)` with the first `len` bytes of `src`. -/
def blit (m : Mem) (off len : Nat) (src : Mem) : Mem :=
  fun i => if off ≤ i ∧ i < off + len then src (i - off) else m i

/-- The memory as a pointer to `p` sees it. -/
def shift (m : Mem) (p : Nat) : Mem := fun i => m (p + i)

/-- The `n`-byte little-endian word at `off`. -/
def read (m : Mem) (off : Nat) : Nat → Nat
  | 0 => 0
  | n + 1 => (m off).toNat + 256 * read m (off + 1) n

/-- The little-endian bytes of a number. -/
def le (v : Nat) : Mem := fun i => UInt8.ofNat (v / 256 ^ i)

def write (m : Mem) (off n v : Nat) : Mem := m.blit off n (le v)

abbrev rd16 (m : Mem) (off : Nat) : Nat := m.read off 2
abbrev rd32 (m : Mem) (off : Nat) : Nat := m.read off 4
abbrev rd64 (m : Mem) (off : Nat) : Nat := m.read off 8

/-- The two memories hold the same bytes on `[lo, hi)`. -/
def Agree (m m' : Mem) (lo hi : Nat) : Prop := ∀ i, lo ≤ i → i < hi → m i = m' i

theorem Agree.symm {m m' : Mem} {lo hi : Nat} (h : Agree m m' lo hi) : Agree m' m lo hi :=
  fun i hlo hhi => (h i hlo hhi).symm

theorem Agree.trans {m m' m'' : Mem} {lo hi : Nat} (h : Agree m m' lo hi)
    (h' : Agree m' m'' lo hi) : Agree m m'' lo hi :=
  fun i hlo hhi => (h i hlo hhi).trans (h' i hlo hhi)

theorem Agree.mono {m m' : Mem} {lo hi lo' hi' : Nat} (h : Agree m m' lo hi)
    (hlo : lo ≤ lo') (hhi : hi' ≤ hi) : Agree m m' lo' hi' :=
  fun i hi₁ hi₂ => h i (by omega) (by omega)

theorem blit_apply (m : Mem) (off len : Nat) (src : Mem) (i : Nat) :
    m.blit off len src i = if off ≤ i ∧ i < off + len then src (i - off) else m i := rfl

theorem blit_inside (m : Mem) {off len : Nat} (src : Mem) {i : Nat}
    (hlo : off ≤ i) (hhi : i < off + len) : m.blit off len src i = src (i - off) :=
  if_pos ⟨hlo, hhi⟩

theorem blit_outside (m : Mem) {off len : Nat} (src : Mem) {i : Nat}
    (h : i < off ∨ off + len ≤ i) : m.blit off len src i = m i :=
  if_neg (by omega)

@[simp] theorem blit_zero (m : Mem) (off : Nat) (src : Mem) : m.blit off 0 src = m := by
  funext i
  exact blit_outside m src (by omega)

theorem agree_blit (m : Mem) {off len lo hi : Nat} (src : Mem)
    (h : hi ≤ off ∨ off + len ≤ lo) : Agree (m.blit off len src) m lo hi :=
  fun _ hlo hhi => blit_outside m src (by omega)

theorem write_outside (m : Mem) {off n : Nat} (v : Nat) {i : Nat}
    (h : i < off ∨ off + n ≤ i) : m.write off n v i = m i :=
  blit_outside m _ h

theorem agree_write (m : Mem) {off n lo hi : Nat} (v : Nat)
    (h : hi ≤ off ∨ off + n ≤ lo) : Agree (m.write off n v) m lo hi :=
  agree_blit m _ h

/-- Store one byte. -/
def put (m : Mem) (i : Nat) (b : UInt8) : Mem := Function.update m i b

@[simp] theorem put_same (m : Mem) (i : Nat) (b : UInt8) : m.put i b i = b :=
  Function.update_self ..

theorem put_other (m : Mem) {i j : Nat} (b : UInt8) (h : j ≠ i) : m.put i b j = m j :=
  Function.update_of_ne h ..

/-! ## Reading words -/

theorem read_lt (m : Mem) (off n : Nat) : m.read off n < 256 ^ n := by
  induction n generalizing off with
  | zero => simp [read]
  | succ n ih =>
    have hbyte : (m off).toNat < 256 := (m off).toNat_lt
    have hrest := ih (off + 1)
    simp only [read, pow_succ]
    omega

theorem rd16_lt (m : Mem) (off : Nat) : m.rd16 off < 65536 := read_lt m off 2

theorem rd32_lt (m : Mem) (off : Nat) : m.rd32 off < 4294967296 := read_lt m off 4

theorem rd64_lt (m : Mem) (off : Nat) : m.rd64 off < 18446744073709551616 := read_lt m off 8

theorem read_congr {m m' : Mem} {off n : Nat} (h : Agree m m' off (off + n)) :
    m.read off n = m'.read off n := by
  induction n generalizing off with
  | zero => rfl
  | succ n ih =>
    simp only [read]
    rw [h off (Nat.le_refl _) (by omega), ih (h.mono (by omega) (by omega))]

theorem rd32_congr {m m' : Mem} {a : Nat} (h : Agree m m' a (a + 4)) : m.rd32 a = m'.rd32 a :=
  read_congr h

theorem rd64_congr {m m' : Mem} {a : Nat} (h : Agree m m' a (a + 8)) : m.rd64 a = m'.rd64 a :=
  read_congr h

theorem read_shift (m : Mem) (p off n : Nat) : (m.shift p).read off n = m.read (p + off) n := by
  induction n generalizing off with
  | zero => rfl
  | succ n ih => simp only [read, shift, ih, Nat.add_assoc]

theorem read_of_le {m : Mem} {off n v : Nat}
    (h : ∀ i < n, m (off + i) = UInt8.ofNat (v / 256 ^ i)) : m.read off n = v % 256 ^ n := by
  induction n generalizing off v with
  | zero => simp [read, Nat.mod_one]
  | succ n ih =>
    have hfirst : m off = UInt8.ofNat v := by simpa using h 0 (by omega)
    have hrest : m.read (off + 1) n = v / 256 % 256 ^ n := by
      apply ih
      intro i hi
      have := h (i + 1) (by omega)
      rw [show off + 1 + i = off + (i + 1) by omega, this, pow_succ', Nat.div_div_eq_div_mul]
    rw [read, hfirst, hrest, pow_succ', Nat.mod_mul]
    simp [UInt8.toNat_ofNat']

@[simp] theorem read_write_same (m : Mem) (off n v : Nat) :
    (m.write off n v).read off n = v % 256 ^ n := by
  apply read_of_le
  intro i hi
  rw [write, blit_inside m _ (by omega) (by omega), Nat.add_sub_cancel_left, le]

theorem read_write_of_lt (m : Mem) {off n v : Nat} (h : v < 256 ^ n) :
    (m.write off n v).read off n = v := by
  rw [read_write_same, Nat.mod_eq_of_lt h]

theorem rd32_write (m : Mem) (a : Nat) {v : Nat} (h : v < 4294967296) :
    (m.write a 4 v).rd32 a = v :=
  read_write_of_lt m h

theorem read_blit_of_disjoint (m : Mem) {off len o n : Nat} (src : Mem)
    (h : o + n ≤ off ∨ off + len ≤ o) : (m.blit off len src).read o n = m.read o n :=
  read_congr (agree_blit m src (by omega))

theorem read_write_of_disjoint (m : Mem) {off n o k : Nat} (v : Nat)
    (h : o + k ≤ off ∨ off + n ≤ o) : (m.write off n v).read o k = m.read o k :=
  read_blit_of_disjoint m _ h

/-- Writing back what a word already holds changes nothing. -/
theorem le_read (m : Mem) (off n : Nat) {i : Nat} (hi : i < n) : le (m.read off n) i = m (off + i) := by
  induction n generalizing off i with
  | zero => omega
  | succ n ih =>
    have hbyte : (m off).toNat < 256 := (m off).toNat_lt
    cases i with
    | zero =>
      simp only [le, read, pow_zero, Nat.div_one, Nat.add_zero]
      rw [← UInt8.toNat_inj, UInt8.toNat_ofNat']
      omega
    | succ i =>
      have hdiv : m.read off (n + 1) / 256 = m.read (off + 1) n := by
        simp only [read]
        omega
      have hrest := ih (off + 1) (i := i) (by omega)
      simp only [le] at hrest ⊢
      rw [pow_succ', ← Nat.div_div_eq_div_mul, hdiv, hrest, show off + 1 + i = off + (i + 1) by omega]

/-- The `n` bytes at `e'` in the second memory are those at `e` in the first. -/
def SameAt (m : Mem) (e : Nat) (m' : Mem) (e' n : Nat) : Prop := ∀ i < n, m' (e' + i) = m (e + i)

theorem SameAt.mono {m m' : Mem} {e e' n k : Nat} (h : SameAt m e m' e' n) (hk : k ≤ n) :
    SameAt m e m' e' k :=
  fun i hi => h i (by omega)

theorem SameAt.trans {m m' m'' : Mem} {e e' e'' n : Nat} (h : SameAt m e m' e' n)
    (h' : SameAt m' e' m'' e'' n) : SameAt m e m'' e'' n :=
  fun i hi => (h' i hi).trans (h i hi)

theorem SameAt.skip {m m' : Mem} {e e' n : Nat} (h : SameAt m e m' e' n) (o : Nat) :
    SameAt m (e + o) m' (e' + o) (n - o) := by
  intro i hi
  rw [Nat.add_assoc, Nat.add_assoc]
  exact h (o + i) (by omega)

theorem SameAt.read {m m' : Mem} {e e' n o k : Nat} (h : SameAt m e m' e' n) (hk : o + k ≤ n) :
    m'.read (e' + o) k = m.read (e + o) k := by
  induction k generalizing o with
  | zero => rfl
  | succ k ih =>
    simp only [Mem.read]
    rw [h o (by omega), Nat.add_assoc, Nat.add_assoc, ih (by omega)]

theorem Agree.sameAt {m m' : Mem} {lo hi e n : Nat} (h : Agree m m' lo hi) (hlo : lo ≤ e)
    (hhi : e + n ≤ hi) : SameAt m e m' e n :=
  fun i hi' => (h (e + i) (by omega) (by omega)).symm

end Mem

/-! ## Two's complement -/

/-- The low 32 bits of a word as a C `int`. -/
def int32 (n : Nat) : Int :=
  if n % 4294967296 < 2147483648 then (n % 4294967296 : Nat)
  else (n % 4294967296 : Nat) - 4294967296

/-- Conversion to `signed char`. -/
def schar (x : Int) : Int := if x % 256 < 128 then x % 256 else x % 256 - 256

theorem int32_of_lt {n : Nat} (h : n < 2147483648) : int32 n = n := by
  unfold int32
  omega

theorem int32_succ {n : Nat} (h : int32 n < 2147483647) :
    int32 ((n + 1) % 4294967296) = int32 n + 1 := by
  unfold int32 at *
  omega

theorem int32_pred {n : Nat} (h : -2147483648 < int32 n) :
    int32 ((n + 4294967295) % 4294967296) = int32 n - 1 := by
  unfold int32 at *
  omega

theorem schar_le (x : Int) : schar x ≤ 127 := by
  unfold schar
  omega

/-- Conversion commutes with a step on the wrapped value. -/
theorem schar_schar_add (x d : Int) : schar (schar x + d) = schar (x + d) := by
  unfold schar
  omega

end MeuOS.Lib
