import MeuOS.Ucrt.Format

/-! The input side of stdio. A console is the characters typed and not yet read, with the one character
that has been pushed back; a read that finds none waits for the keyboard and has no result. A file is
the bytes behind its handle's position, which `ReadFile` hands out in order. -/
namespace MeuOS.Ucrt

open MeuOS.Lib

/-- `s_unget`, -1 for none, and what comes from the keyboard. -/
structure Console where
  unget : Int
  bytes : List Nat
  deriving DecidableEq

/-- `ucrt_sgetc`. -/
def ucrtSgetc (s : Console) : Option (Int × Console) :=
  if 0 ≤ s.unget then some (s.unget, { s with unget := -1 })
  else
    match s.bytes with
    | [] => none
    | b :: bytes => some ((b : Int), { s with bytes := bytes })

def ucrtSungetc (c : Int) (s : Console) : Console := { s with unget := c }

def ucrtIsWs (c : Int) : Bool := c = 0x20 ∨ c = 9 ∨ c = 0xA ∨ c = 0xD ∨ c = 0xC ∨ c = 0xB

def Console.size (s : Console) : Nat := s.bytes.length + if 0 ≤ s.unget then 1 else 0

theorem ucrtSgetc_size {s s' : Console} {c : Int} (h : ucrtSgetc s = some (c, s')) : s'.size < s.size := by
  obtain ⟨unget, bytes⟩ := s
  unfold ucrtSgetc at h
  unfold Console.size
  by_cases hunget : 0 ≤ unget
  · rw [if_pos hunget] at h
    cases h
    simp [hunget]
  · rw [if_neg hunget] at h
    cases bytes with
    | nil => cases h
    | cons b bytes =>
      cases h
      simp [hunget]

/-! ## `__stdio_common_vfscanf` -/

/-- Bytes stored at a pointer. -/
structure Write where
  dst : Nat
  bytes : List Nat
  deriving DecidableEq

/-- The lowest `k` bytes of a word, as they lie in memory. -/
def bytesOf (k : Nat) (v : BitVec 64) : List Nat := (List.range k).map fun i => v.toNat / 256 ^ i % 256

/-- What a `%` says in front of its conversion, to `scanf`. -/
structure ScanSpec where
  suppress : Bool
  width : Int
  lng : Int
  deriving DecidableEq

/-- `while (*p == 'l' || *p == 'h') { if (*p == 'l') lng++; p++; }`. -/
def readLetters : Int → List Nat → Int × List Nat
  | n, [] => (n, [])
  | n, c :: p =>
      if c = 0x6C ∨ c = 0x68 then readLetters (if c = 0x6C then wrap32 (n + 1) else n) p else (n, c :: p)

def readSuppress : List Nat → Bool × List Nat
  | [] => (false, [])
  | c :: p => if c = 0x2A then (true, p) else (false, c :: p)

def readScanSpec (p : List Nat) : ScanSpec × List Nat :=
  let suppress := readSuppress p
  let width := readWidth 0 suppress.2
  let lng := readLetters 0 width.2
  (⟨suppress.1, width.1, lng.1⟩, lng.2)

/-- `do { c = ucrt_sgetc(); } while (ucrt_is_ws(c))`. -/
def skipWs (s : Console) : Option (Int × Console) :=
  match _h : ucrtSgetc s with
  | none => none
  | some (c, s') => if ucrtIsWs c then skipWs s' else some (c, s')
  termination_by s.size
  decreasing_by exact ucrtSgetc_size _h

/-- The digit that a character is, if any. -/
def digitIn (base : Nat) (c : Int) : Option Nat :=
  if 0x30 ≤ c ∧ c ≤ 0x39 then some (c - 0x30).toNat
  else if base = 16 ∧ 0x61 ≤ c ∧ c ≤ 0x66 then some (c - 0x61 + 10).toNat
  else if base = 16 ∧ 0x41 ≤ c ∧ c ≤ 0x46 then some (c - 0x41 + 10).toNat
  else none

/-- `if (c == '+' || c == '-') c = ucrt_sgetc();`. -/
def scanSign (c : Int) (s : Console) : Option (Int × Console) :=
  if c = 0x2B ∨ c = 0x2D then ucrtSgetc s else some (c, s)

/-- The digits from the character `c` on: `val`, `got`, and the first character that is none. -/
def scanDigits (base : Nat) (val : BitVec 64) (got : Bool) (c : Int) (s : Console) :
    Option (BitVec 64 × Bool × Int × Console) :=
  match digitIn base c with
  | none => some (val, got, c, s)
  | some d =>
      match _h : ucrtSgetc s with
      | none => none
      | some (c', s') => scanDigits base (val * BitVec.ofNat 64 base + BitVec.ofNat 64 d) true c' s'
  termination_by s.size
  decreasing_by exact ucrtSgetc_size _h

/-- The characters of a word from `c` on, `k` of them so far. -/
def scanWord (width : Int) (word : List Nat) (c : Int) (s : Console) : Option (List Nat × Int × Console) :=
  if 0 ≤ c ∧ ¬ ucrtIsWs c ∧ (width = 0 ∨ (word.length : Int) < width) then
    match _h : ucrtSgetc s with
    | none => none
    | some (c', s') => scanWord width (word ++ [(c % 256).toNat]) c' s'
  else some (word, c, s)
  termination_by s.size
  decreasing_by exact ucrtSgetc_size _h

/-- What is left after a directive: whether the loop goes on, how many more fields have been assigned,
what has been stored, the pointers that are left, and the input. -/
structure Scanned where
  go : Bool
  assigned : Nat
  writes : List Write
  args : List Nat
  input : Console
  deriving DecidableEq

/-- `*(T*)(*(void**)ap) = …; ap += 8; assigned++;`, unless it is suppressed. -/
def store (suppress : Bool) (bytes : List Nat) (args : List Nat) (input : Console) : Option Scanned :=
  if suppress then some ⟨true, 0, [], args, input⟩
  else
    match args with
    | [] => none
    | dst :: args => some ⟨true, 1, [⟨dst, bytes⟩], args, input⟩

/-- One conversion. -/
def scanConv (spec : ScanSpec) (conv : Nat) (args : List Nat) (s : Console) : Option Scanned :=
  if conv = 0x63 then do
    let (c, s) ← ucrtSgetc s
    if c < 0 then some ⟨false, 0, [], args, s⟩ else store spec.suppress [(c % 256).toNat] args s
  else if conv = 0x73 then do
    let (c, s) ← skipWs s
    let (word, c, s) ← scanWord spec.width [] c s
    let r ← store spec.suppress (word ++ [0]) args (ucrtSungetc c s)
    some { r with assigned := if word.length = 0 then 0 else r.assigned }
  else if conv = 0x64 ∨ conv = 0x69 ∨ conv = 0x75 ∨ conv = 0x78 ∨ conv = 0x58 then do
    let (c, s) ← skipWs s
    let (c', s) ← scanSign c s
    let base := if conv = 0x78 ∨ conv = 0x58 then 16 else 10
    let (val, got, c', s) ← scanDigits base 0 false c' s
    let s := ucrtSungetc c' s
    let sv := if (conv = 0x64 ∨ conv = 0x69) ∧ c = 0x2D then -val else val
    if got then store spec.suppress (bytesOf (if spec.lng = 0 then 4 else 8) sv) args s
    else some ⟨false, 0, [], args, s⟩
  else if conv = 0x25 then do
    let (c, s) ← ucrtSgetc s
    if c = 0x25 then some ⟨true, 0, [], args, s⟩ else some ⟨false, 0, [], args, ucrtSungetc c s⟩
  else some ⟨false, 0, [], args, s⟩

theorem readLetters_length (n : Int) (p : List Nat) : (readLetters n p).2.length ≤ p.length := by
  induction p generalizing n with
  | nil => exact Nat.le_refl _
  | cons c p ih =>
    unfold readLetters
    split
    · exact Nat.le_succ_of_le (ih _)
    · exact Nat.le_refl _

theorem readSuppress_length (p : List Nat) : (readSuppress p).2.length ≤ p.length := by
  cases p with
  | nil => exact Nat.le_refl _
  | cons c p =>
    simp only [readSuppress]
    split
    · exact Nat.le_succ _
    · exact Nat.le_refl _

theorem readScanSpec_length (p : List Nat) : (readScanSpec p).2.length ≤ p.length := by
  have hsuppress := readSuppress_length p
  have hwidth := readWidth_length 0 (readSuppress p).2
  have hlng := readLetters_length 0 (readWidth 0 (readSuppress p).2).2
  simp only [readScanSpec]
  omega

/-- The loop of `__stdio_common_vfscanf` over what is left of the format: the number of fields assigned,
everything stored, and the input behind. -/
def vfscanfFrom : List Nat → List Nat → Console → Option (Nat × List Write × Console)
  | [], _, s => some (0, [], s)
  | f :: p, args, s =>
      if ucrtIsWs f then do
        let (c, s) ← skipWs s
        vfscanfFrom p args (ucrtSungetc c s)
      else if f ≠ 0x25 then do
        let (c, s) ← ucrtSgetc s
        if c ≠ f then some (0, [], ucrtSungetc c s) else vfscanfFrom p args s
      else
        match _h : (readScanSpec p).2 with
        | [] => some (0, [], s)
        | conv :: rest => do
            let r ← scanConv (readScanSpec p).1 conv args s
            if r.go then
              let (n, writes, s) ← vfscanfFrom rest r.args r.input
              some (r.assigned + n, r.writes ++ writes, s)
            else some (r.assigned, r.writes, r.input)
  termination_by p => p.length
  decreasing_by
  · exact Nat.lt_succ_self _
  · exact Nat.lt_succ_self _
  · have hlength := readScanSpec_length p
    rw [_h] at hlength
    exact Nat.lt_succ_of_lt (Nat.lt_of_succ_le hlength)

/-- `__stdio_common_vfscanf`, whatever its stream is. -/
def stdioCommonVfscanf (fmt args : List Nat) (s : Console) : Option (Nat × List Write × Console) :=
  vfscanfFrom fmt args s

end MeuOS.Ucrt
