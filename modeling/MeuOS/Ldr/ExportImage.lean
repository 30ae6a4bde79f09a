import MeuOS.Ldr.Exports
import MeuOS.Lib.Search
import MeuOS.Lib.Patch

/-! The synthetic `ntoskrnl.exe`: an image built in memory, store by store. Its offsets are 32-bit
numbers, and its size is checked when the tables are written. -/
namespace MeuOS.Ldr

open MeuOS.Lib

/-- `NTOS_IMG_CAP`. -/
def ntosImgCap : Nat := 96 * 1024

/-- `HDR_SIZE`. -/
def hdrSize : Nat := 0x400

/-- `EXP_RVA`. -/
def expRva : Nat := 0x1000

/-- `align_up`, for `a` a power of two. -/
def alignUp (x a : Nat) : Nat := (x + a - 1) % 2 ^ 32 / a * a

/-! The tables, for `n` names. -/

def offExpdir : Nat := expRva
def offFuncs : Nat := offExpdir + 40
def offNames (n : Nat) : Nat := (offFuncs + n * 4) % 2 ^ 32
def offOrds (n : Nat) : Nat := (offNames n + n * 4) % 2 ^ 32
def offStrs (n : Nat) : Nat := (offOrds n + n * 2) % 2 ^ 32

/-- A string and its terminator, from `cur` on. -/
def cstrStores (cur : Nat) : List UInt8 → List Store
  | [] => [⟨cur, 1, 0⟩]
  | c :: cs => ⟨cur, 1, c.toNat⟩ :: cstrStores ((cur + 1) % 2 ^ 32) cs

/-- `cur` behind it. -/
def afterCstr (cur : Nat) (chars : List UInt8) : Nat := (cur + chars.length + 1) % 2 ^ 32

/-- The names from the `i`-th on: each string, with its `AddressOfNames` and
`AddressOfNameOrdinals`. -/
def nameStores (n i cur : Nat) : List CString → List Store
  | [] => []
  | nm :: rest =>
      cstrStores cur nm.chars ++ ⟨offNames n + i * 4 % 2 ^ 32, 4, cur⟩ ::
        ⟨offOrds n + i * 2 % 2 ^ 32, 2, i % 2 ^ 16⟩ :: nameStores n (i + 1) (afterCstr cur nm.chars) rest

def afterNames (cur : Nat) : List CString → Nat
  | [] => cur
  | nm :: rest => afterNames (afterCstr cur nm.chars) rest

/-- The trampolines from the `i`-th on, `movabs rax, target` and `jmp rax`: each with its
`AddressOfFunctions`. -/
def trampStores (resolve : CString → UInt64) (i cur : Nat) : List CString → List Store
  | [] => []
  | nm :: rest =>
      ⟨cur, 1, 0x48⟩ :: ⟨(cur + 1) % 2 ^ 32, 1, 0xB8⟩ :: ⟨(cur + 2) % 2 ^ 32, 8, (resolve nm).toNat⟩ ::
        ⟨(cur + 10) % 2 ^ 32, 1, 0xFF⟩ :: ⟨(cur + 11) % 2 ^ 32, 1, 0xE0⟩ ::
        ⟨offFuncs + i * 4 % 2 ^ 32, 4, cur⟩ :: trampStores resolve (i + 1) ((cur + 12) % 2 ^ 32) rest

def afterTramps (cur : Nat) : List CString → Nat
  | [] => cur
  | _ :: rest => afterTramps ((cur + 12) % 2 ^ 32) rest

/-- `IMAGE_EXPORT_DIRECTORY`; its `Name` is set again when the string is there. -/
def directoryStores (n : Nat) : List Store :=
  let ed := offExpdir
  [⟨ed + 0x00, 4, 0⟩, ⟨ed + 0x04, 4, 0⟩, ⟨ed + 0x08, 2, 0⟩, ⟨ed + 0x0A, 2, 0⟩,
    ⟨ed + 0x0C, 4, expRva + 40 + 0⟩, ⟨ed + 0x10, 4, 1⟩, ⟨ed + 0x14, 4, n⟩, ⟨ed + 0x18, 4, n⟩,
    ⟨ed + 0x1C, 4, offFuncs⟩, ⟨ed + 0x20, 4, offNames n⟩, ⟨ed + 0x24, 4, offOrds n⟩]

def modname : List UInt8 := ascii "ntoskrnl.exe"

def offTramp (ns : List CString) : Nat := alignUp (afterNames (offStrs ns.length) ns) 16

/-- Where `modname` goes. -/
def offModname (ns : List CString) : Nat := afterTramps (offTramp ns) ns

def secRawEnd (ns : List CString) : Nat := afterCstr (offModname ns) modname

def sizeImage (ns : List CString) : Nat := alignUp (secRawEnd ns) 0x1000

/-- What is stored when the size is checked. -/
def tableStores (resolve : CString → UInt64) (ns : List CString) : List Store :=
  ⟨0, ntosImgCap, 0⟩ :: nameStores ns.length 0 (offStrs ns.length) ns ++
    trampStores resolve 0 (offTramp ns) ns ++ directoryStores ns.length ++ cstrStores (offModname ns) modname ++ [⟨offExpdir + 0x0C, 4, offModname ns⟩]

/-- The headers of an image at `b`. -/
def headerStores (b size rawEnd : Nat) : List Store :=
  let vsize := (size + 2 ^ 32 - expRva) % 2 ^ 32
  let pe := 0x80
  let coff := pe + 4
  let opt := coff + 0x14
  let dd := opt + 0x70
  let sh := opt + 0xF0
  [⟨0, 1, 0x4D⟩, ⟨1, 1, 0x5A⟩, ⟨0x3C, 4, 0x80⟩,
    ⟨pe, 1, 0x50⟩, ⟨pe + 1, 1, 0x45⟩, ⟨pe + 2, 1, 0⟩, ⟨pe + 3, 1, 0⟩,
    ⟨coff + 0x00, 2, 0x8664⟩, ⟨coff + 0x02, 2, 1⟩, ⟨coff + 0x04, 4, 0⟩, ⟨coff + 0x08, 4, 0⟩,
    ⟨coff + 0x0C, 4, 0⟩, ⟨coff + 0x10, 2, 0xF0⟩, ⟨coff + 0x12, 2, 0x2022⟩,
    ⟨opt + 0x00, 2, 0x020B⟩, ⟨opt + 0x02, 1, 14⟩, ⟨opt + 0x03, 1, 0⟩, ⟨opt + 0x04, 4, vsize⟩,
    ⟨opt + 0x08, 4, 0⟩, ⟨opt + 0x0C, 4, 0⟩, ⟨opt + 0x10, 4, 0⟩, ⟨opt + 0x14, 4, expRva⟩,
    ⟨opt + 0x18, 8, b⟩, ⟨opt + 0x20, 4, 0x1000⟩, ⟨opt + 0x24, 4, 0x200⟩, ⟨opt + 0x28, 2, 10⟩,
    ⟨opt + 0x2A, 2, 0⟩, ⟨opt + 0x2C, 2, 0⟩, ⟨opt + 0x2E, 2, 0⟩, ⟨opt + 0x30, 2, 10⟩, ⟨opt + 0x32, 2, 0⟩,
    ⟨opt + 0x34, 4, 0⟩, ⟨opt + 0x38, 4, size⟩, ⟨opt + 0x3C, 4, hdrSize⟩, ⟨opt + 0x40, 4, 0⟩,
    ⟨opt + 0x44, 2, 1⟩, ⟨opt + 0x46, 2, 0x4160⟩, ⟨opt + 0x48, 8, 0x40000⟩, ⟨opt + 0x50, 8, 0x1000⟩,
    ⟨opt + 0x58, 8, 0x100000⟩, ⟨opt + 0x60, 8, 0x1000⟩, ⟨opt + 0x68, 4, 0⟩, ⟨opt + 0x6C, 4, 16⟩,
    ⟨dd + 0x00, 4, offExpdir⟩, ⟨dd + 0x04, 4, (rawEnd + 2 ^ 32 - offExpdir) % 2 ^ 32⟩] ++
  ((ascii ".rdata").mapIdx fun i c => ⟨sh + i, 1, c.toNat⟩) ++
  [⟨sh + 0x08, 4, vsize⟩, ⟨sh + 0x0C, 4, expRva⟩, ⟨sh + 0x10, 4, vsize⟩, ⟨sh + 0x14, 4, expRva⟩,
    ⟨sh + 0x18, 4, 0⟩, ⟨sh + 0x1C, 4, 0⟩, ⟨sh + 0x20, 2, 0⟩, ⟨sh + 0x22, 2, 0⟩, ⟨sh + 0x24, 4, 0x60000020⟩]

/-- `g_built`, `g_img_size` and the memory. -/
structure BuildState where
  built : Bool
  imgSize : Nat
  m : Mem

/-- The pointer that is returned, `*out_size` if it is set, and what was stored. -/
structure BuildResult where
  image : Option Nat
  outSize : Option Nat
  st : BuildState
  stores : List Store

/-- The buffer is at `b`. The count of the names is a 32-bit number, and so is the index into a name:
the loop over a name that has no end below `2^32` never ends. -/
def ldrPeExportImageBuild (resolve : CString → UInt64) (b : Nat) (names : List CString) (st : BuildState) :
    Option BuildResult :=
  if st.built then some ⟨some b, some st.imgSize, st, []⟩
  else
    let ns := names.take (names.length % 2 ^ 32)
    if ∃ nm ∈ ns, 2 ^ 32 ≤ nm.chars.length then none
    else
      let tables := tableStores resolve ns
      if ntosImgCap < sizeImage ns then some ⟨none, none, { st with m := Store.run b tables st.m }, tables⟩
      else
        let all := tables ++ headerStores b (sizeImage ns) (secRawEnd ns)
        some ⟨some b, some (sizeImage ns), ⟨true, sizeImage ns, Store.run b all st.m⟩, all⟩

/-! ## What is to be read back -/

/-- `movabs rax, target` and `jmp rax`. -/
structure Trampoline (m : Mem) (a target : Nat) : Prop where
  movabs : m a = 0x48 ∧ m (a + 1) = 0xB8
  imm : m.rd64 (a + 2) = target
  jmp : m (a + 10) = 0xFF ∧ m (a + 11) = 0xE0

/-- The directory that the headers name. -/
def imageDir (m : Mem) (b : Nat) : ExportDir := exportDir m b (getDir m b 0).1

/-- The three tables of the directory. -/
def tableParts (m : Mem) (b n : Nat) : List Place :=
  let ex := b + (getDir m b 0).1
  [⟨m.rd32 (ex + 0x1C), 4 * n⟩, ⟨m.rd32 (ex + 0x20), 4 * n⟩, ⟨m.rd32 (ex + 0x24), 2 * n⟩]

/-- The tables, the strings and the trampolines. -/
def imageParts (m : Mem) (b : Nat) (names : List CString) : List Place :=
  tableParts m b names.length ++
    (names.mapIdx fun i nm => ⟨(imageDir m b).table .names i, nm.chars.length + 1⟩) ++
    (List.range names.length).map fun i => ⟨(imageDir m b).table .functions i, 12⟩

/-- What was put in. -/
structure ParsesBack (resolve : CString → UInt64) (m : Mem) (b : Nat) (names : List CString)
    (size : Nat) : Prop where
  parse : ∃ pi, peParse (m.shift b) = some pi ∧ pi.sizeImage = size
  search : ∀ i nm, names[i]? = some nm →
    bsearch (fun k => m.strcmp (b + (imageDir m b).table .names k) nm.chars) 0 (imageDir m b).nnames = some i
  exports : ∀ i nm, names[i]? = some nm →
    (peGetExport m b nm).1 = b + (imageDir m b).table .functions i ∧
    (peGetExportByOrdinal m b (i + 1)).1 = b + (imageDir m b).table .functions i ∧
    Trampoline m (b + (imageDir m b).table .functions i) (resolve nm).toNat
  apart : (imageParts m b names).Pairwise Place.Apart

/-- No image, or one that was built inside the buffer and parses back; the next call answers the
same. -/
def BuiltRight (resolve : CString → UInt64) (b : Nat) (m : Mem) (names : List CString) : Prop :=
  ∃ r, ldrPeExportImageBuild resolve b names ⟨false, 0, m⟩ = some r ∧
    (r.image = none ∨
      Store.Inside r.stores 0 ntosImgCap ∧
      (∃ size, r.image = some b ∧ r.outSize = some size ∧ ParsesBack resolve r.st.m b names size) ∧
      ldrPeExportImageBuild resolve b names r.st = some { r with stores := [] })

/-! ## Sizes -/

/-- The bytes of the strings. -/
def span (ns : List CString) : Nat := (ns.map fun nm => nm.chars.length + 1).sum

/-- The size of the image, as a number of any length. -/
def fullSize (ns : List CString) : Nat :=
  ((0x1028 + 10 * ns.length + span ns + 15) / 16 * 16 + 12 * ns.length + 13 + 4095) / 4096 * 4096

/-- The size is a 32-bit number, or what is left of it is still too much for the buffer. -/
def ImageFits (names : List CString) : Prop :=
  (names.length < 2 ^ 32 ∧ fullSize names < 2 ^ 32) ∨
  ((∀ nm ∈ names.take (names.length % 2 ^ 32), nm.chars.length < 2 ^ 32) ∧
    ntosImgCap < fullSize (names.take (names.length % 2 ^ 32)) % 2 ^ 32)

/-! ## Where the tables are -/

section Layout

variable {ns : List CString} {cur i n : Nat}

theorem span_cons (nm : CString) (ns : List CString) : span (nm :: ns) = nm.chars.length + 1 + span ns :=
  List.sum_cons

theorem afterNames_eq (hcur : cur < 2 ^ 32) (ns : List CString) :
    afterNames cur ns = (cur + span ns) % 2 ^ 32 := by
  induction ns generalizing cur with
  | nil => exact (Nat.mod_eq_of_lt hcur).symm
  | cons nm ns ih =>
    unfold afterNames afterCstr
    rw [ih (Nat.mod_lt _ (by decide)), Nat.mod_add_mod, span_cons, Nat.add_assoc, Nat.add_assoc,
        Nat.add_assoc]

theorem afterTramps_eq (hcur : cur < 2 ^ 32) (ns : List CString) :
    afterTramps cur ns = (cur + 12 * ns.length) % 2 ^ 32 := by
  induction ns generalizing cur with
  | nil => exact (Nat.mod_eq_of_lt hcur).symm
  | cons nm ns ih =>
    unfold afterTramps
    rw [ih (Nat.mod_lt _ (by decide)), Nat.mod_add_mod, List.length_cons, Nat.add_assoc, Nat.mul_add,
      Nat.mul_one, Nat.add_comm 12]

theorem offStrs_eq (n : Nat) : offStrs n = (0x1028 + 10 * n) % 2 ^ 32 := by
  unfold offStrs offOrds offNames offFuncs offExpdir expRva
  omega

/-- The offsets are the true ones modulo `2^32`. -/
theorem offTramp_eq (ns : List CString) :
    offTramp ns = ((0x1028 + 10 * ns.length + span ns + 15) / 16 * 16) % 2 ^ 32 := by
  have hstart : offStrs ns.length < 2 ^ 32 := Nat.mod_lt _ (by decide)
  unfold offTramp alignUp
  rw [afterNames_eq hstart, offStrs_eq]
  omega

theorem modname_length : modname.length = 12 := by decide

theorem offModname_eq (ns : List CString) :
    offModname ns = ((0x1028 + 10 * ns.length + span ns + 15) / 16 * 16 + 12 * ns.length) % 2 ^ 32 := by
  unfold offModname
  rw [offTramp_eq, afterTramps_eq (Nat.mod_lt _ (by decide)), Nat.mod_add_mod]

theorem secRawEnd_eq (ns : List CString) :
    secRawEnd ns = ((0x1028 + 10 * ns.length + span ns + 15) / 16 * 16 + 12 * ns.length + 13) % 2 ^ 32 := by
  unfold secRawEnd afterCstr
  rw [offModname_eq, modname_length, Nat.add_assoc, Nat.mod_add_mod]

theorem sizeImage_eq (ns : List CString) : sizeImage ns = fullSize ns % 2 ^ 32 := by
  unfold sizeImage alignUp fullSize
  rw [secRawEnd_eq]
  generalize (0x1028 + 10 * ns.length + span ns + 15) / 16 * 16 + 12 * ns.length + 13 = rawEnd
  omega

/-- An image that is small enough has its tables in order. -/
structure Placed (ns : List CString) (stringsEnd tramps : Nat) : Prop where
  names : offNames ns.length = 0x1028 + 4 * ns.length
  ords : offOrds ns.length = 0x1028 + 8 * ns.length
  strs : offStrs ns.length = 0x1028 + 10 * ns.length
  strings : offStrs ns.length + span ns = stringsEnd
  tramp : offTramp ns = tramps
  tramp_le : stringsEnd ≤ tramps
  modname : offModname ns = tramps + 12 * ns.length
  rawEnd : secRawEnd ns = tramps + 12 * ns.length + 13
  size : sizeImage ns = fullSize ns
  size_le : tramps + 12 * ns.length + 13 ≤ fullSize ns

theorem placed (h : fullSize ns < 2 ^ 32) : Placed ns (0x1028 + 10 * ns.length + span ns)
    ((0x1028 + 10 * ns.length + span ns + 15) / 16 * 16) := by
  have htramp := offTramp_eq ns
  have hmod := offModname_eq ns
  have hraw := secRawEnd_eq ns
  have hsize := sizeImage_eq ns
  have hstrs := offStrs_eq ns.length
  have hnames : offNames ns.length = (0x1028 + 4 * ns.length) % 2 ^ 32 := by
    unfold offNames offFuncs offExpdir expRva
    omega
  have hords : offOrds ns.length = (0x1028 + 8 * ns.length) % 2 ^ 32 := by
    unfold offOrds offNames offFuncs offExpdir expRva
    omega
  have hle : (0x1028 + 10 * ns.length + span ns + 15) / 16 * 16 + 12 * ns.length + 13 ≤ fullSize ns := by
    unfold fullSize
    generalize (0x1028 + 10 * ns.length + span ns + 15) / 16 * 16 + 12 * ns.length + 13 = rawEnd
    omega
  rw [Nat.mod_eq_of_lt (by omega)] at htramp hmod hraw hsize hstrs hnames hords
  exact ⟨hnames, hords, hstrs, by rw [hstrs], htramp, by omega, hmod, hraw, hsize, hle⟩

end Layout

/-! ## The loops -/

section Loops

variable {ns : List CString} {cs : List UInt8} {b cur i n k : Nat} {m : Mem}

theorem write_byte (m : Mem) (a : Nat) (c : UInt8) : m.write a 1 c.toNat a = c := by
  unfold Mem.write
  rw [Mem.blit_inside _ _ (Nat.le_refl _) (Nat.lt_succ_self _), Nat.sub_self]
  unfold Mem.le
  rw [pow_zero, Nat.div_one, UInt8.ofNat_toNat]

theorem cstrStores_inside (h : cur + cs.length + 1 < 2 ^ 32) :
    Store.Inside (cstrStores cur cs) cur (cur + cs.length + 1) := by
  induction cs generalizing cur with
  | nil => exact List.forall_mem_singleton.2 ⟨Nat.le_refl _, Nat.le_refl _⟩
  | cons c cs ih =>
    rw [List.length_cons] at h ⊢
    unfold cstrStores
    rw [Nat.mod_eq_of_lt (by omega)]
    refine List.forall_mem_cons.2 ⟨⟨Nat.le_refl _, by dsimp only; omega⟩, ?_⟩
    exact (ih (by omega)).mono (by omega) (by omega)

theorem cstrStores_str (h : cur + cs.length + 1 < 2 ^ 32) :
    (Store.run b (cstrStores cur cs) m).Str (b + cur) cs := by
  induction cs generalizing cur m with
  | nil => exact Mem.str_nil.2 (write_byte m _ 0)
  | cons c cs ih =>
    rw [List.length_cons] at h
    unfold cstrStores
    rw [Nat.mod_eq_of_lt (by omega)]
    have hrest : cur + 1 + cs.length + 1 < 2 ^ 32 := by omega
    refine Mem.str_cons.2 ⟨?_, ih hrest⟩
    have hclear : Store.Clear (cstrStores (cur + 1) cs) cur (cur + 1) :=
      (cstrStores_inside hrest).clear (.inr (Nat.le_refl _))
    exact (Store.run_agree hclear _ (Nat.le_refl _) (by omega)).trans (write_byte m _ c)

/-- Where the stores for the names from the `i`-th on are. -/
def NamePlaces (n i cur : Nat) (ns : List CString) (s : Store) : Prop :=
  (cur ≤ s.off ∧ s.off + s.width ≤ cur + span ns) ∨
  (offNames n + 4 * i ≤ s.off ∧ s.off + s.width ≤ offNames n + 4 * (i + ns.length)) ∨
  (offOrds n + 2 * i ≤ s.off ∧ s.off + s.width ≤ offOrds n + 2 * (i + ns.length))

theorem nameStores_places (n i cur : Nat) (ns : List CString) (hcur : cur + span ns < 2 ^ 32) (hi : 4 * (i + ns.length) < 2 ^ 32) :
    ∀ s ∈ nameStores n i cur ns, NamePlaces n i cur ns s := by
  induction ns generalizing i cur with
  | nil => exact List.forall_mem_nil _
  | cons nm ns ih =>
    rw [span_cons] at hcur
    rw [List.length_cons] at hi
    unfold nameStores NamePlaces
    rw [span_cons, List.length_cons, Nat.mod_eq_of_lt (by omega), Nat.mod_eq_of_lt (by omega)]
    have hafter : afterCstr cur nm.chars = cur + nm.chars.length + 1 := Nat.mod_eq_of_lt (by omega)
    rw [hafter]
    refine List.forall_mem_append.2 ⟨fun s hs => ?_, List.forall_mem_cons.2 ⟨?_,
        List.forall_mem_cons.2 ⟨?_, fun s hs => ?_⟩⟩⟩
    · have := cstrStores_inside (by omega) s hs
      omega
    · dsimp only
      omega
    · dsimp only
      omega
    · have := ih (i + 1) (cur + nm.chars.length + 1) (by omega) (by omega) s hs
      unfold NamePlaces at this
      omega

/-- The `k`-th name: its string, and its elements of the two tables. -/
theorem nameStores_entry {nm : CString} (b n i cur : Nat) (m : Mem) (hcur : cur + span ns < 2 ^ 32) (hi : 4 * (i + ns.length) < 2 ^ 32)
    (hnames : offNames n + 4 * (i + ns.length) ≤ offOrds n) (hords : offOrds n + 2 * (i + ns.length) ≤ cur)
    (hk : ns[k]? = some nm) :
    (Store.run b (nameStores n i cur ns) m).Str (b + (cur + span (ns.take k))) nm.chars ∧
    (Store.run b (nameStores n i cur ns) m).rd32 (b + (offNames n + 4 * (i + k))) = cur + span (ns.take k) ∧
    (Store.run b (nameStores n i cur ns) m).rd16 (b + (offOrds n + 2 * (i + k))) = (i + k) % 2 ^ 16 := by
  induction ns generalizing i cur k m with
  | nil => cases hk
  | cons x ns ih =>
    rw [span_cons] at hcur
    rw [List.length_cons] at hi hnames hords
    have hafter : afterCstr cur x.chars = cur + x.chars.length + 1 := Nat.mod_eq_of_lt (by omega)
    have hlen : cur + x.chars.length + 1 < 2 ^ 32 := by omega
    unfold nameStores
    rw [hafter, Nat.mod_eq_of_lt (show i * 4 < 2 ^ 32 by omega),
        Nat.mod_eq_of_lt (show i * 2 < 2 ^ 32 by omega),
      Store.run_append, Store.run_cons, Store.run_cons]
    dsimp only
    cases k with
    | succ k =>
      have hnext := ih (i + 1) (cur + x.chars.length + 1)
        (((Store.run b (cstrStores cur x.chars) m).write (b + (offNames n + i * 4)) 4 cur).write
          (b + (offOrds n + i * 2)) 2 (i % 2 ^ 16)) (by omega) (by omega) (by omega) (by omega) hk
      rw [List.take_succ_cons, span_cons, show i + (k + 1) = i + 1 + k by omega,
        show cur + (x.chars.length + 1 + span (ns.take k)) =
            cur + x.chars.length + 1 + span (ns.take k) by omega]
      exact hnext
    | zero =>
      cases hk
      have hplaces := nameStores_places n (i + 1) (cur + nm.chars.length + 1) ns (by omega) (by omega)
      -- neither the string nor the elements are touched again
      have hclear : ∀ lo hi, (cur ≤ lo ∧ hi ≤ cur + nm.chars.length + 1) ∨
          (offNames n ≤ lo ∧ hi ≤ offNames n + 4 * (i + 1)) ∨
          (offOrds n ≤ lo ∧ hi ≤ offOrds n + 2 * (i + 1)) →
          Store.Clear (nameStores n (i + 1) (cur + nm.chars.length + 1) ns) lo hi := by
        intro lo hi hregion s hs
        have := hplaces s hs
        unfold NamePlaces at this
        omega
      have hnone : span ([] : List CString) = 0 := rfl
      rw [List.take_zero, hnone, Nat.add_zero cur, Nat.add_zero i]
      refine ⟨?_, ?_, ?_⟩
      · refine (cstrStores_str (b := b) (m := m) hlen).congr fun a hlo hhi => ?_
        rw [Store.run_agree (hclear cur _ (.inl ⟨Nat.le_refl _, Nat.le_refl _⟩)) a hlo (by omega),
          Mem.write_outside _ _ (by omega), Mem.write_outside _ _ (by omega)]
      · rw [Mem.rd32, Store.read_run_clear (hclear _ _ (.inr (.inl ⟨by omega, by omega⟩))),
          Mem.read_write_of_disjoint _ _ (by omega), show 4 * i = i * 4 by omega,
              Mem.read_write_of_lt _ (by omega)]
      · rw [Mem.rd16, Store.read_run_clear (hclear _ _ (.inr (.inr ⟨by omega, by omega⟩))),
          show 2 * i = i * 2 by omega, Mem.read_write_same]
        exact Nat.mod_eq_of_lt (Nat.mod_lt _ (by decide))

/-- Where the stores for the trampolines from the `i`-th on are. -/
def TrampPlaces (i cur : Nat) (ns : List CString) (s : Store) : Prop :=
  (cur ≤ s.off ∧ s.off + s.width ≤ cur + 12 * ns.length) ∨
  (offFuncs + 4 * i ≤ s.off ∧ s.off + s.width ≤ offFuncs + 4 * (i + ns.length))

variable {resolve : CString → UInt64}

/-- The stores for one trampoline. -/
def trampEntry (target i cur : Nat) : List Store :=
  [⟨cur, 1, 0x48⟩, ⟨cur + 1, 1, 0xB8⟩, ⟨cur + 2, 8, target⟩, ⟨cur + 10, 1, 0xFF⟩, ⟨cur + 11, 1, 0xE0⟩,
    ⟨offFuncs + i * 4, 4, cur⟩]

theorem trampStores_cons {nm : CString} (hcur : cur + 12 < 2 ^ 32) (hi : 4 * i < 2 ^ 32) :
    trampStores resolve i cur (nm :: ns) =
      trampEntry (resolve nm).toNat i cur ++ trampStores resolve (i + 1) (cur + 12) ns := by
  unfold trampEntry
  rw [trampStores, Nat.mod_eq_of_lt (by omega), Nat.mod_eq_of_lt (by omega), Nat.mod_eq_of_lt (by omega),
    Nat.mod_eq_of_lt (by omega), Nat.mod_eq_of_lt (by omega), Nat.mod_eq_of_lt (by omega)]
  rfl

theorem trampStores_places (resolve : CString → UInt64) (i cur : Nat) (ns : List CString)
    (hcur : cur + 12 * ns.length < 2 ^ 32) (hi : 4 * (i + ns.length) < 2 ^ 32) :
    ∀ s ∈ trampStores resolve i cur ns, TrampPlaces i cur ns s := by
  induction ns generalizing i cur with
  | nil => exact List.forall_mem_nil _
  | cons nm ns ih =>
    rw [List.length_cons] at hcur hi
    rw [trampStores_cons (by omega) (by omega)]
    unfold TrampPlaces
    rw [List.length_cons]
    refine List.forall_mem_append.2 ⟨fun s hs => ?_, fun s hs => ?_⟩
    · unfold trampEntry at hs
      simp only [List.mem_cons, List.not_mem_nil, or_false] at hs
      rcases hs with rfl | rfl | rfl | rfl | rfl | rfl
      all_goals dsimp only
      all_goals omega
    · have := ih (i + 1) (cur + 12) (by omega) (by omega) s hs
      unfold TrampPlaces at this
      omega

theorem byte_of_read {a v : Nat} (h : m.read a 1 = v) : m a = UInt8.ofNat v := by
  rw [← h]
  unfold Mem.read Mem.read
  rw [Nat.mul_zero, Nat.add_zero, UInt8.ofNat_toNat]

/-- The `k`-th trampoline, and its element of `AddressOfFunctions`. -/
theorem trampStores_entry {nm : CString} (resolve : CString → UInt64) (b i cur : Nat) (m : Mem)
    (hcur : cur + 12 * ns.length < 2 ^ 32)
    (hi : 4 * (i + ns.length) < 2 ^ 32) (hfuncs : offFuncs + 4 * (i + ns.length) ≤ cur)
    (hk : ns[k]? = some nm) :
    Trampoline (Store.run b (trampStores resolve i cur ns) m) (b + (cur + 12 * k)) (resolve nm).toNat ∧
    (Store.run b (trampStores resolve i cur ns) m).rd32 (b + (offFuncs + 4 * (i + k))) = cur + 12 * k := by
  induction ns generalizing i cur k m with
  | nil => cases hk
  | cons x ns ih =>
    rw [List.length_cons] at hcur hi hfuncs
    rw [trampStores_cons (by omega) (by omega), Store.run_append]
    cases k with
    | succ k =>
      have hnext := ih (i + 1) (cur + 12) (Store.run b (trampEntry (resolve x).toNat i cur) m) (by omega)
        (by omega) (by omega) hk
      rw [show cur + 12 * (k + 1) = cur + 12 + 12 * k by omega, show i + (k + 1) = i + 1 + k by omega]
      exact hnext
    | zero =>
      cases hk
      have hplaces := trampStores_places resolve (i + 1) (cur + 12) ns (by omega) (by omega)
      have hclear : ∀ {lo hi}, (cur ≤ lo ∧ hi ≤ cur + 12) ∨ (offFuncs ≤ lo ∧ hi ≤ offFuncs + 4 * (i + 1)) →
          Store.Clear (trampStores resolve (i + 1) (cur + 12) ns) lo hi := by
        intro lo hi hregion s hs
        have := hplaces s hs
        unfold TrampPlaces at this
        omega
      have hapart : ((trampEntry (resolve nm).toNat i cur).map Store.place).Pairwise Place.Apart := by
        unfold trampEntry Store.place Place.Apart
        simp only [List.map_cons, List.map_nil, List.pairwise_cons, List.mem_cons, List.not_mem_nil, or_false,
          forall_eq_or_imp, forall_eq, List.Pairwise.nil, and_true, false_imp_iff, implies_true]
        omega
      have hread : ∀ s ∈ trampEntry (resolve nm).toNat i cur,
          (Store.run b (trampStores resolve (i + 1) (cur + 12) ns)
            (Store.run b (trampEntry (resolve nm).toNat i cur) m)).read (b + s.off) s.width =
          s.value % 256 ^ s.width := by
        intro s hs
        rw [Store.read_run_clear (hclear ?_), Store.read_run_mem hapart hs]
        unfold trampEntry at hs
        simp only [List.mem_cons, List.not_mem_nil, or_false] at hs
        rcases hs with rfl | rfl | rfl | rfl | rfl | rfl
        all_goals dsimp only
        all_goals omega
      unfold trampEntry at hread
      simp only [List.forall_mem_cons] at hread
      obtain ⟨hrex, hmov, himm, hjmp, hrax, hslot, -⟩ := hread
      rw [Nat.mul_zero, Nat.add_zero, Nat.add_zero i]
      refine ⟨⟨⟨byte_of_read hrex, byte_of_read hmov⟩, ?_, byte_of_read hjmp, byte_of_read hrax⟩, ?_⟩
      · exact himm.trans (Nat.mod_eq_of_lt (resolve nm).toNat_lt)
      · rw [show 4 * i = i * 4 by omega]
        exact hslot.trans (Nat.mod_eq_of_lt (by omega))

end Loops

end MeuOS.Ldr
