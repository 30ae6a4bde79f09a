import MeuOS.Lib.Mem

/-! PE images: the headers, the mapping of a file at a base, and base relocation. The file
is a memory of its own, read from its first byte; an address in the other memory is a
number. -/
namespace MeuOS.Ldr

open MeuOS.Lib

/-- `pe_info_t`. -/
structure PeInfo where
  machine : Nat
  magic : Nat
  is64 : Bool
  nsec : Nat
  entryRva : Nat
  preferred : Nat
  sizeImage : Nat
  sizeHdrs : Nat
  ndirs : Nat
  dirOff : Nat
  secOff : Nat
deriving DecidableEq

/-- Where the optional header of the image at `b` starts. -/
def optHeader (m : Mem) (b : Nat) : Nat := b + m.rd32 (b + 0x3C) + 4 + 20

def peParse (f : Mem) : Option PeInfo :=
  let nt := f.rd32 0x3C
  let coff := nt + 4
  let opt := optHeader f 0
  let magic := f.rd16 opt
  let info (is64 : Bool) (preferred ndirs dirOff : Nat) : PeInfo :=
    { machine := f.rd16 coff
      magic := magic
      is64 := is64
      nsec := f.rd16 (coff + 2)
      entryRva := f.rd32 (opt + 16)
      preferred := preferred
      sizeImage := f.rd32 (opt + 56)
      sizeHdrs := f.rd32 (opt + 60)
      ndirs := ndirs
      dirOff := dirOff
      secOff := (opt + f.rd16 (coff + 16)) % 2 ^ 32 }
  if f 0 ≠ 0x4D ∨ f 1 ≠ 0x5A then none
  else if f nt ≠ 0x50 ∨ f (nt + 1) ≠ 0x45 ∨ f (nt + 2) ≠ 0 ∨ f (nt + 3) ≠ 0 then none
  else if magic = 0x20B then some (info true (f.rd64 (opt + 24)) (f.rd32 (opt + 108)) 112)
  else if magic = 0x10B then some (info false (f.rd32 (opt + 28)) (f.rd32 (opt + 92)) 96)
  else none

/-- Where the data directories start in the optional header, and how many there are. -/
def dirTable (m : Mem) (b : Nat) : Nat × Nat :=
  if m.rd16 (optHeader m b) = 0x20B then (112, m.rd32 (optHeader m b + 108))
  else (96, m.rd32 (optHeader m b + 92))

/-- The address and the size of a data directory. -/
def getDir (m : Mem) (b idx : Nat) : Nat × Nat :=
  if (dirTable m b).2 ≤ idx then (0, 0)
  else
    let dir := optHeader m b + (dirTable m b).1 + 8 * idx
    (m.rd32 dir, m.rd32 (dir + 4))

/-! ## Mapping -/

/-- The raw bytes of a section. -/
def copySection (f : Mem) (img va rp : Nat) : Nat → Mem → Mem
  | 0, m => m
  | n + 1, m => (copySection f img va rp n m).put (img + (va + n) % 2 ^ 32) (f ((rp + n) % 2 ^ 32))

def mapSections (f : Mem) (img secOff : Nat) : Nat → Mem → Mem
  | 0, m => m
  | s + 1, m =>
      let sh := secOff + 40 * s
      copySection f img (f.rd32 (sh + 12)) (f.rd32 (sh + 20)) (f.rd32 (sh + 16))
        (mapSections f img secOff s m)

/-- The entry point and the memory. -/
def peMapAt (f : Mem) (base : Nat) (m : Mem) : Option (Nat × Mem) :=
  (peParse f).map fun pi =>
    let zeroed := m.blit base pi.sizeImage fun _ => 0
    let headers := zeroed.blit base pi.sizeHdrs f
    (base + pi.entryRva, mapSections f base pi.secOff pi.nsec headers)

def peMap (f : Mem) (m : Mem) : Option (Nat × Mem) :=
  (peParse f).bind fun pi => peMapAt f pi.preferred m

/-! ## Base relocation -/

/-- One entry of a block, with the number of fixups applied so far. -/
def relocEntry (b delta page ent : Nat) (r : Nat × Mem) : Nat × Mem :=
  let type := ent / 2 ^ 12
  let target := b + page + ent % 2 ^ 12
  if type = 3 then
    ((r.1 + 1) % 2 ^ 32, r.2.write target 4 ((r.2.rd32 target + delta % 2 ^ 32) % 2 ^ 32))
  else if type = 10 then
    ((r.1 + 1) % 2 ^ 32, r.2.write target 8 ((r.2.rd64 target + delta) % 2 ^ 64))
  else r

/-- The first `n` entries of the block at `p`. -/
def relocEntries (b delta page p : Nat) : Nat → Nat × Mem → Nat × Mem
  | 0, r => r
  | n + 1, r =>
      let done := relocEntries b delta page p n r
      relocEntry b delta page (done.2.rd16 (p + 8 + 2 * n)) done

/-- The blocks from `p` on. -/
def relocBlocks (b delta stop p : Nat) (r : Nat × Mem) : Nat × Mem :=
  if p < stop then
    let size := r.2.rd32 (p + 4)
    if size < 8 then r
    else relocBlocks b delta stop (p + size) (relocEntries b delta (r.2.rd32 p) p ((size - 8) / 2) r)
  else r
termination_by stop - p

/-- The fixups applied and the memory. -/
def peRelocate (base preferred : Nat) (m : Mem) : Nat × Mem :=
  let delta := (base + 2 ^ 64 - preferred) % 2 ^ 64
  if delta = 0 then (0, m)
  else
    let reloc := getDir m base 5
    if reloc.1 = 0 ∨ reloc.2 = 0 then (0, m)
    else relocBlocks base delta (base + reloc.1 + reloc.2) (base + reloc.1) (0, m)

end MeuOS.Ldr
