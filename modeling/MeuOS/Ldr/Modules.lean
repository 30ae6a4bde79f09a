import MeuOS.Ldr.Pe
import MeuOS.Lib.CString
import MeuOS.Ntfs.FileSystem

/-! The module table: registration, lookup by name, and the loading of what is registered. A
string is the list of its characters, an image is where its bytes are, and what the mapping of an
image comes to is a parameter. -/
namespace MeuOS.Ldr

open MeuOS.Lib

def maxModules : Nat := 32

/-- An entry of `s_mods`. -/
structure LdrMod where
  name : List UInt8
  bytes : Nat
  base : Nat
deriving DecidableEq, Inhabited

/-- The table, and how many images were mapped or were to be. -/
structure Loader where
  mods : List LdrMod
  attempts : Nat
deriving DecidableEq

/-- What comes of mapping an image: its base, 0 when it fails, and the DLLs its imports name, in
order. -/
structure Mapping where
  base : Nat
  imports : List (List UInt8)

def lower (c : UInt8) : UInt8 := if 0x41 ≤ c ∧ c ≤ 0x5A then c + 32 else c

def ieq : List UInt8 → List UInt8 → Bool
  | a :: as, b :: bs => lower a == lower b && ieq as bs
  | [], [] => true
  | _, _ => false

def isSeparator (c : UInt8) : Bool := c == 0x5C || c == 0x2F

/-- `basename`, with the best start so far. -/
def basenameFrom (p : List UInt8) : List UInt8 → List UInt8
  | [] => p
  | c :: cs => basenameFrom (if isSeparator c then cs else p) cs

def basename (path : List UInt8) : List UInt8 := basenameFrom path path

def ldrRegister (path : List UInt8) (image : Nat) (s : Loader) : Loader :=
  if maxModules ≤ s.mods.length then s
  else { s with mods := s.mods ++ [⟨(basename path).take 31, image, 0⟩] }

def findMod (mods : List LdrMod) (name : List UInt8) : Option Nat :=
  mods.findIdx? fun m => ieq m.name name

def Loader.baseOf (s : Loader) (i : Nat) : Nat := (s.mods.getD i default).base

def Loader.setBase (s : Loader) (i base : Nat) : Loader :=
  { s with mods := s.mods.modify i fun m => { m with base := base } }

def ldrModuleSetBase (name : List UInt8) (base : Nat) (s : Loader) : Loader :=
  match findMod s.mods name with
  | none => s
  | some i => s.setBase i base

def hasPrefixCi : List UInt8 → List UInt8 → Bool
  | _, [] => true
  | [], _ :: _ => false
  | c :: cs, p :: ps => lower c == lower p && hasPrefixCi cs ps

/-- The families of API sets, and the names that are another DLL's. -/
def apisetHosts : List (String × String) :=
  [("api-ms-win-crt-", "ucrtbase.dll"),
   ("api-ms-win-core-com", "combase.dll"),
   ("api-ms-win-core-winrt", "combase.dll"),
   ("api-ms-win-core-registry", "advapi32.dll"),
   ("api-ms-win-core-", "kernel32.dll"),
   ("api-ms-win-rtcore-ntuser-", "user32.dll"),
   ("api-ms-win-ntuser-", "user32.dll"),
   ("api-ms-win-security-", "advapi32.dll"),
   ("api-ms-win-eventing-", "advapi32.dll"),
   ("api-ms-win-shell-", "shell32.dll"),
   ("api-ms-win-shcore-", "shcore.dll"),
   ("api-ms-win-shlwapi-", "shcore.dll"),
   ("shlwapi", "shcore.dll"),
   ("api-ms-win-storage-", "shell32.dll"),
   ("ext-ms-win-rtcore-ntuser-", "user32.dll"),
   ("ext-ms-win-ntuser-", "user32.dll"),
   ("ext-ms-win-session-winsta-", "user32.dll"),
   ("ext-ms-win-gdi-", "gdi32.dll"),
   ("ext-ms-win-shell32-", "shell32.dll"),
   ("ext-ms-win-shell-", "shell32.dll"),
   ("ext-ms-win-security-", "advapi32.dll"),
   ("ext-ms-win-core-", "kernel32.dll"),
   ("userenv", "advapi32.dll"),
   ("sspicli", "advapi32.dll"),
   ("kernelbase", "kernel32.dll")]

def apisetRedirect (dll : List UInt8) : List UInt8 :=
  match apisetHosts.find? fun h => hasPrefixCi dll (ascii h.1) with
  | some h => ascii h.2
  | none => dll

/-- The name with ".dll", when it has no extension, in a buffer of `cap` characters. -/
def appendDllIfBare (red : List UInt8) (cap : Nat) : Option (List UInt8) :=
  if 0x2E ∈ basename red then none else some (red.take (cap - 5) ++ ascii ".dll")

section Load

variable (env : Nat → Mapping)

/-- Maps the image in slot `i`; `load` is for its imports, which are resolved with the base already
in the table. -/
def mapSlot (load : List UInt8 → Loader → Option (Nat × Loader)) (i : Nat) (s : Loader) :
    Option (Nat × Loader) :=
  let r := env s.attempts
  let s : Loader := { s with attempts := s.attempts + 1 }
  if r.base = 0 then some (0, s)
  else
    (r.imports.foldlM (fun s dll => (load (apisetRedirect dll) s).map Prod.snd) (s.setBase i r.base)).map
      fun s => (r.base, s)

/-- `ldr_load` to a depth. -/
def ldrLoadN : Nat → List UInt8 → Loader → Option (Nat × Loader)
  | 0, _, _ => none
  | depth + 1, name, s =>
      match findMod s.mods name with
      | none => some (0, s)
      | some i =>
          if s.baseOf i ≠ 0 then some (s.baseOf i, s)
          else mapSlot env (ldrLoadN depth) i s

def ldrLoad (name : List UInt8) (s : Loader) : Option (Nat × Loader) :=
  ldrLoadN env (s.mods.length + 1) name s

def ldrLoadRuntime (name : List UInt8) (s : Loader) : Option (Nat × Loader) :=
  let red := apisetRedirect name
  if (findMod s.mods red).isSome then ldrLoad env red s
  else
    match appendDllIfBare red 64 with
    | some buf => if (findMod s.mods buf).isSome then ldrLoad env buf s else ldrLoad env red s
    | none => ldrLoad env red s

def ldrFindRuntime (name : List UInt8) (s : Loader) : Nat :=
  let red := apisetRedirect name
  match findMod s.mods red with
  | some i => s.baseOf i
  | none =>
      match (appendDllIfBare red 64).bind (findMod s.mods) with
      | some i => s.baseOf i
      | none => 0

/-- `ldr_load_image`. -/
def ldrLoadImage (name : List UInt8) (bytes : Nat) (s : Loader) : Option (Nat × Loader) :=
  let bn := basename name
  match findMod s.mods bn with
  | some i =>
      if s.baseOf i ≠ 0 then some (s.baseOf i, s)
      else
        let s : Loader := { s with mods := s.mods.modify i fun m => { m with bytes := bytes } }
        mapSlot env (fun dll s => ldrLoad env dll s) i s
  | none =>
      let s := ldrRegister bn bytes s
      match findMod s.mods bn with
      | none => some (0, s)
      | some i => mapSlot env (fun dll s => ldrLoad env dll s) i s

/-- Whether a name is looked for on the volume, which may not be mounted. -/
def isDiskPath (mounted : Bool) (name : List UInt8) : Bool :=
  mounted && (Ntfs.ntfsVolumeSubpath name).isSome

/-- `NtLoadLibrary`; `file` is where the file's bytes were read to, when they were. -/
def sysLoadLibrary (mounted : Bool) (name : List UInt8) (file : Option Nat) (s : Loader) :
    Option (Nat × Loader) :=
  if isDiskPath mounted name then
    match file with
    | none => some (0, s)
    | some buf => ldrLoadImage env name buf s
  else ldrLoadRuntime env name s

def sysGetModuleHandle (name : List UInt8) (s : Loader) : Nat := ldrFindRuntime name s

end Load

end MeuOS.Ldr
