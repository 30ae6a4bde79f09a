import MeuOS.Ucrt.Input

/-! Input streams over whole runs. Beside the calls of the runtime, with one pushback slot for all, stand
independent streams: each its own bytes, the pushed-back ones first. -/
namespace MeuOS.Ucrt

/-- `UCRT_FILE`: the console, or a file with its handle. -/
structure UcrtFile where
  fd : Int
  handle : Nat
  deriving DecidableEq

/-- The slot and the console, the bytes left in every file, and `eof` of every file. -/
structure Stdio where
  console : Console
  files : Nat → List Nat
  eof : Nat → Bool

/-- `f && f->fd < 0`: the handle that is read. -/
def fileOf : Option UcrtFile → Option Nat
  | some f => if f.fd < 0 then some f.handle else none
  | none => none

variable (f : Option UcrtFile) (s : Stdio)

def ucrtGetchar : Option (Int × Stdio) :=
  (ucrtSgetc s.console).map fun r => (r.1, { s with console := r.2 })

def ucrtFgetc : Option (Int × Stdio) :=
  match fileOf f with
  | some h =>
      match s.files h with
      | [] => some (-1, { s with eof := Function.update s.eof h true })
      | b :: bytes => some ((b : Int), { s with files := Function.update s.files h bytes })
  | none => ucrtGetchar s

/-- `ungetc`, whatever the stream is. -/
def ucrtUngetc (c : Int) : Int × Stdio := (c, { s with console := ucrtSungetc c s.console })

/-- The loop of `fgets`, with room for `k` characters; no line where the file has ended at once. -/
def fgetsLoop : Nat → List Nat → Stdio → Option (Option (List Nat) × Stdio)
  | 0, line, s => some (some line, s)
  | k + 1, line, s => do
      let (c, s) ← ucrtFgetc f s
      if c < 0 then some (if line = [] then none else some line, s)
      else
        let line := line ++ [(c % 256).toNat]
        if c = 0xA then some (some line, s) else fgetsLoop k line s

def ucrtFgets (n : Int) : Option (Option (List Nat) × Stdio) :=
  if n ≤ 0 then some (none, s) else fgetsLoop f (n - 1).toNat [] s

/-- The loop of `fread` on the console. -/
def freadLoop : Nat → List Nat → Stdio → Option (List Nat × Stdio)
  | 0, block, s => some (block, s)
  | k + 1, block, s => do
      let (c, s) ← ucrtGetchar s
      if c < 0 then some (block, s) else freadLoop k (block ++ [(c % 256).toNat]) s

/-- `fread`: the number of whole elements, and the bytes. -/
def ucrtFread (sz n : Nat) : Option ((Nat × List Nat) × Stdio) :=
  let total := sz * n % 2 ^ 64
  let items := fun block : List Nat => if sz = 0 then 0 else block.length / sz
  match fileOf f with
  | some h =>
      let block := (s.files h).take (total % 2 ^ 32)
      some ((items block, block),
        { s with
          files := Function.update s.files h ((s.files h).drop (total % 2 ^ 32))
          eof := if block = [] then Function.update s.eof h true else s.eof })
  | none => do
      let (block, s) ← freadLoop total [] s
      some ((items block, block), s)

/-- A call, and what it gives. -/
inductive Call
  | getchar
  | fgetc (f : Option UcrtFile)
  | fgets (n : Int) (f : Option UcrtFile)
  | fread (sz n : Nat) (f : Option UcrtFile)
  | ungetc (c : Int) (f : Option UcrtFile)
  | scanf (fmt args : List Nat) (f : Option UcrtFile)

inductive Reply
  | char (c : Int)
  | line (l : Option (List Nat))
  | block (items : Nat) (bytes : List Nat)
  | scanned (assigned : Nat) (writes : List Write)
  deriving DecidableEq

/-- The stream that a call is about: the console is `none`, a file its handle. -/
def Call.stream : Call → Option Nat
  | .getchar => none
  | .fgetc f | .fgets _ f | .fread _ _ f | .ungetc _ f | .scanf _ _ f => fileOf f

/-- One call; it has no result while it waits for the keyboard. -/
def ucrtCall : Call → Stdio → Option (Reply × Stdio)
  | .getchar, s => (ucrtGetchar s).map fun r => (.char r.1, r.2)
  | .fgetc f, s => (ucrtFgetc f s).map fun r => (.char r.1, r.2)
  | .fgets n f, s => (ucrtFgets f s n).map fun r => (.line r.1, r.2)
  | .fread sz n f, s => (ucrtFread f s sz n).map fun r => (.block r.1.1 r.1.2, r.2)
  | .ungetc c _, s => some (.char (ucrtUngetc s c).1, (ucrtUngetc s c).2)
  | .scanf fmt args _, s =>
      (stdioCommonVfscanf fmt args s.console).map fun r => (.scanned r.1 r.2.1, { s with console := r.2.2 })

/-! ## Independent streams -/

/-- A stream: the console is `none`, a file its handle. Each has its own bytes, the next one first, and a
file its mark that the end was met. -/
structure Streams where
  bytes : Option Nat → List Nat
  eof : Nat → Bool

def Streams.put (x : Option Nat) (bytes : List Nat) (t : Streams) : Streams :=
  { t with bytes := Function.update t.bytes x bytes }

/-- What the console has yet to deliver. -/
def Console.content (s : Console) : List Nat := if 0 ≤ s.unget then s.unget.toNat :: s.bytes else s.bytes

/-- The next byte of a stream: the console waits for one, a file says that it has ended. -/
def Streams.next (x : Option Nat) (t : Streams) : Option (Int × Streams) :=
  match t.bytes x with
  | b :: bytes => some ((b : Int), t.put x bytes)
  | [] =>
      match x with
      | none => none
      | some h => some (-1, { t with eof := Function.update t.eof h true })

/-- A line of a stream. -/
def Streams.line (x : Option Nat) : Nat → List Nat → Streams → Option (Option (List Nat) × Streams)
  | 0, line, t => some (some line, t)
  | k + 1, line, t => do
      let (c, t) ← t.next x
      if c < 0 then some (if line = [] then none else some line, t)
      else
        let line := line ++ [(c % 256).toNat]
        if c = 0xA then some (some line, t) else Streams.line x k line t

/-- A block of `k` bytes: what a file has of it, all of it from the console. -/
def Streams.block (x : Option Nat) (k : Nat) (t : Streams) : Option (List Nat × Streams) :=
  let block := (t.bytes x).take k
  let rest := t.put x ((t.bytes x).drop k)
  match x with
  | none => if block.length < k then none else some (block.map (· % 256), rest)
  | some h => some (block, { rest with eof := if block = [] then Function.update t.eof h true else t.eof })

/-- One call, answered from the bytes of its own stream. -/
def Streams.serve : Call → Streams → Option (Reply × Streams)
  | .getchar, t => (t.next none).map fun r => (.char r.1, r.2)
  | .fgetc f, t => (t.next (fileOf f)).map fun r => (.char r.1, r.2)
  | .fgets n f, t =>
      if n ≤ 0 then some (.line none, t)
      else (Streams.line (fileOf f) (n - 1).toNat [] t).map fun r => (.line r.1, r.2)
  | .fread sz n f, t =>
      (t.block (fileOf f) (sz * n)).map fun r => (.block (if sz = 0 then 0 else r.1.length / sz) r.1, r.2)
  | .ungetc c f, t =>
      some (.char c, if c < 0 then t else t.put (fileOf f) (c.toNat :: t.bytes (fileOf f)))
  | .scanf fmt args f, t =>
      (stdioCommonVfscanf fmt args ⟨-1, t.bytes (fileOf f)⟩).map fun r =>
        (.scanned r.1 r.2.1, t.put (fileOf f) r.2.2.content)

/-- Call after call, with the replies. -/
def runCalls {σ : Type} (step : Call → σ → Option (Reply × σ)) : List Call → σ → Option (List Reply × σ)
  | [], s => some ([], s)
  | c :: cs, s => do
      let (r, s) ← step c s
      let (rs, s) ← runCalls step cs s
      some (r :: rs, s)

end MeuOS.Ucrt
