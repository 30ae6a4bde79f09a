import MeuOS.Ucrt.Streams

/-! The runtime serves as many independent streams as long as only the console is pushed back to, with
the slot empty, and scanned. -/
namespace MeuOS.Ucrt

/-- The slot holds a character or -1. -/
def Console.Ok (s : Console) : Prop := -1 ≤ s.unget

/-- The streams that a state of the runtime stands for. -/
def Stdio.streams (s : Stdio) : Streams where
  bytes := fun x =>
    match x with
    | none => s.console.content
    | some h => s.files h
  eof := s.eof

/-- Whether the pushback slot is only used where it can serve, and the size of a block fits its types. -/
def Fair (s : Stdio) : Call → Prop
  | .fread sz n f => sz * n < if (fileOf f).isSome then 2 ^ 32 else 2 ^ 64
  | .ungetc c f => fileOf f = none ∧ s.console.unget < 0 ∧ -1 ≤ c
  | .scanf _ _ f => fileOf f = none
  | _ => True

/-- Every call of a run is fair in the state it is made in. -/
def FairRun : List Call → Stdio → Prop
  | [], _ => True
  | c :: cs, s => Fair s c ∧ ∀ r s', ucrtCall c s = some (r, s') → FairRun cs s'

section Scanner

variable {s s' : Console} {c : Int}

/-- Only the content of the console decides what is read, and what is left. -/
theorem ucrtSgetc_eq (h : s.Ok) : ucrtSgetc s =
    match s.content with
    | [] => none
    | b :: bytes => some ((b : Int), ⟨-1, bytes⟩) := by
  obtain ⟨unget, bytes⟩ := s
  unfold ucrtSgetc Console.content
  by_cases hunget : 0 ≤ unget
  · rw [if_pos hunget, if_pos hunget]
    dsimp only
    rw [Int.toNat_of_nonneg hunget]
  · have hnone : unget = -1 := by
      have hok : -1 ≤ unget := h
      omega
    subst hnone
    cases bytes <;> simp only [if_neg hunget]

theorem ucrtSgetc_ok (h : s.Ok) (hget : ucrtSgetc s = some (c, s')) : 0 ≤ c ∧ s'.Ok := by
  rw [ucrtSgetc_eq h] at hget
  split at hget
  · cases hget
  · cases hget
    exact ⟨Int.natCast_nonneg _, Int.le_refl _⟩

theorem ucrtSgetc_same (h : s.Ok) (h' : s'.Ok) (hsame : s.content = s'.content) : ucrtSgetc s = ucrtSgetc s' := by
  rw [ucrtSgetc_eq h, ucrtSgetc_eq h', hsame]

theorem ucrtSungetc_ok (hc : 0 ≤ c) (s : Console) : (ucrtSungetc c s).Ok := by
  change -1 ≤ c
  omega

theorem skipWs_same (h : ucrtSgetc s = ucrtSgetc s') : skipWs s = skipWs s' := by
  unfold skipWs
  rw [h]

theorem skipWs_ok (h : s.Ok) (hskip : skipWs s = some (c, s')) : 0 ≤ c ∧ s'.Ok := by
  fun_induction skipWs s with
  | case1 => cases hskip
  | case2 s d t hget hws ih => exact ih (ucrtSgetc_ok h hget).2 hskip
  | case3 s d t hget hws =>
    cases hskip
    exact ucrtSgetc_ok h hget

theorem scanDigits_ok {base : Nat} {val : BitVec 64} {got : Bool} {d : Int} {r : BitVec 64 × Bool × Int × Console}
    (h : s.Ok) (hd : 0 ≤ d) (hscan : scanDigits base val got d s = some r) : 0 ≤ r.2.2.1 ∧ r.2.2.2.Ok := by
  fun_induction scanDigits base val got d s with
  | case1 =>
    cases hscan
    exact ⟨hd, h⟩
  | case2 => cases hscan
  | case3 val got d s k hk c' t hget ih => exact ih (ucrtSgetc_ok h hget).2 (ucrtSgetc_ok h hget).1 hscan

theorem scanWord_ok {width : Int} {word : List Nat} {d : Int} {r : List Nat × Int × Console}
    (h : s.Ok) (hd : 0 ≤ d) (hscan : scanWord width word d s = some r) : 0 ≤ r.2.1 ∧ r.2.2.Ok := by
  fun_induction scanWord width word d s with
  | case1 => cases hscan
  | case2 word d s hmore c' t hget ih => exact ih (ucrtSgetc_ok h hget).2 (ucrtSgetc_ok h hget).1 hscan
  | case3 =>
    cases hscan
    exact ⟨hd, h⟩

theorem store_input {suppress : Bool} {bytes args : List Nat} {r : Scanned} (h : store suppress bytes args s = some r) :
    r.input = s := by
  unfold store at h
  split at h
  · cases h
    rfl
  · split at h
    · cases h
    · cases h
      rfl

theorem scanConv_ok {spec : ScanSpec} {conv : Nat} {args : List Nat} {r : Scanned} (h : s.Ok)
    (hscan : scanConv spec conv args s = some r) : r.input.Ok := by
  unfold scanConv at hscan
  split at hscan
  · obtain ⟨⟨c, t⟩, hget, hscan⟩ := Option.bind_eq_some_iff.mp hscan
    have hok := (ucrtSgetc_ok h hget).2
    dsimp only at hscan
    split at hscan
    · cases hscan
      exact hok
    · rwa [store_input hscan]
  split at hscan
  · obtain ⟨⟨c, t⟩, hskip, hscan⟩ := Option.bind_eq_some_iff.mp hscan
    obtain ⟨⟨word, c', t'⟩, hword, hscan⟩ := Option.bind_eq_some_iff.mp hscan
    obtain ⟨q, hstore, hq⟩ := Option.bind_eq_some_iff.mp hscan
    cases hq
    obtain ⟨hc, hok⟩ := skipWs_ok h hskip
    change q.input.Ok
    rw [store_input hstore]
    exact ucrtSungetc_ok (scanWord_ok hok hc hword).1 _
  split at hscan
  · obtain ⟨⟨c, t⟩, hskip, hscan⟩ := Option.bind_eq_some_iff.mp hscan
    obtain ⟨hc, hok⟩ := skipWs_ok h hskip
    obtain ⟨⟨c', t'⟩, hsign, hscan⟩ := Option.bind_eq_some_iff.mp hscan
    have hnext : 0 ≤ c' ∧ t'.Ok := by
      unfold scanSign at hsign
      split at hsign
      · exact ucrtSgetc_ok hok hsign
      · cases hsign
        exact ⟨hc, hok⟩
    obtain ⟨⟨val, got, d, t''⟩, hdigits, hscan⟩ := Option.bind_eq_some_iff.mp hscan
    have hend := ucrtSungetc_ok (scanDigits_ok hnext.2 hnext.1 hdigits).1 t''
    dsimp only at hscan
    split at hscan
    · rwa [store_input hscan]
    · cases hscan
      exact hend
  split at hscan
  · obtain ⟨⟨c, t⟩, hget, hscan⟩ := Option.bind_eq_some_iff.mp hscan
    obtain ⟨hc, hok⟩ := ucrtSgetc_ok h hget
    dsimp only at hscan
    split at hscan
    · cases hscan
      exact hok
    · cases hscan
      exact ucrtSungetc_ok hc t
  · cases hscan
    exact h

/-- A conversion reads first, or it is unknown and ends the scan. -/
theorem scanConv_same (hget : ucrtSgetc s = ucrtSgetc s') (spec : ScanSpec) (conv : Nat) (args : List Nat) :
    scanConv spec conv args s = scanConv spec conv args s' ∨
      ∀ t, scanConv spec conv args t = some ⟨false, 0, [], args, t⟩ := by
  by_cases hconv : conv = 0x63 ∨ conv = 0x73 ∨
      (conv = 0x64 ∨ conv = 0x69 ∨ conv = 0x75 ∨ conv = 0x78 ∨ conv = 0x58) ∨ conv = 0x25
  · left
    unfold scanConv
    rw [hget, skipWs_same hget]
    split_ifs <;> first | rfl | omega
  · right
    intro t
    unfold scanConv
    rw [if_neg (by omega), if_neg (by omega), if_neg (by omega), if_neg (by omega)]

theorem vfscanfFrom_ok {fmt args : List Nat} {r : Nat × List Write × Console} (h : s.Ok)
    (hscan : vfscanfFrom fmt args s = some r) : r.2.2.Ok := by
  fun_induction vfscanfFrom fmt args s generalizing r with
  | case1 =>
    cases hscan
    exact h
  | case2 f p args s hws ih =>
    obtain ⟨⟨c, t⟩, hskip, hscan⟩ := Option.bind_eq_some_iff.mp hscan
    exact ih c t (ucrtSungetc_ok (skipWs_ok h hskip).1 t) hscan
  | case3 f p args s hws hlit ih =>
    obtain ⟨⟨c, t⟩, hget, hscan⟩ := Option.bind_eq_some_iff.mp hscan
    obtain ⟨hc, hok⟩ := ucrtSgetc_ok h hget
    dsimp only at hscan
    split at hscan
    · cases hscan
      exact ucrtSungetc_ok hc t
    · exact ih t hok hscan
  | case4 =>
    cases hscan
    exact h
  | case5 f p args s hws hlit conv rest hspec ih =>
    obtain ⟨q, hconv, hscan⟩ := Option.bind_eq_some_iff.mp hscan
    have hok := scanConv_ok h hconv
    split at hscan
    · obtain ⟨⟨n, writes, t⟩, hrest, hscan⟩ := Option.bind_eq_some_iff.mp hscan
      cases hscan
      have hend := ih q hok hrest
      exact hend
    · cases hscan
      exact hok

/-- A scan of the console depends on its content, and leaves a content. -/
theorem vfscanfFrom_same (h : s.Ok) (h' : s'.Ok) (hsame : s.content = s'.content) (fmt args : List Nat) :
    (vfscanfFrom fmt args s).map (fun r => (r.1, r.2.1, r.2.2.content)) =
      (vfscanfFrom fmt args s').map fun r => (r.1, r.2.1, r.2.2.content) := by
  have hget := ucrtSgetc_same h h' hsame
  cases fmt with
  | nil =>
    unfold vfscanfFrom
    simp only [Option.map_some, hsame]
  | cons f p =>
    unfold vfscanfFrom
    split
    · rw [skipWs_same hget]
    split
    · rw [hget]
    split
    · simp only [Option.map_some, hsame]
    · rename_i conv rest heq
      rcases scanConv_same hget (readScanSpec p).1 conv args with hconv | hconv
      · rw [hconv]
      · rw [hconv, hconv]
        simp [hsame]

end Scanner

/-- What the runtime gives is what the streams give. -/
structure Follows {α : Type} (r : Option (α × Stdio)) (t : Option (α × Streams)) : Prop where
  ok : ∀ q, r = some q → q.2.console.Ok
  same : r.map (fun q => (q.1, q.2.streams)) = t

section Calls

variable {α β : Type} {s : Stdio} {f : Option UcrtFile}

theorem Follows.pure (h : s.console.Ok) (a : α) : Follows (some (a, s)) (some (a, s.streams)) where
  ok q hq := by
    cases hq
    exact h
  same := rfl

theorem Follows.bind {r : Option (α × Stdio)} {t : Option (α × Streams)} {k : α × Stdio → Option (β × Stdio)}
    {k' : α × Streams → Option (β × Streams)} (h : Follows r t)
    (hk : ∀ a s, s.console.Ok → Follows (k (a, s)) (k' (a, s.streams))) : Follows (r.bind k) (t.bind k') := by
  obtain ⟨hok, rfl⟩ := h
  cases r with
  | none => exact ⟨nofun, rfl⟩
  | some q => exact hk q.1 q.2 (hok q rfl)

theorem Follows.map {r : Option (α × Stdio)} {t : Option (α × Streams)} (h : Follows r t) (g : α → β) :
    Follows (r.map fun q => (g q.1, q.2)) (t.map fun q => (g q.1, q.2)) := by
  obtain ⟨hok, rfl⟩ := h
  cases r with
  | none => exact ⟨nofun, rfl⟩
  | some q => exact .pure (hok q rfl) (g q.1)

/-- The streams after the console has been read. -/
theorem streams_console (c : Console) : ({ s with console := c } : Stdio).streams = s.streams.put none c.content := by
  unfold Stdio.streams Streams.put
  rw [Streams.mk.injEq]
  refine ⟨funext fun x => ?_, rfl⟩
  cases x with
  | none => rw [Function.update_self]
  | some h => rw [Function.update_of_ne (by exact nofun)]

theorem streams_file (h : Nat) (bytes : List Nat) :
    ({ s with files := Function.update s.files h bytes } : Stdio).streams = s.streams.put (some h) bytes := by
  unfold Stdio.streams Streams.put
  rw [Streams.mk.injEq]
  refine ⟨funext fun x => ?_, rfl⟩
  cases x with
  | none => rw [Function.update_of_ne (by exact nofun)]
  | some k =>
    dsimp only
    by_cases hk : k = h
    · rw [hk, Function.update_self, Function.update_self]
    · rw [Function.update_of_ne hk, Function.update_of_ne fun heq => hk (Option.some.inj heq)]

theorem getchar_follows (h : s.console.Ok) : Follows (ucrtGetchar s) (s.streams.next none) := by
  have hbytes : s.streams.bytes none = s.console.content := rfl
  unfold ucrtGetchar Streams.next
  rw [ucrtSgetc_eq h, hbytes]
  cases s.console.content with
  | nil => exact ⟨nofun, rfl⟩
  | cons b bytes =>
    refine ⟨fun q hq => ?_, ?_⟩
    · cases hq
      exact Int.le_refl _
    · rw [Option.map_some, Option.map_some, streams_console]
      rfl

theorem fgetc_follows (h : s.console.Ok) (f : Option UcrtFile) : Follows (ucrtFgetc f s) (s.streams.next (fileOf f)) := by
  unfold ucrtFgetc
  cases fileOf f with
  | none => exact getchar_follows h
  | some x =>
    have hread : s.streams.bytes (some x) = s.files x := rfl
    unfold Streams.next
    rw [hread]
    dsimp only
    cases s.files x with
    | nil =>
      have hend : ({ s with eof := Function.update s.eof x true } : Stdio).console.Ok := h
      exact .pure hend (-1)
    | cons b bytes =>
      have hrest : ({ s with files := Function.update s.files x bytes } : Stdio).console.Ok := h
      dsimp only
      rw [← streams_file]
      exact .pure hrest (b : Int)

theorem line_follows (k : Nat) (line : List Nat) (h : s.console.Ok) :
    Follows (fgetsLoop f k line s) (Streams.line (fileOf f) k line s.streams) := by
  induction k generalizing line s with
  | zero => exact .pure h _
  | succ k ih =>
    refine (fgetc_follows h f).bind fun c s hs => ?_
    dsimp only
    split
    · exact .pure hs _
    · split
      · exact .pure hs _
      · exact ih _ hs

theorem put_content : s.streams.put none s.console.content = s.streams := by
  unfold Streams.put
  rw [show s.console.content = s.streams.bytes none from rfl, Function.update_eq_self]

/-- The console delivers a block once all of it has been typed. -/
theorem block_follows (k : Nat) (block : List Nat) (h : s.console.Ok) :
    Follows (freadLoop k block s)
      (if s.console.content.length < k then none
        else some (block ++ (s.console.content.take k).map (· % 256), s.streams.put none (s.console.content.drop k))) := by
  induction k generalizing block s with
  | zero =>
    rw [if_neg (Nat.not_lt_zero _), List.take_zero, List.map_nil, List.append_nil, List.drop_zero, put_content]
    exact .pure h block
  | succ k ih =>
    have hget : ucrtGetchar s = match s.console.content with
        | [] => none
        | b :: bytes => some ((b : Int), { s with console := ⟨-1, bytes⟩ }) := by
      unfold ucrtGetchar
      rw [ucrtSgetc_eq h]
      cases s.console.content <;> rfl
    unfold freadLoop
    rw [hget]
    cases hcontent : s.console.content with
    | nil =>
      rw [if_pos (show ([] : List Nat).length < k + 1 from Nat.succ_pos k)]
      exact ⟨nofun, rfl⟩
    | cons b bytes =>
      have hok : ({ s with console := ⟨-1, bytes⟩ } : Stdio).console.Ok := Int.le_refl _
      have hrest := ih (block ++ [b % 256]) hok
      have hbytes : ({ s with console := ⟨-1, bytes⟩ } : Stdio).console.content = bytes := rfl
      have hput : ∀ l, ({ s with console := ⟨-1, bytes⟩ } : Stdio).streams.put none l = s.streams.put none l := by
        intro l
        rw [streams_console]
        unfold Streams.put
        rw [Function.update_idem]
      have hb : ((b : Int) % 256).toNat = b % 256 := by omega
      rw [hbytes, hput] at hrest
      simp only [Option.bind_eq_bind, Option.bind_some]
      rw [if_neg (by omega), hb, List.length_cons, List.take_succ_cons, List.map_cons, List.drop_succ_cons]
      simp only [Nat.add_lt_add_iff_right]
      rwa [List.append_assoc, List.singleton_append] at hrest

theorem fread_follows {sz n : Nat} (h : s.console.Ok) (hfair : Fair s (.fread sz n f)) :
    Follows (ucrtCall (.fread sz n f) s) (Streams.serve (.fread sz n f) s.streams) := by
  have hsize : sz * n < if (fileOf f).isSome then 2 ^ 32 else 2 ^ 64 := hfair
  have hfits : sz * n < 2 ^ 64 := by split at hsize <;> omega
  simp only [ucrtCall, Streams.serve, ucrtFread, Streams.block, Nat.mod_eq_of_lt hfits]
  cases hf : fileOf f with
  | none =>
    have hblock := (block_follows (sz * n) [] h).map fun block =>
      Reply.block (if sz = 0 then 0 else block.length / sz) block
    have hbytes : s.streams.bytes none = s.console.content := rfl
    have hshort : ((s.streams.bytes none).take (sz * n)).length < sz * n ↔ s.console.content.length < sz * n := by
      rw [hbytes, List.length_take]
      omega
    simp only [hshort]
    convert hblock using 1
    · cases freadLoop (sz * n) [] s <;> rfl
    · rfl
  | some x =>
    rw [hf] at hsize
    have hbytes : s.streams.bytes (some x) = s.files x := rfl
    refine ⟨fun q hq => ?_, ?_⟩
    · cases hq
      exact h
    · simp only [Nat.mod_eq_of_lt (show sz * n < 2 ^ 32 from hsize), hbytes, Option.map_some, ← streams_file]
      rfl

theorem ungetc_follows {c : Int} (hfair : Fair s (.ungetc c f)) :
    Follows (ucrtCall (.ungetc c f) s) (Streams.serve (.ungetc c f) s.streams) := by
  obtain ⟨hf, hslot, hc⟩ := hfair
  have hcontent : s.console.content = s.console.bytes := if_neg (by omega)
  have hbytes : s.streams.bytes none = s.console.content := rfl
  refine ⟨fun q hq => ?_, ?_⟩
  · cases hq
    exact hc
  · simp only [ucrtCall, Streams.serve, ucrtUngetc, Option.map_some, streams_console, hf, hbytes]
    by_cases hneg : c < 0
    · rw [if_pos hneg, show (ucrtSungetc c s.console).content = s.console.content from
        (if_neg (by change ¬ 0 ≤ c; omega)).trans hcontent.symm, put_content]
    · rw [if_neg hneg, show (ucrtSungetc c s.console).content = c.toNat :: s.console.content from
        (if_pos (by change 0 ≤ c; omega)).trans (congrArg (List.cons c.toNat) hcontent.symm)]

theorem scanf_follows {fmt args : List Nat} (h : s.console.Ok) (hfair : Fair s (.scanf fmt args f)) :
    Follows (ucrtCall (.scanf fmt args f) s) (Streams.serve (.scanf fmt args f) s.streams) := by
  have hf : fileOf f = none := hfair
  have hstart : (⟨-1, s.console.content⟩ : Console).Ok := Int.le_refl _
  have hsame := vfscanfFrom_same h hstart rfl fmt args
  have hbytes : s.streams.bytes none = s.console.content := rfl
  simp only [ucrtCall, Streams.serve, stdioCommonVfscanf, hf, hbytes]
  refine ⟨fun q hq => ?_, ?_⟩
  · obtain ⟨r, hscan, hr⟩ := Option.map_eq_some_iff.mp hq
    cases hr
    exact vfscanfFrom_ok h hscan
  · have hmap := congrArg (Option.map fun r : Nat × List Write × List Nat =>
      (Reply.scanned r.1 r.2.1, s.streams.put none r.2.2)) hsame
    rw [Option.map_map, Option.map_map] at hmap
    rw [Option.map_map]
    refine Eq.trans ?_ hmap
    refine congrArg (fun g => Option.map g (vfscanfFrom fmt args s.console)) (funext fun r => ?_)
    exact congrArg (Prod.mk _) (streams_console r.2.2)

/-- One call. -/
theorem call_follows {c : Call} (h : s.console.Ok) (hfair : Fair s c) :
    Follows (ucrtCall c s) (Streams.serve c s.streams) := by
  cases c with
  | getchar => exact (getchar_follows h).map Reply.char
  | fgetc f => exact (fgetc_follows h f).map Reply.char
  | fgets n f =>
    simp only [ucrtCall, Streams.serve, ucrtFgets]
    split
    · exact .pure h (Reply.line none)
    · exact (line_follows (n - 1).toNat [] h).map Reply.line
  | fread sz n f => exact fread_follows h hfair
  | ungetc c f => exact ungetc_follows hfair
  | scanf fmt args f => exact scanf_follows h hfair

end Calls

/-- Only the stream `x` differs. -/
def OnlyAt (x : Option Nat) (t t' : Streams) : Prop :=
  (∀ y, y ≠ x → t'.bytes y = t.bytes y) ∧ ∀ k, some k ≠ x → t'.eof k = t.eof k

section Apart

variable {x : Option Nat} {t t' t'' : Streams}

theorem OnlyAt.refl (x : Option Nat) (t : Streams) : OnlyAt x t t := ⟨fun _ _ => rfl, fun _ _ => rfl⟩

theorem OnlyAt.trans (h : OnlyAt x t t') (h' : OnlyAt x t' t'') : OnlyAt x t t'' :=
  ⟨fun y hy => (h'.1 y hy).trans (h.1 y hy), fun k hk => (h'.2 k hk).trans (h.2 k hk)⟩

theorem onlyAt_put (bytes : List Nat) : OnlyAt x t (t.put x bytes) :=
  ⟨fun _ hy => Function.update_of_ne hy _ _, fun _ _ => rfl⟩

theorem onlyAt_eof {h : Nat} : OnlyAt (some h) t { t with eof := Function.update t.eof h true } :=
  ⟨fun _ _ => rfl, fun _ hk => Function.update_of_ne (fun heq => hk (congrArg some heq)) _ _⟩

theorem next_onlyAt {c : Int} (h : t.next x = some (c, t')) : OnlyAt x t t' := by
  unfold Streams.next at h
  split at h
  · cases h
    exact onlyAt_put _
  · split at h
    · cases h
    · cases h
      exact onlyAt_eof

theorem line_onlyAt {k : Nat} {line : List Nat} {r : Option (List Nat)} (h : Streams.line x k line t = some (r, t')) :
    OnlyAt x t t' := by
  induction k generalizing line t with
  | zero =>
    cases h
    exact .refl x _
  | succ k ih =>
    obtain ⟨⟨c, u⟩, hnext, hrest⟩ := Option.bind_eq_some_iff.mp h
    have hu := next_onlyAt hnext
    dsimp only at hrest
    split at hrest
    · cases hrest
      exact hu
    · split at hrest
      · cases hrest
        exact hu
      · exact hu.trans (ih hrest)

theorem block_onlyAt {k : Nat} {r : List Nat} (h : t.block x k = some (r, t')) : OnlyAt x t t' := by
  unfold Streams.block at h
  cases x with
  | none =>
    dsimp only at h
    split at h
    · cases h
    · cases h
      exact onlyAt_put _
  | some x =>
    cases h
    have hput := onlyAt_put (x := some x) (t := t) ((t.bytes (some x)).drop k)
    refine ⟨hput.1, fun y hy => ?_⟩
    dsimp only
    split
    · exact onlyAt_eof.2 y hy
    · rfl

/-- A call leaves the streams alone that it is not about. -/
theorem serve_onlyAt {c : Call} {r : Reply} (h : Streams.serve c t = some (r, t')) : OnlyAt c.stream t t' := by
  cases c with
  | getchar =>
    obtain ⟨q, hq, hr⟩ := Option.map_eq_some_iff.mp h
    cases hr
    exact next_onlyAt hq
  | fgetc f =>
    obtain ⟨q, hq, hr⟩ := Option.map_eq_some_iff.mp h
    cases hr
    exact next_onlyAt hq
  | fgets n f =>
    simp only [Streams.serve] at h
    split at h
    · cases h
      exact .refl _ t
    · obtain ⟨q, hq, hr⟩ := Option.map_eq_some_iff.mp h
      cases hr
      exact line_onlyAt hq
  | fread sz n f =>
    obtain ⟨q, hq, hr⟩ := Option.map_eq_some_iff.mp h
    cases hr
    exact block_onlyAt hq
  | ungetc c f =>
    simp only [Streams.serve] at h
    cases h
    split
    · exact .refl _ t
    · exact onlyAt_put _
  | scanf fmt args f =>
    obtain ⟨q, -, hr⟩ := Option.map_eq_some_iff.mp h
    cases hr
    exact onlyAt_put _

end Apart

/-- In a fair run every stream delivers its own bytes: the replies and what is left are those of as many
independent streams, of which a call changes only the one it is about. -/
theorem streams_independent {cs : List Call} {s : Stdio} (hslot : -1 ≤ s.console.unget) (hfair : FairRun cs s) :
    (runCalls ucrtCall cs s).map (fun r => (r.1, r.2.streams)) = runCalls Streams.serve cs s.streams ∧
      ∀ c t r t', Streams.serve c t = some (r, t') → OnlyAt c.stream t t' := by
  refine ⟨?_, fun c t r t' => serve_onlyAt⟩
  induction cs generalizing s with
  | nil => rfl
  | cons c cs ih =>
    obtain ⟨hok, hsame⟩ := call_follows (s := s) hslot hfair.1
    unfold runCalls
    rw [← hsame]
    cases hcall : ucrtCall c s with
    | none => rfl
    | some q =>
      have hrest := ih (hok q hcall) (hfair.2 q.1 q.2 hcall)
      simp only [Option.bind_eq_bind, Option.bind_some, Option.map_some]
      rw [← hrest]
      cases runCalls ucrtCall cs q.2 <;> rfl

/-- "X" at the keyboard and "B" in file 7. -/
def keyboardAndFile : Stdio := ⟨⟨-1, [0x58]⟩, fun _ => [0x42], fun _ => false⟩

def fileSeven : Option UcrtFile := some ⟨-1, 7⟩

theorem streams_independent_turns :
    let cs := [.fgetc fileSeven, .ungetc 0x41 none, .getchar, .scanf [0x20] [] none]
    (runCalls ucrtCall cs keyboardAndFile).map (fun r => (r.1, r.2.streams)) =
      runCalls Streams.serve cs keyboardAndFile.streams ∧
      ∀ c t r t', Streams.serve c t = some (r, t') → OnlyAt c.stream t t' := by
  refine streams_independent (Int.le_refl _) ⟨trivial, fun r s h => ?_⟩
  cases h
  refine ⟨⟨rfl, by decide, by decide⟩, fun r s h => ?_⟩
  cases h
  refine ⟨trivial, fun r s h => ?_⟩
  cases h
  exact ⟨rfl, fun _ _ _ => trivial⟩

/-- A character pushed back to a file is the console's next one; a character that a scan has pushed back is
lost when another is; and a scan of a file reads the console. -/
theorem streams_share_slot :
    let replies := fun cs => (runCalls ucrtCall cs keyboardAndFile).map Prod.fst
    let own := fun cs => (runCalls Streams.serve cs keyboardAndFile.streams).map Prod.fst
    replies [.ungetc 0x41 fileSeven, .fgetc fileSeven] ≠ own [.ungetc 0x41 fileSeven, .fgetc fileSeven] ∧
    replies [.scanf [0x20] [] none, .ungetc 0x41 none, .getchar, .getchar] ≠
      own [.scanf [0x20] [] none, .ungetc 0x41 none, .getchar, .getchar] ∧
    replies [.scanf [0x25, 0x63] [100] fileSeven] ≠ own [.scanf [0x25, 0x63] [100] fileSeven] := by
  have hspace : stdioCommonVfscanf [0x20] [] ⟨-1, [0x58]⟩ = some (0, [], ⟨0x58, []⟩) := by
    simp [stdioCommonVfscanf, vfscanfFrom, skipWs, ucrtSgetc, ucrtSungetc, ucrtIsWs]
  have hchar : ∀ b, stdioCommonVfscanf [0x25, 0x63] [100] ⟨-1, [b]⟩ = some (1, [⟨100, [b % 256]⟩], ⟨-1, []⟩) := by
    intro b
    have hb : ((b : Int) % 256).toNat = b % 256 := by omega
    simp [stdioCommonVfscanf, vfscanfFrom, readScanSpec, readSuppress, readWidth, readLetters, scanConv, ucrtSgetc,
      ucrtIsWs, store, hb, show ¬ (b : Int) < 0 by omega]
  intro replies own
  refine ⟨fun h => ?_, fun h => ?_, fun h => ?_⟩
  · simp [replies, own, runCalls, ucrtCall, Streams.serve, keyboardAndFile, Stdio.streams, Streams.put, ucrtUngetc,
      ucrtSungetc, ucrtFgetc, Streams.next, fileOf, fileSeven] at h
  · simp [replies, own, runCalls, ucrtCall, Streams.serve, hspace, keyboardAndFile, Stdio.streams, Console.content, Streams.put,
      ucrtUngetc, ucrtSungetc, ucrtGetchar, ucrtSgetc, Streams.next, fileOf] at h
  · simp [replies, own, runCalls, ucrtCall, Streams.serve, hchar, keyboardAndFile, Stdio.streams, Console.content,
      fileOf, fileSeven] at h

end MeuOS.Ucrt
