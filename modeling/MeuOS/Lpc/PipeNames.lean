import MeuOS.Lpc.Pipe
import MeuOS.Ob.NamespaceLaws

/-! Names of pipes. All spellings come down to one, in a buffer of 64 bytes, and the object
manager tells the pipes apart by what is in it. -/
namespace MeuOS.Lpc

open MeuOS.Lib MeuOS.Ob

/-- `starts_with_ci`; no prefix has the terminator in it. -/
def startsWithCi : List UInt8 → List UInt8 → Bool
  | _, [] => true
  | [], _ :: _ => false
  | s :: ss, p :: ps => if lower s ≠ lower p then false else startsWithCi ss ps

def winPrefix : List UInt8 := ascii "\\\\.\\pipe\\"
def devicePrefix : List UInt8 := ascii "\\Device\\NamedPipe\\"
def pipePrefix : List UInt8 := ascii "\\Pipe\\"

/-- `tail` of `pipe_normalize_name`. -/
def pipeTail (name : List UInt8) : List UInt8 :=
  if startsWithCi name winPrefix then name.drop 9
  else if startsWithCi name devicePrefix then name.drop 18
  else if startsWithCi name pipePrefix then name.drop 6
  else name

/-- The string in `out`; `none` is the null pointer. -/
def pipeNormalizeName (name : Option (List UInt8)) (outcap : Int) : List UInt8 :=
  match name with
  | none => []
  | some name =>
      let room := (outcap - 1).toNat
      let o := pipePrefix.take room
      o ++ (pipeTail name).take (room - o.length)

section Spellings

variable {name p q N : List UInt8}

theorem startsWithCi_iff : startsWithCi name p = true ↔ (name.take p.length).map lower = p.map lower := by
  induction p generalizing name with
  | nil => simp [startsWithCi]
  | cons c p ih =>
    cases name with
    | nil => simp [startsWithCi]
    | cons s name =>
      unfold startsWithCi
      rw [List.length_cons, List.take_succ_cons, List.map_cons, List.map_cons, List.cons.injEq]
      by_cases hc : lower s = lower c
      · rw [if_neg (not_not_intro hc), and_iff_right hc]
        exact ih
      · rw [if_pos hc]
        exact iff_of_false Bool.false_ne_true fun hboth => hc hboth.1

/-- A prefix in any letter case. -/
theorem startsWithCi_append (h : sameName q p = true) : startsWithCi (q ++ N) p = true := by
  have hlen := sameName_length h
  rw [startsWithCi_iff, ← hlen, List.take_left']
  · exact beq_iff_eq.1 h
  · rfl

/-- No string starts with two prefixes that differ where both have characters. -/
theorem not_startsWithCi (p' : List UInt8) (hle : p.length ≤ p'.length)
    (hne : (p'.map lower).take p.length ≠ p.map lower) (h : startsWithCi name p = true) :
    startsWithCi name p' = false := by
  rw [Bool.eq_false_iff]
  intro h'
  rw [startsWithCi_iff] at h h'
  apply hne
  rw [← h', ← List.map_take, List.take_take, Nat.min_eq_left hle]
  exact h

theorem pipeTail_win (h : sameName q winPrefix = true) : pipeTail (q ++ N) = N := by
  have hlen : q.length = 9 := sameName_length h
  unfold pipeTail
  rw [if_pos (startsWithCi_append h), ← hlen, List.drop_left]

theorem pipeTail_device (h : sameName q devicePrefix = true) : pipeTail (q ++ N) = N := by
  have hlen : q.length = 18 := sameName_length h
  have hstarts : startsWithCi (q ++ N) devicePrefix = true := startsWithCi_append h
  have hwin : startsWithCi (q ++ N) winPrefix = false := by
    rw [Bool.eq_false_iff]
    intro hboth
    have hother := not_startsWithCi devicePrefix (by decide) (by decide) hboth
    rw [hstarts] at hother
    cases hother
  unfold pipeTail
  rw [if_neg (by rw [hwin]; decide), if_pos hstarts, ← hlen, List.drop_left]

theorem pipeTail_pipe (h : sameName q pipePrefix = true) : pipeTail (q ++ N) = N := by
  have hlen : q.length = 6 := sameName_length h
  have hstarts : startsWithCi (q ++ N) pipePrefix = true := startsWithCi_append h
  have hwin := not_startsWithCi winPrefix (by decide) (by decide) hstarts
  have hdevice := not_startsWithCi devicePrefix (by decide) (by decide) hstarts
  unfold pipeTail
  rw [if_neg (by rw [hwin]; decide), if_neg (by rw [hdevice]; decide), if_pos hstarts, ← hlen,
    List.drop_left]

theorem sameName_refl (l : List UInt8) : sameName l l = true := beq_self_eq_true _

/-- The spellings of `N`; one of them is the bare name, if no prefix is in front of it. -/
inductive Spells (N : List UInt8) : List UInt8 → Prop
  | win {q : List UInt8} (h : sameName q winPrefix = true) : Spells N (q ++ N)
  | device {q : List UInt8} (h : sameName q devicePrefix = true) : Spells N (q ++ N)
  | pipe {q : List UInt8} (h : sameName q pipePrefix = true) : Spells N (q ++ N)
  | bare (hwin : startsWithCi N winPrefix = false) (hdevice : startsWithCi N devicePrefix = false)
      (hpipe : startsWithCi N pipePrefix = false) : Spells N N

theorem Spells.tail (h : Spells N name) : pipeTail name = N := by
  cases h with
  | win h => exact pipeTail_win h
  | device h => exact pipeTail_device h
  | pipe h => exact pipeTail_pipe h
  | bare hwin hdevice hpipe =>
    unfold pipeTail
    rw [if_neg (by rw [hwin]; decide), if_neg (by rw [hdevice]; decide), if_neg (by rw [hpipe]; decide)]

/-- All spellings are one string. -/
theorem pipeNormalizeName_spells {name' : List UInt8} (h : Spells N name) (h' : Spells N name')
    (outcap : Int) : pipeNormalizeName (some name) outcap = pipeNormalizeName (some name') outcap := by
  unfold pipeNormalizeName
  dsimp only
  rw [h.tail, h'.tail]

theorem pipeNormalizeName_idem (name : List UInt8) (outcap : Int) :
    pipeNormalizeName (some (pipeNormalizeName (some name) outcap)) outcap =
      pipeNormalizeName (some name) outcap := by
  have hsix : pipePrefix.length = 6 := rfl
  unfold pipeNormalizeName
  dsimp only
  by_cases hroom : 6 ≤ (outcap - 1).toNat
  · rw [List.take_of_length_le (hsix ▸ hroom), pipeTail_pipe (sameName_refl _), List.take_take,
      Nat.min_self]
  · have hfull : (outcap - 1).toNat - (pipePrefix.take (outcap - 1).toNat).length = 0 := by
      rw [List.length_take, hsix]
      omega
    rw [hfull, List.take_zero, List.take_zero, List.append_nil]

end Spellings

/-! ## The calls -/

/-- `OB_TYPE_PIPE`. -/
def obTypePipe : UInt32 := 8

/-- `sizeof(PIPE_OBJECT)`. -/
def pipeObject : Nat := 4184

theorem pipeNormalizeName_terminated (n : CString) (outcap : Int) :
    0 ∉ pipeNormalizeName (some n.chars) outcap := by
  have hpfx : 0 ∉ pipePrefix := by decide
  have htail : ∀ c ∈ pipeTail n.chars, c ∈ n.chars := fun c hc => by
    unfold pipeTail at hc
    split at hc
    · exact List.mem_of_mem_drop hc
    · split at hc
      · exact List.mem_of_mem_drop hc
      · split at hc
        · exact List.mem_of_mem_drop hc
        · exact hc
  intro h
  rcases List.mem_append.1 h with h | h
  · exact hpfx (List.mem_of_mem_take h)
  · exact n.terminated (htail 0 (List.mem_of_mem_take h))

/-- `full`, a buffer of 64 bytes. -/
def pipeName (n : CString) : CString :=
  ⟨pipeNormalizeName (some n.chars) 64, pipeNormalizeName_terminated n 64⟩

/-- `made` are the pipes so far, with the names their creators gave. -/
structure NpWorld where
  ns : NsWorld
  pipes : Nat → Pipe
  made : List (CString × Nat)

/-- `hdr` is what `kmalloc` answers. -/
def pipeCreate (w : NpWorld) (hdr : Nat) (name : CString) : Nat × NpWorld :=
  let full := pipeName name
  if obLookupObject w.ns.ob full ≠ 0 then (0, w)
  else
    let p := (obCreateObject w.ns.ob hdr obTypePipe.toNat pipeObject (some full.chars)).2
    let ns := nsStep w.ns (.create hdr obTypePipe pipeObject (some full))
    if p = 0 then (0, { w with ns := ns })
    else
      (p, { ns := ns
            pipes := Function.update w.pipes p (newPipe full.chars)
            made := w.made ++ [(name, p)] })

def pipeOpen (w : NpWorld) (name : CString) : Nat × NpWorld :=
  let body := obLookupObject w.ns.ob (pipeName name)
  if body = 0 ∨ objType w.ns.ob.mem body ≠ obTypePipe.toNat then (0, w)
  else (body, { w with pipes := Function.update w.pipes body (pipeOpened (w.pipes body)) })

inductive NpOp
  | create (hdr : Nat) (name : CString)
  | opened (name : CString)
  /-- Other objects, and stores outside the headers. -/
  | other (op : NsOp)

def npAllowed (w : NpWorld) : NpOp → Prop
  | .create hdr _ => hdr = 0 ∨ Fresh (w.ns.created.map Created.body) hdr pipeObject
  | .opened _ => True
  | .other op => nsAllowed w.ns op

def npStep (w : NpWorld) : NpOp → NpWorld
  | .create hdr name => (pipeCreate w hdr name).2
  | .opened name => (pipeOpen w name).2
  | .other op => { w with ns := nsStep w.ns op }

def NpStart (w : NpWorld) : Prop := NsStart w.ns ∧ w.made = []

def NpStep (w : NpWorld) (op : NpOp) (w' : NpWorld) : Prop := npAllowed w op ∧ w' = npStep w op

/-- The name fits behind the prefix. -/
def FitsPipe (n : CString) : Prop := (pipeTail n.chars).length ≤ 57

/-- One pipe, whatever the spelling and the letter case. -/
def samePipe (a b : CString) : Bool := sameName (pipeTail a.chars) (pipeTail b.chars)

/-- Names fit; a new pipe gets a block and a place in the namespace; and no other object takes a
name that a pipe could have. -/
def NpStepOk (w : NpWorld) : NpOp → Prop
  | .create hdr name => FitsPipe name ∧
      (obLookupObject w.ns.ob (pipeName name) = 0 → hdr ≠ 0 ∧ w.ns.ob.sNamed.length < maxNamed)
  | .opened name => FitsPipe name
  | .other (.create _ _ _ (some n)) => startsWithCi n.chars pipePrefix = false
  | .other _ => True

/-- What servers and clients count on. -/
structure PipesFound (w : NpWorld) : Prop where
  created : ∀ hdr name, NpStepOk w (.create hdr name) →
    ((pipeCreate w hdr name).1 ≠ 0 ↔ ∀ p ∈ w.made, samePipe p.1 name = false)
  opened : ∀ name, NpStepOk w (.opened name) → ∀ p ∈ w.made, samePipe p.1 name = true →
    (pipeOpen w name).1 = p.2
  missing : ∀ name, NpStepOk w (.opened name) → (∀ p ∈ w.made, samePipe p.1 name = false) →
    (pipeOpen w name).1 = 0

section Fits

variable {a b : CString}

theorem FitsPipe.full (h : FitsPipe a) : (pipeName a).chars = pipePrefix ++ pipeTail a.chars := by
  have hroom : ((64 : Int) - 1).toNat - (pipePrefix.take ((64 : Int) - 1).toNat).length = 57 := by decide
  change pipePrefix.take ((64 : Int) - 1).toNat ++ (pipeTail a.chars).take _ = _
  rw [hroom, List.take_of_length_le h]
  rfl

theorem FitsPipe.length_le (h : FitsPipe a) : (pipeName a).chars.length ≤ 63 := by
  have hsix : pipePrefix.length = 6 := rfl
  rw [h.full, List.length_append, hsix]
  unfold FitsPipe at h
  omega

/-- Names that fit are told apart in full. -/
theorem sameName_full (ha : FitsPipe a) (hb : FitsPipe b) :
    sameName (pipeName a).chars (pipeName b).chars = samePipe a b := by
  rw [ha.full, hb.full]
  unfold samePipe sameName
  rw [List.map_append, List.map_append, Bool.eq_iff_iff, beq_iff_eq, beq_iff_eq, List.append_cancel_left_eq]

theorem starts_full (h : FitsPipe a) : startsWithCi (pipeName a).chars pipePrefix = true := by
  rw [h.full]
  exact startsWithCi_append (sameName_refl _)

/-- The letter case does not matter to the prefix. -/
theorem startsWithCi_congr {l l' p : List UInt8} (h : sameName l l' = true) :
    startsWithCi l p = startsWithCi l' p := by
  rw [Bool.eq_iff_iff, startsWithCi_iff, startsWithCi_iff, List.map_take, List.map_take, beq_iff_eq.1 h]

theorem startsWithCi_take {l p : List UInt8} {n : Nat} (hle : p.length ≤ n) :
    startsWithCi (l.take n) p = startsWithCi l p := by
  rw [Bool.eq_iff_iff, startsWithCi_iff, startsWithCi_iff, List.take_take, Nat.min_eq_left hle]

end Fits

/-! ## One step -/

/-- The pipes are the objects whose names start as names of pipes do, all of them can be found,
and no two have one name. -/
structure NpInv (w : NpWorld) : Prop where
  ns : NsInv w.ns
  fits : ∀ p ∈ w.made, FitsPipe p.1
  recorded : ∀ p ∈ w.made, ∃ o ∈ (w.ns.created.filter Created.named).take maxNamed,
    o.body = p.2 ∧ o.name = some (pipeName p.1)
  only : ∀ o ∈ w.ns.created, startsWithCi o.stored pipePrefix = true →
    ∃ p ∈ w.made, o.body = p.2 ∧ o.type = obTypePipe ∧ o.name = some (pipeName p.1)
  apart : w.made.Pairwise fun p q => samePipe p.1 q.1 = false

section Step

variable {w w' : NpWorld} {name : CString} {hdr : Nat}

theorem stored_pipe {o : Created} {n : CString} (h : o.name = some (pipeName n)) (hfit : FitsPipe n) :
    o.stored = (pipeName n).chars := by
  unfold Created.stored
  rw [(Created.hasName_of_name h).2, List.take_of_length_le hfit.length_le]

/-- The lookup finds the one pipe of that name. -/
theorem NpInv.lookup (h : NpInv w) (hfit : FitsPipe name) :
    (∃ p ∈ w.made, samePipe p.1 name = true ∧ obLookupObject w.ns.ob (pipeName name) = p.2 ∧ p.2 ≠ 0 ∧
      objType w.ns.ob.mem p.2 = obTypePipe.toNat) ∨
    (∀ p ∈ w.made, samePipe p.1 name = false) ∧ obLookupObject w.ns.ob (pipeName name) = 0 := by
  rw [obLookupObject_eq h.ns]
  cases hfind : ((w.ns.created.filter Created.named).take maxNamed).find? fun o =>
      sameName o.stored (pipeName name).chars with
  | none =>
    refine .inr ⟨fun p hp => ?_, rfl⟩
    obtain ⟨o, ho, -, hname⟩ := h.recorded p hp
    have hmiss := List.find?_eq_none.1 hfind o ho
    rw [stored_pipe hname (h.fits p hp), sameName_full (h.fits p hp) hfit] at hmiss
    exact Bool.eq_false_iff.2 hmiss
  | some o =>
    have hsame : sameName o.stored (pipeName name).chars = true := by
      simpa using List.find?_some hfind
    have ho := (List.mem_filter.1 (List.mem_of_mem_take (List.mem_of_find?_eq_some hfind))).1
    have hstarts : startsWithCi o.stored pipePrefix = true := by
      rw [startsWithCi_congr hsame]
      exact starts_full hfit
    obtain ⟨p, hp, hbody, htype, hname⟩ := h.only o ho hstarts
    rw [stored_pipe hname (h.fits p hp), sameName_full (h.fits p hp) hfit] at hsame
    have hpos := h.ns.body_pos o ho
    refine .inl ⟨p, hp, hsame, hbody, ?_, ?_⟩
    · rw [← hbody]
      exact Nat.ne_of_gt (Nat.zero_lt_of_lt hpos)
    · rw [← hbody, h.ns.type_eq o ho, htype]

theorem obCreateObject_body (s : ObState) (type bodySize : Nat) (name : Option (List UInt8))
    (hhdr : hdr ≠ 0) : (obCreateObject s hdr type bodySize name).2 = hdr + objectHeader := by
  unfold obCreateObject
  rw [if_neg hhdr]

/-- A name nobody has, with a block for the object. -/
theorem pipeCreate_new (hfree : obLookupObject w.ns.ob (pipeName name) = 0) (hhdr : hdr ≠ 0) :
    pipeCreate w hdr name = (hdr + objectHeader,
      { ns := nsStep w.ns (.create hdr obTypePipe pipeObject (some (pipeName name)))
        pipes := Function.update w.pipes (hdr + objectHeader) (newPipe (pipeName name).chars)
        made := w.made ++ [(name, hdr + objectHeader)] }) := by
  have hne : hdr + objectHeader ≠ 0 := by
    unfold objectHeader
    omega
  unfold pipeCreate
  dsimp only
  rw [if_neg (not_not_intro hfree), obCreateObject_body _ _ _ _ hhdr, if_neg hne]

theorem pipeCreate_found (hfound : obLookupObject w.ns.ob (pipeName name) ≠ 0) :
    pipeCreate w hdr name = (0, w) := if_pos hfound

theorem pipeOpen_ns (w : NpWorld) (name : CString) :
    (pipeOpen w name).2.ns = w.ns ∧ (pipeOpen w name).2.made = w.made := by
  unfold pipeOpen
  dsimp only
  split
  · exact ⟨rfl, rfl⟩
  · exact ⟨rfl, rfl⟩

/-- What is in the array stays there. -/
theorem mem_take_append {α : Type} {l l' : List α} {n : Nat} {x : α} (h : x ∈ l.take n) :
    x ∈ (l ++ l').take n := by
  rw [List.take_append]
  exact List.mem_append_left _ h

/-- One more object, with a name no pipe could have. -/
theorem NpInv.grow (h : NpInv w) {ns : NsWorld} (hns : NsInv ns) {o : Created}
    (hcreated : ns.created = w.ns.created ++ [o]) (hstored : startsWithCi o.stored pipePrefix = false) :
    NpInv { w with ns := ns } := by
  refine ⟨hns, h.fits, fun p hp => ?_, fun o' ho' hstarts => ?_, h.apart⟩
  · obtain ⟨o', ho', hrest⟩ := h.recorded p hp
    refine ⟨o', ?_, hrest⟩
    dsimp only
    rw [hcreated, List.filter_append]
    exact mem_take_append ho'
  · dsimp only at ho'
    rw [hcreated] at ho'
    rcases List.mem_append.1 ho' with ho' | ho'
    · exact h.only o' ho' hstarts
    · rw [List.mem_singleton.1 ho', hstored] at hstarts
      cases hstarts

theorem NpInv.create (h : NpInv w) (hallowed : npAllowed w (.create hdr name))
    (hok : NpStepOk w (.create hdr name)) : NpInv (pipeCreate w hdr name).2 := by
  obtain ⟨hfit, hroom⟩ := hok
  rcases h.lookup hfit with ⟨p, -, -, hfound, hne, -⟩ | ⟨hnone, hfree⟩
  · rw [pipeCreate_found (hfound ▸ hne)]
    exact h
  · obtain ⟨hhdr, hlt⟩ := hroom hfree
    have hns : NsInv (nsStep w.ns (.create hdr obTypePipe pipeObject (some (pipeName name)))) :=
      nsInv_create h.ns hallowed
    obtain ⟨hcreated, -, -⟩ := nsStep_create w.ns obTypePipe pipeObject (some (pipeName name)) hhdr
    have hnamed : (⟨hdr + objectHeader, obTypePipe, some (pipeName name)⟩ : Created).named = true := by
      rw [Created.named_iff]
      change (pipeName name).chars ≠ []
      rw [hfit.full]
      exact List.cons_ne_nil _ _
    rw [h.ns.named_eq, List.length_map] at hlt
    have htake : ((nsStep w.ns (.create hdr obTypePipe pipeObject
        (some (pipeName name)))).created.filter Created.named).take maxNamed =
          (w.ns.created.filter Created.named).take maxNamed ++
            [⟨hdr + objectHeader, obTypePipe, some (pipeName name)⟩] := by
      rw [hcreated, List.filter_append, List.filter_cons_of_pos hnamed, List.filter_nil, ← record_eq,
        if_pos hlt]
    rw [pipeCreate_new hfree hhdr]
    refine ⟨hns, fun p hp => ?_, fun p hp => ?_, fun o ho hstarts => ?_, ?_⟩
    · rcases List.mem_append.1 hp with hp | hp
      · exact h.fits p hp
      · rw [List.mem_singleton.1 hp]
        exact hfit
    · rw [htake]
      rcases List.mem_append.1 hp with hp | hp
      · obtain ⟨o, ho, hrest⟩ := h.recorded p hp
        exact ⟨o, List.mem_append_left _ ho, hrest⟩
      · rw [List.mem_singleton.1 hp]
        exact ⟨_, List.mem_append_right _ List.mem_cons_self, rfl, rfl⟩
    · rw [hcreated] at ho
      rcases List.mem_append.1 ho with ho | ho
      · obtain ⟨p, hp, hrest⟩ := h.only o ho hstarts
        exact ⟨p, List.mem_append_left _ hp, hrest⟩
      · rw [List.mem_singleton.1 ho]
        exact ⟨(name, hdr + objectHeader), List.mem_append_right _ List.mem_cons_self, rfl, rfl, rfl⟩
    · refine List.pairwise_append.2 ⟨h.apart, List.pairwise_singleton _ _, fun p hp q hq => ?_⟩
      rw [List.mem_singleton.1 hq]
      exact hnone p hp

theorem npStep_inv (h : NpInv w) {op : NpOp} (hok : NpStepOk w op) (hstep : NpStep w op w') :
    NpInv w' := by
  obtain ⟨hallowed, rfl⟩ := hstep
  cases op with
  | create hdr name => exact h.create hallowed hok
  | opened name =>
    obtain ⟨hns, hmade⟩ := pipeOpen_ns w name
    unfold npStep
    refine ⟨by rw [hns]; exact h.ns, ?_, ?_, ?_, by rw [hmade]; exact h.apart⟩
    · rw [hmade]
      exact h.fits
    · rw [hns, hmade]
      exact h.recorded
    · rw [hns, hmade]
      exact h.only
  | other op =>
    cases op with
    | store i v => exact ⟨nsInv_store h.ns hallowed, h.fits, h.recorded, h.only, h.apart⟩
    | create hdr type bodySize n =>
      by_cases hhdr : hdr = 0
      · subst hhdr
        exact h
      · have hns : NsInv (nsStep w.ns (.create hdr type bodySize n)) := nsInv_create h.ns hallowed
        obtain ⟨hcreated, -, -⟩ := nsStep_create w.ns type bodySize n hhdr
        refine h.grow hns hcreated ?_
        cases n with
        | none => rfl
        | some n => exact (startsWithCi_take (by decide)).trans hok

end Step

/-! ## Every run -/

theorem npReach_inv {w : NpWorld} (h : Reach NpStart NpStep NpStepOk w) : NpInv w := by
  refine h.invariant ?_ fun _ _ _ hw hok hstep => npStep_inv hw hok hstep
  rintro w ⟨hstart, hmade⟩
  have hns : NsInv w.ns := nsReach_inv (.start hstart)
  refine ⟨hns, ?_, ?_, ?_, ?_⟩
  · rw [hmade]
    exact List.forall_mem_nil _
  · rw [hmade]
    exact List.forall_mem_nil _
  · rw [hstart.2.2]
    exact List.forall_mem_nil _
  · rw [hmade]
    exact .nil

theorem NpInv.found {w : NpWorld} (h : NpInv w) : PipesFound w where
  created hdr name hok := by
    obtain ⟨hfit, hroom⟩ := hok
    rcases h.lookup hfit with ⟨p, hp, hsame, hfound, hne, -⟩ | ⟨hnone, hfree⟩
    · rw [pipeCreate_found (hfound ▸ hne)]
      exact iff_of_false (not_not_intro rfl) fun hall => Bool.false_ne_true ((hall p hp).symm.trans hsame)
    · rw [pipeCreate_new hfree (hroom hfree).1]
      refine iff_of_true ?_ hnone
      unfold objectHeader
      omega
  opened name hfit p hp hsame := by
    rcases h.lookup hfit with ⟨q, hq, hsame', hfound, hne, htype⟩ | ⟨hnone, -⟩
    · have hpq : p = q := by
        by_contra hne
        -- both would be that pipe, and no two pipes are one
        have hsymm : Std.Symm fun p q : CString × Nat => samePipe p.1 q.1 = false :=
          ⟨fun p q hpq => by
            unfold samePipe sameName at hpq ⊢
            rw [beq_eq_false_iff_ne] at hpq ⊢
            exact hpq.symm⟩
        have hapart := h.apart.forall hp hq hne
        unfold samePipe sameName at hapart hsame hsame'
        rw [beq_iff_eq] at hsame hsame'
        rw [hsame, hsame', beq_self_eq_true] at hapart
        cases hapart
      unfold pipeOpen
      dsimp only
      rw [hfound, if_neg (by rw [not_or, not_not]; exact ⟨hne, htype⟩), hpq]
    · exact absurd hsame (by rw [hnone p hp]; exact Bool.false_ne_true)
  missing name hfit hnone := by
    rcases h.lookup hfit with ⟨p, hp, hsame, -⟩ | ⟨-, hfree⟩
    · exact absurd hsame (by rw [hnone p hp]; exact Bool.false_ne_true)
    · unfold pipeOpen
      dsimp only
      rw [hfree, if_pos (.inl rfl)]

/-- Names have one normal form, and while they fit into it and all pipes get their place, a name
is a pipe. -/
theorem pipe_names (w : NpWorld) (h : Reach NpStart NpStep NpStepOk w) :
    (∀ name outcap, pipeNormalizeName (some (pipeNormalizeName (some name) outcap)) outcap =
      pipeNormalizeName (some name) outcap) ∧
    (∀ N name name' outcap, Spells N name → Spells N name' →
      pipeNormalizeName (some name) outcap = pipeNormalizeName (some name') outcap) ∧
    PipesFound w :=
  ⟨pipeNormalizeName_idem, fun _ _ _ outcap h h' => pipeNormalizeName_spells h h' outcap,
    (npReach_inv h).found⟩

def npBooted : NpWorld := ⟨filesCreated 0, fun _ => newPipe [], []⟩

/-- The pipe `name`, with its object at 208. -/
def onePipe (name : CString) : NpWorld := (pipeCreate npBooted 128 name).2

theorem onePipe_allowed (name : CString) : npAllowed npBooted (.create 128 name) :=
  .inr ⟨by decide, List.forall_mem_nil _⟩

/-- `A`, and how a client may write it. -/
theorem pipeA_terminated : 0 ∉ ([65] : List UInt8) := by decide

def pipeA : CString := ⟨[65], pipeA_terminated⟩
def pipeA' : CString := ⟨ascii "\\\\.\\PIPE\\a", by decide⟩

theorem pipe_names_one : (pipeOpen (onePipe pipeA) pipeA').1 = 208 := by
  have hreach : Reach NpStart NpStep NpStepOk (onePipe pipeA) := by
    refine .step (a := .create 128 pipeA) (.start (s := npBooted) ⟨⟨rfl, rfl, rfl⟩, rfl⟩) ?_
      ⟨onePipe_allowed _, rfl⟩
    exact ⟨by unfold FitsPipe; decide, fun _ => ⟨by decide, by decide⟩⟩
  have hmade : (pipeA, 208) ∈ (onePipe pipeA).made := List.mem_cons_self
  exact (pipe_names _ hreach).2.2.opened pipeA' (show FitsPipe pipeA' by unfold FitsPipe; decide) _ hmade
    (by decide)

/-- 57 times `A`, and one more character. -/
def longName (c : UInt8) (h : c ≠ 0) : CString :=
  ⟨List.replicate 57 65 ++ [c], by simpa using Ne.symm h⟩

/-- Two long names are one pipe. -/
theorem pipes_mixed_up : ∃ w, Reach NpStart NpStep (fun _ _ => True) w ∧
    w.made = [(longName 66 (by decide), 208)] ∧
    samePipe (longName 66 (by decide)) (longName 67 (by decide)) = false ∧
    (pipeCreate w 8192 (longName 67 (by decide))).1 = 0 ∧
    (pipeOpen w (longName 67 (by decide))).1 = 208 := by
  have hreach : Reach NpStart NpStep (fun _ _ => True) (onePipe (longName 66 (by decide))) :=
    .step (a := .create 128 (longName 66 (by decide))) (.start (s := npBooted) ⟨⟨rfl, rfl, rfl⟩, rfl⟩)
      trivial ⟨onePipe_allowed _, rfl⟩
  have hcreate : (pipeCreate (onePipe (longName 66 (by decide))) 8192 (longName 67 (by decide))).1 = 0 := by
    decide +kernel
  have hopen : (pipeOpen (onePipe (longName 66 (by decide))) (longName 67 (by decide))).1 = 208 := by
    decide +kernel
  exact ⟨_, hreach, rfl, by decide, hcreate, hopen⟩

end MeuOS.Lpc
