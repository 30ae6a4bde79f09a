import MeuOS.Ob.Namespace

/-! What a name and a type find in every state, and what the creator of an object counts on. -/
namespace MeuOS.Ob

open MeuOS.Lib MeuOS.Ps

/-! ## Names -/

theorem ieq_iff {m : Mem} {a : Nat} {l n : List UInt8} (h : m.Str a l) (hl : 0 ∉ l) (hn : 0 ∉ n) :
    ieq m a n = true ↔ sameName l n = true := by
  unfold sameName
  rw [beq_iff_eq]
  induction n generalizing a l with
  | nil =>
    unfold ieq
    rw [decide_eq_true_iff, List.map_nil, List.map_eq_nil_iff]
    cases l with
    | nil => exact iff_of_true (Mem.str_nil.1 h) rfl
    | cons c l =>
      rw [(Mem.str_cons.1 h).1]
      exact iff_of_false (fun hc => hl (hc ▸ List.mem_cons_self)) (List.cons_ne_nil _ _)
  | cons d n ih =>
    unfold ieq
    cases l with
    | nil =>
      rw [if_pos (Mem.str_nil.1 h), decide_eq_true_iff, Mem.str_nil.1 h]
      exact iff_of_false (fun hd => hn (hd ▸ List.mem_cons_self)) (List.cons_ne_nil _ _).symm
    | cons c l =>
      obtain ⟨hc, hrest⟩ := Mem.str_cons.1 h
      have hc0 : c ≠ 0 := fun h0 => hl (h0 ▸ List.mem_cons_self)
      rw [hc, if_neg hc0, List.map_cons, List.map_cons, List.cons.injEq]
      by_cases hcd : lower c = lower d
      · rw [if_neg (not_not_intro hcd), and_iff_right hcd]
        exact ih hrest (fun hm => hl (List.mem_cons_of_mem _ hm)) fun hm => hn (List.mem_cons_of_mem _ hm)
      · rw [if_pos hcd]
        exact iff_of_false Bool.false_ne_true fun hboth => hcd hboth.1

theorem Created.chars_terminated (o : Created) : 0 ∉ o.chars := by
  unfold Created.chars
  cases o.name with
  | none => exact List.not_mem_nil
  | some n => exact n.terminated

theorem sameName_length {a b : List UInt8} (h : sameName a b = true) : a.length = b.length := by
  have hlen := congrArg List.length (beq_iff_eq.1 h)
  rwa [List.length_map, List.length_map] at hlen

theorem Created.hasName_of_name {o : Created} {n : CString} (h : o.name = some n) :
    o.hasName n = true ∧ o.chars = n.chars := by
  unfold Created.hasName Created.chars
  rw [h]
  exact ⟨beq_self_eq_true _, rfl⟩

theorem Created.hasName_named {o : Created} {n : CString} (hn : o.named = true) :
    o.hasName n = sameName o.chars n.chars := by
  unfold Created.hasName
  have hne := o.named_iff.1 hn
  unfold Created.chars at *
  cases hname : o.name with
  | none => exact absurd (by rw [hname]; rfl) hne
  | some n' => rfl

/-! ## One state -/

section State

variable {s : NsWorld}

/-- The lookup goes through the recorded objects with the names as they are stored. -/
theorem obLookupObject_eq (h : NsInv s) (n : CString) : obLookupObject s.ob n =
    ((((s.created.filter Created.named).take maxNamed).find? fun o =>
      sameName o.stored n.chars).map Created.body).getD 0 := by
  have hall : ∀ o ∈ (s.created.filter Created.named).take maxNamed, o ∈ s.created := fun o ho =>
    (List.mem_filter.1 (List.mem_of_mem_take ho)).1
  unfold obLookupObject
  rw [h.named_eq]
  generalize (s.created.filter Created.named).take maxNamed = l at hall
  induction l with
  | nil => rfl
  | cons o l ih =>
    have hstr := h.name_eq o (hall o List.mem_cons_self)
    have hmatch := ieq_iff hstr (fun h0 => o.chars_terminated (List.mem_of_mem_take h0)) n.terminated
    rw [List.map_cons]
    unfold lookupNamed
    by_cases hsame : sameName o.stored n.chars = true
    · rw [if_pos (hmatch.2 hsame), List.find?_cons, hsame]
      rfl
    · rw [if_neg (fun hieq => hsame (hmatch.1 hieq)), List.find?_cons, Bool.eq_false_iff.2 hsame]
      exact ih fun o' ho' => hall o' (List.mem_cons_of_mem _ ho')

theorem obLookupObject_mem (h : NsInv s) {n : CString} (hfound : obLookupObject s.ob n ≠ 0) :
    ∃ o ∈ s.created, o.named = true ∧ o.body = obLookupObject s.ob n := by
  rw [obLookupObject_eq h] at hfound ⊢
  cases hfind : ((s.created.filter Created.named).take maxNamed).find? fun o =>
      sameName o.stored n.chars with
  | none =>
    rw [hfind] at hfound
    exact absurd rfl hfound
  | some o =>
    obtain ⟨ho, hnamed⟩ := List.mem_filter.1 (List.mem_of_mem_take (List.mem_of_find?_eq_some hfind))
    exact ⟨o, ho, hnamed, rfl⟩

/-- Among bodies, the test of the enumeration is the type the creator gave. -/
theorem typed_iff (h : NsInv s) (type : UInt32) {o : Created} (ho : o ∈ s.created) :
    (o.body ≠ 0 ∧ objType s.ob.mem o.body = type.toNat) ↔ o.type = type := by
  rw [h.type_eq o ho, UInt32.toNat_inj]
  exact and_iff_right (Nat.ne_of_gt (Nat.zero_lt_of_lt (h.body_pos o ho)))

theorem obEnumByType_eq (h : NsInv s) (type : UInt32) (index : Int) : obEnumByType s.ob type index =
    if index < 0 then 0
    else ((((s.created.take maxObjects).filter fun o => o.type == type).map
      Created.body)[index.toNat]?).getD 0 := by
  unfold obEnumByType
  rw [enumLoop_eq _ _ _ _ (Nat.zero_le _), Nat.sub_zero, h.all_eq, List.filter_map]
  have hfilter : (s.created.take maxObjects).filter
      ((fun b => b != 0 && objType s.ob.mem b == type.toNat) ∘ Created.body) =
      (s.created.take maxObjects).filter fun o => o.type == type := by
    refine List.filter_congr fun o ho => ?_
    rw [Bool.eq_iff_iff, Function.comp_apply, Bool.and_eq_true, bne_iff_ne, beq_iff_eq, beq_iff_eq]
    exact typed_iff h type (List.mem_of_mem_take ho)
  rw [hfilter]

theorem obCountByType_eq (h : NsInv s) (type : UInt32) : obCountByType s.ob type =
    (s.created.take maxObjects).countP fun o => o.type == type := by
  unfold obCountByType
  rw [h.all_eq, List.countP_map]
  refine List.countP_congr fun o ho => ?_
  rw [Function.comp_apply, decide_eq_true_iff, beq_iff_eq]
  exact typed_iff h type (List.mem_of_mem_take ho)

/-! What further objects change. -/

section Further

variable {s' : NsWorld} {made : List Created}

theorem obEnumByType_further (h : NsInv s) (h' : NsInv s') (hmade : s'.created = s.created ++ made)
    (type : UInt32) (hother : ∀ o ∈ made, o.type ≠ type) (index : Int) :
    obEnumByType s'.ob type index = obEnumByType s.ob type index := by
  have hnone : (made.take (maxObjects - s.created.length)).filter (fun o => o.type == type) = [] :=
    List.filter_eq_nil_iff.2 fun o ho htype => hother o (List.mem_of_mem_take ho) (beq_iff_eq.1 htype)
  rw [obEnumByType_eq h', obEnumByType_eq h, hmade, List.take_append, List.filter_append, hnone,
    List.append_nil]

theorem obLookupObject_further (h : NsInv s) (h' : NsInv s') (hmade : s'.created = s.created ++ made)
    (hunnamed : ∀ o ∈ made, o.named = false) (n : CString) :
    obLookupObject s'.ob n = obLookupObject s.ob n := by
  have hnone : made.filter Created.named = [] :=
    List.filter_eq_nil_iff.2 fun o ho hnamed => Bool.false_ne_true ((hunnamed o ho).symm.trans hnamed)
  rw [obLookupObject_eq h', obLookupObject_eq h, hmade, List.filter_append, hnone, List.append_nil]

theorem obLookupObject_ne (h : NsInv s) (n : CString) : obLookupObject s.ob n ≠ 0 ↔
    ∃ o ∈ (s.created.filter Created.named).take maxNamed, sameName o.stored n.chars = true := by
  rw [obLookupObject_eq h, ← List.find?_isSome]
  cases hfind : ((s.created.filter Created.named).take maxNamed).find? fun o =>
      sameName o.stored n.chars with
  | none => exact iff_of_false (fun hne => hne rfl) Bool.false_ne_true
  | some o =>
    have ho := (List.mem_filter.1 (List.mem_of_mem_take (List.mem_of_find?_eq_some hfind))).1
    exact iff_of_true (Nat.ne_of_gt (Nat.zero_lt_of_lt (h.body_pos o ho))) rfl

/-- One more name can be seen unless the array is full or the name is somebody's already. -/
theorem obLookupObject_named {o : Created} {name : CString} (h : NsInv s) (h' : NsInv s')
    (hmade : s'.created = s.created ++ [o]) (hnamed : o.named = true) (hname : o.stored = name.chars) :
    (∀ n, obLookupObject s'.ob n = obLookupObject s.ob n) ↔
      maxNamed ≤ s.ob.sNamed.length ∨ obLookupObject s.ob name ≠ 0 := by
  have hlength : maxNamed ≤ s.ob.sNamed.length ↔
      ¬ ((s.created.filter Created.named).take maxNamed).length < maxNamed := by
    rw [h.named_eq, List.length_map, Nat.not_lt]
  have htake : (s'.created.filter Created.named).take maxNamed =
      if ((s.created.filter Created.named).take maxNamed).length < maxNamed then
        (s.created.filter Created.named).take maxNamed ++ [o]
      else (s.created.filter Created.named).take maxNamed := by
    rw [record_eq, hmade, List.filter_append, List.filter_cons_of_pos hnamed, List.filter_nil]
  constructor
  · intro hkept
    refine or_iff_not_imp_left.2 fun hroom => ?_
    rw [hlength, not_not] at hroom
    rw [if_pos hroom] at htake
    rw [← hkept name, obLookupObject_ne h', htake]
    refine ⟨o, List.mem_append_right _ List.mem_cons_self, ?_⟩
    rw [hname]
    exact beq_self_eq_true _
  · intro hhidden n
    rw [obLookupObject_eq h', obLookupObject_eq h, htake]
    by_cases hroom : ((s.created.filter Created.named).take maxNamed).length < maxNamed
    · rw [if_pos hroom, List.find?_append]
      -- whoever asks for the new name asks for the older one
      have holder := hhidden.resolve_left fun hfull => hlength.1 hfull hroom
      obtain ⟨o', ho', hsame⟩ := (obLookupObject_ne h name).1 holder
      cases hfind : ((s.created.filter Created.named).take maxNamed).find? fun o =>
          sameName o.stored n.chars with
      | some _ => rfl
      | none =>
        have hmiss : sameName o.stored n.chars = false := by
          rw [Bool.eq_false_iff]
          intro hn
          refine List.find?_eq_none.1 hfind o' ho' ?_
          unfold sameName at hsame hn ⊢
          rw [beq_iff_eq] at hsame hn ⊢
          rw [hsame, ← hname, hn]
        rw [List.find?_cons, hmiss, List.find?_nil]
        rfl
    · rw [if_neg hroom]

end Further

end State

/-! ## What creators count on -/

/-- The first object of each name is found under it, names nobody gave lead nowhere, and all
objects of a type are listed in the order of their creation. -/
structure NsLaws (s : NsWorld) : Prop where
  found : ∀ pre o post n, s.created = pre ++ o :: post → o.name = some n →
    (∀ o' ∈ pre, o'.hasName n = false) → obLookupObject s.ob n = o.body
  missing : ∀ n : CString, (∀ o ∈ s.created, o.hasName n = false) → obLookupObject s.ob n = 0
  listed : ∀ (type : UInt32) (index : Int), obEnumByType s.ob type index =
    if index < 0 then 0
    else (((s.created.filter fun o => o.type == type).map Created.body)[index.toNat]?).getD 0
  counted : ∀ type : UInt32, obCountByType s.ob type = s.created.countP fun o => o.type == type

/-- New names have 1 to 63 characters and come while there is room for one more; so do all
objects. -/
structure NsRecorded (l : List Created) : Prop where
  names : ∀ pre o post n, l = pre ++ o :: post → o.name = some n →
    (∀ o' ∈ pre, o'.hasName n = false) →
    n.chars ≠ [] ∧ n.chars.length ≤ 63 ∧ (pre.filter Created.named).length < maxNamed
  few : l.length ≤ maxObjects

section Laws

variable {s : NsWorld}

/-- Every name was new once. -/
theorem first_of_name {l : List Created} {n : CString} (h : ∃ o ∈ l, o.hasName n = true) :
    ∃ pre o post n', l = pre ++ o :: post ∧ o.name = some n' ∧ sameName n'.chars n.chars = true ∧
      ∀ o' ∈ pre, o'.hasName n' = false := by
  obtain ⟨o, ho⟩ := Option.isSome_iff_exists.1 (List.find?_isSome.2 h)
  obtain ⟨hname, pre, post, rfl, hpre⟩ := List.find?_eq_some_iff_append.1 ho
  obtain ⟨n', hn', hsame⟩ := (Option.any_eq_true ..).1 hname
  refine ⟨pre, o, post, n', rfl, hn', hsame, fun o' ho' => ?_⟩
  have hother := hpre o' ho'
  rw [Bool.not_eq_true'] at hother
  rw [← hother]
  unfold Created.hasName sameName
  rw [beq_iff_eq.1 hsame]

/-- Two objects are two bodies. -/
theorem NsInv.nodup (h : NsInv s) : (s.created.map Created.body).Nodup := by
  rw [List.Nodup, List.pairwise_map]
  refine h.apart.imp_of_mem fun {o o'} ho ho' hsep heq => ?_
  have hpos := h.body_pos o ho
  have hpos' := h.body_pos o' ho'
  simp only [objectHeader] at hpos hpos' hsep
  omega

/-- Names that fit are stored as they are. -/
theorem NsRecorded.stored_eq {l : List Created} (h : NsRecorded l) {o : Created} (ho : o ∈ l) :
    o.stored = o.chars := by
  unfold Created.stored
  refine List.take_of_length_le ?_
  cases hname : o.name with
  | none =>
    unfold Created.chars
    rw [hname]
    exact Nat.zero_le _
  | some n =>
    obtain ⟨hself, hchars⟩ := Created.hasName_of_name hname
    obtain ⟨pre, o₁, post, n₁, hl, hn₁, hsame, hfirst⟩ := first_of_name ⟨o, ho, hself⟩
    obtain ⟨-, hshort, -⟩ := h.names pre o₁ post n₁ hl hn₁ hfirst
    rw [hchars, ← sameName_length hsame]
    exact hshort

theorem nsLaws_of_recorded (h : NsInv s) (hrec : NsRecorded s.created) : NsLaws s := by
  have htake : s.created.take maxObjects = s.created := List.take_of_length_le hrec.few
  have hmatch : ∀ o ∈ s.created, ∀ n : CString, o.named = true →
      sameName o.stored n.chars = o.hasName n := by
    intro o ho n hnamed
    rw [hrec.stored_eq ho, Created.hasName_named hnamed]
  constructor
  · intro pre o post n hl hname hfirst
    obtain ⟨hself, hchars⟩ := Created.hasName_of_name hname
    obtain ⟨hne, -, hroom⟩ := hrec.names pre o post n hl hname hfirst
    have hnamed : o.named = true := o.named_iff.2 (hchars ▸ hne)
    have ho : o ∈ s.created := hl ▸ List.mem_append_right _ List.mem_cons_self
    have hfind : ((s.created.filter Created.named).take maxNamed).find? (fun o =>
        sameName o.stored n.chars) = some o := by
      obtain ⟨k, hk⟩ : ∃ k, maxNamed - (pre.filter Created.named).length = k + 1 :=
        ⟨maxNamed - (pre.filter Created.named).length - 1, by omega⟩
      rw [hl, List.filter_append, List.filter_cons_of_pos hnamed, List.take_append,
        List.take_of_length_le (Nat.le_of_lt hroom), hk, List.take_succ_cons,
        List.find?_eq_some_iff_append]
      refine ⟨(hmatch o ho n hnamed).trans hself, _, _, rfl, fun o' ho' => ?_⟩
      obtain ⟨hpre, hnamed'⟩ := List.mem_filter.1 ho'
      rw [hmatch o' (hl ▸ List.mem_append_left _ hpre) n hnamed', hfirst o' hpre]
      rfl
    rw [obLookupObject_eq h, hfind]
    rfl
  · intro n hnone
    rw [obLookupObject_eq h, List.find?_eq_none.2]
    · rfl
    · intro o ho
      obtain ⟨ho, hnamed⟩ := List.mem_filter.1 (List.mem_of_mem_take ho)
      rw [hmatch o ho n hnamed, hnone o ho]
      exact Bool.false_ne_true
  · intro type index
    rw [obEnumByType_eq h, htake]
  · intro type
    rw [obCountByType_eq h, htake]

theorem recorded_of_nsLaws (h : NsInv s) (hlaws : NsLaws s) : NsRecorded s.created := by
  constructor
  · intro pre o post n hl hname hfirst
    have ho : o ∈ s.created := hl ▸ List.mem_append_right _ List.mem_cons_self
    have hfound := hlaws.found pre o post n hl hname hfirst
    rw [obLookupObject_eq h] at hfound
    cases hfind : ((s.created.filter Created.named).take maxNamed).find? fun o =>
        sameName o.stored n.chars with
    | none =>
      rw [hfind] at hfound
      exact absurd (h.body_pos o ho) (by rw [← hfound]; exact Nat.not_lt_zero _)
    | some o' =>
      rw [hfind] at hfound
      have hin := List.mem_of_find?_eq_some hfind
      obtain ⟨ho', hnamed⟩ := List.mem_filter.1 (List.mem_of_mem_take hin)
      obtain rfl : o' = o := List.inj_on_of_nodup_map h.nodup ho' ho hfound
      obtain ⟨-, hchars⟩ := Created.hasName_of_name hname
      have hsame : sameName (n.chars.take 63) n.chars = true := by
        have hmatch : sameName o'.stored n.chars = true :=
          List.find?_some (p := fun o : Created => sameName o.stored n.chars) hfind
        unfold Created.stored at hmatch
        rwa [hchars] at hmatch
      refine ⟨hchars ▸ o'.named_iff.1 hnamed, ?_, ?_⟩
      · rw [← sameName_length hsame]
        exact List.length_take_le ..
      · by_contra hfull
        -- with the array full before it, the object would have to come a second time
        rw [hl, List.filter_append, List.take_append_of_le_length (Nat.not_lt.1 hfull)] at hin
        have hpre := (List.mem_filter.1 (List.mem_of_mem_take hin)).1
        have hnodup := h.nodup.of_map
        rw [hl, List.nodup_append] at hnodup
        exact hnodup.2.2 o' hpre o' List.mem_cons_self rfl
  · by_contra hmany
    have hlt : maxObjects < s.created.length := Nat.not_le.1 hmany
    have hcount := hlaws.counted (s.created[maxObjects]).type
    rw [obCountByType_eq h] at hcount
    have hsplit : (s.created.take maxObjects ++ s.created.drop maxObjects).countP
        (fun o => o.type == (s.created[maxObjects]).type) = _ := List.countP_append
    rw [List.take_append_drop, List.drop_eq_getElem_cons hlt,
      List.countP_cons, if_pos (beq_self_eq_true _)] at hsplit
    omega

end Laws

/-! ## Every run -/

theorem nsReach_inv {s : NsWorld} (h : Reach NsStart NsStep (fun _ _ => True) s) : NsInv s := by
  apply h.invariant
  · rintro s ⟨hnamed, hall, hcreated⟩
    constructor
    · rw [hcreated]
      exact List.forall_mem_nil _
    · rw [hcreated]
      exact .nil
    · rw [hcreated]
      exact List.forall_mem_nil _
    · rw [hcreated]
      exact List.forall_mem_nil _
    · rw [hnamed, hcreated]
      rfl
    · rw [hall, hcreated]
      rfl
  · rintro s op s' hs - ⟨hok, rfl⟩
    cases op with
    | create hdr type bodySize name => exact nsInv_create hs hok
    | store i v => exact nsInv_store hs hok

/-- The namespace keeps its laws as long as everything is recorded, and no longer. -/
theorem namespace_lawful {s : NsWorld} (h : Reach NsStart NsStep (fun _ _ => True) s) :
    NsLaws s ↔ NsRecorded s.created :=
  ⟨recorded_of_nsLaws (nsReach_inv h), nsLaws_of_recorded (nsReach_inv h)⟩

/-- The `n` calls that create file objects without a name. -/
def filesCreated : Nat → NsWorld
  | 0 => ⟨⟨fun _ => 0, fun _ => 0, [], []⟩, []⟩
  | n + 1 => nsStep (filesCreated n) (.create (128 * (n + 1)) 4 8 none)

theorem filesCreated_bodies (n : Nat) :
    (filesCreated n).created = (List.range n).map fun i => ⟨128 * (i + 1) + objectHeader, 4, none⟩ := by
  induction n with
  | zero => rfl
  | succ n ih =>
    have hhdr : 128 * (n + 1) ≠ 0 := Nat.mul_ne_zero (by decide) (Nat.succ_ne_zero n)
    change (nsStep (filesCreated n) _).created = _
    rw [(nsStep_create (filesCreated n) 4 8 none hhdr).1, ih, List.range_succ, List.map_append]
    rfl

theorem filesCreated_reach (n : Nat) : Reach NsStart NsStep (fun _ _ => True) (filesCreated n) := by
  induction n with
  | zero => exact .start ⟨rfl, rfl, rfl⟩
  | succ n ih =>
    refine .step (a := .create (128 * (n + 1)) 4 8 none) ih trivial ⟨.inr ?_, rfl⟩
    refine ⟨Nat.mul_ne_zero (by decide) (Nat.succ_ne_zero n), fun b hb => .inr ?_⟩
    rw [filesCreated_bodies, List.map_map] at hb
    obtain ⟨i, hi, rfl⟩ := List.mem_map.1 hb
    have hlt := List.mem_range.1 hi
    simp only [Function.comp_apply, objectHeader]
    omega

/-- The 257th object exists and is counted by nobody. -/
theorem file_object_not_counted : ∃ s, Reach NsStart NsStep (fun _ _ => True) s ∧
    s.created.countP (fun o => o.type == 4) = 257 ∧ obCountByType s.ob 4 = 256 ∧ ¬ NsLaws s := by
  have hreach := filesCreated_reach 257
  have hinv := nsReach_inv hreach
  have hcreated := filesCreated_bodies 257
  have hcount : obCountByType (filesCreated 257).ob 4 = 256 := by
    rw [obCountByType_eq hinv, hcreated]
    decide +kernel
  have hall : (filesCreated 257).created.countP (fun o => o.type == 4) = 257 := by
    rw [hcreated]
    decide +kernel
  refine ⟨_, hreach, hall, hcount, fun hlaws => ?_⟩
  have hsame := hlaws.counted 4
  rw [hcount, hall] at hsame
  exact absurd hsame (by decide)

theorem namespace_lawful_oneDevice :
    NsLaws (nsStep (filesCreated 0) (.create 128 2 8 (some ⟨[65], by decide⟩))) := by
  have hreach : Reach NsStart NsStep (fun _ _ => True)
      (nsStep (filesCreated 0) (.create 128 2 8 (some ⟨[65], by decide⟩))) :=
    .step (a := .create 128 2 8 (some ⟨[65], by decide⟩)) (filesCreated_reach 0) trivial
      ⟨.inr ⟨by decide, List.forall_mem_nil _⟩, rfl⟩
  refine (namespace_lawful hreach).2 ⟨fun pre o post n hl hname _ => ?_, by decide⟩
  rcases List.singleton_eq_append_iff.1 hl with ⟨rfl, hpost⟩ | ⟨-, hpost⟩
  · obtain ⟨rfl, -⟩ := List.cons.inj hpost
    cases hname
    exact ⟨by decide, by decide, by decide⟩
  · exact absurd hpost (List.cons_ne_nil _ _)

end MeuOS.Ob
