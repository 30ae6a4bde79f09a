import MeuOS.Io.Symlinks
import MeuOS.Lib.CString

/-! Every history of the table of symbolic links, beside the map that its callers have in mind. -/
namespace MeuOS.Io

open MeuOS.Lib
open MeuOS.Cm (UnicodeString uniToAscii cstr)

inductive LinkOp
  | createAscii (link target : Option CString)
  | create (symbolicLinkName deviceName : Option UnicodeString)
  | delete (symbolicLinkName : Option UnicodeString)

/-- `made` says to what each link was last successfully created, unless it was deleted since. -/
structure LinkWorld where
  links : SLinks
  made : List UInt16 → Option (List UInt16)

namespace LinkOp

/-- The table after a call, and whether the call reports success. -/
def run (t : SLinks) : LinkOp → SLinks × Bool
  | createAscii link target => ioSymlinkCreateAscii t (link.map CString.chars) (target.map CString.chars)
  | create link target =>
      let r := ioCreateSymbolicLink t link target
      (r.1, r.2 = .success)
  | delete link =>
      let r := ioDeleteSymbolicLink t link
      (r.1, r.2 = .success)

/-- The link a call is about, and what it is to lead to afterwards. -/
def asks : LinkOp → Option (List UInt16 × Option (List UInt16))
  | createAscii (some link) (some target) => some (wide link.chars, some (wide target.chars))
  | createAscii _ _ => none
  | create link target => some (uniText link, some (uniText target))
  | delete link => some (uniText link, none)

end LinkOp

def linkStep (w : LinkWorld) (op : LinkOp) : LinkWorld :=
  let r := op.run w.links
  { links := r.1
    made := match op.asks with
      | some (link, target) => if r.2 then Function.update w.made link target else w.made
      | none => w.made }

/-- `s_links` before the first call. -/
def linkStart : LinkWorld := ⟨fun _ => none, fun _ => none⟩

/-- A created link and its target are not cut, unless there is no room for the link anyway; the name
of a deleted one is not cut, unless what is left of it is no link. -/
def LinkFits (w : LinkWorld) : LinkOp → Prop
  | .createAscii link target => ∀ l t, link = some l → target = some t →
      (l.chars.length ≤ 63 ∧ t.chars.length ≤ 63) ∨ Full w.links l.chars
  | .create link target => (Narrow link ∧ Narrow target) ∨ Full w.links (uniToAscii link 64)
  | .delete link => Narrow link ∨ slotOf SymlinkEnt.link symlinkMax w.links (uniToAscii link 64) = none

def LinkReach (guard : LinkWorld → LinkOp → Prop) : LinkWorld → Prop :=
  Reach (· = linkStart) (fun w op w' => w' = linkStep w op) guard

/-- What a link leads to. -/
def leadsTo (t : SLinks) (l : List UInt8) : Option (List UInt16) :=
  (ioSymlinkResolveAscii t (some l)).map wide

structure LinkInv (w : LinkWorld) : Prop where
  one : OneSlot SymlinkEnt.link symlinkMax w.links
  made : ∀ l, w.made (wide l) = leadsTo w.links l
  bytes : ∀ n, w.made n ≠ none → ∃ l, n = wide l ∧ l.length ≤ 63 ∧ 0 ∉ l

/-- A call in some state: it reports success only if the link then leads to its target, an absent
link is not found, a call that fails changes nothing, and no call changes where another link leads. -/
structure LinkStepRight (w : LinkWorld) (op : LinkOp) : Prop where
  done : ∀ l target, op.asks = some (wide l, target) → (op.run w.links).2 = true →
    leadsTo (op.run w.links).1 l = target
  absent : ∀ link, op = .delete link → w.made (uniText link) = none →
    ioDeleteSymbolicLink w.links link = (w.links, .objectNameNotFound)
  present : ∀ link, op = .delete link → w.made (uniText link) ≠ none → (op.run w.links).2 = true
  failed : (op.run w.links).2 = false → (op.run w.links).1 = w.links
  others : ∀ l, (∀ target, op.asks ≠ some (wide l, target)) →
    ioSymlinkResolveAscii (op.run w.links).1 (some l) = ioSymlinkResolveAscii w.links (some l)

section Steps

variable {w : LinkWorld} {op : LinkOp} {t t' : SLinks} {k l : List UInt8}

theorem leadsTo_eq (t : SLinks) (l : List UInt8) :
    leadsTo t l = (lookupKey SymlinkEnt.link symlinkMax t l).map fun e => wide e.target := by
  unfold leadsTo
  rw [resolve_eq, Option.map_map]
  rfl

/-- What a call does: nothing, or it sets where one link leads. -/
inductive LinkMove (t : SLinks) (op : LinkOp) : Prop
  | refused (hrun : op.run t = (t, false))
  | moved (k : List UInt8) (target : Option (List UInt16)) (hasks : op.asks = some (wide k, target))
      (hshort : target ≠ none → k.length ≤ 63 ∧ 0 ∉ k) (hok : (op.run t).2 = true) (hone : OneSlot SymlinkEnt.link symlinkMax (op.run t).1)
      (hself : leadsTo (op.run t).1 k = target)
      (hothers : ∀ l, l ≠ k → ioSymlinkResolveAscii (op.run t).1 (some l) = ioSymlinkResolveAscii t (some l))

/-- Both creating routines, on strings that are not cut. -/
theorem create_move {target : List UInt8} (h0 : 0 ∉ k) (hone : OneSlot SymlinkEnt.link symlinkMax t)
    (hrun : op.run t = ioSymlinkCreateAscii t (some k) (some target))
    (hfits : (k.length ≤ 63 ∧ target.length ≤ 63 ∧ op.asks = some (wide k, some (wide target))) ∨ Full t k) :
    LinkMove t op := by
  by_cases hfull : Full t k
  · refine .refused ?_
    rw [hrun, create_full hfull]
  · obtain ⟨hk, htarget, hasks⟩ := hfits.resolve_right hfull
    obtain ⟨t', hcreate, hone', hlookup⟩ := create_short hone hk htarget hfull
    rw [hcreate] at hrun
    refine .moved k _ hasks (fun _ => ⟨hk, h0⟩) ?_ ?_ ?_ fun l hl => ?_
    · rw [hrun]
    · rw [hrun]
      exact hone'
    · rw [hrun, leadsTo_eq, hlookup, if_pos rfl]
      rfl
    · rw [hrun, resolve_eq, resolve_eq, hlookup, if_neg hl]

theorem delete_run (t : SLinks) (link : Option UnicodeString) :
    LinkOp.run t (.delete link) =
      match slotOf SymlinkEnt.link symlinkMax t (uniToAscii link 64) with
      | some i => (Function.update t i none, true)
      | none => (t, false) := by
  unfold LinkOp.run ioDeleteSymbolicLink
  dsimp only
  rw [firstHeld_linkEq]
  cases slotOf SymlinkEnt.link symlinkMax t (uniToAscii link 64) <;> rfl

theorem delete_move (hone : OneSlot SymlinkEnt.link symlinkMax t) (link : Option UnicodeString)
    (hfits : Narrow link ∨ slotOf SymlinkEnt.link symlinkMax t (uniToAscii link 64) = none) :
    LinkMove t (.delete link) := by
  have hrun := delete_run t link
  cases hslot : slotOf SymlinkEnt.link symlinkMax t (uniToAscii link 64) with
  | none =>
    rw [hslot] at hrun
    exact .refused hrun
  | some i =>
    have hnarrow : Narrow link := hfits.resolve_right (by rw [hslot]; exact Option.some_ne_none i)
    rw [hslot] at hrun
    have hlookup := hone.lookupKey_clear hslot
    refine .moved (uniToAscii link 64) none ?_ (absurd rfl) ?_ ?_ ?_ fun l hl => ?_
    · rw [wide_uniToAscii hnarrow]
      rfl
    · rw [hrun]
    · rw [hrun]
      exact hone.clear i
    · rw [hrun, leadsTo_eq, hlookup, if_pos rfl]
      rfl
    · rw [hrun, resolve_eq, resolve_eq, hlookup, if_neg hl]

theorem create_run (t : SLinks) (link target : Option UnicodeString) :
    LinkOp.run t (.create link target) =
      ioSymlinkCreateAscii t (some (uniToAscii link 64)) (some (uniToAscii target 64)) := by
  unfold LinkOp.run ioCreateSymbolicLink
  dsimp only
  generalize ioSymlinkCreateAscii t (some (uniToAscii link 64)) (some (uniToAscii target 64)) = r
  obtain ⟨t', done⟩ := r
  cases done <;> rfl

theorem uniToAscii_terminated (u : Option UnicodeString) :
    (uniToAscii u 64).length ≤ 63 ∧ 0 ∉ uniToAscii u 64 := by
  rw [uniText_eq_text]
  constructor
  · refine (List.takeWhile_sublist _).length_le.trans ?_
    rw [List.length_map]
    exact List.length_take_le ..
  · intro h0
    have hne := List.mem_takeWhile_imp h0
    exact of_decide_eq_true hne rfl

theorem linkMove (hone : OneSlot SymlinkEnt.link symlinkMax w.links) (hfits : LinkFits w op) :
    LinkMove w.links op := by
  cases op with
  | delete link => exact delete_move hone link hfits
  | create link target =>
    obtain ⟨hlen, h0⟩ := uniToAscii_terminated link
    have hlen' := (uniToAscii_terminated target).1
    refine create_move h0 hone (create_run w.links link target) (hfits.imp_left ?_)
    rintro ⟨hlink, htarget⟩
    refine ⟨hlen, hlen', ?_⟩
    rw [wide_uniToAscii hlink, wide_uniToAscii htarget]
    rfl
  | createAscii link target =>
    cases link with
    | none => exact .refused rfl
    | some l =>
      cases target with
      | none => exact .refused rfl
      | some tgt =>
        refine create_move l.terminated hone rfl ((hfits l tgt rfl rfl).imp_left ?_)
        rintro ⟨hl, htgt⟩
        exact ⟨hl, htgt, rfl⟩

theorem linkStep_inv (hinv : LinkInv w) (hfits : LinkFits w op) : LinkInv (linkStep w op) := by
  cases linkMove hinv.one hfits with
  | refused hrun =>
    have hmade : (linkStep w op).made = w.made := by
      unfold linkStep
      dsimp only
      rw [hrun]
      cases op.asks with
      | none => rfl
      | some p => rfl
    have hlinks : (linkStep w op).links = w.links := congrArg Prod.fst hrun
    exact ⟨hlinks ▸ hinv.one, fun l => by rw [hmade, hlinks, hinv.made],
      fun n hn => hinv.bytes n (hmade ▸ hn)⟩
  | moved k target hasks hshort hok hone hself hothers =>
    have hmade : (linkStep w op).made = Function.update w.made (wide k) target := by
      unfold linkStep
      dsimp only
      rw [hasks, hok]
      rfl
    refine ⟨hone, fun l => ?_, fun n hn => ?_⟩
    · rw [hmade]
      by_cases hl : l = k
      · rw [hl, Function.update_self]
        exact hself.symm
      · rw [Function.update_of_ne fun h => hl (wide_injective h), hinv.made]
        exact congrArg (Option.map wide) (hothers l hl).symm
    · rw [hmade] at hn
      by_cases hk : n = wide k
      · rw [hk, Function.update_self] at hn
        exact ⟨k, hk, hshort hn⟩
      · rw [Function.update_of_ne hk] at hn
        exact hinv.bytes n hn

/-- The entry a deleted link is looked for in is there if and only if the link is. -/
theorem slotOf_delete (hinv : LinkInv w) {link : Option UnicodeString} (hfits : LinkFits w (.delete link)) :
    slotOf SymlinkEnt.link symlinkMax w.links (uniToAscii link 64) = none ↔ w.made (uniText link) = none := by
  rw [← lookupKey_eq_none_iff]
  by_cases hnarrow : Narrow link
  · rw [← wide_uniToAscii hnarrow, hinv.made, leadsTo_eq, Option.map_eq_none_iff]
  · have hnone := hfits.resolve_left hnarrow
    rw [lookupKey_eq_none_iff]
    refine iff_of_true hnone ?_
    -- a link that was made has a narrow name
    by_contra hmade
    obtain ⟨l, hl, hlen, h0⟩ := hinv.bytes _ hmade
    apply hnarrow
    unfold Narrow
    rw [hl]
    refine ⟨(List.length_map _).trans_le hlen, fun c hc => ?_⟩
    obtain ⟨b, hb, rfl⟩ := List.mem_map.1 hc
    have hne : b ≠ 0 := fun h => h0 (h ▸ hb)
    have hpos : b.toNat ≠ 0 := fun h => hne (UInt8.toNat_inj.1 h)
    have hlt := b.toNat_lt
    rw [UInt16.lt_iff_toNat_lt, UInt16.lt_iff_toNat_lt, UInt8.toNat_toUInt16]
    exact ⟨Nat.pos_of_ne_zero hpos, hlt⟩

theorem linkStepRight (hinv : LinkInv w) (hfits : LinkFits w op) : LinkStepRight w op := by
  refine ⟨?_, fun link hop hnone => ?_, fun link hop hsome => ?_, ?_, ?_⟩
  · intro l target hasks hdone
    cases linkMove hinv.one hfits with
    | refused hrun =>
      rw [hrun] at hdone
      cases hdone
    | moved k target' hasks' hshort hok hone hself hothers =>
      rw [hasks] at hasks'
      obtain ⟨hwide, rfl⟩ := Prod.mk.inj (Option.some.inj hasks')
      rw [wide_injective hwide]
      exact hself
  · subst hop
    have hslot := (slotOf_delete hinv hfits).2 hnone
    unfold ioDeleteSymbolicLink
    dsimp only
    rw [firstHeld_linkEq, hslot]
  · subst hop
    cases hslot : slotOf SymlinkEnt.link symlinkMax w.links (uniToAscii link 64) with
    | none => exact absurd ((slotOf_delete hinv hfits).1 hslot) hsome
    | some i => rw [delete_run, hslot]
  · intro hfailed
    cases linkMove hinv.one hfits with
    | refused hrun => rw [hrun]
    | moved k target hasks hshort hok hone hself hothers =>
      rw [hok] at hfailed
      cases hfailed
  · intro l hother
    cases linkMove hinv.one hfits with
    | refused hrun => rw [hrun]
    | moved k target hasks hshort hok hone hself hothers =>
      refine hothers l fun hl => hother target ?_
      rw [hl]
      exact hasks

end Steps

/-! ## Every history -/

theorem linkStart_inv : LinkInv linkStart := by
  refine ⟨oneSlot_empty, fun l => ?_, fun n hn => absurd rfl hn⟩
  rw [leadsTo_eq]
  have hnone : lookupKey SymlinkEnt.link symlinkMax linkStart.links l = none := by
    rw [lookupKey_eq_none_iff]
    exact List.find?_eq_none.2 fun i _ => Bool.false_ne_true
  rw [hnone]
  rfl

theorem linkReach_inv {w : LinkWorld} (hrun : LinkReach LinkFits w) : LinkInv w := by
  refine Reach.invariant hrun ?_ ?_
  · rintro w rfl
    exact linkStart_inv
  · rintro w op w' hinv hfits rfl
    exact linkStep_inv hinv hfits

/-- The table is the map of the links that were made, and every call does to it what it reports. -/
theorem symlinks_map {w : LinkWorld} (hrun : LinkReach LinkFits w) :
    (∀ l : CString, (ioSymlinkResolveAscii w.links (some l.chars)).map wide = w.made (wide l.chars)) ∧
      ∀ op, LinkFits w op → LinkStepRight w op :=
  ⟨fun l => ((linkReach_inv hrun).made l.chars).symm, fun _ => linkStepRight (linkReach_inv hrun)⟩

theorem linkStep_reach {guard : LinkWorld → LinkOp → Prop} {w : LinkWorld} (h : LinkReach guard w) (op : LinkOp)
    (hguard : guard w op) : LinkReach guard (linkStep w op) :=
  .step h hguard rfl

theorem replicate_terminated (n : Nat) : 0 ∉ List.replicate n (65 : UInt8) := by
  intro h
  exact absurd (List.eq_of_mem_replicate h) (by decide)

/-- A name of `n` letters A. -/
def letters (n : Nat) : CString := ⟨List.replicate n 65, replicate_terminated n⟩

/-- A link with a name of `n` letters to the name of one letter. -/
def oneLink (n : Nat) : LinkOp := .createAscii (some (letters n)) (some (letters 1))

theorem symlinks_map_short : LinkReach LinkFits (linkStep linkStart (oneLink 63)) ∧
    (ioSymlinkResolveAscii (linkStep linkStart (oneLink 63)).links (some (letters 63).chars)).map wide =
      (linkStep linkStart (oneLink 63)).made (wide (letters 63).chars) := by
  have hfits : LinkFits linkStart (oneLink 63) := by
    rintro l t hl ht
    cases hl
    cases ht
    exact .inl (by decide)
  have hreach := linkStep_reach (.start rfl) (oneLink 63) hfits
  exact ⟨hreach, (symlinks_map hreach).1 (letters 63)⟩

/-- A name of 64 letters is reported to be a link and leads nowhere. -/
theorem long_link_lost : ∃ w, LinkReach (fun _ _ => True) w ∧
    w.made (wide (letters 64).chars) = some (wide (letters 1).chars) ∧
    ioSymlinkResolveAscii w.links (some (letters 64).chars) = none := by
  refine ⟨linkStep linkStart (oneLink 64), linkStep_reach (.start rfl) (oneLink 64) trivial, ?_, ?_⟩
  · decide +kernel
  · decide +kernel

end MeuOS.Io
