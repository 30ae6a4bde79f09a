import MeuOS.Lib.CString
import Mathlib.Data.Nat.Digits.Defs
import Mathlib.Data.Nat.Bitwise

/-! IPv4 addresses and their text. The parser counts its parts where it finds a dot, with a number before it
or without. -/
namespace MeuOS.Ws2

open MeuOS.Lib

def inaddrNone : UInt32 := 0xFFFFFFFF

def dot : UInt8 := 0x2E

/-- `*p >= '0' && *p <= '9'`. -/
def isDigit (c : UInt8) : Bool := decide (0x30 ≤ c ∧ c ≤ 0x39)

def digitValue (c : UInt8) : Nat := c.toNat - 0x30

/-- The loop over the digits of a part: the value and what is behind, or nothing for a value over 255. -/
def octetLoop : Nat → List UInt8 → Option (Nat × List UInt8)
  | v, [] => some (v, [])
  | v, c :: p =>
      if isDigit c then
        let v := v * 10 + digitValue c
        if 255 < v then none else octetLoop v p
      else some (v, c :: p)

theorem octetLoop_length {v w : Nat} {p q : List UInt8} (h : octetLoop v p = some (w, q)) : q.length ≤ p.length := by
  induction p generalizing v with
  | nil =>
    cases h
    exact Nat.le_refl _
  | cons c p ih =>
    rw [octetLoop] at h
    split at h
    · dsimp only at h
      split at h
      · cases h
      · exact Nat.le_succ_of_le (ih h)
    · cases h
      exact Nat.le_refl _

/-- What the digits at the start of a string are left with is shorter than the string. -/
theorem octetLoop_digit {c : UInt8} {w : Nat} {p q : List UInt8} (hc : isDigit c = true)
    (h : octetLoop 0 (c :: p) = some (w, q)) : q.length ≤ p.length := by
  rw [octetLoop, if_pos hc] at h
  dsimp only at h
  split at h
  · cases h
  · exact octetLoop_length h

/-- The loop over the parts: `parts` and `part` behind it. -/
def partLoop (parts : Nat → Nat) (part : Nat) : List UInt8 → Option ((Nat → Nat) × Nat)
  | [] => some (parts, part)
  | c :: p =>
      if 4 ≤ part then some (parts, part)
      else if hc : isDigit c = true then
        match h : octetLoop 0 (c :: p) with
        | none => none
        | some (v, []) => some (Function.update parts part v, part)
        | some (v, e :: q) =>
            if e = dot then partLoop (Function.update parts part v) (part + 1) q
            else some (Function.update parts part v, part)
      else if c = dot then partLoop parts (part + 1) p
      else none
  termination_by p => p.length
  decreasing_by
    · have := octetLoop_digit hc h
      simp only [List.length_cons] at *
      omega
    · simp

/-- The number in network order. -/
def joined (parts : Nat → Nat) : UInt32 :=
  UInt32.ofNat (parts 0 ||| parts 1 <<< 8 ||| parts 2 <<< 16 ||| parts 3 <<< 24)

/-- A null pointer is `none`. -/
def inetAddr : Option CString → UInt32
  | none => inaddrNone
  | some cp =>
      match partLoop (fun _ => 0) 0 cp.chars with
      | none => inaddrNone
      | some (parts, part) => if part ≠ 3 then inaddrNone else joined parts

/-- `utoa10`: the digits lie in `tmp` from the lowest on. -/
def utoa10 (v : Nat) : List UInt8 :=
  let tmp := if v = 0 then [0x30] else (Nat.digits 10 v).map fun d => UInt8.ofNat (0x30 + d)
  tmp.reverse

def octet (a : UInt32) (i : Nat) : Nat := a.toNat >>> (8 * i) &&& 0xFF

/-- What `inet_ntoa` leaves in its buffer. -/
def inetNtoa (a : UInt32) : List UInt8 :=
  utoa10 (octet a 0) ++ dot :: (utoa10 (octet a 1) ++ dot :: (utoa10 (octet a 2) ++ dot :: utoa10 (octet a 3)))

/-! ## What the strings mean -/

/-- The decimal number, from the one the digits before it make. -/
def horner (v : Nat) (d : List UInt8) : Nat := d.foldl (fun v c => v * 10 + digitValue c) v

/-- A run of digits, perhaps none, of a value of at most 255. -/
structure Part (d : List UInt8) : Prop where
  digits : ∀ c ∈ d, isDigit c = true
  value : horner 0 d ≤ 255

/-- `k` parts with a dot behind each, one more part, and the text behind it. That text does not go on with the
number or with a dot, and there is none behind a part without digits. -/
def Dotted : Nat → List UInt8 → List (List UInt8) → List UInt8 → Prop
  | 0, s, ds, t => ∃ d, ds = [d] ∧ s = d ++ t ∧ Part d ∧
      (∀ c ∈ t.head?, isDigit c = false ∧ c ≠ dot) ∧ (d = [] → t = [])
  | k + 1, s, ds, t => ∃ d s' ds', ds = d :: ds' ∧ s = d ++ dot :: s' ∧ Part d ∧ Dotted k s' ds' t

/-- Four numbers with a digit each, a dot between them, and nothing else. -/
def Quad (s : List UInt8) (ds : List (List UInt8)) : Prop := Dotted 3 s ds [] ∧ [] ∉ ds

/-- The bytes in network order. -/
def address (ds : List (List UInt8)) : UInt32 := joined fun i => horner 0 (ds.getD i [])

/-- The string is taken for an address exactly if it is one, and for that one. -/
def Right (s : CString) : Prop :=
  (inetAddr (some s) ≠ inaddrNone ↔ ∃ ds, Quad s.chars ds) ∧ ∀ ds, Quad s.chars ds → inetAddr (some s) = address ds

/-- No part without digits, no text behind the last one, and not 255.255.255.255; with text behind, only
255.255.255.255. -/
def Clean (s : CString) : Prop :=
  ∀ ds t, Dotted 3 s.chars ds t → ((t = [] ∧ [] ∉ ds) ↔ ∃ d ∈ ds, horner 0 d ≠ 255)

/-! ## The digits of a part -/

theorem horner_le (v : Nat) (d : List UInt8) : v ≤ horner v d := by
  induction d generalizing v with
  | nil => exact Nat.le_refl _
  | cons c d ih =>
    exact Nat.le_trans (show v ≤ v * 10 + digitValue c by omega) (ih _)

/-- The loop stops at the first other character, or where the value gets over 255. -/
theorem octetLoop_append {d q : List UInt8} (hd : ∀ c ∈ d, isDigit c = true) (hq : ∀ c ∈ q.head?, isDigit c = false)
    {v : Nat} (hv : v ≤ 255) :
    octetLoop v (d ++ q) = if horner v d ≤ 255 then some (horner v d, q) else none := by
  induction d generalizing v with
  | nil =>
    rw [show horner v [] = v from rfl, if_pos hv]
    cases q with
    | nil => rfl
    | cons c q =>
      have hc : isDigit c = false := hq c rfl
      rw [List.nil_append, octetLoop, if_neg (by rw [hc]; exact Bool.false_ne_true)]
  | cons c d ih =>
    rw [List.cons_append, octetLoop, if_pos (hd c (List.mem_cons_self ..))]
    dsimp only
    have hstep : horner v (c :: d) = horner (v * 10 + digitValue c) d := rfl
    by_cases hbig : 255 < v * 10 + digitValue c
    · have hle := horner_le (v * 10 + digitValue c) d
      rw [if_pos hbig, if_neg (by omega)]
    · rw [if_neg hbig, hstep]
      exact ih (fun c hc => hd c (List.mem_cons_of_mem _ hc)) (Nat.not_lt.mp hbig)

/-- A string is a run of digits and what is behind it, in one way. -/
theorem digits_split (s : List UInt8) :
    ∃ d q, s = d ++ q ∧ (∀ c ∈ d, isDigit c = true) ∧ ∀ c ∈ q.head?, isDigit c = false := by
  induction s with
  | nil => exact ⟨[], [], rfl, nofun, nofun⟩
  | cons c s ih =>
    by_cases hc : isDigit c = true
    · obtain ⟨d, q, rfl, hd, hq⟩ := ih
      refine ⟨c :: d, q, rfl, fun e he => ?_, hq⟩
      rcases List.mem_cons.mp he with rfl | he
      · exact hc
      · exact hd e he
    · refine ⟨[], c :: s, rfl, nofun, fun e he => ?_⟩
      cases he
      exact Bool.not_eq_true _ ▸ hc

theorem split_unique {d d' q q' : List UInt8} (hd : ∀ c ∈ d, isDigit c = true) (hd' : ∀ c ∈ d', isDigit c = true)
    (hq : ∀ c ∈ q.head?, isDigit c = false) (hq' : ∀ c ∈ q'.head?, isDigit c = false) (h : d ++ q = d' ++ q') :
    d = d' ∧ q = q' := by
  induction d generalizing d' with
  | nil =>
    cases d' with
    | nil => exact ⟨rfl, h⟩
    | cons c d' =>
      subst h
      exact absurd (hq c rfl) (by rw [hd' c (List.mem_cons_self ..)]; exact Bool.noConfusion)
  | cons c d ih =>
    cases d' with
    | nil =>
      subst h
      exact absurd (hq' c rfl) (by rw [hd c (List.mem_cons_self ..)]; exact Bool.noConfusion)
    | cons e d' =>
      obtain ⟨rfl, htail⟩ := List.cons.inj h
      obtain ⟨rfl, hrest⟩ := ih (fun c hc => hd c (List.mem_cons_of_mem _ hc))
        (fun c hc => hd' c (List.mem_cons_of_mem _ hc)) htail
      exact ⟨rfl, hrest⟩

/-! ## The parts -/

variable {parts : Nat → Nat} {part : Nat} {d q : List UInt8}

/-- One turn of the loop, for a part with digits or without. -/
theorem partLoop_step (hpart : part < 4) (hzero : parts part = 0) (hd : ∀ c ∈ d, isDigit c = true)
    (hq : ∀ c ∈ q.head?, isDigit c = false) :
    partLoop parts part (d ++ q) =
      if 255 < horner 0 d then none
      else if q.head? = some dot then partLoop (Function.update parts part (horner 0 d)) (part + 1) q.tail
      else if d = [] ∧ q ≠ [] then none
      else some (Function.update parts part (horner 0 d), part) := by
  have hsame : Function.update parts part (horner 0 []) = parts := by
    rw [show horner 0 [] = parts part from hzero.symm, Function.update_eq_self]
  cases d with
  | nil =>
    rw [List.nil_append, hsame, if_neg (show ¬ 255 < horner 0 [] by decide)]
    cases q with
    | nil =>
      rw [partLoop]
      rfl
    | cons c q =>
      have hc : isDigit c = false := hq c rfl
      rw [partLoop, if_neg (by omega), dif_neg (by rw [hc]; exact Bool.false_ne_true)]
      by_cases hdot : c = dot
      · rw [if_pos hdot, if_pos (by rw [hdot]; rfl)]
        rfl
      · rw [if_neg hdot, List.head?_cons, if_neg (fun h => hdot (Option.some.inj h)),
          if_pos ⟨rfl, List.cons_ne_nil _ _⟩]
  | cons c d =>
    have hrun := octetLoop_append hd hq (Nat.zero_le 255)
    rw [List.cons_append] at hrun
    rw [List.cons_append, partLoop, if_neg (by omega), dif_pos (hd c (List.mem_cons_self ..))]
    by_cases hbig : 255 < horner 0 (c :: d)
    · rw [if_neg (by omega)] at hrun
      rw [if_pos hbig]
      split
      · rfl
      · rename_i h
        rw [hrun] at h
        cases h
      · rename_i h
        rw [hrun] at h
        cases h
    · rw [if_pos (by omega)] at hrun
      rw [if_neg hbig]
      split
      · rename_i h
        rw [hrun] at h
        cases h
      · rename_i h
        rw [hrun] at h
        cases h
        rfl
      · rename_i h
        rw [hrun] at h
        cases h
        rename_i e q
        by_cases hdot : e = dot
        · rw [if_pos hdot, if_pos (by rw [hdot]; rfl)]
          rfl
        · rw [if_neg hdot, List.head?_cons, if_neg (fun h => hdot (Option.some.inj h)),
            if_neg (fun h => List.cons_ne_nil _ _ h.1)]

theorem partLoop_four (s : List UInt8) : partLoop parts 4 s = some (parts, 4) := by
  cases s with
  | nil => rw [partLoop]
  | cons c s => rw [partLoop, if_pos (Nat.le_refl 4)]

section Shapes

variable {k : Nat} {ds : List (List UInt8)} {t : List UInt8} (hd : ∀ c ∈ d, isDigit c = true)
  (hq : ∀ c ∈ q.head?, isDigit c = false)

include hd hq

theorem dotted_zero : Dotted 0 (d ++ q) ds t ↔
    ds = [d] ∧ t = q ∧ horner 0 d ≤ 255 ∧ q.head? ≠ some dot ∧ (d = [] → q = []) := by
  constructor
  · rintro ⟨d', rfl, hs, hpart, ht, hempty⟩
    obtain ⟨rfl, rfl⟩ := split_unique hd hpart.digits hq (fun c hc => (ht c hc).1) hs
    exact ⟨rfl, rfl, hpart.value, fun h => (ht dot h).2 rfl, hempty⟩
  · rintro ⟨rfl, rfl, hvalue, hdot, hempty⟩
    exact ⟨d, rfl, rfl, ⟨hd, hvalue⟩, fun c hc => ⟨hq c hc, fun h => hdot (h ▸ hc)⟩, hempty⟩

theorem dotted_succ : Dotted (k + 1) (d ++ q) ds t ↔
    ∃ s' ds', ds = d :: ds' ∧ q = dot :: s' ∧ horner 0 d ≤ 255 ∧ Dotted k s' ds' t := by
  constructor
  · rintro ⟨d', s', ds', rfl, hs, hpart, hrest⟩
    obtain ⟨rfl, rfl⟩ := split_unique hd hpart.digits hq (fun c hc => by cases hc; rfl) hs
    exact ⟨s', ds', rfl, rfl, hpart.value, hrest⟩
  · rintro ⟨s', ds', rfl, rfl, hvalue, hrest⟩
    exact ⟨d, s', ds', rfl, rfl, ⟨hd, hvalue⟩, hrest⟩

end Shapes

/-- The parts from `part` on, over what was read before them. -/
def readParts (parts : Nat → Nat) (part : Nat) (ds : List (List UInt8)) (i : Nat) : Nat :=
  if part ≤ i then horner 0 (ds.getD (i - part) []) else parts i

theorem readParts_cons (ds : List (List UInt8)) :
    readParts (Function.update parts part (horner 0 d)) (part + 1) ds = readParts parts part (d :: ds) := by
  funext i
  unfold readParts
  rcases Nat.lt_trichotomy i part with hlt | rfl | hgt
  · rw [if_neg (by omega), if_neg (by omega), Function.update_of_ne (by omega)]
  · rw [if_neg (by omega), if_pos (Nat.le_refl _), Function.update_self, Nat.sub_self, List.getD_cons_zero]
  · rw [if_pos (by omega), if_pos (by omega), show i - part = i - (part + 1) + 1 by omega, List.getD_cons_succ]

theorem readParts_nil (hzero : ∀ i, part ≤ i → parts i = 0) : readParts parts part [] = parts := by
  funext i
  unfold readParts
  split
  · rename_i hle
    rw [hzero i hle]
    rfl
  · rfl

/-- Three dots are found exactly in a dotted string, and the parts are its numbers. -/
theorem partLoop_dotted (k : Nat) {s : List UInt8} (hk : part + k = 3) (hzero : ∀ i, part ≤ i → parts i = 0)
    (r : Nat → Nat) :
    partLoop parts part s = some (r, 3) ↔ ∃ ds t, Dotted k s ds t ∧ r = readParts parts part ds := by
  induction k generalizing parts part s with
  | zero =>
    obtain rfl : part = 3 := hk
    obtain ⟨d, q, rfl, hd, hq⟩ := digits_split s
    rw [partLoop_step (by decide) (hzero 3 (Nat.le_refl _)) hd hq]
    simp only [dotted_zero hd hq]
    by_cases hbig : 255 < horner 0 d
    · rw [if_pos hbig]
      exact iff_of_false nofun fun ⟨_, _, h, _⟩ => Nat.not_lt.mpr h.2.2.1 hbig
    by_cases hdot : q.head? = some dot
    · rw [if_neg hbig, if_pos hdot, partLoop_four]
      exact iff_of_false (by simp) fun ⟨_, _, h, _⟩ => h.2.2.2.1 hdot
    by_cases hempty : d = [] ∧ q ≠ []
    · rw [if_neg hbig, if_neg hdot, if_pos hempty]
      exact iff_of_false nofun fun ⟨_, _, h, _⟩ => hempty.2 (h.2.2.2.2 hempty.1)
    · have hread : readParts parts 3 [d] = Function.update parts 3 (horner 0 d) := by
        rw [← readParts_cons, readParts_nil fun i hi => ?_]
        rw [Function.update_of_ne (by omega)]
        exact hzero i (by omega)
      rw [if_neg hbig, if_neg hdot, if_neg hempty, Option.some.injEq, Prod.mk.injEq]
      constructor
      · rintro ⟨rfl, -⟩
        exact ⟨[d], q, ⟨rfl, rfl, Nat.not_lt.mp hbig, hdot, fun hd => not_not.mp fun hq => hempty ⟨hd, hq⟩⟩, hread.symm⟩
      · rintro ⟨ds, t, ⟨rfl, -⟩, rfl⟩
        exact ⟨hread.symm, rfl⟩
  | succ k ih =>
    obtain ⟨d, q, rfl, hd, hq⟩ := digits_split s
    rw [partLoop_step (by omega) (hzero part (Nat.le_refl _)) hd hq]
    simp only [dotted_succ hd hq]
    by_cases hbig : 255 < horner 0 d
    · rw [if_pos hbig]
      exact iff_of_false nofun fun ⟨_, _, ⟨_, _, _, _, h, _⟩, _⟩ => Nat.not_lt.mpr h hbig
    by_cases hdot : q.head? = some dot
    · obtain ⟨s', rfl⟩ : ∃ s', q = dot :: s' := by
        cases q with
        | nil => cases hdot
        | cons c s' => exact ⟨s', by rw [Option.some.inj hdot]⟩
      rw [if_neg hbig, if_pos hdot, List.tail_cons, ih (by omega) fun i hi => ?_]
      · constructor
        · rintro ⟨ds, t, hds, rfl⟩
          exact ⟨d :: ds, t, ⟨s', ds, rfl, rfl, Nat.not_lt.mp hbig, hds⟩, readParts_cons ds⟩
        · rintro ⟨_, t, ⟨_, ds, rfl, hs, -, hds⟩, rfl⟩
          cases hs
          exact ⟨ds, t, hds, (readParts_cons ds).symm⟩
      · rw [Function.update_of_ne (by omega)]
        exact hzero i (by omega)
    · have hstops : ¬ ∃ ds t, (∃ s' ds', ds = d :: ds' ∧ q = dot :: s' ∧ horner 0 d ≤ 255 ∧ Dotted k s' ds' t) ∧
          r = readParts parts part ds := by
        rintro ⟨_, t, ⟨_, ds, -, rfl, -⟩, -⟩
        exact hdot rfl
      rw [if_neg hbig, if_neg hdot]
      refine iff_of_false (fun h => ?_) hstops
      split at h
      · cases h
      · have hlast := congrArg Prod.snd (Option.some.inj h)
        dsimp only at hlast
        omega

theorem dotted_unique (k : Nat) {s : List UInt8} {ds ds' : List (List UInt8)} {t t' : List UInt8}
    (h : Dotted k s ds t) (h' : Dotted k s ds' t') : ds = ds' ∧ t = t' := by
  induction k generalizing s ds ds' with
  | zero =>
    obtain ⟨d, q, rfl, hd, hq⟩ := digits_split s
    obtain ⟨rfl, rfl, -⟩ := (dotted_zero hd hq).mp h
    obtain ⟨rfl, rfl, -⟩ := (dotted_zero hd hq).mp h'
    exact ⟨rfl, rfl⟩
  | succ k ih =>
    obtain ⟨d, q, rfl, hd, hq⟩ := digits_split s
    obtain ⟨s₁, es, rfl, rfl, -, hrest⟩ := (dotted_succ hd hq).mp h
    obtain ⟨s₂, es', rfl, hs, -, hrest'⟩ := (dotted_succ hd hq).mp h'
    cases hs
    obtain ⟨rfl, rfl⟩ := ih hrest hrest'
    exact ⟨rfl, rfl⟩

theorem dotted_parts (k : Nat) {s : List UInt8} {ds : List (List UInt8)} {t : List UInt8} (h : Dotted k s ds t) :
    ds.length = k + 1 ∧ ∀ d ∈ ds, horner 0 d ≤ 255 := by
  induction k generalizing s ds with
  | zero =>
    obtain ⟨d, rfl, -, hpart, -⟩ := h
    exact ⟨rfl, fun e he => List.mem_singleton.mp he ▸ hpart.value⟩
  | succ k ih =>
    obtain ⟨d, s', ds', rfl, -, hpart, hrest⟩ := h
    obtain ⟨hlen, hvalue⟩ := ih hrest
    refine ⟨congrArg (· + 1) hlen, fun e he => ?_⟩
    rcases List.mem_cons.mp he with rfl | he
    · exact hpart.value
    · exact hvalue e he

section Address

variable {s : CString} {ds : List (List UInt8)} {t : List UInt8}

theorem inetAddr_dotted (h : Dotted 3 s.chars ds t) : inetAddr (some s) = address ds := by
  have hloop : partLoop (fun _ => 0) 0 s.chars = some (_, 3) :=
    (partLoop_dotted 3 rfl (fun _ _ => rfl) _).mpr ⟨ds, t, h, rfl⟩
  unfold inetAddr
  dsimp only
  rw [hloop]
  dsimp only
  rw [if_neg (not_not.mpr rfl)]
  rfl

theorem inetAddr_other (h : ¬ ∃ ds t, Dotted 3 s.chars ds t) : inetAddr (some s) = inaddrNone := by
  unfold inetAddr
  dsimp only
  cases hloop : partLoop (fun _ => 0) 0 s.chars with
  | none => rfl
  | some r =>
    obtain ⟨parts, part⟩ := r
    dsimp only
    by_cases hpart : part = 3
    · subst hpart
      obtain ⟨ds, t, hds, -⟩ := (partLoop_dotted 3 rfl (fun _ _ => rfl) parts).mp hloop
      exact absurd ⟨ds, t, hds⟩ h
    · rw [if_pos hpart]

theorem joined_toNat {parts : Nat → Nat} (h : ∀ i < 4, parts i ≤ 255) :
    (joined parts).toNat = parts 0 + parts 1 * 256 + parts 2 * 65536 + parts 3 * 16777216 := by
  have h0 := h 0 (by decide)
  have h1 := h 1 (by decide)
  have h2 := h 2 (by decide)
  have h3 := h 3 (by decide)
  have e1 : parts 0 ||| parts 1 <<< 8 = parts 0 + parts 1 * 256 := by
    rw [Nat.or_comm, ← Nat.shiftLeft_add_eq_or_of_lt (show parts 0 < 2 ^ 8 by omega), Nat.shiftLeft_eq]
    omega
  have e2 : (parts 0 + parts 1 * 256) ||| parts 2 <<< 16 = parts 0 + parts 1 * 256 + parts 2 * 65536 := by
    rw [Nat.or_comm, ← Nat.shiftLeft_add_eq_or_of_lt (by omega), Nat.shiftLeft_eq]
    omega
  have e3 : (parts 0 + parts 1 * 256 + parts 2 * 65536) ||| parts 3 <<< 24 =
      parts 0 + parts 1 * 256 + parts 2 * 65536 + parts 3 * 16777216 := by
    rw [Nat.or_comm, ← Nat.shiftLeft_add_eq_or_of_lt (by omega), Nat.shiftLeft_eq]
    omega
  unfold joined
  rw [e1, e2, e3, UInt32.toNat_ofNat']
  omega

/-- Only 255.255.255.255 is the number that means an error. -/
theorem address_none (hlen : ds.length = 4) (hvalue : ∀ d ∈ ds, horner 0 d ≤ 255) :
    address ds ≠ inaddrNone ↔ ∃ d ∈ ds, horner 0 d ≠ 255 := by
  have hsum : (address ds).toNat = _ := joined_toNat fun i hi => by
    rw [List.getD_eq_getElem _ _ (by omega)]
    exact hvalue _ (List.getElem_mem _)
  obtain ⟨d₀, ds, rfl⟩ := List.exists_of_length_succ ds hlen
  obtain ⟨d₁, ds, rfl⟩ := List.exists_of_length_succ ds (Nat.succ.inj hlen)
  obtain ⟨d₂, ds, rfl⟩ := List.exists_of_length_succ ds (Nat.succ.inj (Nat.succ.inj hlen))
  obtain ⟨d₃, rfl⟩ := List.length_eq_one_iff.mp (Nat.succ.inj (Nat.succ.inj (Nat.succ.inj hlen)))
  simp only [List.mem_cons, List.not_mem_nil, or_false, forall_eq_or_imp, forall_eq] at hvalue
  have hnone : inaddrNone.toNat = 4294967295 := rfl
  simp only [List.getD_cons_zero, List.getD_cons_succ] at hsum
  rw [ne_eq, ← UInt32.toNat_inj, hsum, hnone]
  simp only [List.mem_cons, List.not_mem_nil, or_false, exists_eq_or_imp, exists_eq_left]
  omega

/-- A string is read rightly exactly if it is clean. -/
theorem right_iff (s : CString) : Right s ↔ Clean s := by
  unfold Right Clean Quad
  by_cases h : ∃ ds t, Dotted 3 s.chars ds t
  · obtain ⟨ds, t, hds⟩ := h
    obtain ⟨hlen, hvalue⟩ := dotted_parts 3 hds
    have hquad : (∃ es, Dotted 3 s.chars es [] ∧ [] ∉ es) ↔ t = [] ∧ [] ∉ ds := by
      constructor
      · rintro ⟨es, hes, hall⟩
        obtain ⟨rfl, rfl⟩ := dotted_unique 3 hds hes
        exact ⟨rfl, hall⟩
      · rintro ⟨rfl, hall⟩
        exact ⟨ds, hds, hall⟩
    rw [hquad, inetAddr_dotted hds, address_none hlen hvalue]
    constructor
    · rintro ⟨hsucceeds, -⟩ es u hes
      obtain ⟨rfl, rfl⟩ := dotted_unique 3 hds hes
      exact hsucceeds.symm
    · intro hclean
      refine ⟨(hclean ds t hds).symm, fun es hes => ?_⟩
      rw [(dotted_unique 3 hds hes.1).1]
  · rw [inetAddr_other h]
    refine iff_of_true ⟨iff_of_false (not_not.mpr rfl) fun ⟨ds, hds, _⟩ => h ⟨ds, [], hds⟩, fun ds hds => ?_⟩
      fun ds t hds => absurd ⟨ds, t, hds⟩ h
    exact absurd ⟨ds, [], hds.1⟩ h

end Address

/-! ## There and back -/

section Text

variable {v : Nat}

theorem digit_char {n : Nat} (hn : n < 10) :
    isDigit (UInt8.ofNat (0x30 + n)) = true ∧ digitValue (UInt8.ofNat (0x30 + n)) = n := by
  have hnat : (UInt8.ofNat (0x30 + n)).toNat = 0x30 + n := by
    rw [UInt8.toNat_ofNat']
    omega
  refine ⟨decide_eq_true ⟨?_, ?_⟩, ?_⟩
  · rw [UInt8.le_iff_toNat_le, hnat]
    exact Nat.le_add_right _ _
  · rw [UInt8.le_iff_toNat_le, hnat]
    show 0x30 + n ≤ 0x39
    omega
  · rw [digitValue, hnat]
    omega

theorem utoa10_digits {c : UInt8} (hc : c ∈ utoa10 v) : isDigit c = true := by
  unfold utoa10 at hc
  dsimp only at hc
  rw [List.mem_reverse] at hc
  split at hc
  · rw [List.mem_singleton.mp hc]
    rfl
  · obtain ⟨n, hn, rfl⟩ := List.mem_map.mp hc
    exact (digit_char (Nat.digits_lt_base (by decide) hn)).1

/-- The digits make the number again. -/
theorem horner_utoa10 (v : Nat) : horner 0 (utoa10 v) = v := by
  have hdigits : ∀ l : List Nat, (∀ n ∈ l, n < 10) →
      horner 0 (l.map fun d => UInt8.ofNat (0x30 + d)).reverse = Nat.ofDigits 10 l := by
    intro l hl
    unfold horner
    rw [List.foldl_reverse]
    induction l with
    | nil => rfl
    | cons n l ih =>
      rw [List.map_cons, List.foldr_cons, ih fun n hn => hl n (List.mem_cons_of_mem _ hn), Nat.ofDigits_cons,
        (digit_char (hl n (List.mem_cons_self ..))).2]
      omega
  unfold utoa10
  dsimp only
  split
  · rename_i hv
    rw [hv]
    rfl
  · rw [hdigits _ fun n hn => Nat.digits_lt_base (by decide) hn, Nat.ofDigits_digits]

theorem octet_eq (a : UInt32) (i : Nat) : octet a i = a.toNat / 256 ^ i % 256 := by
  unfold octet
  rw [Nat.shiftRight_eq_div_pow, show (0xFF : Nat) = 2 ^ 8 - 1 from rfl, Nat.and_two_pow_sub_one_eq_mod, Nat.pow_mul]

theorem octet_le (a : UInt32) (i : Nat) : octet a i ≤ 255 := by
  rw [octet_eq]
  omega

def octetTexts (a : UInt32) : List (List UInt8) :=
  [utoa10 (octet a 0), utoa10 (octet a 1), utoa10 (octet a 2), utoa10 (octet a 3)]

theorem part_utoa10 (hv : v ≤ 255) : Part (utoa10 v) :=
  ⟨fun _ hc => utoa10_digits hc, (horner_utoa10 v).trans_le hv⟩

theorem inetNtoa_dotted (a : UInt32) : Dotted 3 (inetNtoa a) (octetTexts a) [] := by
  refine ⟨_, _, _, rfl, rfl, part_utoa10 (octet_le a 0), _, _, _, rfl, rfl, part_utoa10 (octet_le a 1),
    _, _, _, rfl, rfl, part_utoa10 (octet_le a 2), _, rfl, (List.append_nil _).symm, part_utoa10 (octet_le a 3), nofun,
    fun _ => rfl⟩

theorem address_octets (a : UInt32) : address (octetTexts a) = a := by
  have h0 : horner 0 ((octetTexts a).getD 0 []) = octet a 0 := horner_utoa10 _
  have h1 : horner 0 ((octetTexts a).getD 1 []) = octet a 1 := horner_utoa10 _
  have h2 : horner 0 ((octetTexts a).getD 2 []) = octet a 2 := horner_utoa10 _
  have h3 : horner 0 ((octetTexts a).getD 3 []) = octet a 3 := horner_utoa10 _
  obtain ⟨-, hvalue⟩ := dotted_parts 3 (inetNtoa_dotted a)
  rw [← UInt32.toNat_inj]
  have hsum : (address (octetTexts a)).toNat = _ := joined_toNat fun i hi => by
    rw [List.getD_eq_getElem _ _ hi]
    exact hvalue _ (List.getElem_mem _)
  rw [hsum, h0, h1, h2, h3, octet_eq, octet_eq, octet_eq, octet_eq]
  have hlt := a.toNat_lt
  omega

theorem inetNtoa_terminated (a : UInt32) : 0 ∉ inetNtoa a := by
  have hzero : ∀ v, 0 ∉ utoa10 v := fun v h => absurd (utoa10_digits h) (by decide)
  unfold inetNtoa
  simp [hzero, dot]

end Text

/-- The string in the buffer of `inet_ntoa`. -/
def inetText (a : UInt32) : CString := ⟨inetNtoa a, inetNtoa_terminated a⟩

/-- Every address comes back from its text, and a string is read rightly exactly if it is clean. -/
theorem dotted_quads (a : UInt32) (s : CString) : inetAddr (some (inetText a)) = a ∧ (Right s ↔ Clean s) :=
  ⟨(inetAddr_dotted (s := inetText a) (inetNtoa_dotted a)).trans (address_octets a), right_iff s⟩

theorem part_nil : Part [] := ⟨nofun, Nat.zero_le _⟩

theorem part_digit {c : UInt8} (h : isDigit c = true) : Part [c] := by
  refine ⟨fun e he => List.mem_singleton.mp he ▸ h, ?_⟩
  have hle := UInt8.le_iff_toNat_le.mp (of_decide_eq_true h).2
  show 0 * 10 + (c.toNat - 0x30) ≤ 255
  have h39 : (0x39 : UInt8).toNat = 0x39 := rfl
  omega

/-- "1..2.3", "1.2.3." and "1.2.3.4x" are taken for addresses, and 255.255.255.255 for none. -/
theorem dotted_loose :
    inetAddr (some ⟨ascii "1..2.3", by decide⟩) = 0x03020001 ∧ ¬ Right ⟨ascii "1..2.3", by decide⟩ ∧
    inetAddr (some ⟨ascii "1.2.3.", by decide⟩) = 0x00030201 ∧ ¬ Right ⟨ascii "1.2.3.", by decide⟩ ∧
    inetAddr (some ⟨ascii "1.2.3.4x", by decide⟩) = 0x04030201 ∧ ¬ Right ⟨ascii "1.2.3.4x", by decide⟩ ∧
    ¬ Right (inetText inaddrNone) := by
  have hgap : Dotted 3 (ascii "1..2.3") [[0x31], [], [0x32], [0x33]] [] :=
    ⟨[0x31], _, _, rfl, rfl, part_digit rfl, [], _, _, rfl, rfl, part_nil, [0x32], _, _, rfl, rfl, part_digit rfl,
      [0x33], rfl, rfl, part_digit rfl, nofun, fun _ => rfl⟩
  have hcut : Dotted 3 (ascii "1.2.3.") [[0x31], [0x32], [0x33], []] [] :=
    ⟨[0x31], _, _, rfl, rfl, part_digit rfl, [0x32], _, _, rfl, rfl, part_digit rfl, [0x33], _, _, rfl, rfl,
      part_digit rfl, [], rfl, rfl, part_nil, nofun, fun _ => rfl⟩
  have hother : ∀ c ∈ ([0x78] : List UInt8).head?, isDigit c = false ∧ c ≠ dot := by
    intro c hc
    cases hc
    decide
  have hmore : Dotted 3 (ascii "1.2.3.4x") [[0x31], [0x32], [0x33], [0x34]] [0x78] :=
    ⟨[0x31], _, _, rfl, rfl, part_digit rfl, [0x32], _, _, rfl, rfl, part_digit rfl, [0x33], _, _, rfl, rfl,
      part_digit rfl, [0x34], rfl, rfl, part_digit rfl, hother, nofun⟩
  refine ⟨(inetAddr_dotted hgap).trans (by decide), fun h => ?_, (inetAddr_dotted hcut).trans (by decide), fun h => ?_,
    (inetAddr_dotted hmore).trans (by decide), fun h => ?_, fun h => ?_⟩
  · have hclean := ((right_iff _).mp h _ _ hgap).mpr ⟨[0x31], by decide, by decide⟩
    exact absurd hclean.2 (by decide)
  · have hclean := ((right_iff _).mp h _ _ hcut).mpr ⟨[0x31], by decide, by decide⟩
    exact absurd hclean.2 (by decide)
  · have hclean := ((right_iff _).mp h _ _ hmore).mpr ⟨[0x31], by decide, by decide⟩
    exact absurd hclean.1 (by decide)
  · obtain ⟨d, hd, hne⟩ := ((right_iff _).mp h _ _ (inetNtoa_dotted inaddrNone)).mp ⟨rfl, by decide⟩
    revert d
    decide

end MeuOS.Ws2
