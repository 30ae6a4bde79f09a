import MeuOS.Input.Mouse
import MeuOS.Win32.QueueRuns
import Mathlib.Data.List.Induction

/-! Every history of the two interrupts. The decoder takes the bytes of the mouse in order; where it
is in step with the packets each of them is one event, and where it is not, the bit that is set in
the first byte of a packet brings it back only if the motion bytes leave it clear. -/
namespace MeuOS.Input

open MeuOS.Lib MeuOS.Win32

/-! ## Packets -/

/-- A movement the mouse reports; y grows upwards. -/
structure Packet where
  dx : Int
  dy : Int
  left : Bool
  right : Bool
  middle : Bool
  dx_fits : -256 ≤ dx ∧ dx < 256
  dy_fits : -256 ≤ dy ∧ dy < 256

/-- The first byte: the buttons, the bit that is always set, and the signs. -/
def firstByte (left right middle negX negY : Bool) : UInt8 :=
  (if left then 0x01 else 0) + (if right then 0x02 else 0) + (if middle then 0x04 else 0) + 0x08 +
    (if negX then 0x10 else 0) + (if negY then 0x20 else 0)

/-- A motion byte, the low eight bits. -/
def motionByte (d : Int) : UInt8 := UInt8.ofNat (d % 256).toNat

namespace Packet

def first (p : Packet) : UInt8 := firstByte p.left p.right p.middle (p.dx < 0) (p.dy < 0)

def bytes (p : Packet) : List UInt8 := [p.first, motionByte p.dx, motionByte p.dy]

/-- On the screen y grows downwards. -/
def event (p : Packet) : MouseEvent :=
  { dx := p.dx
    dy := -p.dy
    buttons := (if p.left then mouseBtnLeft else 0) ||| (if p.right then mouseBtnRight else 0) |||
      (if p.middle then mouseBtnMiddle else 0) }

/-- The motion bytes that no decoder takes for a first byte. -/
def QuietX (p : Packet) : Prop := bitSet (motionByte p.dx) 0x08 = false
def QuietY (p : Packet) : Prop := bitSet (motionByte p.dy) 0x08 = false

end Packet

section Decoding

theorem firstByte_bits : ∀ left right middle negX negY : Bool,
    let b := firstByte left right middle negX negY
    bitSet b 0x01 = left ∧ bitSet b 0x02 = right ∧ bitSet b 0x04 = middle ∧ bitSet b 0x08 = true ∧
      bitSet b 0x10 = negX ∧ bitSet b 0x20 = negY ∧ bitSet b 0xC0 = false := by
  decide

theorem extendSign_eq (negative : Bool) (b : UInt8) :
    extendSign negative b = if negative then (b.toNat : Int) - 256 else b.toNat := by
  have hall : ∀ n : Fin 256, extendSign true (UInt8.ofNat n) = (n : Int) - 256 ∧
      extendSign false (UInt8.ofNat n) = n := by
    decide +kernel
  have hb := hall ⟨b.toNat, b.toNat_lt⟩
  rw [show UInt8.ofNat (⟨b.toNat, b.toNat_lt⟩ : Fin 256).val = b from UInt8.ofNat_toNat] at hb
  cases negative with
  | true => exact hb.1
  | false => exact hb.2

theorem extendSign_motionByte {d : Int} (h : -256 ≤ d ∧ d < 256) :
    extendSign (d < 0) (motionByte d) = d := by
  have hbyte : ((motionByte d).toNat : Int) = d % 256 := by
    unfold motionByte
    rw [UInt8.toNat_ofNat']
    omega
  rw [extendSign_eq, hbyte]
  split
  · rename_i hneg
    have hneg' := of_decide_eq_true hneg
    omega
  · rename_i hpos
    have hpos' := of_decide_eq_false (Bool.eq_false_iff.2 hpos)
    omega

theorem decodePacket_bytes (p : Packet) :
    decodePacket p.first (motionByte p.dx) (motionByte p.dy) = some p.event := by
  obtain ⟨hleft, hright, hmiddle, -, hnegX, hnegY, hover⟩ :=
    firstByte_bits p.left p.right p.middle (p.dx < 0) (p.dy < 0)
  unfold decodePacket Packet.first
  rw [hover, if_neg Bool.false_ne_true, hleft, hright, hmiddle, hnegX, hnegY,
    extendSign_motionByte p.dx_fits, extendSign_motionByte p.dy_fits]
  rfl

end Decoding

/-! ## The decoder -/

section Decoder

variable {s : Mouse} {b : UInt8} {p : Packet} {ps : List Packet}

/-- The phase after a byte. -/
def nextPhase (phase : Nat) (b : UInt8) : Nat :=
  if phase = 0 ∧ bitSet b 0x08 = false then 0 else if phase + 1 < 3 then phase + 1 else 0

theorem mouseByte_phase (s : Mouse) (b : UInt8) : (mouseByte s b).1.phase = nextPhase s.phase b := by
  unfold mouseByte nextPhase
  dsimp only
  split
  · rename_i h
    exact h.1
  · split
    · rfl
    · split <;> rfl

theorem nextPhase_le (h : s.phase ≤ 2) (b : UInt8) : nextPhase s.phase b ≤ 2 := by
  unfold nextPhase
  split
  · omega
  · split <;> omega

theorem feed_phase (l : List UInt8) (s : Mouse) :
    (feed mouseByte l s).1.phase = l.foldl nextPhase s.phase := by
  induction l generalizing s with
  | nil => rfl
  | cons b l ih =>
    rw [List.foldl_cons, ← mouseByte_phase]
    exact ih _

/-- A decoder that waits for a first byte makes one event of a packet. -/
theorem feed_packet (h : s.phase = 0) (p : Packet) :
    (feed mouseByte p.bytes s).1.phase = 0 ∧ (feed mouseByte p.bytes s).2 = [p.event] := by
  have hsync : bitSet p.first 0x08 = true :=
    (firstByte_bits p.left p.right p.middle (p.dx < 0) (p.dy < 0)).2.2.2.1
  obtain ⟨phase, pkt, buttons, irqCount⟩ := s
  cases h
  have hfirst : mouseByte ⟨0, pkt, buttons, irqCount⟩ p.first =
      (⟨1, Function.update pkt 0 p.first, buttons, irqCount⟩, none) := by
    unfold mouseByte
    simp [hsync]
  have hsecond : ∀ pkt, mouseByte ⟨1, pkt, buttons, irqCount⟩ (motionByte p.dx) =
      (⟨2, Function.update pkt 1 (motionByte p.dx), buttons, irqCount⟩, none) := by
    intro pkt
    unfold mouseByte
    simp
  have hthird : (mouseByte ⟨2, Function.update (Function.update pkt 0 p.first) 1 (motionByte p.dx),
      buttons, irqCount⟩ (motionByte p.dy)).2 = some p.event := by
    unfold mouseByte
    simp [Function.update_self, Function.update_of_ne, decodePacket_bytes]
  constructor
  · rw [feed_phase]
    simp [Packet.bytes, nextPhase, hsync]
  · unfold Packet.bytes
    simp only [feed, hfirst, hsecond, hthird]
    rfl

/-- The phase at the end of a packet. -/
def lag (phase : Nat) (p : Packet) : Nat :=
  if phase = 0 then 0
  else if phase = 1 then if bitSet (motionByte p.dy) 0x08 then 1 else 0
  else if bitSet (motionByte p.dx) 0x08 then 2
  else if bitSet (motionByte p.dy) 0x08 then 1 else 0

theorem packet_phase {phase : Nat} (h : phase ≤ 2) (p : Packet) :
    p.bytes.foldl nextPhase phase = lag phase p := by
  have hsync : bitSet p.first 0x08 = true :=
    (firstByte_bits p.left p.right p.middle (p.dx < 0) (p.dy < 0)).2.2.2.1
  unfold Packet.bytes lag
  simp only [List.foldl_cons, List.foldl_nil]
  rcases (by omega : phase = 0 ∨ phase = 1 ∨ phase = 2) with rfl | rfl | rfl
  · simp [nextPhase, hsync]
  · cases hy : bitSet (motionByte p.dy) 0x08 <;> simp [nextPhase, hsync, hy]
  · cases hx : bitSet (motionByte p.dx) 0x08 <;> cases hy : bitSet (motionByte p.dy) 0x08 <;>
      simp [nextPhase, hsync, hx, hy]

theorem packets_phase {phase : Nat} (h : phase ≤ 2) (ps : List Packet) :
    (ps.flatMap Packet.bytes).foldl nextPhase phase = ps.foldl lag phase := by
  induction ps generalizing phase with
  | nil => rfl
  | cons p ps ih =>
    have hlag : lag phase p ≤ 2 := by
      unfold lag
      repeat' split
      all_goals omega
    rw [List.flatMap_cons, List.foldl_append, packet_phase h, List.foldl_cons]
    exact ih hlag

/-- The packets bring a decoder in some phase back in step: one with a quiet dx byte, if two bytes
are missing of a packet, and then one with a quiet dy byte, which may be the same. -/
def Resyncs (phase : Nat) (ps : List Packet) : Prop :=
  if phase = 0 then True
  else if phase = 1 then ∃ p ∈ ps, p.QuietY
  else ∃ l p l', ps = l ++ p :: l' ∧ p.QuietX ∧ ∃ q ∈ p :: l', q.QuietY

theorem resyncs_zero : Resyncs 0 ps := trivial

theorem resyncs_one_cons : Resyncs 1 (p :: ps) ↔ p.QuietY ∨ Resyncs 1 ps := by
  unfold Resyncs
  simp

theorem resyncs_two_cons :
    Resyncs 2 (p :: ps) ↔ (p.QuietX ∧ Resyncs 1 (p :: ps)) ∨ Resyncs 2 ps := by
  unfold Resyncs
  rw [if_neg (by decide), if_neg (by decide), if_neg (by decide), if_pos rfl, if_neg (by decide),
    if_neg (by decide)]
  constructor
  · rintro ⟨l, q, l', hps, hquiet, hrest⟩
    cases l with
    | nil =>
      obtain ⟨rfl, rfl⟩ := List.cons.inj hps
      exact .inl ⟨hquiet, hrest⟩
    | cons r l =>
      obtain ⟨rfl, rfl⟩ := List.cons.inj hps
      exact .inr ⟨l, q, l', rfl, hquiet, hrest⟩
  · rintro (⟨hquiet, hrest⟩ | ⟨l, q, l', rfl, hquiet, hrest⟩)
    · exact ⟨[], p, ps, rfl, hquiet, hrest⟩
    · exact ⟨p :: l, q, l', rfl, hquiet, hrest⟩

theorem resyncs_one_of_two (h : Resyncs 2 ps) : Resyncs 1 ps := by
  unfold Resyncs at h ⊢
  rw [if_neg (by decide), if_neg (by decide)] at h
  rw [if_neg (by decide), if_pos rfl]
  obtain ⟨l, p, l', rfl, -, q, hq, hquiet⟩ := h
  exact ⟨q, List.mem_append_right l hq, hquiet⟩

theorem foldl_lag_iff {phase : Nat} (h : phase ≤ 2) (ps : List Packet) :
    ps.foldl lag phase = 0 ↔ Resyncs phase ps := by
  have hzero : ∀ ps : List Packet, ps.foldl lag 0 = 0 := by
    intro ps
    induction ps with
    | nil => rfl
    | cons p ps ih => exact ih
  have hone : ∀ ps : List Packet, ps.foldl lag 1 = 0 ↔ Resyncs 1 ps := by
    intro ps
    induction ps with
    | nil => simp [Resyncs]
    | cons p ps ih =>
      rw [resyncs_one_cons, ← ih, List.foldl_cons]
      unfold Packet.QuietY
      cases hy : bitSet (motionByte p.dy) 0x08 <;> simp [lag, hy, hzero]
  have htwo : ∀ ps : List Packet, ps.foldl lag 2 = 0 ↔ Resyncs 2 ps := by
    intro ps
    induction ps with
    | nil => simp [Resyncs]
    | cons p ps ih =>
      rw [resyncs_two_cons, List.foldl_cons]
      unfold Packet.QuietX
      cases hx : bitSet (motionByte p.dx) 0x08 with
      | true =>
        rw [show lag 2 p = 2 by simp [lag, hx], ih]
        simp
      | false =>
        rw [show lag 2 p = lag 1 p by simp [lag, hx], ← List.foldl_cons, hone]
        refine ⟨fun hback => .inl ⟨rfl, hback⟩, ?_⟩
        rintro (⟨-, hback⟩ | hback)
        · exact hback
        · exact resyncs_one_cons.2 (.inr (resyncs_one_of_two hback))
  rcases (by omega : phase = 0 ∨ phase = 1 ∨ phase = 2) with rfl | rfl | rfl
  · exact iff_of_true (hzero ps) resyncs_zero
  · exact hone ps
  · exact htwo ps

end Decoder

/-! ## The interrupts -/

/-- `sent` are the bytes the mouse has put into the output buffer, `taken` those that `mouse_irq`
has read, and `posted` the events it has passed on, all of them the oldest first. -/
structure Ps2World where
  sys : Ps2
  sent : List UInt8
  taken : List UInt8
  posted : List MouseEvent

inductive Ps2Op
  /-- A device puts a byte into the output buffer. -/
  | deliver (auxData : Bool) (b : UInt8)
  /-- What the empty buffer and its status bit say changes. -/
  | settle (auxData : Bool) (data : UInt8)
  | mouseIrq
  | keyboardIrq
  /-- The window manager and the readers of the console. -/
  | outside (wm : Wm) (stdin : Stdin)

/-- The controller holds one byte at a time. -/
def ps2Allowed (w : Ps2World) : Ps2Op → Prop
  | .deliver _ _ => w.sys.port.outputFull = false
  | .settle _ _ => w.sys.port.outputFull = false
  | _ => True

def ps2Step (scr : Screen) (w : Ps2World) : Ps2Op → Ps2World
  | .deliver auxData b =>
      { w with
        sys := { w.sys with port := ⟨true, auxData, b⟩ }
        sent := if auxData then w.sent ++ [b] else w.sent }
  | .settle auxData data => { w with sys := { w.sys with port := ⟨false, auxData, data⟩ } }
  | .mouseIrq =>
      let r := mouseIrq scr w.sys
      { w with
        sys := r.1
        taken := w.taken ++ (mouseTakes w.sys.port).toList
        posted := w.posted ++ r.2.toList }
  | .keyboardIrq => { w with sys := keyboardIrq w.sys }
  | .outside wm stdin => { w with sys := { w.sys with wm := wm, stdin := stdin } }

/-- The decoder after `mouse_init`. -/
def mouseStart : Mouse := ⟨0, fun _ => 0, 0, 0⟩

def Ps2Start (w : Ps2World) : Prop :=
  w.sys.mouse = mouseStart ∧ w.sys.port.outputFull = false ∧ w.sent = [] ∧ w.taken = [] ∧ w.posted = []

def Ps2Reach (scr : Screen) : Ps2World → Prop :=
  Reach Ps2Start (fun w op w' => ps2Allowed w op ∧ w' = ps2Step scr w op) fun _ _ => True

/-- The bytes are taken in the order they were sent, and the decoder is what they make of it. -/
structure Ps2Inv (w : Ps2World) : Prop where
  order : w.sent = w.taken ++ (mouseTakes w.sys.port).toList
  decoded : feed mouseByte w.taken mouseStart = (w.sys.mouse, w.posted)

section Interrupts

variable {scr : Screen} {w : Ps2World} {op : Ps2Op}

theorem mouseIrq_eq (scr : Screen) (s : Ps2) :
    (mouseIrq scr s).1.mouse = (feed mouseByte (mouseTakes s.port).toList s.mouse).1 ∧
      (mouseIrq scr s).2.toList = (feed mouseByte (mouseTakes s.port).toList s.mouse).2 ∧
      mouseTakes (mouseIrq scr s).1.port = none := by
  unfold mouseIrq
  cases htake : mouseTakes s.port with
  | none => exact ⟨rfl, rfl, htake⟩
  | some b =>
    dsimp only [Option.toList_some, feed]
    rw [List.append_nil]
    cases (mouseByte s.mouse b).2 <;> exact ⟨rfl, rfl, rfl⟩

theorem mouseIrq_reads (scr : Screen) {s : Ps2} {b : UInt8} (h : mouseTakes s.port = some b) :
    (mouseIrq scr s).1.port.outputFull = false := by
  unfold mouseIrq
  rw [h]
  dsimp only
  cases (mouseByte s.mouse b).2 <;> rfl

/-- The keyboard leaves a byte of the mouse where it is. -/
theorem keyboardIrq_frame (s : Ps2) : (keyboardIrq s).mouse = s.mouse ∧
    mouseTakes (keyboardIrq s).port = mouseTakes s.port := by
  unfold keyboardIrq
  cases haux : s.port.auxData with
  | true => exact ⟨rfl, rfl⟩
  | false =>
    have hkept : mouseTakes s.port.read = mouseTakes s.port := by
      simp [mouseTakes, I8042.read, haux]
    dsimp only
    rw [if_neg Bool.false_ne_true]
    repeat' split
    all_goals exact ⟨rfl, hkept⟩

theorem ps2Step_inv (hinv : Ps2Inv w) (hallowed : ps2Allowed w op) : Ps2Inv (ps2Step scr w op) := by
  obtain ⟨horder, hdecoded⟩ := hinv
  cases op with
  | deliver auxData b =>
    have hnone : mouseTakes w.sys.port = none := if_pos hallowed
    rw [hnone, Option.toList_none, List.append_nil] at horder
    refine ⟨?_, hdecoded⟩
    cases auxData <;> simp [ps2Step, mouseTakes, horder]
  | settle auxData data =>
    have hnone : mouseTakes w.sys.port = none := if_pos hallowed
    rw [hnone] at horder
    exact ⟨horder, hdecoded⟩
  | mouseIrq =>
    obtain ⟨hmouse, hout, hport⟩ := mouseIrq_eq scr w.sys
    refine ⟨?_, ?_⟩
    · simp only [ps2Step, hport, Option.toList_none, List.append_nil]
      exact horder
    · simp only [ps2Step]
      rw [feed_append, hdecoded, hmouse, hout]
  | keyboardIrq =>
    obtain ⟨hmouse, hport⟩ := keyboardIrq_frame w.sys
    refine ⟨?_, ?_⟩
    · simp only [ps2Step, hport]
      exact horder
    · simp only [ps2Step, hmouse]
      exact hdecoded
  | outside wm stdin => exact ⟨horder, hdecoded⟩

theorem ps2Reach_inv (hrun : Ps2Reach scr w) : Ps2Inv w := by
  refine Reach.invariant hrun ?_ ?_
  · rintro w ⟨hmouse, hfull, hsent, htaken, hposted⟩
    refine ⟨?_, ?_⟩
    · rw [hsent, htaken, show mouseTakes w.sys.port = none from if_pos hfull]
      rfl
    · rw [htaken, hmouse, hposted]
      rfl
  · rintro w op w' hinv - ⟨hallowed, rfl⟩
    exact ps2Step_inv hinv hallowed

end Interrupts

/-- What is there of a packet that is on its way. -/
def Partial (part : List UInt8) : Prop := ∃ (p : Packet) (n : Nat), n < 3 ∧ part = p.bytes.take n

theorem partial_phase {part : List UInt8} (h : Partial part) : part.foldl nextPhase 0 = part.length := by
  obtain ⟨p, n, hn, rfl⟩ := h
  have hsync : bitSet p.first 0x08 = true :=
    (firstByte_bits p.left p.right p.middle (p.dx < 0) (p.dy < 0)).2.2.2.1
  rcases (by omega : n = 0 ∨ n = 1 ∨ n = 2) with rfl | rfl | rfl
  · rfl
  · simp [Packet.bytes, nextPhase, hsync]
  · simp [Packet.bytes, nextPhase, hsync]

theorem partial_silent {part : List UInt8} (h : Partial part) {s : Mouse} (hs : s.phase = 0) :
    (feed mouseByte part s).2 = [] := by
  obtain ⟨p, n, hn, rfl⟩ := h
  have hsync : bitSet p.first 0x08 = true :=
    (firstByte_bits p.left p.right p.middle (p.dx < 0) (p.dy < 0)).2.2.2.1
  rcases (by omega : n = 0 ∨ n = 1 ∨ n = 2) with rfl | rfl | rfl
  · rfl
  · simp [Packet.bytes, feed, mouseByte, hs, hsync]
  · simp [Packet.bytes, feed, mouseByte, hs, hsync]

/-- In step from some byte on: an event for each packet behind it. -/
theorem feed_inStep {s : Mouse} (hs : s.phase = 0) (ps : List Packet) {part : List UInt8}
    (hpart : Partial part) :
    (feed mouseByte (ps.flatMap Packet.bytes ++ part) s).1.phase = part.length ∧
      (feed mouseByte (ps.flatMap Packet.bytes ++ part) s).2 = ps.map Packet.event := by
  have hframe : ∀ (p : Packet) (s : Mouse), s.phase = 0 →
      (feed mouseByte p.bytes s).1.phase = 0 ∧ (feed mouseByte p.bytes s).2 = [p.event] :=
    fun p s h => feed_packet h p
  obtain ⟨hphase, hevents⟩ := feed_frames hframe ps hs
  rw [feed_append]
  refine ⟨?_, ?_⟩
  · rw [feed_phase, hphase, partial_phase hpart]
  · rw [hevents, partial_silent hpart hphase, List.append_nil]

theorem stray_phase (stray : List UInt8) : stray.foldl nextPhase 0 ≤ 2 := by
  have hkept : ∀ (l : List UInt8) (s : Mouse), s.phase ≤ 2 → l.foldl nextPhase s.phase ≤ 2 := by
    intro l
    induction l with
    | nil => exact fun s h => h
    | cons b l ih =>
      intro s h
      have hnext := nextPhase_le h b
      rw [← mouseByte_phase] at hnext
      rw [List.foldl_cons, ← mouseByte_phase]
      exact ih _ hnext
  exact hkept stray mouseStart (Nat.zero_le 2)

/-- One event for each packet, in order, from the start on and again from the end of packets that
bring the decoder back in step; stray bytes in front of these put it out of step, and only such
packets bring it back. -/
theorem mouse_packets {scr : Screen} {w : Ps2World} (hrun : Ps2Reach scr w) :
    w.sys.mouse.phase ≤ 2 ∧ w.sent = w.taken ++ (mouseTakes w.sys.port).toList ∧
      (∀ (ps : List Packet) part, w.taken = ps.flatMap Packet.bytes ++ part → Partial part →
        w.posted = ps.map Packet.event ∧ w.sys.mouse.phase = part.length) ∧
      (∀ (stray : List UInt8) (back : List Packet), w.taken = stray ++ back.flatMap Packet.bytes →
        (w.sys.mouse.phase = 0 ↔ Resyncs (stray.foldl nextPhase 0) back)) ∧
      ∀ (stray : List UInt8) (back ps : List Packet) part,
        w.taken = stray ++ back.flatMap Packet.bytes ++ (ps.flatMap Packet.bytes ++ part) → Partial part →
        Resyncs (stray.foldl nextPhase 0) back →
        w.posted = (feed mouseByte (stray ++ back.flatMap Packet.bytes) mouseStart).2 ++
            ps.map Packet.event ∧
          w.sys.mouse.phase = part.length := by
  obtain ⟨horder, hdecoded⟩ := ps2Reach_inv hrun
  have hphase : w.sys.mouse.phase = w.taken.foldl nextPhase 0 := by
    have hfeed := feed_phase w.taken mouseStart
    rwa [hdecoded] at hfeed
  -- the phase behind the stray bytes and the packets after them
  have hback : ∀ (stray : List UInt8) (back : List Packet),
      (stray ++ back.flatMap Packet.bytes).foldl nextPhase 0 = 0 ↔
        Resyncs (stray.foldl nextPhase 0) back := by
    intro stray back
    rw [List.foldl_append, packets_phase (stray_phase stray), foldl_lag_iff (stray_phase stray)]
  refine ⟨?_, horder, fun ps part htaken hpart => ?_, fun stray back htaken => ?_, ?_⟩
  · rw [hphase]
    exact stray_phase w.taken
  · obtain ⟨hpart', hevents⟩ := feed_inStep (s := mouseStart) rfl ps hpart
    rw [← htaken, hdecoded] at hpart' hevents
    exact ⟨hevents, hpart'⟩
  · rw [hphase, htaken]
    exact hback stray back
  · intro stray back ps part htaken hpart hresyncs
    have hinStep : (feed mouseByte (stray ++ back.flatMap Packet.bytes) mouseStart).1.phase = 0 := by
      rw [feed_phase]
      exact (hback stray back).2 hresyncs
    obtain ⟨hpart', hevents⟩ := feed_inStep hinStep ps hpart
    rw [htaken, feed_append] at hdecoded
    obtain ⟨hmouse, hposted⟩ := Prod.mk.inj hdecoded
    rw [← hmouse, ← hposted, hevents]
    exact ⟨rfl, hpart'⟩

/-! ## Runs on given bytes -/

def ps2Idle : Ps2World := ⟨⟨⟨false, false, 0⟩, mouseStart, (0, 0), ⟨fun _ => 0, 0, 0⟩, wmInit⟩, [], [], []⟩

/-- The mouse may send what it likes, each byte after an interrupt that takes it. -/
theorem bytes_reached (scr : Screen) (l : List UInt8) :
    ∃ w, Ps2Reach scr w ∧ w.taken = l ∧ w.sys.port.outputFull = false := by
  induction l using List.reverseRecOn with
  | nil => exact ⟨ps2Idle, .start ⟨rfl, rfl, rfl, rfl, rfl⟩, rfl, rfl⟩
  | append_singleton l b ih =>
    obtain ⟨w, hreach, htaken, hempty⟩ := ih
    have hsent : Ps2Reach scr (ps2Step scr w (.deliver true b)) :=
      .step (a := .deliver true b) hreach trivial ⟨hempty, rfl⟩
    refine ⟨_, .step (a := .mouseIrq) hsent trivial ⟨trivial, rfl⟩, ?_, ?_⟩
    · simp [ps2Step, mouseTakes, htaken]
    · exact mouseIrq_reads scr rfl

/-- Eight up, with no button. -/
def upward : Packet := ⟨0, 8, false, false, false, by decide, by decide⟩

theorem mouse_packets_upward : ∃ w, Ps2Reach modeScreen w ∧ w.taken = [upward].flatMap Packet.bytes ++ [] ∧
    w.posted = [⟨0, -8, 0⟩] := by
  obtain ⟨w, hreach, htaken, -⟩ := bytes_reached modeScreen ([upward].flatMap Packet.bytes ++ [])
  exact ⟨w, hreach, htaken, ((mouse_packets hreach).2.2.1 [upward] [] htaken ⟨upward, 0, by decide, rfl⟩).1⟩

/-- One stray byte, and the decoder is out of step for as long as the mouse goes on like this. -/
theorem upward_phase (n : Nat) :
    ([0x08] ++ (List.replicate n upward).flatMap Packet.bytes).foldl nextPhase 0 = 1 := by
  have hlag : (List.replicate n upward).foldl lag 1 = 1 := by
    induction n with
    | zero => rfl
    | succ n ih =>
      rw [List.replicate_succ, List.foldl_cons, show lag 1 upward = 1 by decide]
      exact ih
  rw [List.foldl_append, packets_phase (by decide)]
  exact hlag

/-- No number of packets is enough to bring the decoder back in step. -/
theorem not_back_in_step : ¬ ∃ bound, ∀ (w : Ps2World) (stray : List UInt8) (ps : List Packet),
    Ps2Reach modeScreen w → w.taken = stray ++ ps.flatMap Packet.bytes → bound ≤ ps.length →
      w.sys.mouse.phase = 0 := by
  rintro ⟨bound, hback⟩
  obtain ⟨w, hreach, htaken, -⟩ :=
    bytes_reached modeScreen ([0x08] ++ (List.replicate bound upward).flatMap Packet.bytes)
  have hzero := hback w _ _ hreach htaken (by rw [List.length_replicate])
  have hfeed := feed_phase w.taken mouseStart
  rw [(ps2Reach_inv hreach).decoded, htaken] at hfeed
  have hone := hfeed.trans (upward_phase bound)
  rw [hzero] at hone
  cases hone

end MeuOS.Input
