import S5LBox.Ppp.Framing
import S5LBox.Ppp.Transmit
import S5LBox.Soc.Uart

/-!
# The line between the peer and the guest

`ppp_pump_step` moves what the PPP peer has to send into the receive queue of the serial port, no
more than there is room for. What the guest takes from the port is then what the peer has sent,
whatever the guest does with the registers in between; and when all of it has come, the packets
that a deframer finds in it are those that were sent.
-/

namespace S5LBox.Soc

open Ppp

/-- The last loop of `ppp_pump_step`, on the port and its history. -/
def pumpLoop : (room : ℕ) → Peer → UartHistory → Peer × UartHistory
  | 0, p, h => (p, h)
  | room + 1, p, h =>
    match outputByte p with
    | (none, p) => (p, h)
    | (some octet, p) =>
      if (h.port.rxPush octet).1 then pumpLoop room p (h.step (.push octet))
      else (p, h.step (.push octet))

def pppPumpStep (p : Peer) (h : UartHistory) : Peer × UartHistory := pumpLoop h.port.rxSpace p h

/-- The runs of the peer and the port from their start: frames are sent, the pump is turned, and
the guest and the operator do what they like with the port. -/
inductive SerialLine : Peer → UartHistory → (frames : List (List Octet)) → Prop
  | start (cfg : Config) : SerialLine (pppInit cfg) .start []
  | elsewhere {p q : Peer} {s : UartHistory} {frames : List (List Octet)}
      (h : SerialLine p s frames) (hring : q.ring = p.ring) : SerialLine q s frames
  | accept {p : Peer} {s : UartHistory} {frames : List (List Octet)} (proto : Half)
      (info : List Octet) (h : SerialLine p s frames) (hfits : p.Fits proto info)
      (hclear : p.Clear (p.encoding proto info).length) :
      SerialLine (txFrame p proto info) s (frames ++ [p.encoding proto info])
  | refuse {p : Peer} {s : UartHistory} {frames : List (List Octet)} (proto : Half)
      (info : List Octet) (h : SerialLine p s frames) (hfull : ¬p.Fits proto info) :
      SerialLine (txFrame p proto info) s frames
  | pump {p : Peer} {s : UartHistory} {frames : List (List Octet)} (h : SerialLine p s frames) :
      SerialLine (pppPumpStep p s).1 (pppPumpStep p s).2 frames
  | port {p : Peer} {s : UartHistory} {frames : List (List Octet)} (event : UartEvent)
      (h : SerialLine p s frames) (hpush : ∀ octet, event ≠ .push octet) :
      SerialLine p (s.step event) frames

/-- The port has accepted what the peer has removed, and has refused nothing. -/
structure Fed (p : Peer) (s : UartHistory) (frames : List (List Octet)) : Prop where
  transmits : Transmits Peer.Clear p frames s.accepted
  exact : s.Exact
  lossless : s.refused = 0

variable {p : Peer} {s : UartHistory} {frames : List (List Octet)}

theorem rxPush_of_room (hroom : s.port.rx.count < uartRxFifo) (octet : Octet) :
    (s.port.rxPush octet).1 = true ∧ (s.step (.push octet)).accepted = s.accepted ++ [octet] ∧
      (s.step (.push octet)).refused = s.refused ∧
        (s.step (.push octet)).port.rx.count = s.port.rx.count + 1 := by
  obtain ⟨rx, hpush⟩ := Option.ne_none_iff_exists'.1
    (mt CountedQueue.push_eq_none.1 (Nat.ne_of_lt hroom) : s.port.rx.push octet ≠ none)
  have hcount := congrArg List.length (CountedQueue.contents_push hpush)
  rw [List.length_append, CountedQueue.length_contents, CountedQueue.length_contents] at hcount
  rw [UartHistory.step, Uart.rxPush, hpush]
  exact ⟨rfl, rfl, rfl, hcount⟩

/-- The loop loses nothing, and ends at an empty ring or when there is no room left. -/
theorem pumpLoop_feeds {room : ℕ} (hroom : s.port.rx.count + room = uartRxFifo)
    (h : Fed p s frames) :
    Fed (pumpLoop room p s).1 (pumpLoop room p s).2 frames ∧
      ((pumpLoop room p s).1.pending = [] ∨
        (pumpLoop room p s).2.port.rx.count = uartRxFifo) := by
  induction room generalizing p s with
  | zero => exact ⟨h, .inr hroom⟩
  | succ room ih =>
    have hremoved := h.transmits.octet
    rw [pumpLoop]
    by_cases hempty : p.txHead = p.txTail
    · have hbyte : outputByte p = (none, p) := if_pos hempty
      rw [hbyte]
      exact ⟨h, .inl (RingBuffer.queue_of_empty hempty)⟩
    · have hbyte : outputByte p = (some (p.tx (p.txTail.toNat % txRing)),
          { p with txTail := p.txTail + 1 }) := if_neg hempty
      rw [hbyte] at hremoved ⊢
      obtain ⟨htaken, haccepted, hrefused, hcount⟩ := rxPush_of_room
        (show s.port.rx.count < uartRxFifo by omega) (p.tx (p.txTail.toNat % txRing))
      dsimp only
      rw [if_pos htaken]
      refine ih (by omega) ⟨?_, h.exact.step _, hrefused.trans h.lossless⟩
      rw [haccepted]
      exact hremoved

theorem pppPumpStep_feeds (h : Fed p s frames) :
    Fed (pppPumpStep p s).1 (pppPumpStep p s).2 frames ∧
      ((pppPumpStep p s).1.pending = [] ∨
        (pppPumpStep p s).2.port.rx.count = uartRxFifo) := by
  refine pumpLoop_feeds ?_ h
  have hle := s.port.rx.count_le
  unfold Uart.rxSpace
  split <;> omega

theorem SerialLine.fed (h : SerialLine p s frames) : Fed p s frames := by
  induction h with
  | start cfg => exact ⟨.start cfg, UartHistory.exact_start, rfl⟩
  | elsewhere h hring ih => exact { ih with transmits := ih.transmits.elsewhere hring }
  | accept proto info h hfits hclear ih =>
    exact { ih with transmits := ih.transmits.accept proto info hfits hclear }
  | refuse proto info h hfull ih =>
    exact { ih with transmits := ih.transmits.refuse proto info hfull }
  | pump h ih => exact (pppPumpStep_feeds ih).1
  | port event h hpush ih =>
    cases event with
    | push octet => exact absurd rfl (hpush octet)
    | read off => exact { ih with exact := ih.exact.step _ }
    | write off value => exact { ih with exact := ih.exact.step _ }
    | setRxIrq enabled => exact { ih with exact := ih.exact.step _ }

/-- What the guest has taken, what waits in the port and what waits in the ring are the frames of
the peer, whole and in order; the port has dropped nothing; and the pump always gets as far as the
ring and the port allow. -/
theorem serialLine_delivers (h : SerialLine p s frames) :
    s.received ++ s.port.rx.contents ++ p.pending = frames.flatten ∧ s.port.rxDropped = 0 ∧
      ((pppPumpStep p s).1.pending = [] ∨
        (pppPumpStep p s).2.port.rx.count = uartRxFifo) := by
  have hfed := h.fed
  refine ⟨?_, ?_, (pppPumpStep_feeds hfed).2⟩
  · rw [hfed.exact.order]
    exact flatten_accepted hfed.transmits
  · rw [hfed.exact.dropped, hfed.lossless]
    rfl

theorem SerialLine.reads (h : SerialLine p s frames) (turns : ℕ) :
    SerialLine p (Run.run UartHistory.step s (List.replicate turns (.read uartUrxh))) frames := by
  induction turns generalizing s with
  | zero => exact h
  | succ turns ih => exact ih (h.port _ fun _ ↦ nofun)

/-- One short frame after the pump. -/
def shortLine : Peer × UartHistory :=
  pppPumpStep (txFrame (pppInit configDefault) protoIp shortInfo) .start

theorem serialLine_shortLine : SerialLine shortLine.1 shortLine.2 [shortFrame] := by
  have hlength : (Peer.encoding (pppInit configDefault) protoIp shortInfo).length = 16 :=
    length_shortFrame
  refine .pump (.accept protoIp shortInfo (.start configDefault) ?_ ?_)
  · rw [Peer.Fits, hlength]
    decide
  · rw [hlength]
    exact .inr (by decide)

theorem serialLine_delivers_shortLine :
    shortLine.2.received ++ shortLine.2.port.rx.contents ++ shortLine.1.pending =
      [shortFrame].flatten :=
  (serialLine_delivers serialLine_shortLine).1

theorem handed_after_flag (g : Peer) : handed (inputByte g flag) flag = [] := by
  have h := receiving_flag g
  have hcompleted : (inputByte g flag).completed = none := by
    rw [Peer.completed, h.rxbuf]
    rfl
  rw [handed, if_pos rfl, hcompleted, Option.elim_none]

theorem handedAll_frame {g : Peer} {proto : Half} {info : List Octet} {accm : Word} {cap : ℕ}
    (hquiet : handed g flag = []) (heven : proto.getLsbD 8 = false)
    (hlength : info.length ≤ mruDefault) (hsome : pppFrame proto info accm cap ≠ []) :
    handedAll g (pppFrame proto info accm cap) = [(proto, info)] ∧
      handed (pppInput g (pppFrame proto info accm cap)) flag = [] := by
  have hwhole : pppFrame proto info accm cap =
      flag :: ((frameBody proto info).flatMap (emit accm) ++ [flag]) := by
    rw [pppFrame_eq hlength] at hsome ⊢
    exact if_neg fun hshort ↦ hsome (if_pos hshort)
  have hroom : ([] : List Octet).length + (frameBody proto info).length ≤ maxFrame := by
    rw [length_frameBody, List.length_nil]
    unfold maxFrame
    omega
  obtain ⟨hreceiving, hnothing⟩ := receiving_body (receiving_flag g) accm hroom
  have hhanded := handed_of_receiving hreceiving (frameBody_ne_nil proto info)
  rw [List.nil_append, decodeFrame_frameBody info heven] at hhanded
  rw [hwhole]
  constructor
  · rw [handedAll, hquiet, handedAll_append, hnothing, handedAll, hhanded]
    rfl
  · rw [pppInput, List.foldl_cons, List.foldl_append]
    exact handed_after_flag _

/-- The frames of some packets, under whatever character maps. -/
def Frames : List (List Octet) → List (Half × List Octet) → Prop :=
  List.Forall₂ fun frame packet ↦ packet.1.getLsbD 8 = false ∧ packet.2.length ≤ mruDefault ∧
    frame ≠ [] ∧ ∃ accm, frame = pppFrame packet.1 packet.2 accm (2 * maxFrame + 2)

theorem handedAll_frames {g : Peer} {packets : List (Half × List Octet)}
    (hquiet : handed g flag = []) (h : Frames frames packets) :
    handedAll g frames.flatten = packets := by
  induction h generalizing g with
  | nil => rfl
  | cons hframe _ ih =>
    obtain ⟨heven, hlength, hsome, accm, rfl⟩ := hframe
    obtain ⟨hhanded, hquiet'⟩ := handedAll_frame hquiet heven hlength hsome
    rw [List.flatten_cons, handedAll_append, hhanded, ih hquiet']
    rfl

/-- When nothing waits any more, a deframer that was given what the guest has taken has handed on
the packets that were sent, in order. -/
theorem serialLine_hands (h : SerialLine p s frames) {packets : List (Half × List Octet)}
    (hframes : Frames frames packets) (hdrained : p.pending = []) (hempty : s.port.rx.contents = [])
    (cfg : Config) : handedAll (pppInit cfg) s.received = packets := by
  have hfed := h.fed
  have hall := flatten_accepted hfed.transmits
  rw [hdrained, List.append_nil, ← hfed.exact.order, hempty, List.append_nil] at hall
  rw [hall]
  exact handedAll_frames rfl hframes

theorem serialLine_hands_shortLine : handedAll (pppInit configDefault) (Run.run UartHistory.step
    shortLine.2 (List.replicate 16 (.read uartUrxh))).received = [(protoIp, shortInfo)] := by
  have hframes : Frames [shortFrame] [(protoIp, shortInfo)] :=
    .cons ⟨by decide, by decide, List.ne_nil_of_length_pos (length_shortFrame ▸ by decide),
      0xffffffff, rfl⟩ .nil
  have hdrained : shortLine.1.pending = [] := by decide +kernel
  have hempty : (Run.run UartHistory.step shortLine.2
      (List.replicate 16 (.read uartUrxh))).port.rx.contents = [] := by decide +kernel
  exact serialLine_hands (serialLine_shortLine.reads 16) hframes hdrained hempty configDefault

end S5LBox.Soc
