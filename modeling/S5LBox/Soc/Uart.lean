import S5LBox.Library.CountedQueue
import S5LBox.Library.Run
import S5LBox.Word

/-!
# The serial port

`s5l_uart.c`: a receive queue of sixteen octets that the host fills and the guest empties through
a register, a latch that an arriving octet sets and a store clears, and the octets that the guest
has sent. The interrupt line is the latch behind an enable of the guest and a switch of the host.
-/

namespace S5LBox.Soc

open BitVec (ofNat)

def uartUlcon : Word := 0x00
def uartUcon : Word := 0x04
def uartUfcon : Word := 0x08
def uartUmcon : Word := 0x0c
def uartUtrstat : Word := 0x10
def uartUfstat : Word := 0x18
def uartUtxh : Word := 0x20
def uartUrxh : Word := 0x24
def uartUbrdiv : Word := 0x28

def utrstatRxReady : Word := 0x1
def utrstatTxBufEmpty : Word := 0x2
def utrstatTxEmpty : Word := 0x4
def utrstatRxInt : Word := 0x10
def utrstatLatched : Word := 0x178
def uconEnableShift : ℕ := 8
def ufstatRxFull : Word := 0x100
def uartTxBuffer : ℕ := 8192
def uartRxFifo : ℕ := 16

/-- `s5l_uart_t`, with the first `tx_len` octets of its buffer. -/
structure Uart where
  ulcon : Word
  ucon : Word
  ufcon : Word
  umcon : Word
  ubrdiv : Word
  tx : List Octet
  rxPushed : DWord
  rxDropped : DWord
  rxReads : DWord
  rxUnderruns : DWord
  rx : CountedQueue uartRxFifo Octet
  rxIrqSuppressed : Bool
  utrstatPending : Word

namespace Uart

def reset : Uart :=
  ⟨0, 0, 0, 0, 0, [], 0, 0, 0, 0, .empty (by decide) 0, false, 0⟩

def setRxIrq (u : Uart) (enabled : Bool) : Uart := { u with rxIrqSuppressed := !enabled }

def rxSpace (u : Uart) : ℕ := if uartRxFifo ≤ u.rx.count then 0 else uartRxFifo - u.rx.count

def utrstatEnables (u : Uart) : Word := (u.ucon >>> uconEnableShift) &&& utrstatLatched

def rxIrq (u : Uart) : Bool :=
  if u.rxIrqSuppressed then false else (u.utrstatPending &&& u.utrstatEnables) != 0

def rxPush (u : Uart) (octet : Octet) : Bool × Uart :=
  match u.rx.push octet with
  | none => (false, { u with rxDropped := u.rxDropped + 1 })
  | some rx =>
    (true, { u with
      rx
      rxPushed := u.rxPushed + 1
      utrstatPending := u.utrstatPending ||| utrstatRxInt })

/-- The registers that a read leaves as they are; the error and modem words are always zero. -/
def register (u : Uart) (off : Word) : Word :=
  if off = uartUlcon then u.ulcon
  else if off = uartUcon then u.ucon
  else if off = uartUfcon then u.ufcon
  else if off = uartUmcon then u.umcon
  else if off = uartUbrdiv then u.ubrdiv
  else if off = uartUtrstat then
    utrstatTxEmpty ||| utrstatTxBufEmpty ||| (if u.rx.count ≠ 0 then utrstatRxReady else 0) |||
      u.utrstatPending
  else if off = uartUfstat then
    (ofNat 32 u.rx.count &&& 0x0f) ||| if uartRxFifo ≤ u.rx.count then ufstatRxFull else 0
  else 0

/-- `s5l_uart_read`: only a read of `URXH` has an effect. -/
def read (u : Uart) (off : Word) : Word × Uart :=
  if off = uartUrxh then
    match u.rx.pop with
    | none => (0, { u with rxUnderruns := u.rxUnderruns + 1 })
    | some (octet, rx) => (octet.setWidth 32, { u with rx, rxReads := u.rxReads + 1 })
  else (u.register off, u)

def write (u : Uart) (off value : Word) : Uart :=
  if off = uartUlcon then { u with ulcon := value }
  else if off = uartUcon then { u with ucon := value }
  else if off = uartUfcon then { u with ufcon := value }
  else if off = uartUmcon then { u with umcon := value }
  else if off = uartUbrdiv then { u with ubrdiv := value }
  else if off = uartUtxh then
    if u.tx.length < uartTxBuffer - 1 then { u with tx := u.tx ++ [value.setWidth 8] } else u
  else if off = uartUtrstat then { u with utrstatPending := u.utrstatPending &&& ~~~value }
  else u

end Uart

/-- What the host and the guest do with a port. -/
inductive UartEvent
  | push (octet : Octet)
  | read (off : Word)
  | write (off value : Word)
  | setRxIrq (enabled : Bool)

/-- A port with its history: the octets that it accepted, that the guest has taken and that the
guest has sent, how many were refused, and whether one has come since the last acknowledge. -/
structure UartHistory where
  port : Uart
  accepted : List Octet
  received : List Octet
  sent : List Octet
  refused : ℕ
  announced : Bool

namespace UartHistory

def start : UartHistory := ⟨.reset, [], [], [], 0, false⟩

def step (h : UartHistory) : UartEvent → UartHistory
  | .push octet =>
    match h.port.rxPush octet with
    | (false, port) => { h with port, refused := h.refused + 1 }
    | (true, port) => { h with port, accepted := h.accepted ++ [octet], announced := true }
  | .read off =>
    { h with
      port := (h.port.read off).2
      received := h.received ++
        if off = uartUrxh ∧ h.port.rx.count ≠ 0 then [(h.port.read off).1.setWidth 8] else [] }
  | .write off value =>
    { h with
      port := h.port.write off value
      sent := h.sent ++ if off = uartUtxh then [value.setWidth 8] else []
      announced := h.announced && !(decide (off = uartUtrstat) && value.getLsbD 4) }
  | .setRxIrq enabled => { h with port := h.port.setRxIrq enabled }

/-- Octets are received once and in order, all events are counted, and the latch is set exactly
when an octet has come since the last acknowledge. -/
structure Exact (h : UartHistory) : Prop where
  order : h.received ++ h.port.rx.contents = h.accepted
  sent : h.port.tx = h.sent.take (uartTxBuffer - 1)
  pushed : h.port.rxPushed = ofNat 64 h.accepted.length
  dropped : h.port.rxDropped = ofNat 64 h.refused
  reads : h.port.rxReads = ofNat 64 h.received.length
  latch : h.port.utrstatPending = if h.announced then utrstatRxInt else 0

variable {h : UartHistory}

theorem exact_start : start.Exact where
  order := rfl
  sent := rfl
  pushed := rfl
  dropped := rfl
  reads := rfl
  latch := rfl

theorem Exact.push (hx : h.Exact) (octet : Octet) : (h.step (.push octet)).Exact := by
  cases hpush : h.port.rx.push octet with
  | none =>
    have hrefused : h.port.rxPush octet =
        (false, { h.port with rxDropped := h.port.rxDropped + 1 }) := by
      rw [Uart.rxPush, hpush]
    rw [step, hrefused]
    refine { hx with dropped := ?_ }
    rw [BitVec.ofNat_add, ← hx.dropped]
    rfl
  | some rx =>
    have htaken : h.port.rxPush octet = (true, { h.port with
        rx
        rxPushed := h.port.rxPushed + 1
        utrstatPending := h.port.utrstatPending ||| utrstatRxInt }) := by
      rw [Uart.rxPush, hpush]
    rw [step, htaken]
    refine { hx with order := ?_, pushed := ?_, latch := ?_ }
    · dsimp only
      rw [CountedQueue.contents_push hpush, ← List.append_assoc, hx.order]
    · dsimp only
      rw [hx.pushed, List.length_append, BitVec.ofNat_add]
      rfl
    · dsimp only
      rw [hx.latch]
      cases h.announced <;> rfl

theorem Exact.read (hx : h.Exact) (off : Word) : (h.step (.read off)).Exact := by
  by_cases hoff : off = uartUrxh
  case neg =>
    have hread : h.port.read off = (h.port.register off, h.port) := if_neg hoff
    rw [step, hread, if_neg fun hand ↦ hoff hand.1, List.append_nil]
    exact hx
  subst hoff
  cases hpop : h.port.rx.pop with
  | none =>
    have hread : h.port.read uartUrxh =
        (0, { h.port with rxUnderruns := h.port.rxUnderruns + 1 }) := by
      rw [Uart.read, if_pos rfl, hpop]
    rw [step, hread, if_neg fun hand ↦ hand.2 (CountedQueue.pop_eq_none.1 hpop), List.append_nil]
    exact { hx with }
  | some taken =>
    obtain ⟨octet, rx⟩ := taken
    have hcontents := CountedQueue.contents_pop hpop
    have hread : h.port.read uartUrxh =
        (octet.setWidth 32, { h.port with rx, rxReads := h.port.rxReads + 1 }) := by
      rw [Uart.read, if_pos rfl, hpop]
    have hsome : h.port.rx.count ≠ 0 := fun hzero ↦ by
      rw [CountedQueue.pop_eq_none.2 hzero] at hpop
      cases hpop
    rw [step, hread, if_pos ⟨rfl, hsome⟩]
    refine { hx with order := ?_, reads := ?_ }
    · dsimp only
      rw [← hx.order, hcontents, BitVec.setWidth_setWidth_of_le octet (by decide),
        BitVec.setWidth_eq, List.append_assoc, List.singleton_append]
    · dsimp only
      rw [hx.reads, List.length_append, BitVec.ofNat_add]
      rfl

/-- A store to a register that is neither the latch nor the transmitter. -/
theorem Exact.configure (hx : h.Exact) {port : Uart} (hport : port = { h.port with
      ulcon := port.ulcon
      ucon := port.ucon
      ufcon := port.ufcon
      umcon := port.umcon
      ubrdiv := port.ubrdiv }) : Exact { h with port } := by
  rw [hport]
  exact { hx with }

theorem Exact.write (hx : h.Exact) (off value : Word) : (h.step (.write off value)).Exact := by
  by_cases hsend : off = uartUtxh
  · subst hsend
    have hwrite : h.port.write uartUtxh value =
        if h.port.tx.length < uartTxBuffer - 1 then
          { h.port with tx := h.port.tx ++ [value.setWidth 8] }
        else h.port := rfl
    have hkept : (h.announced && !(decide (uartUtxh = uartUtrstat) && value.getLsbD 4)) =
        h.announced := by
      rw [decide_eq_false (by decide : uartUtxh ≠ uartUtrstat), Bool.false_and, Bool.not_false,
        Bool.and_true]
    rw [step, hwrite, hkept, if_pos rfl]
    have hlength := congrArg List.length hx.sent
    rw [List.length_take] at hlength
    split
    case isTrue hroom =>
      refine { hx with sent := ?_ }
      have hall : h.port.tx = h.sent := by
        rw [hx.sent, List.take_of_length_le (by omega)]
      dsimp only
      rw [hall, List.take_of_length_le (by rw [List.length_append, ← hall, List.length_singleton]; omega)]
    case isFalse hfull =>
      refine { hx with sent := ?_ }
      dsimp only
      rw [List.take_append_of_le_length (by omega), hx.sent]
  · rw [step, if_neg hsend, List.append_nil]
    by_cases hlatch : off = uartUtrstat
    · subst hlatch
      have hwrite : h.port.write uartUtrstat value =
          { h.port with utrstatPending := h.port.utrstatPending &&& ~~~value } := rfl
      rw [hwrite]
      refine { hx with latch := ?_ }
      dsimp only
      rw [hx.latch, decide_eq_true rfl, Bool.true_and]
      cases h.announced with
      | false => exact BitVec.zero_and
      | true =>
        rw [Bool.true_and, if_pos rfl, show utrstatRxInt = BitVec.twoPow 32 4 from rfl,
          BitVec.twoPow_and, BitVec.getLsbD_not]
        rfl
    · have hkept : (h.announced && !(decide (off = uartUtrstat) && value.getLsbD 4)) =
          h.announced := by
        rw [decide_eq_false hlatch, Bool.false_and, Bool.not_false, Bool.and_true]
      rw [hkept]
      refine hx.configure ?_
      simp only [Uart.write, hsend, hlatch, if_false]
      split_ifs <;> rfl

theorem Exact.step (hx : h.Exact) (event : UartEvent) : (h.step event).Exact := by
  cases event with
  | push octet => exact hx.push octet
  | read off => exact hx.read off
  | write off value => exact hx.write off value
  | setRxIrq enabled => exact { hx with }

/-- The line is the latch behind the enable of the guest and the switch of the host. -/
theorem Exact.rxIrq_eq (hx : h.Exact) :
    h.port.rxIrq = (h.announced && h.port.ucon.getLsbD 12 && !h.port.rxIrqSuppressed) := by
  rw [Uart.rxIrq, hx.latch]
  cases h.port.rxIrqSuppressed with
  | true => rw [if_pos rfl, Bool.not_true, Bool.and_false]
  | false =>
    rw [if_neg Bool.false_ne_true, Bool.not_false, Bool.and_true]
    cases h.announced with
    | false => exact bne_eq_false_iff_eq.2 BitVec.zero_and
    | true =>
      have hbit : h.port.utrstatEnables.getLsbD 4 = h.port.ucon.getLsbD 12 := by
        rw [Uart.utrstatEnables, BitVec.getLsbD_and, BitVec.getLsbD_ushiftRight]
        exact Bool.and_true _
      rw [if_pos rfl, show utrstatRxInt = BitVec.twoPow 32 4 from rfl, BitVec.twoPow_and, hbit]
      cases h.port.ucon.getLsbD 12 <;> rfl

end UartHistory

/-- In every run from a reset the port loses no octet that it accepted, and its line is up exactly
when one has come since the last acknowledge, the guest has enabled it and the host lets it. -/
theorem uartRun_exact (events : List UartEvent) :
    let h := Run.run UartHistory.step .start events
    h.Exact ∧ h.port.rxIrq = (h.announced && h.port.ucon.getLsbD 12 && !h.port.rxIrqSuppressed) :=
  have hx : (Run.run UartHistory.step .start events).Exact :=
    Run.invariant (fun _ event hx ↦ hx.step event) UartHistory.exact_start events
  ⟨hx, hx.rxIrq_eq⟩

end S5LBox.Soc
