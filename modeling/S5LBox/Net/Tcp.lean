import S5LBox.Net.Stack

/-!
# TCP toward the guest

One passive endpoint for each flow. The functions take the stack with the one flow they service,
so that nothing here can touch another flow; an early return of the source is a branch that ends.
-/

namespace S5LBox.Net

def hasFlag (flags flag : Octet) : Bool := flags &&& flag != 0

/-- The fixed header, its checksum and urgent pointer zero. -/
def tcpHeader (srcPort dstPort : Half) (seq ack : Word) (offset flags : Octet) (wnd : Half) :
    List Octet :=
  putBe16 srcPort ++ putBe16 dstPort ++ putBe32 seq ++ putBe32 ack ++ [offset, flags] ++
    putBe16 wnd ++ putBe16 0 ++ putBe16 0

/-- Write the checksum of a segment from `src` to `dst` into it. -/
def sealTcp (src dst : Word) (seg : List Octet) : List Octet :=
  writeBe16 seg 16 (netL4Checksum src dst protoTcp seg)

/-- The room left in the buffer toward the host. -/
def Flow.window (f : Flow) : ℕ := min (netTcpRxbuf - f.rxbuf.length) 0xffff

def Flow.ackField (f : Flow) (flags : Octet) : Word := if hasFlag flags flagAck then f.rcvNxt else 0

/-- The segment of `tcp_out`; a SYN carries the one option there is. -/
def Flow.segment (f : Flow) (flags : Octet) (seq : Word) (data : List Octet) : List Octet :=
  let syn := hasFlag flags flagSyn
  tcpHeader f.dstPort f.guestPort seq (f.ackField flags) (if syn then 0x60 else 0x50) flags
      (BitVec.ofNat 16 f.window) ++
    (if syn then [2, 4] ++ putBe16 (BitVec.ofNat 16 netTcpMssMax) else []) ++ data

/-- What sending a segment does to its flow. -/
def Flow.sent (f : Flow) (flags : Octet) (seq : Word) (data : List Octet) (queued : Bool) : Flow :=
  { f with needAck := f.needAck && !(queued && hasFlag flags flagAck) }.note
    (.segment flags seq (f.ackField flags) data queued)

namespace Conn

variable {η : Type} (c : Conn η)

def tcpOut (flags : Octet) (seq : Word) (data : List Octet) : Conn η :=
  let sent := c.env.netEmit c.flow.dstIp c.env.cfg.guestIp protoTcp
    (sealTcp c.flow.dstIp c.env.cfg.guestIp (c.flow.segment flags seq data))
  { env := sent.1, flow := c.flow.sent flags seq data sent.2 }

/-- Reset a flow and drop it. -/
def tcpAbort : Conn η := (c.tcpOut (flagRst ||| flagAck) c.flow.sndNxt []).netFlowFree

end Conn

/-- The reset of a segment that matches no connection, in its two forms. -/
def Env.tcpReject {η : Type} (env : Env η) (dstIp : Word) (seg : List Octet) (paylen : ℕ) : Env η :=
  let flags := octetAt seg 13
  if hasFlag flags flagRst then env
  else
    let reply := tcpHeader (getBe16 seg 2) (getBe16 seg 0)
    let bare :=
      if hasFlag flags flagAck then reply (getBe32 seg 8) 0 0x50 flagRst 0
      else
        reply 0 (getBe32 seg 4 + BitVec.ofNat 32 paylen + (if hasFlag flags flagSyn then 1 else 0) +
          (if hasFlag flags flagFin then 1 else 0)) 0x50 (flagRst ||| flagAck) 0
    (env.netEmit dstIp env.cfg.guestIp protoTcp (sealTcp dstIp env.cfg.guestIp bare)).1

def backoffLoop : ℕ → Word → Word
  | 0, ms => ms
  | turns + 1, ms => if ms < netTcpRtoMaxMs then backoffLoop turns (ms * 2) else ms

def tcpBackoff (rtx : Word) : Word :=
  let ms := backoffLoop rtx.toNat netTcpRtoMs
  if netTcpRtoMaxMs < ms then netTcpRtoMaxMs else ms

/-- One deadline for retransmission and for probing a closed window. -/
def Flow.tcpTimers (f : Flow) (nowMs : Word) : Flow :=
  if f.sndNxt != f.sndUna || (f.txbuf != [] && f.sndWnd == 0) then
    if f.rtoOn then f else { f with rtoOn := true, rtoAt := nowMs + tcpBackoff f.rtx }
  else { f with rtoOn := false, rtx := 0 }

/-- Octets of the send buffer in flight; the FIN is not one of them. -/
def Flow.tcpInflight (f : Flow) : ℕ :=
  let inflight := (f.sndNxt - f.sndUna).toNat
  if f.finSent && f.txbuf.length < inflight then f.txbuf.length else inflight

/-- The octets of the next segment after `sent` of them: what the window and the segment size
allow. -/
def Flow.nextSegment (f : Flow) (sent : ℕ) : List Octet :=
  (f.txbuf.drop sent).take (min (f.sndWnd.toNat - sent) f.mss.toNat)

/-- Advance over what was just sent. -/
def Flow.advance (f : Flow) (count : ℕ) : Flow :=
  { f with sndNxt := f.sndNxt + BitVec.ofNat 32 count }

namespace Conn

variable {η : Type} (c : Conn η)

def setFlow (f : Flow) : Conn η := { c with flow := f }

/-- Send a segment that occupies `count` sequence numbers from `snd_nxt` on. -/
def sendNext (flags : Octet) (data : List Octet) (count : ℕ) : Conn η :=
  let c := c.tcpOut flags c.flow.sndNxt data
  c.setFlow (c.flow.advance count)

/-- The loop that sends what the window allows. -/
def pumpData : ℕ → ℕ → Conn η → Conn η
  | 0, _, c => c
  | turns + 1, sent, c =>
    if c.flow.txbuf.length ≤ sent ∨ c.flow.sndWnd.toNat ≤ sent then c
    else
      let data := c.flow.nextSegment sent
      pumpData turns (sent + data.length) (c.sendNext (flagAck ||| flagPsh) data data.length)

end Conn

/-- The end of the host's stream commits the FIN to the sequence space. -/
def Flow.commitFin (f : Flow) : Flow :=
  if f.hostEof && !f.finSent && (f.state == .established || f.state == .closeWait) then
    { f with
      finSent := true
      state := if f.state == .closeWait then .lastAck else .finWait1 }
  else f

/-- Our FIN is outstanding and its turn has come. -/
def Flow.finDue (f : Flow) : Bool :=
  f.finSent && f.sndNxt == f.sndUna + BitVec.ofNat 32 f.txbuf.length &&
    (f.state == .finWait1 || f.state == .closing || f.state == .lastAck)

namespace Conn

variable {η : Type} (c : Conn η)

def pumpFin : Conn η :=
  if c.flow.finDue then c.sendNext (flagAck ||| flagFin) [] 1 else c

def pumpAck : Conn η := if c.flow.needAck then c.tcpOut flagAck c.flow.sndNxt [] else c

def setTimers : Conn η := c.setFlow (c.flow.tcpTimers c.env.nowMs)

def tcpPump : Conn η :=
  if c.flow.state == .synRcvd || c.flow.state == .timeWait then c
  else
    let c := pumpData (c.flow.txbuf.length - c.flow.tcpInflight) c.flow.tcpInflight c
    (c.setFlow c.flow.commitFin).pumpFin.pumpAck.setTimers

end Conn

/-- The guest's FIN has been accepted. -/
def tcpGuestFinished (s : TcpState) : Bool :=
  s == .closeWait || s == .closing || s == .lastAck || s == .timeWait

namespace Flow

variable (f : Flow)

/-- The egress accepted the first `count` octets of the buffer toward it. -/
def deliver (count : ℕ) : Flow :=
  { f with rxbuf := f.rxbuf.drop count, needAck := true }.note (.delivered (f.rxbuf.take count))

/-- The egress returned octets of the host's stream. -/
def append (data : List Octet) : Flow := { f with txbuf := f.txbuf ++ data }.note (.received data)

def endStream : Flow := { f with hostEof := true }.note .eof

/-- The retransmission timer expired. -/
def timeOut : Flow := { f with rtoOn := false, rtx := f.rtx + 1 }

def rewind : Flow := { f with sndNxt := f.sndUna }

end Flow

namespace Conn

variable {η : Type} (c : Conn η)

def setHost (host : η) : Conn η := { c with env := { c.env with host } }

/-- Push what the guest sent at the egress. The flag says that the egress did not fail. -/
def drain : Conn η × Bool :=
  if c.flow.rxbuf = [] then (c, true)
  else
    match c.env.eg.callSend c.env.host c.flow.handle c.flow.rxbuf with
    | (host, none) => ((c.setHost host).setFlow (c.flow.note .failed), false)
    | (host, some 0) => (c.setHost host, true)
    | (host, some (w + 1)) => ((c.setHost host).setFlow (c.flow.deliver (w + 1)), true)

/-- Once the guest has finished and its octets are gone, close the host's side. -/
def halfClose : Conn η :=
  if tcpGuestFinished c.flow.state && c.flow.rxbuf == [] && !c.flow.txShutdown then
    (c.setHost (c.env.eg.callShutdownTx c.env.host c.flow.handle)).setFlow
      { c.flow with txShutdown := true }
  else c

/-- Read from the egress while there is room and something to read, eight times at most. -/
def fillLoop : ℕ → Conn η → Conn η × Bool
  | 0, c => (c, true)
  | guard + 1, c =>
    if netTcpTxbuf ≤ c.flow.txbuf.length then (c, true)
    else
      match c.env.eg.callRecv c.env.host c.flow.handle (netTcpTxbuf - c.flow.txbuf.length) with
      | (host, .octets []) => (c.setHost host, true)
      | (host, .octets (first :: rest)) =>
        fillLoop guard ((c.setHost host).setFlow (c.flow.append (first :: rest)))
      | (host, .eof) => ((c.setHost host).setFlow c.flow.endStream, true)
      | (host, .error) => ((c.setHost host).setFlow (c.flow.note .failed), false)

def fill : Conn η × Bool := if c.flow.hostEof then (c, true) else fillLoop 8 c

/-- Whatever is left to send goes out, and a connection that both sides finished ends. -/
def pumpOrFree : Conn η :=
  let c := c.tcpPump
  if c.flow.state == .closed then c.netFlowFree else c

/-- One octet beyond a closed window. -/
def probe : Conn η := (c.sendNext flagAck (c.flow.txbuf.take 1) 1).setTimers

/-- The retransmission timer: give up, probe, or go back to the oldest octet. -/
def retransmit : Conn η :=
  if c.flow.rtoOn && expired c.env.nowMs c.flow.rtoAt then
    let f := c.flow.timeOut
    if netTcpRtxMax < f.rtx then (c.setFlow f).tcpAbort
    else if f.sndNxt == f.sndUna && f.txbuf != [] && f.sndWnd == 0 then (c.setFlow f).probe
    else (c.setFlow f.rewind).pumpOrFree
  else c.pumpOrFree

def tickTimeWait : Conn η :=
  let c := c.pumpAck
  if expired c.env.nowMs c.flow.closeAt then c.netFlowFree else c

/-- Wait for the host's connect before the SYN is answered. -/
def tickConnect : Conn η :=
  match c.env.eg.callStatus c.env.host c.flow.handle with
  | (host, .pending) =>
    if expired c.env.nowMs c.flow.closeAt then (c.setHost host).tcpAbort else c.setHost host
  | (host, .failed) => ((c.setHost host).setFlow (c.flow.note .failed)).tcpAbort
  | (host, .ready) =>
    (((c.setHost host).setFlow (c.flow.note .ready)).sendNext (flagSyn ||| flagAck) [] 1).setTimers

/-- The rest of the tick, for a flow that is past its connect. -/
def tickOpen : Conn η :=
  match c.drain with
  | (c, false) => c.tcpAbort
  | (c, true) =>
    match c.halfClose.fill with
    | (c, false) => c.tcpAbort
    | (c, true) => c.retransmit

def netTcpTick : Conn η :=
  if !c.flow.used then c
  else
    match c.flow.state with
    | .timeWait => c.tickTimeWait
    | .closed => c.netFlowFree
    | .synRcvd => if c.flow.sndNxt == c.flow.sndUna then c.tickConnect else c.tickOpen
    | _ => c.tickOpen

end Conn

structure Segment where
  seq : Word
  ack : Word
  flags : Octet
  wnd : Half
  payload : List Octet

def dataOffset (seg : List Octet) : ℕ := (octetAt seg 12 >>> 4).toNat * 4

def readSegment (seg : List Octet) : Segment where
  seq := getBe32 seg 4
  ack := getBe32 seg 8
  flags := octetAt seg 13
  wnd := getBe16 seg 14
  payload := seg.drop (dataOffset seg)

namespace Flow

variable (f : Flow)

/-- The acknowledgement of our FIN. -/
def finAcked (nowMs : Word) : Flow :=
  match f.state with
  | .finWait1 => { f with state := .finWait2 }
  | .closing => { f with state := .timeWait, closeAt := nowMs + netTcpTimeWaitMs }
  | .lastAck => { f with state := .closed }
  | _ => f

/-- The end of what has been sent or committed to be. -/
def ackLimit : Word :=
  let bufferEnd := f.sndUna + BitVec.ofNat 32 f.txbuf.length + (if f.finSent then 1 else 0)
  if netSeqLt bufferEnd f.sndNxt then f.sndNxt else bufferEnd

def tcpConsumeAck (nowMs ack : Word) : Flow :=
  if !netSeqLt f.sndUna ack || !netSeqLe ack f.ackLimit then f
  else
    let acked := (ack - f.sndUna).toNat
    let f' := { f with
      txbuf := f.txbuf.drop acked
      sndUna := ack
      sndNxt := if netSeqLt f.sndNxt ack then ack else f.sndNxt
      rtx := 0
      rtoOn := false }
    if f.finSent && f.txbuf.length < acked then f'.finAcked nowMs else f'

/-- The acknowledgement that completes the handshake. -/
def establish (ack : Word) : Flow :=
  if f.state == .synRcvd then
    { f with state := .established }.note (.established ack f.sndUna)
  else f

/-- The octets of a segment that are next in the guest's stream and fit the buffer. -/
def takePayload (seg : Segment) : Flow :=
  let data := (seg.payload.drop (f.rcvNxt - seg.seq).toNat).take (netTcpRxbuf - f.rxbuf.length)
  { f with
    rxbuf := f.rxbuf ++ data
    rcvNxt := f.rcvNxt + BitVec.ofNat 32 data.length
    needAck := true }.note (.buffered seg.seq seg.payload data)

def segmentEnd (seg : Segment) : Word := seg.seq + BitVec.ofNat 32 seg.payload.length

def receiveData (seg : Segment) : Flow :=
  if seg.payload != [] && !tcpGuestFinished f.state then
    if netSeqLe seg.seq f.rcvNxt && netSeqLt f.rcvNxt (segmentEnd seg) then f.takePayload seg
    else { f with needAck := true }
  else f

/-- The guest's FIN, in its turn. -/
def acceptFin (nowMs : Word) : Flow :=
  let f := { f with rcvNxt := f.rcvNxt + 1, needAck := true }.note .finished
  match f.state with
  | .established => { f with state := .closeWait }
  | .finWait1 => { f with state := .closing }
  | .finWait2 => { f with state := .timeWait, closeAt := nowMs + netTcpTimeWaitMs }
  | _ => f

def receiveFin (nowMs : Word) (seg : Segment) : Flow :=
  if hasFlag seg.flags flagFin then
    if tcpGuestFinished f.state then
      { f with
        needAck := true
        closeAt := if f.state == .timeWait then nowMs + netTcpTimeWaitMs else f.closeAt }
    else if segmentEnd seg == f.rcvNxt then f.acceptFin nowMs
    else f
  else f

end Flow

/-- What an acknowledging segment says first: its window and its acknowledgement. -/
def Flow.receiveAck (f : Flow) (nowMs : Word) (seg : Segment) : Flow :=
  { f with sndWnd := seg.wnd.setWidth 32 }.tcpConsumeAck nowMs seg.ack

/-- The handshake is still not done. -/
def Flow.handshaking (f : Flow) : Bool := f.state == .synRcvd && netSeqLt f.sndUna f.sndNxt

/-- The rest of an acknowledging segment, once past the handshake: its data and its FIN. -/
def Flow.receiveRest (f : Flow) (nowMs : Word) (seg : Segment) : Flow :=
  ((f.establish seg.ack).receiveData seg).receiveFin nowMs seg

namespace Conn

variable {η : Type} (c : Conn η)

def receiveAck (seg : Segment) : Conn η :=
  let f := c.flow.receiveAck c.env.nowMs seg
  if !f.used || f.handshaking then c.setFlow f
  else (c.setFlow (f.receiveRest c.env.nowMs seg)).netTcpTick

/-- A SYN for a flow that exists: repeat the SYN-ACK, or reset. -/
def receiveSyn : Conn η :=
  if c.flow.state == .synRcvd then
    if c.flow.sndNxt != c.flow.sndUna then c.tcpOut (flagSyn ||| flagAck) c.flow.sndUna [] else c
  else c.tcpAbort

def respond (seg : Segment) : Conn η :=
  if hasFlag seg.flags flagRst then (c.setFlow (c.flow.note .reset)).netFlowFree
  else if hasFlag seg.flags flagSyn then c.receiveSyn
  else if !hasFlag seg.flags flagAck then c
  else c.receiveAck seg

/-- Note the time of the last activity. -/
def touch : Conn η := c.setFlow { c.flow with lastMs := c.env.nowMs }

/-- `net_tcp_input` from where the flow is found. -/
def receive (seg : Segment) : Conn η := c.touch.respond seg

end Conn

/-- The segment size among the options of a SYN, `mss` when there is none. -/
def mssOption (seg : List Octet) (doff : ℕ) : ℕ → ℕ → Half → Half
  | 0, _, mss => mss
  | turns + 1, index, mss =>
    if doff ≤ index + 1 then mss
    else
      let kind := octetAt seg index
      let len := (octetAt seg (index + 1)).toNat
      if kind = 0 then mss
      else if kind = 1 then mssOption seg doff turns (index + 1) mss
      else if len < 2 ∨ doff < index + len then mss
      else mssOption seg doff turns (index + len)
        (if kind = 2 ∧ len = 4 then getBe16 seg (index + 2) else mss)

/-- The segment size we use: what the guest asks for, within reason. -/
def clampMss (mss : Half) : Half :=
  let mss := if netTcpMssMax < mss.toNat then BitVec.ofNat 16 netTcpMssMax else mss
  if mss < 64 then 64 else mss

/-- The flow of a SYN, before the egress is asked for it. -/
def Flow.synFlow (f : Flow) (seg : List Octet) (iss : Word) : Flow :=
  { f with
    irs := getBe32 seg 4
    rcvNxt := getBe32 seg 4 + 1
    sndWnd := (getBe16 seg 14).setWidth 32
    mss := clampMss (mssOption seg (dataOffset seg) (dataOffset seg) tcpHdrLen 536)
    state := .synRcvd
    sndUna := iss
    sndNxt := iss }.note (.opened iss (getBe32 seg 4))

namespace Conn

variable {η : Type} (c : Conn η)

/-- Ask the egress for the flow: refuse it, or wait for the connect. -/
def openHandle : Conn η :=
  match c.env.eg.callOpen c.env.host protoTcp c.flow.dstIp c.flow.dstPort with
  | (host, handle) =>
    if handle < 0 then ((c.setHost host).setFlow ({ c.flow with handle }.note .failed)).tcpAbort
    else
      ((c.setHost host).setFlow
        { c.flow with handle, closeAt := c.env.nowMs + 30000 }).netTcpTick

/-- `tcp_syn` from where the flow is allocated. -/
def openFlow (seg : List Octet) : Conn η :=
  let iss := c.env.issWalk + 0x9e3779b9
  openHandle { env := { c.env with issWalk := iss }, flow := c.flow.synFlow seg iss }

end Conn

namespace Stack

variable {η : Type} (s : Stack η)

def tcpSyn (dstIp : Word) (seg : List Octet) : Stack η :=
  match s.freeSlot with
  | none => { s with env := s.env.tcpReject dstIp seg 0 }
  | some i => s.service i fun c ↦
    (c.setFlow (.allocated protoTcp (getBe16 seg 0) dstIp (getBe16 seg 2) c.env.nowMs)).openFlow seg

/-- A segment that is long enough, sums to zero and whose header fits it. -/
def validSegment (src dst : Word) (seg : List Octet) : Bool :=
  tcpHdrLen ≤ seg.length && netL4Checksum src dst protoTcp seg == 0 &&
    tcpHdrLen ≤ dataOffset seg && dataOffset seg ≤ seg.length

def netTcpInput (src dst : Word) (seg : List Octet) : Stack η :=
  if !validSegment src dst seg then s
  else
    let flags := octetAt seg 13
    match s.netFlowFind protoTcp (getBe16 seg 0) dst (getBe16 seg 2) with
    | some i => s.service i fun c ↦ c.receive (readSegment seg)
    | none =>
      if hasFlag flags flagSyn && !hasFlag flags flagAck && !hasFlag flags flagRst then
        s.tcpSyn dst seg
      else { s with env := s.env.tcpReject dst seg (seg.length - dataOffset seg) }

end Stack

end S5LBox.Net
