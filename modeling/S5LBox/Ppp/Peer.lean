import S5LBox.Ppp.Automaton

/-!
# The peer as a reactive system

Packet dispatch, the octet-at-a-time deframer, the restart timers and the calls the machine
makes. `step` is one event of the peer's environment.
-/

namespace S5LBox.Ppp

/-- The header checks of `cp_input`: code, identifier, the declared length and the data. -/
def controlPacket (packet : List Octet) : Option (Octet × Octet × ℕ × List Octet) :=
  let plen := (getBe16 packet 2).toNat
  if packet.length < 4 ∨ plen < 4 ∨ packet.length < plen then none
  else some (octetAt packet 0, octetAt packet 1, plen, (packet.take plen).drop 4)

/-- The Echo-Request arm of `cp_input`. -/
def echoRequest (p : Peer) (proto : Control) (id : Octet) (data : List Octet) : Peer :=
  if proto ≠ .lcp ∨ (p.fsmFor proto).state ≠ .opened ∨ data.length < 4 then p
  else
    let reply := putBe32 p.ourMagic ++ (data.take mruDefault).drop 4
    let p := sendCp p proto echoReply id reply
    { p with stats := { p.stats with echoReplies := p.stats.echoReplies + 1 } }

/-- The default arm of `cp_input`: an unknown code is rejected with the packet as its data. -/
def unknownCode (p : Peer) (proto : Control) (packet : List Octet) (plen : ℕ) : Peer :=
  let p := { p with stats := { p.stats with unknownCodes := p.stats.unknownCodes + 1 } }
  let f := p.fsmFor proto
  let p := p.setFsm proto { f with nextId := f.nextId + 1 }
  sendCp p proto codeRej f.nextId
    (packet.take (if mruDefault - 4 < plen then mruDefault - 4 else plen))

def cpInput (p : Peer) (proto : Control) (packet : List Octet) : Peer :=
  match controlPacket packet with
  | none => p
  | some (code, id, plen, data) =>
    if code = confReq then evRcr p proto id data
    else if code = confAck then evRca p proto id
    else if code = confNak then
      evRcn (if id = (p.fsmFor proto).lastReqId then applyNak p proto data else p) proto id
    else if code = confRej then
      evRcn (if id = (p.fsmFor proto).lastReqId then applyRej p proto data else p) proto id
    else if code = termReq then evRtr p proto id
    else if code = termAck then evRta p proto
    else if code = codeRej ∨ code = protoRej then evRxj p proto
    else if code = echoReq then echoRequest p proto id data
    else if code = echoReply ∨ code = discardReq then p
    else unknownCode p proto packet plen

/-- The IP arm of `frame_input`. -/
def ipInput (p : Peer) (info : List Octet) : Peer :=
  let p := { p with stats := { p.stats with
    ipFramesIn := p.stats.ipFramesIn + 1, ipBytesIn := p.stats.ipBytesIn + info.length } }
  if p.ipSink ∧ p.ipcp.state = .opened then { p with sunk := p.sunk ++ [info] }
  else { p with stats := { p.stats with ipFramesDropped := p.stats.ipFramesDropped + 1 } }

/-- The default arm of `frame_input`: a Protocol-Reject, in the LCP Opened state only. -/
def unknownProtocol (p : Peer) (proto : Half) (info : List Octet) : Peer :=
  let p := { p with stats := { p.stats with unknownProtos := p.stats.unknownProtos + 1 } }
  if p.lcp.state = .opened then
    let id := p.lcp.nextId
    let p := p.setFsm .lcp { p.lcp with nextId := id + 1 }
    sendCp p .lcp protoRej id (putBe16 proto ++ info.take (mruDefault - 2))
  else p

/-- The last switch of `frame_input`. -/
def dispatch (p : Peer) (proto : Half) (info : List Octet) : Peer :=
  if proto = Control.lcp.number then cpInput p .lcp info
  else if proto = Control.ipcp.number then cpInput p .ipcp info
  else if proto = protoIp then ipInput p info
  else unknownProtocol p proto info

def frameInput (p : Peer) (frame : List Octet) : Peer :=
  match decodeFrame frame with
  | .short => { p with stats := { p.stats with shortFrames := p.stats.shortFrames + 1 } }
  | .badFcs => { p with stats := { p.stats with fcsErrors := p.stats.fcsErrors + 1 } }
  | .packet proto info =>
    dispatch { p with stats := { p.stats with framesIn := p.stats.framesIn + 1 } } proto info

/-- The frame a flag completes, when it completes one that is worth decoding. -/
def Peer.completed (p : Peer) : Option (List Octet) :=
  if p.escaped ∨ ¬p.inFrame ∨ p.rxbuf = [] ∨ p.overlong then none else some p.rxbuf

/-- The flag arm of `ppp_input_byte`, before the reception buffer is cleared. -/
def flagInput (p : Peer) : Peer :=
  match p.completed with
  | some frame => frameInput p frame
  | none =>
    if p.escaped then { p with stats := { p.stats with aborts := p.stats.aborts + 1 } }
    else if p.inFrame ∧ p.rxbuf ≠ [] then
      { p with stats := { p.stats with longFrames := p.stats.longFrames + 1 } }
    else p

def inputByte (p : Peer) (octet : Octet) : Peer :=
  let p := { p with stats := { p.stats with rxBytes := p.stats.rxBytes + 1 } }
  if octet = flag then
    { flagInput p with rxbuf := [], escaped := false, overlong := false, inFrame := true }
  else if !p.inFrame then p
  else if octet = escape then { p with escaped := true }
  else
    let octet := if p.escaped then octet ^^^ trans else octet
    let p := { p with escaped := false }
    if maxFrame ≤ p.rxbuf.length then { p with overlong := true }
    else { p with rxbuf := p.rxbuf ++ [octet] }

def restartTimeout (p : Peer) (proto : Control) : Peer :=
  let f := p.fsmFor proto
  if f.restarts = 0 then
    let p := restartStop p proto
    match f.state with
    | .closing => p.setState proto .closed
    | .stopping | .reqSent | .ackRcvd | .ackSent => p.setState proto .stopped
    | _ => p
  else
    match f.state with
    | .closing | .stopping =>
      let p := sendCp p proto termReq f.lastReqId []
      restartStart (spendRestart p proto) proto
    | .reqSent | .ackRcvd | .ackSent => scr p proto false
    | _ => restartStop p proto

/-- One of the two timer tests of `ppp_tick`. -/
def expire (p : Peer) (proto : Control) : Peer :=
  let f := p.fsmFor proto
  if f.timerRunning ∧ f.restartAtMs ≤ p.nowMs then restartTimeout p proto else p

def pppTick (p : Peer) (now : Word) : Peer :=
  if now < p.nowMs then p
  else expire (expire { p with nowMs := now } .lcp) .ipcp

def setIpSink (p : Peer) (installed : Bool) : Peer := { p with ipSink := installed }

def sendIp (p : Peer) (packet : List Octet) : Bool × Peer :=
  if packet = [] then (false, p)
  else if p.ipcp.state ≠ .opened ∨ p.peerMru.toNat < packet.length then
    (false, { p with stats := { p.stats with txOverflows := p.stats.txOverflows + 1 } })
  else
    let q := txFrame p protoIp packet
    if q.stats.framesOut = p.stats.framesOut then (false, q)
    else
      (true, { q with stats := { q.stats with
        ipFramesOut := q.stats.ipFramesOut + 1
        ipBytesOut := q.stats.ipBytesOut + packet.length } })

def pppOpen (p : Peer) : Peer :=
  if p.opened then p
  else
    let p := { p with opened := true }
    let p := p.setFsm .lcp { p.lcp with reqOpts := reqLcpMagic ||| reqLcpAsyncmap }
    scr ((irc p .lcp maxConfigure).setState .lcp .reqSent) .lcp true

def pppClose (p : Peer) : Peer :=
  let p := { p with opened := false }
  let p := if p.lcp.state = .opened then tld p .lcp else p
  if p.lcp.state = .initial ∨ p.lcp.state = .closed then p.setState .lcp .closed
  else str ((irc p .lcp maxTerminate).setState .lcp .closing) .lcp

/-- What the environment does to the peer. -/
inductive Event where
  | receive (octet : Octet)
  | tick (now : Word)
  | open
  | close
  | ipSink (installed : Bool)
  | sendIp (packet : List Octet)
  | takeOctet
  deriving DecidableEq

def step (p : Peer) : Event → Peer
  | .receive octet => inputByte p octet
  | .tick now => pppTick p now
  | .open => pppOpen p
  | .close => pppClose p
  | .ipSink installed => setIpSink p installed
  | .sendIp packet => (sendIp p packet).2
  | .takeOctet => (outputByte p).2

end S5LBox.Ppp
