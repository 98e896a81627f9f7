import S5LBox.Word

/-!
# HDLC-async framing of the host's PPP peer

The octet-level half of `ppp.c`: the FCS-16, the escaping of a frame for transmission and the
decoding of a received one, together with the record of the peer and its transmit ring.
-/

namespace S5LBox.Ppp

def flag : Octet := 0x7e
def escape : Octet := 0x7d
def trans : Octet := 0x20
def allStations : Octet := 0xff
def unnumberedInformation : Octet := 0x03
def fcsInit : Half := 0xffff
def fcsGood : Half := 0xf0b8
def mruDefault : ℕ := 1500
def maxFrame : ℕ := mruDefault + 6
def txRing : ℕ := (2 * maxFrame + 2) * 4
def restartMs : Word := 3000
def maxConfigure : Octet := 10
def maxTerminate : Octet := 2
def maxFailure : Octet := 5

def protoIp : Half := 0x0021

/-- The two control protocols this peer speaks. -/
inductive Control where
  | lcp
  | ipcp
  deriving DecidableEq, Repr

def Control.number : Control → Half
  | .lcp => 0xc021
  | .ipcp => 0x8021

def fcsBit (fcs : Half) : Half :=
  if fcs &&& 1 ≠ 0 then (fcs >>> 1) ^^^ 0x8408 else fcs >>> 1

def fcsOctet (fcs : Half) (octet : Octet) : Half :=
  fcsBit (fcsBit (fcsBit (fcsBit (fcsBit (fcsBit (fcsBit (fcsBit
    (fcs ^^^ octet.zeroExtend 16))))))))

def pppFcs16 (fcs : Half) (data : List Octet) : Half := data.foldl fcsOctet fcs

def needsEscape (octet : Octet) (accm : Word) : Bool :=
  if octet = flag ∨ octet = escape then true
  else if octet < 0x20 then accm.getLsbD octet.toNat
  else false

/-- The octets `emit` appends for one octet of the frame. -/
def emit (accm : Word) (octet : Octet) : List Octet :=
  if needsEscape octet accm then [escape, octet ^^^ trans] else [octet]

/-- `ppp_frame`; the empty list is its zero return, a frame that was not produced. -/
def pppFrame (proto : Half) (info : List Octet) (accm : Word) (cap : ℕ) : List Octet :=
  if mruDefault < info.length then []
  else
    let header := [allStations, unnumberedInformation] ++ putBe16 proto
    let fcs := pppFcs16 (pppFcs16 fcsInit header) info ^^^ 0xffff
    let body := header ++ info ++ [fcs.extractLsb' 0 8, fcs.extractLsb' 8 8]
    let encoded := [flag] ++ body.flatMap (emit accm) ++ [flag]
    if cap < encoded.length then [] else encoded

/-- What `frame_input` makes of the octets between two flags. -/
inductive Frame where
  | short
  | badFcs
  | packet (proto : Half) (info : List Octet)
  deriving DecidableEq, Repr

/-- Address and control are accepted in either form, whatever was negotiated. -/
def stripAddress (body : List Octet) : List Octet :=
  if body.take 2 = [allStations, unnumberedInformation] then body.drop 2 else body

/-- The checks of `frame_input` up to its dispatch on the protocol number. -/
def decodeFrame (frame : List Octet) : Frame :=
  if frame.length < 4 then .short
  else if pppFcs16 fcsInit frame ≠ fcsGood then .badFcs
  else
    match stripAddress (frame.take (frame.length - 2)) with
    | [] => .short
    | first :: rest =>
      -- An odd first octet is the whole protocol field, in its compressed form.
      if first &&& 1 ≠ 0 then .packet (first.zeroExtend 16) rest
      else
        match rest with
        | [] => .short
        | second :: info => .packet (first ++ second) info

/-- `ppp_state_t`. -/
inductive State where
  | initial
  | starting
  | closed
  | stopped
  | closing
  | stopping
  | reqSent
  | ackRcvd
  | ackSent
  | opened
  deriving DecidableEq, Repr

/-- `ppp_config_t`. -/
structure Config where
  localIp : Word
  remoteIp : Word
  dns1 : Word
  dns2 : Word
  magic : Word
  deriving DecidableEq

def configDefault : Config where
  localIp := 0x0a000202
  remoteIp := 0x0a00020f
  dns1 := 0x0a000203
  dns2 := 0x0a000203
  magic := 0x5335384c

/-- `ppp_stats_t`. -/
structure Stats where
  rxBytes : ℕ := 0
  txBytes : ℕ := 0
  framesIn : ℕ := 0
  framesOut : ℕ := 0
  fcsErrors : ℕ := 0
  shortFrames : ℕ := 0
  longFrames : ℕ := 0
  aborts : ℕ := 0
  unknownProtos : ℕ := 0
  unknownCodes : ℕ := 0
  ipFramesIn : ℕ := 0
  ipFramesDropped : ℕ := 0
  ipFramesOut : ℕ := 0
  ipBytesIn : ℕ := 0
  ipBytesOut : ℕ := 0
  txOverflows : ℕ := 0
  echoReplies : ℕ := 0
  ipcpDnsRequests : ℕ := 0
  ipcpDnsAcked : ℕ := 0
  ipcpDnsNaked : ℕ := 0
  deriving DecidableEq

/-- `ppp_fsm_t`. -/
structure Fsm where
  state : State := .initial
  nextId : Octet := 0
  lastReqId : Octet := 0
  restarts : Octet := 0
  failures : Octet := 0
  reqOpts : Octet := 0
  restartAtMs : Word := 0
  timerRunning : Bool := false
  deriving DecidableEq

/-- `ppp_peer_t`. The sink callback is whether one is installed and the packets it was given. -/
structure Peer where
  cfg : Config
  stats : Stats := {}
  ipSink : Bool := false
  sunk : List (List Octet) := []
  lcp : Fsm := { nextId := 1 }
  ipcp : Fsm := { nextId := 1 }
  opened : Bool := false
  nowMs : Word := 0
  ourMagic : Word
  peerMagic : Word := 0
  peerMagicValid : Bool := false
  peerAsyncmap : Word := 0xffffffff
  peerMru : Half := 1500
  peerPcomp : Bool := false
  peerAccomp : Bool := false
  assignedIp : Word := 0
  assigned : Bool := false
  txAccm : Word := 0xffffffff
  rxbuf : List Octet := []
  inFrame : Bool := false
  escaped : Bool := false
  overlong : Bool := false
  tx : ℕ → Octet := fun _ ↦ 0
  txHead : Word := 0
  txTail : Word := 0

def pppInit (cfg : Config) : Peer where
  cfg := cfg
  ourMagic := cfg.magic

def Peer.fsmFor (p : Peer) : Control → Fsm
  | .lcp => p.lcp
  | .ipcp => p.ipcp

/-- Assignment through the pointer `fsm_for` returns. -/
def Peer.setFsm (p : Peer) (proto : Control) (f : Fsm) : Peer :=
  match proto with
  | .lcp => { p with lcp := f }
  | .ipcp => { p with ipcp := f }

def Peer.setState (p : Peer) (proto : Control) (state : State) : Peer :=
  p.setFsm proto { p.fsmFor proto with state := state }

def Peer.txUsed (p : Peer) : ℕ := (p.txHead - p.txTail).toNat

def ringWrite (tx : ℕ → Octet) (head : Word) : List Octet → ℕ → Octet
  | [] => tx
  | octet :: rest => ringWrite (Function.update tx (head.toNat % txRing) octet) (head + 1) rest

/-- `tx_frame`: one whole frame or none of it. -/
def txFrame (p : Peer) (proto : Half) (info : List Octet) : Peer :=
  let enc := pppFrame proto info p.txAccm (2 * maxFrame + 2)
  if enc.length = 0 ∨ txRing < enc.length + p.txUsed then
    { p with stats := { p.stats with txOverflows := p.stats.txOverflows + 1 } }
  else
    { p with
      tx := ringWrite p.tx p.txHead enc
      txHead := p.txHead + BitVec.ofNat 32 enc.length
      stats := { p.stats with
        framesOut := p.stats.framesOut + 1
        txBytes := p.stats.txBytes + enc.length } }

def outputByte (p : Peer) : Option Octet × Peer :=
  if p.txHead = p.txTail then (none, p)
  else (some (p.tx (p.txTail.toNat % txRing)), { p with txTail := p.txTail + 1 })

def sendCp (p : Peer) (proto : Control) (code id : Octet) (data : List Octet) : Peer :=
  if mruDefault < data.length + 4 then
    { p with stats := { p.stats with txOverflows := p.stats.txOverflows + 1 } }
  else
    txFrame p proto.number ([code, id] ++ putBe16 (BitVec.ofNat 16 (data.length + 4)) ++ data)

end S5LBox.Ppp
