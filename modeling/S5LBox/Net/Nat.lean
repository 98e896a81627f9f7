import S5LBox.Library.Run
import S5LBox.Net.Tcp

/-!
# Datagrams of the guest

The demultiplexer, the echo, the resolver and the UDP relay, and the runs of the whole stack: a
run is any sequence of datagrams from the guest, ticks and datagrams taken for the guest.
-/

namespace S5LBox.Net

def echoRequest : Octet := 8

/-- The request with its type changed, before its checksum. -/
def bareEcho (p : List Octet) : List Octet := [0] ++ (p.drop 1).take 1 ++ putBe16 0 ++ p.drop 4

def Env.icmpInput {η : Type} (env : Env η) (src dst : Word) (p : List Octet) : Env η :=
  if p.length < icmpHdrLen then env
  else if netChecksum p ≠ 0 then env
  else if octetAt p 0 ≠ echoRequest ∨ octetAt p 1 ≠ 0 then env
  else if dst = env.cfg.localIp ∨ dst = env.cfg.dnsIp then
    if netMtu - ipv4HdrLen < p.length then env
    else
      (env.netEmit dst src protoIcmp (writeBe16 (bareEcho p) 2 (netChecksum (bareEcho p)))).1
  else { env with host := env.eg.callIcmpEcho env.host dst p }

def bareUdp (srcPort dstPort : Half) (payload : List Octet) : List Octet :=
  putBe16 srcPort ++ putBe16 dstPort ++ putBe16 (BitVec.ofNat 16 (udpHdrLen + payload.length)) ++
    putBe16 0 ++ payload

def udpDatagram (src dst : Word) (srcPort dstPort : Half) (payload : List Octet) : List Octet :=
  writeBe16 (bareUdp srcPort dstPort payload) 6
    (netL4Checksum src dst protoUdp (bareUdp srcPort dstPort payload))

inductive DnsRcode
  | ok
  | formErr
  | servFail
  | nxDomain
  | notImp
deriving DecidableEq

def DnsRcode.code : DnsRcode → Half
  | .ok => 0
  | .formErr => 1
  | .servFail => 2
  | .nxDomain => 3
  | .notImp => 4

def dnsQr : Half := 0x8000
def dnsAa : Half := 0x0400
def dnsRd : Half := 0x0100
def dnsRa : Half := 0x0080
def dnsTypeA : Half := 1
def dnsTypeAaaa : Half := 28
def dnsClassIn : Half := 1

def isHostOctet (octet : Octet) : Bool :=
  (0x61 ≤ octet && octet ≤ 0x7a) || (0x41 ≤ octet && octet ≤ 0x5a) ||
    (0x30 ≤ octet && octet ≤ 0x39) || octet == 0x2d || octet == 0x5f

/-- Append a label to a name in a buffer of `cap` octets. -/
def dnsLabel (cap : ℕ) : List Octet → List Octet → Option (List Octet)
  | [], name => some name
  | octet :: rest, name =>
    if isHostOctet octet then
      dnsLabel cap rest (if name.length + 1 < cap then name ++ [octet] else name)
    else none

/-- The octets that a name on the wire occupies up to `index`, and the name in dotted form. -/
def dnsName (p : List Octet) (cap : ℕ) : ℕ → ℕ → List Octet → Option (ℕ × List Octet)
  | 0, _, _ => none
  | turns + 1, index, name =>
    if p.length ≤ index then none
    else
      let len := octetAt p index
      if len = 0 then
        if cap ≤ name.length ∨ name = [] then none else some (index + 1, name)
      else if len &&& 0xc0 ≠ 0 ∨ 63 < len.toNat ∨ p.length < index + 1 + len.toNat then none
      else
        let dotted := if name ≠ [] ∧ name.length + 1 < cap then name ++ [0x2e] else name
        match dnsLabel cap ((p.drop (index + 1)).take len.toNat) dotted with
        | none => none
        | some name =>
          if 255 < index + 1 + len.toNat then none
          else dnsName p cap turns (index + 1 + len.toNat) name

/-- The question echoed behind a rewritten header, and the answer when there is one. -/
def dnsMessage (q : List Octet) (qend : ℕ) (rcode : DnsRcode) (answer : Option Word) : List Octet :=
  q.take 2 ++ putBe16 (dnsQr ||| dnsAa ||| dnsRa ||| rcode.code ||| (getBe16 q 2 &&& dnsRd)) ++
    putBe16 (if rcode = .formErr then 0 else 1) ++ putBe16 (if answer = none then 0 else 1) ++
    putBe32 0 ++ (q.take qend).drop 12 ++
    match answer with
    | none => []
    | some ip =>
      putBe16 0xc00c ++ putBe16 dnsTypeA ++ putBe16 dnsClassIn ++ putBe32 netDnsTtl ++
        putBe16 4 ++ putBe32 ip

namespace Env

variable {η : Type} (env : Env η)

def dnsReply (gport : Half) (q : List Octet) (qend : ℕ) (rcode : DnsRcode) (answer : Option Word) :
    Env η :=
  if netMtu - ipv4HdrLen - udpHdrLen < qend + 16 + udpHdrLen then env
  else
    (env.netEmit env.cfg.dnsIp env.cfg.guestIp protoUdp
      (udpDatagram env.cfg.dnsIp env.cfg.guestIp 53 gport (dnsMessage q qend rcode answer))).1

/-- A question that was read up to `qend`, whose name is `name`. -/
def dnsAnswer (gport : Half) (p : List Octet) (qend : ℕ) (name : List Octet) : Env η :=
  if getBe16 p (qend - 2) ≠ dnsClassIn then env.dnsReply gport p qend .notImp none
  else if getBe16 p (qend - 4) = dnsTypeAaaa then env.dnsReply gport p qend .ok none
  else if getBe16 p (qend - 4) ≠ dnsTypeA then env.dnsReply gport p qend .notImp none
  else
    match env.eg.callResolve env.host name with
    | (host, .ok ip) => { env with host }.dnsReply gport p qend .ok (some ip)
    | (host, .nxdomain) => { env with host }.dnsReply gport p qend .nxDomain none
    | (host, .fail) => { env with host }.dnsReply gport p qend .servFail none

def dnsInput (gport : Half) (p : List Octet) : Env η :=
  if p.length < 12 then env
  else if getBe16 p 2 &&& dnsQr ≠ 0 then env
  else if getBe16 p 4 ≠ 1 then env.dnsReply gport p 12 .formErr none
  else
    match dnsName (p.drop 12) 256 (p.length + 1) 0 [] with
    | none => env.dnsReply gport p 12 .formErr none
    | some (nameEnd, name) =>
      if p.length < 12 + nameEnd + 4 then env.dnsReply gport p 12 .formErr none
      else env.dnsAnswer gport p (12 + nameEnd + 4) name

end Env

namespace Conn

variable {η : Type} (c : Conn η)

/-- Offer a datagram to the egress, and drop the flow when that fails. -/
def udpSend (payload : List Octet) : Conn η :=
  match c.env.eg.callSend c.env.host c.flow.handle payload with
  | (host, none) => (c.touch.setHost host).netFlowFree
  | (host, some _) => c.touch.setHost host

/-- Ask the egress for a new UDP flow, and offer it its first datagram. -/
def udpOpen (payload : List Octet) : Conn η :=
  match c.env.eg.callOpen c.env.host protoUdp c.flow.dstIp c.flow.dstPort with
  | (host, handle) =>
    if handle < 0 then (c.setHost host).netFlowFree
    else ((c.setHost host).setFlow { c.flow with handle }).udpSend payload

/-- Queue a datagram of the host for the guest. -/
def relay (payload : List Octet) : Conn η × Bool :=
  let emitted := c.env.netEmit c.flow.dstIp c.env.cfg.guestIp protoUdp
    (udpDatagram c.flow.dstIp c.env.cfg.guestIp c.flow.dstPort c.flow.guestPort payload)
  ({ c with env := emitted.1 }, emitted.2)

/-- Relay what the egress has to the guest, eight datagrams at most. -/
def udpPoll : ℕ → Conn η → Conn η
  | 0, c => c
  | guard + 1, c =>
    match c.env.eg.callRecv c.env.host c.flow.handle (netMtu - ipv4HdrLen - udpHdrLen) with
    | (host, .octets []) => c.setHost host
    | (host, .octets (first :: rest)) =>
      match (c.setHost host).relay (first :: rest) with
      | (c, false) => c
      | (c, true) => udpPoll guard c.touch
    | (host, .eof) => (c.setHost host).netFlowFree
    | (host, .error) => (c.setHost host).netFlowFree

/-- Drop a flow that has been idle for too long. -/
def dropIdle : Conn η :=
  if c.flow.used && netUdpIdleMs < c.env.nowMs - c.flow.lastMs then c.netFlowFree else c

/-- The tick of a UDP flow. -/
def udpTick : Conn η := if c.flow.handle < 0 then c.dropIdle else (udpPoll 8 c).dropIdle

end Conn

namespace Stack

variable {η : Type} (s : Stack η)

def udpInput (src dst : Word) (p : List Octet) : Stack η :=
  let ulen := (getBe16 p 4).toNat
  if p.length < udpHdrLen then s
  else if ulen < udpHdrLen ∨ p.length < ulen then s
  else if getBe16 p 6 ≠ 0 ∧ netL4Checksum src dst protoUdp (p.take ulen) ≠ 0 then s
  else
    let payload := (p.take ulen).drop udpHdrLen
    if dst = s.env.cfg.dnsIp ∧ getBe16 p 2 = 53 then
      { s with env := s.env.dnsInput (getBe16 p 0) payload }
    else
      match s.netFlowFind protoUdp (getBe16 p 0) dst (getBe16 p 2) with
      | some i => s.service i fun c ↦ c.udpSend payload
      | none =>
        match s.freeSlot with
        | none => s
        | some i => s.service i fun c ↦
          (c.setFlow (.allocated protoUdp (getBe16 p 0) dst (getBe16 p 2) c.env.nowMs)).udpOpen
            payload

def headerLen (pkt : List Octet) : ℕ := (octetAt pkt 0 &&& 0x0f).toNat * 4

/-- A whole IPv4 datagram that is no fragment and comes from the guest's own address. -/
def validDatagram (cfg : Config) (pkt : List Octet) : Bool :=
  ipv4HdrLen ≤ pkt.length && octetAt pkt 0 >>> 4 == 4 && ipv4HdrLen ≤ headerLen pkt &&
    headerLen pkt ≤ pkt.length && headerLen pkt ≤ (getBe16 pkt 2).toNat &&
    (getBe16 pkt 2).toNat ≤ pkt.length && netChecksum (pkt.take (headerLen pkt)) == 0 &&
    getBe16 pkt 6 &&& 0x2000 == 0 && getBe16 pkt 6 &&& 0x1fff == 0 &&
    getBe32 pkt 12 == cfg.guestIp

/-- What an IPv4 datagram carries. -/
def datagramPayload (pkt : List Octet) : List Octet :=
  (pkt.take (getBe16 pkt 2).toNat).drop (headerLen pkt)

def netInput (pkt : List Octet) : Stack η :=
  if !validDatagram s.env.cfg pkt then s
  else
    let src := getBe32 pkt 12
    let dst := getBe32 pkt 16
    if octetAt pkt 9 = protoIcmp then
      { s with env := s.env.icmpInput src dst (datagramPayload pkt) }
    else if octetAt pkt 9 = protoUdp then s.udpInput src dst (datagramPayload pkt)
    else if octetAt pkt 9 = protoTcp then s.netTcpInput src dst (datagramPayload pkt)
    else s

def tickFlow (i : Fin netMaxFlows) : Stack η :=
  if !(s.flow i).used then s
  else if (s.flow i).proto = protoUdp then s.service i Conn.udpTick
  else s.service i Conn.netTcpTick

/-- Time only moves forward. -/
def netTick (nowMs : Word) : Stack η :=
  if (nowMs - s.env.nowMs).msb then s
  else (List.finRange netMaxFlows).foldl tickFlow { s with env := { s.env with nowMs } }

end Stack

inductive Op
  | input (pkt : List Octet)
  | tick (nowMs : Word)
  | output (cap : ℕ)

/-- The stack and the datagrams that were taken from it. -/
structure System (η : Type) where
  stack : Stack η
  delivered : List Datagram

namespace System

variable {η : Type}

def step (s : System η) : Op → System η
  | .input pkt => { s with stack := s.stack.netInput pkt }
  | .tick nowMs => { s with stack := s.stack.netTick nowMs }
  | .output cap =>
    let taken := s.stack.env.netOutput cap
    { stack := { s.stack with env := taken.1 }, delivered := s.delivered ++ taken.2.toList }

def init (cfg : Config) (eg : Egress η) (host : η) : System η where
  stack := netInit cfg eg host
  delivered := []

end System

end S5LBox.Net
