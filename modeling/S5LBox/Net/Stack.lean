import S5LBox.Library.RingBuffer
import S5LBox.Net.Packet

/-!
# The stack and its flows

The state of the NAT: the egress it reaches the host through, the ring of datagrams queued for the
guest and the table of flows. The egress is a table of functions on a host state of any type, so
every behaviour of the host is one of them. A flow carries the history of what happened on it and
the stack those of the flows it released; no function reads a history.
-/

namespace S5LBox.Net

def netOutSlots : ℕ := 32
def netMaxFlows : ℕ := 24
def netTcpTxbuf : ℕ := 4096
def netTcpRxbuf : ℕ := 4096
def netTcpMssMax : ℕ := 1460
def netTcpRtoMs : Word := 1000
def netTcpRtoMaxMs : Word := 16000
def netTcpRtxMax : Word := 8
def netTcpTimeWaitMs : Word := 2000
def netUdpIdleMs : Word := 60000
def netDnsTtl : Word := 60

def flagFin : Octet := 0x01
def flagSyn : Octet := 0x02
def flagRst : Octet := 0x04
def flagPsh : Octet := 0x08
def flagAck : Octet := 0x10

/-- Later is a signed difference: sequence numbers wrap. -/
def netSeqLt (a b : Word) : Bool := (a - b).msb

def netSeqLe (a b : Word) : Bool := (a - b).msb || a == b

/-- A deadline on the wrapping clock has passed. -/
def expired (nowMs deadline : Word) : Bool := !(nowMs - deadline).msb

inductive ConnectStatus
  | pending
  | ready
  | failed
deriving DecidableEq

/-- What `recv` returns: the octets it read, none when it would block, or the end of the stream. -/
inductive Received
  | octets (data : List Octet)
  | eof
  | error
deriving DecidableEq

inductive Resolved
  | ok (ip : Word)
  | nxdomain
  | fail
deriving DecidableEq

/-- The calls to the host, each of which may be missing. A negative result of `send` is `none`. -/
structure Egress (η : Type) where
  openFlow : Option (η → Octet → Word → Half → η × ℤ)
  status : Option (η → ℤ → η × ConnectStatus)
  send : Option (η → ℤ → List Octet → η × Option ℕ)
  recv : Option (η → ℤ → ℕ → η × Received)
  shutdownTx : Option (η → ℤ → η)
  close : Option (η → ℤ → η)
  resolve : Option (η → List Octet → η × Resolved)
  icmpEcho : Option (η → Word → List Octet → η)
  send_le : ∀ call ∈ send, ∀ host handle data count,
    (call host handle data).2 = some count → count ≤ data.length
  recv_le : ∀ call ∈ recv, ∀ host handle cap data,
    (call host handle cap).2 = .octets data → data.length ≤ cap

namespace Egress

variable {η : Type} (eg : Egress η) (host : η) (handle : ℤ)

def callOpen (proto : Octet) (dstIp : Word) (dstPort : Half) : η × ℤ :=
  match eg.openFlow with
  | none => (host, -1)
  | some call => call host proto dstIp dstPort

def callStatus : η × ConnectStatus :=
  match eg.status with
  | none => (host, .ready)
  | some call => call host handle

/-- A missing `send` accepts nothing. -/
def callSend (data : List Octet) : η × Option ℕ :=
  match eg.send with
  | none => (host, some 0)
  | some call => call host handle data

/-- A missing `recv` has nothing to read. -/
def callRecv (cap : ℕ) : η × Received :=
  match eg.recv with
  | none => (host, .octets [])
  | some call => call host handle cap

def callShutdownTx : η :=
  match eg.shutdownTx with
  | none => host
  | some call => call host handle

def callClose : η :=
  match eg.close with
  | none => host
  | some call => call host handle

def callResolve (name : List Octet) : η × Resolved :=
  match eg.resolve with
  | none => (host, .fail)
  | some call => call host name

def callIcmpEcho (dstIp : Word) (icmp : List Octet) : η :=
  match eg.icmpEcho with
  | none => host
  | some call => call host dstIp icmp

variable {eg host handle}

theorem callSend_le {data : List Octet} {count : ℕ}
    (h : (eg.callSend host handle data).2 = some count) : count ≤ data.length := by
  unfold callSend at h
  split at h
  · obtain rfl := Option.some.inj h
    exact Nat.zero_le _
  case h_2 call hcall => exact eg.send_le call hcall host handle data count h

theorem callRecv_le {cap : ℕ} {data : List Octet}
    (h : (eg.callRecv host handle cap).2 = .octets data) : data.length ≤ cap := by
  unfold callRecv at h
  split at h
  · obtain rfl := Received.octets.inj h
    exact Nat.zero_le _
  case h_2 call hcall => exact eg.recv_le call hcall host handle cap data h

end Egress

inductive TcpState
  | closed
  | synRcvd
  | established
  | finWait1
  | finWait2
  | closeWait
  | closing
  | lastAck
  | timeWait
deriving DecidableEq

/-- What happens on a TCP flow, for its history. -/
inductive FlowEvent
  /-- The guest's SYN made the flow. -/
  | opened (iss irs : Word)
  /-- The egress said that the connect is done. -/
  | ready
  /-- A segment was generated, and queued for the guest or dropped. -/
  | segment (flags : Octet) (seq ack : Word) (data : List Octet) (queued : Bool)
  /-- The flow entered ESTABLISHED on an acknowledgement. -/
  | established (ack sndUna : Word)
  /-- The egress returned octets of the host's stream, or its end. -/
  | received (data : List Octet)
  | eof
  /-- Of the payload of a guest segment at `seq`, `data` went into the buffer toward the host. -/
  | buffered (seq : Word) (payload data : List Octet)
  /-- The guest's FIN was accepted. -/
  | finished
  /-- The egress accepted octets of the guest's stream. -/
  | delivered (data : List Octet)
  /-- The guest reset the flow. -/
  | reset
  /-- The egress failed. -/
  | failed
deriving DecidableEq

structure Flow where
  used : Bool
  proto : Octet
  guestPort : Half
  dstIp : Word
  dstPort : Half
  handle : ℤ
  lastMs : Word
  state : TcpState
  irs : Word
  rcvNxt : Word
  sndUna : Word
  sndNxt : Word
  sndWnd : Word
  mss : Half
  finSent : Bool
  hostEof : Bool
  txShutdown : Bool
  needAck : Bool
  rtoOn : Bool
  rtoAt : Word
  rtx : Word
  closeAt : Word
  txbuf : List Octet
  rxbuf : List Octet
  history : List FlowEvent

namespace Flow

/-- A slot of the table that holds nothing. -/
def blank : Flow where
  used := false
  proto := 0
  guestPort := 0
  dstIp := 0
  dstPort := 0
  handle := -1
  lastMs := 0
  state := .closed
  irs := 0
  rcvNxt := 0
  sndUna := 0
  sndNxt := 0
  sndWnd := 0
  mss := 0
  finSent := false
  hostEof := false
  txShutdown := false
  needAck := false
  rtoOn := false
  rtoAt := 0
  rtx := 0
  closeAt := 0
  txbuf := []
  rxbuf := []
  history := []

/-- The flow as `net_flow_alloc` fills it in. -/
def allocated (proto : Octet) (guestPort : Half) (dstIp : Word) (dstPort : Half) (nowMs : Word) :
    Flow :=
  { blank with used := true, proto, guestPort, dstIp, dstPort, lastMs := nowMs }

def note (f : Flow) (event : FlowEvent) : Flow := { f with history := f.history ++ [event] }

end Flow

abbrev Datagram := List Octet

structure Config where
  guestIp : Word
  localIp : Word
  dnsIp : Word
  iss : Word

/-- The stack without its flows. `queued` holds every datagram queued so far and `released` the
histories of the flows released so far; they are history too. -/
structure Env (η : Type) where
  cfg : Config
  eg : Egress η
  host : η
  nowMs : Word
  issWalk : Word
  ipOut : DWord
  out : RingBuffer 32 Datagram
  queued : List Datagram
  released : List (List FlowEvent)

structure Stack (η : Type) where
  env : Env η
  flow : Fin netMaxFlows → Flow

/-- The stack while it services one flow. -/
structure Conn (η : Type) where
  env : Env η
  flow : Flow

variable {η : Type}

/-- `net_emit`: queue a payload behind its header, unless it is too long or the queue is full. -/
@[irreducible] def Env.netEmit (env : Env η) (src dst : Word) (proto : Octet) (payload : List Octet) :
    Env η × Bool :=
  if netMtu < payload.length + ipv4HdrLen then (env, false)
  else
    match netBuildIpv4 netMtu src dst proto ((env.ipOut + 1).setWidth 16) payload.length with
    | none => (env, false)
    | some header =>
      match env.out.push netOutSlots (header ++ payload) with
      | none => (env, false)
      | some out =>
        ({ env with
            out
            ipOut := env.ipOut + 1
            queued := env.queued ++ [header ++ payload] }, true)

/-- `net_output`: the datagram in front, unless there is none or it is longer than `cap`. -/
def Env.netOutput (env : Env η) (cap : ℕ) : Env η × Option Datagram :=
  match env.out.peek netOutSlots with
  | none => (env, none)
  | some d => if cap < d.length then (env, none) else ({ env with out := env.out.drop }, some d)

def Stack.netFlowFind (s : Stack η) (proto : Octet) (guestPort : Half) (dstIp : Word)
    (dstPort : Half) : Option (Fin netMaxFlows) :=
  (List.finRange netMaxFlows).find? fun i ↦ (s.flow i).used && (s.flow i).proto == proto &&
    (s.flow i).guestPort == guestPort && (s.flow i).dstIp == dstIp && (s.flow i).dstPort == dstPort

/-- The slot that `net_flow_alloc` takes. -/
def Stack.freeSlot (s : Stack η) : Option (Fin netMaxFlows) :=
  (List.finRange netMaxFlows).find? fun i ↦ !(s.flow i).used

/-- Run a function of the stack and one flow on flow `i`. -/
def Stack.service (s : Stack η) (i : Fin netMaxFlows) (act : Conn η → Conn η) : Stack η where
  env := (act ⟨s.env, s.flow i⟩).env
  flow := Function.update s.flow i (act ⟨s.env, s.flow i⟩).flow

/-- `net_flow_free`: close the handle and give the slot back. -/
def Conn.netFlowFree (c : Conn η) : Conn η :=
  if !c.flow.used then c
  else
    { env := { c.env with
        host := if 0 ≤ c.flow.handle then c.env.eg.callClose c.env.host c.flow.handle else c.env.host
        released := c.env.released ++ [c.flow.history] }
      flow := Flow.blank }

def netInit (cfg : Config) (eg : Egress η) (host : η) : Stack η where
  env :=
    { cfg, eg, host
      nowMs := 0
      issWalk := cfg.iss
      ipOut := 0
      out := { slot := fun _ ↦ [], head := 0, tail := 0 }
      queued := []
      released := [] }
  flow _ := Flow.blank

end S5LBox.Net
