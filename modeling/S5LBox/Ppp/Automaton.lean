import S5LBox.Ppp.Frame

/-!
# Option negotiation and the RFC 1661 automaton

The control-packet half of `ppp.c`: the review of a Configure-Request, the events of the
automaton and the actions they share. Every function takes and returns the whole peer, since
LCP's this-layer-up and this-layer-down act on IPCP.
-/

namespace S5LBox.Ppp

def confReq : Octet := 1
def confAck : Octet := 2
def confNak : Octet := 3
def confRej : Octet := 4
def termReq : Octet := 5
def termAck : Octet := 6
def codeRej : Octet := 7
def protoRej : Octet := 8
def echoReq : Octet := 9
def echoReply : Octet := 10
def discardReq : Octet := 11

def lcpOptMru : Octet := 1
def lcpOptAsyncmap : Octet := 2
def lcpOptAuth : Octet := 3
def lcpOptQuality : Octet := 4
def lcpOptMagic : Octet := 5
def lcpOptPcomp : Octet := 7
def lcpOptAccomp : Octet := 8

def ipcpOptAddresses : Octet := 1
def ipcpOptCompress : Octet := 2
def ipcpOptAddress : Octet := 3
def ipcpOptDns1 : Octet := 129
def ipcpOptDns2 : Octet := 131

def reqLcpMagic : Octet := 1
def reqLcpAsyncmap : Octet := 2
def reqIpcpAddress : Octet := 1

def buildConfreq (p : Peer) : Control → List Octet
  | .lcp =>
    (if p.lcp.reqOpts &&& reqLcpAsyncmap ≠ 0 then [lcpOptAsyncmap, 6] ++ putBe32 0 else []) ++
      (if p.lcp.reqOpts &&& reqLcpMagic ≠ 0 then [lcpOptMagic, 6] ++ putBe32 p.ourMagic else [])
  | .ipcp =>
    if p.ipcp.reqOpts &&& reqIpcpAddress ≠ 0 then [ipcpOptAddress, 6] ++ putBe32 p.cfg.localIp
    else []

def restartStart (p : Peer) (proto : Control) : Peer :=
  p.setFsm proto { p.fsmFor proto with timerRunning := true, restartAtMs := p.nowMs + restartMs }

def restartStop (p : Peer) (proto : Control) : Peer :=
  p.setFsm proto { p.fsmFor proto with timerRunning := false }

/-- `irc`: Initialize-Restart-Count. -/
def irc (p : Peer) (proto : Control) (count : Octet) : Peer :=
  p.setFsm proto { p.fsmFor proto with restarts := count, failures := maxFailure }

/-- `if (f->restarts) f->restarts--;` -/
def spendRestart (p : Peer) (proto : Control) : Peer :=
  let f := p.fsmFor proto
  if f.restarts ≠ 0 then p.setFsm proto { f with restarts := f.restarts - 1 } else p

/-- `f->last_req_id = f->next_id++;` -/
def freshId (p : Peer) (proto : Control) : Peer :=
  let f := p.fsmFor proto
  p.setFsm proto { f with lastReqId := f.nextId, nextId := f.nextId + 1 }

/-- `scr`: Send-Configure-Request; only a fresh one takes a new identifier. -/
def scr (p : Peer) (proto : Control) (fresh : Bool) : Peer :=
  let opts := buildConfreq p proto
  let p := if fresh then freshId p proto else p
  let p := sendCp p proto confReq (p.fsmFor proto).lastReqId opts
  restartStart (spendRestart p proto) proto

/-- `str_`: Send-Terminate-Request. -/
def str (p : Peer) (proto : Control) : Peer :=
  let p := freshId p proto
  let p := sendCp p proto termReq (p.fsmFor proto).lastReqId []
  restartStart (spendRestart p proto) proto

/-- `sta`: Send-Terminate-Ack. -/
def sta (p : Peer) (proto : Control) (id : Octet) : Peer := sendCp p proto termAck id []

def ipcpStart (p : Peer) : Peer :=
  let p := p.setState .ipcp .reqSent
  let p := p.setFsm .ipcp { p.ipcp with reqOpts := reqIpcpAddress }
  scr (irc p .ipcp maxConfigure) .ipcp true

/-- `tlu`: This-Layer-Up. -/
def tlu (p : Peer) : Control → Peer
  | .lcp => ipcpStart p
  | .ipcp => { p with assignedIp := p.cfg.remoteIp, assigned := true }

/-- `tld`: This-Layer-Down. -/
def tld (p : Peer) : Control → Peer
  | .lcp => { restartStop (p.setState .ipcp .initial) .ipcp with assigned := false }
  | .ipcp => { p with assigned := false }

/-- `opt_verdict_t`; a Nak carries the option as this peer would like to see it. -/
inductive Verdict where
  | ack
  | nak (wanted : List Octet)
  | rej
  deriving DecidableEq, Repr

def lcpReview (p : Peer) (option : List Octet) : Verdict × Peer :=
  let type := octetAt option 0
  let olen := octetAt option 1
  if type = lcpOptMru then
    if olen ≠ 4 then (.rej, p)
    else if (mruDefault : ℕ) < (getBe16 option 2).toNat then
      (.nak ([lcpOptMru, 4] ++ putBe16 1500), p)
    else (.ack, { p with peerMru := getBe16 option 2 })
  else if type = lcpOptAsyncmap then
    if olen ≠ 6 then (.rej, p) else (.ack, { p with peerAsyncmap := getBe32 option 2 })
  else if type = lcpOptAuth then (.rej, p)
  else if type = lcpOptQuality then (.rej, p)
  else if type = lcpOptMagic then
    if olen ≠ 6 then (.rej, p)
    else
      let magic := getBe32 option 2
      if magic = p.ourMagic then
        let alt := magic ^^^ 0xa5a5a5a5
        let alt := if alt = magic then magic + 1 else alt
        (.nak ([lcpOptMagic, 6] ++ putBe32 alt), p)
      else (.ack, { p with peerMagic := magic, peerMagicValid := true })
  else if type = lcpOptPcomp then
    if olen ≠ 2 then (.rej, p) else (.ack, { p with peerPcomp := true })
  else if type = lcpOptAccomp then
    if olen ≠ 2 then (.rej, p) else (.ack, { p with peerAccomp := true })
  else (.rej, p)

def ipcpReview (p : Peer) (option : List Octet) : Verdict × Peer :=
  let type := octetAt option 0
  let olen := octetAt option 1
  if type = ipcpOptAddress then
    if olen ≠ 6 then (.rej, p)
    else if getBe32 option 2 = p.cfg.remoteIp then (.ack, p)
    else (.nak ([ipcpOptAddress, 6] ++ putBe32 p.cfg.remoteIp), p)
  else if type = ipcpOptCompress then (.rej, p)
  else if type = ipcpOptAddresses then (.rej, p)
  else if type = ipcpOptDns1 ∨ type = ipcpOptDns2 then
    if olen ≠ 6 then (.rej, p)
    else
      let p := { p with stats := { p.stats with ipcpDnsRequests := p.stats.ipcpDnsRequests + 1 } }
      let current := if type = ipcpOptDns1 then p.cfg.dns1 else p.cfg.dns2
      if getBe32 option 2 = current then
        (.ack, { p with stats := { p.stats with ipcpDnsAcked := p.stats.ipcpDnsAcked + 1 } })
      else
        (.nak ([type, 6] ++ putBe32 current),
          { p with stats := { p.stats with ipcpDnsNaked := p.stats.ipcpDnsNaked + 1 } })
  else (.rej, p)

def review (p : Peer) (proto : Control) (option : List Octet) : Verdict × Peer :=
  match proto with
  | .lcp => lcpReview p option
  | .ipcp => ipcpReview p option

/-- `cr_result_t`; every answer carries the option list of the response. -/
inductive Answer where
  | invalid
  | ack (resp : List Octet)
  | nak (resp : List Octet)
  | rej (resp : List Octet)
  deriving DecidableEq, Repr

/-- The loop of `classify_confreq`, one option a turn, with the rejects and naks found so far.
`none` is a list that does not tile its length; what earlier options assigned stays assigned. -/
def classifyOptions (p : Peer) (proto : Control) :
    (fuel : ℕ) → (opts rej nak : List Octet) → Option (List Octet × List Octet) × Peer
  | 0, _, rej, nak => (some (rej, nak), p)
  | fuel + 1, opts, rej, nak =>
    if opts.length = 0 then (some (rej, nak), p)
    else if opts.length < 2 then (none, p)
    else
      let olen := (octetAt opts 1).toNat
      if olen < 2 ∨ opts.length < olen then (none, p)
      else
        let (verdict, p) := review p proto (opts.take olen)
        match verdict with
        | .rej =>
          let rej := if rej.length + olen ≤ mruDefault then rej ++ opts.take olen else rej
          classifyOptions p proto fuel (opts.drop olen) rej nak
        | .nak wanted =>
          let nak := if nak.length + wanted.length ≤ mruDefault then nak ++ wanted else nak
          classifyOptions p proto fuel (opts.drop olen) rej nak
        | .ack => classifyOptions p proto fuel (opts.drop olen) rej nak

/-- `classify_confreq`. Every option has at least two octets, so the length is fuel enough. -/
def classifyConfreq (p : Peer) (proto : Control) (opts : List Octet) : Answer × Peer :=
  match classifyOptions p proto opts.length opts [] [] with
  | (none, p) => (.invalid, p)
  | (some (rej, nak), p) =>
    if rej.length ≠ 0 then (.rej rej, p)
    else if nak.length ≠ 0 then (.nak nak, p)
    else (.ack opts, p)

/-- One turn of the loops of `apply_nak` and `apply_rej`: the options up to the first one that
does not fit. -/
def splitOptions : (fuel : ℕ) → List Octet → List (List Octet)
  | 0, _ => []
  | fuel + 1, opts =>
    let olen := (octetAt opts 1).toNat
    if opts.length < 2 ∨ olen < 2 ∨ opts.length < olen then []
    else opts.take olen :: splitOptions fuel (opts.drop olen)

def applyNak (p : Peer) (proto : Control) (opts : List Octet) : Peer :=
  (splitOptions opts.length opts).foldl (fun p option ↦
    match proto with
    | .lcp =>
      if octetAt option 0 = lcpOptMagic ∧ octetAt option 1 = 6 then
        { p with ourMagic := getBe32 option 2 }
      else p
    | .ipcp =>
      if octetAt option 0 = ipcpOptAddress ∧ octetAt option 1 = 6 then
        { p with cfg := { p.cfg with localIp := getBe32 option 2 } }
      else p) p

def dropRequest (p : Peer) (proto : Control) (bit : Octet) : Peer :=
  p.setFsm proto { p.fsmFor proto with reqOpts := (p.fsmFor proto).reqOpts &&& ~~~bit }

def applyRej (p : Peer) (proto : Control) (opts : List Octet) : Peer :=
  (splitOptions opts.length opts).foldl (fun p option ↦
    match proto with
    | .lcp =>
      if octetAt option 0 = lcpOptMagic then dropRequest p .lcp reqLcpMagic
      else if octetAt option 0 = lcpOptAsyncmap then dropRequest p .lcp reqLcpAsyncmap
      else p
    | .ipcp =>
      if octetAt option 0 = ipcpOptAddress then dropRequest p .ipcp reqIpcpAddress else p) p

/-- `f->failures--;` -/
def spendFailure (p : Peer) (proto : Control) : Peer :=
  p.setFsm proto { p.fsmFor proto with failures := (p.fsmFor proto).failures - 1 }

/-- The answer of `ev_rcr` is on the wire; this is what it does to the counters and the state. -/
def rcrTransition (p : Peer) (proto : Control) (entry : State) (good : Bool) : Peer :=
  if !good && (p.fsmFor proto).failures = 0 then
    restartStop (p.setState proto .stopped) proto
  else
    let p := if good then p else spendFailure p proto
    match entry with
    | .stopped | .opened | .reqSent | .ackSent =>
      p.setState proto (if good then .ackSent else .reqSent)
    | .ackRcvd =>
      if good then tlu (restartStop (p.setState proto .opened) proto) proto else p
    | _ => p

/-- The first switch of `ev_rcr`: a request out of Stopped or Opened starts negotiation anew. -/
def rcrRestart (p : Peer) (proto : Control) (entry : State) : Peer :=
  match entry with
  | .stopped => scr (irc p proto maxConfigure) proto true
  | .opened => scr (irc (tld p proto) proto maxConfigure) proto true
  | _ => p

/-- `ev_rcr`: a Configure-Request arrived. -/
def evRcr (p : Peer) (proto : Control) (id : Octet) (opts : List Octet) : Peer :=
  let entry := (p.fsmFor proto).state
  if entry = .initial ∨ entry = .closed then sta p proto id
  else
    match classifyConfreq p proto opts with
    | (.invalid, p) => p
    | (.ack resp, p) =>
      rcrTransition (sendCp (rcrRestart p proto entry) proto confAck id resp) proto entry true
    | (.nak resp, p) =>
      rcrTransition (sendCp (rcrRestart p proto entry) proto confNak id resp) proto entry false
    | (.rej resp, p) =>
      rcrTransition (sendCp (rcrRestart p proto entry) proto confRej id resp) proto entry false

/-- `ev_rca`: a Configure-Ack arrived. -/
def evRca (p : Peer) (proto : Control) (id : Octet) : Peer :=
  let f := p.fsmFor proto
  if id ≠ f.lastReqId then p
  else
    match f.state with
    | .closed | .stopped => sta p proto id
    | .reqSent => (irc p proto maxConfigure).setState proto .ackRcvd
    | .ackRcvd => (scr p proto true).setState proto .reqSent
    | .ackSent => tlu ((restartStop (irc p proto maxConfigure) proto).setState proto .opened) proto
    | .opened => (scr (tld p proto) proto true).setState proto .reqSent
    | _ => p

/-- `ev_rcn`: a Configure-Nak or Configure-Reject arrived. -/
def evRcn (p : Peer) (proto : Control) (id : Octet) : Peer :=
  let f := p.fsmFor proto
  if id ≠ f.lastReqId then p
  else
    match f.state with
    | .closed | .stopped => sta p proto id
    | .reqSent | .ackSent => scr (irc p proto maxConfigure) proto true
    | .ackRcvd => (scr p proto true).setState proto .reqSent
    | .opened => (scr (tld p proto) proto true).setState proto .reqSent
    | _ => p

/-- `ev_rtr`: a Terminate-Request arrived. -/
def evRtr (p : Peer) (proto : Control) (id : Octet) : Peer :=
  match (p.fsmFor proto).state with
  | .opened =>
    let p := tld p proto
    let p := p.setFsm proto { p.fsmFor proto with restarts := 0 }
    restartStart ((sta p proto id).setState proto .stopping) proto
  | .reqSent | .ackRcvd | .ackSent => (sta p proto id).setState proto .reqSent
  | _ => sta p proto id

/-- `ev_rta`: a Terminate-Ack arrived. -/
def evRta (p : Peer) (proto : Control) : Peer :=
  match (p.fsmFor proto).state with
  | .closing => (restartStop p proto).setState proto .closed
  | .stopping => (restartStop p proto).setState proto .stopped
  | .ackRcvd => p.setState proto .reqSent
  | .opened => (scr (tld p proto) proto true).setState proto .reqSent
  | _ => p

/-- The RXJ- arm of `cp_input`: a Code-Reject or Protocol-Reject arrived. -/
def evRxj (p : Peer) (proto : Control) : Peer :=
  let p := restartStop (p.setState proto .stopped) proto
  if proto = .lcp then tld p .lcp else p

end S5LBox.Ppp
