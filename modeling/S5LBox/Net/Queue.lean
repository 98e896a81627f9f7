import S5LBox.Net.Nat

/-!
# What is queued for the guest

Every payload that a builder makes verifies, so every datagram that `net_emit` queues is one the
guest accepts. `Grows` is what any function of the stack may do to the queue: put well-formed
datagrams at its end.
-/

namespace S5LBox.Net

/-- The payload's own checksum is right. -/
def Verifies (src dst : Word) (proto : Octet) (payload : List Octet) : Prop :=
  (proto = protoIcmp ∧ netChecksum payload = 0) ∨
    ((proto = protoTcp ∨ proto = protoUdp) ∧ netL4Checksum src dst proto payload = 0)

/-- A datagram that fits the link, is as long as it says, is for the guest and sums to zero. -/
structure WellFormed (cfg : Config) (d : Datagram) : Prop where
  length_le : d.length ≤ netMtu
  total : (getBe16 d 2).toNat = d.length
  version : octetAt d 0 = 0x45
  header : ipv4HdrLen ≤ d.length ∧ netChecksum (d.take ipv4HdrLen) = 0
  destination : getBe32 d 16 = cfg.guestIp
  payload : Verifies (getBe32 d 12) (getBe32 d 16) (octetAt d 9) (d.drop ipv4HdrLen)

variable {first second payload : List Octet} {src dst : Word}

theorem octetAt_append_left {index : ℕ} (h : index < first.length) :
    octetAt (first ++ second) index = octetAt first index := by
  unfold octetAt
  exact List.getD_append _ _ _ _ h

theorem getBe16_append_left {index : ℕ} (h : index + 1 < first.length) :
    getBe16 (first ++ second) index = getBe16 first index := by
  unfold getBe16
  rw [octetAt_append_left (by omega), octetAt_append_left h]

theorem getBe32_append_left {index : ℕ} (h : index + 3 < first.length) :
    getBe32 (first ++ second) index = getBe32 first index := by
  unfold getBe32
  rw [getBe16_append_left (by omega), getBe16_append_left (by omega)]

theorem wellFormed_of_header {cfg : Config} {cap : ℕ} {proto : Octet} {ident : Half}
    {header : List Octet}
    (hbuild : netBuildIpv4 cap src cfg.guestIp proto ident payload.length = some header)
    (hverifies : Verifies src cfg.guestIp proto payload) : WellFormed cfg (header ++ payload) := by
  obtain ⟨hfits, hlength, hsum, hversion, hproto, htotal, hsrc, hdst⟩ := netBuildIpv4_spec hbuild
  have htwenty : header.length = 20 := hlength
  have hmtu : payload.length + 20 ≤ 1500 := hfits
  have hdatagram : (header ++ payload).length = 20 + payload.length := by
    rw [List.length_append, htwenty]
  have hfield : (getBe16 (header ++ payload) 2).toNat = 20 + payload.length := by
    rw [getBe16_append_left (by omega), htotal, BitVec.toNat_ofNat]
    exact Nat.mod_eq_of_lt (by change 20 + payload.length < 65536; omega)
  have hto : getBe32 (header ++ payload) 16 = cfg.guestIp := by
    rw [getBe32_append_left (by omega), hdst]
  have hfrom : getBe32 (header ++ payload) 12 = src := by
    rw [getBe32_append_left (by omega), hsrc]
  have hkind : octetAt (header ++ payload) 9 = proto := by
    rw [octetAt_append_left (by omega), hproto]
  have hrest : (header ++ payload).drop ipv4HdrLen = payload := by
    rw [← hlength, List.drop_left]
  refine ⟨?_, ?_, ?_, ⟨?_, ?_⟩, hto, ?_⟩
  · rw [hdatagram]
    change 20 + payload.length ≤ 1500
    omega
  · rw [hfield, hdatagram]
  · rw [octetAt_append_left (by omega), hversion]
  · rw [hdatagram]
    change 20 ≤ 20 + payload.length
    omega
  · rw [← hlength, List.take_left, hsum]
  · rw [hto, hfrom, hkind, hrest]
    exact hverifies

/-- The queue got longer, by well-formed datagrams only. -/
structure Grows {η : Type} (env env' : Env η) : Prop where
  cfg : env'.cfg = env.cfg
  queue : ∃ sent, env'.queued = env.queued ++ sent ∧
    env'.out.contents netOutSlots = env.out.contents netOutSlots ++ sent ∧
    ∀ d ∈ sent, WellFormed env.cfg d

namespace Grows

variable {η : Type} {env env' env'' : Env η}

theorem of_same (hcfg : env'.cfg = env.cfg) (hqueued : env'.queued = env.queued)
    (hout : env'.out = env.out) : Grows env env' := by
  refine ⟨hcfg, [], ?_, ?_, ?_⟩
  · rw [hqueued, List.append_nil]
  · rw [hout, List.append_nil]
  · simp

theorem refl (env : Env η) : Grows env env := of_same rfl rfl rfl

theorem trans (h : Grows env env') (h' : Grows env' env'') : Grows env env'' := by
  obtain ⟨sent, hqueued, hout, hgood⟩ := h.queue
  obtain ⟨more, hqueued', hout', hgood'⟩ := h'.queue
  refine ⟨h'.cfg.trans h.cfg, sent ++ more, ?_, ?_, ?_⟩
  · rw [hqueued', hqueued, List.append_assoc]
  · rw [hout', hout, List.append_assoc]
  · intro d hd
    rcases List.mem_append.1 hd with hd | hd
    · exact hgood d hd
    · rw [← h.cfg]
      exact hgood' d hd

theorem netEmit {proto : Octet} (hdst : dst = env.cfg.guestIp)
    (hverifies : payload.length ≤ netMtu - ipv4HdrLen → Verifies src dst proto payload) :
    Grows env (env.netEmit src dst proto payload).1 := by
  subst hdst
  unfold Env.netEmit
  split
  · exact refl env
  case isFalse hfits =>
    have hlength : payload.length ≤ netMtu - ipv4HdrLen := by
      unfold netMtu ipv4HdrLen at *
      omega
    split
    · exact refl env
    case h_2 header hheader =>
      split
      · exact refl env
      case h_2 out hout =>
        have hcontents := (RingBuffer.contents_push (by decide) (by decide) hout).1
        refine ⟨rfl, [header ++ payload], rfl, hcontents, ?_⟩
        intro d hd
        obtain rfl := List.mem_singleton.1 hd
        exact wellFormed_of_header hheader (hverifies hlength)

end Grows

theorem length_tcpHeader (srcPort dstPort : Half) (seq ack : Word) (offset flags : Octet)
    (wnd : Half) : (tcpHeader srcPort dstPort seq ack offset flags wnd).length = 20 := rfl

theorem verifies_sealTcp {srcPort dstPort : Half} {seq ack : Word} {offset flags : Octet}
    {wnd : Half} {rest : List Octet}
    (hshort : (tcpHeader srcPort dstPort seq ack offset flags wnd ++ rest).length ≤ 65535) :
    Verifies src dst protoTcp
      (sealTcp src dst (tcpHeader srcPort dstPort seq ack offset flags wnd ++ rest)) := by
  have hlength : 16 + 2 ≤ (tcpHeader srcPort dstPort seq ack offset flags wnd ++ rest).length := by
    rw [List.length_append, length_tcpHeader]
    omega
  exact .inr ⟨.inl rfl, netL4Checksum_writeBe16 hshort (by decide) hlength rfl rfl⟩

theorem length_sealTcp {seg : List Octet} (h : 18 ≤ seg.length) :
    (sealTcp src dst seg).length = seg.length := length_writeBe16 h _

theorem verifies_segment {f : Flow} {flags : Octet} {seq : Word} {data : List Octet}
    (hshort : (sealTcp src dst (f.segment flags seq data)).length ≤ netMtu - ipv4HdrLen) :
    Verifies src dst protoTcp (sealTcp src dst (f.segment flags seq data)) := by
  unfold Flow.segment at *
  rw [List.append_assoc] at *
  apply verifies_sealTcp
  rw [length_sealTcp] at hshort
  · unfold netMtu ipv4HdrLen at hshort
    omega
  · rw [List.length_append, length_tcpHeader]
    omega

theorem verifies_udpDatagram {srcPort dstPort : Half}
    (hshort : (udpDatagram src dst srcPort dstPort payload).length ≤ netMtu - ipv4HdrLen) :
    Verifies src dst protoUdp (udpDatagram src dst srcPort dstPort payload) := by
  have hlength : 6 + 2 ≤ (bareUdp srcPort dstPort payload).length := by
    simp only [bareUdp, List.length_append, length_putBe16]
    omega
  unfold udpDatagram at *
  rw [length_writeBe16 hlength] at hshort
  unfold netMtu ipv4HdrLen at hshort
  exact .inr ⟨.inr rfl, netL4Checksum_writeBe16 (by omega) (by decide) hlength rfl rfl⟩

theorem verifies_echo {p : List Octet} (hlong : icmpHdrLen ≤ p.length)
    (hshort : p.length ≤ netMtu - ipv4HdrLen) :
    Verifies src dst protoIcmp (writeBe16 (bareEcho p) 2 (netChecksum (bareEcho p))) := by
  unfold icmpHdrLen netMtu ipv4HdrLen at *
  have hfront : ([0] ++ (p.drop 1).take 1).length = 2 := by
    simp only [List.length_append, List.length_singleton, List.length_take, List.length_drop]
    omega
  have hlength : (bareEcho p).length = p.length := by
    simp only [bareEcho, List.length_append, List.length_singleton, List.length_take,
      List.length_drop, length_putBe16]
    omega
  have hfield (index : ℕ) (hindex : index < 2) : octetAt (bareEcho p) (2 + index) = 0 := by
    unfold bareEcho
    rw [List.append_assoc, octetAt_append_right (by omega), hfront, Nat.add_sub_cancel_left,
      octetAt_append_left hindex]
    interval_cases index <;> rfl
  exact .inl ⟨rfl, netChecksum_writeBe16 (by omega) (by decide) (by omega) (hfield 0 (by decide))
    (hfield 1 (by decide))⟩

end S5LBox.Net
