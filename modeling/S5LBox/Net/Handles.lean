import S5LBox.Library.Ledger
import S5LBox.Net.Handshake
import S5LBox.Net.Service

/-!
# Handles of the egress

Any egress can be made to log the calls it gets without a difference to what it answers. Over the
logging egress the slots of the flow table and the log balance: a handle was opened once for each
time it was closed and each flow that holds it. Whether two flows can hold one handle is the
egress's doing, for the stack stores what `open` returns and does not look at it.
-/

namespace S5LBox.Net

abbrev Call := Ledger.Call ℤ

/-- The egress with a log of the calls about handles beside its state. Only an `open` that
succeeds is logged. -/
def Egress.logged {η : Type} (eg : Egress η) : Egress (η × List Call) where
  openFlow := some fun host proto dstIp dstPort ↦
    let opened := eg.callOpen host.1 proto dstIp dstPort
    ((opened.1, if opened.2 < 0 then host.2 else host.2 ++ [.opened opened.2]), opened.2)
  status := some fun host handle ↦
    let answer := eg.callStatus host.1 handle
    ((answer.1, host.2 ++ [.used handle]), answer.2)
  send := some fun host handle data ↦
    let answer := eg.callSend host.1 handle data
    ((answer.1, host.2 ++ [.used handle]), answer.2)
  recv := some fun host handle cap ↦
    let answer := eg.callRecv host.1 handle cap
    ((answer.1, host.2 ++ [.used handle]), answer.2)
  shutdownTx := some fun host handle ↦
    (eg.callShutdownTx host.1 handle, host.2 ++ [.used handle])
  close := some fun host handle ↦ (eg.callClose host.1 handle, host.2 ++ [.closed handle])
  resolve := some fun host name ↦
    let answer := eg.callResolve host.1 name
    ((answer.1, host.2), answer.2)
  icmpEcho := some fun host dstIp icmp ↦ (eg.callIcmpEcho host.1 dstIp icmp, host.2)
  send_le := by
    rintro call hcall host handle data count hcount
    obtain rfl := Option.some.inj hcall
    exact Egress.callSend_le hcount
  recv_le := by
    rintro call hcall host handle cap data hdata
    obtain rfl := Option.some.inj hcall
    exact Egress.callRecv_le hdata

/-- The handle that a flow holds. -/
def Flow.slot (f : Flow) : Option ℤ := if f.used = true ∧ 0 ≤ f.handle then some f.handle else none

variable {η : Type} {eg : Egress η}

def Stack.slots (s : Stack η) (i : Fin netMaxFlows) : Option ℤ := (s.flow i).slot

theorem slot_of_held {f : Flow} (h : Held f) : f.slot = some f.handle := if_pos h

theorem slot_of_not_held {f : Flow} (h : ¬Held f) : f.slot = none := if_neg h

theorem slot_congr {f f' : Flow} (hused : f'.used = f.used) (hhandle : f'.handle = f.handle) :
    f'.slot = f.slot := by
  unfold Flow.slot
  rw [hused, hhandle]

section Flow

variable {c d : Conn (η × List Call)} {rest : ℤ → ℕ}

/-- The log of a flow that is serviced balances, given what the other flows hold. -/
def Accounted (rest : ℤ → ℕ) (c : Conn (η × List Call)) : Prop :=
  Ledger.Balanced c.env.host.2 fun handle ↦ rest handle + Ledger.single c.flow.slot handle

theorem log_of_calls {host host' : η × List Call} {handle : ℤ}
    (h : Calls eg.logged handle host host') : host'.2 = host.2 ++ [.used handle] := by
  cases h with
  | status => rfl
  | send data => rfl
  | recv cap => rfl
  | shutdownTx => rfl

theorem log_of_beside {env env' : Env (η × List Call)} (heg : env.eg = eg.logged)
    (h : Beside env env') : env'.host.2 = env.host.2 := by
  rcases h.host with hhost | ⟨ip, icmp, hhost⟩ | ⟨name, hhost⟩
  · rw [hhost]
  · rw [hhost, heg]
    rfl
  · rw [hhost, heg]
    rfl

theorem Accounted.work (haccounted : Accounted rest c) (heg : c.env.eg = eg.logged)
    (h : Work c d) : Accounted rest d := by
  have hframed := h.framed
  have hslot := slot_congr hframed.used hframed.handle
  unfold Accounted at *
  rw [hslot]
  cases h with
  | @segment flags seq data hack =>
    have hhost : (c.tcpOut flags seq data).env.host = c.env.host := (netEmit_frame ..).2.2
    rw [hhost]
    exact haccounted
  | datagram payload =>
    have hhost : (c.relay payload).1.env.host = c.env.host := (netEmit_frame ..).2.2
    rw [hhost]
    exact haccounted
  | flow h => exact haccounted
  | call hheld h =>
    rw [heg] at h
    dsimp only [Conn.setHost]
    rw [log_of_calls h]
    refine haccounted.use ?_
    rw [slot_of_held hheld, Ledger.single, if_pos rfl]
    exact Nat.succ_pos _

theorem Accounted.works (haccounted : Accounted rest c) (heg : c.env.eg = eg.logged)
    (h : Works c d) : Accounted rest d := by
  induction h with
  | refl => exact haccounted
  | tail hbefore hwork ih => exact ih.work ((works_framed hbefore).eg.trans heg) hwork

theorem Accounted.free (haccounted : Accounted rest c) (heg : c.env.eg = eg.logged) :
    Accounted rest c.netFlowFree := by
  by_cases hused : c.flow.used = true
  · have hblank : Flow.blank.slot = none := rfl
    rw [netFlowFree_of_used hused]
    unfold Accounted at *
    dsimp only
    rw [hblank]
    by_cases hhandle : 0 ≤ c.flow.handle
    · rw [slot_of_held ⟨hused, hhandle⟩] at haccounted
      rw [if_pos hhandle, heg]
      refine haccounted.close fun other ↦ ?_
      simp [Ledger.single]
    · rw [slot_of_not_held fun hheld ↦ hhandle hheld.2] at haccounted
      rw [if_neg hhandle]
      exact haccounted
  · unfold Conn.netFlowFree
    rw [if_pos (by simpa using hused)]
    exact haccounted

theorem Accounted.serviced (haccounted : Accounted rest c) (heg : c.env.eg = eg.logged)
    (h : Serviced c d) : Accounted rest d := by
  rcases h with h | ⟨last, hlast, rfl⟩
  · exact haccounted.works heg h
  · exact (haccounted.works heg hlast).free ((works_framed hlast).eg.trans heg)

theorem accounted_asked (heg : c.env.eg = eg.logged) (hused : c.flow.used = true)
    (hlog : Ledger.Balanced c.env.host.2 rest) : Accounted rest c.asked := by
  unfold Accounted Conn.asked
  rw [heg]
  change Ledger.Balanced (if (eg.callOpen c.env.host.1 c.flow.proto c.flow.dstIp c.flow.dstPort).2 < 0
    then c.env.host.2 else c.env.host.2 ++ [.opened _]) _
  have hhandle : eg.logged.callOpen c.env.host c.flow.proto c.flow.dstIp c.flow.dstPort =
    (_, (eg.callOpen c.env.host.1 c.flow.proto c.flow.dstIp c.flow.dstPort).2) := rfl
  rw [hhandle]
  generalize eg.callOpen c.env.host.1 c.flow.proto c.flow.dstIp c.flow.dstPort = opened
  dsimp only [Conn.setFlow]
  split
  case isTrue hrefused =>
    rw [slot_of_not_held fun hheld ↦ absurd hheld.2 (not_le.2 hrefused)]
    exact hlog
  case isFalse hopened =>
    have hheld : Held { c.flow with handle := opened.2 } := ⟨hused, not_lt.1 hopened⟩
    rw [slot_of_held hheld]
    refine hlog.opened fun other ↦ ?_
    simp [Ledger.single]

end Flow

/-- No two flows in use are for the same, and the log balances with what they hold. -/
structure Disciplined (s : Stack (η × List Call)) : Prop where
  distinct : ∀ i j, (s.flow i).used = true → (s.flow j).used = true →
    (s.flow i).tuple = (s.flow j).tuple → i = j
  ledger : Ledger.Balanced s.env.host.2 (Ledger.holders s.slots)

namespace Disciplined

variable {s s' : Stack (η × List Call)}

theorem accounted (h : Disciplined s) (i : Fin netMaxFlows) :
    Accounted (Ledger.others s.slots i) ⟨s.env, s.flow i⟩ := by
  unfold Accounted
  have hsame := funext (Ledger.holders_eq s.slots i)
  exact hsame ▸ h.ledger

theorem service (h : Disciplined s) {i : Fin netMaxFlows}
    {act : Conn (η × List Call) → Conn (η × List Call)}
    (htuple : (act ⟨s.env, s.flow i⟩).flow.used = true → ∀ j, j ≠ i → (s.flow j).used = true →
      (s.flow j).tuple ≠ (act ⟨s.env, s.flow i⟩).flow.tuple)
    (hact : Accounted (Ledger.others s.slots i) (act ⟨s.env, s.flow i⟩)) :
    Disciplined (s.service i act) := by
  have hself : (s.service i act).flow i = (act ⟨s.env, s.flow i⟩).flow := Function.update_self ..
  have hother (j : Fin netMaxFlows) (hne : j ≠ i) : (s.service i act).flow j = s.flow j :=
    Function.update_of_ne hne ..
  refine ⟨?_, ?_⟩
  · intro j k hj hk hsame
    by_cases hji : j = i
    · subst hji
      by_contra hne
      rw [hother k (Ne.symm hne)] at hk hsame
      rw [hself] at hj hsame
      exact htuple hj k (Ne.symm hne) hk hsame.symm
    · rw [hother j hji] at hj hsame
      by_cases hki : k = i
      · subst hki
        rw [hself] at hk hsame
        exact absurd hsame (htuple hk j hji hj)
      · rw [hother k hki] at hk hsame
        exact h.distinct j k hj hk hsame
  · have hslots : Ledger.others (s.service i act).slots i = Ledger.others s.slots i := by
      refine Ledger.others_congr fun j hne ↦ ?_
      unfold Stack.slots
      rw [hother j hne]
    have hsame := funext (Ledger.holders_eq (s.service i act).slots i)
    rw [hsame, hslots]
    unfold Stack.slots
    rw [hself]
    exact hact

theorem work (h : Disciplined s) (heg : s.env.eg = eg.logged) (hwork : StackWork s s') :
    Disciplined s' := by
  cases hwork with
  | beside hbeside =>
    refine ⟨h.distinct, ?_⟩
    change Ledger.Balanced (Prod.snd _) _
    rw [log_of_beside heg hbeside]
    exact h.ledger
  | serve i act hused hserviced =>
    refine h.service ?_ ((h.accounted i).serviced heg hserviced)
    intro hlive j hne hj hsame
    have hframe := hserviced.frame hlive
    exact hne (h.distinct j i hj hused (hsame.trans hframe.2.1))
  | @opens i act env f hfree hnew henv hfresh hopening =>
    have hnone : (s.flow i).slot = none := slot_of_not_held fun hheld ↦ absurd hheld.1 (by simp [hfree])
    have hlog : Ledger.Balanced env.host.2 (Ledger.others s.slots i) := by
      rw [log_of_beside heg henv]
      have haccounted := h.accounted i
      unfold Accounted at haccounted
      rw [hnone] at haccounted
      exact haccounted
    have hasked := accounted_asked (c := ⟨env, f⟩) (henv.eg.trans heg) hfresh.used hlog
    refine h.service ?_ (hasked.serviced (henv.eg.trans heg) hopening.1)
    intro hlive j hne hj
    rw [(hopening.1.frame hlive).2.1]
    exact hnew j hj

theorem closed (h : Disciplined s) (hunused : ∀ i, (s.flow i).used = false) :
    Ledger.Balanced s.env.host.2 fun _ ↦ 0 := by
  have hnone : s.slots = fun _ ↦ none := by
    funext i
    exact slot_of_not_held fun hheld ↦ absurd hheld.1 (by simp [hunused i])
  have hzero : Ledger.holders s.slots = fun _ ↦ 0 := by
    funext handle
    rw [hnone, Ledger.holders_none]
  exact hzero ▸ h.ledger

end Disciplined

theorem disciplined_netInit {cfg : Config} {eg : Egress (η × List Call)} {host : η × List Call}
    (hlog : Ledger.Balanced host.2 fun _ ↦ 0) : Disciplined (netInit cfg eg host) := by
  refine ⟨fun i j hi _ _ ↦ absurd hi (by simp [netInit, Flow.blank]), ?_⟩
  have hzero : Ledger.holders (netInit cfg eg host).slots = fun _ ↦ 0 :=
    funext Ledger.holders_none
  rw [hzero]
  exact hlog

/-- In every run of the stack over any egress, no two flows in use are for the same; a handle was
opened as often as it was closed and is held, and was used and closed only in between; no two flows
hold one handle unless the egress returned a handle that was still open; and a reset closes all. -/
theorem handles_balanced (cfg : Config) (eg : Egress η) (host : η) (ops : List NetOp) :
    let s := (Run.run System.act (System.init cfg eg.logged (host, [])) ops).stack
    let log := s.env.host.2
    (∀ i j, (s.flow i).used = true → (s.flow j).used = true →
        (s.flow i).tuple = (s.flow j).tuple → i = j) ∧
      (∀ i, (s.flow i).used = true → 0 ≤ (s.flow i).handle) ∧
      (∀ handle, Ledger.opens log handle =
        Ledger.closes log handle + Ledger.holders s.slots handle) ∧
      Trace.Lawful Ledger.Outstanding log ∧
      (Trace.Lawful Ledger.OpensFresh log → ∀ i j handle,
        s.slots i = some handle → s.slots j = some handle → i = j) ∧
      ∀ handle, Ledger.opens s.netReset.env.host.2 handle =
        Ledger.closes s.netReset.env.host.2 handle := by
  have hkept (ops : List NetOp) :
      Disciplined (Run.run System.act (System.init cfg eg.logged (host, [])) ops).stack ∧
        (Run.run System.act (System.init cfg eg.logged (host, [])) ops).stack.Holding := by
    refine @Stack.kept_run _ cfg eg.logged (host, []) (fun s ↦ Disciplined s ∧ s.Holding) ?_ ?_ ?_
      ops
    · intro s s' hholding heg h hwork
      exact ⟨h.1.work heg hwork, hholding.work hwork⟩
    · exact ⟨disciplined_netInit .nil, fun i hused ↦ by cases hused⟩
    · intro s h hunused
      exact ⟨disciplined_netInit (h.1.closed hunused), fun i hused ↦ by cases hused⟩
  have hafter := hkept (ops ++ [.reset])
  rw [Run.run_append] at hafter
  obtain ⟨h, hholding⟩ := hkept ops
  refine ⟨h.distinct, hholding, h.ledger.balance, h.ledger.outstanding, ?_, ?_⟩
  · intro hfresh i j handle hi hj
    exact Ledger.eq_of_holders (h.ledger.held_le_one hfresh handle) hi hj
  · intro handle
    have hnone (s : Stack (η × List Call)) : Ledger.holders s.netReset.slots handle = 0 :=
      Ledger.holders_none handle
    exact (hafter.1.ledger.balance handle).trans (congrArg _ (hnone _))

/-- A datagram of the guest from a port of its own. -/
def guestDatagram (guestPort : Half) (payload : List Octet) : Op :=
  let guestIp := exampleConfig.guestIp
  let udp := udpDatagram guestIp 0x01020304 guestPort 80 payload
  .input ((netBuildIpv4 netMtu guestIp 0x01020304 protoUdp 7 udp.length).getD [] ++ udp)

/-- The scripted host returns handle 3 whatever it is asked to open, and two flows hold it. -/
theorem handles_shared : ¬∀ i j handle,
      (Run.run System.act (System.init exampleConfig scripted.logged (⟨[], [], []⟩, []))
        [.op (guestDatagram 1000 [7]), .op (guestDatagram 1001 [8])]).stack.slots i = some handle →
      (Run.run System.act (System.init exampleConfig scripted.logged (⟨[], [], []⟩, []))
        [.op (guestDatagram 1000 [7]), .op (guestDatagram 1001 [8])]).stack.slots j = some handle →
      i = j := by
  intro hone
  have hsame := hone ⟨0, by decide⟩ ⟨1, by decide⟩ 3 (by decide +kernel) (by decide +kernel)
  exact absurd hsame (by decide)

end S5LBox.Net
