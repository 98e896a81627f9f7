import S5LBox.Library.RingBuffer
import S5LBox.Ppp.Frame

/-!
# The transmit ring

Frames go into the ring whole and come out octet by octet. The counters run freely over 32 bits
and the capacity is no power of two, so the places jump by 5240 where a counter wraps. The ring
is a queue of whole frames in every run that never has more than these pending across the wrap.
-/

namespace S5LBox.Ppp

open List RingBuffer
open BitVec (ofNat ofNat_add)

def Peer.ring (p : Peer) : RingBuffer 32 Octet := ⟨p.tx, p.txHead, p.txTail⟩

def output : ℕ → Peer → List Octet × Peer
  | 0, p => ([], p)
  | cap + 1, p =>
    match outputByte p with
    | (none, p) => ([], p)
    | (some octet, p) => (octet :: (output cap p).1, (output cap p).2)

/-- What a frame becomes on the line. -/
def Peer.encoding (p : Peer) (proto : Half) (info : List Octet) : List Octet :=
  pppFrame proto info p.txAccm (2 * maxFrame + 2)

/-- The frame is one that `tx_frame` queues. -/
def Peer.Fits (p : Peer) (proto : Half) (info : List Octet) : Prop :=
  (p.encoding proto info).length ≠ 0 ∧ (p.encoding proto info).length + p.txUsed ≤ txRing

/-- The octets in the ring, the oldest first. -/
def Peer.pending (p : Peer) : List Octet := p.ring.queue txRing

/-- With so many more octets the pending ones do not span the wrap of the counters, or are few
enough to keep clear of each other. -/
def Peer.Clear (p : Peer) (n : ℕ) : Prop :=
  p.txTail.toNat + p.txUsed + n ≤ 2 ^ 32 ∨ p.txUsed + n ≤ 5240

theorem ringWrite_eq (tx : ℕ → Octet) (head tail : Word) (octets : List Octet) :
    write txRing ⟨tx, head, tail⟩ octets =
      ⟨ringWrite tx head octets, head + ofNat 32 octets.length, tail⟩ := by
  induction octets generalizing tx head with
  | nil => simp [write, ringWrite]
  | cons octet rest ih =>
    have hlength : head + 1 + ofNat 32 rest.length = head + ofNat 32 (rest.length + 1) := by
      rw [ofNat_add, add_assoc, add_comm (ofNat 32 rest.length)]
      rfl
    rw [write, ringWrite, length_cons, ih, hlength]

variable {proto : Half} {info : List Octet}

theorem txFrame_of_not_fits {p : Peer} (h : ¬p.Fits proto info) : txFrame p proto info =
      { p with stats := { p.stats with txOverflows := p.stats.txOverflows + 1 } } := by
  unfold Peer.Fits Peer.encoding at h
  rw [txFrame]
  exact if_pos (by omega)

theorem txFrame_of_fits {p : Peer} (h : p.Fits proto info) :
    (txFrame p proto info).ring = write txRing p.ring (p.encoding proto info) ∧
      (txFrame p proto info).txAccm = p.txAccm := by
  unfold Peer.Fits Peer.encoding at h
  unfold txFrame
  simp only
  rw [if_neg (by omega), Peer.ring, ringWrite_eq]
  exact ⟨rfl, rfl⟩

theorem pending_txFrame {p : Peer} (h : p.Fits proto info)
    (hclear : p.Clear (p.encoding proto info).length) :
    (txFrame p proto info).pending = p.pending ++ p.encoding proto info ∧
      (txFrame p proto info).txUsed = p.txUsed + (p.encoding proto info).length := by
  have hring : RingBuffer.Clear txRing p.ring (p.encoding proto info).length := hclear
  have hroom : p.ring.count + (p.encoding proto info).length ≤ txRing := by
    rw [Nat.add_comm]
    exact h.2
  rw [Peer.pending, Peer.txUsed]
  change (txFrame p proto info).ring.queue txRing = _ ∧ (txFrame p proto info).ring.count = _
  rw [(txFrame_of_fits h).1]
  exact queue_write (by decide) hroom hring

theorem pending_outputByte (p : Peer) :
    p.pending = (outputByte p).1.toList ++ (outputByte p).2.pending ∧
      (outputByte p).2.txUsed ≤ p.txUsed := by
  unfold outputByte
  by_cases hempty : p.txHead = p.txTail
  · rw [if_pos hempty]
    exact ⟨rfl, le_rfl⟩
  · have hpeek : peek txRing p.ring = some (p.tx (p.txTail.toNat % txRing)) := if_neg hempty
    have hcount := @count_drop 32 Octet p.ring hempty
    rw [if_neg hempty]
    refine ⟨queue_peek hpeek, ?_⟩
    change (drop p.ring).count ≤ p.ring.count
    omega

theorem pending_output (cap : ℕ) (p : Peer) :
    p.pending = (output cap p).1 ++ (output cap p).2.pending ∧ (output cap p).2.txUsed ≤ p.txUsed := by
  induction cap generalizing p with
  | zero => exact ⟨rfl, le_rfl⟩
  | succ cap ih =>
    obtain ⟨hpending, hused⟩ := pending_outputByte p
    rw [output]
    rcases hbyte : outputByte p with ⟨_ | octet, q⟩
    · rw [hbyte] at hpending hused
      exact ⟨hpending, hused⟩
    · rw [hbyte] at hpending hused
      obtain ⟨hrest, hless⟩ := ih q
      simp only at hpending hused ⊢
      rw [hpending, cons_append, ← hrest]
      exact ⟨rfl, hless.trans hused⟩

/-- What has been accepted from and removed to the line when the peer is in a state. Whatever else
the peer does leaves the ring alone; `lawful` is asked of every frame that is accepted. -/
inductive Transmits (lawful : Peer → ℕ → Prop) :
    Peer → (accepted : List (List Octet)) → (removed : List Octet) → Prop
  | start (cfg : Config) : Transmits lawful (pppInit cfg) [] []
  | elsewhere {p q : Peer} {accepted : List (List Octet)} {removed : List Octet}
      (h : Transmits lawful p accepted removed) (hring : q.ring = p.ring) :
      Transmits lawful q accepted removed
  | accept {p : Peer} {accepted : List (List Octet)} {removed : List Octet} (proto : Half)
      (info : List Octet) (h : Transmits lawful p accepted removed) (hfits : p.Fits proto info)
      (hlawful : lawful p (p.encoding proto info).length) :
      Transmits lawful (txFrame p proto info) (accepted ++ [p.encoding proto info]) removed
  | refuse {p : Peer} {accepted : List (List Octet)} {removed : List Octet} (proto : Half)
      (info : List Octet) (h : Transmits lawful p accepted removed) (hfull : ¬p.Fits proto info) :
      Transmits lawful (txFrame p proto info) accepted removed
  | octet {p : Peer} {accepted : List (List Octet)} {removed : List Octet}
      (h : Transmits lawful p accepted removed) :
      Transmits lawful (outputByte p).2 accepted (removed ++ (outputByte p).1.toList)
  | take {p : Peer} {accepted : List (List Octet)} {removed : List Octet} (cap : ℕ)
      (h : Transmits lawful p accepted removed) :
      Transmits lawful (output cap p).2 accepted (removed ++ (output cap p).1)

variable {p : Peer} {accepted : List (List Octet)} {removed : List Octet}

/-- In a run that keeps clear of the wrap the accepted frames are what has been removed and what
is still pending. -/
theorem flatten_accepted (h : Transmits Peer.Clear p accepted removed) :
    removed ++ p.pending = accepted.flatten := by
  induction h with
  | start cfg => exact queue_of_empty rfl
  | elsewhere h hring ih =>
    rw [Peer.pending, hring]
    exact ih
  | accept proto info h hfits hlawful ih =>
    rw [(pending_txFrame hfits hlawful).1, flatten_append, ← ih, append_assoc]
    simp
  | refuse proto info h hfull ih =>
    rw [txFrame_of_not_fits hfull]
    exact ih
  | octet h ih =>
    rw [append_assoc, ← (pending_outputByte _).1]
    exact ih
  | take cap h ih =>
    rw [append_assoc, ← (pending_output cap _).1]
    exact ih

/-- In a run that keeps clear of the wrap the removed octets are those of the accepted frames, in
order, and what is left of them is in the ring; and a frame that is not accepted changes nothing
but the count of those. -/
theorem transmits_fifo (h : Transmits Peer.Clear p accepted removed) :
    (removed ++ p.pending = accepted.flatten) ∧
      ∀ (proto : Half) (info : List Octet), ¬p.Fits proto info → txFrame p proto info =
          { p with stats := { p.stats with txOverflows := p.stats.txOverflows + 1 } } :=
  ⟨flatten_accepted h, fun _ _ hfull ↦ txFrame_of_not_fits hfull⟩

def shortInfo : List Octet := List.replicate 6 0x41

def shortFrame : List Octet := pppFrame protoIp shortInfo 0xffffffff (2 * maxFrame + 2)

theorem length_shortFrame : shortFrame.length = 16 := by decide +kernel

/-- The octet of a frame that comes to stand where an earlier one begins. -/
theorem shortFrame_getElem : shortFrame[0]? = some 0x7e ∧ shortFrame[8]? = some 0x41 := by
  decide +kernel

/-- One frame accepted, and three octets of it taken. -/
def shortRun : Peer :=
  (output 2 (outputByte (txFrame (pppInit configDefault) protoIp shortInfo)).2).2

theorem transmits_shortRun :
    Transmits Peer.Clear shortRun [shortFrame] [flag, allStations, escape] := by
  have hlength : (Peer.encoding (pppInit configDefault) protoIp shortInfo).length = 16 :=
    length_shortFrame
  have hfits : (pppInit configDefault).Fits protoIp shortInfo := by
    rw [Peer.Fits, hlength]
    decide
  have hclear : (pppInit configDefault).Clear
      (Peer.encoding (pppInit configDefault) protoIp shortInfo).length := by
    rw [hlength]
    exact .inr (by decide)
  have hrun := Transmits.take 2 (.octet (.accept protoIp shortInfo (.start configDefault) hfits hclear))
  have hremoved : [] ++ (outputByte (txFrame (pppInit configDefault) protoIp shortInfo)).1.toList ++
      (output 2 (outputByte (txFrame (pppInit configDefault) protoIp shortInfo)).2).1 =
        [flag, allStations, escape] := by decide +kernel
  rw [hremoved] at hrun
  exact hrun

theorem transmits_fifo_shortRun :
    [flag, allStations, escape] ++ shortRun.pending = [shortFrame].flatten :=
  (transmits_fifo transmits_shortRun).1

theorem output_all {cap : ℕ} {p : Peer} (h : p.txUsed ≤ cap) :
    (output cap p).1.length = p.txUsed ∧ (output cap p).2.txHead = p.txHead ∧
      (output cap p).2.txTail = p.txHead ∧ (output cap p).2.txAccm = p.txAccm := by
  induction cap generalizing p with
  | zero =>
    have hempty : p.txHead = p.txTail := by
      by_contra hne
      have hpos := @count_pos 32 Octet p.ring hne
      exact absurd (hpos.trans_le h) (lt_irrefl 0)
    have hused : p.txUsed = 0 := Nat.le_zero.1 h
    exact ⟨hused.symm, rfl, hempty.symm, rfl⟩
  | succ cap ih =>
    rw [output]
    by_cases hempty : p.txHead = p.txTail
    · have hbyte : outputByte p = (none, p) := if_pos hempty
      have hused : p.txUsed = 0 := by
        rw [Peer.txUsed, hempty, sub_self]
        rfl
      rw [hbyte]
      exact ⟨hused.symm, rfl, hempty.symm, rfl⟩
    · have hbyte : outputByte p = (some (p.tx (p.txTail.toNat % txRing)),
          { p with txTail := p.txTail + 1 }) := if_neg hempty
      have hcount : Peer.txUsed { p with txTail := p.txTail + 1 } + 1 = p.txUsed :=
        @count_drop 32 Octet p.ring hempty
      obtain ⟨hlength, hhead, htail, haccm⟩ := @ih { p with txTail := p.txTail + 1 } (by omega)
      rw [hbyte]
      exact ⟨by rw [length_cons, hlength, hcount], hhead, htail, haccm⟩

/-- A run whatever the frames do to each other. -/
abbrev Runs : Peer → List (List Octet) → List Octet → Prop := Transmits fun _ _ ↦ True

theorem runs_shortFrame {p : Peer} {accepted : List (List Octet)} {removed : List Octet}
    (h : Runs p accepted removed) (haccm : p.txAccm = 0xffffffff) (hroom : p.txUsed ≤ txRing - 16) :
    Runs (txFrame p protoIp shortInfo) (accepted ++ [shortFrame]) removed ∧
      (txFrame p protoIp shortInfo).ring = write txRing p.ring shortFrame ∧
      (txFrame p protoIp shortInfo).txAccm = 0xffffffff ∧
      (txFrame p protoIp shortInfo).txHead = p.txHead + 16 ∧
      (txFrame p protoIp shortInfo).txTail = p.txTail := by
  have hencoding : p.encoding protoIp shortInfo = shortFrame := by
    rw [Peer.encoding, haccm]
    rfl
  have hring : 16 ≤ txRing := by decide
  have hfits : p.Fits protoIp shortInfo := by
    rw [Peer.Fits, hencoding, length_shortFrame]
    omega
  have haccept := Transmits.accept protoIp shortInfo h hfits trivial
  obtain ⟨hwrite, hsame⟩ := txFrame_of_fits hfits
  rw [hencoding] at haccept hwrite
  have hcounters := hwrite
  rw [Peer.ring, Peer.ring, ringWrite_eq, length_shortFrame, RingBuffer.mk.injEq] at hcounters
  exact ⟨haccept, hwrite, hsame.trans haccm, hcounters.2.1, hcounters.2.2⟩

/-- Short frames, each taken before the next, bring the counters as far as one likes. -/
theorem exists_drained (k : ℕ) : ∃ p accepted removed, Runs p accepted removed ∧
    p.txAccm = 0xffffffff ∧ p.txHead = p.txTail ∧ p.txTail = ofNat 32 (16 * k) ∧
      removed.length = accepted.flatten.length := by
  induction k with
  | zero => exact ⟨pppInit configDefault, [], [], .start configDefault, rfl, rfl, rfl, rfl⟩
  | succ k ih =>
    obtain ⟨p, accepted, removed, hruns, haccm, hempty, htail, hlength⟩ := ih
    have hused : p.txUsed = 0 := by
      rw [Peer.txUsed, hempty, sub_self]
      rfl
    obtain ⟨hnext, -, haccm', hhead', htail'⟩ := runs_shortFrame hruns haccm (by omega)
    have hsixteen : (txFrame p protoIp shortInfo).txUsed = 16 := by
      rw [Peer.txUsed, hhead', htail', hempty, add_sub_cancel_left]
      rfl
    obtain ⟨htaken, hhead'', htail'', haccm''⟩ := output_all hsixteen.le
    refine ⟨_, _, _, .take 16 hnext, haccm''.trans haccm', hhead''.trans htail''.symm, ?_, ?_⟩
    · rw [htail'', hhead', hempty, htail, Nat.mul_succ, ofNat_add]
      rfl
    · rw [length_append, htaken, hsixteen, hlength, flatten_append, length_append,
        flatten_singleton, length_shortFrame]

/-- From sixteen octets before the wrap on short frames are accepted and none is taken. -/
theorem exists_filled {k : ℕ} (hk : k ≤ 327) : ∃ p earlier removed,
    Runs p (earlier ++ List.replicate k shortFrame) removed ∧ p.txAccm = 0xffffffff ∧
      p.txTail = ofNat 32 (2 ^ 32 - 16) ∧
      p.txHead = ofNat 32 (2 ^ 32 - 16) + ofNat 32 (16 * k) ∧
      removed.length = earlier.flatten.length := by
  induction k with
  | zero =>
    obtain ⟨p, accepted, removed, hruns, haccm, hempty, htail, hlength⟩ := exists_drained (2 ^ 28 - 1)
    refine ⟨p, accepted, removed, ?_, haccm, htail, hempty.trans (htail.trans ?_), hlength⟩
    · rw [replicate_zero, append_nil]
      exact hruns
    · decide
  | succ k ih =>
    obtain ⟨p, earlier, removed, hruns, haccm, htail, hhead, hlength⟩ := ih (by omega)
    have hused : p.txUsed = 16 * k := by
      rw [Peer.txUsed, hhead, htail, add_sub_cancel_left]
      exact Nat.mod_eq_of_lt (by omega)
    have hring : txRing = 12056 := rfl
    obtain ⟨hnext, -, haccm', hhead', htail'⟩ := runs_shortFrame hruns haccm (by omega)
    refine ⟨_, earlier, removed, ?_, haccm', htail'.trans htail, ?_, hlength⟩
    · rw [replicate_succ', ← append_assoc]
      exact hnext
    · rw [hhead', hhead, Nat.mul_succ, ofNat_add, add_assoc]
      rfl

/-- With enough short frames pending across the wrap the oldest octet is overwritten by one of
another frame. -/
theorem not_transmits_fifo : ¬∀ p accepted removed, Runs p accepted removed →
    removed ++ p.pending = accepted.flatten := by
  intro hfifo
  obtain ⟨p, earlier, removed, hruns, haccm, htail, hhead, hlength⟩ := exists_filled (le_refl 327)
  have hplace : p.txHead = 5216 := by
    rw [hhead]
    decide
  have hused : p.txUsed = 5232 := by
    rw [Peer.txUsed, hplace, htail]
    decide
  have hring : txRing = 12056 := rfl
  obtain ⟨hnext, hwrite, -, hhead', htail'⟩ := runs_shortFrame hruns haccm (by omega)
  have hflat := hfifo _ _ _ hnext
  -- what stands where the first frame across the wrap begins is an octet of the last one
  have hoverwritten : (txFrame p protoIp shortInfo).tx 5224 = 0x41 := by
    have hslot := @slot_write 32 txRing Octet p.ring (by decide) shortFrame
      (by rw [length_shortFrame]; decide) (by
        rw [length_shortFrame]
        change p.txHead.toNat + 16 ≤ 2 ^ 32
        rw [hplace]
        decide) 8 (by rw [length_shortFrame]; decide)
    have hhead : p.ring.head.toNat = 5216 := congrArg BitVec.toNat hplace
    have hoctet := shortFrame_getElem.2
    rw [hhead, ← hwrite] at hslot
    rw [getElem?_eq_getElem (by rw [length_shortFrame]; decide)] at hoctet
    exact hslot.trans (Option.some.inj hoctet)
  have hfront : (txFrame p protoIp shortInfo).pending[0]? = some 0x41 := by
    have hne : (txFrame p protoIp shortInfo).txHead ≠ (txFrame p protoIp shortInfo).txTail := by
      rw [hhead', htail', hplace, htail]
      decide
    have htail'' : (txFrame p protoIp shortInfo).txTail.toNat % txRing = 5224 := by
      rw [htail', htail]
      decide
    have hpeek : peek txRing (txFrame p protoIp shortInfo).ring = some 0x41 := by
      rw [← hoverwritten, ← htail'']
      exact if_neg hne
    rw [Peer.pending, queue_peek hpeek]
    rfl
  have hfirst := congrArg (·[removed.length]?) hflat
  rw [getElem?_append_right le_rfl, Nat.sub_self, hfront, append_assoc,
    flatten_append, getElem?_append_right hlength.ge, hlength, Nat.sub_self,
    replicate_succ, cons_append, flatten_cons,
    getElem?_append_left (by rw [length_shortFrame]; decide), shortFrame_getElem.1] at hfirst
  exact absurd hfirst (by decide)

end S5LBox.Ppp
