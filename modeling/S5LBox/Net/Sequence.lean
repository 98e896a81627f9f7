import S5LBox.Net.Histories

/-!
# Sequence numbers

The wrapping comparisons in terms of distances, and what an acknowledgement does to the send
window. Acknowledgements are accepted one by one from the oldest octet on, with one exception: when
nothing is outstanding, the number half the sequence space away passes both comparisons.
-/

namespace S5LBox.Net

theorem netSeqLt_iff (a b : Word) :
    netSeqLt a b = true ↔ 0 < (b - a).toNat ∧ (b - a).toNat ≤ 2 ^ 31 := by
  have ha := a.isLt
  have hb := b.isLt
  unfold netSeqLt
  rw [BitVec.msb_eq_decide, decide_eq_true_eq, BitVec.toNat_sub, BitVec.toNat_sub]
  omega

theorem netSeqLe_iff (a b : Word) : netSeqLe a b = true ↔ (b - a).toNat ≤ 2 ^ 31 := by
  have ha := a.isLt
  have hb := b.isLt
  unfold netSeqLe
  rw [BitVec.msb_eq_decide, Bool.or_eq_true, decide_eq_true_eq, beq_iff_eq, BitVec.toNat_sub,
    BitVec.toNat_sub, ← BitVec.toNat_inj]
  omega

theorem sub_eq_iff (a b : Word) (n : ℕ) (hn : n < 2 ^ 32) :
    (a - b).toNat = n ↔ a = b + BitVec.ofNat 32 n := by
  have ha := a.isLt
  have hb := b.isLt
  rw [← BitVec.toNat_inj, BitVec.toNat_sub, BitVec.toNat_add, BitVec.toNat_ofNat]
  omega

theorem ofNat_sub_toNat (a b : Word) : b + BitVec.ofNat 32 (a - b).toNat = a := by
  rw [BitVec.ofNat_toNat, BitVec.setWidth_eq, add_comm, sub_add_cancel]

namespace Flow

variable (f : Flow)

/-- How far the last sequence number sent is ahead of the oldest outstanding one. -/
def outstanding : ℕ := (f.sndNxt - f.sndUna).toNat

/-- How far the end of the buffer is ahead, the FIN included. -/
def committed : ℕ := f.txbuf.length + if f.finSent then 1 else 0

/-- How far an acknowledgement is ahead. -/
def reach (ack : Word) : ℕ := (ack - f.sndUna).toNat

/-- The acknowledgement passes the comparisons. -/
def accepts (ack : Word) : Bool := netSeqLt f.sndUna ack && netSeqLe ack f.ackLimit

variable {f}

theorem ackLimit_sub (hroom : f.txbuf.length ≤ netTcpTxbuf) (hnear : f.outstanding ≤ 2 ^ 30) :
    (f.ackLimit - f.sndUna).toNat = max f.committed f.outstanding := by
  have hbuffer : f.committed ≤ 4097 := by
    have hle : f.txbuf.length ≤ 4096 := hroom
    unfold committed
    split <;> omega
  have hend : f.sndUna + BitVec.ofNat 32 f.txbuf.length + (if f.finSent then 1 else 0) =
      f.sndUna + BitVec.ofNat 32 f.committed := by
    unfold committed
    cases f.finSent
    · exact BitVec.add_zero _
    · rw [if_pos rfl, if_pos rfl, BitVec.ofNat_add, BitVec.add_assoc]
      rfl
  have hlater : netSeqLt (f.sndUna + BitVec.ofNat 32 f.committed) f.sndNxt = true ↔
      f.committed < f.outstanding := by
    have hnxt : f.sndNxt - (f.sndUna + BitVec.ofNat 32 f.committed) =
        BitVec.ofNat 32 f.outstanding - BitVec.ofNat 32 f.committed := by
      rw [sub_add_eq_sub_sub, outstanding, BitVec.ofNat_toNat, BitVec.setWidth_eq]
    rw [netSeqLt_iff, hnxt, BitVec.toNat_sub, BitVec.toNat_ofNat, BitVec.toNat_ofNat]
    omega
  unfold ackLimit
  dsimp only
  rw [hend]
  split
  case isTrue hlt =>
    rw [max_eq_right (hlater.1 hlt).le]
    rfl
  case isFalse hlt =>
    have hle : f.outstanding ≤ f.committed := by
      rw [hlater] at hlt
      omega
    rw [max_eq_left hle, sub_eq_iff _ _ _ (by omega)]

/-- An acknowledgement is accepted up to the end of what was sent or committed; when there is
nothing outstanding, only the one half the space away. -/
theorem accepts_iff (hroom : f.txbuf.length ≤ netTcpTxbuf) (hnear : f.outstanding ≤ 2 ^ 30)
    (ack : Word) : f.accepts ack = true ↔
      (0 < f.reach ack ∧ f.reach ack ≤ max f.committed f.outstanding) ∨
        (max f.committed f.outstanding = 0 ∧ f.reach ack = 2 ^ 31) := by
  have hlimit := ackLimit_sub hroom hnear
  have hbound : max f.committed f.outstanding ≤ 2 ^ 30 := by
    have hle : f.txbuf.length ≤ 4096 := hroom
    unfold committed at *
    split <;> omega
  have hack := ack.isLt
  unfold accepts reach
  rw [Bool.and_eq_true, netSeqLt_iff, netSeqLe_iff]
  generalize max f.committed f.outstanding = limit at *
  rw [BitVec.toNat_sub] at *
  rw [BitVec.toNat_sub]
  omega

variable (f) in
/-- What an accepted acknowledgement leaves, our FIN apart. -/
def consumed (ack : Word) : Flow :=
  { f with
    txbuf := f.txbuf.drop (f.reach ack)
    sndUna := ack
    sndNxt := if netSeqLt f.sndNxt ack then ack else f.sndNxt
    rtx := 0
    rtoOn := false }

variable (f) in
/-- The acknowledgement covers our FIN. -/
def coversFin (ack : Word) : Bool := f.finSent && f.txbuf.length < f.reach ack

theorem tcpConsumeAck_eq (nowMs ack : Word) : f.tcpConsumeAck nowMs ack =
    if f.accepts ack then
      if f.coversFin ack then (f.consumed ack).finAcked nowMs else f.consumed ack
    else f := by
  unfold tcpConsumeAck accepts
  cases netSeqLt f.sndUna ack
  · rfl
  · cases netSeqLe ack f.ackLimit
    · rfl
    · rfl

theorem consumed_outstanding {ack : Word} (hnear : f.outstanding ≤ 2 ^ 30)
    (hreach : f.reach ack ≤ 2 ^ 30) :
    (f.consumed ack).outstanding = f.outstanding - f.reach ack := by
  have hnxt : f.sndNxt - ack = BitVec.ofNat 32 f.outstanding - BitVec.ofNat 32 (f.reach ack) := by
    unfold outstanding reach
    rw [BitVec.ofNat_toNat, BitVec.setWidth_eq, BitVec.ofNat_toNat, BitVec.setWidth_eq,
      sub_sub_sub_cancel_right]
  have hback : ack - f.sndNxt = BitVec.ofNat 32 (f.reach ack) - BitVec.ofNat 32 f.outstanding := by
    unfold outstanding reach
    rw [BitVec.ofNat_toNat, BitVec.setWidth_eq, BitVec.ofNat_toNat, BitVec.setWidth_eq,
      sub_sub_sub_cancel_right]
  have hlater : netSeqLt f.sndNxt ack = true ↔ f.outstanding < f.reach ack := by
    rw [netSeqLt_iff, hback, BitVec.toNat_sub, BitVec.toNat_ofNat, BitVec.toNat_ofNat]
    omega
  change ((if netSeqLt f.sndNxt ack then ack else f.sndNxt) - ack).toNat = _
  split
  case isTrue hlt =>
    have hless := hlater.1 hlt
    have hzero : (0 : Word).toNat = 0 := rfl
    rw [sub_self]
    omega
  case isFalse hlt =>
    have hge : f.reach ack ≤ f.outstanding := by
      rw [hlater] at hlt
      omega
    rw [hnxt, BitVec.toNat_sub, BitVec.toNat_ofNat, BitVec.toNat_ofNat]
    omega

end Flow

end S5LBox.Net
