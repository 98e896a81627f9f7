import S5LBox.Soc.RunLoop

/-!
# Device time

The machine turns instructions into ticks of a timebase and hands these to its devices: the timer
block, whose fourth timer counts down, and the TV-out, which counts frames. Both advance by whole
intervals at once, by division; ticks that come in parts have the effect of their sum, and the
conversion keeps its remainder.
-/

namespace S5LBox.Soc

open Function List S5LBox.Arm Nat
open BitVec (eq_of_toNat_eq ofNat ofNat_add toNat_add toNat_add_of_lt toNat_ofNat toNat_setWidth
  toNat_sub_of_le toNat_udiv toNat_umod)

structure Timer where
  ticks : DWord
  config : Word
  t4Config : Word
  t4State : Word
  t4Count : Word
  t4Count2 : Word
  t4Value : Word
  irqlatch : Word
  deriving DecidableEq

def timer4StateStart : Word := 1

def timer4IrqBits : Word := 0x00030000

def Timer.started (t : Timer) : Bool := t.t4State &&& timer4StateStart ≠ 0

/-- The count-down of timer 4 by at least one tick. -/
def Timer.countDown (t : Timer) (ticks : Word) : Timer :=
  let period := t.t4Count
  let value := if t.t4Value = 0 then period else t.t4Value
  if value = 0 then t
  else if ticks < value then { t with t4Value := value - ticks }
  else
    let afterFirst := ticks - value
    let t := { t with irqlatch := t.irqlatch ||| timer4IrqBits }
    if period = 0 then { t with t4Value := 0 }
    else
      let phase := afterFirst % period
      { t with t4Value := if phase ≠ 0 then period - phase else period }

/-- `s5l_timer_tick`: the line of the interrupt and the block afterwards. -/
def s5lTimerTick (t : Timer) (ticks : Word) : Bool × Timer :=
  let t := { t with ticks := t.ticks + ticks.setWidth 64 }
  let t := if t.started ∧ ticks ≠ 0 then t.countDown ticks else t
  (t.irqlatch ≠ 0, t)

inductive TvoutBank where
  | ctrl
  | mixer
  | sdo
  deriving DecidableEq

structure Tvout where
  regs : TvoutBank → Fin 1024 → Word
  frameTicks : Word
  frameAccum : Word
  frames : DWord

def tvoutRun : Word := 1

/-- The index of `TVOUT_SDO_IRQ` in its bank. -/
def tvoutSdoIrq : Fin 1024 := 0x280 / 4

def tvoutSdoIrqmask : Fin 1024 := 0x284 / 4

def tvoutSdoVsync : Word := 1

def s5lTvoutRunning (t : Tvout) : Bool :=
  t.regs .mixer 0 &&& tvoutRun ≠ 0 ∧ t.regs .sdo 0 &&& tvoutRun ≠ 0

def s5lTvoutIrq (t : Tvout) : Bool :=
  s5lTvoutRunning t ∧ t.regs .sdo tvoutSdoIrq &&& tvoutSdoVsync ≠ 0 ∧
    t.regs .sdo tvoutSdoIrqmask &&& tvoutSdoVsync = 0

/-- The pending bit of the vertical blank. -/
def Tvout.latch (t : Tvout) : Tvout :=
  { t with regs := Function.update t.regs .sdo (Function.update (t.regs .sdo) tvoutSdoIrq
      (t.regs .sdo tvoutSdoIrq ||| tvoutSdoVsync)) }

def s5lTvoutTick (t : Tvout) (ticks : Word) : Bool × Tvout :=
  if ¬s5lTvoutRunning t ∨ t.frameTicks = 0 then (false, { t with frameAccum := 0 })
  else
    let total : DWord := t.frameAccum.setWidth 64 + ticks.setWidth 64
    let elapsed := total / t.frameTicks.setWidth 64
    let t := { t with frameAccum := (total % t.frameTicks.setWidth 64).setWidth 32 }
    let t := if elapsed ≠ 0 then ({ t with frames := t.frames + elapsed } : Tvout).latch else t
    (s5lTvoutIrq t, t)

/-- Where a count-down stands after `n` ticks, and whether it has expired. -/
def countDown (period value n : ℕ) : ℕ × Bool :=
  if n < value then (value - n, false)
  else if period = 0 then (0, true)
  else (period - (n - value) % period, true)

theorem countDown_fst_pos {period value n : ℕ} (h : 0 < period) :
    0 < (countDown period value n).1 := by
  have hmod := mod_lt (n - value) h
  unfold countDown
  split
  · exact Nat.sub_pos_of_lt ‹_›
  · rw [if_neg h.ne']
    exact Nat.sub_pos_of_lt hmod

theorem countDown_add {period value a b : ℕ} (h : a < value ∨ 0 < period) :
    countDown period value (a + b) = ((countDown period (countDown period value a).1 b).1,
        (countDown period value a).2 || (countDown period (countDown period value a).1 b).2) := by
  unfold countDown
  by_cases ha : a < value
  · rw [if_pos ha]
    dsimp only
    by_cases hb : a + b < value
    · rw [if_pos hb, if_pos (by omega), Nat.sub_sub]
      rfl
    · have hsame : a + b - value = b - (value - a) := by omega
      have hb' : ¬b < value - a := by omega
      rw [if_neg hb, if_neg hb', hsame]
      split <;> rfl
  · have hperiod := h.resolve_left ha
    have hmod := mod_lt (a - value) hperiod
    rw [if_neg ha, if_neg (by omega), if_neg hperiod.ne', if_neg hperiod.ne']
    dsimp only
    have hsum : (a + b - value) % period = ((a - value) % period + b) % period := by
      rw [mod_add_mod]
      congr 1
      omega
    by_cases hb : b < period - (a - value) % period
    · rw [if_pos hb, hsum, mod_eq_of_lt (by omega), Nat.sub_sub]
      rfl
    · have hsame : (a - value) % period + b - period = b - (period - (a - value) % period) := by
        omega
      rw [if_neg hb, hsum, mod_eq_sub_mod (by omega), hsame, if_neg hperiod.ne']
      rfl

theorem countDown_fst_le {period value n : ℕ} : (countDown period value n).1 ≤ max period value := by
  unfold countDown
  split
  · exact (sub_le _ _).trans (le_max_right _ _)
  · split
    · exact Nat.zero_le _
    · exact (sub_le _ _).trans (le_max_left _ _)

/-- The value that is counted down from: an expired count-down is loaded again. -/
def Timer.live (t : Timer) : Word := if t.t4Value = 0 then t.t4Count else t.t4Value

/-- The block with a new value, which has come about with or without an expiry. -/
def Timer.set (t : Timer) (result : ℕ × Bool) : Timer :=
  { t with
    t4Value := ofNat 32 result.1
    irqlatch := if result.2 then t.irqlatch ||| timer4IrqBits else t.irqlatch }

theorem Timer.countDown_idle {t : Timer} (h : t.live = 0) (n : Word) : t.countDown n = t :=
  if_pos h

theorem Timer.countDown_live {t : Timer} (h : t.live ≠ 0) (n : Word) :
    t.countDown n = t.set (Soc.countDown t.t4Count.toNat t.live.toNat n.toNat) := by
  have hlive := t.live.isLt
  have hcount := t.t4Count.isLt
  refine (if_neg h).trans ?_
  change (if n < t.live then { t with t4Value := t.live - n } else
    if t.t4Count = 0 then { t with irqlatch := t.irqlatch ||| timer4IrqBits, t4Value := 0 } else
      { t with
        irqlatch := t.irqlatch ||| timer4IrqBits
        t4Value := if (n - t.live) % t.t4Count ≠ 0 then t.t4Count - (n - t.live) % t.t4Count
          else t.t4Count }) = _
  unfold Soc.countDown
  by_cases hless : n < t.live
  · have hless' : n.toNat < t.live.toNat := hless
    rw [if_pos hless, if_pos hless', Timer.set]
    have hvalue : t.live - n = ofNat 32 (t.live.toNat - n.toNat) := by
      refine eq_of_toNat_eq ?_
      rw [toNat_sub_of_le (BitVec.le_of_lt hless), toNat_ofNat]
      omega
    rw [hvalue]
    rfl
  have hless' : ¬n.toNat < t.live.toNat := hless
  rw [if_neg hless, if_neg hless']
  by_cases hzero : t.t4Count = 0
  · rw [if_pos hzero, if_pos (by rw [hzero]; rfl)]
    rfl
  have hzero' : t.t4Count.toNat ≠ 0 := fun h ↦ hzero (eq_of_toNat_eq h)
  rw [if_neg hzero, if_neg hzero', Timer.set]
  have hle : t.live ≤ n := BitVec.not_lt.1 hless
  have hafter : (n - t.live).toNat = n.toNat - t.live.toNat := toNat_sub_of_le hle
  have hmod := mod_lt (n.toNat - t.live.toNat) (Nat.pos_of_ne_zero hzero')
  have hphase : ((n - t.live) % t.t4Count).toNat = (n.toNat - t.live.toNat) % t.t4Count.toNat := by
    rw [toNat_umod, hafter]
  have hvalue : (if (n - t.live) % t.t4Count ≠ 0 then t.t4Count - (n - t.live) % t.t4Count
      else t.t4Count) =
        ofNat 32 (t.t4Count.toNat - (n.toNat - t.live.toNat) % t.t4Count.toNat) := by
    refine eq_of_toNat_eq ?_
    rw [toNat_ofNat]
    by_cases hsome : (n - t.live) % t.t4Count ≠ 0
    · rw [if_pos hsome, toNat_sub_of_le, hphase]
      · omega
      · rw [BitVec.le_def, hphase]
        omega
    · have hnone : (n.toNat - t.live.toNat) % t.t4Count.toNat = 0 := by
        rw [← hphase, not_not.1 hsome]
        rfl
      rw [if_neg hsome, hnone]
      omega
  rw [hvalue]
  rfl

theorem Timer.set_set (t : Timer) (first second : ℕ × Bool) :
    (t.set first).set second = t.set (second.1, first.2 || second.2) := by
  obtain ⟨_, expired⟩ := first
  obtain ⟨_, again⟩ := second
  cases expired <;> cases again <;>
    simp only [Timer.set, Bool.or_true, Bool.or_false, Bool.or_self, Bool.false_eq_true, if_true,
      if_false, BitVec.or_assoc, BitVec.or_self]

theorem Timer.countDown_add {t : Timer} {a b : Word} (hsum : a.toNat + b.toNat < 2 ^ 32) :
    (t.countDown a).countDown b = t.countDown (a + b) := by
  by_cases hidle : t.live = 0
  · rw [countDown_idle hidle, countDown_idle hidle, countDown_idle hidle]
  have hlive := t.live.isLt
  have hcount := t.t4Count.isLt
  have hplus : (a + b).toNat = a.toNat + b.toNat := toNat_add_of_lt hsum
  rw [countDown_live hidle a, countDown_live hidle (a + b), hplus]
  have hle := @countDown_fst_le t.t4Count.toNat t.live.toNat a.toNat
  set first := Soc.countDown t.t4Count.toNat t.live.toNat a.toNat with hfirst
  have hvalue : (ofNat 32 first.1).toNat = first.1 := by
    rw [toNat_ofNat]
    omega
  by_cases hstopped : first.1 = 0
  · -- a count-down that has come to zero was not loaded again and stays there
    have hzero : t.t4Count.toNat = 0 := by
      refine Nat.eq_zero_of_not_pos fun hpos ↦ ?_
      exact absurd hstopped (countDown_fst_pos hpos).ne'
    have hless : ¬a.toNat < t.live.toNat := by
      intro hless
      rw [hfirst, Soc.countDown, if_pos hless] at hstopped
      omega
    have hexpired : ∀ n : ℕ, a.toNat ≤ n →
        Soc.countDown t.t4Count.toNat t.live.toNat n = (0, true) := by
      intro n hn
      unfold Soc.countDown
      rw [if_neg (by omega), if_pos hzero]
    rw [hfirst, hexpired _ le_rfl, hexpired _ (Nat.le_add_right _ _)]
    refine countDown_idle ?_ b
    exact (if_pos rfl).trans (eq_of_toNat_eq hzero)
  · have hne : ofNat 32 first.1 ≠ 0 := by
      intro h
      rw [h] at hvalue
      exact hstopped hvalue.symm
    have hnext : (t.set first).live = ofNat 32 first.1 := if_neg hne
    rw [countDown_live (by rw [hnext]; exact hne) b, hnext, hvalue, Timer.set_set, Soc.countDown_add]
    · rfl
    · by_contra hcontra
      refine hstopped ?_
      rw [hfirst, Soc.countDown, if_neg (by omega), if_pos (by omega)]

theorem Timer.countDown_ticks (t : Timer) (k : DWord) (n : Word) :
    Timer.countDown { t with ticks := k } n = { t.countDown n with ticks := k } := by
  by_cases hidle : t.live = 0
  · have hidle' : Timer.live { t with ticks := k } = 0 := hidle
    rw [countDown_idle hidle, countDown_idle hidle']
  · have hlive : Timer.live { t with ticks := k } ≠ 0 := hidle
    rw [countDown_live hidle, countDown_live hlive]
    rfl

theorem Timer.countDown_t4State (t : Timer) (n : Word) : (t.countDown n).t4State = t.t4State := by
  by_cases hidle : t.live = 0
  · rw [countDown_idle hidle]
  · rw [countDown_live hidle]
    rfl

/-- What the fourth timer makes of a tick. -/
def Timer.run (t : Timer) (n : Word) : Timer := if t.started ∧ n ≠ 0 then t.countDown n else t

theorem Timer.run_ticks (t : Timer) (k : DWord) (n : Word) :
    Timer.run { t with ticks := k } n = { t.run n with ticks := k } := by
  unfold Timer.run
  by_cases hrun : t.started ∧ n ≠ 0
  · have hrun' : Timer.started { t with ticks := k } ∧ n ≠ 0 := hrun
    rw [if_pos hrun, if_pos hrun', Timer.countDown_ticks]
  · have hrun' : ¬(Timer.started { t with ticks := k } ∧ n ≠ 0) := hrun
    rw [if_neg hrun, if_neg hrun']

theorem s5lTimerTick_eq (t : Timer) (n : Word) :
    s5lTimerTick t n = (((t.run n).irqlatch ≠ 0 : Bool),
      { t.run n with ticks := t.ticks + n.setWidth 64 }) := by
  unfold s5lTimerTick
  change (decide ((Timer.run { t with ticks := t.ticks + n.setWidth 64 } n).irqlatch ≠ 0),
    Timer.run { t with ticks := t.ticks + n.setWidth 64 } n) = _
  rw [Timer.run_ticks]

theorem Timer.run_add (t : Timer) {a b : Word} (hsum : a.toNat + b.toNat < 2 ^ 32) :
    (t.run a).run b = t.run (a + b) := by
  have hplus : (a + b).toNat = a.toNat + b.toNat := toNat_add_of_lt hsum
  by_cases ha : a = 0
  · have hsame : t.run a = t := if_neg fun h ↦ h.2 ha
    have hplus' : a + b = b := by
      rw [ha]
      exact BitVec.zero_add b
    rw [hsame, hplus']
  by_cases hb : b = 0
  · have hsame : (t.run a).run b = t.run a := if_neg fun h ↦ h.2 hb
    have hplus' : a + b = a := by
      rw [hb]
      exact BitVec.add_zero a
    rw [hsame, hplus']
  by_cases hstarted : t.started
  · have hsum' : a + b ≠ 0 := by
      intro h
      rw [h] at hplus
      refine ha (eq_of_toNat_eq ?_)
      change 0 = _ at hplus
      change _ = 0
      omega
    have hfirst : t.run a = t.countDown a := if_pos ⟨hstarted, ha⟩
    have hstill : (t.countDown a).started := by
      unfold Timer.started at hstarted ⊢
      rwa [Timer.countDown_t4State]
    have hsecond : (t.countDown a).run b = (t.countDown a).countDown b := if_pos ⟨hstill, hb⟩
    have hboth : t.run (a + b) = t.countDown (a + b) := if_pos ⟨hstarted, hsum'⟩
    rw [hfirst, hsecond, hboth, Timer.countDown_add hsum]
  · have hstopped : ∀ n, t.run n = t := fun n ↦ if_neg fun h ↦ hstarted h.1
    rw [hstopped, hstopped, hstopped]

theorem s5lTimerTick_add (t : Timer) {a b : Word} (hsum : a.toNat + b.toNat < 2 ^ 32) :
    s5lTimerTick (s5lTimerTick t a).2 b = s5lTimerTick t (a + b) := by
  have hwide : a.setWidth 64 + b.setWidth 64 = (a + b).setWidth 64 := by
    refine eq_of_toNat_eq ?_
    rw [toNat_add, toNat_setWidth, toNat_setWidth, toNat_setWidth, toNat_add]
    omega
  rw [s5lTimerTick_eq, s5lTimerTick_eq t, s5lTimerTick_eq t, Timer.run_ticks, Timer.run_add t hsum,
    ← hwide, ← BitVec.add_assoc]

/-- The TV-out with a new phase and `elapsed` more frames. -/
def Tvout.set (t : Tvout) (phase elapsed : ℕ) : Tvout where
  regs := if elapsed ≠ 0 then t.latch.regs else t.regs
  frameTicks := t.frameTicks
  frameAccum := ofNat 32 phase
  frames := t.frames + ofNat 64 elapsed

/-- Frames are counted. -/
def Tvout.Counting (t : Tvout) : Prop := s5lTvoutRunning t ∧ t.frameTicks ≠ 0

theorem Tvout.latch_latch (t : Tvout) : t.latch.latch = t.latch := by
  unfold Tvout.latch
  simp only [update_self, update_idem, BitVec.or_assoc, BitVec.or_self]

/-- The vertical blank is a bit beside the ones that start the output. -/
theorem Tvout.running_set (t : Tvout) (phase elapsed : ℕ) :
    s5lTvoutRunning (t.set phase elapsed) = s5lTvoutRunning t := by
  have hmixer : (t.set phase elapsed).regs .mixer 0 = t.regs .mixer 0 := by
    unfold Tvout.set Tvout.latch
    dsimp only
    split
    · rw [update_of_ne (by decide)]
    · rfl
  have hsdo : (t.set phase elapsed).regs .sdo 0 = t.regs .sdo 0 := by
    unfold Tvout.set Tvout.latch
    dsimp only
    split
    · rw [update_self, update_of_ne (by decide)]
    · rfl
  unfold s5lTvoutRunning
  rw [hmixer, hsdo]

theorem s5lTvoutTick_counting {t : Tvout} (h : t.Counting) (n : Word) : s5lTvoutTick t n =
      (s5lTvoutIrq (t.set ((t.frameAccum.toNat + n.toNat) % t.frameTicks.toNat)
          ((t.frameAccum.toNat + n.toNat) / t.frameTicks.toNat)),
        t.set ((t.frameAccum.toNat + n.toNat) % t.frameTicks.toNat)
          ((t.frameAccum.toNat + n.toNat) / t.frameTicks.toNat)) := by
  obtain ⟨hrunning, hticks⟩ := h
  have haccum := t.frameAccum.isLt
  have hn := n.isLt
  have hperiod := t.frameTicks.isLt
  have htotal : (t.frameAccum.setWidth 64 + n.setWidth 64).toNat =
      t.frameAccum.toNat + n.toNat := by
    rw [toNat_add, toNat_setWidth, toNat_setWidth]
    omega
  have hwide : (t.frameTicks.setWidth 64).toNat = t.frameTicks.toNat := by
    rw [toNat_setWidth]
    omega
  have hquotient : (t.frameAccum.toNat + n.toNat) / t.frameTicks.toNat < 2 ^ 64 :=
    (Nat.div_le_self _ _).trans_lt (by omega)
  have helapsed : (t.frameAccum.setWidth 64 + n.setWidth 64) / t.frameTicks.setWidth 64 =
      ofNat 64 ((t.frameAccum.toNat + n.toNat) / t.frameTicks.toNat) := by
    refine eq_of_toNat_eq ?_
    rw [toNat_udiv, htotal, hwide, toNat_ofNat, mod_eq_of_lt hquotient]
  have hphase : ((t.frameAccum.setWidth 64 + n.setWidth 64) % t.frameTicks.setWidth 64).setWidth 32 =
      ofNat 32 ((t.frameAccum.toNat + n.toNat) % t.frameTicks.toNat) := by
    refine eq_of_toNat_eq ?_
    rw [toNat_setWidth, toNat_umod, htotal, hwide, toNat_ofNat]
  unfold s5lTvoutTick
  rw [if_neg (by rw [hrunning]; exact not_or.2 ⟨not_not.2 rfl, hticks⟩)]
  dsimp only
  rw [helapsed, hphase]
  by_cases hnone : (t.frameAccum.toNat + n.toNat) / t.frameTicks.toNat = 0
  · have hframes : t.frames + ofNat 64 0 = t.frames := BitVec.add_zero _
    have hzero : ¬ofNat 64 0 ≠ 0 := not_not.2 rfl
    have hzero' : ¬(0 : ℕ) ≠ 0 := not_not.2 rfl
    rw [hnone, if_neg hzero, Tvout.set, if_neg hzero', hframes]
  · have hsome : ofNat 64 ((t.frameAccum.toNat + n.toNat) / t.frameTicks.toNat) ≠ 0 := by
      intro hzero
      have hnat := congrArg BitVec.toNat hzero
      rw [toNat_ofNat, mod_eq_of_lt hquotient] at hnat
      exact hnone hnat
    rw [if_pos hsome, Tvout.set, if_pos hnone]
    rfl

theorem Tvout.set_set (t : Tvout) (phase elapsed phase' elapsed' : ℕ) :
    (t.set phase elapsed).set phase' elapsed' = t.set phase' (elapsed + elapsed') := by
  have hframes : t.frames + ofNat 64 elapsed + ofNat 64 elapsed' =
      t.frames + ofNat 64 (elapsed + elapsed') := by
    rw [BitVec.add_assoc, ofNat_add]
  have hlatch : (t.set phase elapsed).latch.regs = t.latch.regs := by
    by_cases hsome : elapsed ≠ 0
    · have hregs : (t.set phase elapsed).regs = t.latch.regs := if_pos hsome
      have htwice := congrArg Tvout.regs t.latch_latch
      unfold Tvout.latch at hregs htwice ⊢
      dsimp only at hregs htwice ⊢
      rw [hregs]
      exact htwice
    · have hregs : (t.set phase elapsed).regs = t.regs := if_neg hsome
      unfold Tvout.latch
      rw [hregs]
  have hregs : (if elapsed' ≠ 0 then (t.set phase elapsed).latch.regs
      else (t.set phase elapsed).regs) =
        if elapsed + elapsed' ≠ 0 then t.latch.regs else t.regs := by
    rw [hlatch]
    by_cases hsome' : elapsed' ≠ 0
    · rw [if_pos hsome', if_pos (by omega)]
    · rw [if_neg hsome', Tvout.set]
      dsimp only
      rw [not_not.1 hsome', add_zero]
  unfold Tvout.set at hregs ⊢
  dsimp only at hregs ⊢
  rw [hregs, hframes]

theorem s5lTvoutTick_add (t : Tvout) {a b : Word} (hsum : a.toNat + b.toNat < 2 ^ 32) :
    s5lTvoutTick (s5lTvoutTick t a).2 b = s5lTvoutTick t (a + b) := by
  by_cases hcounting : t.Counting
  · have hplus : (a + b).toNat = a.toNat + b.toNat := toNat_add_of_lt hsum
    have hpos : 0 < t.frameTicks.toNat :=
      Nat.pos_of_ne_zero fun h ↦ hcounting.2 (eq_of_toNat_eq h)
    have hmod := mod_lt (t.frameAccum.toNat + a.toNat) hpos
    rw [s5lTvoutTick_counting hcounting a, s5lTvoutTick_counting hcounting (a + b), hplus]
    generalize hphase : (t.frameAccum.toNat + a.toNat) % t.frameTicks.toNat = phase at *
    generalize helapsed : (t.frameAccum.toNat + a.toNat) / t.frameTicks.toNat = elapsed at *
    have hstill : (t.set phase elapsed).Counting :=
      ⟨(t.running_set phase elapsed).trans hcounting.1, hcounting.2⟩
    have haccum : (t.set phase elapsed).frameAccum.toNat = phase := by
      change (ofNat 32 phase).toNat = phase
      rw [toNat_ofNat]
      omega
    have hticks : (t.set phase elapsed).frameTicks = t.frameTicks := rfl
    have hsplit := div_add_mod (t.frameAccum.toNat + a.toNat) t.frameTicks.toNat
    rw [helapsed, hphase] at hsplit
    have htotal : t.frameAccum.toNat + (a.toNat + b.toNat) =
        phase + b.toNat + t.frameTicks.toNat * elapsed := by omega
    dsimp only
    rw [s5lTvoutTick_counting hstill b, haccum, hticks, Tvout.set_set, htotal,
      add_mul_mod_self_left, add_mul_div_left _ _ hpos, Nat.add_comm elapsed]
  · have hidle : ¬s5lTvoutRunning t ∨ t.frameTicks = 0 := by
      by_contra hcontra
      rw [not_or, not_not] at hcontra
      exact hcounting hcontra
    have hidle' : ¬s5lTvoutRunning { t with frameAccum := 0 } ∨ t.frameTicks = 0 := hidle
    unfold s5lTvoutTick
    rw [if_pos hidle, if_pos hidle, if_pos hidle']

variable {σ : Type}

/-- What the devices owe to the clock: a refresh hands its ticks to the free-running counter and
leaves the conversion alone, and the accumulator is a field of its own. -/
structure Devices.KeepsTime (d : Devices σ) (timebase : σ → DWord) : Prop where
  cpuHz_setAccum : ∀ ctx accum, (d.clock (d.setAccum ctx accum)).cpuHz = (d.clock ctx).cpuHz
  tbHz_setAccum : ∀ ctx accum, (d.clock (d.setAccum ctx accum)).tbHz = (d.clock ctx).tbHz
  tbAccum_setAccum : ∀ ctx accum, (d.clock (d.setAccum ctx accum)).tbAccum = accum
  timebase_setAccum : ∀ ctx accum, timebase (d.setAccum ctx accum) = timebase ctx
  cpuHz_refresh : ∀ ctx tb, (d.clock (d.refresh ctx tb)).cpuHz = (d.clock ctx).cpuHz
  tbHz_refresh : ∀ ctx tb, (d.clock (d.refresh ctx tb)).tbHz = (d.clock ctx).tbHz
  tbAccum_refresh : ∀ ctx tb, (d.clock (d.refresh ctx tb)).tbAccum = (d.clock ctx).tbAccum
  timebase_refresh : ∀ ctx tb, timebase (d.refresh ctx tb) = timebase ctx + tb.setWidth 64

/-- The accumulator holds a remainder. -/
def Clock.Reduced (c : Clock) : Prop := c.tbAccum.toNat < c.cpuHz.toNat

/-- A count of ticks that the machine is asked for: one at a time, or a batch, which is formed only
when the timebase is not faster than the core. -/
def Clock.Admits (c : Clock) (ticks : Word) : Prop :=
  c.tbHz.toNat ≤ c.cpuHz.toNat ∨ ticks.toNat ≤ 1

variable {b : Board σ} {timebase : σ → DWord} {ctx : σ} {ticks : Word}

theorem advance_exact (hkeeps : b.devices.KeepsTime timebase)
    (htb : (b.devices.clock ctx).tbHz ≠ 0) (hreduced : (b.devices.clock ctx).Reduced)
    (hadmits : (b.devices.clock ctx).Admits ticks) :
    (b.devices.clock (b.advance ctx ticks)).cpuHz = (b.devices.clock ctx).cpuHz ∧
      (b.devices.clock (b.advance ctx ticks)).tbHz = (b.devices.clock ctx).tbHz ∧
      (b.devices.clock (b.advance ctx ticks)).Reduced ∧
      ∃ q : ℕ, timebase (b.advance ctx ticks) = timebase ctx + ofNat 64 q ∧
        q * (b.devices.clock ctx).cpuHz.toNat +
            (b.devices.clock (b.advance ctx ticks)).tbAccum.toNat =
          (b.devices.clock ctx).tbAccum.toNat + ticks.toNat * (b.devices.clock ctx).tbHz.toNat := by
  set c := b.devices.clock ctx
  have hcpu := c.cpuHz.isLt
  have htb' := c.tbHz.isLt
  have hticks := ticks.isLt
  have hpos : 0 < c.cpuHz.toNat := (Nat.zero_le _).trans_lt hreduced
  have hcpuHz : c.cpuHz ≠ 0 := by
    intro h
    rw [h] at hpos
    exact absurd hpos (by decide)
  have hmul : ticks.toNat * c.tbHz.toNat ≤ (2 ^ 32 - 1) * (2 ^ 32 - 1) :=
    Nat.mul_le_mul (by omega) (by omega)
  obtain ⟨total, htotal⟩ : ∃ total, c.tbAccum.toNat + ticks.toNat * c.tbHz.toNat = total := ⟨_, rfl⟩
  have haccum : (c.tbAccum + ticks.setWidth 64 * c.tbHz.setWidth 64).toNat = total := by
    unfold Clock.Reduced at hreduced
    rw [toNat_add, BitVec.toNat_mul, toNat_setWidth, toNat_setWidth,
      mod_eq_of_lt (by omega : ticks.toNat < 2 ^ 64),
      mod_eq_of_lt (by omega : c.tbHz.toNat < 2 ^ 64)]
    omega
  have hwide : (c.cpuHz.setWidth 64).toNat = c.cpuHz.toNat := by
    rw [toNat_setWidth]
    omega
  -- the quotient of an admitted count fits the word that it is cut to
  have hquotient : total / c.cpuHz.toNat < 2 ^ 32 := by
    rw [Nat.div_lt_iff_lt_mul hpos]
    unfold Clock.Reduced at hreduced
    rcases hadmits with hslow | hone
    · have hle := Nat.mul_le_mul (by omega : ticks.toNat ≤ 2 ^ 32 - 1) hslow
      omega
    · have hle := Nat.mul_le_mul_right c.tbHz.toNat hone
      omega
  have hdiv := div_add_mod' total c.cpuHz.toNat
  have hmod := mod_lt total hpos
  unfold Board.advance
  dsimp only
  rw [if_pos ⟨hcpuHz, htb⟩, htotal]
  generalize c.tbAccum + ticks.setWidth 64 * c.tbHz.setWidth 64 = accum at haccum ⊢
  split
  case isTrue hearly =>
    have hless : total < c.cpuHz.toNat := by
      rw [← haccum, ← hwide]
      exact hearly.2.2.2.1
    refine ⟨hkeeps.cpuHz_setAccum _ _, hkeeps.tbHz_setAccum _ _, ?_, 0, ?_, ?_⟩
    · rw [Clock.Reduced, hkeeps.cpuHz_setAccum, hkeeps.tbAccum_setAccum, haccum]
      exact hless
    · rw [hkeeps.timebase_setAccum]
      exact (BitVec.add_zero _).symm
    · rw [hkeeps.tbAccum_setAccum, haccum, zero_mul, zero_add]
  case isFalse =>
    have hremainder : (accum % c.cpuHz.setWidth 64).toNat = total % c.cpuHz.toNat := by
      rw [toNat_umod, haccum, hwide]
    have hadded : ((accum / c.cpuHz.setWidth 64).setWidth 32).setWidth 64 =
        ofNat 64 (total / c.cpuHz.toNat) := by
      refine eq_of_toNat_eq ?_
      rw [toNat_setWidth, toNat_setWidth, toNat_udiv, haccum, hwide,
        toNat_ofNat, mod_eq_of_lt hquotient]
    refine ⟨?_, ?_, ?_, total / c.cpuHz.toNat, ?_, ?_⟩
    · rw [hkeeps.cpuHz_refresh, hkeeps.cpuHz_setAccum, hkeeps.cpuHz_setAccum]
    · rw [hkeeps.tbHz_refresh, hkeeps.tbHz_setAccum, hkeeps.tbHz_setAccum]
    · rw [Clock.Reduced, hkeeps.cpuHz_refresh, hkeeps.tbAccum_refresh, hkeeps.cpuHz_setAccum,
        hkeeps.cpuHz_setAccum, hkeeps.tbAccum_setAccum, hremainder]
      exact hmod
    · rw [hkeeps.timebase_refresh, hkeeps.timebase_setAccum, hkeeps.timebase_setAccum, hadded]
    · rw [hkeeps.tbAccum_refresh, hkeeps.tbAccum_setAccum, hremainder]
      exact hdiv

/-- A run of calls of `s5l8900_tick`. -/
def tickRun (b : Board σ) (m : S5l8900 σ) (calls : List Word) : S5l8900 σ :=
  calls.foldl (fun m ticks ↦ s5l8900Tick b m ticks.toNat) m

theorem ctx_tick (m : S5l8900 σ) (n : Word) :
    (s5l8900Tick b m n.toNat).ctx = b.advance m.ctx n := by
  unfold s5l8900Tick Board.wire
  rw [BitVec.ofNat_toNat, BitVec.setWidth_eq]

theorem tickRun_exact (hkeeps : b.devices.KeepsTime timebase) (calls : List Word)
    (m : S5l8900 σ) (htb : (b.devices.clock m.ctx).tbHz ≠ 0)
    (hreduced : (b.devices.clock m.ctx).Reduced)
    (hadmits : ∀ n ∈ calls, (b.devices.clock m.ctx).Admits n) :
    (b.devices.clock (tickRun b m calls).ctx).tbAccum.toNat =
        ((b.devices.clock m.ctx).tbAccum.toNat +
          (calls.map BitVec.toNat).sum * (b.devices.clock m.ctx).tbHz.toNat) %
            (b.devices.clock m.ctx).cpuHz.toNat ∧
      timebase (tickRun b m calls).ctx = timebase m.ctx +
        ofNat 64 (((b.devices.clock m.ctx).tbAccum.toNat +
          (calls.map BitVec.toNat).sum * (b.devices.clock m.ctx).tbHz.toNat) /
            (b.devices.clock m.ctx).cpuHz.toNat) := by
  induction calls generalizing m with
  | nil =>
    rw [map_nil, sum_nil, zero_mul, add_zero, mod_eq_of_lt hreduced, div_eq_of_lt hreduced]
    exact ⟨rfl, (BitVec.add_zero _).symm⟩
  | cons n rest ih =>
    obtain ⟨hcpuHz, htbHz, hkept, q, htime, hsplit⟩ :=
      advance_exact hkeeps htb hreduced (hadmits n mem_cons_self)
    rw [← ctx_tick m n] at hcpuHz htbHz hkept htime hsplit
    have hrest := ih (s5l8900Tick b m n.toNat) (by rw [htbHz]; exact htb) hkept (by
      intro next hmem
      have hnext := hadmits next (mem_cons_of_mem _ hmem)
      unfold Clock.Admits at hnext ⊢
      rw [hcpuHz, htbHz]
      exact hnext)
    rw [hcpuHz, htbHz, htime] at hrest
    have hpos : 0 < (b.devices.clock m.ctx).cpuHz.toNat := (Nat.zero_le _).trans_lt hreduced
    have hsum : (b.devices.clock m.ctx).tbAccum.toNat +
        ((n :: rest).map BitVec.toNat).sum * (b.devices.clock m.ctx).tbHz.toNat =
          (b.devices.clock (s5l8900Tick b m n.toNat).ctx).tbAccum.toNat +
            (rest.map BitVec.toNat).sum * (b.devices.clock m.ctx).tbHz.toNat +
              (b.devices.clock m.ctx).cpuHz.toNat * q := by
      rw [map_cons, sum_cons, Nat.add_mul]
      rw [Nat.mul_comm _ q]
      omega
    rw [hsum, add_mul_mod_self_left, add_mul_div_left _ _ hpos]
    refine ⟨hrest.1, hrest.2.trans ?_⟩
    rw [BitVec.add_assoc, ← ofNat_add, Nat.add_comm q]

theorem tickRun_unset (hkeeps : b.devices.KeepsTime timebase) (calls : List Word)
    (m : S5l8900 σ) (hunset : (b.devices.clock m.ctx).cpuHz = 0 ∨ (b.devices.clock m.ctx).tbHz = 0) :
    timebase (tickRun b m calls).ctx = timebase m.ctx + ofNat 64 (calls.map BitVec.toNat).sum := by
  induction calls generalizing m with
  | nil => exact (BitVec.add_zero _).symm
  | cons n rest ih =>
    have hadvance : b.advance m.ctx n = b.devices.refresh m.ctx n := by
      unfold Board.advance
      dsimp only
      rw [if_neg]
      rintro ⟨hcpuHz, htbHz⟩
      exact hunset.elim hcpuHz htbHz
    have hrest := ih (s5l8900Tick b m n.toNat) (by
      rw [ctx_tick, hadvance, hkeeps.cpuHz_refresh, hkeeps.tbHz_refresh]
      exact hunset)
    have hwide : n.setWidth 64 = ofNat 64 n.toNat := by
      refine eq_of_toNat_eq ?_
      rw [toNat_setWidth, toNat_ofNat]
    refine hrest.trans ?_
    rw [ctx_tick, hadvance, hkeeps.timebase_refresh, hwide, BitVec.add_assoc, ← ofNat_add,
      map_cons, sum_cons]

/-- Device time is additive: ticks that come in parts have the effect of their sum on the timer
block and on the TV-out, and a run of the machine hands the timebase the quotient of all of its
ticks, whatever calls they came in, and keeps the remainder. -/
theorem deviceTime_additive (hkeeps : b.devices.KeepsTime timebase) :
    (∀ (t : Timer) (x y : Word), x.toNat + y.toNat < 2 ^ 32 →
      s5lTimerTick (s5lTimerTick t x).2 y = s5lTimerTick t (x + y)) ∧
    (∀ (t : Tvout) (x y : Word), x.toNat + y.toNat < 2 ^ 32 →
      s5lTvoutTick (s5lTvoutTick t x).2 y = s5lTvoutTick t (x + y)) ∧
    (∀ (m : S5l8900 σ) (calls : List Word), (b.devices.clock m.ctx).tbHz ≠ 0 →
      (b.devices.clock m.ctx).Reduced → (∀ n ∈ calls, (b.devices.clock m.ctx).Admits n) →
      (b.devices.clock (tickRun b m calls).ctx).tbAccum.toNat =
          ((b.devices.clock m.ctx).tbAccum.toNat +
            (calls.map BitVec.toNat).sum * (b.devices.clock m.ctx).tbHz.toNat) %
              (b.devices.clock m.ctx).cpuHz.toNat ∧
        timebase (tickRun b m calls).ctx = timebase m.ctx +
          ofNat 64 (((b.devices.clock m.ctx).tbAccum.toNat +
            (calls.map BitVec.toNat).sum * (b.devices.clock m.ctx).tbHz.toNat) /
              (b.devices.clock m.ctx).cpuHz.toNat)) ∧
    (∀ (m : S5l8900 σ) (calls : List Word),
      ((b.devices.clock m.ctx).cpuHz = 0 ∨ (b.devices.clock m.ctx).tbHz = 0) →
      timebase (tickRun b m calls).ctx = timebase m.ctx + ofNat 64 (calls.map BitVec.toNat).sum) :=
  ⟨fun t _ _ ↦ s5lTimerTick_add t, fun t _ _ ↦ s5lTvoutTick_add t,
    fun m calls htb hreduced hadmits ↦ tickRun_exact hkeeps calls m htb hreduced hadmits,
    fun m calls hunset ↦ tickRun_unset hkeeps calls m hunset⟩

/-- A machine that has a timer block and a TV-out. -/
structure TimeState where
  clock : Clock
  timer : Timer
  tvout : Tvout

def timeDevices : Devices TimeState where
  clock ctx := ctx.clock
  setAccum ctx accum := { ctx with clock := { ctx.clock with tbAccum := accum } }
  refresh ctx tb :=
    { clock := { ctx.clock with levelDirty := false, extSeen := ctx.clock.extInputs }
      timer := (s5lTimerTick ctx.timer tb).2
      tvout := (s5lTvoutTick ctx.tvout tb).2 }
  irqLine ctx := ctx.timer.irqlatch ≠ 0
  fiqLine _ := false

theorem keepsTime_timeDevices : timeDevices.KeepsTime (·.timer.ticks) where
  cpuHz_setAccum _ _ := rfl
  tbHz_setAccum _ _ := rfl
  tbAccum_setAccum _ _ := rfl
  timebase_setAccum _ _ := rfl
  cpuHz_refresh _ _ := rfl
  tbHz_refresh _ _ := rfl
  tbAccum_refresh _ _ := rfl
  timebase_refresh ctx tb := by
    change (s5lTimerTick ctx.timer tb).2.ticks = _
    rw [s5lTimerTick_eq]

def timeBoard : Board TimeState where
  fpu := idleFpu
  bus :=
    { read32 := fun ctx _ ↦ (0, ctx)
      read16 := fun ctx _ ↦ (0, ctx)
      read8 := fun ctx _ ↦ (0, ctx)
      write32 := fun ctx _ _ ↦ ctx
      write16 := fun ctx _ _ ↦ ctx
      write8 := fun ctx _ _ ↦ ctx
      hostRam := none
      hostRamWrite := none
      hostLoad := fun _ _ ↦ 0
      hostStore := fun ctx _ _ ↦ ctx
      waitForInterrupt := none
      privilegedSvcHandler := none }
  decoder := ⟨fun _ _ _ _ ↦ none, fun _ _ _ _ ↦ none⟩
  runner := fun _ _ guest ↦ (-1, guest)
  devices := timeDevices

/-- The machine as `s5l8900_init` clocks it, with a count-down of three ticks. -/
def timeMachine : S5l8900 TimeState where
  cpu := userCpu
  ctx :=
    { clock := ⟨false, 0, 0, 412000000, 6000000, 0⟩
      timer := ⟨0, 0, 0, 1, 3, 0, 0, 0⟩
      tvout := ⟨fun _ _ ↦ 0, 100000, 0, 0⟩ }
  ramSize := 0

/-- 69 instructions one by one and a wait of 412 cycles make up seven ticks of the timebase. -/
theorem deviceTime_additive_init :
    (timeDevices.clock (tickRun timeBoard timeMachine (List.replicate 69 1 ++ [412])).ctx).tbAccum =
        2000000 ∧
      (tickRun timeBoard timeMachine (List.replicate 69 1 ++ [412])).ctx.timer.ticks = 7 := by
  have hrun := (@deviceTime_additive TimeState timeBoard (·.timer.ticks)
    keepsTime_timeDevices).2.2.1 timeMachine (List.replicate 69 1 ++ [412]) (by decide)
      (by unfold Clock.Reduced; decide) (fun _ _ ↦ .inl (by decide))
  refine ⟨eq_of_toNat_eq hrun.1, hrun.2⟩

end S5LBox.Soc
