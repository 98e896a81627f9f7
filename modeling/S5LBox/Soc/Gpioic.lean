import S5LBox.Soc.Bus

/-!
# The GPIO interrupt controller and the pins

Seven groups of thirty-two lines, each line with a latch. A line that is set up for levels is
latched as long as a device drives it to the level that was chosen for it; any other line is
latched where it rises. Only the guest clears a latch. The pins are a page of storage beside it
with one register that drives them and a few subscriptions.
-/

namespace S5LBox.Soc

open Function BitVec
open Function (update)

def gpioicLines : ℕ := gpioicGroups * 32

def gpioicIntLevel : Word := 0x80
def gpioicIntStat : Word := 0xa0
def gpioicIntEn : Word := 0xc0
def gpioicIntType : Word := 0xe0

def gpioicUnknownOff : ℕ := 8

structure Gpioic where
  level : Fin gpioicGroups → Word
  stat : Fin gpioicGroups → Word
  en : Fin gpioicGroups → Word
  type : Fin gpioicGroups → Word
  /-- What the wires are at; no access reaches it. -/
  raw : Fin gpioicGroups → Word
  /-- The lines that have a device on their end. -/
  driven : Fin gpioicGroups → Word
  unknownReads : DWord
  unknownWrites : DWord
  unknownOff : List Word

def s5lGpioicReset : Gpioic where
  level := fun _ ↦ 0
  stat := fun _ ↦ 0
  en := fun _ ↦ 0
  type := fun _ ↦ 0
  raw := fun _ ↦ 0
  driven := fun _ ↦ 0
  unknownReads := 0
  unknownWrites := 0
  unknownOff := []

def gpioicNoteUnknown (g : Gpioic) (off : Word) : Gpioic :=
  if off ∈ g.unknownOff then g
  else if g.unknownOff.length < gpioicUnknownOff then
    { g with unknownOff := g.unknownOff ++ [off] }
  else g

/-- `decode`: the group of an offset in the bank at `base`. -/
def gpioicBank (off base : Word) : Option (Fin gpioicGroups) :=
  if off < base then none
  else if (off - base) &&& 3 ≠ 0 then none
  else
    let idx := ((off - base) >>> 2).toNat
    if h : idx < gpioicGroups then some ⟨idx, h⟩ else none

/-- Latch the lines of a group that are set up for levels, have a device, and are at the level that
was chosen. Nothing is cleared. -/
def relatchLevel (g : Gpioic) (group : Fin gpioicGroups) : Gpioic :=
  { g with
    stat := update g.stat group
      (g.stat group ||| (~~~(g.raw group ^^^ g.level group) &&& g.type group &&& g.driven group)) }

def s5lGpioicRead (g : Gpioic) (off : Word) : Word × Gpioic :=
  match gpioicBank off gpioicIntLevel with
  | some group => (g.level group, g)
  | none =>
    match gpioicBank off gpioicIntStat with
    | some group => (g.stat group, g)
    | none =>
      match gpioicBank off gpioicIntEn with
      | some group => (g.en group, g)
      | none =>
        match gpioicBank off gpioicIntType with
        | some group => (g.type group, g)
        | none => (0, gpioicNoteUnknown { g with unknownReads := g.unknownReads + 1 } off)

def s5lGpioicWrite (g : Gpioic) (off val : Word) : Gpioic :=
  match gpioicBank off gpioicIntLevel with
  | some group => relatchLevel { g with level := update g.level group val } group
  | none =>
    match gpioicBank off gpioicIntStat with
    | some group =>
      relatchLevel
        { g with stat := update g.stat group (g.stat group &&& ~~~val) } group
    | none =>
      match gpioicBank off gpioicIntEn with
      | some group => { g with en := update g.en group val }
      | none =>
        match gpioicBank off gpioicIntType with
        | some group => relatchLevel { g with type := update g.type group val } group
        | none => gpioicNoteUnknown { g with unknownWrites := g.unknownWrites + 1 } off

/-- The group and the bit of a line. -/
def lineGroup (line : ℕ) (h : line < gpioicLines) : Fin gpioicGroups :=
  ⟨line / 32, Nat.div_lt_of_lt_mul (by rw [Nat.mul_comm]; exact h)⟩

def lineBit (line : ℕ) : Word := (1 : Word) <<< (line % 32)

/-- The wire and the device of a line. -/
def driveWire (g : Gpioic) (group : Fin gpioicGroups) (bit : Word) (level : Bool) : Gpioic :=
  { g with
    raw := update g.raw group
      (if level then g.raw group ||| bit else g.raw group &&& ~~~bit)
    driven := update g.driven group (g.driven group ||| bit) }

def s5lGpioicSetLine (g : Gpioic) (line : ℕ) (level : Bool) : Gpioic :=
  if h : line < gpioicLines then
    let group := lineGroup line h
    let bit := lineBit line
    let was : Bool := g.raw group &&& bit ≠ 0
    let first : Bool := g.driven group &&& bit = 0
    let g := driveWire g group bit level
    if g.type group &&& bit ≠ 0 then
      if level ≠ was ∨ first then relatchLevel g group else g
    else if level ∧ ¬was then
      { g with stat := update g.stat group (g.stat group ||| bit) }
    else g
  else g

def s5lGpioicLine (g : Gpioic) (line : ℕ) : Bool :=
  if h : line < gpioicLines then g.raw (lineGroup line h) &&& lineBit line ≠ 0 else false

def s5lGpioicPending (g : Gpioic) (line : ℕ) : Bool :=
  if h : line < gpioicLines then g.stat (lineGroup line h) &&& lineBit line ≠ 0 else false

def s5lGpioicGroupIrq (g : Gpioic) (group : ℕ) : Bool :=
  if h : group < gpioicGroups then g.stat ⟨group, h⟩ &&& g.en ⟨group, h⟩ ≠ 0 else false

abbrev gpioPorts : ℕ := 25
abbrev gpioWatchers : ℕ := 4
def gpioFsel : Word := 0x320
def gpioFuncOut : Word := 0x7
def gpioSize : ℕ := 0x1000

/-- The register of a port in which its pins read back. -/
def gpioPinReg (port : ℕ) : ℕ := port * 32 + 4

/-- The pins, and the pin that each subscription is for. -/
structure Gpio where
  regs : ℕ → Word
  watch : Fin gpioWatchers → Option Half

/-- A subscriber is told the new level of its pin. -/
structure PinNotice where
  watcher : Fin gpioWatchers
  level : Bool
  deriving DecidableEq

def pinPort (pin : Half) : ℕ := pin.toNat / 256

/-- `notify`: tell each subscriber whose pin is not as it was before. -/
def gpioNotify (g : Gpio) (before : ℕ → Word) : List PinNotice :=
  (List.finRange gpioWatchers).filterMap fun w ↦
    match g.watch w with
    | none => none
    | some pin =>
      let mask := (1 : Word) <<< (pin.toNat % 32)
      let now := g.regs (gpioPinReg (pinPort pin) / 4)
      if gpioPorts ≤ pinPort pin then none
      else if (before (pinPort pin) ^^^ now) &&& mask = 0 then none
      else some ⟨w, now &&& mask ≠ 0⟩

/-- The registers of the pins, port by port. -/
def pinWords (g : Gpio) (port : ℕ) : Word := g.regs (gpioPinReg port / 4)

def isPinReg (off : ℕ) : Bool :=
  let word := off / 4 * 4
  4 ≤ word ∧ (word - 4) % 32 = 0 ∧ (word - 4) / 32 < gpioPorts

def s5lGpioRead (g : Gpio) (off : Word) (bytes : ℕ) : Word :=
  if bytes = 0 ∨ 4 < bytes ∨ gpioSize < off.toNat + bytes then 0
  else
    (List.range bytes).foldl
      (fun v i ↦
        let index := off.toNat + i
        v ||| ((g.regs (index / 4) >>> (index % 4 * 8)) &&& 0xff) <<< (i * 8)) 0

/-- Store the octets of a word that are not part of a pin register. -/
def gpioStore (val : Word) (off bytes : ℕ) (regs : ℕ → Word) : ℕ → Word :=
  (List.range bytes).foldl
    (fun regs i ↦
      let index := off + i
      if isPinReg index then regs
      else
        let shift := index % 4 * 8
        update regs (index / 4)
          ((regs (index / 4) &&& ~~~((0xff : Word) <<< shift)) |||
            ((val >>> (i * 8)) &&& 0xff) <<< shift)) regs

def setPin (word : Word) (bit : ℕ) (level : Bool) : Word :=
  if level then word ||| (1 : Word) <<< bit else word &&& ~~~((1 : Word) <<< bit)

/-- A word stored at the function select drives a pin where it says so. -/
def gpioSelect (val : Word) (regs : ℕ → Word) : ℕ → Word :=
  let group := (val >>> 16 &&& 0xff).toNat
  let bit := (val >>> 8 &&& 0xff).toNat
  if group < gpioPorts ∧ bit < 32 ∧ val >>> 1 &&& 0x7 = gpioFuncOut then
    update regs (gpioPinReg group / 4)
      (setPin (regs (gpioPinReg group / 4)) bit (val &&& 1 ≠ 0))
  else regs

def s5lGpioWrite (g : Gpio) (off val : Word) (bytes : ℕ) : Gpio × List PinNotice :=
  if bytes = 0 ∨ 4 < bytes ∨ gpioSize < off.toNat + bytes then (g, [])
  else
    let regs := gpioStore val off.toNat bytes g.regs
    let regs := if off = gpioFsel ∧ bytes = 4 then gpioSelect val regs else regs
    ({ g with regs := regs }, gpioNotify { g with regs := regs } (pinWords g))

def s5lGpioDrive (g : Gpio) (pin : Half) (level : Bool) : Gpio × List PinNotice :=
  let bit := pin.toNat % 256
  if gpioPorts ≤ pinPort pin ∨ 31 < bit then (g, [])
  else
    let reg := g.regs (gpioPinReg (pinPort pin) / 4)
    if (reg >>> bit) &&& 1 = (if level then 1 else 0) then (g, [])
    else
      let regs := update g.regs (gpioPinReg (pinPort pin) / 4) (setPin reg bit level)
      ({ g with regs := regs }, gpioNotify { g with regs := regs } (pinWords g))

def s5lGpioPin (g : Gpio) (pin : Half) : Bool :=
  if gpioPorts ≤ pinPort pin then false
  else g.regs (gpioPinReg (pinPort pin) / 4) &&& (1 : Word) <<< (pin.toNat % 32) ≠ 0

/-- `s5l_gpio_watch`: take the first free subscription, unless the pin has one. -/
def s5lGpioWatch (g : Gpio) (pin : Half) : Bool × Gpio :=
  if gpioPorts ≤ pinPort pin ∨ 31 < pin.toNat % 256 then (false, g)
  else if (List.finRange gpioWatchers).any fun w ↦ g.watch w = some pin then (false, g)
  else
    match (List.finRange gpioWatchers).find? fun w ↦ g.watch w = none with
    | some w => (true, { g with watch := update g.watch w (some pin) })
    | none => (false, g)

variable {g g' : Gpioic} {group k : Fin gpioicGroups} {b : ℕ}

/-- A line that is set up for levels, has a device, and is at its active level. -/
def Gpioic.asserting (g : Gpioic) (group : Fin gpioicGroups) (b : ℕ) : Bool :=
  (g.type group).getLsbD b && (g.driven group).getLsbD b &&
    ((g.raw group).getLsbD b == (g.level group).getLsbD b)

/-- No level is missed. -/
def LevelPending (g : Gpioic) : Prop :=
  ∀ group b, b < 32 → g.asserting group b = true → (g.stat group).getLsbD b = true

theorem relatchLevel_stat (hb : b < 32) : ((relatchLevel g k).stat group).getLsbD b =
      ((g.stat group).getLsbD b || (decide (group = k) && g.asserting group b)) := by
  unfold relatchLevel Gpioic.asserting
  dsimp only
  by_cases hk : group = k
  · subst hk
    rw [update_self]
    simp only [getLsbD_or, getLsbD_and, getLsbD_not, getLsbD_xor, hb, decide_true, Bool.true_and]
    cases (g.raw group).getLsbD b <;> cases (g.level group).getLsbD b <;>
      cases (g.type group).getLsbD b <;> cases (g.driven group).getLsbD b <;> simp
  · rw [update_of_ne hk, decide_eq_false hk, Bool.false_and, Bool.or_false]

theorem relatchLevel_asserting : (relatchLevel g k).asserting group b = g.asserting group b := rfl

theorem relatchLevel_pending
    (h : ∀ group, group ≠ k → ∀ b < 32, g.asserting group b = true →
      (g.stat group).getLsbD b = true) : LevelPending (relatchLevel g k) := by
  intro group b hb hassert
  rw [relatchLevel_asserting] at hassert
  rw [relatchLevel_stat hb, Bool.or_eq_true]
  by_cases hk : group = k
  · right
    rw [decide_eq_true hk, hassert]
    rfl
  · exact .inl (h group hk b hb hassert)

theorem noteUnknown_latches (g : Gpioic) (off : Word) :
    (gpioicNoteUnknown g off).stat = g.stat ∧ (gpioicNoteUnknown g off).type = g.type ∧
      (gpioicNoteUnknown g off).en = g.en ∧
      (gpioicNoteUnknown g off).asserting = g.asserting := by
  unfold gpioicNoteUnknown
  split_ifs <;> exact ⟨rfl, rfl, rfl, rfl⟩

/-- What a store does: it changes one register of one group and looks at the levels of that group,
or it changes an enable or nothing that the latches depend on. -/
theorem s5lGpioicWrite_cases (g : Gpioic) (off val : Word) : (∃ k, s5lGpioicWrite g off val =
        relatchLevel { g with level := update g.level k val } k) ∨
      (∃ k, gpioicBank off gpioicIntStat = some k ∧ s5lGpioicWrite g off val =
        relatchLevel { g with stat := update g.stat k (g.stat k &&& ~~~val) } k) ∨
      (∃ k, s5lGpioicWrite g off val = relatchLevel { g with type := update g.type k val } k) ∨
      ((s5lGpioicWrite g off val).stat = g.stat ∧
        (s5lGpioicWrite g off val).asserting = g.asserting) := by
  unfold s5lGpioicWrite
  cases hlevel : gpioicBank off gpioicIntLevel with
  | some k => exact .inl ⟨k, rfl⟩
  | none =>
    cases hstat : gpioicBank off gpioicIntStat with
    | some k => exact .inr (.inl ⟨k, rfl, rfl⟩)
    | none =>
      cases hen : gpioicBank off gpioicIntEn with
      | some k => exact .inr (.inr (.inr ⟨rfl, rfl⟩))
      | none =>
        cases htype : gpioicBank off gpioicIntType with
        | some k => exact .inr (.inr (.inl ⟨k, rfl⟩))
        | none =>
          obtain ⟨hs, -, -, ha⟩ :=
            noteUnknown_latches { g with unknownWrites := g.unknownWrites + 1 } off
          exact .inr (.inr (.inr ⟨hs, ha⟩))

theorem asserting_update_level {val : Word} (hk : group ≠ k) :
    Gpioic.asserting { g with level := update g.level k val } group b = g.asserting group b := by
  unfold Gpioic.asserting
  dsimp only
  rw [update_of_ne hk]

theorem asserting_update_type {val : Word} (hk : group ≠ k) :
    Gpioic.asserting { g with type := update g.type k val } group b = g.asserting group b := by
  unfold Gpioic.asserting
  dsimp only
  rw [update_of_ne hk]

theorem s5lGpioicWrite_pending (h : LevelPending g) (off val : Word) :
    LevelPending (s5lGpioicWrite g off val) := by
  rcases s5lGpioicWrite_cases g off val with ⟨k, hw⟩ | ⟨k, -, hw⟩ | ⟨k, hw⟩ | ⟨hs, ha⟩
  · rw [hw]
    exact relatchLevel_pending fun group hk b hb hassert ↦
      h group b hb ((asserting_update_level hk).symm.trans hassert)
  · rw [hw]
    refine relatchLevel_pending fun group hk b hb hassert ↦ ?_
    dsimp only
    rw [update_of_ne hk]
    exact h group b hb hassert
  · rw [hw]
    exact relatchLevel_pending fun group hk b hb hassert ↦
      h group b hb ((asserting_update_type hk).symm.trans hassert)
  · intro group b hb hassert
    rw [ha] at hassert
    rw [hs]
    exact h group b hb hassert

theorem lineBit_getLsbD (line b : ℕ) : (lineBit line).getLsbD b = decide (line % 32 = b) := by
  change (BitVec.twoPow 32 (line % 32)).getLsbD b = _
  rw [getLsbD_twoPow, decide_eq_true (Nat.mod_lt line (by decide)), Bool.true_and]

theorem and_lineBit_ne_zero (line : ℕ) (word : Word) :
    word &&& lineBit line ≠ 0 ↔ word.getLsbD (line % 32) = true := by
  change word &&& BitVec.twoPow 32 (line % 32) ≠ 0 ↔ _
  rw [and_twoPow]
  split
  · next hset =>
    refine ⟨fun _ ↦ hset, fun _ hzero ↦ ?_⟩
    have hbit := lineBit_getLsbD line (line % 32)
    have hnone : (lineBit line).getLsbD (line % 32) = false := by
      rw [show lineBit line = 0 by exact hzero]
      exact getLsbD_zero
    rw [hnone] at hbit
    exact absurd hbit (by simp)
  · next hclear => exact ⟨fun h ↦ absurd rfl h, fun h ↦ absurd h hclear⟩

/-- The bit of one line of one group. -/
def OnLine (line : ℕ) (h : line < gpioicLines) (group : Fin gpioicGroups) (b : ℕ) : Prop :=
  group = lineGroup line h ∧ line % 32 = b

instance (line : ℕ) (h : line < gpioicLines) (group : Fin gpioicGroups) (b : ℕ) :
    Decidable (OnLine line h group b) := inferInstanceAs (Decidable (_ ∧ _))

variable {line : ℕ} {h : line < gpioicLines} {level : Bool}

theorem latched_stat {stat : Fin gpioicGroups → Word} :
    (update stat (lineGroup line h) (stat (lineGroup line h) ||| lineBit line)
      group).getLsbD b = ((stat group).getLsbD b || decide (OnLine line h group b)) := by
  by_cases hgroup : group = lineGroup line h
  · subst hgroup
    rw [update_self, getLsbD_or, lineBit_getLsbD]
    congr 1
    exact decide_eq_decide.2 ⟨fun hline ↦ ⟨rfl, hline⟩, And.right⟩
  · rw [update_of_ne hgroup, decide_eq_false fun hon ↦ hgroup hon.1, Bool.or_false]

theorem driveWire_raw (hb : b < 32) :
    ((driveWire g (lineGroup line h) (lineBit line) level).raw group).getLsbD b =
      if OnLine line h group b then level else (g.raw group).getLsbD b := by
  unfold driveWire
  dsimp only
  by_cases hgroup : group = lineGroup line h
  · subst hgroup
    rw [update_self]
    cases level with
    | true =>
      rw [if_pos rfl, getLsbD_or, lineBit_getLsbD]
      by_cases hline : line % 32 = b
      · rw [decide_eq_true hline, Bool.or_true, if_pos ⟨rfl, hline⟩]
      · rw [decide_eq_false hline, Bool.or_false, if_neg fun hon ↦ hline hon.2]
    | false =>
      rw [if_neg Bool.false_ne_true, getLsbD_and, getLsbD_not, lineBit_getLsbD,
        decide_eq_true hb, Bool.true_and]
      by_cases hline : line % 32 = b
      · rw [decide_eq_true hline, Bool.not_true, Bool.and_false, if_pos ⟨rfl, hline⟩]
      · rw [decide_eq_false hline, Bool.not_false, Bool.and_true, if_neg fun hon ↦ hline hon.2]
  · rw [update_of_ne hgroup, if_neg fun hon ↦ hgroup hon.1]

theorem driveWire_driven :
    ((driveWire g (lineGroup line h) (lineBit line) level).driven group).getLsbD b =
      ((g.driven group).getLsbD b || decide (OnLine line h group b)) := by
  exact latched_stat

theorem driveWire_asserting (hb : b < 32) (hoff : ¬OnLine line h group b) :
    (driveWire g (lineGroup line h) (lineBit line) level).asserting group b =
      g.asserting group b := by
  unfold Gpioic.asserting
  rw [driveWire_raw hb, if_neg hoff, driveWire_driven, decide_eq_false hoff, Bool.or_false]
  rfl

theorem decide_and_lineBit (line : ℕ) (w : Word) :
    decide (w &&& lineBit line ≠ 0) = w.getLsbD (line % 32) := by
  have hbit := and_lineBit_ne_zero line w
  cases hset : w.getLsbD (line % 32) with
  | true => exact decide_eq_true (hbit.2 hset)
  | false => exact decide_eq_false fun hne ↦ Bool.false_ne_true (hset ▸ hbit.1 hne)

theorem s5lGpioicSetLine_cases (g : Gpioic) (line : ℕ) (h : line < gpioicLines) (level : Bool) :
    let was := (g.raw (lineGroup line h)).getLsbD (line % 32)
    let driven := (g.driven (lineGroup line h)).getLsbD (line % 32)
    let wired := driveWire g (lineGroup line h) (lineBit line) level
    ((g.type (lineGroup line h)).getLsbD (line % 32) = true ∧ ((level ≠ was ∨ driven = false) ∧
            s5lGpioicSetLine g line level = relatchLevel wired (lineGroup line h) ∨
          level = was ∧ driven = true ∧ s5lGpioicSetLine g line level = wired)) ∨
      ((g.type (lineGroup line h)).getLsbD (line % 32) = false ∧
        (level = true ∧ was = false ∧ s5lGpioicSetLine g line level =
            { wired with
              stat := update g.stat (lineGroup line h)
                (g.stat (lineGroup line h) ||| lineBit line) } ∨
          ¬(level = true ∧ was = false) ∧ s5lGpioicSetLine g line level = wired)) := by
  have htype := and_lineBit_ne_zero line (g.type (lineGroup line h))
  have hwas : decide (g.raw (lineGroup line h) &&& lineBit line ≠ 0) =
      (g.raw (lineGroup line h)).getLsbD (line % 32) := decide_and_lineBit ..
  have hfirst : decide (g.driven (lineGroup line h) &&& lineBit line = 0) =
      !(g.driven (lineGroup line h)).getLsbD (line % 32) := by
    rw [← decide_and_lineBit, decide_not, Bool.not_not]
  have hwired : (driveWire g (lineGroup line h) (lineBit line) level).type = g.type := rfl
  dsimp only
  rw [s5lGpioicSetLine, dif_pos h]
  dsimp only
  rw [hwas, hfirst, hwired]
  by_cases hlevels : (g.type (lineGroup line h)).getLsbD (line % 32) = true
  · rw [if_pos (htype.2 hlevels)]
    refine .inl ⟨hlevels, ?_⟩
    by_cases hmoved : level ≠ (g.raw (lineGroup line h)).getLsbD (line % 32) ∨
        (g.driven (lineGroup line h)).getLsbD (line % 32) = false
    · refine .inl ⟨hmoved, ?_⟩
      rw [if_pos (hmoved.imp_right fun hnew ↦ by rw [hnew]; rfl)]
    · obtain ⟨hsame, hold⟩ := not_or.1 hmoved
      refine .inr ⟨not_not.1 hsame, eq_true_of_ne_false hold, ?_⟩
      rw [if_neg fun hor ↦ hmoved (hor.imp_right fun hnew ↦ by simpa using hnew)]
  · have hedge := Bool.eq_false_iff.2 hlevels
    rw [if_neg fun hne ↦ hlevels (htype.1 hne)]
    refine .inr ⟨hedge, ?_⟩
    by_cases hrise : level = true ∧ (g.raw (lineGroup line h)).getLsbD (line % 32) = false
    · refine .inl ⟨hrise.1, hrise.2, ?_⟩
      rw [if_pos ⟨hrise.1, by rw [hrise.2]; exact Bool.false_ne_true⟩]
      rfl
    · refine .inr ⟨hrise, ?_⟩
      rw [if_neg fun hr ↦ hrise ⟨hr.1, Bool.eq_false_iff.2 hr.2⟩]

theorem s5lGpioicSetLine_outside (g : Gpioic) {line : ℕ} (hline : ¬line < gpioicLines)
    (level : Bool) : s5lGpioicSetLine g line level = g := by
  rw [s5lGpioicSetLine, dif_neg hline]

theorem s5lGpioicSetLine_type : (s5lGpioicSetLine g line level).type = g.type := by
  unfold s5lGpioicSetLine
  split
  · dsimp only
    split_ifs <;> rfl
  · rfl

theorem s5lGpioicSetLine_pending (hpending : LevelPending g) (line : ℕ) (level : Bool) :
    LevelPending (s5lGpioicSetLine g line level) := by
  by_cases h : line < gpioicLines
  swap
  · rw [s5lGpioicSetLine_outside g h]
    exact hpending
  have hother : ∀ group b, b < 32 → ¬OnLine line h group b →
      (driveWire g (lineGroup line h) (lineBit line) level).asserting group b = true →
      (g.stat group).getLsbD b = true := fun group b hb hoff hassert ↦
    hpending group b hb ((driveWire_asserting hb hoff).symm.trans hassert)
  rcases s5lGpioicSetLine_cases g line h level with
    ⟨hlevels, ⟨-, hset⟩ | ⟨hsame, hold, hset⟩⟩ | ⟨hedge, ⟨hlevel, hlow, hset⟩ | ⟨-, hset⟩⟩
  · rw [hset]
    exact relatchLevel_pending fun group hgroup b hb hassert ↦
      hother group b hb (fun hon ↦ hgroup hon.1) hassert
  · rw [hset]
    intro group b hb hassert
    by_cases hon : OnLine line h group b
    · obtain ⟨rfl, rfl⟩ := hon
      refine hpending _ _ hb ?_
      unfold Gpioic.asserting at hassert ⊢
      rw [driveWire_raw hb, if_pos ⟨rfl, rfl⟩, hsame] at hassert
      rw [hlevels, hold]
      simp only [Bool.and_eq_true] at hassert ⊢
      exact ⟨⟨trivial, trivial⟩, hassert.2⟩
    · exact hother group b hb hon hassert
  · rw [hset]
    intro group b hb hassert
    by_cases hon : OnLine line h group b
    · rw [latched_stat, decide_eq_true hon, Bool.or_true]
    · rw [latched_stat, hother group b hb hon hassert, Bool.true_or]
  · rw [hset]
    intro group b hb hassert
    by_cases hon : OnLine line h group b
    · obtain ⟨rfl, rfl⟩ := hon
      have htype : (g.type (lineGroup line h)).getLsbD (line % 32) = true := by
        simp only [Gpioic.asserting, Bool.and_eq_true] at hassert
        exact hassert.1.1
      rw [hedge] at htype
      exact absurd htype Bool.false_ne_true
    · exact hother group b hb hon hassert

theorem s5lGpioicSetLine_same (g : Gpioic) {line : ℕ} (h : line < gpioicLines)
    (hdriven : (g.driven (lineGroup line h)).getLsbD (line % 32) = true) :
    s5lGpioicSetLine g line (s5lGpioicLine g line) = g := by
  have hline : s5lGpioicLine g line = (g.raw (lineGroup line h)).getLsbD (line % 32) := by
    rw [s5lGpioicLine, dif_pos h, decide_and_lineBit]
  have hraw : (driveWire g (lineGroup line h) (lineBit line) (s5lGpioicLine g line)).raw =
      g.raw := by
    funext group
    refine eq_of_getLsbD_eq fun b hb ↦ ?_
    rw [driveWire_raw hb]
    split
    · next hon => rw [hline, hon.1, hon.2]
    · rfl
  have hend : (driveWire g (lineGroup line h) (lineBit line) (s5lGpioicLine g line)).driven =
      g.driven := by
    funext group
    refine eq_of_getLsbD_eq fun b _ ↦ ?_
    rw [driveWire_driven]
    by_cases hon : OnLine line h group b
    · rw [decide_eq_true hon, Bool.or_true, hon.1, ← hon.2, hdriven]
    · rw [decide_eq_false hon, Bool.or_false]
  have hwire : driveWire g (lineGroup line h) (lineBit line) (s5lGpioicLine g line) = g := by
    change ({ g with
      raw := (driveWire g (lineGroup line h) (lineBit line) (s5lGpioicLine g line)).raw
      driven := (driveWire g (lineGroup line h) (lineBit line) (s5lGpioicLine g line)).driven } :
      Gpioic) = g
    rw [hraw, hend]
  rcases s5lGpioicSetLine_cases g line h (s5lGpioicLine g line) with
    ⟨-, ⟨hmoved, -⟩ | ⟨-, -, hset⟩⟩ | ⟨-, ⟨hlevel, hlow, -⟩ | ⟨-, hset⟩⟩
  · rw [hline, hdriven] at hmoved
    exact absurd hmoved (by simp)
  · rw [hset, hwire]
  · rw [hline, hlow] at hlevel
    exact absurd hlevel Bool.false_ne_true
  · rw [hset, hwire]

inductive GpioicEvent where
  | read (off : Word)
  | write (off val : Word)
  | setLine (line : ℕ) (level : Bool)

def Gpioic.step (g : Gpioic) : GpioicEvent → Gpioic
  | .read off => (s5lGpioicRead g off).2
  | .write off val => s5lGpioicWrite g off val
  | .setLine line level => s5lGpioicSetLine g line level

def gpioicRun (events : List GpioicEvent) : Gpioic := events.foldl Gpioic.step s5lGpioicReset

theorem s5lGpioicRead_latches (g : Gpioic) (off : Word) : (s5lGpioicRead g off).2.stat = g.stat ∧
      (s5lGpioicRead g off).2.asserting = g.asserting := by
  obtain ⟨hs, -, -, ha⟩ :=
    noteUnknown_latches { g with unknownReads := g.unknownReads + 1 } off
  unfold s5lGpioicRead
  split
  · exact ⟨rfl, rfl⟩
  · split
    · exact ⟨rfl, rfl⟩
    · split
      · exact ⟨rfl, rfl⟩
      · split
        · exact ⟨rfl, rfl⟩
        · exact ⟨hs, ha⟩

theorem step_pending (h : LevelPending g) (event : GpioicEvent) : LevelPending (g.step event) := by
  cases event with
  | read off =>
    obtain ⟨hs, ha⟩ := s5lGpioicRead_latches g off
    intro group b hb hassert
    change BitVec.getLsbD ((s5lGpioicRead g off).2.stat group) b = true
    rw [hs]
    exact h group b hb (by rw [← ha]; exact hassert)
  | write off val => exact s5lGpioicWrite_pending h off val
  | setLine line level => exact s5lGpioicSetLine_pending h line level

theorem reset_pending : LevelPending s5lGpioicReset := by
  intro group b _ hassert
  have htype : BitVec.getLsbD (0 : Word) b = false := getLsbD_zero
  rw [Gpioic.asserting, show s5lGpioicReset.type group = 0 from rfl, htype, Bool.false_and,
    Bool.false_and] at hassert
  exact absurd hassert Bool.false_ne_true

theorem foldl_pending (events : List GpioicEvent) (h : LevelPending g) :
    LevelPending (events.foldl Gpioic.step g) := by
  induction events generalizing g with
  | nil => exact h
  | cons event rest ih => exact ih (step_pending h event)

theorem relatchLevel_edge (hb : b < 32)
    (hedge : ((relatchLevel g k).type group).getLsbD b = false) :
    ((relatchLevel g k).stat group).getLsbD b = (g.stat group).getLsbD b := by
  have hquiet : g.asserting group b = false := by
    rw [Gpioic.asserting, show (g.type group).getLsbD b = false from hedge, Bool.false_and,
      Bool.false_and]
  rw [relatchLevel_stat hb, hquiet, Bool.and_false, Bool.or_false]

theorem relatchLevel_keeps (hb : b < 32) (hset : (g.stat group).getLsbD b = true) :
    ((relatchLevel g k).stat group).getLsbD b = true := by
  rw [relatchLevel_stat hb, hset, Bool.true_or]

theorem acknowledged_stat {stat : Fin gpioicGroups → Word} {val : Word} (hb : b < 32) :
    (update stat k (stat k &&& ~~~val) group).getLsbD b =
      ((stat group).getLsbD b && !(decide (group = k) && val.getLsbD b)) := by
  by_cases hgroup : group = k
  · subst hgroup
    rw [update_self, getLsbD_and, getLsbD_not, decide_eq_true hb,
      decide_eq_true rfl, Bool.true_and, Bool.true_and]
  · rw [update_of_ne hgroup, decide_eq_false hgroup, Bool.false_and, Bool.not_false, Bool.and_true]

theorem eq_of_onLine (hon : OnLine line h group b) : line = 32 * group + b := by
  obtain ⟨rfl, rfl⟩ := hon
  exact (Nat.div_add_mod line 32).symm

theorem s5lGpioicSetLine_sets (hb : b < 32) (hbefore : (g.stat group).getLsbD b = false)
    (hafter : ((s5lGpioicSetLine g line level).stat group).getLsbD b = true)
    (hedge : (g.type group).getLsbD b = false) :
    (line = 32 * group + b ∧ level = true) ∧ (g.raw group).getLsbD b = false ∧
      ((s5lGpioicSetLine g line level).raw group).getLsbD b = true := by
  by_cases h : line < gpioicLines
  swap
  · rw [s5lGpioicSetLine_outside g h, hbefore] at hafter
    exact absurd hafter Bool.false_ne_true
  have hquiet : ∀ g' : Gpioic, g'.stat = g.stat →
      ¬(g'.stat group).getLsbD b = true := fun g' hstat hset ↦ by
    rw [hstat, hbefore] at hset
    exact Bool.false_ne_true hset
  rcases s5lGpioicSetLine_cases g line h level with
    ⟨-, ⟨-, hset⟩ | ⟨-, -, hset⟩⟩ | ⟨-, ⟨hlevel, hlow, hset⟩ | ⟨-, hset⟩⟩
  · rw [hset, relatchLevel_edge (g := driveWire g _ _ _) hb hedge] at hafter
    exact absurd hafter (hquiet _ rfl)
  · rw [hset] at hafter
    exact absurd hafter (hquiet _ rfl)
  · rw [hset] at hafter ⊢
    rw [latched_stat, hbefore, Bool.false_or, decide_eq_true_iff] at hafter
    have hline := eq_of_onLine hafter
    obtain ⟨rfl, rfl⟩ := hafter
    refine ⟨⟨hline, hlevel⟩, hlow, ?_⟩
    dsimp only
    rw [driveWire_raw hb, if_pos ⟨rfl, rfl⟩, hlevel]
  · rw [hset] at hafter
    exact absurd hafter (hquiet _ rfl)

theorem s5lGpioicWrite_sets {off val : Word} (hb : b < 32)
    (hbefore : (g.stat group).getLsbD b = false)
    (hedge : ((s5lGpioicWrite g off val).type group).getLsbD b = false) :
    ((s5lGpioicWrite g off val).stat group).getLsbD b = false := by
  rcases s5lGpioicWrite_cases g off val with ⟨k, hw⟩ | ⟨k, -, hw⟩ | ⟨k, hw⟩ | ⟨hs, -⟩
  · rw [hw] at hedge ⊢
    rw [relatchLevel_edge hb hedge]
    exact hbefore
  · rw [hw] at hedge ⊢
    rw [relatchLevel_edge hb hedge, acknowledged_stat hb, hbefore, Bool.false_and]
  · rw [hw] at hedge ⊢
    rw [relatchLevel_edge hb hedge]
    exact hbefore
  · rw [hs]
    exact hbefore

theorem step_sets {event : GpioicEvent} (hb : b < 32) (hbefore : (g.stat group).getLsbD b = false)
    (hafter : ((g.step event).stat group).getLsbD b = true)
    (hedge : ((g.step event).type group).getLsbD b = false) :
    event = .setLine (32 * group + b) true ∧ (g.raw group).getLsbD b = false ∧
      ((g.step event).raw group).getLsbD b = true := by
  cases event with
  | read off =>
    rw [Gpioic.step, (s5lGpioicRead_latches g off).1, hbefore] at hafter
    exact absurd hafter Bool.false_ne_true
  | write off val =>
    rw [Gpioic.step, s5lGpioicWrite_sets hb hbefore hedge] at hafter
    exact absurd hafter Bool.false_ne_true
  | setLine line level =>
    rw [Gpioic.step, s5lGpioicSetLine_type] at hedge
    obtain ⟨⟨rfl, rfl⟩, hrise⟩ := s5lGpioicSetLine_sets hb hbefore hafter hedge
    exact ⟨rfl, hrise⟩

theorem s5lGpioicSetLine_keeps (hb : b < 32) (hbefore : (g.stat group).getLsbD b = true) :
    ((s5lGpioicSetLine g line level).stat group).getLsbD b = true := by
  by_cases h : line < gpioicLines
  swap
  · rw [s5lGpioicSetLine_outside g h]
    exact hbefore
  rcases s5lGpioicSetLine_cases g line h level with
    ⟨-, ⟨-, hset⟩ | ⟨-, -, hset⟩⟩ | ⟨-, ⟨-, -, hset⟩ | ⟨-, hset⟩⟩
  · rw [hset]
    exact relatchLevel_keeps hb hbefore
  · rw [hset]
    exact hbefore
  · rw [hset]
    dsimp only
    rw [latched_stat, hbefore, Bool.true_or]
  · rw [hset]
    exact hbefore

theorem s5lGpioicWrite_clears {off val : Word} (hb : b < 32)
    (hbefore : (g.stat group).getLsbD b = true)
    (hafter : ((s5lGpioicWrite g off val).stat group).getLsbD b = false) :
    gpioicBank off gpioicIntStat = some group ∧ val.getLsbD b = true := by
  rcases s5lGpioicWrite_cases g off val with ⟨k, hw⟩ | ⟨k, hdecode, hw⟩ | ⟨k, hw⟩ | ⟨hs, -⟩
  · have hkept := relatchLevel_keeps (k := k)
      (g := { g with level := update g.level k val }) hb hbefore
    rw [hw, hkept] at hafter
    exact absurd hafter.symm Bool.false_ne_true
  · have hkept := mt (@relatchLevel_keeps
      { g with stat := update g.stat k (g.stat k &&& ~~~val) } group k _ hb)
    rw [hw] at hafter
    have hcleared := Bool.eq_false_iff.2 (hkept (Bool.eq_false_iff.1 hafter))
    rw [acknowledged_stat hb, hbefore, Bool.true_and, Bool.not_eq_false', Bool.and_eq_true,
      decide_eq_true_iff] at hcleared
    obtain ⟨rfl, hone⟩ := hcleared
    exact ⟨hdecode, hone⟩
  · have hkept := relatchLevel_keeps (k := k)
      (g := { g with type := update g.type k val }) hb hbefore
    rw [hw, hkept] at hafter
    exact absurd hafter.symm Bool.false_ne_true
  · rw [hs, hbefore] at hafter
    exact absurd hafter.symm Bool.false_ne_true

theorem step_clears {event : GpioicEvent} (hb : b < 32) (hbefore : (g.stat group).getLsbD b = true)
    (hafter : ((g.step event).stat group).getLsbD b = false) :
    ∃ off val, event = .write off val ∧ gpioicBank off gpioicIntStat = some group ∧
      val.getLsbD b = true := by
  cases event with
  | read off =>
    rw [Gpioic.step, (s5lGpioicRead_latches g off).1, hbefore] at hafter
    exact absurd hafter.symm Bool.false_ne_true
  | write off val => exact ⟨off, val, rfl, s5lGpioicWrite_clears hb hbefore hafter⟩
  | setLine line level =>
    rw [Gpioic.step, s5lGpioicSetLine_keeps hb hbefore] at hafter
    exact absurd hafter.symm Bool.false_ne_true

/-- The line of a group is up where a latch is set that is enabled. -/
theorem s5lGpioicGroupIrq_iff (g : Gpioic) (group : Fin gpioicGroups) :
    s5lGpioicGroupIrq g group = true ↔
      ∃ b < 32, (g.stat group).getLsbD b = true ∧ (g.en group).getLsbD b = true := by
  rw [s5lGpioicGroupIrq, dif_pos group.isLt, decide_eq_true_iff]
  constructor
  · intro hne
    by_contra hnone
    refine hne (eq_of_getLsbD_eq fun b hb ↦ ?_)
    rw [getLsbD_and, show BitVec.getLsbD (0 : Word) b = false from getLsbD_zero]
    exact Bool.eq_false_iff.2 fun hand ↦ hnone ⟨b, hb, (Bool.and_eq_true _ _ ▸ hand :)⟩
  · rintro ⟨b, -, hstat, hen⟩ hzero
    have hbit := congrArg (fun word : Word ↦ word.getLsbD b) hzero
    rw [getLsbD_and, hstat, hen] at hbit
    exact Bool.noConfusion (hbit.trans getLsbD_zero)

/-- What `s5l_gpio_drive` compares a pin with. -/
theorem shiftRight_and_one (word : Word) (bit : ℕ) :
    (word >>> bit) &&& 1 = if word.getLsbD bit = true then 1 else 0 := by
  change (word >>> bit) &&& BitVec.twoPow 32 0 = _
  rw [and_twoPow, getLsbD_ushiftRight, Nat.add_zero]
  rfl

theorem s5lGpioPin_eq (g : Gpio) {pin : Half} (hport : ¬gpioPorts ≤ pinPort pin) :
    s5lGpioPin g pin = (g.regs (gpioPinReg (pinPort pin) / 4)).getLsbD (pin.toNat % 32) := by
  rw [s5lGpioPin, if_neg hport]
  have hne := and_lineBit_ne_zero pin.toNat (g.regs (gpioPinReg (pinPort pin) / 4))
  cases hset : (g.regs (gpioPinReg (pinPort pin) / 4)).getLsbD (pin.toNat % 32) with
  | true => exact decide_eq_true (hne.2 hset)
  | false => exact decide_eq_false fun h ↦ Bool.false_ne_true (hset ▸ hne.1 h)

theorem s5lGpioDrive_same (g : Gpio) (pin : Half) :
    s5lGpioDrive g pin (s5lGpioPin g pin) = (g, []) := by
  unfold s5lGpioDrive
  dsimp only
  by_cases hout : gpioPorts ≤ pinPort pin ∨ 31 < pin.toNat % 256
  · rw [if_pos hout]
  · obtain ⟨hport, hbit⟩ := not_or.1 hout
    have hlow : pin.toNat % 256 = pin.toNat % 32 := by omega
    rw [if_neg hout, s5lGpioPin_eq g hport, hlow, shiftRight_and_one, if_pos rfl]

/-- At every point of every run the levels of the driven lines are pending; the latch of a line
that is not set up for levels is set by the event that raises the line, whatever the line's
polarity, and cleared by the store of a one to it; a line that has a device, and a pin, do not
notice their own level; and the line of a group is up where a latch is set that is enabled. -/
theorem gpioicRun_latches (events : List GpioicEvent) : LevelPending (gpioicRun events) ∧
    (∀ event (group : Fin gpioicGroups), ∀ b < 32,
      (((gpioicRun events).stat group).getLsbD b = false →
        (((gpioicRun events).step event).stat group).getLsbD b = true →
        (((gpioicRun events).step event).type group).getLsbD b = false →
        event = .setLine (32 * group + b) true ∧ ((gpioicRun events).raw group).getLsbD b = false ∧
          (((gpioicRun events).step event).raw group).getLsbD b = true) ∧
      (((gpioicRun events).stat group).getLsbD b = true →
        (((gpioicRun events).step event).stat group).getLsbD b = false →
        ∃ off val, event = .write off val ∧ gpioicBank off gpioicIntStat = some group ∧
          val.getLsbD b = true)) ∧
    (∀ (line : ℕ) (h : line < gpioicLines),
      ((gpioicRun events).driven (lineGroup line h)).getLsbD (line % 32) = true →
      (gpioicRun events).step (.setLine line (s5lGpioicLine (gpioicRun events) line)) =
        gpioicRun events) ∧
    (∀ (g : Gpio) (pin : Half), s5lGpioDrive g pin (s5lGpioPin g pin) = (g, [])) ∧
    ∀ group : Fin gpioicGroups, s5lGpioicGroupIrq (gpioicRun events) group = true ↔
      ∃ b < 32, ((gpioicRun events).stat group).getLsbD b = true ∧
        ((gpioicRun events).en group).getLsbD b = true :=
  ⟨foldl_pending events reset_pending,
    fun _ _ _ hb ↦ ⟨step_sets hb, step_clears hb⟩,
    fun _ h hdriven ↦ s5lGpioicSetLine_same _ h hdriven,
    s5lGpioDrive_same,
    s5lGpioicGroupIrq_iff _⟩

/-- A line on which there is nothing reads low, and it is changed by a device that drives it low,
and where its level is the low one it is latched; a line of which the low level is chosen is
latched where it rises, when it is not set up for levels. -/
theorem gpioicRun_firstDrive : (s5lGpioicLine (gpioicRun [.write gpioicIntType 1]) 0 = false ∧
      s5lGpioicPending (gpioicRun [.write gpioicIntType 1]) 0 = false ∧
      s5lGpioicPending (gpioicRun [.write gpioicIntType 1, .setLine 0 false]) 0 = true) ∧
    (gpioicRun [.setLine 0 false, .setLine 0 true]).level ⟨0, by decide⟩ = 0 ∧
      s5lGpioicPending (gpioicRun [.setLine 0 false]) 0 = false ∧
      s5lGpioicPending (gpioicRun [.setLine 0 false, .setLine 0 true]) 0 = true := by
  decide +kernel

end S5LBox.Soc
