import S5LBox.Soc.Gpioic

/-!
# The five buttons

Each button is one switch on one pin and one line of the GPIO interrupt controller. A transition is
accepted when its line is enabled and has nothing pending. On a line that is set up for levels it is
then pending whatever its level, since whatever is not pending there is at the level that was not
chosen. On any other line only a rise is.
-/

namespace S5LBox.Soc

/-- A row of the wiring table. -/
structure Wiring where
  pin : Half
  line : ℕ
  activeHigh : Bool
  inverts : Bool

abbrev buttonCount : ℕ := 5

/-- `WIRING`: hold, menu, volup, voldown and ringerab. -/
def wiring : Fin buttonCount → Wiring :=
  ![⟨0x1605, 45, true, false⟩, ⟨0x1600, 40, true, false⟩, ⟨0x1601, 41, false, false⟩,
    ⟨0x1602, 42, false, false⟩, ⟨0x1603, 43, false, true⟩]

def s5lButtonLevel (which : Fin buttonCount) (pressed : Bool) : Bool :=
  pressed == ((wiring which).activeHigh != (wiring which).inverts)

/-- The switches, bit by bit, and the counters. -/
structure Buttons where
  held : Fin buttonCount → Bool
  sets : DWord
  refused : DWord
  edges : DWord

/-- The switches with what they are wired to. -/
structure Keypad where
  buttons : Buttons
  gpio : Gpio
  ic : Gpioic

/-- Present the position of one switch. -/
def Keypad.drive (s : Keypad) (which : Fin buttonCount) (level : Bool) : Keypad :=
  { s with
    gpio := (s5lGpioDrive s.gpio (wiring which).pin level).1
    ic := s5lGpioicSetLine s.ic (wiring which).line level }

def s5lButtonsApply (s : Keypad) : Keypad :=
  (List.finRange buttonCount).foldl
    (fun keypad which ↦ keypad.drive which (s5lButtonLevel which (s.buttons.held which))) s

/-- The enable of a line. -/
def lineEnabled (g : Gpioic) (line : ℕ) : Bool :=
  if h : line < gpioicLines then g.en (lineGroup line h) &&& lineBit line ≠ 0 else false

def Keypad.refuse (s : Keypad) : Keypad :=
  { s with buttons := { s.buttons with refused := s.buttons.refused + 1 } }

/-- The accepted transition. -/
def Keypad.accept (s : Keypad) (which : Fin buttonCount) (pressed : Bool) : Keypad :=
  Keypad.drive { s with
    buttons :=
      { s.buttons with
        held := Function.update s.buttons.held which pressed
        sets := s.buttons.sets + 1
        edges := s.buttons.edges + 1 } } which (s5lButtonLevel which pressed)

def s5lButtonsSet (s : Keypad) (which : ℕ) (pressed : Bool) : Bool × Keypad :=
  if h : which < buttonCount then
    let which : Fin buttonCount := ⟨which, h⟩
    if s.buttons.held which = pressed then
      (true, { s with buttons := { s.buttons with sets := s.buttons.sets + 1 } })
    else if ¬lineEnabled s.ic (wiring which).line then (false, s.refuse)
    else if s5lGpioicPending s.ic (wiring which).line then (false, s.refuse)
    else
      (true, s.accept which pressed)
  else (false, s.refuse)

/-- What the guest and the host do. -/
inductive KeypadEvent where
  | gpioicWrite (off val : Word)
  | gpioWrite (off val : Word) (bytes : ℕ)
  | set (which : ℕ) (pressed : Bool)
  | apply

def Keypad.step (s : Keypad) : KeypadEvent → Keypad
  | .gpioicWrite off val => { s with ic := s5lGpioicWrite s.ic off val }
  | .gpioWrite off val bytes => { s with gpio := (s5lGpioWrite s.gpio off val bytes).1 }
  | .set which pressed => (s5lButtonsSet s which pressed).2
  | .apply => s5lButtonsApply s

/-- The reset of the machine presents the released switches. -/
def keypadReset (gpio : Gpio) : Keypad :=
  s5lButtonsApply ⟨⟨fun _ ↦ false, 0, 0, 0⟩, gpio, s5lGpioicReset⟩

def keypadRun (gpio : Gpio) (events : List KeypadEvent) : Keypad :=
  events.foldl Keypad.step (keypadReset gpio)

variable {s : Keypad} {w : Fin buttonCount} {pressed : Bool}

/-- The bit of a button in the registers of the controller. -/
def atButton (words : Fin gpioicGroups → Word) (w : Fin buttonCount) : Bool :=
  (words ⟨1, by decide⟩).getLsbD ((wiring w).line % 32)

theorem button_line (w : Fin buttonCount) :
    ∃ h : (wiring w).line < gpioicLines, lineGroup (wiring w).line h = ⟨1, by decide⟩ := by
  revert w
  decide

theorem atButton_eq (words : Fin gpioicGroups → Word) (w : Fin buttonCount) :
    (if h : (wiring w).line < gpioicLines then
      decide (words (lineGroup (wiring w).line h) &&& lineBit (wiring w).line ≠ 0) else false) =
      atButton words w := by
  obtain ⟨h, hgroup⟩ := button_line w
  rw [dif_pos h, hgroup, Bool.eq_iff_iff, decide_eq_true_iff]
  exact and_lineBit_ne_zero _ _

theorem button_onLine (w w' : Fin buttonCount) (h : (wiring w').line < gpioicLines) :
    OnLine (wiring w').line h ⟨1, by decide⟩ ((wiring w).line % 32) ↔ w' = w := by
  decide +revert

theorem s5lGpioicSetLine_wires (g : Gpioic) (line : ℕ) (h : line < gpioicLines) (level : Bool) :
    let wired := driveWire g (lineGroup line h) (lineBit line) level
    (s5lGpioicSetLine g line level).raw = wired.raw ∧
      (s5lGpioicSetLine g line level).driven = wired.driven ∧
      (s5lGpioicSetLine g line level).en = g.en ∧
      (s5lGpioicSetLine g line level).level = g.level := by
  rcases s5lGpioicSetLine_cases g line h level with
    ⟨-, ⟨-, hset⟩ | ⟨-, -, hset⟩⟩ | ⟨-, ⟨-, -, hset⟩ | ⟨-, hset⟩⟩ <;> rw [hset] <;>
    exact ⟨rfl, rfl, rfl, rfl⟩

theorem drive_wires (s : Keypad) (w w' : Fin buttonCount) (level : Bool) :
    atButton (s.drive w' level).ic.raw w = (if w' = w then level else atButton s.ic.raw w) ∧
      atButton (s.drive w' level).ic.driven w = (atButton s.ic.driven w || decide (w' = w)) := by
  obtain ⟨h, -⟩ := button_line w'
  obtain ⟨hraw, hdriven, -⟩ := s5lGpioicSetLine_wires s.ic (wiring w').line h level
  have hb : (wiring w).line % 32 < 32 := Nat.mod_lt _ (by decide)
  simp only [atButton, Keypad.drive, hraw, hdriven, driveWire_raw hb, driveWire_driven,
    button_onLine w w' h, and_self]

theorem setPin_getLsbD (word : Word) {bit b : ℕ} (hb : b < 32) (level : Bool) :
    (setPin word bit level).getLsbD b = if bit = b then level else word.getLsbD b := by
  have hone : ((1 : Word) <<< bit).getLsbD b = decide (bit = b) := by
    change (BitVec.twoPow 32 bit).getLsbD b = _
    rw [BitVec.getLsbD_twoPow]
    by_cases h : bit = b
    · rw [h, decide_eq_true hb, Bool.true_and]
    · simp [h]
  unfold setPin
  cases level with
  | true =>
    rw [if_pos rfl, BitVec.getLsbD_or, hone]
    by_cases h : bit = b <;> simp [h]
  | false =>
    rw [if_neg Bool.false_ne_true, BitVec.getLsbD_and, BitVec.getLsbD_not, hone]
    by_cases h : bit = b <;> simp [h, hb]

theorem button_pin (w w' : Fin buttonCount) :
    pinPort (wiring w).pin = 22 ∧ (wiring w).pin.toNat % 256 = (wiring w).pin.toNat % 32 ∧
      ((wiring w').pin.toNat % 32 = (wiring w).pin.toNat % 32 ↔ w' = w) := by
  decide +revert

theorem drive_pin (s : Keypad) (w w' : Fin buttonCount) (level : Bool) :
    s5lGpioPin (s.drive w' level).gpio (wiring w).pin =
      if w' = w then level else s5lGpioPin s.gpio (wiring w).pin := by
  obtain ⟨hport, -, hsame⟩ := button_pin w w'
  obtain ⟨hport', hbit, -⟩ := button_pin w' w'
  have hin : ∀ w, ¬gpioPorts ≤ pinPort (wiring w).pin := by decide
  have hb (w : Fin buttonCount) : (wiring w).pin.toNat % 32 < 32 := Nat.mod_lt _ (by decide)
  by_cases hlevel : level = s5lGpioPin s.gpio (wiring w').pin
  · rw [hlevel, Keypad.drive, s5lGpioDrive_same]
    split
    · next heq => rw [heq]
    · rfl
  · have hregs : (s.drive w' level).gpio.regs (gpioPinReg 22 / 4) =
        setPin (s.gpio.regs (gpioPinReg 22 / 4)) ((wiring w').pin.toNat % 32) level := by
      rw [s5lGpioPin_eq _ (hin w'), hport'] at hlevel
      rw [Keypad.drive, s5lGpioDrive]
      dsimp only
      rw [hport', hbit, if_neg (not_or.2 ⟨by decide, not_lt.2 (Nat.le_of_lt_succ (hb w'))⟩),
        shiftRight_and_one, if_neg]
      · dsimp only
        rw [Function.update_self]
      · cases level <;> simp_all
    rw [s5lGpioPin_eq _ (hin w), hport, hregs, setPin_getLsbD _ (hb w), s5lGpioPin_eq _ (hin w), hport]
    simp only [hsame]

/-- The switches are presented: each wire has a device and is at the level of its switch. -/
structure Wired (s : Keypad) : Prop where
  pending : LevelPending s.ic
  raw : ∀ w, atButton s.ic.raw w = s5lButtonLevel w (s.buttons.held w)
  driven : ∀ w, atButton s.ic.driven w = true

/-- What every presentation keeps, and that of one switch brings about where it is asked to, holds
once they have all been presented. -/
theorem apply_induction {P : Keypad → Prop} (s : Keypad)
    (hstep : ∀ (t : Keypad) w, P t → P (t.drive w (s5lButtonLevel w (s.buttons.held w))))
    (h : P s ∨ ∃ w, ∀ t : Keypad, P (t.drive w (s5lButtonLevel w (s.buttons.held w)))) :
    P (s5lButtonsApply s) := by
  have hkept (list : List (Fin buttonCount)) (t : Keypad) (ht : P t) :
      P (list.foldl (fun keypad w ↦ keypad.drive w (s5lButtonLevel w (s.buttons.held w))) t) := by
    induction list generalizing t with
    | nil => exact ht
    | cons w rest ih => exact ih _ (hstep t w ht)
  rcases h with h | ⟨w, hset⟩
  · exact hkept _ s h
  · obtain ⟨before, after, hlist⟩ := List.append_of_mem (List.mem_finRange w)
    rw [s5lButtonsApply, hlist, List.foldl_append, List.foldl_cons]
    exact hkept after _ (hset _)

/-- On presented switches another presentation does not reach the controller. -/
theorem apply_ic (h : Wired s) : (s5lButtonsApply s).ic = s.ic := by
  refine apply_induction (P := fun t ↦ t.ic = s.ic) s (fun t w ht ↦ ?_) (.inl rfl)
  obtain ⟨hline, hgroup⟩ := button_line w
  have hraw : s5lGpioicLine s.ic (wiring w).line = s5lButtonLevel w (s.buttons.held w) :=
    (atButton_eq s.ic.raw w).trans (h.raw w)
  change s5lGpioicSetLine t.ic _ _ = s.ic
  rw [ht, ← hraw]
  exact s5lGpioicSetLine_same _ hline (hgroup ▸ h.driven w)

theorem apply_pin (s : Keypad) (w : Fin buttonCount) :
    s5lGpioPin (s5lButtonsApply s).gpio (wiring w).pin = s5lButtonLevel w (s.buttons.held w) := by
  refine apply_induction s (P := fun t ↦ s5lGpioPin t.gpio (wiring w).pin = _) (fun t w' ht ↦ ?_)
    (.inr ⟨w, fun t ↦ (drive_pin ..).trans (if_pos rfl)⟩)
  rw [drive_pin, ht]
  split
  · next heq => rw [heq]
  · rfl

theorem apply_wired (h : LevelPending s.ic) : Wired (s5lButtonsApply s) where
  pending := apply_induction (P := fun t ↦ LevelPending t.ic) s
    (fun _ _ ht ↦ s5lGpioicSetLine_pending ht _ _) (.inl h)
  raw w := by
    have hheld : (s5lButtonsApply s).buttons = s.buttons :=
      apply_induction (P := fun t ↦ t.buttons = s.buttons) s (fun _ _ ht ↦ ht) (.inl rfl)
    rw [hheld]
    refine apply_induction s (P := fun t ↦ atButton t.ic.raw w = _) (fun t w' ht ↦ ?_)
      (.inr ⟨w, fun t ↦ (drive_wires ..).1.trans (if_pos rfl)⟩)
    rw [(drive_wires ..).1, ht]
    split
    · next heq => rw [heq]
    · rfl
  driven w := by
    refine apply_induction s (P := fun t ↦ atButton t.ic.driven w = true) (fun t w' ht ↦ ?_)
      (.inr ⟨w, fun t ↦ ?_⟩) <;> rw [(drive_wires ..).2]
    · rw [ht, Bool.true_or]
    · rw [decide_eq_true rfl, Bool.or_true]

theorem s5lGpioicWrite_wires (g : Gpioic) (off val : Word) :
    (s5lGpioicWrite g off val).raw = g.raw ∧ (s5lGpioicWrite g off val).driven = g.driven := by
  unfold s5lGpioicWrite gpioicNoteUnknown
  constructor <;> (repeat' split) <;> rfl

/-- A transition that is accepted. -/
def Accepted (s : Keypad) (w : Fin buttonCount) (pressed : Bool) : Prop :=
  (s5lButtonsSet s w pressed).1 = true ∧ s.buttons.held w ≠ pressed

theorem s5lButtonsSet_cases (s : Keypad) (which : ℕ) (pressed : Bool) :
    s5lButtonsSet s which pressed = (false, s.refuse) ∨
      (∃ w : Fin buttonCount, w = which ∧ s.buttons.held w = pressed ∧
        s5lButtonsSet s which pressed =
          (true, { s with buttons := { s.buttons with sets := s.buttons.sets + 1 } })) ∨
      ∃ w : Fin buttonCount, w = which ∧ atButton s.ic.en w = true ∧ atButton s.ic.stat w = false ∧
        s5lButtonsSet s which pressed = (true, s.accept w pressed) := by
  unfold s5lButtonsSet
  split
  · next h =>
    have hen : lineEnabled s.ic (wiring ⟨which, h⟩).line = atButton s.ic.en ⟨which, h⟩ :=
      atButton_eq s.ic.en ⟨which, h⟩
    have hstat : s5lGpioicPending s.ic (wiring ⟨which, h⟩).line = atButton s.ic.stat ⟨which, h⟩ :=
      atButton_eq s.ic.stat ⟨which, h⟩
    dsimp only
    split_ifs with hheld henabled hpending
    · exact .inr (.inl ⟨⟨which, h⟩, rfl, hheld, rfl⟩)
    · exact .inl rfl
    · rw [hen] at henabled
      rw [hstat] at hpending
      exact .inr (.inr ⟨⟨which, h⟩, rfl, henabled, Bool.eq_false_iff.2 hpending, rfl⟩)
    · exact .inl rfl
  · exact .inl rfl

theorem set_of_accepted (haccepted : Accepted s w pressed) :
    atButton s.ic.en w = true ∧ atButton s.ic.stat w = false ∧
      (s5lButtonsSet s w pressed).2 = s.accept w pressed := by
  rcases s5lButtonsSet_cases s w pressed with h | ⟨w', hw, hheld, -⟩ | ⟨w', hw, hen, hstat, h⟩
  · exact absurd haccepted.1 (by rw [h]; exact Bool.false_ne_true)
  · exact absurd ((Fin.ext hw : w' = w) ▸ hheld) haccepted.2
  · obtain rfl : w' = w := Fin.ext hw
    exact ⟨hen, hstat, congrArg Prod.snd h⟩

theorem accept_wired (h : Wired s) (w : Fin buttonCount) (pressed : Bool) :
    Wired (s.accept w pressed) := by
  refine ⟨s5lGpioicSetLine_pending h.pending _ _, fun w' ↦ ?_, fun w' ↦ ?_⟩
  · refine (drive_wires _ w' w _).1.trans ?_
    show _ = s5lButtonLevel w' (Function.update s.buttons.held w pressed w')
    by_cases heq : w = w'
    · rw [if_pos heq, heq, Function.update_self]
    · rw [if_neg heq, Function.update_of_ne (Ne.symm heq)]
      exact h.raw w'
  · refine (drive_wires _ w' w _).2.trans ?_
    rw [show atButton _ w' = true from h.driven w', Bool.true_or]

theorem step_wired (h : Wired s) (event : KeypadEvent) : Wired (s.step event) := by
  cases event with
  | gpioicWrite off val =>
    obtain ⟨hraw, hdriven⟩ := s5lGpioicWrite_wires s.ic off val
    exact ⟨s5lGpioicWrite_pending h.pending off val, fun w ↦ hraw ▸ h.raw w,
      fun w ↦ hdriven ▸ h.driven w⟩
  | gpioWrite off val bytes => exact ⟨h.pending, h.raw, h.driven⟩
  | set which pressed =>
    rw [Keypad.step]
    rcases s5lButtonsSet_cases s which pressed with hset | ⟨w, -, -, hset⟩ | ⟨w, -, -, -, hset⟩ <;>
      rw [hset]
    · exact ⟨h.pending, h.raw, h.driven⟩
    · exact ⟨h.pending, h.raw, h.driven⟩
    · exact accept_wired h _ _
  | apply => exact apply_wired h.pending

theorem keypadRun_wired (gpio : Gpio) (events : List KeypadEvent) :
    Wired (keypadRun gpio events) := by
  have hrun (s : Keypad) (h : Wired s) : Wired (events.foldl Keypad.step s) := by
    induction events generalizing s with
    | nil => exact h
    | cons event rest ih => exact ih _ (step_wired h event)
  exact hrun _ (apply_wired reset_pending)

/-- The new level is one that the line reports. -/
def Latches (s : Keypad) (w : Fin buttonCount) (pressed : Bool) : Prop :=
  atButton s.ic.type w = true ∨ s5lButtonLevel w pressed = true

/-- An accepted transition is pending just where the line reports its level. -/
theorem accept_stat (h : Wired s) (hheld : s.buttons.held w ≠ pressed)
    (hstat : atButton s.ic.stat w = false) :
    atButton (s.accept w pressed).ic.stat w = true ↔ Latches s w pressed := by
  obtain ⟨hline, hgroup⟩ := button_line w
  obtain ⟨-, -, -, hlevel⟩ := s5lGpioicSetLine_wires s.ic _ hline (s5lButtonLevel w pressed)
  have hb : (wiring w).line % 32 < 32 := Nat.mod_lt _ (by decide)
  have hwas : atButton s.ic.raw w = !s5lButtonLevel w pressed := by
    rw [h.raw w, s5lButtonLevel, s5lButtonLevel, Bool.eq_not.2 hheld]
    cases pressed <;> simp
  have hafter := accept_wired h w pressed
  have hmoved : atButton (s.accept w pressed).ic.raw w = s5lButtonLevel w pressed :=
    (drive_wires ..).1.trans (if_pos rfl)
  cases htype : atButton s.ic.type w with
  | true =>
    refine iff_of_true (hafter.pending ⟨1, by decide⟩ _ hb ?_) (.inl htype)
    have hquiet := mt (h.pending ⟨1, by decide⟩ _ hb) (Bool.eq_false_iff.1 hstat)
    have hchosen : atButton s.ic.level w = s5lButtonLevel w pressed := by
      have hne : ¬atButton s.ic.raw w = atButton s.ic.level w := fun heq ↦ hquiet (by
        rw [Gpioic.asserting]
        exact Bool.and_eq_true_iff.2 ⟨Bool.and_eq_true_iff.2 ⟨htype, h.driven w⟩, beq_iff_eq.2 heq⟩)
      rw [hwas] at hne
      exact Bool.not_eq_not.1 (Ne.symm hne)
    have htype' : atButton (s.accept w pressed).ic.type w = true :=
      (congrArg (atButton · w) s5lGpioicSetLine_type).trans htype
    have hchosen' : atButton (s.accept w pressed).ic.level w = s5lButtonLevel w pressed :=
      (congrArg (atButton · w) hlevel).trans hchosen
    rw [Gpioic.asserting]
    exact Bool.and_eq_true_iff.2 ⟨Bool.and_eq_true_iff.2 ⟨htype', hafter.driven w⟩,
      beq_iff_eq.2 (hmoved.trans hchosen'.symm)⟩
  | false =>
    rw [Latches, htype, or_iff_right Bool.false_ne_true]
    refine ⟨fun hset ↦ (s5lGpioicSetLine_sets hb hstat hset htype).1.2, fun hrise ↦ ?_⟩
    rw [hrise] at hwas
    rcases s5lGpioicSetLine_cases s.ic (wiring w).line hline true with
      ⟨hlevels, -⟩ | ⟨-, ⟨-, -, hset⟩ | ⟨hlow, -⟩⟩
    · rw [hgroup] at hlevels
      exact Bool.noConfusion (hlevels.symm.trans htype)
    · change atButton (s5lGpioicSetLine s.ic _ (s5lButtonLevel w pressed)).stat w = true
      rw [hrise, hset]
      exact latched_stat.trans (by rw [decide_eq_true ((button_onLine w w hline).2 rfl)]; simp)
    · rw [hgroup] at hlow
      exact absurd ⟨rfl, hwas⟩ hlow

/-- The store that acknowledges a button. -/
def Acknowledges (w : Fin buttonCount) (event : KeypadEvent) : Prop :=
  ∃ off val, event = .gpioicWrite off val ∧ gpioicBank off gpioicIntStat = some ⟨1, by decide⟩ ∧
    val.getLsbD ((wiring w).line % 32) = true

theorem drive_keeps {w' : Fin buttonCount} {level : Bool} (h : atButton s.ic.stat w = true) :
    atButton (s.drive w' level).ic.stat w = true :=
  s5lGpioicSetLine_keeps (Nat.mod_lt _ (by decide)) h

theorem run_keeps (h : atButton s.ic.stat w = true) (events : List KeypadEvent) :
    atButton (events.foldl Keypad.step s).ic.stat w = true ∨
      ∃ event ∈ events, Acknowledges w event := by
  induction events generalizing s with
  | nil => exact .inl h
  | cons event rest ih =>
    by_cases hkept : atButton (s.step event).ic.stat w = true
    · exact (ih hkept).imp_right fun ⟨event, hmem, hack⟩ ↦
        ⟨event, List.mem_cons_of_mem _ hmem, hack⟩
    · refine .inr ⟨event, List.mem_cons_self, ?_⟩
      cases event with
      | gpioicWrite off val =>
        exact ⟨off, val, rfl, s5lGpioicWrite_clears (Nat.mod_lt _ (by decide)) h
          (Bool.eq_false_iff.2 hkept)⟩
      | gpioWrite off val bytes => exact absurd h hkept
      | set which pressed =>
        rw [Keypad.step] at hkept
        rcases s5lButtonsSet_cases s which pressed with hset | ⟨w', -, -, hset⟩ | ⟨w', -, -, -, hset⟩ <;>
          rw [hset] at hkept
        · exact absurd h hkept
        · exact absurd h hkept
        · exact absurd (drive_keeps h) hkept
      | apply =>
        exact absurd (apply_induction (P := fun t ↦ atButton t.ic.stat w = true) s
          (fun _ _ ht ↦ drive_keeps ht) (.inl h)) hkept

/-- What a call of the host promises, with what comes after it until another. -/
structure Delivers (s : Keypad) (w : Fin buttonCount) (pressed : Bool) (later : List KeypadEvent) :
    Prop where
  refused : ∀ which, (s5lButtonsSet s which pressed).1 = false →
    (s5lButtonsSet s which pressed).2 = s.refuse
  reaches : Accepted s w pressed → let t := (s5lButtonsSet s w pressed).2
    s5lGpioicPending t.ic (wiring w).line = true ∧ lineEnabled t.ic (wiring w).line = true ∧
      s5lGpioicGroupIrq t.ic ((wiring w).line / 32) = true ∧
      s5lGpioPin t.gpio (wiring w).pin = s5lButtonLevel w pressed ∧
      s5lGpioicLine t.ic (wiring w).line = s5lButtonLevel w pressed
  applied : Accepted s w pressed → let t := (s5lButtonsSet s w pressed).2
    (s5lButtonsApply t).ic = t.ic ∧
      s5lGpioPin (s5lButtonsApply t).gpio (wiring w).pin = s5lGpioPin t.gpio (wiring w).pin
  acknowledged : Accepted s w pressed →
    ∀ next, Accepted (later.foldl Keypad.step (s5lButtonsSet s w pressed).2) w next →
      ∃ event ∈ later, Acknowledges w event

/-- At every point of every run a transition is delivered just where the line reports its level: a
line that is set up for levels always does, any other reports a rise. -/
theorem keypadRun_delivers (gpio : Gpio) (events later : List KeypadEvent) (w : Fin buttonCount)
    (pressed : Bool) :
    let s := keypadRun gpio events
    Delivers s w pressed later ↔ (Accepted s w pressed → Latches s w pressed) := by
  intro s
  have hwired : Wired s := keypadRun_wired gpio events
  constructor
  · intro h haccepted
    obtain ⟨-, hstat, hset⟩ := set_of_accepted haccepted
    refine (accept_stat hwired haccepted.2 hstat).1 ?_
    rw [← hset, ← atButton_eq]
    exact (h.reaches haccepted).1
  · intro h
    have hrefused : ∀ which, (s5lButtonsSet s which pressed).1 = false →
        (s5lButtonsSet s which pressed).2 = s.refuse := by
      intro which hfalse
      rcases s5lButtonsSet_cases s which pressed with hset | ⟨_, -, -, hset⟩ | ⟨_, -, -, -, hset⟩ <;>
        rw [hset] at hfalse ⊢
      · exact nomatch hfalse
      · exact nomatch hfalse
    by_cases haccepted : Accepted s w pressed
    swap
    · exact ⟨hrefused, (absurd · haccepted), (absurd · haccepted), (absurd · haccepted)⟩
    obtain ⟨hen, hstat, hset⟩ := set_of_accepted haccepted
    have hpending := (accept_stat hwired haccepted.2 hstat).2 (h haccepted)
    have hafter := accept_wired hwired w pressed
    have henabled : atButton (s.accept w pressed).ic.en w = true := by
      obtain ⟨hline, -⟩ := button_line w
      exact (congrArg (atButton · w)
        (s5lGpioicSetLine_wires s.ic _ hline (s5lButtonLevel w pressed)).2.2.1).trans hen
    have hpin : s5lGpioPin (s.accept w pressed).gpio (wiring w).pin = s5lButtonLevel w pressed :=
      (drive_pin ..).trans (if_pos rfl)
    have hheld : (s.accept w pressed).buttons.held w = pressed := Function.update_self ..
    refine ⟨hrefused, fun _ ↦ ?_, fun _ ↦ ?_, fun _ next hnext ↦ ?_⟩
    · rw [hset]
      refine ⟨(atButton_eq _ w).trans hpending, (atButton_eq _ w).trans henabled, ?_, hpin,
        (atButton_eq _ w).trans ((drive_wires ..).1.trans (if_pos rfl))⟩
      have hgroup : ∀ w, (wiring w).line / 32 = 1 := by decide
      rw [hgroup w]
      exact (s5lGpioicGroupIrq_iff _ ⟨1, by decide⟩).2
        ⟨_, Nat.mod_lt _ (by decide), hpending, henabled⟩
    · rw [hset]
      exact ⟨apply_ic hafter, (apply_pin _ w).trans (by rw [hheld, hpin])⟩
    · rw [hset] at hnext
      exact (run_keeps hpending later).resolve_left
        (Bool.eq_false_iff.1 (set_of_accepted hnext).2.1)

/-- The menu button on a line that is not set up for levels: it is pressed, the press is
acknowledged, and the release is accepted and not reported. -/
theorem menu_release_lost :
    ¬∀ (gpio : Gpio) (events later : List KeypadEvent) (w : Fin buttonCount) (pressed : Bool),
      Delivers (keypadRun gpio events) w pressed later := by
  intro h
  have hlost := ((h ⟨fun _ ↦ 0, fun _ ↦ none⟩ [.gpioicWrite 0xc4 0x100, .set 1 true,
    .gpioicWrite 0xa4 0x100] [] 1 false).reaches ⟨by decide +kernel, by decide +kernel⟩).1
  exact absurd hlost (by decide +kernel)

end S5LBox.Soc
