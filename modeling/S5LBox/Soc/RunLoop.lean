import S5LBox.Arm.StaticFresh

/-!
# The run loop

`s5l8900_run` goes round in four ways: a step that the host callback replaced, a batch of the
signed engine, a batch of the interpreter, and one step of it. The devices are a parameter, with
the clock fields the loop itself looks at; they drive the interrupt lines, which a core shows as
they were last driven.
-/

namespace S5LBox.Soc

open S5LBox.Arm

/-- The fields of the machine that decide when the devices are refreshed. -/
structure Clock where
  levelDirty : Bool
  extInputs : Word
  extSeen : Word
  cpuHz : Word
  tbHz : Word
  tbAccum : DWord

/-- The device graph in the context of the bus: its clock, the lines it last drove, and
`s5l8900_refresh`. -/
structure Devices (σ : Type) where
  clock : σ → Clock
  setAccum : σ → DWord → σ
  refresh : σ → Word → σ
  irqLine : σ → Bool
  fiqLine : σ → Bool

/-- What a machine is run with; `eager` is `g_tick_eager`. -/
structure Board (σ : Type) where
  fpu : HostFpu
  bus : Bus σ
  decoder : InsnDecoder
  runner : Runner σ
  devices : Devices σ
  eager : Bool := false

/-- `pre_step_hook`, with the state of its owner. -/
abbrev Hook (η σ : Type) := η → S5l8900 σ → Bool × η × Cpu × σ

variable {η σ : Type}

/-- The core with the lines as the devices last drove them. -/
def Board.wire (b : Board σ) (m : S5l8900 σ) : S5l8900 σ :=
  { m with cpu := { m.cpu with core := { m.cpu.core with
      irqLine := b.devices.irqLine m.ctx, fiqLine := b.devices.fiqLine m.ctx } } }

/-- The context after `s5l8900_tick`. -/
def Board.advance (b : Board σ) (ctx : σ) (ticks : Word) : σ :=
  let clock := b.devices.clock ctx
  if clock.cpuHz ≠ 0 ∧ clock.tbHz ≠ 0 then
    let accum := clock.tbAccum + ticks.setWidth 64 * clock.tbHz.setWidth 64
    let ctx := b.devices.setAccum ctx accum
    if ticks ≠ 0 ∧ !clock.levelDirty ∧ !b.eager ∧ accum < clock.cpuHz.setWidth 64 ∧
        clock.extInputs = clock.extSeen then ctx
    else
      b.devices.refresh (b.devices.setAccum ctx (accum % clock.cpuHz.setWidth 64))
        ((accum / clock.cpuHz.setWidth 64).setWidth 32)
  else b.devices.refresh ctx ticks

def s5l8900Tick (b : Board σ) (m : S5l8900 σ) (ticks : ℕ) : S5l8900 σ :=
  b.wire { m with ctx := b.advance m.ctx (BitVec.ofNat 32 ticks) }

def retirementBatchLimit (b : Board σ) (m : S5l8900 σ) (remaining : ℕ) : ℕ :=
  let clock := b.devices.clock m.ctx
  if remaining = 0 ∨ b.eager ∨ clock.levelDirty ∨ clock.extInputs ≠ clock.extSeen ∨
      clock.cpuHz = 0 ∨ clock.tbHz = 0 ∨ clock.cpuHz < clock.tbHz ∨
      clock.cpuHz.setWidth 64 ≤ clock.tbAccum then 0
  else
    min ((clock.cpuHz.toNat - clock.tbAccum.toNat + clock.tbHz.toNat - 1) / clock.tbHz.toNat)
      remaining

def interpreterTickBatchLimit (b : Board σ) (m : S5l8900 σ) (remaining : ℕ) : ℕ :=
  if m.cpu.core.isPriv ∨ m.preStep.installed ∨ m.staticState.any (·.enabled) then 0
  else retirementBatchLimit b m remaining

/-- Where a run stands: the machine, the state behind the hook and the instructions retired. -/
structure Loop (η σ : Type) where
  machine : S5l8900 σ
  hook : η
  n : ℕ := 0

/-- What a round of the loop comes to. -/
inductive Turn (η σ : Type) where
  | again (next : Loop η σ)
  | stop (last : Loop η σ) (status : Status)

/-- The offer of a step to the hook, which it may take. -/
def offer (hook : Hook η σ) (s : Loop η σ) : Bool × Loop η σ :=
  if s.machine.preStep.targetMatches (s.machine.cpu.core.r 15) then
    let (handled, state, cpu, ctx) := hook s.hook s.machine
    (handled, { s with machine := { s.machine with cpu, ctx }, hook := state })
  else (false, s)

/-- `arm_step` on the core of a machine. -/
def stepMachine (b : Board σ) (m : S5l8900 σ) : Status × S5l8900 σ :=
  let (status, cpu, ctx) := cpuStep b.fpu b.bus m.cpu m.ctx
  (status, b.wire { m with cpu, ctx })

/-- The inner loop of a batch, of at most `left` instructions: how it ended and what retired. -/
def batchLoop (b : Board σ) : (left : ℕ) → S5l8900 σ → Status × ℕ × S5l8900 σ
  | 0, m => (.ok, 0, m)
  | left + 1, m =>
    let (status, m) := stepMachine b m
    if status ≠ .ok then (status, 0, m)
    else
      let clock := b.devices.clock m.ctx
      if clock.levelDirty ∨ clock.extInputs ≠ clock.extSeen ∨ m.cpu.core.isPriv then (.ok, 1, m)
      else
        let (status, retired, m) := batchLoop b left m
        (status, retired + 1, m)

/-- The part of the loop that runs the interpreter. -/
def interpreterTurn (b : Board σ) (max : ℕ) (s : Loop η σ) : Turn η σ :=
  let limit := interpreterTickBatchLimit b s.machine (max - s.n)
  if 1 < limit then
    let (status, retired, m) := batchLoop b limit s.machine
    let m := if retired = 0 then m else s5l8900Tick b m retired
    let s := { s with machine := m, n := s.n + retired }
    if status ≠ .ok then .stop s status else .again s
  else
    let (status, m) := stepMachine b s.machine
    if status ≠ .ok then .stop { s with machine := m } status
    else .again { s with machine := s5l8900Tick b m 1, n := s.n + 1 }

/-- The part of the loop that runs the signed engine, and whether the round ends with it. -/
def staticTurn (b : Board σ) (max : ℕ) (s : Loop η σ) : Bool × Loop η σ :=
  if !s.machine.staticState.any (·.enabled) then (false, s)
  else
    let limit := retirementBatchLimit b s.machine (max - s.n)
    let result :=
      if limit = 0 then { machine := s.machine }
      else s5l8900StaticA64Try b.decoder b.bus b.runner s.machine limit
    if result.retired = 0 then (false, { s with machine := result.machine })
    else
      let m := s5l8900Tick b result.machine result.retired
      let s := { s with machine := m, n := s.n + result.retired }
      (!result.knownNegative || max ≤ s.n ||
        (retirementBatchLimit b m (max - s.n) ≠ 0 && !commitKnownNegativeBypass b.bus m), s)

/-- A round of `s5l8900_run`. -/
def turn (b : Board σ) (hook : Hook η σ) (max : ℕ) (s : Loop η σ) : Turn η σ :=
  if max ≤ s.n then .stop s .ok
  else
    let (handled, s) := offer hook s
    if handled then .again { s with machine := s5l8900Tick b s.machine 1 }
    else
      let (ended, s) := staticTurn b max s
      if ended then .again s else interpreterTurn b max s

/-- The rounds of a run, up to a number of them. -/
def turns (b : Board σ) (hook : Hook η σ) (max : ℕ) : ℕ → Loop η σ → Turn η σ
  | 0, s => .again s
  | count + 1, s =>
    match turn b hook max s with
    | .again next => turns b hook max count next
    | .stop last status => .stop last status

/-- A state that a run comes to. -/
inductive Reaches (b : Board σ) (hook : Hook η σ) (max : ℕ) (start : Loop η σ) : Loop η σ → Prop
  | start : Reaches b hook max start start
  | again {s next : Loop η σ} (reached : Reaches b hook max start s)
      (round : turn b hook max s = .again next) : Reaches b hook max start next

end S5LBox.Soc
