import S5LBox.Arm.StaticDecode
import S5LBox.Arm.Step
import S5LBox.Soc.PreStep
import S5LBox.Library.Run

/-!
# The signed engine

`s5l8900_static_a64_try` runs decoded blocks out of a cache instead of stepping the interpreter.
An entry of the cache is believed only while the octets it was decoded from are still the ones
behind the fetch cache. What a block does when it runs is the generated text's business and a
parameter here; which blocks are handed to it, in which state, is what this file is about. The
callback-free graph, which only that text reads, is left out.
-/

namespace S5LBox.Arm

open S5LBox.Soc

/-- The capabilities whose records a block may be refused for. -/
inductive Feature where
  | indirect
  | thumbConditional
  | vstr
  | stm
  | ldm
  | vstm
  | vfpArithmetic
  deriving DecidableEq, Repr

abbrev Features := Feature → Bool

/-- `static_a64_entry_t`; `raw_len` is the length of `raw`. -/
structure StaticEntry where
  fetchHost : Option HostPtr := none
  pc : Word := 0
  fetchGen : Word := 0
  raw : List Octet := []
  fetchPriv : Bool := false
  thumb : Bool := false
  valid : Bool := false
  supported : Bool := false
  block : Block := {}

/-- `static_a64_refill_predictor_t`. -/
structure RefillPredictor where
  pc : Word := 0
  fetchGen : Word := 0
  skipRemaining : ℕ := 0
  fetchPriv : Bool := false
  thumb : Bool := false
  valid : Bool := false
  multiSeen : Bool := false

/-- `static_a64_state_t` as `s5l8900_static_a64_set_enabled` allocates it. -/
structure StaticState where
  enabled : Bool := true
  persistent : Bool := false
  features : Features := fun _ ↦ true
  vfpFpSession : Bool := true
  fetchRefill : Bool := true
  knownNegativeBypass : Bool := true
  chainLimit : ℕ := a64StaticMaxInsns
  cache : BitVec 10 → StaticEntry := fun _ ↦ {}
  refillPredictor : BitVec 10 → RefillPredictor := fun _ ↦ {}

/-- The fields of `s5l8900_t` the engine reads. -/
structure S5l8900 (σ : Type) where
  cpu : Cpu
  ctx : σ
  ramSize : ℕ
  preStep : PreStep := {}
  staticState : Option StaticState := none

/-- A block handed to the generated text, with the state it starts in. The text answers as
`a64_static_execute` does: zero when the block ran to its exit, one more than the instructions
that retired when a guard refused the next, negative when it refused to begin. -/
abbrev Runner (σ : Type) := (vfpFpSession : Bool) → Block → Cpu × σ → ℤ × Cpu × σ

def a64StaticMaxChainInsns : ℕ := 256
def refillSingleReprobe : ℕ := 16

def cacheIndex (pc : Word) (thumb : Bool) (generation : Word) : BitVec 10 :=
  let key := (pc >>> (if thumb then 1 else 2)) ^^^ generation * 0x9e3779b1
  (if thumb then key ^^^ 0x85ebca6b else key).setWidth 10

/-- The filter `decode_longest` puts a decoded block through. -/
def Features.allow (features : Features) (out : Block) : Bool :=
  (features .indirect || !out.indirectExit) &&
    (features .thumbConditional || !out.thumbConditionalExit) &&
    (features .vstr || !out.vfpDirectWrites) && (features .stm || !out.stmDirectWrites) &&
    (features .ldm || !out.ldmDirectReads) && (features .vstm || !out.vstmDirectWrites) &&
    (features .vfpArithmetic || !out.vfpArithmetic)

/-- A decoding of a number of instructions that the features admit. -/
def decodeAllowed (decoder : InsnDecoder) (features : Features) (bytes : ℕ → Octet)
    (count : ℕ) (thumb : Bool) (pc : Word) : Option Block :=
  (decodeMemoryHits decoder bytes count thumb pc).filter features.allow

def decodeLongest (decoder : InsnDecoder) (features : Features) (bytes : ℕ → Octet)
    (thumb : Bool) (pc : Word) : (count : ℕ) → Option Block
  | 0 => none
  | count + 1 =>
    match decodeAllowed decoder features bytes (count + 1) thumb pc with
    | some out => some out
    | none => decodeLongest decoder features bytes thumb pc count

/-- The octets behind a fetch cache entry, from an address of its block on. -/
def fetchBytes {σ : Type} (bus : Bus σ) (ctx : σ) (host : HostPtr) (pc : Word) : ℕ → Octet :=
  fun i ↦ bus.hostLoad ctx (host + (pc - (pc &&& ~~~0x3ff)).toNat + i)

/-- `memcmp` of a witness against memory. -/
def witnessed (raw : List Octet) (bytes : ℕ → Octet) : Bool :=
  raw = (List.range raw.length).map bytes

def entryMatches (entry : StaticEntry) (h : Caches) (bytes : ℕ → Octet) (pc : Word)
    (thumb priv : Bool) (availableLen : ℕ) : Bool :=
  entry.valid && entry.fetchHost = h.fetchHost && entry.pc = pc && entry.fetchGen = h.fetchGen &&
    entry.fetchPriv = priv && entry.thumb = thumb && entry.raw ≠ [] &&
    entry.raw.length ≤ availableLen && witnessed entry.raw bytes

/-- `decode_entry`, as the entry it leaves. -/
def decodeEntry (decoder : InsnDecoder) (features : Features) (h : Caches) (bytes : ℕ → Octet)
    (pc : Word) (thumb priv : Bool) (candidateInsns availableLen : ℕ) : StaticEntry :=
  let entry : StaticEntry :=
    { fetchHost := h.fetchHost, pc, fetchGen := h.fetchGen, fetchPriv := priv, thumb, valid := true }
  let width := insnWidth thumb
  let (entry, rawLen) :=
    match decodeLongest decoder features bytes thumb pc candidateInsns with
    | some block => ({ entry with supported := true, block }, block.insnCount * width)
    | none => (entry, width)
  if availableLen < rawLen then { entry with valid := false }
  else { entry with raw := (List.range rawLen).map bytes }

def StaticState.setEntry (state : StaticState) (index : BitVec 10) (entry : StaticEntry) :
    StaticState :=
  { state with cache := Function.update state.cache index entry }

def StaticState.invalidateEntry (state : StaticState) (index : BitVec 10) : StaticState :=
  state.setEntry index { state.cache index with valid := false }

def StaticState.invalidateDerived (state : StaticState) : StaticState :=
  { state with cache := fun _ ↦ {} }

/-- The part of every head check that only asks about the core. -/
def mayRun (c : Core) : Bool :=
  c.arch = .v6Arm1176 && armModeIsValid c.cpsr && !c.abortPending &&
    !(c.fiqLine && !c.getFlag cpsrF) && !(c.irqLine && !c.getFlag cpsrI)

def Core.thumb (c : Core) : Bool := c.getFlag cpsrT

/-- An address of the current instruction state. -/
def insnAligned (thumb : Bool) (pc : Word) : Bool :=
  pc &&& BitVec.ofNat 32 (insnWidth thumb - 1) = 0

/-- The instructions left in the fetch block, sixteen at most. -/
def candidateInsns (thumb : Bool) (pc : Word) : ℕ :=
  min ((0x400 - (pc - (pc &&& ~~~0x3ff)).toNat) / insnWidth thumb) a64StaticMaxInsns

/-- The loop of `cap_before_pre_step_target` from instruction `i` on. -/
def capLoop (hook : PreStep) (pc : Word) (width candidate : ℕ) : (left i : ℕ) → ℕ
  | 0, _ => candidate
  | left + 1, i =>
    if hook.targetMatches (pc + BitVec.ofNat 32 (i * width)) then i
    else capLoop hook pc width candidate left (i + 1)

def capBeforePreStepTarget (hook : PreStep) (pc : Word) (width candidate : ℕ) : ℕ :=
  capLoop hook pc width candidate (candidate - 1) 1

variable {σ : Type}

/-- Where a head may start: the fetch pointer, once every check on the way to the cache holds. -/
def headHost (m : S5l8900 σ) (pc : Word) : Option HostPtr :=
  let c := m.cpu.core
  if !mayRun c || !insnAligned c.thumb pc || m.preStep.targetMatches pc then none
  else fetchHit m.cpu.caches pc c.isPriv

/-- The entry for a head, decoded again when it is not the one in the cache. -/
def lookupEntry (decoder : InsnDecoder) (bus : Bus σ) (m : S5l8900 σ) (state : StaticState)
    (host : HostPtr) (pc : Word) (insns : ℕ) : StaticEntry :=
  let c := m.cpu.core
  let bytes := fetchBytes bus m.ctx host pc
  let entry := state.cache (cacheIndex pc c.thumb m.cpu.caches.fetchGen)
  let available := insns * insnWidth c.thumb
  if entryMatches entry m.cpu.caches bytes pc c.thumb c.isPriv available then entry
  else decodeEntry decoder state.features m.cpu.caches bytes pc c.thumb c.isPriv insns available

/-- The choice of the next block that the plain loop and `select_persistent_block` share. -/
def selectBlock (decoder : InsnDecoder) (bus : Bus σ) (m : S5l8900 σ) (state : StaticState)
    (pc : Word) (remaining : ℕ) : Option Block × StaticState :=
  match headHost m pc with
  | none => (none, state)
  | some host =>
    let thumb := m.cpu.core.thumb
    let insns := capBeforePreStepTarget m.preStep pc (insnWidth thumb) (candidateInsns thumb pc)
    if insns = 0 then (none, state)
    else
      let entry := lookupEntry decoder bus m state host pc insns
      let state := state.setEntry (cacheIndex pc thumb m.cpu.caches.fetchGen) entry
      if !entry.supported then (none, state)
      else if entry.block.insnCount ≤ remaining then (some entry.block, state)
      else
        (decodeLongest decoder state.features (fetchBytes bus m.ctx host pc) thumb pc remaining,
          state)

/-- A block that the text began, with the core and the memory it began in. -/
structure Started (σ : Type) where
  cpu : Cpu
  ctx : σ
  block : Block

/-- What a mode of the engine leaves. `started` is not in the source: the blocks begun, in order. -/
structure Ran (σ : Type) where
  retired : ℕ
  cpu : Cpu
  ctx : σ
  state : StaticState
  started : List (Started σ) := []

/-- `a64_static_run_memory_hits_decoded`; nothing when it refuses. -/
def runMemoryHitsDecoded (runner : Runner σ) (m : S5l8900 σ) (block : Block) (session : Bool) :
    Option (ℕ × Cpu × σ) :=
  if m.ramSize = 0 ∨ m.ramSize &&& (m.ramSize - 1) ≠ 0 ∨ 2 ^ 32 < m.ramSize ∨
      !validateDecodedHitsAt block (m.cpu.core.r 15) m.cpu.core.thumb a64StaticMaxInsns then none
  else
    let (result, guest) := runner session block (m.cpu, m.ctx)
    if result < 0 ∨ (block.insnCount : ℤ) < result then none
    else some (if result = 0 then block.insnCount else result.toNat - 1, guest)

/-- The loop of `s5l8900_static_a64_try`; every round that goes on spends an instruction of what
remains, which bounds the rounds. -/
def plainLoop (decoder : InsnDecoder) (bus : Bus σ) (runner : Runner σ) :
    (rounds : ℕ) → (m : S5l8900 σ) → (state : StaticState) → (remaining : ℕ) → Ran σ
  | 0, m, state, _ => ⟨0, m.cpu, m.ctx, state, []⟩
  | rounds + 1, m, state, remaining =>
    if remaining = 0 then ⟨0, m.cpu, m.ctx, state, []⟩
    else
      let pc := m.cpu.core.r 15
      let (selected, state) := selectBlock decoder bus m state pc remaining
      match selected with
      | none => ⟨0, m.cpu, m.ctx, state, []⟩
      | some block =>
        match runMemoryHitsDecoded runner m block state.vfpFpSession with
        | none =>
          ⟨0, m.cpu, m.ctx,
            state.invalidateEntry (cacheIndex pc m.cpu.core.thumb m.cpu.caches.fetchGen), []⟩
        | some (completed, cpu, ctx) =>
          let start : Started σ := ⟨m.cpu, m.ctx, block⟩
          if completed ≠ block.insnCount then ⟨completed, cpu, ctx, state, [start]⟩
          else
            let rest := plainLoop decoder bus runner rounds { m with cpu, ctx } state
              (remaining - completed)
            { rest with retired := completed + rest.retired, started := start :: rest.started }

/-- The chain from a block that has been selected on; `completed` are the instructions before it.
The text calls `a64_static_chain_advance` at the exit of a block and `a64_static_chain_partial`
where a guard stops it. -/
def chainLoop (decoder : InsnDecoder) (bus : Bus σ) (runner : Runner σ) (budget : ℕ)
    (fetchBlock : Word) :
    (rounds : ℕ) → (m : S5l8900 σ) → (state : StaticState) → (completed : ℕ) → Block → Ran σ
  | 0, m, state, completed, _ => ⟨completed, m.cpu, m.ctx, state, []⟩
  | rounds + 1, m, state, completed, block =>
    let start : Started σ := ⟨m.cpu, m.ctx, block⟩
    let (result, cpu, ctx) := runner state.vfpFpSession block (m.cpu, m.ctx)
    let m := { m with cpu, ctx }
    let stop (retired : ℕ) (state : StaticState) : Ran σ := ⟨retired, cpu, ctx, state, [start]⟩
    if result ≠ 0 then
      let part := result.toNat - 1
      if block.insnCount < part ∨ budget - completed < part then stop completed state
      else stop (completed + part) state
    else if block.insnCount = 0 ∨ budget < completed ∨ budget - completed < block.insnCount then
      stop completed state
    else
      let completed := completed + block.insnCount
      let pc := cpu.core.r 15
      if budget - completed = 0 ∨ pc &&& ~~~0x3ff ≠ fetchBlock then stop completed state
      else
        let (selected, state) := selectBlock decoder bus m state pc (budget - completed)
        match selected with
        | none => stop completed state
        | some next =>
          if !validateDecodedHitsAt next pc cpu.core.thumb (budget - completed) then
            stop completed state
          else
            let rest := chainLoop decoder bus runner budget fetchBlock rounds m state completed next
            { rest with started := start :: rest.started }

/-- `try_persistent`, with `run_hits_chain`: the first block is refused before it begins, or the
chain runs from it. -/
def tryPersistent (decoder : InsnDecoder) (bus : Bus σ) (runner : Runner σ) (m : S5l8900 σ)
    (state : StaticState) (budget : ℕ) : Ran σ :=
  let pc := m.cpu.core.r 15
  let (selected, state) := selectBlock decoder bus m state pc budget
  match selected with
  | none => ⟨0, m.cpu, m.ctx, state, []⟩
  | some first =>
    let refuse : Ran σ :=
      ⟨0, m.cpu, m.ctx,
        state.invalidateEntry (cacheIndex pc m.cpu.core.thumb m.cpu.caches.fetchGen), []⟩
    if budget = 0 ∨ a64StaticMaxChainInsns < budget ∨ m.ramSize = 0 ∨
        m.ramSize &&& (m.ramSize - 1) ≠ 0 ∨ 2 ^ 32 < m.ramSize ∨
        !validateDecodedHitsAt first pc m.cpu.core.thumb budget then refuse
    else if (runner state.vfpFpSession first (m.cpu, m.ctx)).1 < 0 then refuse
    else chainLoop decoder bus runner budget (pc &&& ~~~0x3ff) budget m state 0 first

def refillPredictorMatches (predictor : RefillPredictor) (pc fetchGen : Word)
    (thumb priv : Bool) : Bool :=
  predictor.valid && predictor.pc = pc && predictor.fetchGen = fetchGen &&
    predictor.thumb = thumb && predictor.fetchPriv = priv

def StaticState.setPredictor (state : StaticState) (index : BitVec 10)
    (predictor : RefillPredictor) : StaticState :=
  { state with refillPredictor := Function.update state.refillPredictor index predictor }

def refillPredictorAllows (state : StaticState) (pc fetchGen : Word) (thumb priv : Bool) :
    Bool × StaticState :=
  let index := cacheIndex pc thumb fetchGen
  let predictor := state.refillPredictor index
  if !refillPredictorMatches predictor pc fetchGen thumb priv || predictor.multiSeen ||
      predictor.skipRemaining = 0 then (true, state)
  else
    (false, state.setPredictor index
      { predictor with skipRemaining := predictor.skipRemaining - 1 })

def refillPredictorRecord (state : StaticState) (pc fetchGen : Word) (thumb priv : Bool)
    (completed budget : ℕ) : StaticState :=
  let index := cacheIndex pc thumb fetchGen
  let old := state.refillPredictor index
  let predictor : RefillPredictor :=
    if refillPredictorMatches old pc fetchGen thumb priv then old
    else { pc, fetchGen, thumb, fetchPriv := priv, valid := true }
  state.setPredictor index
    (if 1 < completed then { predictor with multiSeen := true, skipRemaining := 0 }
    else if !predictor.multiSeen ∧ 1 < budget then
      { predictor with skipRemaining := refillSingleReprobe - 1 }
    else predictor)

def currentCachedUnsupported (bus : Bus σ) (m : S5l8900 σ) (state : StaticState) : Bool :=
  let c := m.cpu.core
  let pc := c.r 15
  if !state.enabled || !state.knownNegativeBypass || !mayRun c || !insnAligned c.thumb pc then false
  else
    match fetchHit m.cpu.caches pc c.isPriv with
    | none => false
    | some host =>
      let entry := state.cache (cacheIndex pc c.thumb m.cpu.caches.fetchGen)
      let insns := candidateInsns c.thumb pc
      insns ≠ 0 && entryMatches entry m.cpu.caches (fetchBytes bus m.ctx host pc) pc c.thumb
        c.isPriv (insns * insnWidth c.thumb) && !entry.supported

/-- What `s5l8900_static_a64_try` leaves. -/
structure TryResult (σ : Type) where
  retired : ℕ := 0
  knownNegative : Bool := false
  machine : S5l8900 σ
  started : List (Started σ) := []

/-- Whether the fetch cache has to be refilled before the engine can start. -/
def needsRefill (m : S5l8900 σ) (state : StaticState) : Bool :=
  let c := m.cpu.core
  state.fetchRefill && mayRun c && insnAligned c.thumb (c.r 15) &&
    (fetchHit m.cpu.caches (c.r 15) c.isPriv).isNone

/-- The part of `s5l8900_static_a64_try` before the blocks: nothing when it gives up there, else
the machine to start from. -/
def refillFetch (bus : Bus σ) (m : S5l8900 σ) (state : StaticState) :
    Option (S5l8900 σ) × StaticState :=
  if !needsRefill m state then (some m, state)
  else
    let c := m.cpu.core
    let (allowed, state) :=
      refillPredictorAllows state (c.r 15) m.cpu.caches.tlbGen c.thumb c.isPriv
    if !allowed then (none, state)
    else
      let (hit, caches) :=
        armFetchCacheTryRefill bus c.cp15.stamp m.cpu.caches (c.r 15) c.isPriv
      (if hit then some { m with cpu := ⟨c, caches⟩ } else none, state)

def s5l8900StaticA64Try (decoder : InsnDecoder) (bus : Bus σ) (runner : Runner σ) (m : S5l8900 σ)
    (maxInsns : ℕ) : TryResult σ :=
  match m.staticState with
  | none => { machine := m }
  | some state =>
    if !state.enabled || maxInsns = 0 || m.ramSize = 0 ||
        m.ramSize &&& (m.ramSize - 1) ≠ 0 then { machine := m }
    else
      match refillFetch bus m state with
      | (none, state) => { machine := { m with staticState := some state } }
      | (some ready, state) =>
        let budget := min maxInsns state.chainLimit
        let ran :=
          if state.persistent then tryPersistent decoder bus runner ready state budget
          else plainLoop decoder bus runner budget ready state budget
        let c := m.cpu.core
        let state :=
          if needsRefill m state then
            refillPredictorRecord ran.state (c.r 15) m.cpu.caches.tlbGen c.thumb c.isPriv
              ran.retired budget
          else ran.state
        let machine := { m with cpu := ran.cpu, ctx := ran.ctx, staticState := some state }
        { retired := ran.retired
          knownNegative := ran.retired ≠ 0 && ran.retired < budget &&
            currentCachedUnsupported bus machine state
          machine := machine
          started := ran.started }

def commitKnownNegativeBypass (bus : Bus σ) (m : S5l8900 σ) : Bool :=
  match m.staticState with
  | none => false
  | some state => currentCachedUnsupported bus m state

/-- `s5l8900_static_a64_set_enabled`. -/
def setStaticEnabled (m : S5l8900 σ) (enabled : Bool) : Bool × S5l8900 σ :=
  let state :=
    if enabled then some { m.staticState.getD {} with enabled := true }
    else m.staticState.map fun state ↦ { state with enabled := false }
  (true, { m with staticState := state })

/-- The switches that want an enabled engine. -/
def changeEnabled (m : S5l8900 σ) (change : StaticState → StaticState) : Bool × S5l8900 σ :=
  match m.staticState with
  | some state =>
    if state.enabled then (true, { m with staticState := some (change state) }) else (false, m)
  | none => (false, m)

/-- `s5l8900_static_a64_set_persistent`. -/
def setStaticPersistent (m : S5l8900 σ) (enabled : Bool) : Bool × S5l8900 σ :=
  if enabled then changeEnabled m fun state ↦ { state with persistent := true }
  else
    (true, { m with
      staticState := m.staticState.map fun state ↦ { state with persistent := false } })

/-- The seven capability switches, from `s5l8900_static_a64_set_indirect_branches` to
`s5l8900_static_a64_set_vfp_arithmetic`: a change drops what was decoded under the old set. -/
def setStaticFeature (m : S5l8900 σ) (feature : Feature) (enabled : Bool) : Bool × S5l8900 σ :=
  changeEnabled m fun state ↦
    if state.features feature = enabled then state
    else
      { state.invalidateDerived with
        features := Function.update state.features feature enabled }

/-- `s5l8900_static_a64_set_vfp_fp_session`. -/
def setStaticVfpFpSession (m : S5l8900 σ) (enabled : Bool) : Bool × S5l8900 σ :=
  changeEnabled m fun state ↦ { state with vfpFpSession := enabled }

/-- `s5l8900_static_a64_set_fetch_refill`. -/
def setStaticFetchRefill (m : S5l8900 σ) (enabled : Bool) : Bool × S5l8900 σ :=
  changeEnabled m fun state ↦ { state with fetchRefill := enabled }

/-- `s5l8900_static_a64_set_known_negative_bypass`. -/
def setStaticKnownNegativeBypass (m : S5l8900 σ) (enabled : Bool) : Bool × S5l8900 σ :=
  changeEnabled m fun state ↦ { state with knownNegativeBypass := enabled }

/-- `s5l8900_static_a64_set_chain_limit`. -/
def setStaticChainLimit (m : S5l8900 σ) (maxInsns : ℕ) : Bool × S5l8900 σ :=
  if maxInsns = 0 ∨ a64StaticMaxChainInsns < maxInsns then (false, m)
  else changeEnabled m fun state ↦ { state with chainLimit := maxInsns }

/-- `s5l8900_set_pre_step_hook` on the machine: an accepted request drops every decoded block. -/
def setMachineHook (m : S5l8900 σ) (fn : Bool) (targets : List Word) : Bool × S5l8900 σ :=
  match setPreStepHook m.preStep fn targets with
  | (true, hook) =>
    (true, { m with
      preStep := hook, staticState := m.staticState.map StaticState.invalidateDerived })
  | (false, _) => (false, m)

/-- What happens to a machine with an engine. The guest may leave any registers, translation
caches and memory behind, whether it stored, flushed a translation or changed its state. -/
inductive EngineEvent (σ : Type) where
  | attempt (maxInsns : ℕ)
  | guest (cpu : Cpu) (ctx : σ)
  | hook (fn : Bool) (targets : List Word)
  | enabled (on : Bool)
  | persistent (on : Bool)
  | feature (feature : Feature) (on : Bool)
  | vfpFpSession (on : Bool)
  | fetchRefill (on : Bool)
  | knownNegativeBypass (on : Bool)
  | chainLimit (maxInsns : ℕ)
  | invalidateDerived

def engineStep (decoder : InsnDecoder) (bus : Bus σ) (runner : Runner σ) (m : S5l8900 σ) :
    EngineEvent σ → S5l8900 σ
  | .attempt maxInsns => (s5l8900StaticA64Try decoder bus runner m maxInsns).machine
  | .guest cpu ctx => { m with cpu, ctx }
  | .hook fn targets => (setMachineHook m fn targets).2
  | .enabled on => (setStaticEnabled m on).2
  | .persistent on => (setStaticPersistent m on).2
  | .feature feature on => (setStaticFeature m feature on).2
  | .vfpFpSession on => (setStaticVfpFpSession m on).2
  | .fetchRefill on => (setStaticFetchRefill m on).2
  | .knownNegativeBypass on => (setStaticKnownNegativeBypass m on).2
  | .chainLimit maxInsns => (setStaticChainLimit m maxInsns).2
  | .invalidateDerived =>
    { m with staticState := m.staticState.map StaticState.invalidateDerived }

end S5LBox.Arm
