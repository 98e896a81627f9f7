import S5LBox.Soc.RunLoop
import S5LBox.Tools.HleRect

/-!
# The firmware hook

`VMFirmwareHLE.c` puts the native raster routines behind the pre-step hook of a machine, with the
site table and the arming of `ios3_hle.c`. A routine reads guest memory through the translation of
the user, publishes through the same translation, and returns through the link register. The
sites that only count or trace are in the table because arming looks at all of them; the hook is
not called at their addresses.
-/

namespace S5LBox.Hle

open S5LBox.Arm S5LBox.Soc

/-- The native routines. -/
inductive Native where
  | sampleNearestBgrx8
  | sampleNearestBgra8
  | scanline
  | polyScan
  deriving DecidableEq, Repr

/-- `ios3_hle_mode_t`, with the handler of a site that replaces. -/
inductive SiteMode where
  | observe
  | trace
  | replace (native : Native)
  deriving DecidableEq, Repr

/-- `ios3_hle_site_t`. -/
structure Site where
  va : Word
  prologue : List Word
  mode : SiteMode

/-- `g_sites`. -/
def sites : List Site :=
  [⟨0x338f61b0, [0xe92d40f0, 0xe28d700c, 0xe24dd008, 0xe3510000], .observe⟩,
    ⟨0x338f63e8, [0xe92d40f0, 0xe28d700c, 0xe92d0d00, 0xe24dd010], .observe⟩,
    ⟨0x3122b698, [0xe92d40f0, 0xe28d700c, 0xe92d0d00, 0xe1a01181, 0xe0812003, 0xed9f7a3c],
      .replace .sampleNearestBgrx8⟩,
    ⟨0x3122b8bc, [0xe92d40f0, 0xe28d700c, 0xe92d0d00, 0xe1a01181, 0xe0812003, 0xed9f7a3b],
      .replace .sampleNearestBgra8⟩,
    ⟨0x3122d02c, [0xe92d40f0, 0xe28d700c, 0xe92d0d00, 0xed9f7a4d, 0xedd17a04], .observe⟩,
    ⟨0x3122cefc, [0xe92d40f0, 0xe28d700c, 0xe92d0d00, 0xe24dd004, 0xe1a08003], .observe⟩,
    ⟨0x3122e2f0, [0xe92d4080, 0xe28d7000, 0xe1a01181, 0xe0812003, 0xe59de008], .observe⟩,
    ⟨0x3122e434, [0xe92d4080, 0xe28d7000, 0xed2d8b02, 0xe1a01181, 0xe0812003], .observe⟩,
    ⟨0x3122d180, [0xe92d40f0, 0xe28d700c, 0xe92d0d00, 0xed2d8b02, 0xe24dd060],
      .replace .scanline⟩,
    ⟨0x311e2100, [0xe92d40f0, 0xe28d700c, 0xe92d0d00, 0xed2d8b0a, 0xe24ddfb9],
      .replace .polyScan⟩,
    ⟨0x30e1fc90, [0xe92d40f0, 0xe28d700c, 0xe92d0500, 0xe24dd014, 0xe59f027c], .trace⟩,
    ⟨0x30e1abe4, [0xe92d40f0, 0xe28d700c, 0xe3a0007c, 0xeb0016bc, 0xe1a05000], .trace⟩,
    ⟨0x30e1ad6c, [0xe590c05c, 0xe12fff1c, 0xe92d4080, 0xe28d7000], .trace⟩,
    ⟨0x30e1adc0, [0xe590c060, 0xe12fff1c, 0xe92d4080, 0xe28d7000], .trace⟩]

/-- The handler of a native routine, with the spans it publishes. -/
def Native.routine (fpu : HostFpu) (r : Reg → Word) : Native → Routine (List Span)
  | .sampleNearestBgrx8 => hleSwSampleNearest fpu true r
  | .sampleNearestBgra8 => hleSwSampleNearest fpu false r
  | .scanline => hleSwScanlineKnownPaths fpu false r
  | .polyScan => hleOglPolyScanKnownRect fpu r

def siteAtPc (pc : Word) : Option Site := sites.find? fun site ↦ site.va = pc

def identityOk (site : Site) : Routine Unit :=
  site.prologue.zipIdx.forM fun (word, i) ↦ do
    let got ← readU32 (site.va + BitVec.ofNat 32 (i * 4))
    require (got = word)

/-- The loop of `ios3_hle_arm`: the sites whose prologue is there. -/
def armSites : List Site → Program hleInterface (List Word)
  | [] => pure []
  | site :: rest => do
    let identity ← (identityOk site).run
    let armed ← armSites rest
    pure (if identity.isSome then site.va :: armed else armed)

/-- The memory of a machine: `ram_base`, `ram` and `ram_size`. -/
structure Dram where
  base : Word
  host : Option HostPtr
  size : ℕ

def hleChunk (va : Word) (remaining : ℕ) : ℕ := min remaining (1024 - va.toNat % 1024)

/-- The pieces an access is made in, from `done` on: their offsets and lengths. -/
def hlePieces (va : Word) (len : ℕ) : (fuel done : ℕ) → List (ℕ × ℕ)
  | 0, _ => []
  | fuel + 1, done =>
    if len ≤ done then []
    else
      let chunk := hleChunk (va + BitVec.ofNat 32 done) (len - done)
      (done, chunk) :: hlePieces va len fuel (done + chunk)

variable {σ : Type}

/-- A byte range that `hle_read` and `hle_writev` take. -/
def hleRange (va : Word) (len : ℕ) : Bool := len ≠ 0 && va ≠ 0 && va.toNat + len ≤ 2 ^ 32

/-- The translation of a piece, if it is granted and lies in the memory: its offset there. -/
def hleTranslate (bus : Bus σ) (dram : Dram) (p : TlbStamp) (access : Access) (va : Word)
    (chunk : ℕ) (t : Caches × σ) : Option ℕ × Caches × σ :=
  let ((fsr, pa), t) := armMmuTranslate bus p t.1 t.2 va access false 0
  if fsr ≠ 0 then (none, t)
  else if pa < dram.base ∨ dram.size < (pa - dram.base).toNat + chunk then (none, t)
  else (some (pa - dram.base).toNat, t)

/-- The octets of a piece. -/
def hleLoad (bus : Bus σ) (ctx : σ) (host : HostPtr) (chunk : ℕ) : List Octet :=
  (List.range chunk).map fun i ↦ bus.hostLoad ctx (host + i)

/-- The loop of `hle_read`. -/
def hleReadLoop (bus : Bus σ) (dram : Dram) (p : TlbStamp) (host : HostPtr) (va : Word) :
    List (ℕ × ℕ) → Caches × σ → Option (List Octet) × Caches × σ
  | [], t => (some [], t)
  | (done, chunk) :: rest, t =>
    match hleTranslate bus dram p .read (va + BitVec.ofNat 32 done) chunk t with
    | (none, t) => (none, t)
    | (some offset, t) =>
      match hleReadLoop bus dram p host va rest t with
      | (none, t') => (none, t')
      | (some data, t') => (some (hleLoad bus t.2 (host + offset) chunk ++ data), t')

/-- `hle_read` on the machine it belongs to. -/
def hleRead (bus : Bus σ) (dram : Dram) (p : TlbStamp) : Program.Handler hleInterface (Caches × σ) :=
  fun op t ↦
    match dram.host with
    | none => (none, t)
    | some host =>
      if hleRange op.va op.len then
        hleReadLoop bus dram p host op.va (hlePieces op.va op.len op.len 0) t
      else (none, t)

/-- The first loop of `hle_writev` on a span: whether every piece may be written. -/
def hleValidate (bus : Bus σ) (dram : Dram) (p : TlbStamp) (va : Word) :
    List (ℕ × ℕ) → Caches × σ → Bool × Caches × σ
  | [], t => (true, t)
  | (done, chunk) :: rest, t =>
    match hleTranslate bus dram p .write (va + BitVec.ofNat 32 done) chunk t with
    | (none, t) => (false, t)
    | (some _, t) => hleValidate bus dram p va rest t

/-- The first loop of `hle_writev`. -/
def hleValidateSpans (bus : Bus σ) (dram : Dram) (p : TlbStamp) :
    List Span → Caches × σ → Bool × Caches × σ
  | [], t => (true, t)
  | span :: rest, t =>
    if !hleRange span.va span.src.length then (false, t)
    else
      match hleValidate bus dram p span.va
          (hlePieces span.va span.src.length span.src.length 0) t with
      | (false, t) => (false, t)
      | (true, t) => hleValidateSpans bus dram p rest t

/-- `memcpy` to the memory of the host. -/
def hleStore (bus : Bus σ) (ctx : σ) (host : HostPtr) (data : List Octet) : σ :=
  data.zipIdx.foldl (fun ctx (octet, i) ↦ bus.hostStore ctx (host + i) octet) ctx

/-- The second loop of `hle_writev` on a span. It translates again, and stores whatever the
translation answers. -/
def hlePublish (bus : Bus σ) (dram : Dram) (p : TlbStamp) (host : HostPtr) (span : Span) :
    List (ℕ × ℕ) → Caches × σ → Caches × σ
  | [], t => t
  | (done, chunk) :: rest, t =>
    let ((_, pa), t) :=
      armMmuTranslate bus p t.1 t.2 (span.va + BitVec.ofNat 32 done) .write false 0
    let ctx := hleStore bus t.2 (host + (pa - dram.base).toNat) ((span.src.drop done).take chunk)
    hlePublish bus dram p host span rest (t.1, ctx)

def oracleMaxSpans : ℕ := 480

/-- `hle_writev`, and `hle_write` on a single span. -/
def hleWritev (bus : Bus σ) (dram : Dram) (p : TlbStamp) (spans : List Span) (t : Caches × σ) :
    Bool × Caches × σ :=
  match dram.host with
  | none => (false, t)
  | some host =>
    if spans = [] ∨ oracleMaxSpans < spans.length then (false, t)
    else
      match hleValidateSpans bus dram p spans t with
      | (false, t) => (false, t)
      | (true, t) =>
        (true, spans.foldl (fun t span ↦ hlePublish bus dram p host span
          (hlePieces span.va span.src.length span.src.length 0) t) t)

/-- The globals of the two files; `active` is whether the machine is `g_machine`, and `armed` are
the addresses of the armed sites. -/
structure HleState where
  active : Bool
  space : Word := 0
  pending : Bool := false
  armed : List Word := []
  ttbr0 : Word := 0

def ttbr0Base (p : Cp15) : Word := p.ttbr0 &&& ((0xffffffff : Word) <<< (14 - (p.ttbcr &&& 7).toNat))

def notePending (armed : List Word) : Bool := sites.any fun site ↦ !armed.contains site.va

/-- `ios3_hle_arm` in an address space. -/
def ios3HleArm (bus : Bus σ) (dram : Dram) (p : TlbStamp) (space : Word) (hle : HleState)
    (t : Caches × σ) : HleState × Caches × σ :=
  let (armed, t) := Program.run (hleRead bus dram p) (armSites sites) t
  ({ hle with armed, ttbr0 := space }, t)

/-- What a handler does once it has its spans; an empty list is a routine with nothing to
publish. -/
def hlePublishSpans (bus : Bus σ) (dram : Dram) (p : TlbStamp) (spans : List Span)
    (t : Caches × σ) : Bool × Caches × σ :=
  if spans = [] then (true, t) else hleWritev bus dram p spans t

/-- A native routine in the place of the guest's. -/
def runNative (fpu : HostFpu) (bus : Bus σ) (dram : Dram) (native : Native) (cpu : Cpu) (ctx : σ) :
    Bool × Cpu × σ :=
  let c := cpu.core
  match Program.run (hleRead bus dram c.cp15.stamp) (native.routine fpu c.r).run
      (cpu.caches, ctx) with
  | (none, caches, ctx) => (false, ⟨c, caches⟩, ctx)
  | (some spans, t) =>
    match hlePublishSpans bus dram c.cp15.stamp spans t with
    | (false, caches, ctx) => (false, ⟨c, caches⟩, ctx)
    | (true, caches, ctx) => (true, ⟨c.setR 15 (c.r 14), caches⟩, ctx)

def ios3HleStep (fpu : HostFpu) (bus : Bus σ) (dram : Dram) (hle : HleState) (pc space : Word)
    (cpu : Cpu) (ctx : σ) : Bool × Cpu × σ :=
  match sites.find? fun site ↦ hle.armed.contains site.va && site.va = pc with
  | none => (false, cpu, ctx)
  | some site =>
    if hle.ttbr0 ≠ 0 ∧ space ≠ hle.ttbr0 then (false, cpu, ctx)
    else
      match site.mode with
      | .replace native => runNative fpu bus dram native cpu ctx
      | _ => (false, cpu, ctx)

/-- The arming at the head of `hle_pre_step`, and whether the step goes on to the site. -/
def hleRearm (bus : Bus σ) (dram : Dram) (hle : HleState) (site : Site) (cpu : Cpu) (ctx : σ) :
    Bool × HleState × Cpu × σ :=
  let c := cpu.core
  let p := c.cp15.stamp
  let space := ttbr0Base c.cp15
  if hle.space = 0 then
    let (hle, caches, ctx) := ios3HleArm bus dram p space hle (cpu.caches, ctx)
    if hle.armed = [] then (false, hle, ⟨c, caches⟩, ctx)
    else (true, { hle with space, pending := notePending hle.armed }, ⟨c, caches⟩, ctx)
  else if hle.pending ∧ space = hle.space ∧ !hle.armed.contains site.va then
    let (hle, caches, ctx) := ios3HleArm bus dram p hle.space hle (cpu.caches, ctx)
    (true, { hle with pending := notePending hle.armed }, ⟨c, caches⟩, ctx)
  else (true, hle, cpu, ctx)

def hlePreStep (fpu : HostFpu) (bus : Bus σ) (ramBase : Word) (ram : Option HostPtr) :
    Hook HleState σ := fun hle m ↦
  let c := m.cpu.core
  if !hle.active ∨ c.isPriv then (false, hle, m.cpu, m.ctx)
  else
    let pc := c.r 15 &&& ~~~1
    match siteAtPc pc with
    | none => (false, hle, m.cpu, m.ctx)
    | some site =>
      let dram : Dram := ⟨ramBase, ram, m.ramSize⟩
      match hleRearm bus dram hle site m.cpu m.ctx with
      | (false, hle, cpu, ctx) => (false, hle, cpu, ctx)
      | (true, hle, cpu, ctx) =>
        let (handled, cpu, ctx) := ios3HleStep fpu bus dram hle pc (ttbr0Base c.cp15) cpu ctx
        (handled, hle, cpu, ctx)

/-- The addresses `vm_firmware_hle_enable` asks the machine to stop at. -/
def hleTargets : List Word :=
  sites.filterMap fun site ↦
    match site.mode with
    | .replace _ => some site.va
    | _ => none

def vmFirmwareHleEnable (m : S5l8900 σ) : Bool × S5l8900 σ × HleState :=
  if hleTargets = [] ∨ preStepTargetMax < hleTargets.length then (false, m, { active := false })
  else
    match setMachineHook m true hleTargets with
    | (true, m) => (true, m, { active := true })
    | (false, m) => (false, m, { active := false })

def vmFirmwareHleRelease (hle : HleState) : HleState :=
  if hle.active then { active := false } else hle

end S5LBox.Hle
