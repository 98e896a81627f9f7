import S5LBox.Arm.Tlb

/-!
# The reference memory

Accesses that walk the page tables every time and go through the bus callbacks. Along the way the
reference records whether a walk ever read words that have changed since the last flush: the
architecture promises nothing for an access through such a mapping.
-/

namespace S5LBox.Arm

variable {σ : Type}

/-- The octets `f 0`, `f 1`, … as a little-endian number. -/
def littleEndian (f : ℕ → Octet) : (count : ℕ) → Word
  | 0 => 0
  | count + 1 => littleEndian f count ||| ((f count).setWidth 32 <<< (8 * count))

/-- Storing the octets of a value one after the other. -/
def storeOctets (put : σ → ℕ → Octet → σ) (ctx : σ) (value : Word) : (count : ℕ) → σ
  | 0 => ctx
  | count + 1 => put (storeOctets put ctx value count) count (octetOf value count)

/-- A bus with plain memory behind it: wide accesses are octet accesses, reads and waiting change
nothing, and a host pointer to a block exposes exactly the octets of the block. -/
structure RamBus (bus : Bus σ) : Prop where
  read : ∀ width ctx pa, busRead bus width ctx pa =
    (littleEndian (fun i ↦ (bus.read8 ctx (pa + BitVec.ofNat 32 i)).1) width.bytes, ctx)
  write : ∀ width ctx pa value, busWrite bus width ctx pa value =
    storeOctets (fun ctx i octet ↦ bus.write8 ctx (pa + BitVec.ofNat 32 i) octet) ctx value
      width.bytes
  load : ∀ hostRam, bus.hostRam = some hostRam → ∀ pa n host, hostRam pa n = some host →
    ∀ ctx, ∀ i < n, bus.hostLoad ctx (host + i) = (bus.read8 ctx (pa + BitVec.ofNat 32 i)).1
  store : ∀ hostRam, bus.hostRamWrite = some hostRam → ∀ pa n host, hostRam pa n = some host →
    ∀ ctx octet, ∀ i < n,
      bus.hostStore ctx (host + i) octet = bus.write8 ctx (pa + BitVec.ofNat 32 i) octet
  wait : ∀ wait, bus.waitForInterrupt = some wait → ∀ ctx, (wait ctx).2 = ctx
  noSvc : bus.privilegedSvcHandler = none

/-- The bus without host pointers: every access is a callback. -/
def Bus.slow (bus : Bus σ) : Bus σ := { bus with hostRam := none, hostRamWrite := none }

theorem RamBus.slow {bus : Bus σ} (h : RamBus bus) : RamBus bus.slow where
  read
    | .byte => h.read .byte
    | .half => h.read .half
    | .word => h.read .word
  write
    | .byte => h.write .byte
    | .half => h.write .half
    | .word => h.write .word
  load _ hnone := nomatch hnone
  store _ hnone := nomatch hnone
  wait := h.wait
  noSvc := h.noSvc

theorem RamBus.read32 {bus : Bus σ} (h : RamBus bus) (ctx : σ) (pa : Word) :
    (bus.read32 ctx pa).2 = ctx := congrArg Prod.snd (h.read .word ctx pa)

theorem RamBus.read8 {bus : Bus σ} (h : RamBus bus) (ctx : σ) (pa : Word) :
    (bus.read8 ctx pa).2 = ctx := congrArg Prod.snd (h.read .byte ctx pa)

/-- The memory, as it is and as it was at the last flush, and whether every walk so far has read
words that are the same in both. -/
structure Walked (σ : Type) where
  ctx : σ
  flushed : σ
  kept : Bool

def refTranslate (bus : Bus σ) (p : TlbStamp) (s : Walked σ) (va : Word) (acc : Access)
    (priv : Bool) (pa : Word) : (Word × Word) × Walked σ :=
  ((mmuWalk bus p s.ctx va acc priv pa).1,
    { s with kept := s.kept && walkWords bus p s.flushed va = walkWords bus p s.ctx va })

/-- The octets of a read that leaves its page. -/
def refReadCrossing (bus : Bus σ) (p : TlbStamp) (va : Word) (priv : Bool) :
    (offsets : List ℕ) → (pagePa value : Word) → Walked σ → Except Fault Word × Walked σ
  | [], _, value, s => (.ok value, s)
  | i :: rest, pagePa, value, s =>
    let a := va + BitVec.ofNat 32 i
    let ((fsr, pa), s) :=
      if i = 0 ∨ a &&& 0xfff = 0 then refTranslate bus p s a .read priv pagePa
      else ((0, pagePa), s)
    if fsr ≠ 0 then (.error ⟨fsr, a⟩, s)
    else
      let pagePa := pa &&& ~~~0xfff
      let octet := (bus.read8 s.ctx (pagePa ||| (a &&& 0xfff))).1
      refReadCrossing bus p va priv rest pagePa (value ||| (octet.setWidth 32 <<< (8 * i))) s

def refWriteCrossing (bus : Bus σ) (p : TlbStamp) (va value : Word) (priv : Bool) :
    (offsets : List ℕ) → (pagePa : Word) → Walked σ → Option Fault × Walked σ
  | [], _, s => (none, s)
  | i :: rest, pagePa, s =>
    let a := va + BitVec.ofNat 32 i
    let ((fsr, pa), s) :=
      if i = 0 ∨ a &&& 0xfff = 0 then refTranslate bus p s a .write priv pagePa
      else ((0, pagePa), s)
    if fsr ≠ 0 then (some ⟨fsr, a⟩, s)
    else
      let pagePa := pa &&& ~~~0xfff
      let ctx := bus.write8 s.ctx (pagePa ||| (a &&& 0xfff)) (octetOf value i)
      refWriteCrossing bus p va value priv rest pagePa { s with ctx := ctx }

def refLoad (bus : Bus σ) (width : Width) (p : TlbStamp) (va : Word) (priv : Bool)
    (s : Walked σ) : Except Fault Word × Walked σ :=
  if memCrossesPage va width.bytes then
    refReadCrossing bus p va priv (List.range width.bytes) 0 0 s
  else
    let ((fsr, pa), s) := refTranslate bus p s va .read priv 0
    if fsr ≠ 0 then (.error ⟨fsr, va⟩, s) else (.ok (busRead bus width s.ctx pa).1, s)

def refStore (bus : Bus σ) (width : Width) (p : TlbStamp) (va value : Word) (priv : Bool)
    (s : Walked σ) : Option Fault × Walked σ :=
  if memCrossesPage va width.bytes then
    refWriteCrossing bus p va value priv (List.range width.bytes) 0 s
  else
    let ((fsr, pa), s) := refTranslate bus p s va .write priv 0
    if fsr ≠ 0 then (some ⟨fsr, va⟩, s)
    else (none, { s with ctx := busWrite bus width s.ctx pa value })

def refFetch (bus : Bus σ) (p : TlbStamp) (pc : Word) (priv thumb : Bool) (s : Walked σ) :
    Except Word Word × Walked σ :=
  let ((fsr, pa), s) := refTranslate bus p s pc .fetch priv 0
  if fsr ≠ 0 then (.error fsr, s) else (.ok (busRead bus (fetchWidth thumb) s.ctx pa).1, s)

/-- The requests of an instruction over the reference memory. -/
def refHandler (bus : Bus σ) : Program.Handler armInterface (Walked σ)
  | .load width regs va priv, s => refLoad bus width regs va priv s
  | .store width regs va value priv, s => refStore bus width regs va value priv s
  | .translate regs va acc priv, s =>
    let ((fsr, _), s) := refTranslate bus regs s va acc priv 0
    (fsr, s)
  | .fetch regs pc priv thumb, s => refFetch bus regs pc priv thumb s
  | .flush _, s => ((), { s with flushed := s.ctx })
  | .waitForInterrupt, s => ((), s)
  | .privilegedSvc .., s => (none, s)

variable {bus : Bus σ} {p : TlbStamp} {va : Word} {priv : Bool}

/-- What `refTranslate` records. -/
theorem kept_refTranslate {s : Walked σ}
    (h : (s.kept && decide (walkWords bus p s.flushed va = walkWords bus p s.ctx va)) = true) :
    s.kept = true ∧ walkWords bus p s.flushed va = walkWords bus p s.ctx va := by
  simpa using h

theorem kept_refReadCrossing {offsets : List ℕ} {pagePa value : Word} {s : Walked σ}
    (h : (refReadCrossing bus p va priv offsets pagePa value s).2.kept = true) : s.kept = true := by
  induction offsets generalizing pagePa value s with
  | nil => exact h
  | cons i rest ih =>
    rw [refReadCrossing] at h
    simp only at h
    split at h <;> split at h
    · exact (kept_refTranslate h).1
    · exact (kept_refTranslate (ih h)).1
    · exact h
    · exact ih h

theorem kept_refWriteCrossing {offsets : List ℕ} {value pagePa : Word} {s : Walked σ}
    (h : (refWriteCrossing bus p va value priv offsets pagePa s).2.kept = true) :
    s.kept = true := by
  induction offsets generalizing pagePa s with
  | nil => exact h
  | cons i rest ih =>
    rw [refWriteCrossing] at h
    simp only at h
    split at h <;> split at h
    · exact (kept_refTranslate h).1
    · have hrest := ih h
      exact (kept_refTranslate hrest).1
    · exact h
    · have hrest := ih h
      exact hrest

theorem kept_refHandler (op : ArmOp) (s : Walked σ) (h : (refHandler bus op s).2.kept = true) :
    s.kept = true := by
  cases op with
  | load width regs va priv =>
    simp only [refHandler, refLoad] at h
    split at h
    · exact kept_refReadCrossing h
    split at h <;> exact (kept_refTranslate h).1
  | store width regs va value priv =>
    simp only [refHandler, refStore] at h
    split at h
    · exact kept_refWriteCrossing h
    split at h <;> exact (kept_refTranslate h).1
  | translate regs va acc priv => exact (kept_refTranslate h).1
  | fetch regs pc priv thumb =>
    simp only [refHandler, refFetch] at h
    split at h <;> exact (kept_refTranslate h).1
  | flush regs => exact h
  | waitForInterrupt => exact h
  | privilegedSvc c pc encoding => exact h

end S5LBox.Arm
