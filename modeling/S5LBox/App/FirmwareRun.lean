import S5LBox.App.FirmwareHle
import S5LBox.Soc.RunReturns

/-!
# Runs with the firmware hook

The hook returns through the link register, so that a run with it is bounded as long as no
replaced routine was called with a link register that names its own entry. Where one is, the run
goes round for ever without retiring anything.
-/

namespace S5LBox.Hle

open S5LBox.Arm S5LBox.Soc

variable {σ : Type} {fpu : HostFpu} {bus : Bus σ} {dram : Dram} {ramBase : Word}
variable {ram : Option HostPtr}

theorem hleRearm_core (hle : HleState) (site : Site) (cpu : Cpu) (ctx : σ) :
    (hleRearm bus dram hle site cpu ctx).2.2.1.core = cpu.core := by
  rw [hleRearm]
  simp only
  split
  · split
    · rfl
    · rfl
  · split
    · rfl
    · rfl

/-- The core after a step that was offered: returned through the link register if it was taken,
else untouched. -/
def HandsBack (c : Core) (handled : Bool) (cpu : Cpu) : Prop :=
  cpu.core = if handled then c.setR 15 (c.r 14) else c

theorem runNative_core (native : Native) (cpu : Cpu) (ctx : σ) :
    HandsBack cpu.core (runNative fpu bus dram native cpu ctx).1
      (runNative fpu bus dram native cpu ctx).2.1 := by
  simp only [runNative]
  generalize Program.run (hleRead bus dram cpu.core.cp15.stamp)
    (native.routine fpu cpu.core.r).run (cpu.caches, ctx) = answer
  obtain ⟨_ | spans, t⟩ := answer
  · rfl
  · simp only
    generalize hlePublishSpans bus dram cpu.core.cp15.stamp spans t = published
    obtain ⟨_ | _, t⟩ := published
    · rfl
    · rfl

theorem ios3HleStep_core (hle : HleState) (pc space : Word) (cpu : Cpu) (ctx : σ) :
    HandsBack cpu.core (ios3HleStep fpu bus dram hle pc space cpu ctx).1
      (ios3HleStep fpu bus dram hle pc space cpu ctx).2.1 := by
  rw [ios3HleStep]
  split
  · rfl
  · split
    · rfl
    · split
      · exact runNative_core _ cpu ctx
      · rfl

theorem hlePreStep_core (hle : HleState) (m : S5l8900 σ) :
    HandsBack m.cpu.core (hlePreStep fpu bus ramBase ram hle m).1
      (hlePreStep fpu bus ramBase ram hle m).2.2.1 := by
  rw [hlePreStep]
  simp only
  split
  · rfl
  · cases siteAtPc (m.cpu.core.r 15 &&& ~~~1) with
    | none => rfl
    | some site =>
      have hrearm := @hleRearm_core σ bus ⟨ramBase, ram, m.ramSize⟩ hle site m.cpu m.ctx
      simp only
      generalize hleRearm bus ⟨ramBase, ram, m.ramSize⟩ hle site m.cpu m.ctx = rearmed at *
      obtain ⟨_ | _, after, cpu, ctx⟩ := rearmed
      · exact hrearm
      · simp only at hrearm ⊢
        rw [← hrearm]
        exact ios3HleStep_core ..

theorem returnsThroughLr_hlePreStep : ReturnsThroughLr (hlePreStep fpu bus ramBase ram) where
  taken hle m h := (hlePreStep_core hle m).trans (if_pos h)
  declined hle m h := (hlePreStep_core hle m).trans (if_neg (by simp [h]))

/-- A run of the loop with the firmware hook returns within two rounds for each instruction and
two more, with no more retired than was asked for, and takes a pending interrupt after one further
replacement at most, if no replacement is taken that returns to its own entry. -/
theorem firmware_run_returns (b : Board σ) (ramBase : Word) (ram : Option HostPtr)
    (m : S5l8900 σ) (hle : HleState) (max : ℕ)
    (hnot : ∀ s, Reaches b (hlePreStep b.fpu b.bus ramBase ram) max ⟨m, hle, 0⟩ s →
      ¬Reenters (hlePreStep b.fpu b.bus ramBase ram) s) :
    (∃ count ≤ 2 * max + 2, ∃ last status,
      turns b (hlePreStep b.fpu b.bus ramBase ram) max count ⟨m, hle, 0⟩ = .stop last status ∧
        last.n ≤ max) ∧
    ∀ s, Reaches b (hlePreStep b.fpu b.bus ramBase ram) max ⟨m, hle, 0⟩ s → s.n < max →
      Pending s.machine.cpu.core →
        TakesInterrupt s (turn b (hlePreStep b.fpu b.bus ramBase ram) max s) ∨
        ∃ next, turn b (hlePreStep b.fpu b.bus ramBase ram) max s = .again next ∧ next.n = s.n ∧
          (Pending next.machine.cpu.core →
            TakesInterrupt next (turn b (hlePreStep b.fpu b.bus ramBase ram) max next)) := by
  have hreturns := @returnsThroughLr_hlePreStep σ b.fpu b.bus ramBase ram
  constructor
  · obtain ⟨count, hcount, last, status, hstop, hlast⟩ :=
      turns_stop hreturns ⟨m, hle, 0⟩ (Nat.zero_le max) hnot
    refine ⟨count, hcount.trans ?_, last, status, hstop, hlast⟩
    rw [roundsLeft]
    split
    · rfl
    · exact Nat.le_succ _
  · intro s hs hn hpending
    exact turn_pending_or hreturns hn hpending fun next hround ↦ hnot next (hs.again hround)

theorem hleTranslate_off {p : TlbStamp} (hoff : p.flag sctlrM = false) (access : Access) (va : Word)
    (chunk : ℕ) (t : Caches × σ) : (hleTranslate bus dram p access va chunk t).2 = t := by
  simp only [hleTranslate, armMmuTranslate, hoff, Bool.not_false, if_true]
  split
  · rfl
  · split
    · rfl
    · rfl

theorem hleReadLoop_keeps {β : Type} {p : TlbStamp} {f : Caches × σ → β}
    (htranslate : ∀ va chunk t, f (hleTranslate bus dram p .read va chunk t).2 = f t)
    (host : HostPtr) (va : Word) (pieces : List (ℕ × ℕ)) (t : Caches × σ) :
    f (hleReadLoop bus dram p host va pieces t).2 = f t := by
  induction pieces generalizing t with
  | nil => rfl
  | cons piece rest ih =>
    have hsame := htranslate (va + BitVec.ofNat 32 piece.1) piece.2 t
    rw [hleReadLoop]
    generalize hleTranslate bus dram p .read (va + BitVec.ofNat 32 piece.1) piece.2 t = answer at *
    obtain ⟨_ | offset, after⟩ := answer
    · exact hsame
    · have hrest := ih after
      simp only at hsame ⊢
      generalize hleReadLoop bus dram p host va rest after = tail at *
      obtain ⟨_ | data, final⟩ := tail
      · exact hrest.trans hsame
      · exact hrest.trans hsame

theorem hleRun_keeps {α β : Type} {p : TlbStamp} {f : Caches × σ → β}
    (htranslate : ∀ va chunk t, f (hleTranslate bus dram p .read va chunk t).2 = f t)
    (program : Program hleInterface α) (t : Caches × σ) :
    f (Program.run (hleRead bus dram p) program t).2 = f t := by
  apply Program.run_invariant fun after ↦ f after = f t
  · intro op after hafter
    refine Eq.trans ?_ hafter
    rw [hleRead]
    split
    · rfl
    · split
      · exact hleReadLoop_keeps htranslate _ _ _ after
      · rfl
  · rfl

/-- A routine that is called with the translation off and has nothing to publish only returns. -/
theorem runNative_off {native : Native} {cpu : Cpu} {ctx : σ}
    (hoff : cpu.core.cp15.stamp.flag sctlrM = false)
    (hspans : (Program.run (hleRead bus dram cpu.core.cp15.stamp)
      (native.routine fpu cpu.core.r).run (cpu.caches, ctx)).1 = some []) :
    runNative fpu bus dram native cpu ctx =
      (true, ⟨cpu.core.setR 15 (cpu.core.r 14), cpu.caches⟩, ctx) := by
  have hsame : (Program.run (hleRead bus dram cpu.core.cp15.stamp)
      (native.routine fpu cpu.core.r).run (cpu.caches, ctx)).2 = (cpu.caches, ctx) :=
    hleRun_keeps (f := id) (hleTranslate_off hoff .read) _ _
  simp only [runNative]
  generalize Program.run (hleRead bus dram cpu.core.cp15.stamp)
    (native.routine fpu cpu.core.r).run (cpu.caches, ctx) = answer at *
  obtain ⟨spans, t⟩ := answer
  simp only at hspans hsame
  rw [hspans, hsame]
  rfl

/-- The words of a memory that describe a scanline of no pixels: an argument list, a context, a
surface and a state. -/
def emptyScanWord (va : Word) : Word :=
  if va = 0x100c then 0x0008
  else if va = 0x1010 then 0x1100
  else if va = 0x1100 then 0x1200
  else if va = 0x1204 then 0x1400
  else if va = 0x12fc then 0x1500
  else if va = 0x130c then 4
  else if va = 0x131c then 1
  else if va = 0x143c then 2
  else if va = 0x1600 then 0xe1a00000
  else 0

def emptyScanBus : Bus Unit :=
  { constantBus 0 with
    read32 := fun _ va ↦ (emptyScanWord va, ())
    hostLoad := fun _ host ↦
      octetAt (leOctets (emptyScanWord (0x1000 + BitVec.ofNat 32 (host / 4 * 4)))) (host % 4) }

/-- A board whose devices have nothing to do. -/
def emptyScanBoard : Board Unit where
  fpu := idleFpu
  bus := emptyScanBus
  decoder := ⟨fun _ _ _ _ ↦ none, fun _ _ _ _ ↦ none⟩
  runner := fun _ _ guest ↦ (-1, guest)
  devices :=
    { clock := fun _ ↦ ⟨false, 0, 0, 0, 0, 0⟩
      setAccum := fun _ _ ↦ ()
      refresh := fun _ _ ↦ ()
      irqLine := fun _ ↦ false
      fiqLine := fun _ ↦ false }

/-- A user's call of `sw_scanline` for no pixels, with the hook installed. -/
def emptyScan (lr : Word) : S5l8900 Unit :=
  (vmFirmwareHleEnable
    { cpu := ⟨{ userCpu.core with
        r := fun n ↦ if n = 13 then 0x1000 else if n = 14 then lr
          else if n = 15 then 0x3122d180 else 0
        cp15 := { ttbr0 := 0x4000 } }, {}⟩
      ctx := ()
      ramSize := 0x1000 }).2.1

/-- The sites as the address space of the call armed them. -/
def emptyScanHle : HleState where
  active := true
  space := 0x4000
  pending := true
  armed := [0x3122d180]
  ttbr0 := 0x4000

abbrev emptyScanHook : Hook HleState Unit := hlePreStep idleFpu emptyScanBus 0x1000 (some 0)

theorem emptyScan_spans (lr : Word) (h : lr = 0x3122d180 ∨ lr = 0x1600) :
    (Program.run (hleRead emptyScanBus ⟨0x1000, some 0, 0x1000⟩
      (emptyScan lr).cpu.core.cp15.stamp)
      (Native.scanline.routine idleFpu (emptyScan lr).cpu.core.r).run
      ((emptyScan lr).cpu.caches, ())).1 = some [] := by
  rcases h with rfl | rfl
  · decide +kernel
  · decide +kernel

/-- A call of the scanline with its own entry in the link register is where it was. -/
theorem turn_emptyScan :
    turn emptyScanBoard emptyScanHook 1 ⟨emptyScan 0x3122d180, emptyScanHle, 0⟩ =
      .again ⟨emptyScan 0x3122d180, emptyScanHle, 0⟩ := by
  have hregs : (emptyScan 0x3122d180).cpu.core.setR 15 ((emptyScan 0x3122d180).cpu.core.r 14) =
      (emptyScan 0x3122d180).cpu.core := by
    have hself : Function.update (emptyScan 0x3122d180).cpu.core.r 15
        ((emptyScan 0x3122d180).cpu.core.r 14) = (emptyScan 0x3122d180).cpu.core.r :=
      Function.update_eq_self 15 (emptyScan 0x3122d180).cpu.core.r
    rw [Core.setR, hself]
  have hnative := @runNative_off Unit idleFpu emptyScanBus ⟨0x1000, some 0, 0x1000⟩ .scanline
    (emptyScan 0x3122d180).cpu () (by decide +kernel) (emptyScan_spans _ (.inl rfl))
  rw [hregs] at hnative
  have hhook : emptyScanHook emptyScanHle (emptyScan 0x3122d180) =
      (true, emptyScanHle, (emptyScan 0x3122d180).cpu, ()) := by
    change (fun answer : Bool × Cpu × Unit ↦ (answer.1, emptyScanHle, answer.2.1, answer.2.2))
      (runNative idleFpu emptyScanBus ⟨0x1000, some 0, 0x1000⟩ .scanline
        (emptyScan 0x3122d180).cpu ()) = _
    rw [hnative]
  have hoffer : offer emptyScanHook ⟨emptyScan 0x3122d180, emptyScanHle, 0⟩ =
      (true, ⟨emptyScan 0x3122d180, emptyScanHle, 0⟩) := by
    rw [offer, if_pos (by decide +kernel), hhook]
  rw [turn, if_neg (by decide), hoffer]
  rfl

/-- A user who calls the scanline for no pixels with its own entry in the link register is
replaced for ever. -/
theorem not_firmware_run_returns :
    ¬∀ (b : Board Unit) (ramBase : Word) (ram : Option HostPtr) (m : S5l8900 Unit)
      (hle : HleState) (max : ℕ), ∃ count last status,
        turns b (hlePreStep b.fpu b.bus ramBase ram) max count ⟨m, hle, 0⟩ = .stop last status := by
  intro h
  obtain ⟨count, last, status, hstop⟩ :=
    h emptyScanBoard 0x1000 (some 0) (emptyScan 0x3122d180) emptyScanHle 1
  have hstays : turns emptyScanBoard emptyScanHook 1 count
      ⟨emptyScan 0x3122d180, emptyScanHle, 0⟩ =
        .again ⟨emptyScan 0x3122d180, emptyScanHle, 0⟩ := by
    clear hstop
    induction count with
    | zero => rfl
    | succ count ih => exact turns_again ih turn_emptyScan
  have hends : turns emptyScanBoard emptyScanHook 1 count
      ⟨emptyScan 0x3122d180, emptyScanHle, 0⟩ = .stop last status := hstop
  rw [hstays] at hends
  contradiction

/-- The same call from somewhere else is over after its two rounds and the one that notices. -/
theorem firmware_run_returns_emptyScan : ∃ count ≤ 2 * 1 + 2, ∃ last status,
      turns emptyScanBoard emptyScanHook 1 count ⟨emptyScan 0x1600, emptyScanHle, 0⟩ =
        .stop last status ∧ last.n ≤ 1 := by
  refine (firmware_run_returns emptyScanBoard 0x1000 (some 0) (emptyScan 0x1600) emptyScanHle 1
    fun s hs ↦ ?_).1
  have hrounds : ∀ count < 3,
      (match turns emptyScanBoard emptyScanHook 1 count ⟨emptyScan 0x1600, emptyScanHle, 0⟩ with
      | .again s => decide (Reenters emptyScanHook s)
      | .stop _ _ => false) = false := by
    decide +kernel
  have hends : ∃ last status,
      turns emptyScanBoard emptyScanHook 1 3 ⟨emptyScan 0x1600, emptyScanHle, 0⟩ =
        .stop last status := ⟨_, _, rfl⟩
  obtain ⟨count, hcount⟩ := exists_turns_of_reaches hs
  obtain ⟨last, status, hstop⟩ := hends
  change turns emptyScanBoard emptyScanHook 1 count ⟨emptyScan 0x1600, emptyScanHle, 0⟩ = _
    at hcount
  have hlt : count < 3 := by
    by_contra hge
    rw [turns_of_stop (by omega) hstop] at hcount
    contradiction
  have hround := hrounds count hlt
  rw [hcount] at hround
  exact of_decide_eq_false hround

end S5LBox.Hle
