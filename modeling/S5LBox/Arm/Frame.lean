import S5LBox.Arm.Step

/-!
# What an instruction leaves alone

Frames are stated by erasure: two cores agree on everything but certain fields when erasing
those fields makes them equal. Three erasures are used, for what an ordinary register
instruction changes (`quiet`), for what User mode may change (`confined`) and for what an
instruction that faults may have changed (`restorable`).
-/

namespace S5LBox.Arm

variable {mask : Word} {c c' : Core}

theorem or_and_of_disjoint {bit : Word} (a : Word) (h : bit &&& mask = 0) :
    (a ||| bit) &&& mask = a &&& mask := by
  ext i hi
  have hi' := congrArg (fun w : Word ↦ w[i]) h
  simp only [BitVec.getElem_and, BitVec.getElem_or] at hi' ⊢
  cases hb : bit[i] <;> cases hm : mask[i] <;> simp_all

theorem clear_and_of_disjoint {bit : Word} (a : Word) (h : bit &&& mask = 0) :
    (a &&& ~~~bit) &&& mask = a &&& mask := by
  ext i hi
  have hi' := congrArg (fun w : Word ↦ w[i]) h
  simp only [BitVec.getElem_and, BitVec.getElem_not] at hi' ⊢
  cases hb : bit[i] <;> cases hm : mask[i] <;> simp_all

theorem and_eq_of_and_eq {a b narrow : Word} (h : a &&& mask = b &&& mask)
    (hnarrow : mask &&& narrow = narrow) : a &&& narrow = b &&& narrow := by
  rw [← hnarrow, ← BitVec.and_assoc, ← BitVec.and_assoc, h]

theorem and_and_disjoint {a other : Word} (h : mask &&& other = 0) :
    (a &&& mask) &&& other = 0 := by
  rw [BitVec.and_assoc, h]
  exact BitVec.and_zero

theorem and_and_self (a mask : Word) : a &&& mask &&& mask = a &&& mask := by
  rw [BitVec.and_assoc, BitVec.and_self]

/-- The program counter is aligned for the instruction set the CPSR selects. -/
def Aligned (cpsr pc : Word) : Prop :=
  if cpsr &&& cpsrT = 0 then pc &&& 3 = 0 else pc &&& 1 = 0

instance (cpsr pc : Word) : Decidable (Aligned cpsr pc) := by
  unfold Aligned
  infer_instance

theorem and_three_eq_zero_iff (pc : Word) : pc &&& 3 = 0 ↔ pc.toNat % 4 = 0 := by
  rw [← BitVec.toNat_inj, BitVec.toNat_and]
  exact Eq.congr_left (Nat.and_two_pow_sub_one_eq_mod pc.toNat 2)

theorem and_one_eq_zero_iff (pc : Word) : pc &&& 1 = 0 ↔ pc.toNat % 2 = 0 := by
  rw [← BitVec.toNat_inj, BitVec.toNat_and]
  exact Eq.congr_left (Nat.and_two_pow_sub_one_eq_mod pc.toNat 1)

theorem aligned_of_word {pc : Word} (h : pc &&& 3 = 0) (cpsr : Word) : Aligned cpsr pc := by
  unfold Aligned
  split
  · exact h
  · rw [and_three_eq_zero_iff] at h
    rw [and_one_eq_zero_iff]
    omega

theorem Aligned.congr {cpsr cpsr' pc : Word} (h : Aligned cpsr pc)
    (ht : cpsr' &&& cpsrT = cpsr &&& cpsrT) : Aligned cpsr' pc := by
  unfold Aligned at *
  rwa [ht]

@[simp] theorem clear_three_and_three (pc : Word) : pc &&& ~~~3 &&& 3 = 0 := by
  rw [BitVec.and_assoc]
  exact BitVec.and_zero

@[simp] theorem clear_one_and_one (pc : Word) : pc &&& ~~~1 &&& 1 = 0 := by
  rw [BitVec.and_assoc]
  exact BitVec.and_zero

theorem add_four_and_three {pc : Word} (h : pc &&& 3 = 0) : (pc + 4) &&& 3 = 0 := by
  rw [and_three_eq_zero_iff] at *
  have hfour : (4 : Word).toNat = 4 := rfl
  rw [BitVec.toNat_add, hfour]
  omega

theorem even_add {a b : Word} (ha : a &&& 1 = 0) (hb : b &&& 1 = 0) : (a + b) &&& 1 = 0 := by
  rw [and_one_eq_zero_iff] at *
  rw [BitVec.toNat_add]
  omega

theorem even_shiftLeft (a : Word) {n : ℕ} (hn : 0 < n) : (a <<< n) &&& 1 = 0 := by
  obtain ⟨m, rfl⟩ := Nat.exists_eq_add_of_lt hn
  rw [and_one_eq_zero_iff, BitVec.toNat_shiftLeft, Nat.shiftLeft_eq]
  have : 2 ^ (0 + m + 1) = 2 * 2 ^ m := by ring
  rw [this]
  have h2 : a.toNat * (2 * 2 ^ m) % 2 ^ 32 % 2 = a.toNat * (2 * 2 ^ m) % 2 :=
    Nat.mod_mod_of_dvd _ (by norm_num)
  rw [h2, Nat.mul_mod, Nat.mul_mod_right]
  simp

/-- The CPSR bits an ordinary instruction keeps: all but the flag byte and GE. -/
def controlMask : Word := 0x00f0ffff

/-- The CPSR bits a branch between the instruction sets keeps as well: all of those but T. -/
def steadyMask : Word := 0x00f0ffdf

/-- The CPSR bits User mode keeps: the mode, F, I and A. -/
def userMask : Word := 0x000001df

namespace Core

/-- Erases the registers, the flags, the monitor and the VFP data registers with FPSCR. -/
def quiet (c : Core) : Core :=
  { c with
    r := fun _ ↦ 0
    cpsr := c.cpsr &&& controlMask
    exclValid := false
    exclAddr := 0
    vfpS := fun _ ↦ 0
    vfpFpscr := 0 }

/-- Erases what `quiet` does, and T. -/
def steady (c : Core) : Core := { c.quiet with cpsr := c.cpsr &&& steadyMask }

/-- Erases what `steady` does, the unprivileged bits of the CPSR, TPIDRURW, and the bookkeeping
of a step. -/
def confined (c : Core) : Core :=
  { c.quiet with
    cpsr := c.cpsr &&& userMask
    cp15 := { c.cp15 with tpidrurw := 0 }
    cycles := 0
    abortPending := false
    abortFsr := 0
    abortFar := 0 }

/-- Erases the abort latch, the monitor, the VFP data registers and the cycle count. -/
def restorable (c : Core) : Core :=
  { c with
    cycles := 0
    abortPending := false
    abortFsr := 0
    abortFar := 0
    exclValid := false
    exclAddr := 0
    vfpS := fun _ ↦ 0 }

theorem steady_of_quiet (h : c'.quiet = c.quiet) : c'.steady = c.steady := by
  have hcpsr : c'.cpsr &&& steadyMask = c.cpsr &&& steadyMask :=
    and_eq_of_and_eq (congrArg Core.cpsr h :) (by decide)
  unfold steady
  rw [h, hcpsr]

theorem confined_of_steady (h : c'.steady = c.steady) : c'.confined = c.confined := by
  have hcpsr : c'.cpsr &&& userMask = c.cpsr &&& userMask :=
    and_eq_of_and_eq (congrArg Core.cpsr h :) (by decide)
  have hconfined (c : Core) : c.confined =
      { c.steady with
        cpsr := c.cpsr &&& userMask
        cp15 := { c.steady.cp15 with tpidrurw := 0 }
        cycles := 0
        abortPending := false
        abortFsr := 0
        abortFar := 0 } := rfl
  rw [hconfined c', hconfined c, h, hcpsr]

theorem mode_of_steady (h : c'.steady = c.steady) :
    c'.cpsr &&& cpsrModeMask = c.cpsr &&& cpsrModeMask :=
  and_eq_of_and_eq (congrArg Core.cpsr h :) (by decide)

theorem isPriv_of_quiet (h : c'.quiet = c.quiet) : c'.isPriv = c.isPriv := by
  rw [isPriv, isPriv, mode_of_steady (steady_of_quiet h)]

@[simp] theorem setR_self (c : Core) (n : Reg) (value : Word) : (c.setR n value).r n = value :=
  Function.update_self ..

@[simp] theorem setR_of_ne (c : Core) {n m : Reg} (value : Word) (h : m ≠ n) :
    (c.setR n value).r m = c.r m := Function.update_of_ne h ..

@[simp] theorem quiet_setR (c : Core) (n : Reg) (value : Word) :
    (c.setR n value).quiet = c.quiet := rfl

theorem steady_of_cpsr (cpsr : Word) (h : c'.quiet = c.quiet)
    (hcpsr : cpsr &&& steadyMask = c.cpsr &&& steadyMask) :
    steady { c' with cpsr := cpsr } = c.steady := by
  have hq : steady { c' with cpsr := cpsr } = { c'.quiet with cpsr := cpsr &&& steadyMask } := rfl
  rw [hq, h, hcpsr]
  rfl

theorem quiet_of_cpsr (cpsr : Word) (h : c'.quiet = c.quiet)
    (hcpsr : cpsr &&& controlMask = c.cpsr &&& controlMask) :
    quiet { c' with cpsr := cpsr } = c.quiet := by
  have hq : quiet { c' with cpsr := cpsr } = { c'.quiet with cpsr := cpsr &&& controlMask } := rfl
  rw [hq, h, hcpsr]
  rfl

theorem quiet_setFlag {flag : Word} (h : flag &&& controlMask = 0) (on : Bool) :
    (c.setFlag flag on).quiet = c.quiet := by
  refine quiet_of_cpsr _ rfl ?_
  cases on
  · exact clear_and_of_disjoint _ h
  · exact or_and_of_disjoint _ h

@[simp] theorem quiet_setQ (c : Core) : c.setQ.quiet = c.quiet :=
  quiet_of_cpsr _ rfl (or_and_of_disjoint _ (by decide))

@[simp] theorem quiet_setNz (c : Core) (r : Word) : (c.setNz r).quiet = c.quiet :=
  (quiet_setFlag (by decide) _).trans (quiet_setFlag (by decide) _)

@[simp] theorem quiet_ite (p : Prop) [Decidable p] (a b : Core) :
    (if p then a else b).quiet = if p then a.quiet else b.quiet := apply_ite ..

theorem steady_setT (h : c'.quiet = c.quiet) : c'.setT.steady = c.steady :=
  (steady_of_cpsr _ rfl (or_and_of_disjoint _ (by decide))).trans (steady_of_quiet h)

theorem steady_clearT (h : c'.quiet = c.quiet) : c'.clearT.steady = c.steady :=
  (steady_of_cpsr _ rfl (clear_and_of_disjoint _ (by decide))).trans (steady_of_quiet h)

@[simp] theorem quiet_setPair (c : Core) (lo hi : Reg) (value : DWord) :
    (c.setPair lo hi value).quiet = c.quiet := rfl

@[simp] theorem quiet_setS (c : Core) (n : BitVec 5) (value : Word) :
    (c.setS n value).quiet = c.quiet := rfl

@[simp] theorem quiet_setD (c : Core) (n : BitVec 4) (value : DWord) :
    (c.setD n value).quiet = c.quiet := rfl

@[simp] theorem quiet_raise (c : Core) (exc : Word) : (c.raise exc).quiet = c.quiet := rfl

@[simp] theorem restorable_noteAbort (c : Core) (fsr far : Word) :
    (c.noteAbort fsr far).restorable = c.restorable := by
  unfold noteAbort
  split <;> rfl

end Core

@[simp] theorem quiet_aluAdd (c : Core) (a b : Word) (cin set : Bool) :
    (aluAdd c a b cin set).2.quiet = c.quiet := by
  unfold aluAdd
  cases set
  · rfl
  · exact (Core.quiet_setFlag (by decide) _).trans
      ((Core.quiet_setFlag (by decide) _).trans (Core.quiet_setNz _ _))

@[simp] theorem quiet_aluSub (c : Core) (a b : Word) (cin set : Bool) :
    (aluSub c a b cin set).2.quiet = c.quiet := quiet_aluAdd ..

@[simp] theorem quiet_aluLogicFlags (c : Core) (r : Word) (carry set : Bool) :
    (aluLogicFlags c r carry set).quiet = c.quiet := by
  unfold aluLogicFlags
  cases set
  · rfl
  · exact (Core.quiet_setFlag (by decide) _).trans (Core.quiet_setNz _ _)

theorem prepareSyncAddress_cases {P : Prog Outcome → Prop} {va alignment next : Word} {store : Bool}
    {p : Prog Outcome} (hfault : P (pure ((noteAlignmentAbort c va store).done next)))
    (hrefuse : P (pure (c.refuse next))) (hok : P p) :
    P (match prepareSyncAddress c va alignment store with
      | some (status, c') => pure ⟨status, c', next⟩
      | none => p) := by
  split
  · rename_i status c' h
    unfold prepareSyncAddress at h
    split_ifs at h
    · obtain ⟨rfl, rfl⟩ := Prod.mk.inj (Option.some.inj h)
      exact hfault
    · obtain ⟨rfl, rfl⟩ := Prod.mk.inj (Option.some.inj h)
      exact hrefuse
  · exact hok

/-- What a store exclusive of one access does with the answer of its probe. -/
def storeProbed (width : Width) (c : Core) (insn next fsr : Word) : Prog Outcome :=
  if fsr ≠ 0 then
    pure ({ c.noteAbort fsr (c.r (field4 insn 16)) with exclValid := false }.done next)
  else if c.exclValid ∧ c.exclAddr = c.r (field4 insn 16) then do
    let c ← memWrite width c (c.r (field4 insn 16)) (c.r (field4 insn 0))
    let c := if c.abortPending then c else c.setR (field4 insn 12) 0
    pure ({ c with exclValid := false }.done next)
  else pure ({ c.setR (field4 insn 12) 1 with exclValid := false }.done next)

end S5LBox.Arm
