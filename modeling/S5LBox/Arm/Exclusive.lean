import S5LBox.Arm.Execution
import S5LBox.Arm.Sparing

/-!
# The exclusive monitor

A store exclusive that succeeds was preceded by a load exclusive at its address, with nothing in
between that the monitor does not survive. The step lemma says what a step can do to the
monitor, by the instruction it executes; the run lemma looks back through it.
-/

namespace S5LBox.Arm

open Program

variable {σ : Type} {c c' : Core} {pc insn next : Word} {fpu : HostFpu}

/-- CLREX. -/
def clrex : Word := 0xf57ff01f

/-- LDREX, LDREXD, LDREXB and LDREXH. -/
def loadExclusives : List Word := [0x01900f90, 0x01b00f90, 0x01d00f90, 0x01f00f90]

/-- STREX, STREXD, STREXB and STREXH. -/
def storeExclusives : List Word := [0x01800f90, 0x01a00f90, 0x01c00f90, 0x01e00f90]

def isLoadExclusive (insn : Word) : Bool :=
  field4 insn 28 ≠ 0xf && insn &&& 0x0ff00ff0 ∈ loadExclusives

def isStoreExclusive (insn : Word) : Bool :=
  field4 insn 28 ≠ 0xf && insn &&& 0x0ff00ff0 ∈ storeExclusives

/-- What an instruction that is no store exclusive may leave guarded: what was guarded before, or
the address of a load exclusive that completed. -/
def Loads (insn : Word) (c : Core) (o : Outcome) : Prop :=
  ∀ a, o.core.reserved = some a → c.reserved = some a ∧ o.core.taken = c.taken ∨
    isLoadExclusive insn = true ∧ o.status = .ok ∧ o.core.abortPending = false ∧
      o.core.taken = c.taken ∧ c.r (field4 insn 16) = a

/-- What a store exclusive leaves, when `wrote` tells whether it stored: the monitor is cleared or
an abort follows, and a status of zero is written under the monitor's guard only. -/
structure Stores (insn : Word) (c : Core) (wrote : Bool) (o : Outcome) : Prop where
  taken : o.core.taken = c.taken
  target : o.status = .ok → field4 insn 12 ≠ 15
  refused : o.status ≠ .ok → Spares c o.core
  cleared : o.status = .ok → o.core.abortPending = true ∨ o.core.reserved = none
  succeeded : o.status = .ok → o.core.abortPending = false → o.core.r (field4 insn 12) = 0 →
    c.reserved = some (c.r (field4 insn 16))
  failed : o.status = .ok → o.core.abortPending = false → o.core.r (field4 insn 12) = 1 →
    wrote = false

variable {o : Outcome} {width : Width} {va alignment a : Word}

theorem Loads.of_spares (h : Spares c o.core) : Loads insn c o :=
  fun a ha ↦ .inl (h a ha)

/-- A load exclusive keeps to `Loads`, whatever it asked for before. -/
def LoadsProg (insn : Word) (c : Core) (p : Prog Outcome) : Prop :=
  ∀ wrote, Meets monitorContract (fun _ o ↦ Loads insn c o) wrote p

namespace LoadsProg

theorem of_spares {p : Prog Outcome} (h : SparesProg c p) : LoadsProg insn c p :=
  fun wrote ↦ (h wrote).mono fun _ _ ↦ Loads.of_spares

theorem of_still {p : Prog Outcome} (h : StillProg c p) : LoadsProg insn c p :=
  of_spares (.of_still h)

theorem ite {p : Prop} [Decidable p] {a b : Prog Outcome} (ha : p → LoadsProg insn c a)
    (hb : ¬p → LoadsProg insn c b) : LoadsProg insn c (if p then a else b) := iteInduction ha hb

/-- A read that ends the instruction when it faults; past it the latch is clear. -/
theorem read {priv : Bool} {f : Word × Core → Prog Outcome} {g : Word → Core → Prog Outcome}
    (hf : ∀ value c', f (value, c') = if c'.abortPending then pure (c'.done next) else g value c')
    (hok : c.abortPending = false → ∀ value, LoadsProg insn c (g value c)) :
    LoadsProg insn c (memReadAs width c va priv >>= f) := by
  intro wrote
  apply (monitored (noted_memReadAs width c va priv) wrote).bind
  rintro wrote' ⟨value, c'⟩ hnoted
  rw [hf]
  refine iteInduction (fun _ ↦ Loads.of_spares (.of_guard hnoted.frame)) fun hlatch ↦ ?_
  obtain rfl := hnoted.eq hlatch
  exact hok (by simpa using hlatch) value wrote'

/-- An address that is checked before an exclusive access. -/
theorem sync {store : Bool} {p : Prog Outcome} (hok : LoadsProg insn c p) :
    LoadsProg insn c (match prepareSyncAddress c va alignment store with
      | some (status, c') => pure ⟨status, c', next⟩
      | none => p) :=
  prepareSyncAddress_cases (fun _ ↦ Loads.of_spares (.of_guard (IgnoresFaults.noteAbort ..)))
    (fun _ ↦ Loads.of_spares (.of_guard rfl)) hok

theorem commit {q : Core} (hload : isLoadExclusive insn = true) (hlatch : q.abortPending = false)
    (htaken : q.taken = c.taken) : LoadsProg insn c
      (pure ({ q with exclValid := true, exclAddr := c.r (field4 insn 16) }.done next)) := by
  intro wrote a ha
  exact .inr ⟨hload, rfl, hlatch, htaken, Option.some.inj ha⟩

end LoadsProg

theorem loads_execLoadExclusive (hload : isLoadExclusive insn = true) :
    LoadsProg insn c (execLoadExclusive width alignment c insn next) := by
  unfold execLoadExclusive
  refine .ite (fun _ ↦ .of_still (.refuse _ _)) fun _ ↦ .sync ?_
  apply LoadsProg.read (fun _ _ ↦ rfl)
  intro hlatch value
  exact .commit hload hlatch rfl

theorem loads_execLoadExclusiveDouble (hload : isLoadExclusive insn = true) :
    LoadsProg insn c (execLoadExclusiveDouble c insn next) := by
  unfold execLoadExclusiveDouble
  refine .ite (fun _ ↦ .of_still (.refuse _ _)) fun _ ↦ .sync ?_
  apply LoadsProg.read (fun _ _ ↦ rfl)
  intro _ lo
  apply LoadsProg.read (fun _ _ ↦ rfl)
  intro hlatch hi
  exact .commit (c := c) hload hlatch rfl

/-- A store exclusive that starts before anything is stored. -/
def StoresProg (insn : Word) (c : Core) (p : Prog Outcome) : Prop :=
  Meets monitorContract (Stores insn c) false p

theorem Core.reserved_of_matches (h : c.exclValid = true ∧ c.exclAddr = a) :
    c.reserved = some a := by
  rw [reserved, if_pos h.1, h.2]

theorem latched_noteAbort (c : Core) (fsr far : Word) :
    (c.noteAbort fsr far).abortPending = true := by
  unfold Core.noteAbort
  split
  · assumption
  · rfl

namespace Stores

variable {wrote : Bool}

theorem refuse (c : Core) (next : Word) : Stores insn c wrote (c.refuse next) where
  taken := rfl
  target h := nomatch h
  refused _ := .of_guard rfl
  cleared h := nomatch h
  succeeded h := nomatch h
  failed h := nomatch h

/-- A fault ends the instruction. -/
theorem latched (hrd : field4 insn 12 ≠ 15) (htaken : c'.taken = c.taken)
    (hlatch : c'.abortPending = true) : Stores insn c wrote (c'.done next) where
  taken := htaken
  target _ := hrd
  refused h := absurd rfl h
  cleared _ := .inl hlatch
  succeeded _ h := absurd hlatch (by simpa [Core.done] using h)
  failed _ h := absurd hlatch (by simpa [Core.done] using h)

theorem finish (hrd : field4 insn 12 ≠ 15) (hguard : c.reserved = some (c.r (field4 insn 16)))
    (hnoted : Noted c c') : Stores insn c wrote
      ({ (if c'.abortPending then c' else c'.setR (field4 insn 12) 0) with
          exclValid := false }.done next) := by
  have htaken := taken_of_guard hnoted.frame
  by_cases hlatch : c'.abortPending = true
  · rw [if_pos hlatch]
    exact latched hrd htaken hlatch
  · rw [if_neg hlatch]
    refine ⟨htaken, fun _ ↦ hrd, fun h ↦ absurd rfl h, fun _ ↦ .inr rfl, fun _ _ _ ↦ hguard, ?_⟩
    intro _ _ hone
    have hzero : (c'.setR (field4 insn 12) 0).r (field4 insn 12) = 0 := Core.setR_self ..
    have hcontra : (0 : Word) = 1 := hzero.symm.trans hone
    exact absurd hcontra (by decide)

/-- The monitor does not guard the address: a status of one, and no store. -/
theorem fail (hrd : field4 insn 12 ≠ 15) : Stores insn c false
    ({ c.setR (field4 insn 12) 1 with exclValid := false }.done next) := by
  refine ⟨rfl, fun _ ↦ hrd, fun h ↦ absurd rfl h, fun _ ↦ .inr rfl, ?_, fun _ _ _ ↦ rfl⟩
  intro _ _ hzero
  have hone : (c.setR (field4 insn 12) 1).r (field4 insn 12) = 1 := Core.setR_self ..
  have hcontra : (1 : Word) = 0 := hone.symm.trans hzero
  exact absurd hcontra (by decide)

end Stores

namespace StoresProg

theorem ite {p : Prop} [Decidable p] {a b : Prog Outcome} (ha : p → StoresProg insn c a)
    (hb : ¬p → StoresProg insn c b) : StoresProg insn c (if p then a else b) := iteInduction ha hb

/-- An address that is checked before an exclusive access. -/
theorem sync {store : Bool} {p : Prog Outcome} (hrd : field4 insn 12 ≠ 15)
    (hok : StoresProg insn c p) :
    StoresProg insn c (match prepareSyncAddress c va alignment store with
      | some (status, c') => pure ⟨status, c', next⟩
      | none => p) := by
  refine prepareSyncAddress_cases ?_ (Stores.refuse c next) hok
  apply Stores.latched hrd
  · exact taken_of_guard (IgnoresFaults.noteAbort ..)
  · apply latched_noteAbort

end StoresProg

theorem stores_execStoreExclusive {probe : Bool} :
    StoresProg insn c (execStoreExclusive width alignment probe c insn next) := by
  unfold execStoreExclusive
  refine .ite (fun _ ↦ Stores.refuse c next) fun hregs ↦ ?_
  have hrd : field4 insn 12 ≠ 15 := fun h ↦ hregs (.inr (.inl h))
  apply StoresProg.sync hrd
  have hgo (fsr : Word) : StoresProg insn c (storeProbed width c insn next fsr) := by
    refine .ite (fun _ ↦ ?_) fun _ ↦ .ite (fun hmatch ↦ ?_) fun _ ↦ Stores.fail hrd
    · have htaken := taken_of_guard (IgnoresFaults.noteAbort c fsr (c.r (field4 insn 16)))
      exact Stores.latched hrd htaken (latched_noteAbort c fsr _)
    · apply (monitored (noted_memWriteAs ..) _).bind
      exact fun _ c' hnoted ↦ Stores.finish hrd (Core.reserved_of_matches hmatch) hnoted
  cases probe with
  | true => exact ⟨trivial, fun fsr _ ↦ hgo fsr⟩
  | false => exact hgo 0

theorem stores_execStoreExclusiveDouble :
    StoresProg insn c (execStoreExclusiveDouble c insn next) := by
  unfold execStoreExclusiveDouble
  refine .ite (fun _ ↦ Stores.refuse c next) fun hregs ↦ ?_
  have hrd : field4 insn 12 ≠ 15 := fun h ↦ hregs (.inr (.inl h))
  apply StoresProg.sync hrd
  refine .ite (fun hmatch ↦ ?_) fun _ ↦ Stores.fail hrd
  apply (monitored (noted_memWriteAs ..) _).bind
  intro wrote c' hnoted
  refine iteInduction (fun hlatch ↦ ?_) fun hlatch ↦ ?_
  · have htaken := taken_of_guard hnoted.frame
    exact Stores.latched hrd htaken hlatch
  · obtain rfl := hnoted.eq hlatch
    apply (monitored (noted_memWriteAs ..) _).bind
    exact fun _ c' hnoted ↦ Stores.finish hrd (Core.reserved_of_matches hmatch) hnoted

theorem execArm_of_storeExclusive {space : Word} (h : insn &&& 0x0ff00ff0 = space)
    (hspace : space ∈ storeExclusives) :
    execArm fpu c pc insn next = execSynchronization c insn next := by
  have hmask (mask : Word) (hmask : 0x0ff00ff0 &&& mask = mask) :
      insn &&& mask = space &&& mask := by rw [← h, BitVec.and_assoc, hmask]
  unfold execArm
  dsimp only
  simp only [hmask 0x0c000000 (by decide), hmask 0x01900000 (by decide),
    hmask 0x0e000000 (by decide), hmask 0x00000090 (by decide),
    hmask 0x0f000000 (by decide), hmask 0x0fc000f0 (by decide),
    hmask 0x0f8000f0 (by decide), hmask 0x0f900090 (by decide),
    hmask 0x00000060 (by decide)]
  simp only [storeExclusives, List.mem_cons, List.not_mem_nil, or_false] at hspace
  obtain rfl | rfl | rfl | rfl := hspace
  · simp
  · simp
  · simp
  · simp

theorem stores_execArm (hstore : isStoreExclusive insn = true) :
    StoresProg insn c (execArm fpu c pc insn next) := by
  unfold isStoreExclusive at hstore
  rw [Bool.and_eq_true, decide_eq_true_eq, decide_eq_true_eq] at hstore
  have hspace := hstore.2
  rw [execArm_of_storeExclusive rfl hspace]
  simp only [storeExclusives, List.mem_cons, List.not_mem_nil, or_false] at hspace
  unfold execSynchronization
  obtain h | h | h | h := hspace
  · rw [h, if_neg (by decide), if_pos rfl]
    apply stores_execStoreExclusive
  · rw [h, if_neg (by decide), if_neg (by decide), if_neg (by decide), if_pos rfl]
    apply stores_execStoreExclusiveDouble
  · rw [h, if_neg (by decide), if_neg (by decide), if_neg (by decide), if_neg (by decide),
      if_neg (by decide), if_pos rfl]
    apply stores_execStoreExclusive
  · rw [h, if_neg (by decide), if_neg (by decide), if_neg (by decide), if_neg (by decide),
      if_neg (by decide), if_neg (by decide), if_neg (by decide), if_pos rfl]
    apply stores_execStoreExclusive

theorem loads_execSynchronization (hcond : field4 insn 28 ≠ 0xf)
    (hstore : isStoreExclusive insn = false) :
    LoadsProg insn c (execSynchronization c insn next) := by
  have hload {space : Word} (h : insn &&& 0x0ff00ff0 = space) (hspace : space ∈ loadExclusives) :
      isLoadExclusive insn = true := by
    unfold isLoadExclusive
    rw [decide_eq_true hcond, h, decide_eq_true hspace]
    rfl
  have hnot {space : Word} (h : insn &&& 0x0ff00ff0 = space) (hspace : space ∈ storeExclusives)
      (p : Prog Outcome) : LoadsProg insn c p := by
    unfold isStoreExclusive at hstore
    rw [decide_eq_true hcond, h, decide_eq_true hspace] at hstore
    cases hstore
  unfold execSynchronization
  refine .ite (fun h ↦ loads_execLoadExclusive (hload h (by decide))) fun _ ↦ ?_
  refine .ite (fun h ↦ hnot h (by decide) _) fun _ ↦ ?_
  refine .ite (fun h ↦ loads_execLoadExclusiveDouble (hload h (by decide))) fun _ ↦ ?_
  refine .ite (fun h ↦ hnot h (by decide) _) fun _ ↦ ?_
  refine .ite (fun h ↦ loads_execLoadExclusive (hload h (by decide))) fun _ ↦ ?_
  refine .ite (fun h ↦ hnot h (by decide) _) fun _ ↦ ?_
  refine .ite (fun h ↦ loads_execLoadExclusive (hload h (by decide))) fun _ ↦ ?_
  refine .ite (fun h ↦ hnot h (by decide) _) fun _ ↦ ?_
  exact .ite (fun _ ↦ .of_still still_execSwap) fun _ ↦ .of_still (.refuse _ _)

theorem execArm_cases {P : Prog Outcome → Prop} (still : ∀ p, StillProg c p → P p)
    (sync : P (execSynchronization c insn next)) (vfp : P (vfpExecute fpu c pc insn next))
    (svc : P (execSvc c pc insn next)) : P (execArm fpu c pc insn next) := by
  have ite {p : Prop} [Decidable p] {a b : Prog Outcome} (ha : P a) (hb : P b) :
      P (if p then a else b) := iteInduction (fun _ ↦ ha) fun _ ↦ hb
  have hpure {o : Outcome} (h : Untouched Core.still c o) : P (pure o) := still _ h
  unfold execArm
  apply ite (hpure untouched_execDataProcessing)
  apply ite (hpure untouched_execBranch)
  apply ite (hpure untouched_execMultiply)
  apply ite (hpure untouched_execMultiplyLong)
  apply ite (hpure untouched_execDspMultiply)
  apply ite (hpure untouched_execMedia)
  apply ite (still _ still_execSingleTransfer)
  apply ite (still _ still_execBlockTransfer)
  apply ite (still _ still_execExtraTransfer)
  apply ite sync
  apply ite (execCoprocessor_cases still vfp)
  apply ite vfp
  apply ite svc
  exact ite (hpure untouched_execDataProcessing) (hpure (.refuse _ _))

theorem loads_execArm (hcond : field4 insn 28 ≠ 0xf) (hstore : isStoreExclusive insn = false) :
    LoadsProg insn c (execArm fpu c pc insn next) := by
  apply execArm_cases
  · exact fun p h ↦ .of_still h
  · exact loads_execSynchronization hcond hstore
  · exact .of_spares (.of_guard guard_vfpExecute)
  · exact .of_spares spares_execSvc

theorem commitArm_cases {P : StepResult → Prop}
    (excepted : ∀ q : Core, q.reserved = none → q.vfpS = o.core.vfpS →
      (q.taken = vecUndefined :: o.core.taken ∨
        q.taken = vecDataAbort :: o.core.taken ∧ o.core.abortPending = true) → P (.ok, q))
    (retired : o.status = .ok → o.core.abortPending = false → P (.ok, o.core.setR 15 o.next))
    (stopped : o.status ≠ .ok → P (o.status, o.core)) : P (commitArm pc insn o) := by
  have hundefined : P (.ok, takeUndefinedInstruction o.core pc) :=
    excepted _ (reserved_enterException ..) (vfpS_enterException ..)
      (.inl (excepted_enterException ..).taken)
  unfold commitArm
  apply iteInduction (motive := P)
  · intro hhalt
    rw [← hhalt]
    exact stopped (by simp [hhalt])
  intro _
  apply iteInduction (motive := P)
  · intro hlatch
    exact excepted _ (reserved_enterException ..) (vfpS_enterException ..)
      (.inr ⟨(excepted_enterException ..).taken, hlatch⟩)
  intro hlatch
  apply iteInduction (motive := P)
  · exact fun _ ↦ hundefined
  intro _
  apply iteInduction (motive := P)
  · intro hstatus
    have hstopped : P (o.status, o.core) := stopped (by simp [hstatus])
    rw [hstatus] at hstopped
    exact iteInduction (motive := P) (fun _ ↦ hundefined) fun _ ↦ hstopped
  intro _
  unfold commit
  apply iteInduction (motive := P)
  · exact fun hok ↦ retired hok (by simpa using hlatch)
  · exact stopped

theorem spares_takePendingDataAbort (c c' : Core) (pc : Word) :
    Spares c (takePendingDataAbort c' pc) := .of_none (reserved_enterException ..)

theorem spares_commit (h : Spares c o.core) : Spares c (commit o).2 := by
  unfold commit
  split
  · exact h
  · exact h

theorem spares_commitThumb (h : Spares c o.core) : Spares c (commitThumb pc o).2 := by
  unfold commitThumb
  split_ifs
  · exact h
  · apply spares_takePendingDataAbort
  · exact spares_commit h

theorem spares_commitStacked (h : Spares c o.core) : Spares c (commitStacked pc o).2 := by
  unfold commitStacked
  split
  · apply spares_takePendingDataAbort
  · exact spares_commit h

/-- What a step that executes `insn` does to the monitor, when `wrote` tells whether it stored. -/
structure Obeys (insn : Word) (c : Core) (wrote : Bool) (x : StepResult) : Prop where
  guarded : ∀ a, x.2.reserved = some a →
    isLoadExclusive insn = true ∧ x.1 = .ok ∧ x.2.taken = c.taken ∧ c.r (field4 insn 16) = a ∨
    c.reserved = some a ∧ x.2.taken = c.taken ∧ insn ≠ clrex ∧
      (isStoreExclusive insn = true → x.1 ≠ .ok)
  succeeded : isStoreExclusive insn = true → x.1 = .ok → x.2.taken = c.taken →
    x.2.r (field4 insn 12) = 0 → c.reserved = some (c.r (field4 insn 16))
  failed : isStoreExclusive insn = true → x.1 = .ok → x.2.taken = c.taken →
    x.2.r (field4 insn 12) = 1 → wrote = false

namespace Obeys

variable {wrote : Bool} {x : StepResult}

theorem of_guarded (hstore : isStoreExclusive insn = false) (h : ∀ a, x.2.reserved = some a →
      isLoadExclusive insn = true ∧ x.1 = .ok ∧ x.2.taken = c.taken ∧ c.r (field4 insn 16) = a ∨
      c.reserved = some a ∧ x.2.taken = c.taken ∧ insn ≠ clrex) : Obeys insn c wrote x where
  guarded a ha := (h a ha).imp_right fun ⟨hreserved, htaken, hclrex⟩ ↦
    ⟨hreserved, htaken, hclrex, fun hset ↦ absurd hset (by simp [hstore])⟩
  succeeded hset := absurd hset (by simp [hstore])
  failed hset := absurd hset (by simp [hstore])

theorem of_loads (hcond : field4 insn 28 ≠ 0xf) (hstore : isStoreExclusive insn = false)
    (h : Loads insn c o) : Obeys insn c wrote (commitArm pc insn o) := by
  have hclrex : insn ≠ clrex := by
    rintro rfl
    exact hcond (by decide)
  apply commitArm_cases
  · intro q hnone _ _
    apply of_guarded hstore
    intro a ha
    rw [hnone] at ha
    cases ha
  · intro hok _
    apply of_guarded hstore
    intro a ha
    obtain ⟨hreserved, htaken⟩ | ⟨hload, _, _, htaken, haddr⟩ := h a ha
    · exact .inr ⟨hreserved, htaken, hclrex⟩
    · exact .inl ⟨hload, rfl, htaken, haddr⟩
  · intro hstatus
    apply of_guarded hstore
    intro a ha
    obtain ⟨hreserved, htaken⟩ | ⟨hload, hok, _⟩ := h a ha
    · exact .inr ⟨hreserved, htaken, hclrex⟩
    · exact absurd hok hstatus

theorem of_stores (hcond : field4 insn 28 ≠ 0xf) (h : Stores insn c wrote o) :
    Obeys insn c wrote (commitArm pc insn o) := by
  have hclrex : insn ≠ clrex := by
    rintro rfl
    exact hcond (by decide)
  apply commitArm_cases
  · intro q hnone _ hvector
    have hnever : q.taken ≠ c.taken := by
      obtain hvector | ⟨hvector, -⟩ := hvector
      · rw [hvector, h.taken]
        apply List.cons_ne_self
      · rw [hvector, h.taken]
        apply List.cons_ne_self
    refine ⟨fun a ha ↦ ?_, fun _ _ htaken ↦ absurd htaken hnever,
      fun _ _ htaken ↦ absurd htaken hnever⟩
    rw [hnone] at ha
    cases ha
  · intro hok hlatch
    have hrd : (o.core.setR 15 o.next).r (field4 insn 12) = o.core.r (field4 insn 12) :=
      Core.setR_of_ne _ _ (h.target hok)
    refine ⟨fun a ha ↦ ?_, fun _ _ _ hzero ↦ ?_, fun _ _ _ hone ↦ ?_⟩
    · have hnone : o.core.reserved = none := by
        obtain hset | hnone := h.cleared hok
        · rw [hlatch] at hset
          cases hset
        · exact hnone
      have ha' : o.core.reserved = some a := ha
      rw [hnone] at ha'
      cases ha'
    · exact h.succeeded hok hlatch (hrd.symm.trans hzero)
    · exact h.failed hok hlatch (hrd.symm.trans hone)
  · intro hstatus
    refine ⟨fun a ha ↦ ?_, fun _ hok ↦ absurd hok hstatus, fun _ hok ↦ absurd hok hstatus⟩
    obtain ⟨hreserved, htaken⟩ := h.refused hstatus a ha
    exact .inr ⟨hreserved, htaken, hclrex, fun _ ↦ hstatus⟩

end Obeys

theorem spares_execUnconditional (wrote : Bool) : Meets monitorContract
      (fun _ x ↦ Spares c x.2 ∧ (insn = clrex → x.2.reserved = none)) wrote
      (execUnconditional c pc insn next) := by
  unfold execUnconditional
  by_cases hclrex : insn = 0xf57ff01f
  · rw [if_pos hclrex]
    exact ⟨.of_none rfl, fun _ ↦ rfl⟩
  rw [if_neg hclrex]
  have hspares {p : Prog StepResult}
      (h : Meets monitorContract (fun _ x ↦ Spares c x.2) wrote p) :
      Meets monitorContract (fun _ x ↦ Spares c x.2 ∧ (insn = clrex → x.2.reserved = none))
        wrote p := h.mono fun _ _ hspares ↦ ⟨hspares, fun h ↦ absurd h hclrex⟩
  apply hspares
  have hcommit {o : Outcome} (h : Untouched Core.still c o) :
      Meets monitorContract (fun _ x ↦ Spares c x.2) wrote (pure (commit o)) :=
    spares_commit (.of_guard (congrArg Prod.fst h))
  refine iteInduction (fun _ ↦ hcommit rfl) fun _ ↦ ?_
  refine iteInduction (fun _ ↦ hcommit untouched_execCps) fun _ ↦ ?_
  refine iteInduction (fun _ ↦ hcommit untouched_execBlxImmediate) fun _ ↦ ?_
  refine iteInduction (fun _ ↦ ?_) fun _ ↦ iteInduction (fun _ ↦ ?_) fun _ ↦ ?_
  · exact (SparesProg.of_still still_execSrs wrote).map fun _ _ h ↦ spares_commitStacked h
  · exact (SparesProg.of_still still_execRfe wrote).map fun _ _ h ↦ spares_commitStacked h
  refine iteInduction (fun _ ↦ hcommit ?_) fun _ ↦ ?_
  · split
    · rfl
    · rfl
  · have hundefined : Spares c (undefinedInstruction c pc insn).2 := by
      unfold undefinedInstruction
      split
      · exact .of_none (reserved_enterException ..)
      · exact .of_guard rfl
    exact hundefined

/-- The condition of an instruction lets it through. -/
def condPassed (c : Core) (insn : Word) : Bool :=
  field4 insn 28 = 0xf || field4 insn 28 = 0xe || armCondPassed c (field4 insn 28)

theorem obeys_stepArm (hpass : condPassed c insn = true) :
    Meets monitorContract (fun wrote x ↦ Obeys insn c wrote x) false (stepArm fpu c pc insn) := by
  set q : Core := { c with cycles := c.cycles + 1 } with hq
  have hcycles {wrote : Bool} {x : StepResult} (h : Obeys insn q wrote x) :
      Obeys insn c wrote x := ⟨h.guarded, h.succeeded, h.failed⟩
  have hnever (hcond : field4 insn 28 = 0xf) : isStoreExclusive insn = false := by
    unfold isStoreExclusive
    rw [hcond]
    rfl
  unfold stepArm
  dsimp only
  by_cases hcond : field4 insn 28 = 0xf
  · rw [if_pos hcond]
    apply (spares_execUnconditional false).mono
    rintro wrote x ⟨hspares, hclrex⟩
    apply hcycles
    apply Obeys.of_guarded (hnever hcond)
    intro a ha
    obtain ⟨hreserved, htaken⟩ := hspares a ha
    refine .inr ⟨hreserved, htaken, fun h ↦ ?_⟩
    rw [hclrex h] at ha
    cases ha
  · have hskip : ¬(field4 insn 28 ≠ 0xe ∧ (!armCondPassed q (field4 insn 28)) = true) := by
      rintro ⟨hne, hfail⟩
      have hfail' : armCondPassed c (field4 insn 28) = false := (Bool.not_eq_true' _).mp hfail
      unfold condPassed at hpass
      rw [decide_eq_false hcond, decide_eq_false hne, hfail'] at hpass
      cases hpass
    rw [if_neg hcond, if_neg hskip]
    by_cases hstore : isStoreExclusive insn = true
    · apply (stores_execArm hstore).map
      exact fun _ _ h ↦ hcycles (.of_stores hcond h)
    · have hstore' : isStoreExclusive insn = false := by simpa using hstore
      apply (loads_execArm hcond hstore' false).map
      exact fun _ _ h ↦ hcycles (.of_loads hcond hstore' h)

theorem stepArm_skipped (hskip : condPassed c insn = false) :
    stepArm fpu c pc insn = pure (commit (Core.done { c with cycles := c.cycles + 1 } (pc + 4))) := by
  unfold condPassed at hskip
  simp only [Bool.or_eq_false_iff, decide_eq_false_iff_not] at hskip
  obtain ⟨⟨hcond, halways⟩, hfail⟩ := hskip
  unfold stepArm
  dsimp only
  have hfail' : (!armCondPassed { c with cycles := c.cycles + 1 } (field4 insn 28)) = true := by
    have hsame : armCondPassed { c with cycles := c.cycles + 1 } (field4 insn 28) =
        armCondPassed c (field4 insn 28) := rfl
    rw [hsame, hfail]
    rfl
  rw [if_neg hcond, if_pos ⟨halways, hfail'⟩]

theorem spares_stepArm (hskip : condPassed c insn = false) :
    Meets monitorContract (fun _ x ↦ Spares c x.2) false (stepArm fpu c pc insn) := by
  rw [stepArm_skipped hskip]
  exact Spares.of_guard rfl

theorem spares_stepThumb {insn : Half} :
    Meets monitorContract (fun _ x ↦ Spares c x.2) false (stepThumb c pc insn) := by
  have h : SparesProg { c with cycles := c.cycles + 1 }
      (thumbStep { c with cycles := c.cycles + 1 } pc insn (pc + 2)) := by
    apply thumbStep_cases
    · exact fun p h ↦ .of_still h
    · exact fun _ ↦ spares_execSvc
  apply (h false).map
  exact fun _ _ hspares ↦ spares_commitThumb (c := { c with cycles := c.cycles + 1 }) hspares

/-- A privileged-SVC handler that treats the monitor as an instruction does. -/
def SvcSpares (bus : Bus σ) : Prop :=
  ∀ handler, bus.privilegedSvcHandler = some handler → ∀ ctx c pc encoding,
    Spares c (handler ctx c pc encoding).1.2

/-- Reads over the bus leave what is observed of it alone. -/
structure ReadsKeep {α : Type} (bus : Bus σ) (memory : σ → α) : Prop where
  read32 : ∀ ctx pa, memory (bus.read32 ctx pa).2 = memory ctx
  read16 : ∀ ctx pa, memory (bus.read16 ctx pa).2 = memory ctx
  read8 : ∀ ctx pa, memory (bus.read8 ctx pa).2 = memory ctx

section Reads

variable {α : Type} {bus : Bus σ} {memory : σ → α} {p : TlbStamp} {ctx : σ} {h : Caches}

namespace ReadsKeep

section

variable (hkeep : ReadsKeep bus memory)

include hkeep

theorem walk (va : Word) (acc : Access) (priv : Bool) :
    memory (walkVerdict bus p ctx va acc priv).2 = memory ctx := by
  let same (x : Verdict × σ) : Prop := memory x.2 = memory ctx
  have hread : memory (bus.read32 ctx (l1Address p va)).2 = memory ctx := hkeep.read32 ..
  show same (walkVerdict bus p ctx va acc priv)
  refine iteInduction (motive := same) (fun _ ↦ rfl) fun _ ↦ ?_
  refine iteInduction (motive := same) (fun _ ↦ rfl) fun _ ↦ ?_
  refine iteInduction (motive := same) (fun _ ↦ hread) fun _ ↦ ?_
  refine iteInduction (motive := same) (fun _ ↦ hread) fun _ ↦ ?_
  exact (hkeep.read32 ..).trans hread

theorem translate (va : Word) (acc : Access) (priv : Bool) (pa : Word) :
    memory (armMmuTranslate bus p h ctx va acc priv pa).2.2 = memory ctx := by
  unfold armMmuTranslate
  dsimp only
  split
  · rfl
  split
  · rfl
  · exact hkeep.walk va acc priv

theorem readCrossing {priv : Bool} {offsets : List ℕ} {pagePa value : Word} :
    memory (memReadCrossing bus p va priv offsets pagePa value h ctx).2.2 = memory ctx := by
  induction offsets generalizing h pagePa value ctx with
  | nil => rfl
  | cons i rest ih =>
    rw [memReadCrossing]
    dsimp only
    split <;> split
    · apply hkeep.translate
    · exact ih.trans ((hkeep.read8 ..).trans (hkeep.translate ..))
    · rfl
    · exact ih.trans (hkeep.read8 ..)

theorem busRead (width : Width) (pa : Word) : memory (busRead bus width ctx pa).2 = memory ctx := by
  cases width with
  | byte => exact hkeep.read8 ..
  | half => exact hkeep.read16 ..
  | word => exact hkeep.read32 ..

theorem load (width : Width) (va : Word) (priv : Bool) :
    memory (busLoad bus width p va priv h ctx).2.2 = memory ctx := by
  unfold busLoad
  split
  · exact hkeep.readCrossing
  · split
    · rfl
    · dsimp only
      split
      · apply hkeep.translate
      · exact (hkeep.busRead ..).trans (hkeep.translate ..)

theorem fetch (pc : Word) (priv thumb : Bool) :
    memory (busFetch bus p pc priv thumb h ctx).2.2 = memory ctx := by
  unfold busFetch
  dsimp only
  split
  · rfl
  · split
    · apply hkeep.translate
    · split
      · apply hkeep.translate
      · exact (hkeep.busRead ..).trans (hkeep.translate ..)

end

end ReadsKeep

theorem keeps_monitor (hsvc : SvcSpares bus) (hkeep : ReadsKeep bus memory) (start : α) :
    Keeps (busHandler bus) monitorContract
      fun wrote state ↦ wrote = false → memory state.2 = start := by
  rintro op wrote ⟨h, ctx⟩ hstate -
  cases op with
  | load width p va priv => exact ⟨trivial, fun hw ↦ (hkeep.load ..).trans (hstate hw)⟩
  | store width p va value priv => exact ⟨trivial, fun hw ↦ nomatch hw⟩
  | translate p va acc priv => exact ⟨trivial, fun hw ↦ (hkeep.translate ..).trans (hstate hw)⟩
  | fetch p pc priv thumb => exact ⟨trivial, fun hw ↦ (hkeep.fetch ..).trans (hstate hw)⟩
  | flush p => exact ⟨trivial, hstate⟩
  | waitForInterrupt => exact ⟨trivial, fun hw ↦ nomatch hw⟩
  | privilegedSvc c pc encoding =>
    refine ⟨fun served hserved ↦ ?_, fun hw ↦ nomatch hw⟩
    rw [busHandler_privilegedSvc] at hserved
    obtain ⟨handler, hhandler, rfl⟩ := Option.map_eq_some_iff.1 hserved
    apply hsvc handler hhandler

end Reads

/-- The ARM instruction a step from this state executes, if it comes to executing one. -/
def issued (bus : Bus σ) (state : Cpu × σ) : Option Word :=
  let (cpu, ctx) := state
  let c := cpu.core
  if !armModeIsValid c.cpsr then none
  else if c.fiqLine ∧ !c.getFlag cpsrF then none
  else if c.irqLine ∧ !c.getFlag cpsrI then none
  else
    match (busFetch bus c.cp15.stamp (c.r 15) c.isPriv (c.getFlag cpsrT) cpu.caches ctx).1 with
    | .error _ => none
    | .ok insn => if !c.getFlag cpsrT && condPassed c insn then some insn else none

/-- The ways a step goes, with the ARM instruction it issues. -/
theorem cpuStep_cases {bus : Bus σ} {cpu : Cpu} {ctx : σ} {P : Option Word → StepResult → Prop}
    (invalid : P none (.undefined, cpu.core))
    (fiq : P none (.ok, enterException { cpu.core with cycles := cpu.core.cycles + 1 } vecFiq
      modeFiq (cpu.core.r 15 + 4) true))
    (irq : P none (.ok, enterException { cpu.core with cycles := cpu.core.cycles + 1 } vecIrq
      modeIrq (cpu.core.r 15 + 4) false))
    (prefetch : ∀ fsr, P none (.ok, takePrefetchAbort cpu.core (cpu.core.r 15) fsr))
    (thumb : cpu.core.getFlag cpsrT = true → ∀ insn state,
      P none (run (busHandler bus) (stepThumb cpu.core (cpu.core.r 15) insn) state).1)
    (skipped : cpu.core.getFlag cpsrT = false → ∀ insn state, condPassed cpu.core insn = false →
      P none (run (busHandler bus) (stepArm fpu cpu.core (cpu.core.r 15) insn) state).1)
    (arm : cpu.core.getFlag cpsrT = false → ∀ insn state,
      P (some insn) (run (busHandler bus) (stepArm fpu cpu.core (cpu.core.r 15) insn) state).1) :
    P (issued bus (cpu, ctx))
      ((cpuStep fpu bus cpu ctx).1, (cpuStep fpu bus cpu ctx).2.1.core) := by
  unfold issued cpuStep armStep
  dsimp only
  by_cases hmode : (!armModeIsValid cpu.core.cpsr) = true
  · rw [if_pos hmode, if_pos hmode]
    exact invalid
  rw [if_neg hmode, if_neg hmode]
  by_cases hfiq : cpu.core.fiqLine = true ∧ (!cpu.core.getFlag cpsrF) = true
  · rw [if_pos hfiq, if_pos hfiq]
    exact fiq
  rw [if_neg hfiq, if_neg hfiq]
  by_cases hirq : cpu.core.irqLine = true ∧ (!cpu.core.getFlag cpsrI) = true
  · rw [if_pos hirq, if_pos hirq]
    exact irq
  rw [if_neg hirq, if_neg hirq]
  have hrun : run (busHandler bus) (ask (.fetch cpu.core.cp15.stamp (cpu.core.r 15)
      cpu.core.isPriv (cpu.core.getFlag cpsrT))) (cpu.caches, ctx) =
      busFetch bus cpu.core.cp15.stamp (cpu.core.r 15) cpu.core.isPriv (cpu.core.getFlag cpsrT)
        cpu.caches ctx := rfl
  rw [run_bind, hrun]
  generalize busFetch bus cpu.core.cp15.stamp (cpu.core.r 15) cpu.core.isPriv
    (cpu.core.getFlag cpsrT) cpu.caches ctx = fetched
  obtain ⟨answer, state⟩ := fetched
  cases answer with
  | error fsr => exact prefetch fsr
  | ok insn =>
    dsimp only
    by_cases hthumb : cpu.core.getFlag cpsrT = true
    · have hthumb' := thumb hthumb (insn.setWidth 16) state
      rw [hthumb]
      exact hthumb'
    have hclear : cpu.core.getFlag cpsrT = false := by simpa using hthumb
    by_cases hpass : condPassed cpu.core insn = true
    · have harm := arm hclear insn state
      rw [hclear, hpass]
      exact harm
    · have hskip : condPassed cpu.core insn = false := by simpa using hpass
      have hskipped := skipped hclear insn state hskip
      rw [hclear, hskip]
      exact hskipped

theorem monitor_cpuStep {α : Type} {bus : Bus σ} {memory : σ → α} (hsvc : SvcSpares bus)
    (hkeep : ReadsKeep bus memory) (state : Cpu × σ) :
    let x := cpuStep fpu bus state.1 state.2
    match issued bus state with
    | none => Spares state.1.core x.2.1.core
    | some insn => ∃ wrote, Obeys insn state.1.core wrote (x.1, x.2.1.core) ∧
        (wrote = false → memory x.2.2 = memory state.2) := by
  obtain ⟨cpu, ctx⟩ := state
  unfold issued cpuStep armStep
  dsimp only
  by_cases hmode : (!armModeIsValid cpu.core.cpsr) = true
  · rw [if_pos hmode, if_pos hmode]
    exact .of_guard rfl
  rw [if_neg hmode, if_neg hmode]
  by_cases hfiq : cpu.core.fiqLine = true ∧ (!cpu.core.getFlag cpsrF) = true
  · rw [if_pos hfiq, if_pos hfiq]
    exact .of_none (reserved_enterException ..)
  rw [if_neg hfiq, if_neg hfiq]
  by_cases hirq : cpu.core.irqLine = true ∧ (!cpu.core.getFlag cpsrI) = true
  · rw [if_pos hirq, if_pos hirq]
    exact .of_none (reserved_enterException ..)
  rw [if_neg hirq, if_neg hirq]
  have hkeeps := keeps_monitor hsvc hkeep (memory ctx)
  have hfetch : memory (busFetch bus cpu.core.cp15.stamp (cpu.core.r 15) cpu.core.isPriv
      (cpu.core.getFlag cpsrT) cpu.caches ctx).2.2 = memory ctx :=
    hkeep.fetch (cpu.core.r 15) cpu.core.isPriv (cpu.core.getFlag cpsrT)
  have hrun : run (busHandler bus) (ask (.fetch cpu.core.cp15.stamp (cpu.core.r 15)
      cpu.core.isPriv (cpu.core.getFlag cpsrT))) (cpu.caches, ctx) =
      busFetch bus cpu.core.cp15.stamp (cpu.core.r 15) cpu.core.isPriv (cpu.core.getFlag cpsrT)
        cpu.caches ctx := rfl
  rw [run_bind, hrun]
  generalize busFetch bus cpu.core.cp15.stamp (cpu.core.r 15) cpu.core.isPriv
    (cpu.core.getFlag cpsrT) cpu.caches ctx = fetched at *
  obtain ⟨answer, state⟩ := fetched
  cases answer with
  | error fsr => exact .of_none (reserved_enterException ..)
  | ok insn =>
    dsimp only at hfetch ⊢
    by_cases hthumb : cpu.core.getFlag cpsrT = true
    · rw [hthumb, if_pos rfl]
      obtain ⟨wrote, hspares, -⟩ := spares_stepThumb.run hkeeps fun _ ↦ hfetch
      exact hspares
    rw [if_neg hthumb, Bool.eq_false_of_not_eq_true hthumb, Bool.not_false, Bool.true_and]
    by_cases hpass : condPassed cpu.core insn = true
    · rw [if_pos hpass]
      exact (obeys_stepArm hpass).run hkeeps fun _ ↦ hfetch
    · rw [if_neg hpass]
      have hskip : condPassed cpu.core insn = false := by simpa using hpass
      obtain ⟨wrote, hspares, -⟩ := (spares_stepArm hskip).run hkeeps fun _ ↦ hfetch
      exact hspares

section Runs

variable (fpu : HostFpu) (bus : Bus σ) (state : Cpu × σ)

/-- The step ends well and enters no exception. -/
def Retires : Prop :=
  (cpuStep fpu bus state.1 state.2).1 = .ok ∧
    (cpuStep fpu bus state.1 state.2).2.1.core.taken = state.1.core.taken

/-- The step completes a load exclusive at an address. -/
def CompletesLoad (a : Word) : Prop :=
  ∃ insn, issued bus state = some insn ∧ isLoadExclusive insn = true ∧ Retires fpu bus state ∧
    state.1.core.r (field4 insn 16) = a

/-- The step executes a store exclusive at an address, which writes this status. -/
def WritesStatus (a status : Word) : Prop :=
  ∃ insn, issued bus state = some insn ∧ isStoreExclusive insn = true ∧ Retires fpu bus state ∧
    state.1.core.r (field4 insn 16) = a ∧
    (cpuStep fpu bus state.1 state.2).2.1.core.r (field4 insn 12) = status

/-- What the monitor does not survive: an exception, a CLREX, or a store exclusive, unless the
core refused it as undefined and stopped. -/
def Clears : Prop :=
  (cpuStep fpu bus state.1 state.2).2.1.core.taken ≠ state.1.core.taken ∨
    issued bus state = some clrex ∨
    ∃ insn, issued bus state = some insn ∧ isStoreExclusive insn = true ∧
      (cpuStep fpu bus state.1 state.2).1 = .ok

end Runs

variable {bus : Bus σ} {state : Cpu × σ}

theorem reserved_cpuStep (hsvc : SvcSpares bus)
    (h : (cpuStep fpu bus state.1 state.2).2.1.core.reserved = some a) :
    CompletesLoad fpu bus state a ∨ state.1.core.reserved = some a ∧ ¬Clears fpu bus state := by
  have hstep := @monitor_cpuStep σ fpu Unit bus (fun _ ↦ ()) hsvc
    ⟨fun _ _ ↦ rfl, fun _ _ ↦ rfl, fun _ _ ↦ rfl⟩ state
  unfold Clears
  cases hissued : issued bus state with
  | none =>
    rw [hissued] at hstep
    obtain ⟨hreserved, htaken⟩ := hstep a h
    refine .inr ⟨hreserved, ?_⟩
    rintro (hexcepted | hclrex | ⟨insn, hinsn, -⟩)
    · exact hexcepted htaken
    · cases hclrex
    · cases hinsn
  | some insn =>
    rw [hissued] at hstep
    obtain ⟨wrote, hobeys, -⟩ := hstep
    obtain ⟨hload, hok, htaken, haddr⟩ | ⟨hreserved, htaken, hclrex, hstore⟩ := hobeys.guarded a h
    · exact .inl ⟨insn, hissued, hload, ⟨hok, htaken⟩, haddr⟩
    refine .inr ⟨hreserved, ?_⟩
    rintro (hexcepted | hclrex' | ⟨insn', hinsn', hstore', hok⟩)
    · exact hexcepted htaken
    · exact hclrex (Option.some.inj hclrex')
    · obtain rfl := Option.some.inj hinsn'
      exact hstore hstore' hok

theorem reserved_apply (hsvc : SvcSpares bus) (event : Event σ)
    (h : (event.apply fpu bus state).1.core.reserved = some a) :
    event = .step ∧ CompletesLoad fpu bus state a ∨
      state.1.core.reserved = some a ∧ (event = .step → ¬Clears fpu bus state) := by
  cases event with
  | step =>
    obtain hload | ⟨hreserved, hclears⟩ := reserved_cpuStep hsvc h
    · exact .inl ⟨rfl, hload⟩
    · exact .inr ⟨hreserved, fun _ ↦ hclears⟩
  | lines irq fiq => exact .inr ⟨h, fun hstep ↦ nomatch hstep⟩
  | devices ctx => exact .inr ⟨h, fun hstep ↦ nomatch hstep⟩
  | refill va priv => exact .inr ⟨h, fun hstep ↦ nomatch hstep⟩

theorem reserved_of_writesStatus (hsvc : SvcSpares bus) (h : WritesStatus fpu bus state a 0) :
    state.1.core.reserved = some a := by
  obtain ⟨insn, hissued, hstore, ⟨hok, htaken⟩, rfl, hzero⟩ := h
  have hstep := @monitor_cpuStep σ fpu Unit bus (fun _ ↦ ()) hsvc
    ⟨fun _ _ ↦ rfl, fun _ _ ↦ rfl, fun _ _ ↦ rfl⟩ state
  rw [hissued] at hstep
  obtain ⟨wrote, hobeys, -⟩ := hstep
  exact hobeys.succeeded hstore hok htaken hzero

theorem memory_of_writesStatus {α : Type} {memory : σ → α} (hsvc : SvcSpares bus)
    (hkeep : ReadsKeep bus memory) (h : WritesStatus fpu bus state a 1) :
    memory (cpuStep fpu bus state.1 state.2).2.2 = memory state.2 := by
  obtain ⟨insn, hissued, hstore, ⟨hok, htaken⟩, -, hone⟩ := h
  have hstep := @monitor_cpuStep σ fpu α bus memory hsvc hkeep state
  rw [hissued] at hstep
  obtain ⟨wrote, hobeys, hmemory⟩ := hstep
  exact hmemory (hobeys.failed hstore hok htaken hone)

/-- From reset, whatever the program and the interrupts do: a store exclusive that writes a status
of zero follows a completed load exclusive at the same address, with no exception, CLREX or
store exclusive since; and one that writes a status of one leaves memory as it was. -/
theorem writesStatus_run (fpu : HostFpu) (bus : Bus σ) (cpu : Cpu) (ctx : σ)
    (events : List (Event σ)) (a : Word) (hsvc : SvcSpares bus) :
    let step := fun state event ↦ Event.apply fpu bus state event
    let start := (armReset cpu, ctx)
    let state := Run.run step start events
    (WritesStatus fpu bus state a 0 → ∃ before after, events = before ++ .step :: after ∧
        CompletesLoad fpu bus (Run.run step start before) a ∧
        Run.Within step (fun state event ↦ event = .step → ¬Clears fpu bus state)
          (Run.run step start (before ++ [.step])) after) ∧
    (WritesStatus fpu bus state a 1 → ∀ (α : Type) (memory : σ → α), ReadsKeep bus memory →
      memory (cpuStep fpu bus state.1 state.2).2.2 = memory state.2) := by
  intro step start state
  refine ⟨fun hzero ↦ ?_, fun hone α memory hkeep ↦ memory_of_writesStatus hsvc hkeep hone⟩
  have hinitial : ¬start.1.core.reserved = some a := fun h ↦ nomatch h
  obtain ⟨before, event, after, hevents, ⟨rfl, hload⟩, hafter⟩ :=
    @Run.since _ _ step (fun state ↦ state.1.core.reserved = some a) _ _
      (fun state event h ↦ reserved_apply hsvc event h) _ hinitial _
      (reserved_of_writesStatus hsvc hzero)
  exact ⟨before, after, hevents, hload, hafter⟩

/-- Memory that holds LDREX r0, [r1] at zero and STREX r2, r0, [r1] after it. -/
def lockBus : Bus Unit :=
  { constantBus 0xe1812f90 with
    read32 := fun _ pa ↦ (if pa = 0 then 0xe1910f9f else 0xe1812f90, ()) }

/-- The store that follows the load succeeds. -/
theorem writesStatus_run_pair :
    ∃ before after, ([.step] : List (Event Unit)) = before ++ .step :: after ∧
      CompletesLoad idleFpu lockBus (Run.run (fun state event ↦ Event.apply idleFpu lockBus state
        event) (armReset userCpu, ()) before) 0 ∧
      Run.Within (fun state event ↦ Event.apply idleFpu lockBus state event)
        (fun state event ↦ event = .step → ¬Clears idleFpu lockBus state)
        (Run.run (fun state event ↦ Event.apply idleFpu lockBus state event)
          (armReset userCpu, ()) (before ++ [.step])) after :=
  (writesStatus_run idleFpu lockBus userCpu () [.step] 0 fun _ h ↦ nomatch h).1
    ⟨0xe1812f90, by decide +kernel, by decide +kernel, ⟨by decide +kernel, by decide +kernel⟩,
      by decide +kernel, by decide +kernel⟩

end S5LBox.Arm
