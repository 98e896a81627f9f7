import S5LBox.Soc.RunLoop

/-!
# How long a run takes

A round that the hook does not take retires an instruction or ends the run. A hook that returns
through the link register leaves the program counter there, so that it can take the next round
too only if the link register names the address it is at; where that never happens the rounds are
at most two for each instruction.
-/

namespace S5LBox.Soc

open S5LBox.Arm

variable {η σ : Type} {b : Board σ} {hook : Hook η σ} {max : ℕ} {s next last : Loop η σ}
variable {decoder : InsnDecoder} {bus : Bus σ} {runner : Runner σ} {m : S5l8900 σ}
variable {state : StaticState} {status : Status}

theorem selectBlock_le {pc : Word} {remaining : ℕ} {block : Block}
    (h : (selectBlock decoder bus m state pc remaining).1 = some block) :
    block.insnCount ≤ remaining := by
  simp only [selectBlock] at h
  split at h
  · contradiction
  · split at h
    · contradiction
    · split at h
      · contradiction
      · split at h
        · next hfits =>
          rw [Option.some.injEq] at h
          rwa [← h]
        · exact (decodeLongest_some h).2

theorem plainLoop_retired_le (rounds remaining : ℕ) :
    (plainLoop decoder bus runner rounds m state remaining).retired ≤ remaining := by
  induction rounds generalizing m state remaining with
  | zero => exact Nat.zero_le _
  | succ rounds ih =>
    rw [plainLoop]
    split
    · exact Nat.zero_le _
    · have hselected (block : Block)
          (h : (selectBlock decoder bus m state (m.cpu.core.r 15) remaining).1 = some block) :
          block.insnCount ≤ remaining := selectBlock_le h
      simp only
      generalize selectBlock decoder bus m state (m.cpu.core.r 15) remaining = choice at *
      obtain ⟨selected, after⟩ := choice
      cases selected with
      | none => exact Nat.zero_le _
      | some block =>
        have hcount := hselected block rfl
        simp only
        cases hrun : runMemoryHitsDecoded runner m block after.vfpFpSession with
        | none => exact Nat.zero_le _
        | some outcome =>
          obtain ⟨completed, cpu, ctx⟩ := outcome
          have hcompleted := runMemoryHitsDecoded_le hrun
          simp only
          split
          · exact le_trans hcompleted hcount
          · have hrest := @ih { m with cpu, ctx } after (remaining - completed)
            change completed + _ ≤ remaining
            omega

theorem chainLoop_retired_le {budget : ℕ} {fetchBlock : Word} (rounds completed : ℕ)
    (block : Block) (h : completed ≤ budget) :
    (chainLoop decoder bus runner budget fetchBlock rounds m state completed block).retired ≤
      budget := by
  induction rounds generalizing m state completed block with
  | zero => exact h
  | succ rounds ih =>
    rw [chainLoop]
    simp only
    generalize runner state.vfpFpSession block (m.cpu, m.ctx) = outcome
    obtain ⟨result, cpu, ctx⟩ := outcome
    simp only
    split
    · split
      · exact h
      · next hpart =>
        change completed + _ ≤ budget
        omega
    · split
      · exact h
      · next hfits =>
        have hstop : completed + block.insnCount ≤ budget := by omega
        split
        · exact hstop
        · split
          · exact hstop
          · split
            · exact hstop
            · exact ih _ _ hstop

theorem tryPersistent_retired_le (budget : ℕ) :
    (tryPersistent decoder bus runner m state budget).retired ≤ budget := by
  rw [tryPersistent]
  simp only
  split
  · exact Nat.zero_le _
  · split
    · exact Nat.zero_le _
    · split
      · exact Nat.zero_le _
      · exact chainLoop_retired_le _ 0 _ (Nat.zero_le _)

theorem s5l8900StaticA64Try_retired_le (maxInsns : ℕ) :
    (s5l8900StaticA64Try decoder bus runner m maxInsns).retired ≤ maxInsns := by
  rw [s5l8900StaticA64Try]
  split
  · exact Nat.zero_le _
  · split
    · exact Nat.zero_le _
    · split
      · exact Nat.zero_le _
      · simp only
        split
        · exact le_trans (tryPersistent_retired_le _) (min_le_left _ _)
        · exact le_trans (plainLoop_retired_le _ _) (min_le_left _ _)

theorem retirementBatchLimit_le (b : Board σ) (m : S5l8900 σ) (remaining : ℕ) :
    retirementBatchLimit b m remaining ≤ remaining := by
  rw [retirementBatchLimit]
  split
  · exact Nat.zero_le _
  · exact min_le_right _ _

theorem interpreterTickBatchLimit_le (b : Board σ) (m : S5l8900 σ) (remaining : ℕ) :
    interpreterTickBatchLimit b m remaining ≤ remaining := by
  rw [interpreterTickBatchLimit]
  split
  · exact Nat.zero_le _
  · exact retirementBatchLimit_le b m remaining

theorem batchLoop_retired (left : ℕ) (m : S5l8900 σ) : (batchLoop b left m).2.1 ≤ left ∧
      (0 < left → (batchLoop b left m).1 = .ok → 0 < (batchLoop b left m).2.1) := by
  induction left generalizing m with
  | zero => exact ⟨le_rfl, fun h ↦ absurd h (lt_irrefl 0)⟩
  | succ left ih =>
    rw [batchLoop]
    simp only
    split
    · next hstatus => exact ⟨Nat.zero_le _, fun _ hok ↦ absurd hok hstatus⟩
    · split
      · exact ⟨Nat.succ_le_succ (Nat.zero_le _), fun _ _ ↦ Nat.one_pos⟩
      · exact ⟨Nat.succ_le_succ (ih _).1, fun _ _ ↦ Nat.succ_pos _⟩

/-- What a part of a round that may go on does to the count. -/
def Advances (max : ℕ) (s : Loop η σ) : Turn η σ → Prop
  | .again next => s.n < next.n ∧ next.n ≤ max
  | .stop last _ => last.n ≤ max

theorem interpreterTurn_advances (hn : s.n < max) : Advances max s (interpreterTurn b max s) := by
  rw [interpreterTurn]
  simp only
  split
  · next hlimit =>
    have hbound := interpreterTickBatchLimit_le b s.machine (max - s.n)
    obtain ⟨hle, hpos⟩ :=
      @batchLoop_retired σ b (interpreterTickBatchLimit b s.machine (max - s.n)) s.machine
    generalize batchLoop b (interpreterTickBatchLimit b s.machine (max - s.n)) s.machine = batch
      at *
    obtain ⟨status, retired, m⟩ := batch
    simp only at hle hpos ⊢
    split
    · change s.n + retired ≤ max
      omega
    · next hstatus =>
      have hsome := hpos (by omega) (not_not.mp hstatus)
      change s.n < s.n + retired ∧ s.n + retired ≤ max
      omega
  · split
    · exact hn.le
    · exact ⟨Nat.lt_succ_self _, hn⟩

/-- The engine's part of a round does not overrun the run, and ends the round only after it has
retired something. -/
theorem staticTurn_advances (hn : s.n < max) :
    s.n ≤ (staticTurn b max s).2.n ∧ (staticTurn b max s).2.n ≤ max ∧
      ((staticTurn b max s).1 = true → s.n < (staticTurn b max s).2.n) ∧
      ((staticTurn b max s).1 = false → (staticTurn b max s).2.n < max) := by
  rw [staticTurn]
  split
  · exact ⟨le_rfl, hn.le, by simp, fun _ ↦ hn⟩
  · have hbound := retirementBatchLimit_le b s.machine (max - s.n)
    have hretired : (if retirementBatchLimit b s.machine (max - s.n) = 0 then
          ({ machine := s.machine } : TryResult σ)
        else s5l8900StaticA64Try b.decoder b.bus b.runner s.machine
          (retirementBatchLimit b s.machine (max - s.n))).retired ≤ max - s.n := by
      split
      · exact Nat.zero_le _
      · exact le_trans (s5l8900StaticA64Try_retired_le _) hbound
    simp only
    generalize (if retirementBatchLimit b s.machine (max - s.n) = 0 then
        ({ machine := s.machine } : TryResult σ)
      else s5l8900StaticA64Try b.decoder b.bus b.runner s.machine
        (retirementBatchLimit b s.machine (max - s.n))) = result at *
    split
    · exact ⟨le_rfl, hn.le, by simp, fun _ ↦ hn⟩
    · next hsome =>
      simp only [Bool.or_eq_false_iff, decide_eq_false_iff_not]
      refine ⟨by omega, by omega, fun _ ↦ by omega, fun h ↦ ?_⟩
      omega

theorem offer_n (hook : Hook η σ) (s : Loop η σ) : (offer hook s).2.n = s.n := by
  rw [offer]
  split
  · rfl
  · rfl

/-- The state after a step that the hook took. -/
def replaced (b : Board σ) (hook : Hook η σ) (s : Loop η σ) : Loop η σ :=
  { (offer hook s).2 with machine := s5l8900Tick b (offer hook s).2.machine 1 }

/-- A round that goes on was taken by the hook, or has retired something. -/
theorem turn_advances (hn : s.n ≤ max) :
    (s.n < max ∧ (offer hook s).1 = true ∧ turn b hook max s = .again (replaced b hook s)) ∨
    Advances max s (turn b hook max s) := by
  rw [turn]
  split
  · exact .inr hn
  · next hmore =>
    have hoffer := offer_n hook s
    simp only
    split
    · next hhandled => exact .inl ⟨by omega, hhandled, rfl⟩
    · obtain ⟨hle, hmax, hended, hgoes⟩ :=
        @staticTurn_advances η σ b max (offer hook s).2 (by omega)
      split
      · next hend =>
        have hlt := hended hend
        exact .inr ⟨by omega, hmax⟩
      · next hgo =>
        have hstep := @interpreterTurn_advances η σ b max (staticTurn b max (offer hook s).2).2
          (hgoes (by simpa using hgo))
        right
        generalize interpreterTurn b max (staticTurn b max (offer hook s).2).2 = outcome at *
        cases outcome with
        | again next => exact ⟨by have := hstep.1; omega, hstep.2⟩
        | stop last status => exact hstep

/-- A hook that takes a step does so by returning through the link register, and one that does
not leaves the core alone. -/
structure ReturnsThroughLr (hook : Hook η σ) : Prop where
  taken : ∀ state m, (hook state m).1 = true →
    (hook state m).2.2.1.core = m.cpu.core.setR 15 (m.cpu.core.r 14)
  declined : ∀ state m, (hook state m).1 = false → (hook state m).2.2.1.core = m.cpu.core

/-- The hook takes the step, and the address it returns to is the one it was taken at. -/
def Reenters (hook : Hook η σ) (s : Loop η σ) : Prop :=
  (offer hook s).1 = true ∧ s.machine.cpu.core.r 14 &&& ~~~1 = s.machine.cpu.core.r 15 &&& ~~~1

/-- The link register and the program counter after a step that the hook took. -/
theorem offer_taken (hreturns : ReturnsThroughLr hook) (h : (offer hook s).1 = true) :
    (offer hook s).2.machine.cpu.core = s.machine.cpu.core.setR 15 (s.machine.cpu.core.r 14) := by
  rw [offer] at h ⊢
  split at h
  · next hmatches =>
    rw [if_pos hmatches]
    exact hreturns.taken s.hook s.machine h
  · contradiction

/-- After a step that the hook took it can only take the next one by entering again. -/
theorem reenters_of_offer (hreturns : ReturnsThroughLr hook) (h : (offer hook s).1 = true)
    (hagain : (offer hook (replaced b hook s)).1 = true) : Reenters hook (replaced b hook s) := by
  refine ⟨hagain, ?_⟩
  have hcore := offer_taken hreturns h
  change (offer hook s).2.machine.cpu.core.r 14 &&& ~~~1 =
    (offer hook s).2.machine.cpu.core.r 15 &&& ~~~1
  rw [hcore]
  rfl

theorem Reaches.trans {start : Loop η σ} (h : Reaches b hook max start s)
    (hnext : Reaches b hook max s next) : Reaches b hook max start next := by
  induction hnext with
  | start => exact h
  | again _ round ih => exact ih.again round

/-- One more round at the end of a run. -/
theorem turns_again {start : Loop η σ} {count : ℕ} (h : turns b hook max count start = .again s)
    (hround : turn b hook max s = .again next) :
    turns b hook max (count + 1) start = .again next := by
  induction count generalizing start with
  | zero =>
    rw [turns, Turn.again.injEq] at h
    simp only [turns, h, hround]
  | succ count ih =>
    rw [turns] at h ⊢
    cases hfirst : turn b hook max start with
    | stop last status =>
      rw [hfirst] at h
      contradiction
    | again second =>
      rw [hfirst] at h
      exact ih h

/-- The states a run comes to are the ones its rounds leave. -/
theorem exists_turns_of_reaches {start : Loop η σ} (h : Reaches b hook max start s) :
    ∃ count, turns b hook max count start = .again s := by
  induction h with
  | start => exact ⟨0, rfl⟩
  | again _ round ih =>
    obtain ⟨count, hcount⟩ := ih
    exact ⟨count + 1, turns_again hcount round⟩

/-- A run that has ended stays so. -/
theorem turns_of_stop {start : Loop η σ} {count more : ℕ} (hle : count ≤ more)
    (h : turns b hook max count start = .stop last status) :
    turns b hook max more start = .stop last status := by
  induction count generalizing start more with
  | zero => contradiction
  | succ count ih =>
    obtain _ | more := more
    · contradiction
    · rw [turns] at h ⊢
      cases hfirst : turn b hook max start with
      | stop final ending =>
        rw [hfirst] at h
        exact h
      | again second =>
        rw [hfirst] at h
        exact ih (Nat.le_of_succ_le_succ hle) h

instance (hook : Hook η σ) (s : Loop η σ) : Decidable (Reenters hook s) :=
  inferInstanceAs (Decidable (_ ∧ _))

/-- The rounds that are left at most: two for each instruction, and one more before a step that
the hook takes. -/
def roundsLeft (hook : Hook η σ) (max : ℕ) (s : Loop η σ) : ℕ :=
  2 * (max - s.n) + if (offer hook s).1 then 1 else 0

theorem roundsLeft_turn (hreturns : ReturnsThroughLr hook) (hn : s.n ≤ max)
    (hround : turn b hook max s = .again next) (hnot : ¬Reenters hook next) :
    next.n ≤ max ∧ roundsLeft hook max next < roundsLeft hook max s := by
  rcases @turn_advances η σ b hook max s hn with ⟨hmore, hhandled, heq⟩ | hadvances
  · rw [heq, Turn.again.injEq] at hround
    subst hround
    have hsame : (replaced b hook s).n = s.n := offer_n hook s
    have hdeclined : (offer hook (replaced b hook s)).1 = false := by
      by_contra htaken
      exact hnot (reenters_of_offer hreturns hhandled (by simpa using htaken))
    refine ⟨hsame.le.trans hn, ?_⟩
    rw [roundsLeft, roundsLeft, hdeclined, hhandled, hsame]
    exact Nat.lt_succ_self _
  · rw [hround] at hadvances
    obtain ⟨hlt, hle⟩ := hadvances
    refine ⟨hle, ?_⟩
    simp only [roundsLeft]
    split <;> split <;> omega

/-- A run in which no step that the hook takes comes back to itself ends, within its bound. -/
theorem turns_stop (hreturns : ReturnsThroughLr hook) (start : Loop η σ) (hn : start.n ≤ max)
    (hnot : ∀ s, Reaches b hook max start s → ¬Reenters hook s) :
    ∃ count ≤ roundsLeft hook max start + 1, ∃ last status,
      turns b hook max count start = .stop last status ∧ last.n ≤ max := by
  induction hleft : roundsLeft hook max start using Nat.strong_induction_on generalizing start with
  | h left ih =>
    cases hround : turn b hook max start with
    | stop last status =>
      refine ⟨1, by omega, last, status, ?_, ?_⟩
      · simp only [turns, hround]
      · rcases @turn_advances η σ b hook max start hn with ⟨_, _, heq⟩ | hadvances
        · rw [hround] at heq
          contradiction
        · rw [hround] at hadvances
          exact hadvances
    | again next =>
      have hreach : Reaches b hook max start next := Reaches.start.again hround
      obtain ⟨hle, hless⟩ := roundsLeft_turn hreturns hn hround (hnot next hreach)
      obtain ⟨count, hcount, last, status, hstop, hlast⟩ := ih (roundsLeft hook max next)
        (hleft ▸ hless) next hle (fun s hs ↦ hnot s (hreach.trans hs)) rfl
      refine ⟨count + 1, by omega, last, status, ?_, hlast⟩
      simp only [turns, hround]
      exact hstop

/-- A line is up that the core does not mask. A core in no mode at all stops before it looks. -/
def Pending (c : Core) : Prop :=
  armModeIsValid c.cpsr = true ∧
    ((c.fiqLine = true ∧ c.getFlag cpsrF = false) ∨ (c.irqLine = true ∧ c.getFlag cpsrI = false))

/-- What is left of a core that has just entered an interrupt. -/
def Interrupted (c c' : Core) : Prop :=
  ∃ vector, (vector = vecIrq ∨ vector = vecFiq) ∧ c'.taken = vector :: c.taken ∧ c'.isPriv = true

theorem interrupted_enterException {c before : Core} {vector mode ret : Word} {maskFiq : Bool}
    (hvector : vector = vecIrq ∨ vector = vecFiq) (hmode : mode = modeIrq ∨ mode = modeFiq)
    (htaken : before.taken = c.taken) :
    Interrupted c (enterException before vector mode ret maskFiq) := by
  have h := excepted_enterException before vector mode ret maskFiq
  refine ⟨vector, hvector, by rw [h.taken, htaken], ?_⟩
  have hkept : (enterException before vector mode ret maskFiq).cpsr &&& cpsrModeMask =
      mode &&& cpsrModeMask := by
    apply h.mode
    rcases hmode with rfl | rfl
    · decide
    · decide
  rw [Core.isPriv, hkept]
  rcases hmode with rfl | rfl
  · decide
  · decide

theorem cpuStep_pending (fpu : HostFpu) (bus : Bus σ) {cpu : Cpu} (ctx : σ) (h : Pending cpu.core) :
    ∃ core, cpuStep fpu bus cpu ctx = (.ok, ⟨core, cpu.caches⟩, ctx) ∧
      Interrupted cpu.core core := by
  obtain ⟨hmode, hlines⟩ := h
  simp only [cpuStep, armStep, hmode, Bool.not_true, Bool.false_eq_true, if_false]
  split
  · exact ⟨_, rfl, interrupted_enterException (.inr rfl) (.inr rfl) rfl⟩
  · next hfiq =>
    have hirq : cpu.core.irqLine = true ∧ cpu.core.getFlag cpsrI = false := by
      rcases hlines with hline | hline
      · exact absurd (by simpa using hline) hfiq
      · exact hline
    rw [if_pos (by simpa using hirq)]
    exact ⟨_, rfl, interrupted_enterException (.inl rfl) (.inl rfl) rfl⟩

/-- The signed engine begins nothing while an interrupt is pending. -/
theorem headHost_pending (h : Pending m.cpu.core) (pc : Word) : headHost m pc = none := by
  have hmay : mayRun m.cpu.core = false := by
    rcases h.2 with ⟨hline, hmask⟩ | ⟨hline, hmask⟩
    · simp [mayRun, hline, hmask]
    · simp [mayRun, hline, hmask]
  simp [headHost, hmay]

theorem selectBlock_pending (h : Pending m.cpu.core) (pc : Word) (remaining : ℕ) :
    selectBlock decoder bus m state pc remaining = (none, state) := by
  rw [selectBlock, headHost_pending h]

theorem plainLoop_pending (h : Pending m.cpu.core) (rounds remaining : ℕ) :
    plainLoop decoder bus runner rounds m state remaining = ⟨0, m.cpu, m.ctx, state, []⟩ := by
  cases rounds with
  | zero => rfl
  | succ rounds =>
    rw [plainLoop]
    simp only [selectBlock_pending h, ite_self]

theorem tryPersistent_pending (h : Pending m.cpu.core) (budget : ℕ) :
    tryPersistent decoder bus runner m state budget = ⟨0, m.cpu, m.ctx, state, []⟩ := by
  simp only [tryPersistent, selectBlock_pending h]

theorem refillFetch_pending (h : Pending m.cpu.core) :
    refillFetch bus m state = (some m, state) := by
  have hmay : mayRun m.cpu.core = false := by
    rcases h.2 with ⟨hline, hmask⟩ | ⟨hline, hmask⟩
    · simp [mayRun, hline, hmask]
    · simp [mayRun, hline, hmask]
  simp [refillFetch, needsRefill, hmay]

theorem s5l8900StaticA64Try_pending (h : Pending m.cpu.core) (maxInsns : ℕ) :
    (s5l8900StaticA64Try decoder bus runner m maxInsns).retired = 0 ∧
      (s5l8900StaticA64Try decoder bus runner m maxInsns).machine.cpu = m.cpu ∧
      (s5l8900StaticA64Try decoder bus runner m maxInsns).machine.ctx = m.ctx := by
  rw [s5l8900StaticA64Try]
  split
  · exact ⟨rfl, rfl, rfl⟩
  · split
    · exact ⟨rfl, rfl, rfl⟩
    · rw [refillFetch_pending h]
      simp only [plainLoop_pending h, tryPersistent_pending h, ite_self]
      exact ⟨trivial, trivial, trivial⟩

theorem staticTurn_pending (h : Pending s.machine.cpu.core) :
    (staticTurn b max s).1 = false ∧ (staticTurn b max s).2.n = s.n ∧
      (staticTurn b max s).2.machine.cpu = s.machine.cpu := by
  rw [staticTurn]
  split
  · exact ⟨rfl, rfl, rfl⟩
  · by_cases hlimit : retirementBatchLimit b s.machine (max - s.n) = 0
    · simp [hlimit]
    · obtain ⟨hretired, hcpu, -⟩ := @s5l8900StaticA64Try_pending σ b.decoder b.bus b.runner
        s.machine h (retirementBatchLimit b s.machine (max - s.n))
      simp [hlimit, hretired, hcpu]

/-- The round retires one instruction, and that is the entry of an interrupt. -/
def TakesInterrupt (s : Loop η σ) (round : Turn η σ) : Prop :=
  ∃ next, round = .again next ∧ next.n = s.n + 1 ∧
    Interrupted s.machine.cpu.core next.machine.cpu.core

theorem interpreterTurn_pending (h : Pending s.machine.cpu.core) :
    TakesInterrupt s (interpreterTurn b max s) := by
  obtain ⟨core, hstep, htaken⟩ := cpuStep_pending b.fpu b.bus s.machine.ctx h
  have hmachine : stepMachine b s.machine =
      (.ok, b.wire { s.machine with cpu := ⟨core, s.machine.cpu.caches⟩ }) := by
    rw [stepMachine, hstep]
  obtain ⟨vector, hvector, hstack, hpriv⟩ := htaken
  rw [interpreterTurn]
  simp only
  split
  · next hlimit =>
    generalize interpreterTickBatchLimit b s.machine (max - s.n) = limit at *
    obtain _ | limit := limit
    · contradiction
    · have hbatch : batchLoop b (limit + 1) s.machine =
          (.ok, 1, b.wire { s.machine with cpu := ⟨core, s.machine.cpu.caches⟩ }) := by
        rw [batchLoop, hmachine]
        simp only [ne_eq, not_true_eq_false, if_false]
        exact if_pos (Or.inr (Or.inr hpriv))
      rw [hbatch]
      exact ⟨_, rfl, rfl, vector, hvector, hstack, hpriv⟩
  · rw [hmachine]
    exact ⟨_, rfl, rfl, vector, hvector, hstack, hpriv⟩

theorem turn_pending (hreturns : ReturnsThroughLr hook) (hn : s.n < max)
    (h : Pending s.machine.cpu.core) (hdeclined : (offer hook s).1 = false) :
    TakesInterrupt s (turn b hook max s) := by
  have hcore : (offer hook s).2.machine.cpu.core = s.machine.cpu.core := by
    rw [offer] at hdeclined ⊢
    split at hdeclined
    · next hmatches =>
      rw [if_pos hmatches]
      exact hreturns.declined s.hook s.machine hdeclined
    · next hmatches => rw [if_neg hmatches]
  have hn' := offer_n hook s
  rw [turn, if_neg (by omega)]
  generalize offer hook s = offered at *
  obtain ⟨handled, after⟩ := offered
  simp only at hdeclined hcore hn' ⊢
  rw [hdeclined, if_neg (by decide)]
  rw [← hcore] at h
  obtain ⟨hended, hsame, hcpu⟩ := @staticTurn_pending η σ b max after h
  generalize staticTurn b max after = tried at *
  obtain ⟨ended, tried⟩ := tried
  simp only at hended hsame hcpu ⊢
  rw [hended, if_neg (by decide)]
  obtain ⟨next, hround, hcount, htaken⟩ :=
    @interpreterTurn_pending η σ b max tried (by rwa [hcpu])
  refine ⟨next, hround, by omega, ?_⟩
  rwa [hcpu, hcore] at htaken

theorem turn_pending_or (hreturns : ReturnsThroughLr hook) (hn : s.n < max)
    (h : Pending s.machine.cpu.core)
    (hnot : ∀ next, turn b hook max s = .again next → ¬Reenters hook next) :
    TakesInterrupt s (turn b hook max s) ∨ ∃ next, turn b hook max s = .again next ∧ next.n = s.n ∧
        (Pending next.machine.cpu.core → TakesInterrupt next (turn b hook max next)) := by
  by_cases hoffer : (offer hook s).1 = true
  · right
    have hround : turn b hook max s = .again (replaced b hook s) := by
      rw [turn, if_neg (by omega)]
      simp only [hoffer, if_true]
      rfl
    have hsame : (replaced b hook s).n = s.n := offer_n hook s
    refine ⟨replaced b hook s, hround, hsame, fun hpending ↦ ?_⟩
    apply turn_pending hreturns (by omega) hpending
    by_contra htaken
    exact hnot _ hround (reenters_of_offer hreturns hoffer (by simpa using htaken))
  · exact .inl (turn_pending hreturns hn h (by simpa using hoffer))

end S5LBox.Soc
