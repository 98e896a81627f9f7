import S5LBox.Arm.SoundRegister

/-!
# The register banks

What an instruction in any mode sees as its registers, wherever the core keeps them: in the live
file, in the bank of the mode, or in one of the two arrays that park r8 to r12. Changing the mode
moves registers between these places and changes none of them.
-/

namespace S5LBox.Arm

open Function
open Function (update)

variable {c : Core} {ob nb : Bank} {n : Reg} {i : Fin 5}

theorem parked_spec : ∀ n i, parked n = some i → 8 + BitVec.ofNat 4 i = n := by decide

theorem park_of_parked {r : Reg → Word} (h : parked n = some i) : park r i = r n := by
  unfold park
  rw [parked_spec n i h]

@[simp] theorem parked_sp : parked 13 = none := by decide

@[simp] theorem parked_lr : parked 14 = none := by decide

theorem unpark_some {array : Fin 5 → Word} {r : Reg → Word} (h : parked n = some i) :
    unpark array r n = array i := by
  unfold unpark
  rw [h]

theorem unpark_none {array : Fin 5 → Word} {r : Reg → Word} (h : parked n = none) :
    unpark array r n = r n := by
  unfold unpark
  rw [h]

/-- What was parked comes back, over any file that agrees elsewhere. -/
theorem unpark_park {r r' : Reg → Word} (h : parked n = none → r' n = r n) :
    unpark (park r) r' n = r n := by
  cases hn : parked n with
  | none => rw [unpark_none hn, h hn]
  | some i => rw [unpark_some hn, park_of_parked hn]

/-- The register that a mode with the bank `b` sees while the bank `cur` is live. -/
def bankView (c : Core) (cur b : Bank) (n : Reg) : Word :=
  if b = cur then c.r n
  else if n = 13 then c.bankR13 b
  else if n = 14 then c.bankR14 b
  else if b = .fiq then unpark c.fiqR8_12 c.r n
  else if cur = .fiq then unpark c.usrR8_12 c.r n
  else c.r n

/-- The register that an instruction in a mode sees. -/
def view (c : Core) (mode : Word) (n : Reg) : Word :=
  bankView c (armBankOfMode c.cpsr) (armBankOfMode mode) n

theorem bankView_self (c : Core) (b : Bank) (n : Reg) : bankView c b b n = c.r n := if_pos rfl

theorem bankView_sp (c : Core) {cur b : Bank} (h : b ≠ cur) :
    bankView c cur b 13 = c.bankR13 b := by
  unfold bankView
  rw [if_neg h, if_pos rfl]

theorem bankView_lr (c : Core) {cur b : Bank} (h : b ≠ cur) :
    bankView c cur b 14 = c.bankR14 b := by
  unfold bankView
  rw [if_neg h, if_neg (by decide), if_pos rfl]

theorem bankView_low (c : Core) (cur b : Bank) (hsp : n ≠ 13) (hlr : n ≠ 14) : bankView c cur b n =
      if b = .fiq then (if cur = .fiq then c.r n else unpark c.fiqR8_12 c.r n)
      else (if cur = .fiq then unpark c.usrR8_12 c.r n else c.r n) := by
  unfold bankView
  rw [if_neg hsp, if_neg hlr]
  by_cases hb : b = .fiq
  · by_cases hcur : cur = .fiq
    · rw [if_pos (hb.trans hcur.symm), if_pos hb, if_pos hcur]
    · rw [if_neg fun h ↦ hcur (h.symm.trans hb), if_pos hb, if_pos hb, if_neg hcur]
  · by_cases hcur : cur = .fiq
    · rw [if_neg fun h ↦ hb (h.trans hcur), if_neg hb, if_pos hcur, if_neg hb]
    · rw [if_neg hb, if_neg hcur, ite_self, if_neg hb]

theorem switchBank_sp (c : Core) (h : ob ≠ nb) : (switchBank c ob nb).r 13 = c.bankR13 nb := by
  unfold switchBank Core.setR
  dsimp only
  split_ifs <;> simp [update_of_ne h.symm]

theorem switchBank_lr (c : Core) (h : ob ≠ nb) : (switchBank c ob nb).r 14 = c.bankR14 nb := by
  unfold switchBank Core.setR
  dsimp only
  split_ifs <;> simp [update_of_ne h.symm]

theorem switchBank_low (c : Core) (ob nb : Bank) (hsp : n ≠ 13) (hlr : n ≠ 14) :
    (switchBank c ob nb).r n =
      if ob = .fiq then unpark c.usrR8_12 c.r n
      else if nb = .fiq then unpark c.fiqR8_12 c.r n
      else c.r n := by
  unfold switchBank Core.setR
  dsimp only
  rw [update_of_ne hlr, update_of_ne hsp]
  split_ifs <;> rfl

theorem switchBank_bankR13 (c : Core) (ob nb : Bank) :
    (switchBank c ob nb).bankR13 = update c.bankR13 ob (c.r 13) := by
  unfold switchBank Core.setR
  dsimp only
  split_ifs <;> rfl

theorem switchBank_bankR14 (c : Core) (ob nb : Bank) :
    (switchBank c ob nb).bankR14 = update c.bankR14 ob (c.r 14) := by
  unfold switchBank Core.setR
  dsimp only
  split_ifs <;> rfl

theorem switchBank_fiqR8_12 (c : Core) (ob nb : Bank) :
    (switchBank c ob nb).fiqR8_12 = if ob = .fiq then park c.r else c.fiqR8_12 := by
  unfold switchBank Core.setR
  dsimp only
  split_ifs <;> rfl

theorem switchBank_usrR8_12 (c : Core) (hob : ob ≠ .fiq) :
    (switchBank c ob nb).usrR8_12 = if nb = .fiq then park c.r else c.usrR8_12 := by
  unfold switchBank Core.setR
  dsimp only
  rw [if_neg hob]
  split_ifs <;> rfl

theorem bankView_switchBank (c : Core) (h : ob ≠ nb) (b : Bank) (n : Reg) :
    bankView (switchBank c ob nb) nb b n = bankView c ob b n := by
  by_cases hsp : n = 13
  · subst hsp
    by_cases hb : b = nb
    · rw [hb, bankView_self, switchBank_sp c h, bankView_sp c h.symm]
    · rw [bankView_sp _ hb, switchBank_bankR13]
      by_cases hob : b = ob
      · rw [hob, update_self, bankView_self]
      · rw [update_of_ne hob, bankView_sp c hob]
  by_cases hlr : n = 14
  · subst hlr
    by_cases hb : b = nb
    · rw [hb, bankView_self, switchBank_lr c h, bankView_lr c h.symm]
    · rw [bankView_lr _ hb, switchBank_bankR14]
      by_cases hob : b = ob
      · rw [hob, update_self, bankView_self]
      · rw [update_of_ne hob, bankView_lr c hob]
  have hlow := switchBank_low c ob nb hsp hlr
  have hfiq := switchBank_fiqR8_12 c ob nb
  rw [bankView_low _ _ _ hsp hlr, bankView_low _ _ _ hsp hlr]
  by_cases hob : ob = .fiq
  · -- Leaving FIQ: its registers are parked now, and the others are live.
    have hnb : nb ≠ .fiq := fun hnb ↦ h (hob.trans hnb.symm)
    rw [if_neg hnb, if_neg hnb, if_pos hob, if_pos hob, hfiq, if_pos hob]
    rw [if_pos hob] at hlow
    rw [hlow]
    congr 1
    exact unpark_park fun hn ↦ hlow.trans (unpark_none hn)
  · have husr : (switchBank c ob nb).usrR8_12 = if nb = .fiq then park c.r else c.usrR8_12 :=
      switchBank_usrR8_12 c hob
    rw [if_neg hob, if_neg hob]
    rw [if_neg hob] at hlow hfiq
    rw [hfiq, husr]
    by_cases hnb : nb = .fiq
    · rw [if_pos hnb, if_pos hnb, if_pos hnb]
      rw [if_pos hnb] at hlow
      rw [hlow]
      congr 1
      exact unpark_park fun hn ↦ hlow.trans (unpark_none hn)
    · rw [if_neg hnb, if_neg hnb]
      rw [if_neg hnb] at hlow
      rw [hlow]
      congr 1
      cases hn : parked n with
      | none => rw [unpark_none hn, unpark_none hn, hlow]
      | some i => rw [unpark_some hn, unpark_some hn]

theorem armBankOfMode_congr {a b : Word} (h : a &&& cpsrModeMask = b &&& cpsrModeMask) :
    armBankOfMode a = armBankOfMode b := by
  rw [armBankOfMode, armBankOfMode, h]

theorem bank_armSetMode (c : Core) {mode : Word} (h : armModeIsValid mode = true) :
    armBankOfMode (armSetMode c mode).cpsr = armBankOfMode mode := by
  rw [cpsr_armSetMode, if_pos h]
  exact armBankOfMode_congr (merge_and_mask ..)

theorem bankView_cpsr (c : Core) (cpsr : Word) (cur b : Bank) (n : Reg) :
    bankView { c with cpsr } cur b n = bankView c cur b n := rfl

theorem bankView_armSetMode (c : Core) (target : Word) (b : Bank) (n : Reg) :
    bankView (armSetMode c target) (armBankOfMode (armSetMode c target).cpsr) b n =
      bankView c (armBankOfMode c.cpsr) b n := by
  by_cases hvalid : armModeIsValid target = true
  · rw [bank_armSetMode c hvalid]
    unfold armSetMode
    rw [if_pos hvalid]
    dsimp only
    rw [bankView_cpsr]
    split
    case isTrue hne => exact bankView_switchBank c hne b n
    case isFalse heq => rw [not_not.1 heq]
  · unfold armSetMode
    rw [if_neg hvalid]

theorem view_armSetMode (c : Core) (target mode : Word) (n : Reg) :
    view (armSetMode c target) mode n = view c mode n := bankView_armSetMode ..

/-- A bank sees the same register as User mode. -/
def SharedWithUser (b : Bank) (n : Reg) : Prop :=
  b = .usr ∨ (n ≠ 13 ∧ n ≠ 14 ∧ (parked n = none ∨ b ≠ .fiq))

instance (b : Bank) (n : Reg) : Decidable (SharedWithUser b n) := by
  unfold SharedWithUser
  infer_instance

theorem regReadUser_eq_view (c : Core) (pc : Word) (n : Reg) :
    regReadUser c pc n = if n = 15 then pc + 8 else view c modeUsr n := by
  have husr : armBankOfMode modeUsr = .usr := by decide
  unfold regReadUser view bankView
  rw [husr]
  dsimp only
  by_cases hpc : n = 15
  · rw [if_pos hpc, if_pos hpc]
  · rw [if_neg hpc, if_neg hpc]
    by_cases hcur : armBankOfMode c.cpsr = .usr
    · rw [if_pos hcur, if_pos hcur.symm]
    · rw [if_neg hcur, if_neg (Ne.symm hcur), if_neg (show Bank.usr ≠ .fiq by decide)]

theorem bankView_common (c : Core) (cur b : Bank) (hsp : n ≠ 13) (hlr : n ≠ 14)
    (hn : parked n = none) : bankView c cur b n = c.r n := by
  rw [bankView_low c cur b hsp hlr, unpark_none hn, unpark_none hn, ite_self, ite_self]

theorem bankView_parked (c : Core) (cur b : Bank) (hn : parked n = some i) : bankView c cur b n =
      if b = .fiq then (if cur = .fiq then c.r n else c.fiqR8_12 i)
      else (if cur = .fiq then c.usrR8_12 i else c.r n) := by
  have hsp : n ≠ 13 := by
    rintro rfl
    cases parked_sp.symm.trans hn
  have hlr : n ≠ 14 := by
    rintro rfl
    cases parked_lr.symm.trans hn
  rw [bankView_low c cur b hsp hlr, unpark_some hn, unpark_some hn]

/-- A write to the live file is seen in the register that was written only. -/
theorem bankView_setR_of_ne (c : Core) {value : Word} (cur b : Bank) {m : Reg} (h : m ≠ n) :
    bankView (c.setR n value) cur b m = bankView c cur b m := by
  have hlive : (c.setR n value).r m = c.r m := update_of_ne h ..
  have hunpark : ∀ array, unpark array (c.setR n value).r m = unpark array c.r m := by
    intro array
    unfold unpark
    rw [hlive]
  unfold bankView
  rw [hlive, hunpark, hunpark]
  rfl

theorem bankView_setR (c : Core) (value : Word) (cur b : Bank) (n : Reg) :
    bankView (c.setR n value) cur b n =
      if b = cur ∨ (n ≠ 13 ∧ n ≠ 14 ∧ (parked n = none ∨ (b ≠ .fiq ∧ cur ≠ .fiq))) then value
      else bankView c cur b n := by
  by_cases hb : b = cur
  · rw [if_pos (.inl hb), hb, bankView_self, Core.setR_self]
  by_cases hsp : n = 13
  · rw [if_neg fun h ↦ h.elim hb fun h ↦ h.1 hsp, hsp, bankView_sp _ hb, bankView_sp _ hb]
    rfl
  by_cases hlr : n = 14
  · rw [if_neg fun h ↦ h.elim hb fun h ↦ h.2.1 hlr, hlr, bankView_lr _ hb, bankView_lr _ hb]
    rfl
  cases hn : parked n with
  | none => rw [if_pos (.inr ⟨hsp, hlr, .inl rfl⟩), bankView_common _ _ _ hsp hlr hn, Core.setR_self]
  | some i =>
    rw [bankView_parked _ _ _ hn, bankView_parked _ _ _ hn, Core.setR_self]
    by_cases hfiq : b = .fiq
    · have hcur : cur ≠ .fiq := fun hcur ↦ hb (hfiq.trans hcur.symm)
      rw [if_pos hfiq, if_neg hcur, if_pos hfiq, if_neg hcur, if_neg]
      · rfl
      · rintro (h | ⟨-, -, h | h⟩)
        · exact hb h
        · cases h
        · exact h.1 hfiq
    · by_cases hcur : cur = .fiq
      · rw [if_neg hfiq, if_pos hcur, if_neg hfiq, if_pos hcur, if_neg]
        · rfl
        · rintro (h | ⟨-, -, h | h⟩)
          · exact hb h
          · cases h
          · exact h.2 hcur
      · rw [if_neg hfiq, if_neg hcur, if_neg hfiq, if_neg hcur, if_pos]
        exact Or.inr ⟨hsp, hlr, Or.inr ⟨hfiq, hcur⟩⟩

variable {value : Word} {cur b : Bank} {m : Reg}

theorem bankView_userSp (c : Core) (value : Word) (hcur : cur ≠ .usr) (b : Bank) (m : Reg) :
    bankView { c with bankR13 := update c.bankR13 .usr value } cur b m =
      if m = 13 ∧ b = .usr then value else bankView c cur b m := by
  by_cases hm : m = 13
  · subst hm
    by_cases hb : b = cur
    · rw [hb, if_neg fun h ↦ hcur h.2, bankView_self, bankView_self]
    · rw [bankView_sp _ hb, bankView_sp _ hb]
      dsimp only
      by_cases husr : b = .usr
      · rw [if_pos ⟨rfl, husr⟩, husr, update_self]
      · rw [if_neg fun h ↦ husr h.2, update_of_ne husr]
  · rw [if_neg fun h ↦ hm h.1]
    unfold bankView
    rw [if_neg hm, if_neg hm]

theorem bankView_userLr (c : Core) (value : Word) (hcur : cur ≠ .usr) (b : Bank) (m : Reg) :
    bankView { c with bankR14 := update c.bankR14 .usr value } cur b m =
      if m = 14 ∧ b = .usr then value else bankView c cur b m := by
  by_cases hm : m = 14
  · subst hm
    by_cases hb : b = cur
    · rw [hb, if_neg fun h ↦ hcur h.2, bankView_self, bankView_self]
    · rw [bankView_lr _ hb, bankView_lr _ hb]
      dsimp only
      by_cases husr : b = .usr
      · rw [if_pos ⟨rfl, husr⟩, husr, update_self]
      · rw [if_neg fun h ↦ husr h.2, update_of_ne husr]
  · rw [if_neg fun h ↦ hm h.1]
    unfold bankView
    rw [if_neg hm, if_neg hm]

theorem parked_injective {n m : Reg} (hn : parked n = some i) (hm : parked m = some i) : m = n := by
  rw [← parked_spec n i hn, parked_spec m i hm]

theorem bankView_userParked (c : Core) (value : Word) (hn : parked n = some i) (b : Bank)
    (m : Reg) : bankView { c with usrR8_12 := update c.usrR8_12 i value } .fiq b m =
      if m = n ∧ b ≠ .fiq then value else bankView c .fiq b m := by
  cases hm : parked m with
  | none =>
    have hne : m ≠ n := by
      rintro rfl
      cases hm.symm.trans hn
    rw [if_neg fun h ↦ hne h.1]
    unfold bankView
    dsimp only
    rw [unpark_none hm, unpark_none hm, unpark_none hm]
  | some j =>
    rw [bankView_parked _ _ _ hm, bankView_parked _ _ _ hm]
    by_cases hb : b = .fiq
    · have hlive : ¬(m = n ∧ b ≠ .fiq) := fun h ↦ h.2 hb
      rw [if_neg hlive, if_pos hb, if_pos hb]
    · rw [if_neg hb, if_neg hb, if_pos rfl, if_pos rfl]
      dsimp only
      by_cases hne : m = n
      · subst hne
        obtain rfl := Option.some.inj (hn.symm.trans hm)
        rw [if_pos ⟨rfl, hb⟩, update_self]
      · have hother : j ≠ i := by
          rintro rfl
          exact hne (parked_injective hn hm)
        rw [if_neg fun h ↦ hne h.1, update_of_ne hother]

theorem bankView_regWriteUser (c : Core) (n : Reg) (value : Word) (b : Bank) (m : Reg) :
    bankView (regWriteUser c n value) (armBankOfMode c.cpsr) b m =
      if m = n ∧ SharedWithUser b n then value else bankView c (armBankOfMode c.cpsr) b m := by
  unfold regWriteUser
  generalize armBankOfMode c.cpsr = cur
  dsimp only
  have hset (h : (b = cur ∨ (n ≠ 13 ∧ n ≠ 14 ∧ (parked n = none ∨ (b ≠ .fiq ∧ cur ≠ .fiq)))) ↔
      SharedWithUser b n) : bankView (c.setR n value) cur b m =
        if m = n ∧ SharedWithUser b n then value else bankView c cur b m := by
    by_cases hm : m = n
    · subst hm
      rw [bankView_setR]
      exact if_congr (h.trans (and_iff_right rfl).symm) rfl rfl
    · rw [bankView_setR_of_ne c cur b hm, if_neg fun h ↦ hm h.1]
  by_cases hcur : cur = .usr
  · rw [if_pos hcur]
    apply hset
    unfold SharedWithUser
    rw [hcur]
    simp only [ne_eq, reduceCtorEq, not_false_eq_true, and_true]
  rw [if_neg hcur]
  by_cases hsp : n = 13
  · rw [if_pos hsp, bankView_userSp c value hcur]
    apply if_congr _ rfl rfl
    unfold SharedWithUser
    rw [hsp]
    simp only [ne_eq, not_true_eq_false, false_and, or_false]
  rw [if_neg hsp]
  by_cases hlr : n = 14
  · rw [if_pos hlr, bankView_userLr c value hcur]
    apply if_congr _ rfl rfl
    unfold SharedWithUser
    rw [hlr]
    simp only [ne_eq, not_true_eq_false, false_and, and_false, or_false]
  rw [if_neg hlr]
  by_cases hfiq : cur = .fiq
  · rw [if_pos hfiq]
    cases hn : parked n with
    | none =>
      have hlow : n ≠ 13 ∧ n ≠ 14 ∧ parked n = none := ⟨hsp, hlr, hn⟩
      dsimp only
      apply hset
      exact iff_of_true (.inr ⟨hlow.1, hlow.2.1, .inl hn⟩) (.inr ⟨hlow.1, hlow.2.1, .inl hn⟩)
    | some i =>
      dsimp only
      rw [hfiq, bankView_userParked c value hn]
      apply if_congr _ rfl rfl
      apply and_congr_right
      intro _
      constructor
      · intro hb
        exact .inr ⟨hsp, hlr, .inr hb⟩
      · rintro (hb | ⟨-, -, hb | hb⟩)
        · rw [hb]
          decide
        · cases hn.symm.trans hb
        · exact hb
  · rw [if_neg hfiq]
    apply hset
    constructor
    · rintro (hb | ⟨-, -, hb | hb⟩)
      · rw [hb]
        exact .inr ⟨hsp, hlr, .inr hfiq⟩
      · exact .inr ⟨hsp, hlr, .inl hb⟩
      · exact .inr ⟨hsp, hlr, .inr hb.1⟩
    · rintro (hb | ⟨-, -, hb | hb⟩)
      · rw [hb]
        exact .inr ⟨hsp, hlr, .inr ⟨by decide, hfiq⟩⟩
      · exact .inr ⟨hsp, hlr, .inl hb⟩
      · exact .inr ⟨hsp, hlr, .inr ⟨hb, hfiq⟩⟩

theorem cpsr_regWriteUser (c : Core) (n : Reg) (value : Word) :
    (regWriteUser c n value).cpsr = c.cpsr := by
  unfold regWriteUser
  dsimp only
  split_ifs
  · rfl
  · rfl
  · rfl
  · split <;> rfl
  · rfl

/-- No sequence of mode changes, to valid modes or not, changes what any mode sees; and the
accessors of the User bank read and write what User mode sees, which is what every mode sees that
shares the register with it. -/
theorem view_conserved (c : Core) (targets : List Word) :
    (∀ mode n, view (targets.foldl armSetMode c) mode n = view c mode n) ∧
      (∀ pc n, regReadUser c pc n = if n = 15 then pc + 8 else view c modeUsr n) ∧
      ∀ n value mode m, view (regWriteUser c n value) mode m =
        if m = n ∧ SharedWithUser (armBankOfMode mode) n then value else view c mode m := by
  refine ⟨?_, regReadUser_eq_view c, ?_⟩
  · intro mode n
    induction targets generalizing c with
    | nil => rfl
    | cons target rest ih =>
      calc
        view ((target :: rest).foldl armSetMode c) mode n = view (armSetMode c target) mode n :=
          ih (armSetMode c target)
        _ = view c mode n := view_armSetMode c target mode n
  · intro n value mode m
    unfold view
    rw [cpsr_regWriteUser]
    exact bankView_regWriteUser c n value _ m

end S5LBox.Arm
