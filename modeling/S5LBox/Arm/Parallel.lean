import S5LBox.Library.Words
import S5LBox.Arm.Encoding

/-!
# Parallel arithmetic on lanes

What the architecture says of parallel addition and subtraction: six classes, which differ in how
the exact result of a lane is reduced and in whether it is told by the GE bits, and six operations,
which differ in the lanes they take and in whether they add or subtract. The shared loop of
`exec_media` does this for every one of them, and SEL reads the bits that are left.
-/

namespace S5LBox.Arm

open Words
open BitVec (eq_of_getLsbD_eq getLsbD_and getLsbD_of_ge getLsbD_setWidth)

inductive LaneClass where
  | signed
  | saturating
  | signedHalving
  | unsigned
  | unsignedSaturating
  | unsignedHalving
  deriving DecidableEq

inductive LaneOp where
  | add16
  | asx
  | sax
  | sub16
  | add8
  | sub8
  deriving DecidableEq

def LaneClass.code : LaneClass → BitVec 3
  | signed => 1
  | saturating => 2
  | signedHalving => 3
  | unsigned => 5
  | unsignedSaturating => 6
  | unsignedHalving => 7

def LaneOp.code : LaneOp → BitVec 3
  | add16 => 0
  | asx => 1
  | sax => 2
  | sub16 => 3
  | add8 => 4
  | sub8 => 7

def LaneClass.isSigned : LaneClass → Bool
  | signed | saturating | signedHalving => true
  | unsigned | unsignedSaturating | unsignedHalving => false

/-- The plain classes are the ones that tell by the GE bits how their lanes came out. -/
def LaneClass.isPlain : LaneClass → Bool
  | signed | unsigned => true
  | saturating | signedHalving | unsignedSaturating | unsignedHalving => false

def LaneOp.width : LaneOp → ℕ
  | add8 | sub8 => 8
  | add16 | asx | sax | sub16 => 16

def LaneOp.lanes : LaneOp → ℕ
  | add8 | sub8 => 4
  | add16 | asx | sax | sub16 => 2

/-- The lane of the second operand a lane of the first one goes with. -/
def LaneOp.partner : LaneOp → ℕ → ℕ
  | asx, i | sax, i => 1 - i
  | add16, i | sub16, i | add8, i | sub8, i => i

def LaneOp.subtracts : LaneOp → ℕ → Bool
  | add16, _ | add8, _ => false
  | sub16, _ | sub8, _ => true
  | asx, i => i = 0
  | sax, i => i = 1

/-- A lane of a register as a number. -/
def LaneClass.operand (cls : LaneClass) (width : ℕ) (value : Word) (i : ℕ) : ℤ :=
  let lane := value.extractLsb' (i * width) width
  if cls.isSigned then lane.toInt else lane.toNat

/-- The sum or difference of the lanes, of any size. -/
def LaneOp.exact (op : LaneOp) (cls : LaneClass) (a b : Word) (i : ℕ) : ℤ :=
  let x := cls.operand op.width a i
  let y := cls.operand op.width b (op.partner i)
  if op.subtracts i then x - y else x + y

/-- The result of a lane: what fits of it, the nearest number that does, or the lower half. -/
def LaneClass.reduce (cls : LaneClass) (width : ℕ) (exact : ℤ) : BitVec width :=
  match cls with
  | signed | unsigned => BitVec.ofInt width exact
  | saturating => BitVec.ofInt width (max (-2 ^ (width - 1)) (min (2 ^ (width - 1) - 1) exact))
  | unsignedSaturating => BitVec.ofInt width (max 0 (min (2 ^ width - 1) exact))
  | signedHalving | unsignedHalving => BitVec.ofInt width (exact / 2)

/-- What a plain class tells of a lane: that the result is not negative, that an unsigned addition
carried out, or that an unsigned subtraction did not borrow. -/
def LaneOp.flag (op : LaneOp) (cls : LaneClass) (a b : Word) (i : ℕ) : Bool :=
  if cls.isSigned || op.subtracts i then 0 ≤ op.exact cls a b i
  else (2 ^ op.width : ℤ) ≤ op.exact cls a b i

def LaneOp.mask (op : LaneOp) : Word := if op.width = 8 then 0xff else 0xffff

theorem LaneOp.width_bounds (op : LaneOp) :
    0 < op.width ∧ op.width ≤ 32 ∧ op.lanes * op.width = 32 := by
  cases op <;> decide

theorem LaneOp.getLsbD_mask (op : LaneOp) {k : ℕ} (hk : k < 32) :
    op.mask.getLsbD k = decide (k < op.width) := by
  cases op <;> simp only [mask, width] <;> interval_cases k <;> rfl

variable {cls : LaneClass} {op : LaneOp}

theorem parallelOp_width : (parallelOp cls.code op.code).width = op.width := by
  cases cls <;> cases op <;> rfl

theorem parallelOp_lanes : (if (parallelOp cls.code op.code).byte then 4 else 2) = op.lanes := by
  cases cls <;> cases op <;> rfl

theorem parallelOp_lane (value : Word) (i : ℕ) :
    (parallelOp cls.code op.code).lane value i = cls.operand op.width value i := by
  cases cls <;> cases op <;>
    simp [parallelOp, ParallelOp.lane, LaneClass.operand, LaneClass.code, LaneOp.code, LaneOp.width,
      LaneClass.isSigned, BitVec.setWidth_ushiftRight_eq_extractLsb]

theorem parallelOp_exact (a b : Word) (i : ℕ) : (let o := parallelOp cls.code op.code
     let am := o.lane a i
     let bm := o.lane b (if !o.byte && (o.exchAs || o.exchSa) then 1 - i else i)
     let sub := if o.exchAs then i = 0 else if o.exchSa then i = 1 else o.isSub
     if sub then am - bm else am + bm) = op.exact cls a b i := by
  simp only [parallelOp_lane]
  cases cls <;> cases op <;>
    simp [parallelOp, LaneClass.code, LaneOp.code, LaneOp.exact, LaneOp.partner, LaneOp.subtracts]

theorem clamp_eq {lo hi : ℤ} (h : lo ≤ hi) (value : ℤ) :
    (if value < lo then lo else if hi < value then hi else value) = max lo (min hi value) := by
  split_ifs
  · omega
  · omega
  · omega

theorem parallelOp_clamp (value : ℤ) : (parallelOp cls.code op.code).clamp value =
      if cls.isSigned then max (-2 ^ (op.width - 1)) (min (2 ^ (op.width - 1) - 1) value)
      else max 0 (min (2 ^ op.width - 1) value) := by
  cases cls <;> cases op <;> exact clamp_eq (by decide) value

theorem parallelOp_flag (a b : Word) (i : ℕ) :
    ((parallelOp cls.code op.code).turn a b i).2 = op.flag cls a b i := by
  simp only [ParallelOp.turn, parallelOp_lane]
  cases cls <;> cases op <;>
    simp [parallelOp, LaneClass.code, LaneOp.code, LaneOp.flag, LaneOp.exact, LaneOp.partner,
      LaneOp.subtracts, LaneOp.width, LaneClass.isSigned]
  case unsigned.add16 | unsignedSaturating.add16 | unsignedHalving.add16 => omega
  case unsigned.add8 | unsignedSaturating.add8 | unsignedHalving.add8 => omega
  case unsigned.asx | unsignedSaturating.asx | unsignedHalving.asx =>
    by_cases hlow : i = 0
    · simp [hlow]
    · simp only [hlow, if_false, decide_eq_decide]
      omega
  case unsigned.sax | unsignedSaturating.sax | unsignedHalving.sax =>
    by_cases hhigh : i = 1
    · simp [hhigh]
    · simp only [hhigh, if_false, decide_eq_decide]
      omega

theorem parallelOp_result (a b : Word) (i : ℕ) :
    ((parallelOp cls.code op.code).turn a b i).1.setWidth op.width =
        cls.reduce op.width (op.exact cls a b i) ∧
      ∀ k, op.width ≤ k → ((parallelOp cls.code op.code).turn a b i).1.getLsbD k = false := by
  have hturn : ((parallelOp cls.code op.code).turn a b i).1 =
      BitVec.ofInt 32 (if (parallelOp cls.code op.code).halve then op.exact cls a b i / 2
        else if (parallelOp cls.code op.code).sat then
          (parallelOp cls.code op.code).clamp (op.exact cls a b i)
        else op.exact cls a b i) &&& op.mask := by
    rw [← parallelOp_exact]
    cases cls <;> cases op <;> rfl
  rw [hturn, parallelOp_clamp]
  constructor
  · have hlow (value : Word) : (value &&& op.mask).setWidth op.width = value.setWidth op.width := by
      apply eq_of_getLsbD_eq
      intro k hk
      have hwidth := op.width_bounds
      rw [getLsbD_setWidth, getLsbD_setWidth, getLsbD_and, op.getLsbD_mask (by omega)]
      simp [hk]
    rw [hlow, setWidth_ofInt op.width_bounds.2.1]
    cases cls <;> rfl
  · intro k hk
    rw [getLsbD_and]
    by_cases hinside : k < 32
    · rw [op.getLsbD_mask hinside]
      simp [hk]
    · rw [getLsbD_of_ge _ _ (not_lt.1 hinside), Bool.false_and]

/-- What a turn adds to the GE bits. -/
def LaneOp.told (op : LaneOp) (set : Bool) : Word :=
  if set then (if op.width = 8 then 1 else 3) else 0

theorem parallelOp_loop (a b : Word) (lanes : ℕ) : (parallelOp cls.code op.code).loop a b lanes =
      (row op.width (fun i ↦ ((parallelOp cls.code op.code).turn a b i).1) lanes,
        row (op.width / 8) (fun i ↦ op.told (op.flag cls a b i)) lanes) := by
  induction lanes with
  | zero => rfl
  | succ lanes ih =>
    simp only [ParallelOp.loop, ih, parallelOp_width, row, ← parallelOp_flag a b lanes]
    refine Prod.ext rfl ?_
    rcases (parallelOp cls.code op.code).turn a b lanes with ⟨lane, set⟩
    cases cls <;> cases op <;> cases set <;>
      simp [LaneOp.told, LaneOp.width, parallelOp, LaneClass.code, LaneOp.code]

theorem LaneOp.getLsbD_told (op : LaneOp) (set : Bool) {k : ℕ} (hk : k < op.width / 8) :
    (op.told set).getLsbD k = set := by
  cases op <;> cases set <;> simp only [width] at hk <;> interval_cases k <;> rfl

theorem LaneOp.told_outside (op : LaneOp) (set : Bool) {k : ℕ} (hk : op.width / 8 ≤ k) :
    (op.told set).getLsbD k = false := by
  by_cases hinside : k < 32
  · cases op <;> cases set <;> simp only [width] at hk <;> interval_cases k <;> rfl
  · exact getLsbD_of_ge _ _ (not_lt.1 hinside)

theorem parallelOp_ge (a b : Word) {j : ℕ} (hj : j < 4) :
    ((parallelOp cls.code op.code).loop a b op.lanes).2.getLsbD j =
      op.flag cls a b (j * 8 / op.width) := by
  have hwidth : 0 < op.width / 8 := by cases op <;> decide
  have hin : j / (op.width / 8) < op.lanes := by
    cases op <;> simp only [LaneOp.width, LaneOp.lanes] <;> omega
  have hlane : j / (op.width / 8) = j * 8 / op.width := by
    cases op <;> simp only [LaneOp.width] <;> omega
  rw [parallelOp_loop, getLsbD_row hwidth (fun i k ↦ op.told_outside _) (by omega),
    op.getLsbD_told _ (Nat.mod_lt _ hwidth), hlane]
  rw [hlane] at hin
  simp [hin]

theorem parallelOp_lanes_result (a b : Word) {i : ℕ} (hi : i < op.lanes) :
    ((parallelOp cls.code op.code).loop a b op.lanes).1.extractLsb' (i * op.width) op.width =
      cls.reduce op.width (op.exact cls a b i) := by
  rw [parallelOp_loop, extractLsb'_row op.width_bounds.1 (fun i ↦ (parallelOp_result a b i).2) hi
    op.width_bounds.2.2.le]
  exact (parallelOp_result a b i).1

/-- The GE bit of octet `j`. -/
def Core.ge (c : Core) (j : ℕ) : Bool := bit c.cpsr (16 + j)

/-- What a parallel instruction leaves behind: the lanes in its destination, the GE bits if its
class tells, and everything else as it was. -/
structure Parallel (cls : LaneClass) (op : LaneOp) (a b : Word) (rd : Reg) (c after : Core) :
    Prop where
  lane : ∀ i < op.lanes, (after.r rd).extractLsb' (i * op.width) op.width =
    cls.reduce op.width (op.exact cls a b i)
  ge : ∀ j < 4, after.ge j = if cls.isPlain then op.flag cls a b (j * 8 / op.width) else c.ge j
  psr : ∀ k, ¬(16 ≤ k ∧ k < 20) → bit after.cpsr k = bit c.cpsr k
  rest : after = { c with r := Function.update c.r rd (after.r rd), cpsr := after.cpsr }

variable {c : Core} {pc insn next : Word}

theorem execMedia_parallel (h : insn &&& 0x0f800f10 = 0x06000f10) :
    execMedia c pc insn next = execParallel c pc insn next := by
  have hextend : insn &&& 0x0f8003f0 ≠ 0x06800070 := ne_of_and_eq h (k := 23) rfl rfl (by decide)
  have hrev : insn &&& 0x0fff0ff0 ≠ 0x06bf0f30 := ne_of_and_eq h (k := 23) rfl rfl (by decide)
  have hrev16 : insn &&& 0x0fff0ff0 ≠ 0x06bf0fb0 := ne_of_and_eq h (k := 23) rfl rfl (by decide)
  have hrevsh : insn &&& 0x0fff0ff0 ≠ 0x06ff0fb0 := ne_of_and_eq h (k := 23) rfl rfl (by decide)
  rw [execMedia, if_neg hextend, if_neg hrev, if_neg hrev16, if_neg hrevsh, if_pos h]

theorem execMedia_select (h : insn &&& 0x0ff00ff0 = 0x06800fb0) :
    execMedia c pc insn next = execSelect c pc insn next := by
  have hextend : insn &&& 0x0f8003f0 ≠ 0x06800070 := ne_of_and_eq h (k := 7) rfl rfl (by decide)
  have hrev : insn &&& 0x0fff0ff0 ≠ 0x06bf0f30 := ne_of_and_eq h (k := 20) rfl rfl (by decide)
  have hrev16 : insn &&& 0x0fff0ff0 ≠ 0x06bf0fb0 := ne_of_and_eq h (k := 20) rfl rfl (by decide)
  have hrevsh : insn &&& 0x0fff0ff0 ≠ 0x06ff0fb0 := ne_of_and_eq h (k := 20) rfl rfl (by decide)
  have hparallel : insn &&& 0x0f800f10 ≠ 0x06000f10 := ne_of_and_eq h (k := 23) rfl rfl (by decide)
  have hdivide : insn &&& 0x0fd0f0f0 ≠ 0x0710f010 := ne_of_and_eq h (k := 24) rfl rfl (by decide)
  have hpack : insn &&& 0x0ff00030 ≠ 0x06800010 := ne_of_and_eq h (k := 5) rfl rfl (by decide)
  rw [execMedia, if_neg hextend, if_neg hrev, if_neg hrev16, if_neg hrevsh, if_neg hparallel,
    if_neg hdivide, if_neg hpack, if_pos h]

theorem LaneClass.code_injective : Function.Injective LaneClass.code := by
  intro cls cls' h
  cases cls <;> cases cls' <;> first | rfl | cases h

theorem LaneOp.code_injective : Function.Injective LaneOp.code := by
  intro op op' h
  cases op <;> cases op' <;> first | rfl | cases h

theorem exists_class {code : BitVec 3} (h : ¬(code = 0 ∨ code = 4)) :
    ∃ cls : LaneClass, cls.code = code := by
  have hall : ∀ code : BitVec 3, ¬(code = 0 ∨ code = 4) →
      code ∈ [LaneClass.signed, .saturating, .signedHalving, .unsigned, .unsignedSaturating,
        .unsignedHalving].map LaneClass.code := by decide
  obtain ⟨cls, -, hcls⟩ := List.mem_map.1 (hall code h)
  exact ⟨cls, hcls⟩

theorem exists_op {code : BitVec 3} (h : ¬(code = 5 ∨ code = 6)) :
    ∃ op : LaneOp, op.code = code := by
  have hall : ∀ code : BitVec 3, ¬(code = 5 ∨ code = 6) →
      code ∈ [LaneOp.add16, .asx, .sax, .sub16, .add8, .sub8].map LaneOp.code := by decide
  obtain ⟨op, -, hop⟩ := List.mem_map.1 (hall code h)
  exact ⟨op, hop⟩

theorem bit_ge_written (cpsr ge : Word) {k : ℕ} :
    bit ((cpsr &&& ~~~(0x000f0000 : Word)) ||| ((ge &&& (0xf : Word)) <<< 16)) k =
      if 16 ≤ k ∧ k < 20 then bit ge (k - 16) else bit cpsr k := by
  by_cases hk : k < 32
  · have hmask : ∀ k < 32, (0x000f0000 : Word).getLsbD k = decide (16 ≤ k ∧ k < 20) := by decide
    have hlow : ∀ k < 32, (0xf : Word).getLsbD k = decide (k < 4) := by decide
    simp only [bit, BitVec.getLsbD_or, getLsbD_and, BitVec.getLsbD_not,
      BitVec.getLsbD_shiftLeft, hk, hmask k hk, hlow (k - 16) (by omega)]
    by_cases hin : 16 ≤ k ∧ k < 20
    · have hless : ¬k < 16 := by omega
      have hfour : k - 16 < 4 := by omega
      simp [hin, hless, hfour]
    · by_cases hless : k < 16
      · simp [hin, hless]
      · have hfour : ¬k - 16 < 4 := by omega
        simp [hin, hless, hfour]
  · have hout : ¬(16 ≤ k ∧ k < 20) := by omega
    rw [if_neg hout, bit, bit, getLsbD_of_ge _ _ (not_lt.1 hk), getLsbD_of_ge _ _ (not_lt.1 hk)]

theorem parallelOp_writesGe : (parallelOp cls.code op.code).writesGe = cls.isPlain := by
  cases cls <;> rfl

theorem execParallel_spec (hok : (execParallel c pc insn next).status = .ok) :
    ∃ cls op, insn.extractLsb' 20 3 = LaneClass.code cls ∧ insn.extractLsb' 5 3 = LaneOp.code op ∧
      (execParallel c pc insn next).next = next ∧
      Parallel cls op (c.r (field4 insn 16)) (c.r (field4 insn 0)) (field4 insn 12) c
        (execParallel c pc insn next).core := by
  rw [execParallel] at hok ⊢
  dsimp only at hok ⊢
  by_cases hrefused : insn.extractLsb' 20 3 = 0 ∨ insn.extractLsb' 20 3 = 4 ∨
      insn.extractLsb' 5 3 = 5 ∨ insn.extractLsb' 5 3 = 6 ∨ field4 insn 12 = 15 ∨
      field4 insn 16 = 15 ∨ field4 insn 0 = 15
  · rw [if_pos hrefused] at hok
    cases hok
  rw [if_neg hrefused]
  simp only [not_or] at hrefused
  obtain ⟨hzero, hfour, hfive, hsix, -, hrn, hrm⟩ := hrefused
  obtain ⟨cls, hcls⟩ := exists_class (not_or.2 ⟨hzero, hfour⟩)
  obtain ⟨op, hop⟩ := exists_op (not_or.2 ⟨hfive, hsix⟩)
  refine ⟨cls, op, hcls.symm, hop.symm, rfl, ?_⟩
  rw [← hcls, ← hop, parallelOp_lanes, parallelOp_writesGe, Core.regRead, Core.regRead, if_neg hrn,
    if_neg hrm]
  have hcpsr (ge : Word) {k : ℕ} := @bit_ge_written c.cpsr ge k
  have hlane (i : ℕ) (hi : i < op.lanes) := @parallelOp_lanes_result cls op
    (c.r (field4 insn 16)) (c.r (field4 insn 0)) i hi
  have hge (j : ℕ) (hj : j < 4) := @parallelOp_ge cls op
    (c.r (field4 insn 16)) (c.r (field4 insn 0)) j hj
  generalize (parallelOp cls.code op.code).loop (c.r (field4 insn 16)) (c.r (field4 insn 0))
    op.lanes = outcome at hlane hge ⊢
  obtain ⟨result, ge⟩ := outcome
  cases hplain : cls.isPlain with
  | true =>
    refine ⟨fun i hi ↦ ?_, fun j hj ↦ ?_, fun k hk ↦ ?_, ?_⟩
    · exact (congrArg _ (Function.update_self ..)).trans (hlane i hi)
    · refine (hcpsr ge).trans ?_
      rw [if_pos (by omega), Nat.add_sub_cancel_left, if_pos hplain]
      exact hge j hj
    · exact (hcpsr ge).trans (if_neg hk)
    · simp [Core.setR, Core.done]
  | false =>
    refine ⟨fun i hi ↦ ?_, fun j hj ↦ ?_, fun k hk ↦ rfl, ?_⟩
    · exact (congrArg _ (Function.update_self ..)).trans (hlane i hi)
    · rw [hplain]
      rfl
    · simp [Core.setR, Core.done]

theorem and_octet (value : Word) (i : ℕ) :
    value &&& ((0xff : Word) <<< (i * 8)) = ((value >>> (i * 8)) &&& (0xff : Word)) <<< (i * 8) := by
  apply eq_of_getLsbD_eq
  intro k hk
  simp only [getLsbD_and, BitVec.getLsbD_shiftLeft, BitVec.getLsbD_ushiftRight]
  by_cases hless : k < i * 8
  · simp [hless]
  · have hback : i * 8 + (k - i * 8) = k := by omega
    simp [hless, hk, hback]

theorem octet_outside (value : Word) {k : ℕ} (hk : 8 ≤ k) :
    (value &&& (0xff : Word)).getLsbD k = false := by
  have hmask : (0xff : Word).getLsbD k = false := by
    by_cases hinside : k < 32
    · interval_cases k <;> rfl
    · exact getLsbD_of_ge _ _ (not_lt.1 hinside)
  rw [getLsbD_and, hmask, Bool.and_false]

/-- The loop of SEL puts octets of the one operand or the other side by side. -/
theorem selectLanes_eq_row (ge n m : Word) (lanes : ℕ) : selectLanes ge n m lanes =
      row 8 (fun i ↦ ((if bit ge i then n else m) >>> (i * 8)) &&& (0xff : Word)) lanes := by
  induction lanes with
  | zero => rfl
  | succ lanes ih => rw [selectLanes, row, ih, and_octet]

theorem selectLanes_octet (ge n m : Word) {j : ℕ} (hj : j < 4) :
    (selectLanes ge n m 4).extractLsb' (j * 8) 8 =
      (if bit ge j then n else m).extractLsb' (j * 8) 8 := by
  rw [selectLanes_eq_row, extractLsb'_row (by decide) (fun i k ↦ octet_outside _) hj (by decide)]
  apply eq_of_getLsbD_eq
  intro k hk
  have hmask : (0xff : Word).getLsbD k = true := by interval_cases k <;> rfl
  rw [getLsbD_setWidth, getLsbD_and, hmask, BitVec.getLsbD_ushiftRight, BitVec.getLsbD_extractLsb']
  simp [hk]

/-- An accepted SEL: every octet is that of the first operand where the GE bit is set, and that of
the second one where it is not. -/
theorem execSelect_spec (hok : (execSelect c pc insn next).status = .ok) {j : ℕ} (hj : j < 4) :
    ((execSelect c pc insn next).core.r (field4 insn 12)).extractLsb' (j * 8) 8 =
      (if c.ge j then c.r (field4 insn 16) else c.r (field4 insn 0)).extractLsb' (j * 8) 8 := by
  rw [execSelect] at hok ⊢
  by_cases hrefused : field4 insn 12 = 15 ∨ field4 insn 16 = 15 ∨ field4 insn 0 = 15
  · rw [if_pos hrefused] at hok
    cases hok
  rw [if_neg hrefused]
  simp only [not_or] at hrefused
  obtain ⟨-, hrn, hrm⟩ := hrefused
  have hbit : bit (c.cpsr >>> 16) j = c.ge j := by simp [bit, Core.ge]
  rw [Core.regRead, Core.regRead, if_neg hrn, if_neg hrm, ← hbit, ← selectLanes_octet _ _ _ hj]
  exact congrArg _ (Function.update_self ..)

/-- Two words that agree in a lane. -/
def SameLane (width i : ℕ) (x y : Word) : Prop :=
  x.extractLsb' (i * width) width = y.extractLsb' (i * width) width

theorem LaneOp.exact_congr {a b a' b' : Word} {i : ℕ} (ha : SameLane op.width i a' a)
    (hb : SameLane op.width (op.partner i) b' b) : op.exact cls a' b' i = op.exact cls a b i := by
  rw [SameLane] at ha hb
  simp only [LaneOp.exact, LaneClass.operand, ha, hb]

/-- What is asked of an accepted instruction of the family: it is one of the thirty-six, it does
what its class and operation say, each lane with nothing but its own two, and the SEL after it
reads what it told. -/
def ParallelCorrect (c : Core) (pc insn next : Word) : Prop :=
  ∃ cls op, insn.extractLsb' 20 3 = LaneClass.code cls ∧ insn.extractLsb' 5 3 = LaneOp.code op ∧
    (execMedia c pc insn next).next = next ∧
    Parallel cls op (c.r (field4 insn 16)) (c.r (field4 insn 0)) (field4 insn 12) c
      (execMedia c pc insn next).core ∧
    (∀ i < op.lanes, ∀ d : Core, SameLane op.width i (d.r (field4 insn 16)) (c.r (field4 insn 16)) →
      SameLane op.width (op.partner i) (d.r (field4 insn 0)) (c.r (field4 insn 0)) →
      SameLane op.width i ((execMedia d pc insn next).core.r (field4 insn 12))
        ((execMedia c pc insn next).core.r (field4 insn 12))) ∧
    ∀ pc' sel next', sel &&& 0x0ff00ff0 = 0x06800fb0 →
      let after := (execMedia c pc insn next).core
      (execMedia after pc' sel next').status = .ok →
        ∀ j < 4, SameLane 8 j ((execMedia after pc' sel next').core.r (field4 sel 12))
          (if after.ge j then after.r (field4 sel 16) else after.r (field4 sel 0))

/-- Whether an encoding is accepted depends on its fields alone. -/
theorem execParallel_status (c d : Core) :
    (execParallel d pc insn next).status = (execParallel c pc insn next).status := by
  rw [execParallel, execParallel]
  split <;> rfl

theorem execMedia_parallel_correct (c : Core) (pc insn next : Word)
    (hinsn : insn &&& 0x0f800f10 = 0x06000f10) (hok : (execMedia c pc insn next).status = .ok) :
    ParallelCorrect c pc insn next := by
  rw [execMedia_parallel hinsn] at hok
  obtain ⟨cls, op, hcls, hop, hnext, hdone⟩ := execParallel_spec hok
  refine ⟨cls, op, hcls, hop, ?_, ?_, fun i hi d ha hb ↦ ?_, fun pc' sel next' hsel hselok j hj ↦ ?_⟩
  · rw [execMedia_parallel hinsn, hnext]
  · rw [execMedia_parallel hinsn]
    exact hdone
  · rw [execMedia_parallel hinsn, execMedia_parallel hinsn]
    have hok' : (execParallel d pc insn next).status = .ok :=
      (execParallel_status c d).trans hok
    obtain ⟨cls', op', hcls', hop', -, hdone'⟩ := execParallel_spec hok'
    obtain rfl : cls' = cls := LaneClass.code_injective (hcls'.symm.trans hcls)
    obtain rfl : op' = op := LaneOp.code_injective (hop'.symm.trans hop)
    rw [SameLane, hdone'.lane i hi, hdone.lane i hi, LaneOp.exact_congr ha hb]
  · rw [execMedia_select hsel] at hselok ⊢
    exact execSelect_spec hselok hj

/-- UADD8 r0, r1, r2 on a core whose registers hold their numbers. -/
theorem execMedia_parallel_correct_uadd8 : ParallelCorrect
      { r := fun n ↦ n.setWidth 32, cpsr := modeUsr, spsr := fun _ ↦ 0, bankR13 := fun _ ↦ 0
        bankR14 := fun _ ↦ 0, fiqR8_12 := fun _ ↦ 0, usrR8_12 := fun _ ↦ 0, vfpS := fun _ ↦ 0 }
      0x8000 0xe6510f92 0x8004 :=
  execMedia_parallel_correct _ _ _ _ (by decide) (by decide)

end S5LBox.Arm
