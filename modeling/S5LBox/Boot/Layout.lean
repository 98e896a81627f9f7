import Mathlib.Tactic

/-!
# The layout of the boot

The ranges that the bring-up plans before it writes anything: the kernel span, then the device tree,
the page of boot arguments, the bounce reserve of the raw bridge and the framebuffer, one after the
other. Additions and alignments are those of 64-bit integers and say so where they would wrap.
-/

namespace S5LBox.Boot

open Option List

def virtBase : ℕ := 0xc0000000
def physBase : ℕ := 0x08000000
def ramSize : ℕ := 0x08000000
def fbWidth : ℕ := 320
def fbHeight : ℕ := 480
def fbBpp : ℕ := 4
def vramSurfaces : ℕ := 16
def vramBytes : ℕ := fbWidth * fbHeight * fbBpp * vramSurfaces
def tokdAlignment : ℕ := 0x4000
def bootstrapHeadroom : ℕ := 0x11000
def mdRawReserveSize : ℕ := 4 * 131072
def uint32Max : ℕ := 2 ^ 32 - 1
def uint64Max : ℕ := 2 ^ 64 - 1

/-- `bringup_range_t`. -/
structure Range where
  start : ℕ
  stop : ℕ
  active : Bool
  deriving DecidableEq, Repr

def addU64 (a b : ℕ) : Option ℕ := if uint64Max - a < b then none else some (a + b)

/-- `align_u64`; the alignment is a power of two. -/
def alignU64 (value alignment : ℕ) : Option ℕ :=
  if alignment = 0 ∨ alignment &&& (alignment - 1) ≠ 0 ∨ uint64Max - (alignment - 1) < value then
    none
  else some ((value + alignment - 1) / alignment * alignment)

def rangeMake (start length : ℕ) (active : Bool) : Option Range :=
  (addU64 start length).map fun stop ↦ ⟨start, stop, active⟩

def rangesOverlap (a b : Range) : Bool :=
  a.active && b.active && a.start ≠ a.stop && b.start ≠ b.stop &&
    a.start < b.stop && b.start < a.stop

/-- A value that 32 bits hold. -/
def fits32 (value : ℕ) : Option ℕ := if uint32Max < value then none else some value

def dram : Range := ⟨physBase, physBase + ramSize, true⟩

def kernelRange (vmLow vmHigh : ℕ) : Option Range := do
  let kernelBegin ← addU64 physBase (vmLow - virtBase)
  let kernelEnd ← addU64 physBase (vmHigh - virtBase)
  rangeMake kernelBegin (kernelEnd - kernelBegin) true

/-- What follows the kernel whether or not there is a display. -/
structure Statics where
  tree : Range
  args : Range
  bounce : Range
  deriving DecidableEq, Repr

/-- The bounce reserve is there only with a root medium. -/
def bounceRange (argsEnd : ℕ) (wantRoot : Bool) : Option Range :=
  if wantRoot then do
    let bouncePa ← (alignU64 argsEnd 0x4000).bind fits32
    rangeMake bouncePa mdRawReserveSize true
  else rangeMake 0 0 false

def staticRanges (kernelEnd devicetreeSize : ℕ) (wantRoot : Bool) : Option Statics := do
  let treePa ← (alignU64 kernelEnd 0x1000).bind fits32
  let tree ← rangeMake treePa devicetreeSize true
  let argsPa ← (alignU64 tree.stop 0x1000).bind fits32
  let args ← rangeMake argsPa 0x1000 true
  let bounce ← bounceRange args.stop wantRoot
  some ⟨tree, args, bounce⟩

def Statics.staticEnd (s : Statics) (wantRoot : Bool) : ℕ :=
  if wantRoot then s.bounce.stop else s.args.stop

def framebufferRange (staticEnd : ℕ) (wantFb : Bool) : Option Range := do
  let aligned ← alignU64 staticEnd tokdAlignment
  if wantFb then rangeMake aligned vramBytes true else rangeMake 0 0 false

/-- How the loop over the plan ends. -/
inductive PlanFault where
  | noRoom
  | overlap
  deriving DecidableEq, Repr

/-- The loop over the plan: a range has to be in DRAM and apart from the earlier ones. -/
def checkPlan : (earlier plan : List Range) → Option PlanFault
  | _, [] => none
  | earlier, range :: rest =>
    if range.active = false then checkPlan (earlier ++ [range]) rest
    else if range.start < dram.start ∨ dram.stop < range.stop then some .noRoom
    else if earlier.any (rangesOverlap range) then some .overlap
    else checkPlan (earlier ++ [range]) rest

/-- The end of everything that is boot-owned. -/
def finalStaticEnd (staticEnd : ℕ) (framebuffer : Range) : ℕ :=
  if framebuffer.active ∧ staticEnd < framebuffer.stop then framebuffer.stop else staticEnd

def topOfKernelData (finalEnd : ℕ) : Option ℕ := do
  let top ← alignU64 finalEnd tokdAlignment
  if uint32Max < top ∨ dram.stop < top ∨ dram.stop - top < bootstrapHeadroom then none
  else some top

structure Plan where
  kernel : Range
  statics : Statics
  framebuffer : Range
  top : ℕ
  deriving DecidableEq, Repr

def ranges (kernel : Range) (statics : Statics) (framebuffer : Range) : List Range :=
  [kernel, statics.tree, statics.args, statics.bounce, framebuffer]

def Plan.ranges (plan : Plan) : List Range := Boot.ranges plan.kernel plan.statics plan.framebuffer

variable {a b r value alignment start length : ℕ} {active wantRoot wantFb : Bool} {range : Range}

theorem addU64_eq_some (h : addU64 a b = some r) : r = a + b := by
  unfold addU64 at h
  split_ifs at h
  exact (Option.some.inj h).symm

theorem addU64_eq (h : a + b ≤ uint64Max) : addU64 a b = some (a + b) := by
  unfold addU64
  exact if_neg (by omega)

theorem alignU64_eq_some (h : alignU64 value alignment = some r) : value ≤ r ∧ alignment ∣ r := by
  unfold alignU64 at h
  split_ifs at h with hbad
  obtain rfl := Option.some.inj h
  have hpos : 0 < alignment := by omega
  have hmod := Nat.div_add_mod (value + alignment - 1) alignment
  have hlt := Nat.mod_lt (value + alignment - 1) hpos
  have hcomm := Nat.mul_comm alignment ((value + alignment - 1) / alignment)
  exact ⟨by omega, Nat.dvd_mul_left _ _⟩

theorem rangeMake_eq_some (h : rangeMake start length active = some range) :
    range = ⟨start, start + length, active⟩ := by
  unfold rangeMake at h
  obtain ⟨stop, hstop, rfl⟩ := map_eq_some_iff.1 h
  rw [addU64_eq_some hstop]

theorem fits32_eq_some (h : fits32 value = some r) : r = value ∧ value ≤ uint32Max := by
  unfold fits32 at h
  split_ifs at h with hbig
  exact ⟨(Option.some.inj h).symm, Nat.le_of_not_lt hbig⟩

theorem align_fits (h : (alignU64 value alignment).bind fits32 = some r) :
    value ≤ r ∧ alignment ∣ r := by
  obtain ⟨aligned, haligned, hfits⟩ := bind_eq_some_iff.1 h
  rw [(fits32_eq_some hfits).1]
  exact alignU64_eq_some haligned

theorem kernelRange_eq_some {vmLow vmHigh : ℕ} (hspan : vmLow ≤ vmHigh)
    (h : kernelRange vmLow vmHigh = some range) :
    range = ⟨physBase + (vmLow - virtBase), physBase + (vmHigh - virtBase), true⟩ := by
  unfold kernelRange at h
  obtain ⟨kernelBegin, hbegin, h⟩ := bind_eq_some_iff.1 h
  obtain ⟨kernelEnd, hend, h⟩ := bind_eq_some_iff.1 h
  have hbegin := addU64_eq_some hbegin
  have hend := addU64_eq_some hend
  rw [rangeMake_eq_some h, Range.mk.injEq]
  exact ⟨hbegin, by omega, rfl⟩

theorem bounceRange_eq_some {argsEnd : ℕ} (h : bounceRange argsEnd wantRoot = some range) :
    range.active = wantRoot ∧
      if wantRoot then argsEnd ≤ range.start ∧ range.stop = range.start + mdRawReserveSize
      else range.start = 0 ∧ range.stop = 0 := by
  unfold bounceRange at h
  cases wantRoot with
  | true =>
    obtain ⟨bouncePa, hpa, h⟩ := bind_eq_some_iff.1 h
    rw [rangeMake_eq_some h]
    exact ⟨rfl, (align_fits hpa).1, rfl⟩
  | false =>
    rw [rangeMake_eq_some h]
    exact ⟨rfl, rfl, rfl⟩

/-- The device tree, the arguments and the bounce reserve follow each other. -/
structure Statics.Follow (s : Statics) (kernelEnd devicetreeSize : ℕ) (wantRoot : Bool) : Prop where
  tree : kernelEnd ≤ s.tree.start ∧ s.tree.stop = s.tree.start + devicetreeSize
  args : s.tree.stop ≤ s.args.start ∧ s.args.stop = s.args.start + 0x1000
  bounce : if wantRoot then
      s.args.stop ≤ s.bounce.start ∧ s.bounce.stop = s.bounce.start + mdRawReserveSize
    else s.bounce.start = 0 ∧ s.bounce.stop = 0
  active : s.tree.active = true ∧ s.args.active = true ∧ s.bounce.active = wantRoot

variable {devicetreeSize : ℕ} {s : Statics}

theorem staticRanges_follow {kernelEnd : ℕ}
    (h : staticRanges kernelEnd devicetreeSize wantRoot = some s) :
    s.Follow kernelEnd devicetreeSize wantRoot := by
  unfold staticRanges at h
  obtain ⟨treePa, htreePa, h⟩ := bind_eq_some_iff.1 h
  obtain ⟨tree, htree, h⟩ := bind_eq_some_iff.1 h
  obtain ⟨argsPa, hargsPa, h⟩ := bind_eq_some_iff.1 h
  obtain ⟨args, hargs, h⟩ := bind_eq_some_iff.1 h
  obtain ⟨bounce, hbounce, h⟩ := bind_eq_some_iff.1 h
  obtain rfl := Option.some.inj h
  have hactive := bounceRange_eq_some hbounce
  constructor
  case tree =>
    rw [rangeMake_eq_some htree]
    exact ⟨(align_fits htreePa).1, rfl⟩
  case args =>
    rw [rangeMake_eq_some hargs]
    exact ⟨(align_fits hargsPa).1, rfl⟩
  case bounce => exact hactive.2
  case active =>
    rw [rangeMake_eq_some htree, rangeMake_eq_some hargs]
    exact ⟨rfl, rfl, hactive.1⟩

theorem Statics.Follow.le_staticEnd {kernelEnd : ℕ}
    (h : s.Follow kernelEnd devicetreeSize wantRoot) : s.args.stop ≤ s.staticEnd wantRoot := by
  have hbounce := h.bounce
  unfold Statics.staticEnd
  cases wantRoot with
  | true =>
    rw [if_pos rfl] at hbounce ⊢
    omega
  | false => exact le_rfl

theorem framebufferRange_eq_some {staticEnd : ℕ}
    (h : framebufferRange staticEnd wantFb = some range) : range.active = wantFb ∧
      if wantFb then staticEnd ≤ range.start ∧ range.stop = range.start + vramBytes
      else range.start = 0 ∧ range.stop = 0 := by
  unfold framebufferRange at h
  obtain ⟨aligned, haligned, h⟩ := bind_eq_some_iff.1 h
  cases wantFb with
  | true =>
    rw [if_pos rfl] at h
    rw [rangeMake_eq_some h]
    exact ⟨rfl, (alignU64_eq_some haligned).1, rfl⟩
  | false =>
    rw [if_neg (by decide)] at h
    rw [rangeMake_eq_some h]
    exact ⟨rfl, rfl, rfl⟩

theorem topOfKernelData_eq_some {finalEnd top : ℕ} (h : topOfKernelData finalEnd = some top) :
    finalEnd ≤ top ∧ tokdAlignment ∣ top ∧ top + bootstrapHeadroom ≤ dram.stop := by
  unfold topOfKernelData at h
  obtain ⟨aligned, haligned, h⟩ := bind_eq_some_iff.1 h
  obtain ⟨hle, hdvd⟩ := alignU64_eq_some haligned
  split_ifs at h with hroom
  obtain rfl := Option.some.inj h
  exact ⟨hle, hdvd, by omega⟩

/-- One range ends where the other has not begun. -/
def Before (a b : Range) : Prop := a.active = true → b.active = true → a.stop ≤ b.start

theorem not_rangesOverlap {a b : Range} (h : Before a b) : rangesOverlap b a = false := by
  rw [Bool.eq_false_iff]
  intro hover
  unfold rangesOverlap at hover
  simp only [Bool.and_eq_true, decide_eq_true_eq] at hover
  obtain ⟨⟨⟨⟨⟨hb, ha⟩, -⟩, -⟩, hlow⟩, -⟩ := hover
  have hle := h ha hb
  omega

/-- Ranges in order do not fail the comparison with each other. -/
theorem checkPlan_ne_overlap {earlier plan : List Range}
    (h : (earlier ++ plan).Pairwise Before) : checkPlan earlier plan ≠ some .overlap := by
  induction plan generalizing earlier with
  | nil =>
    rw [checkPlan]
    exact nofun
  | cons range rest ih =>
    have hnext : checkPlan (earlier ++ [range]) rest ≠ some .overlap := by
      apply ih
      rwa [append_assoc, singleton_append]
    rw [checkPlan]
    split_ifs with hactive hout hany
    · exact hnext
    · exact nofun
    · obtain ⟨other, hother, hover⟩ := any_eq_true.1 hany
      have hbefore : Before other range :=
        (pairwise_append.1 h).2.2 other hother range mem_cons_self
      rw [not_rangesOverlap hbefore] at hover
      cases hover
    · exact hnext

theorem checkPlan_eq_none {earlier plan : List Range} (h : checkPlan earlier plan = none) :
    ∀ range ∈ plan, range.active = true → dram.start ≤ range.start ∧ range.stop ≤ dram.stop := by
  induction plan generalizing earlier with
  | nil => exact nofun
  | cons range rest ih =>
    rw [checkPlan] at h
    intro other hother hactive
    split_ifs at h with hidle hout hany
    · rcases mem_cons.1 hother with rfl | hrest
      · rw [hidle] at hactive
        cases hactive
      · exact ih h other hrest hactive
    · rcases mem_cons.1 hother with rfl | hrest
      · omega
      · exact ih h other hrest hactive

/-- The planned ranges are in order: the reserve is after the arguments and the framebuffer after
whatever comes last of the others. -/
theorem ranges_before {kernel framebuffer : Range}
    (hs : s.Follow kernel.stop devicetreeSize wantRoot)
    (hfb : framebufferRange (s.staticEnd wantRoot) wantFb = some framebuffer) :
    (ranges kernel s framebuffer).Pairwise Before := by
  obtain ⟨htree, htreeStop⟩ := hs.tree
  obtain ⟨hargs, hargsStop⟩ := hs.args
  have hend := hs.le_staticEnd
  have hfb := framebufferRange_eq_some hfb
  have hbounceLate : s.bounce.active = true → s.args.stop ≤ s.bounce.start ∧
      s.bounce.start ≤ s.bounce.stop ∧ s.bounce.stop = s.staticEnd wantRoot := by
    intro hactive
    rw [hs.active.2.2] at hactive
    have hbounce := hs.bounce
    rw [if_pos hactive] at hbounce
    unfold Statics.staticEnd
    rw [if_pos hactive]
    exact ⟨hbounce.1, by omega, rfl⟩
  have hfbLate : framebuffer.active = true → s.staticEnd wantRoot ≤ framebuffer.start := by
    intro hactive
    rw [hfb.1] at hactive
    have hplace := hfb.2
    rw [if_pos hactive] at hplace
    exact hplace.1
  unfold ranges Before
  simp only [pairwise_cons, mem_cons, not_mem_nil, or_false, forall_eq_or_imp,
    forall_eq, IsEmpty.forall_iff, implies_true, List.Pairwise.nil, and_true]
  refine ⟨⟨?_, ?_, ?_, ?_⟩, ⟨?_, ?_, ?_⟩, ⟨?_, ?_⟩, ?_⟩ <;> intro _ hb
  · exact htree
  · omega
  · have := hbounceLate hb
    omega
  · have := hfbLate hb
    omega
  · omega
  · have := hbounceLate hb
    omega
  · have := hfbLate hb
    omega
  · have := hbounceLate hb
    omega
  · have := hfbLate hb
    omega
  · rename_i ha
    have := hbounceLate ha
    have := hfbLate hb
    omega

theorem stop_le_finalStaticEnd {kernel framebuffer : Range}
    (hs : s.Follow kernel.stop devicetreeSize wantRoot)
    (hrange : range ∈ ranges kernel s framebuffer) (hactive : range.active = true) :
    range.stop ≤ finalStaticEnd (s.staticEnd wantRoot) framebuffer := by
  obtain ⟨htree, htreeStop⟩ := hs.tree
  obtain ⟨hargs, hargsStop⟩ := hs.args
  have hend := hs.le_staticEnd
  have hfinal : s.staticEnd wantRoot ≤ finalStaticEnd (s.staticEnd wantRoot) framebuffer := by
    unfold finalStaticEnd
    split_ifs with hlate
    · exact hlate.2.le
    · exact le_rfl
  unfold ranges at hrange
  simp only [mem_cons, not_mem_nil, or_false] at hrange
  rcases hrange with rfl | rfl | rfl | rfl | rfl
  · omega
  · omega
  · omega
  · apply le_trans _ hfinal
    rw [hs.active.2.2] at hactive
    unfold Statics.staticEnd
    rw [if_pos hactive]
  · unfold finalStaticEnd
    split_ifs with hlate
    · exact le_rfl
    · exact Nat.le_of_not_lt fun hlt ↦ hlate ⟨hactive, hlt⟩

end S5LBox.Boot
