import S5LBox.Boot.Bringup

/-!
# The machine starts only on success

Whatever the kernel, the device tree, the request and the gate are: a bring-up that is accepted has
laid everything out apart and has written only where it said, and one that is refused has started
nothing. What planning refuses is refused before the first write.
-/

namespace S5LBox.Boot

open List Attempt Span

variable {machine : Machine} {md : Option MdStorage} {request : Request} {image : Firmware.Macho}
  {plan : Plan}

/-- The CPU and the bus are as they were, and no bridge is installed but what was there. -/
structure Unstarted (machine : Machine) (md : Option MdStorage) (b : Bringup) : Prop where
  pc : b.machine.pc = machine.pc
  r0 : b.machine.r0 = machine.r0
  handler : b.machine.svcHandler = machine.svcHandler
  storage : b.md = md ∨ ∀ storage, b.md = some storage → storage.installed = false
  bridge : b.result.mdBridgeInstalled = false

/-- RAM has not been written either. -/
structure Untouched (machine : Machine) (md : Option MdStorage) (b : Bringup) : Prop where
  unstarted : Unstarted machine md b
  ram : b.machine.ram = machine.ram
  writes : b.writes = []

/-- The statuses of the steps that come after the first write. -/
def BringupStatus.late : BringupStatus → Bool
  | .rootGateRefused | .devicetreeMalformed | .devicetreePatchFailed | .cmdlineTooLong
  | .framebufferRefused | .rootBridgeRefused => true
  | _ => false

/-- The statuses that planning can end with. -/
def BringupStatus.early : BringupStatus → Bool
  | .ok | .kernelSpanUnsafe | .layoutOverlap => false
  | status => !status.late

/-- A refusal of the planning. -/
def RefusedEarly (machine : Machine) (md : Option MdStorage) (failure : BringupStatus × BringupStage)
    (b : Bringup) : Prop := Untouched machine md b ∧ failure.1.early = true

/-- A refusal after it. -/
def RefusedLate (machine : Machine) (md : Option MdStorage) (failure : BringupStatus × BringupStage)
    (b : Bringup) : Prop := Unstarted machine md b ∧ failure.1.late = true

variable {b : Bringup} {r r' : BringupResult}

theorem Untouched.report (h : Untouched machine md b)
    (hr : r.mdBridgeInstalled = b.result.mdBridgeInstalled) :
    Untouched machine md { b with result := r } :=
  ⟨⟨h.unstarted.pc, h.unstarted.r0, h.unstarted.handler, h.unstarted.storage,
    hr.trans h.unstarted.bridge⟩, h.ram, h.writes⟩

theorem checkArguments_ends (h : Untouched machine md b) :
    Ends (fun _ ↦ Untouched machine md) (RefusedEarly machine md) (checkArguments request) b := by
  unfold checkArguments
  have hstart : Untouched machine md { b with result := { b.result with
      virtBase := virtBase, physBase := b.machine.ramBase, ramSize := b.machine.ramSize } } :=
    h.report rfl
  simp only [ends_bind, ends_get, report, ends_modify, ends_require]
  refine ⟨fun _ ↦ ⟨fun _ ↦ ⟨fun _ ↦ ⟨fun _ ↦ ⟨fun _ ↦ ⟨fun _ ↦ ⟨fun _ ↦ ?_, ?_⟩, ?_⟩, ?_⟩, ?_⟩,
    ?_⟩, ?_⟩, ?_⟩
  · refine ⟨⟨hstart.unstarted.pc, hstart.unstarted.r0, hstart.unstarted.handler, Or.inr ?_,
      hstart.unstarted.bridge⟩, hstart.ram, hstart.writes⟩
    intro storage hstorage
    obtain ⟨old, -, rfl⟩ := Option.map_eq_some_iff.1 hstorage
    rfl
  all_goals exact fun _ ↦ ⟨hstart, rfl⟩

/-- An image that the bring-up goes on with. -/
structure Usable (request : Request) (image : Firmware.Macho) : Prop where
  parsed : Firmware.machoParse request.kernel = .ok image
  low : virtBase ≤ image.vmLow
  span : image.vmLow ≤ image.vmHigh

theorem parseKernel_ends (h : Untouched machine md b) :
    Ends (fun image t ↦ Usable request image ∧ Untouched machine md t) (RefusedEarly machine md)
      (parseKernel request) b := by
  unfold parseKernel
  split
  case h_1 status hparse =>
    simp only [ends_bind, report, ends_modify, ends_refuse]
    exact ⟨h.report rfl, rfl⟩
  case h_2 image hparse =>
    simp only [ends_bind, ends_require, ends_pure]
    refine ⟨fun _ ↦ ⟨fun _ ↦ ⟨fun hspan ↦ ⟨⟨hparse, hspan.1, hspan.2⟩, h⟩, ?_⟩, ?_⟩, ?_⟩
    all_goals exact fun _ ↦ ⟨h, rfl⟩

/-- The plan, and what the result says about it. -/
structure Arranged (request : Request) (image : Firmware.Macho) (plan : Plan) (r : BringupResult) :
    Prop where
  kernel : plan.kernel =
    ⟨physBase + (image.vmLow - virtBase), physBase + (image.vmHigh - virtBase), true⟩
  follow : plan.statics.Follow plan.kernel.stop request.devicetree.length request.wantRoot
  framebuffer : plan.framebuffer.active = request.wantFb ∧
    if request.wantFb then plan.framebuffer.stop = plan.framebuffer.start + vramBytes
    else plan.framebuffer.start = 0 ∧ plan.framebuffer.stop = 0
  ordered : plan.ranges.Pairwise Before
  inside : ∀ range ∈ plan.ranges, range.active = true →
    dram.start ≤ range.start ∧ range.stop ≤ plan.top
  top : tokdAlignment ∣ plan.top ∧ plan.top + bootstrapHeadroom ≤ dram.stop
  kernelBeginPa : r.kernelBeginPa = plan.kernel.start
  kernelEndPa : r.kernelEndPa = plan.kernel.stop
  devicetreePa : r.devicetreePa = plan.statics.tree.start
  devicetreeSize : r.devicetreeSize = request.devicetree.length
  bootArgsPa : r.bootArgsPa = plan.statics.args.start
  rawBouncePa : r.rawBouncePa = plan.statics.bounce.start
  framebufferPa : r.framebufferPa = plan.framebuffer.start
  vramBytes : r.vramBytes = plan.framebuffer.stop - plan.framebuffer.start
  topOfKernelDataPa : r.topOfKernelDataPa = plan.top

/-- Where the result says that things are. -/
structure Places where
  kernelBeginPa : ℕ
  kernelEndPa : ℕ
  devicetreePa : ℕ
  devicetreeSize : ℕ
  bootArgsPa : ℕ
  rawBouncePa : ℕ
  framebufferPa : ℕ
  vramBytes : ℕ
  topOfKernelDataPa : ℕ

def BringupResult.places (r : BringupResult) : Places where
  kernelBeginPa := r.kernelBeginPa
  kernelEndPa := r.kernelEndPa
  devicetreePa := r.devicetreePa
  devicetreeSize := r.devicetreeSize
  bootArgsPa := r.bootArgsPa
  rawBouncePa := r.rawBouncePa
  framebufferPa := r.framebufferPa
  vramBytes := r.vramBytes
  topOfKernelDataPa := r.topOfKernelDataPa

theorem Arranged.congr (h : Arranged request image plan r) (hsame : r'.places = r.places) :
    Arranged request image plan r' where
  kernel := h.kernel
  follow := h.follow
  framebuffer := h.framebuffer
  ordered := h.ordered
  inside := h.inside
  top := h.top
  kernelBeginPa := (congrArg Places.kernelBeginPa hsame).trans h.kernelBeginPa
  kernelEndPa := (congrArg Places.kernelEndPa hsame).trans h.kernelEndPa
  devicetreePa := (congrArg Places.devicetreePa hsame).trans h.devicetreePa
  devicetreeSize := (congrArg Places.devicetreeSize hsame).trans h.devicetreeSize
  bootArgsPa := (congrArg Places.bootArgsPa hsame).trans h.bootArgsPa
  rawBouncePa := (congrArg Places.rawBouncePa hsame).trans h.rawBouncePa
  framebufferPa := (congrArg Places.framebufferPa hsame).trans h.framebufferPa
  vramBytes := (congrArg Places.vramBytes hsame).trans h.vramBytes
  topOfKernelDataPa := (congrArg Places.topOfKernelDataPa hsame).trans h.topOfKernelDataPa

theorem mod_of_le_dram {value : ℕ} (h : value ≤ dram.stop) : value % 2 ^ 32 = value := by
  apply Nat.mod_eq_of_lt
  have hstop : dram.stop = 0x10000000 := rfl
  omega

theorem planLayout_ends (himage : Usable request image) (h : Untouched machine md b) :
    Ends (fun plan t ↦ Arranged request image plan t.result ∧ Untouched machine md t)
      (RefusedEarly machine md) (planLayout request image) b := by
  unfold planLayout
  simp only [ends_bind, ends_expect, ends_require, report, ends_modify]
  refine ⟨fun kernel hkernel ↦ ⟨fun hroom ↦ ⟨fun statics hstatics ↦
    ⟨fun framebuffer hframebuffer ↦ ?_, ?_⟩, ?_⟩, ?_⟩, ?_⟩
  case refine_1 =>
    have hkernel := kernelRange_eq_some himage.span hkernel
    have hspan : kernel.start ≤ kernel.stop := by
      rw [hkernel]
      exact Nat.add_le_add_left (Nat.sub_le_sub_right himage.span _) _
    have hfollow := staticRanges_follow hstatics
    have hbefore := ranges_before hfollow hframebuffer
    have hshow := framebufferRange_eq_some hframebuffer
    have hkept : Untouched machine md { b with result := { b.result with
        kernelBeginPa := kernel.start % 2 ^ 32
        kernelEndPa := kernel.stop % 2 ^ 32 } } := h.report rfl
    rcases hplan : checkPlan [] (ranges kernel statics framebuffer) with _ | fault
    case some =>
      apply ends_refuse.2
      refine ⟨hkept, ?_⟩
      cases fault with
      | noRoom => rfl
      | overlap =>
        have hne := @checkPlan_ne_overlap [] _ hbefore
        exact absurd hplan hne
    case none =>
      simp only [ends_bind, ends_expect, ends_modify, ends_pure]
      refine ⟨fun top htop ↦ ⟨?_, hkept.report rfl⟩, fun _ ↦ ⟨hkept, rfl⟩⟩
      have hinside := checkPlan_eq_none hplan
      obtain ⟨hend, hdvd, hheadroom⟩ := topOfKernelData_eq_some htop
      have hactive := hfollow.active
      have htree := hfollow.tree
      have hargs := hfollow.args
      have hbounce := hfollow.bounce
      have htop (range : Range) (hmem : range ∈ ranges kernel statics framebuffer)
          (hactive : range.active = true) : range.stop ≤ top :=
        (stop_le_finalStaticEnd hfollow hmem hactive).trans hend
      have hargsTop : statics.args.stop ≤ top := by
        apply htop _ _ hactive.2.1
        simp [ranges]
      have hbounceTop : statics.bounce.start ≤ top := by
        cases hroot : request.wantRoot with
        | true =>
          rw [hroot, if_pos rfl] at hbounce
          have hstop := htop statics.bounce (by simp [ranges]) (hactive.2.2.trans hroot)
          omega
        | false =>
          rw [hroot, if_neg (by decide)] at hbounce
          omega
      have hshowTop : framebuffer.start ≤ top ∧ framebuffer.start ≤ framebuffer.stop := by
        cases hfb : request.wantFb with
        | true =>
          rw [hfb, if_pos rfl] at hshow
          have hstop := htop framebuffer (by simp [ranges]) hshow.1
          omega
        | false =>
          rw [hfb, if_neg (by decide)] at hshow
          omega
      constructor
      case kernel => exact hkernel
      case follow => exact hfollow
      case framebuffer =>
        refine ⟨hshow.1, ?_⟩
        cases hfb : request.wantFb with
        | true =>
          rw [hfb, if_pos rfl] at hshow
          rw [if_pos rfl]
          exact hshow.2.2
        | false =>
          rw [hfb, if_neg (by decide)] at hshow
          rw [if_neg (by decide)]
          exact hshow.2
      case ordered => exact hbefore
      case inside => exact fun range hmem hrange ↦
        ⟨(hinside range hmem hrange).1, htop range hmem hrange⟩
      case top => exact ⟨hdvd, hheadroom⟩
      case kernelBeginPa => exact mod_of_le_dram (by omega)
      case kernelEndPa => exact mod_of_le_dram (by omega)
      case devicetreePa => exact mod_of_le_dram (by omega)
      case devicetreeSize => exact mod_of_le_dram (by omega)
      case bootArgsPa => exact mod_of_le_dram (by omega)
      case rawBouncePa =>
        show (if request.wantRoot then statics.bounce.start % 2 ^ 32 else 0) = statics.bounce.start
        split_ifs with hroot
        · exact mod_of_le_dram (by omega)
        · rw [if_neg hroot] at hbounce
          exact hbounce.1.symm
      case framebufferPa =>
        show (if request.wantFb then framebuffer.start % 2 ^ 32 else 0) = framebuffer.start
        split_ifs with hfb
        · exact mod_of_le_dram (by omega)
        · rw [if_neg hfb] at hshow
          exact hshow.2.1.symm
      case vramBytes =>
        show (if request.wantFb then vramBytes else 0) = framebuffer.stop - framebuffer.start
        split_ifs with hfb
        · rw [if_pos hfb] at hshow
          omega
        · rw [if_neg hfb] at hshow
          omega
      case topOfKernelDataPa => exact mod_of_le_dram (by omega)
  case refine_4 => exact fun _ ↦ ⟨h, rfl⟩
  case refine_5 => exact fun _ ↦ ⟨h, rfl⟩
  all_goals exact fun _ ↦ ⟨h.report rfl, rfl⟩

/-- What is planned, with the entry point. -/
structure Planned (request : Request) (image : Firmware.Macho) (plan : Plan) (r : BringupResult) :
    Prop where
  usable : Usable request image
  arranged : Arranged request image plan r
  entry : plan.kernel.start ≤ r.entryPa ∧ r.entryPa < plan.kernel.stop

theorem Planned.congr (h : Planned request image plan r) (hsame : r'.places = r.places)
    (hentry : r'.entryPa = r.entryPa) : Planned request image plan r' :=
  ⟨h.usable, h.arranged.congr hsame, hentry ▸ h.entry⟩

theorem Arranged.kernel_le (h : Arranged request image plan r) :
    dram.start ≤ plan.kernel.start ∧ plan.kernel.stop ≤ dram.stop := by
  have hactive : plan.kernel.active = true := by rw [h.kernel]
  have hinside := h.inside plan.kernel mem_cons_self hactive
  have htop := h.top.2
  exact ⟨hinside.1, by omega⟩

theorem entryPa_eq_some {kernel : Range} {entry : ℕ} (h : entryPa image kernel = some entry) :
    kernel.start ≤ entry ∧ entry < kernel.stop := by
  unfold entryPa at h
  split_ifs at h
  exact of_decide_eq_true (Option.filter_eq_some_iff.1 h).2

theorem planEntry_ends (husable : Usable request image)
    (harranged : Arranged request image plan b.result) (h : Untouched machine md b) :
    Ends (fun _ t ↦ Planned request image plan t.result ∧ Untouched machine md t)
      (RefusedEarly machine md) (planEntry image plan) b := by
  unfold planEntry
  simp only [ends_bind, ends_expect, report, ends_modify]
  refine ⟨fun entry hentry ↦ ⟨⟨husable, harranged.congr rfl, ?_⟩, h.report rfl⟩,
    fun _ ↦ ⟨h, rfl⟩⟩
  have hspan := entryPa_eq_some hentry
  have hle := harranged.kernel_le
  show plan.kernel.start ≤ entry % 2 ^ 32 ∧ entry % 2 ^ 32 < plan.kernel.stop
  rw [mod_of_le_dram (by omega)]
  exact hspan

theorem planMedia_ends (hplanned : Planned request image plan b.result)
    (h : Untouched machine md b) :
    Ends (fun _ t ↦ Planned request image plan t.result ∧ Untouched machine md t)
      (RefusedEarly machine md) (planMedia request) b := by
  unfold planMedia
  split
  case h_1 => exact ends_pure.2 ⟨hplanned, h⟩
  case h_2 media hmedia =>
    simp only [ends_bind, ends_require, report, ends_modify]
    exact ⟨fun _ ↦ ⟨hplanned.congr rfl rfl, h.report rfl⟩, fun _ ↦ ⟨h, rfl⟩⟩

theorem prepare_ends {b : Bringup} (h : Untouched machine md b) :
    Ends (fun found t ↦ Planned request found.1 found.2 t.result ∧ Untouched machine md t)
      (RefusedEarly machine md) (prepare request) b := by
  apply (checkArguments_ends h).bind
  intro _ t ht
  apply (parseKernel_ends ht).bind
  rintro image t ⟨himage, ht⟩
  apply (planLayout_ends himage ht).bind
  rintro plan t ⟨harranged, ht⟩
  apply (planEntry_ends himage harranged ht).bind
  rintro _ t ⟨hplanned, ht⟩
  apply (planMedia_ends hplanned ht).bind
  rintro _ t ⟨hplanned, ht⟩
  exact ends_pure.2 ⟨hplanned, ht⟩

/-- The range that a part of the bring-up may write to. -/
def BringupResult.range (r : BringupResult) : Region → Extent
  | .kernel => ⟨r.kernelBeginPa, r.kernelEndPa - r.kernelBeginPa⟩
  | .tree => ⟨r.devicetreePa, r.devicetreeSize⟩
  | .args => ⟨r.bootArgsPa, 0x1000⟩

/-- All that has been written is in the range it belongs to. -/
def Contained (r : BringupResult) (writes : List RamWrite) : Prop :=
  ∀ w ∈ writes, (r.range w.region).start ≤ w.address ∧
    w.address + w.length ≤ (r.range w.region).start + (r.range w.region).length

def RamWrite.extent (w : RamWrite) : Extent := ⟨w.address, w.length⟩

/-- The gate leaves an address as it is. -/
def Spared (request : Request) (address : ℕ) : Prop :=
  ∀ gate, request.kernelGate = some gate → ∀ ram, (gate request.kernel ram).2 address = ram address

/-- Planned, not started, and nothing written elsewhere. -/
structure Underway (machine : Machine) (md : Option MdStorage) (request : Request)
    (image : Firmware.Macho) (plan : Plan) (b : Bringup) : Prop where
  unstarted : Unstarted machine md b
  planned : Planned request image plan b.result
  contained : Contained b.result b.writes
  elsewhere : ∀ address, Spared request address → (∀ w ∈ b.writes, ¬w.extent.Covers address) →
    b.machine.ram address = machine.ram address

theorem range_congr (hsame : r'.places = r.places) (region : Region) :
    r'.range region = r.range region := by
  have hkernel := congrArg Places.kernelBeginPa hsame
  have hkernelEnd := congrArg Places.kernelEndPa hsame
  have htree := congrArg Places.devicetreePa hsame
  have hsize := congrArg Places.devicetreeSize hsame
  have hargs := congrArg Places.bootArgsPa hsame
  cases region with
  | kernel => exact congrArg₂ (fun a b ↦ (⟨a, b - a⟩ : Extent)) hkernel hkernelEnd
  | tree => exact congrArg₂ Extent.mk htree hsize
  | args => exact congrArg (Extent.mk · 0x1000) hargs

theorem Underway.report (h : Underway machine md request image plan b)
    (hsame : r.places = b.result.places) (hentry : r.entryPa = b.result.entryPa)
    (hbridge : r.mdBridgeInstalled = b.result.mdBridgeInstalled) :
    Underway machine md request image plan { b with result := r } := by
  have hu := h.unstarted
  refine ⟨⟨hu.pc, hu.r0, hu.handler, hu.storage, hbridge.trans hu.bridge⟩,
    h.planned.congr hsame hentry, fun w hw ↦ ?_, h.elsewhere⟩
  show (r.range w.region).start ≤ _ ∧ _ ≤ (r.range w.region).start + (r.range w.region).length
  rw [range_congr hsame]
  exact h.contained w hw

theorem Underway.store (h : Underway machine md request image plan b) {region : Region}
    {address : ℕ} {data : List Octet} (hlow : (b.result.range region).start ≤ address)
    (hhigh : address + data.length ≤
      (b.result.range region).start + (b.result.range region).length) :
    Underway machine md request image plan (b.store region address data) := by
  have hu := h.unstarted
  constructor
  case unstarted => exact ⟨hu.pc, hu.r0, hu.handler, hu.storage, hu.bridge⟩
  case planned => exact h.planned
  case contained =>
    intro w hw
    rcases mem_append.1 hw with hold | hnew
    · exact h.contained w hold
    · obtain rfl := mem_singleton.1 hnew
      exact ⟨hlow, hhigh⟩
  case elsewhere =>
    intro place hspared hnone
    have hnew := hnone ⟨region, address, data.length⟩
      (mem_append_right _ (mem_singleton_self _))
    have hsame : overwrite b.machine.ram address data place = b.machine.ram place :=
      overwrite_of_not_mem hnew
    apply hsame.trans
    exact h.elsewhere place hspared fun w hw ↦ hnone w (mem_append_left _ hw)

/-- A step of which no refusal comes early, and that goes on with what is under way. -/
def Continues {α : Type} (machine : Machine) (md : Option MdStorage) (request : Request)
    (image : Firmware.Macho) (plan : Plan) (step : Step α) : Prop :=
  ∀ b, Underway machine md request image plan b →
    Ends (fun _ ↦ Underway machine md request image plan) (RefusedLate machine md) step b

theorem Continues.seq {α β : Type} {step : Step α} {next : α → Step β}
    (h : Continues machine md request image plan step)
    (hnext : ∀ a, Continues machine md request image plan (next a)) :
    Continues machine md request image plan (step >>= next) :=
  fun b hb ↦ (h b hb).bind fun a t ht ↦ hnext a t ht

theorem continues_report {change : BringupResult → BringupResult}
    (hsame : ∀ r, (change r).places = r.places) (hentry : ∀ r, (change r).entryPa = r.entryPa)
    (hbridge : ∀ r, (change r).mdBridgeInstalled = r.mdBridgeInstalled) :
    Continues machine md request image plan (report change) :=
  fun b hb ↦ ends_modify.2 (hb.report (hsame b.result) (hentry b.result) (hbridge b.result))

theorem continues_load {region : Region} {address : ℕ} {data : List Octet}
    (h : ∀ b, Underway machine md request image plan b →
      (b.result.range region).start ≤ address ∧ address + data.length ≤
        (b.result.range region).start + (b.result.range region).length) :
    Continues machine md request image plan (s5l8900Load region address data) := by
  intro b hb
  apply ends_modify.2
  split_ifs
  · exact hb
  · exact hb.store (h b hb).1 (h b hb).2

theorem segmentPa_eq (h : Planned request image plan r) {segment : Firmware.MachoSegment}
    (hmem : segment ∈ image.segments) (hfile : segment.filesize ≠ 0)
    (hvirt : virtBase ≤ segment.vmaddr) :
    segmentPa plan.kernel segment = some (physBase + (segment.vmaddr - virtBase)) ∧
      plan.kernel.start ≤ physBase + (segment.vmaddr - virtBase) ∧
        physBase + (segment.vmaddr - virtBase) + segment.filesize ≤ plan.kernel.stop := by
  have hspanned := Firmware.machoParse_spanned h.usable.parsed
  have hinside := hspanned.segments segment hmem
  have hsize : segment.vmsize ≠ 0 := by
    have := hinside.filled
    omega
  have hlow := hinside.low hsize
  have hhigh := hinside.high hsize
  have hfilled := hinside.filled
  have hdram := h.arranged.kernel_le
  have hkernel := h.arranged.kernel
  have hstart : plan.kernel.start = physBase + (image.vmLow - virtBase) := by rw [hkernel]
  have hstop : plan.kernel.stop = physBase + (image.vmHigh - virtBase) := by rw [hkernel]
  have hvirtLow := h.usable.low
  have hplaces : plan.kernel.start ≤ physBase + (segment.vmaddr - virtBase) ∧
      physBase + (segment.vmaddr - virtBase) + segment.filesize ≤ plan.kernel.stop := by omega
  refine ⟨?_, hplaces⟩
  have hstopDram : dram.stop = 0x10000000 := rfl
  have hmax64 : uint64Max = 2 ^ 64 - 1 := rfl
  have hmax32 : uint32Max = 2 ^ 32 - 1 := rfl
  unfold segmentPa
  rw [addU64_eq (by omega), Option.bind_eq_bind, Option.bind_some, addU64_eq (by omega),
    Option.bind_some]
  exact if_neg (by omega)

theorem loadSegments_continues (segments : List Firmware.MachoSegment)
    (hall : ∀ segment ∈ segments, segment ∈ image.segments) :
    Continues machine md request image plan (loadSegments request plan.kernel segments) := by
  induction segments with
  | nil => exact fun b hb ↦ ends_pure.2 hb
  | cons segment rest ih =>
    have hrest := ih fun other hother ↦ hall other (mem_cons_of_mem _ hother)
    rw [loadSegments]
    split_ifs with hskip
    · exact hrest
    intro b hb
    have hvirt : virtBase ≤ segment.vmaddr := by omega
    obtain ⟨hplace, -, -⟩ :=
      segmentPa_eq hb.planned (hall segment mem_cons_self) (by omega) hvirt
    rw [hplace, ends_bind, ends_expect]
    refine ⟨fun address haddress ↦ ?_, fun hnone ↦ nomatch hnone⟩
    obtain rfl := Option.some.inj haddress
    refine Continues.seq (continues_load ?_) (fun _ ↦ ?_) b hb
    · intro t ht
      obtain ⟨-, hlow, hhigh⟩ :=
        segmentPa_eq ht.planned (hall segment mem_cons_self) (by omega) hvirt
      have hbegin := ht.planned.arranged.kernelBeginPa
      have hend := ht.planned.arranged.kernelEndPa
      have htake := length_take_le segment.filesize (request.kernel.drop segment.fileoff)
      show t.result.kernelBeginPa ≤ _ ∧
        _ ≤ t.result.kernelBeginPa + (t.result.kernelEndPa - t.result.kernelBeginPa)
      omega
    · refine Continues.seq ?_ fun _ ↦ hrest
      exact continues_report (fun _ ↦ rfl) (fun _ ↦ rfl) fun _ ↦ rfl

theorem runGate_continues : Continues machine md request image plan (runGate request) := by
  unfold runGate
  split_ifs
  · exact fun b hb ↦ ends_pure.2 hb
  split
  · exact fun b hb ↦ ends_pure.2 hb
  case h_2 gate hgate =>
    intro b hb
    have hu := hb.unstarted
    have hgated : Underway machine md request image plan
        { b with machine := { b.machine with ram := (gate request.kernel b.machine.ram).2 } } := by
      refine ⟨⟨hu.pc, hu.r0, hu.handler, hu.storage, hu.bridge⟩, hb.planned, hb.contained, ?_⟩
      intro address hspared hnone
      exact (hspared gate hgate b.machine.ram).trans (hb.elsewhere address hspared hnone)
    simp only [ends_bind, ends_get, ends_modify, ends_require]
    exact ⟨fun _ ↦ hgated, fun _ ↦ ⟨hgated.unstarted, rfl⟩⟩

theorem storeEdits_continues (edits : List Edit) (hedits : Within request.devicetree.length edits) :
    Continues machine md request image plan (storeEdits plan edits) := by
  induction edits with
  | nil => exact fun b hb ↦ ends_pure.2 hb
  | cons edit rest ih =>
    obtain ⟨place, octets⟩ := edit
    have hplace := hedits (place, octets) mem_cons_self
    rw [storeEdits]
    apply Continues.seq _ fun _ ↦ ih fun other hother ↦ hedits other (mem_cons_of_mem _ hother)
    intro b hb
    have hstart := hb.planned.arranged.devicetreePa
    have hsize := hb.planned.arranged.devicetreeSize
    apply ends_modify.2
    apply hb.store
    · show b.result.devicetreePa ≤ _
      omega
    · show _ ≤ b.result.devicetreePa + b.result.devicetreeSize
      dsimp only at hplace
      omega

theorem patch_continues {find : List Octet → Option (List Edit)}
    (hfind : ∀ tree edits, find tree = some edits → Within tree.length edits) :
    Continues machine md request image plan (patch plan request.devicetree.length find) := by
  intro b hb
  unfold patch
  simp only [ends_bind, ends_get, ends_expect]
  refine ⟨fun edits hedits ↦ ?_, fun _ ↦ ⟨hb.unstarted, rfl⟩⟩
  apply storeEdits_continues edits _ b hb
  have hwithin := hfind _ _ hedits
  rwa [Bringup.tree, length_window] at hwithin

theorem countPatch_continues : Continues machine md request image plan countPatch :=
  continues_report (fun _ ↦ rfl) (fun _ ↦ rfl) fun _ ↦ rfl

theorem patchIf_continues {wanted : Bool} {find : List Octet → Option (List Edit)}
    (hfind : ∀ tree edits, find tree = some edits → Within tree.length edits) :
    Continues machine md request image plan
      (patchIf wanted plan request.devicetree.length find) := by
  unfold patchIf
  split_ifs
  · exact (patch_continues hfind).seq fun _ ↦ countPatch_continues
  · exact fun b hb ↦ ends_pure.2 hb

theorem loadTree_continues : Continues machine md request image plan (loadTree request plan) := by
  refine Continues.seq (continues_load ?_) (fun _ ↦ ?_)
  · intro b hb
    have hstart := hb.planned.arranged.devicetreePa
    have hsize := hb.planned.arranged.devicetreeSize
    show b.result.devicetreePa ≤ _ ∧ _ ≤ b.result.devicetreePa + b.result.devicetreeSize
    omega
  · intro b hb
    simp only [ends_bind, ends_get, ends_require]
    exact ⟨fun _ ↦ hb, fun _ ↦ ⟨hb.unstarted, rfl⟩⟩

theorem patchClocks_continues (table : List (String × String × ℕ)) :
    Continues machine md request image plan
      (patchClocks plan request.devicetree.length table) := by
  induction table with
  | nil => exact fun b hb ↦ ends_pure.2 hb
  | cons entry rest ih =>
    obtain ⟨path, prop, value⟩ := entry
    rw [patchClocks]
    apply (patch_continues fun _ _ ↦ dtSetU32_within).seq
    intro _
    exact countPatch_continues.seq fun _ ↦ ih

theorem unmatchLoop_continues (paths : List (List Octet)) : Continues machine md request image plan
      (unmatchLoop plan request.devicetree.length paths) := by
  induction paths with
  | nil => exact fun b hb ↦ ends_pure.2 hb
  | cons path rest ih =>
    rw [unmatchLoop]
    apply (patch_continues fun _ _ ↦ dtUnmatch_within).seq
    intro _
    refine Continues.seq ?_ fun _ ↦ ih
    exact continues_report (fun _ ↦ rfl) (fun _ ↦ rfl) fun _ ↦ rfl

theorem patchTree_continues : Continues machine md request image plan (patchTree request plan) := by
  unfold patchTree
  apply (patchClocks_continues clocks).seq
  intro _
  refine Continues.seq (patchIf_continues ?_) fun _ ↦ ?_
  · intro tree edits hfind
    split_ifs at hfind
    exact dtSetU32_within hfind
  apply Continues.seq (patchIf_continues fun _ _ ↦ dtSetReg_within)
  intro _
  apply Continues.seq (patchIf_continues fun _ _ ↦ dtSetReg_within)
  intro _ b hb
  rw [ends_bind, ends_get]
  refine Continues.seq (patchIf_continues fun _ _ ↦ dtMemmapAdd_within) ?_ b hb
  exact fun _ ↦ unmatchLoop_continues _

theorem length_bootArgs {r : BringupResult} (h : r.cmdline.length < cmdlineCapacity) :
    (bootArgs request r).length = bootArgsSize := by
  have hcapacity : cmdlineCapacity = 256 := rfl
  have hsize : bootArgsSize = 0x138 := rfl
  unfold bootArgs
  simp only [length_append, length_replicate, LittleEndian.length_put]
  omega

/-- The text and the arguments that carry it. -/
theorem bootArgs_continue : Continues machine md request image plan
    (commandLine request >>= fun _ ↦ loadBootArgs request plan) := by
  intro b hb
  unfold commandLine loadBootArgs
  simp only [ends_bind, ends_require, ends_get, report, ends_modify]
  refine ⟨fun htext ↦ ?_, fun _ ↦ ⟨hb.unstarted, rfl⟩⟩
  apply continues_load
  case a => exact hb.report rfl rfl rfl
  intro t ht
  have hstart := ht.planned.arranged.bootArgsPa
  have hlength := @length_bootArgs request { b.result with cmdline := cmdlineOf request } htext
  have hsize : bootArgsSize = 0x138 := rfl
  refine ⟨hstart.le, ?_⟩
  show _ ≤ t.result.bootArgsPa + 0x1000
  rw [hlength]
  omega

theorem seedDisplay_continues :
    Continues machine md request image plan (seedDisplay request plan) := by
  unfold seedDisplay
  split_ifs
  · exact fun b hb ↦ ends_pure.2 hb
  · intro b hb
    have hu := hb.unstarted
    simp only [ends_bind, ends_get, ends_expect, ends_modify]
    refine ⟨fun clcd _ ↦ ?_, fun _ ↦ ⟨hu, rfl⟩⟩
    exact ⟨⟨hu.pc, hu.r0, hu.handler, hu.storage, hu.bridge⟩, hb.planned, hb.contained,
      hb.elsewhere⟩

theorem populate_continues :
    Continues machine md request image plan (populate request image plan) := by
  unfold populate
  apply (loadSegments_continues image.segments fun _ h ↦ h).seq
  intro _
  apply runGate_continues.seq
  intro _
  apply loadTree_continues.seq
  intro _
  apply patchTree_continues.seq
  intro _ b hb
  have hargs := bootArgs_continue b hb
  rw [ends_bind] at hargs ⊢
  apply hargs.weaken
  intro _ t ht
  apply ht.bind
  intro _ u hu
  exact seedDisplay_continues u hu

/-- What the result lists as boot-owned, in the order of the plan. -/
def BringupResult.extents (request : Request) (r : BringupResult) : List Extent :=
  [r.range .kernel, r.range .tree, r.range .args,
    ⟨r.rawBouncePa, if request.wantRoot then mdRawReserveSize else 0⟩,
    ⟨r.framebufferPa, r.vramBytes⟩]

/-- The layout of a machine that has been started. -/
structure LaidOut (request : Request) (r : BringupResult) : Prop where
  kernel : ∃ image, Firmware.machoParse request.kernel = .ok image ∧
    r.kernelBeginPa = physBase + (image.vmLow - virtBase) ∧
    r.kernelEndPa = physBase + (image.vmHigh - virtBase)
  tree : r.devicetreeSize = request.devicetree.length
  display : r.vramBytes = if request.wantFb then vramBytes else 0
  disjoint : (r.extents request).Pairwise Extent.Disjoint
  inside : ∀ e ∈ r.extents request, e.length ≠ 0 →
    physBase ≤ e.start ∧ e.start + e.length ≤ r.topOfKernelDataPa
  aligned : tokdAlignment ∣ r.topOfKernelDataPa
  headroom : r.topOfKernelDataPa + bootstrapHeadroom ≤ physBase + ramSize
  entry : r.kernelBeginPa ≤ r.entryPa ∧ r.entryPa < r.kernelEndPa

/-- A range as the span of addresses it takes. -/
def Range.extent (range : Range) : Extent := ⟨range.start, range.stop - range.start⟩

theorem Arranged.extents (h : Arranged request image plan r) :
    r.extents request = plan.ranges.map Range.extent := by
  have htree := h.follow.tree.2
  have hargs := h.follow.args.2
  have hbounce := h.follow.bounce
  unfold BringupResult.extents BringupResult.range Plan.ranges ranges Range.extent
  simp only [map_cons, map_nil, h.kernelBeginPa, h.kernelEndPa, h.devicetreePa,
    h.devicetreeSize, h.bootArgsPa, h.rawBouncePa, h.framebufferPa, h.vramBytes, List.cons.injEq,
    Extent.mk.injEq, true_and, and_true]
  refine ⟨by omega, by omega, ?_⟩
  split_ifs at hbounce ⊢ with hroot
  · omega
  · omega

theorem Arranged.active (h : Arranged request image plan r) {range : Range}
    (hrange : range ∈ plan.ranges) (hlength : range.extent.length ≠ 0) : range.active = true := by
  have hactive := h.follow.active
  have hbounce := h.follow.bounce
  have hfb := h.framebuffer
  unfold Range.extent at hlength
  dsimp only at hlength
  unfold Plan.ranges ranges at hrange
  simp only [mem_cons, not_mem_nil, or_false] at hrange
  rcases hrange with rfl | rfl | rfl | rfl | rfl
  · rw [h.kernel]
  · exact hactive.1
  · exact hactive.2.1
  · rw [hactive.2.2]
    by_contra hroot
    rw [if_neg hroot] at hbounce
    omega
  · rw [hfb.1]
    by_contra hwant
    rw [if_neg hwant] at hfb
    omega

theorem Planned.laidOut (h : Planned request image plan r) : LaidOut request r := by
  have harranged := h.arranged
  constructor
  case kernel =>
    refine ⟨image, h.usable.parsed, ?_, ?_⟩
    · rw [harranged.kernelBeginPa, harranged.kernel]
    · rw [harranged.kernelEndPa, harranged.kernel]
  case tree => exact harranged.devicetreeSize
  case display =>
    have hfb := harranged.framebuffer.2
    rw [harranged.vramBytes]
    split_ifs at hfb ⊢ with hwant
    · omega
    · omega
  case disjoint =>
    rw [harranged.extents, pairwise_map]
    apply harranged.ordered.imp_of_mem
    intro a b ha hb hbefore
    rintro x ⟨⟨hlow, hhigh⟩, hlow', hhigh'⟩
    have hle := hbefore (harranged.active ha (by omega)) (harranged.active hb (by omega))
    unfold Range.extent at hlow hhigh hlow' hhigh'
    dsimp only at hlow hhigh hlow' hhigh'
    omega
  case inside =>
    rw [harranged.extents, harranged.topOfKernelDataPa]
    intro e he hlength
    obtain ⟨range, hrange, rfl⟩ := mem_map.1 he
    have hinside := harranged.inside range hrange (harranged.active hrange hlength)
    unfold Range.extent at hlength ⊢
    dsimp only at hlength ⊢
    have hstart : dram.start = physBase := rfl
    omega
  case aligned =>
    rw [harranged.topOfKernelDataPa]
    exact harranged.top.1
  case headroom =>
    rw [harranged.topOfKernelDataPa]
    exact harranged.top.2
  case entry =>
    rw [harranged.kernelBeginPa, harranged.kernelEndPa]
    exact h.entry

/-- Planned and written, started or not. -/
structure Ready (request : Request) (machine : Machine) (b : Bringup) : Prop where
  laidOut : LaidOut request b.result
  contained : Contained b.result b.writes
  elsewhere : ∀ address, Spared request address →
    (∀ region, ¬(b.result.range region).Covers address) →
      b.machine.ram address = machine.ram address

theorem installBridges_ends (h : Underway machine md request image plan b) :
    Ends (fun _ ↦ Ready request machine) (RefusedLate machine md) (installBridges request plan) b := by
  have hready : Ready request machine b := by
    refine ⟨h.planned.laidOut, h.contained, fun address hspared hnone ↦ ?_⟩
    apply h.elsewhere address hspared
    rintro w hw ⟨hlow, hhigh⟩
    obtain ⟨hstart, hstop⟩ := h.contained w hw
    unfold RamWrite.extent at hlow hhigh
    dsimp only at hlow hhigh
    exact hnone w.region ⟨by omega, by omega⟩
  unfold installBridges
  split
  case h_1 => exact ends_pure.2 hready
  case h_2 media hmedia =>
    simp only [ends_bind, ends_require, ends_modify]
    refine ⟨fun _ ↦ ?_, fun _ ↦ ⟨h.unstarted, rfl⟩⟩
    have hplanned : Planned request image plan { b.result with mdBridgeInstalled := true } :=
      h.planned.congr rfl rfl
    exact ⟨hplanned.laidOut, hready.contained, hready.elsewhere⟩

/-- What planning refuses with. -/
def BringupStatus.ofPlanning : List BringupStatus :=
  [.layoutOverflow, .layoutNoRoom, .layoutOverlap, .entryOutsideKernel, .rootMediaInvalid]

/-- A bring-up, told from how it ends. -/
structure Sound (request : Request) (machine : Machine) (md : Option MdStorage)
    (outcome : (BringupStatus × BringupStage) × Bringup) : Prop where
  accepted : outcome.1.1 = .ok → Ready request machine outcome.2 ∧
    outcome.2.machine.pc = outcome.2.result.entryPa ∧
    outcome.2.machine.r0 = outcome.2.result.bootArgsPa
  refused : outcome.1.1 ≠ .ok → Unstarted machine md outcome.2
  unwritten : outcome.1.1 ∈ BringupStatus.ofPlanning →
    outcome.2.machine.ram = machine.ram ∧ outcome.2.writes = []
  possible : outcome.1.1 ≠ .kernelSpanUnsafe ∧ outcome.1.1 ≠ .layoutOverlap

theorem early_ne {status : BringupStatus} (h : status.early = true) :
    status ≠ .ok ∧ status ≠ .kernelSpanUnsafe ∧ status ≠ .layoutOverlap := by
  cases status <;> simp [BringupStatus.early, BringupStatus.late] at h ⊢

theorem late_ne {status : BringupStatus} (h : status.late = true) :
    status ≠ .ok ∧ status ≠ .kernelSpanUnsafe ∧ status ≠ .layoutOverlap ∧
      status ∉ BringupStatus.ofPlanning := by
  cases status <;> simp [BringupStatus.late, BringupStatus.ofPlanning] at h ⊢

theorem sound_of_early {failure : BringupStatus × BringupStage}
    (h : RefusedEarly machine md failure b) : Sound request machine md (failure, b) := by
  obtain ⟨huntouched, hearly⟩ := h
  obtain ⟨hok, hpossible⟩ := early_ne hearly
  constructor
  case accepted => exact fun h ↦ absurd h hok
  case refused => exact fun _ ↦ huntouched.unstarted
  case unwritten => exact fun _ ↦ ⟨huntouched.ram, huntouched.writes⟩
  case possible => exact hpossible

theorem sound_of_late {failure : BringupStatus × BringupStage}
    (h : RefusedLate machine md failure b) : Sound request machine md (failure, b) := by
  obtain ⟨hunstarted, hlate⟩ := h
  obtain ⟨hok, hspan, hoverlap, hplanning⟩ := late_ne hlate
  constructor
  case accepted => exact fun h ↦ absurd h hok
  case refused => exact fun _ ↦ hunstarted
  case unwritten => exact fun h ↦ absurd h hplanning
  case possible => exact ⟨hspan, hoverlap⟩

/-- The machine has been pointed at the kernel that was laid out. -/
theorem sound_of_ready (h : Ready request machine b) :
    Sound request machine md ((.ok, .entry), { b with machine := { b.machine with
      pc := b.result.entryPa
      r0 := b.result.bootArgsPa } }) := by
  constructor
  case accepted => exact fun _ ↦ ⟨⟨h.laidOut, h.contained, h.elsewhere⟩, rfl, rfl⟩
  case refused => exact fun hne ↦ absurd rfl hne
  case unwritten =>
    have hnot : BringupStatus.ok ∉ BringupStatus.ofPlanning := by decide
    exact fun hmem ↦ absurd hmem hnot
  case possible => exact ⟨nofun, nofun⟩

/-- The layout is apart and the machine starts only on success. -/
theorem s5lBringup_sound (request : Request) (machine : Machine) (md : Option MdStorage) :
    Sound request machine md (s5lBringup request machine md) := by
  have huntouched : Untouched machine md { machine := machine, md := md } :=
    ⟨⟨rfl, rfl, rfl, Or.inl rfl, rfl⟩, rfl, rfl⟩
  have hends : Ends (fun _ b ↦ ∃ t, Ready request machine t ∧ b = { t with machine := { t.machine with
        pc := t.result.entryPa
        r0 := t.result.bootArgsPa } })
      (fun failure b ↦ Sound request machine md (failure, b))
      (prepare request >>= fun found ↦ populate request found.1 found.2 >>= fun _ ↦
        installBridges request found.2 >>= fun _ ↦ start)
      { machine := machine, md := md } := by
    apply ((prepare_ends huntouched).mono (fun _ _ h ↦ h) fun _ _ h ↦ sound_of_early h).bind
    rintro ⟨image, plan⟩ t ⟨hplanned, ht⟩
    have hunder : Underway machine md request image plan t := by
      refine ⟨ht.unstarted, hplanned, ?_, fun address _ _ ↦ by rw [ht.ram]⟩
      rw [ht.writes]
      exact nofun
    apply ((populate_continues t hunder).mono (fun _ _ h ↦ h) fun _ _ h ↦ sound_of_late h).bind
    intro _ u hu
    apply ((installBridges_ends hu).mono (fun _ _ h ↦ h) fun _ _ h ↦ sound_of_late h).bind
    intro _ v hv
    exact ends_modify.2 ⟨v, hv, rfl⟩
  obtain ⟨hdone, hrefused⟩ := ends_iff.1 hends
  unfold s5lBringup
  dsimp only
  split
  case h_1 failure b hrun => exact hrefused failure b hrun
  case h_2 b hrun =>
    obtain ⟨t, hready, rfl⟩ := hdone () b hrun
    exact sound_of_ready hready

end S5LBox.Boot
