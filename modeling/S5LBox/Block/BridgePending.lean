import S5LBox.Block.BridgeArray

/-!
# Suspended requests

A request that goes through `uiomove` waits in a slot, keyed by the stack it was made on. Whatever
the order in which stacks enter and complete, the slots stay apart from each other and from the
direct transfers in between, and a completion gives back the slot it has found and no other.
-/

namespace S5LBox.Bridge

open Function List Block Span
open Function (update)

variable {cfg : Config} {σ : Type} {dev : Device}

/-- The bounce storage of a suspended request. -/
def Pending.bounce (pending : Pending) : Extent := ⟨pending.bouncePa, pending.originalResidual⟩

/-- The suspended requests are apart from each other. -/
structure Isolated (cfg : Config) (bridge : State) : Prop where
  keys : ∀ i j, i ≠ j → (bridge.pending i).active → (bridge.pending j).active →
    (bridge.pending i).keySp ≠ (bridge.pending j).keySp
  metadata : ∀ i j, i ≠ j → (bridge.pending i).active → (bridge.pending j).active → ∀ x,
    ¬(Covered (bridge.pending i).metadataSpans x ∧ Covered (bridge.pending j).metadataSpans x)
  bounce : ∀ i j, i ≠ j → (bridge.pending i).active → (bridge.pending j).active →
    (bridge.pending i).bounce.Disjoint (bridge.pending j).bounce
  reservation : ∀ i, (bridge.pending i).active → ∀ x, (bridge.pending i).bounce.Covers x →
    cfg.reservation.Covers x

/-- What the calls keep: a slot in use holds its own piece of the reservation and a slot that is
not in use is clear. -/
structure Sound (cfg : Config) (bridge : State) : Prop where
  clear : ∀ i, (bridge.pending i).active = false → bridge.pending i = {}
  slots : ∀ i, (bridge.pending i).active → i < cfg.bounceSlotCount
  keys : ∀ i j, i ≠ j → (bridge.pending i).active → (bridge.pending j).active →
    (bridge.pending i).keySp ≠ (bridge.pending j).keySp
  metadata : ∀ i j, i ≠ j → (bridge.pending i).active → (bridge.pending j).active → ∀ x,
    ¬(Covered (bridge.pending i).metadataSpans x ∧ Covered (bridge.pending j).metadataSpans x)
  bounce : ∀ i, (bridge.pending i).active →
    (bridge.pending i).bouncePa = cfg.bounceBasePa + i * cfg.bounceStride ∧
      (bridge.pending i).originalResidual ≤ cfg.bounceStride

variable {bridge : State} {slot : ℕ} {ram : ℕ → Octet}

theorem isolated_of_sound (h : Sound cfg bridge) : Isolated cfg bridge where
  keys := h.keys
  metadata := h.metadata
  bounce := by
    intro i j hij hi hj
    obtain ⟨hbase, hlength⟩ := h.bounce i hi
    obtain ⟨hbase', hlength'⟩ := h.bounce j hj
    rintro x ⟨⟨hlow, hhigh⟩, hlow', hhigh'⟩
    change (bridge.pending i).bouncePa ≤ x at hlow
    change x < (bridge.pending i).bouncePa + (bridge.pending i).originalResidual at hhigh
    change (bridge.pending j).bouncePa ≤ x at hlow'
    change x < (bridge.pending j).bouncePa + (bridge.pending j).originalResidual at hhigh'
    rw [hbase] at hlow hhigh
    rw [hbase'] at hlow' hhigh'
    rcases Nat.lt_or_gt_of_ne hij with hlt | hlt
    · have hstep : (i + 1) * cfg.bounceStride ≤ j * cfg.bounceStride := Nat.mul_le_mul_right _ hlt
      rw [Nat.succ_mul] at hstep
      omega
    · have hstep : (j + 1) * cfg.bounceStride ≤ i * cfg.bounceStride := Nat.mul_le_mul_right _ hlt
      rw [Nat.succ_mul] at hstep
      omega
  reservation := by
    intro i hi x hx
    obtain ⟨hbase, hlength⟩ := h.bounce i hi
    have hx' : (bridge.pending i).bouncePa ≤ x ∧
        x < (bridge.pending i).bouncePa + (bridge.pending i).originalResidual := hx
    have hstep : (i + 1) * cfg.bounceStride ≤ cfg.bounceSlotCount * cfg.bounceStride :=
      Nat.mul_le_mul_right _ (h.slots i hi)
    rw [Nat.succ_mul, Nat.mul_comm cfg.bounceSlotCount] at hstep
    rw [hbase] at hx'
    change cfg.bounceBasePa ≤ x ∧ x < cfg.bounceBasePa + cfg.bounceStride * cfg.bounceSlotCount
    omega

theorem sound_init : Sound cfg init where
  clear := fun _ _ ↦ rfl
  slots := fun _ h ↦ by cases h
  keys := fun _ _ _ h ↦ by cases h
  metadata := fun _ _ _ h ↦ by cases h
  bounce := fun _ h ↦ by cases h

theorem sound_clear (h : Sound cfg bridge) (slot : ℕ) (guardTail : ℕ → Octet) :
    Sound cfg ⟨update bridge.pending slot {}, guardTail⟩ := by
  have hactive {i : ℕ} (hi : (update bridge.pending slot {} i).active = true) :
      i ≠ slot ∧ update bridge.pending slot {} i = bridge.pending i := by
    by_cases hslot : i = slot
    · rw [hslot, update_self] at hi
      cases hi
    · exact ⟨hslot, update_of_ne hslot ..⟩
  refine ⟨fun i hi ↦ ?_, fun i hi ↦ ?_, fun i j hij hi hj ↦ ?_, fun i j hij hi hj ↦ ?_,
    fun i hi ↦ ?_⟩
  · dsimp only at hi ⊢
    by_cases hslot : i = slot
    · rw [hslot, update_self]
    · rw [update_of_ne hslot] at hi ⊢
      exact h.clear i hi
  · dsimp only at hi
    rw [(hactive hi).2] at hi
    exact h.slots i hi
  · dsimp only at hi hj ⊢
    obtain ⟨-, hiSame⟩ := hactive hi
    obtain ⟨-, hjSame⟩ := hactive hj
    rw [hiSame] at hi ⊢
    rw [hjSame] at hj ⊢
    exact h.keys i j hij hi hj
  · dsimp only at hi hj ⊢
    obtain ⟨-, hiSame⟩ := hactive hi
    obtain ⟨-, hjSame⟩ := hactive hj
    rw [hiSame] at hi ⊢
    rw [hjSame] at hj ⊢
    exact h.metadata i j hij hi hj
  · dsimp only at hi ⊢
    obtain ⟨-, hiSame⟩ := hactive hi
    rw [hiSame] at hi ⊢
    exact h.bounce i hi

theorem sound_setPending {pending : Pending} (h : Sound cfg bridge)
    (hslot : slot < cfg.bounceSlotCount) (hactive : pending.active = true)
    (hstack : ∀ i, (bridge.pending i).active → (bridge.pending i).keySp ≠ pending.keySp)
    (hmetadata : ∀ i, (bridge.pending i).active → ∀ x,
      ¬(Covered (bridge.pending i).metadataSpans x ∧ Covered pending.metadataSpans x))
    (hbounce : pending.bouncePa = cfg.bounceBasePa + slot * cfg.bounceStride ∧
      pending.originalResidual ≤ cfg.bounceStride) :
    Sound cfg (bridge.setPending slot pending) := by
  have hself : (bridge.setPending slot pending).pending slot = pending := update_self ..
  have hother {i : ℕ} (hi : i ≠ slot) :
      (bridge.setPending slot pending).pending i = bridge.pending i := update_of_ne hi ..
  refine ⟨fun i hi ↦ ?_, fun i hi ↦ ?_, fun i j hij hi hj ↦ ?_, fun i j hij hi hj ↦ ?_,
    fun i hi ↦ ?_⟩
  · by_cases his : i = slot
    · rw [his, hself, hactive] at hi
      cases hi
    · rw [hother his] at hi ⊢
      exact h.clear i hi
  · by_cases his : i = slot
    · rw [his]
      exact hslot
    · rw [hother his] at hi
      exact h.slots i hi
  · by_cases his : i = slot
    · have hjs : j ≠ slot := fun hjs ↦ hij (his.trans hjs.symm)
      rw [hother hjs] at hj ⊢
      rw [his, hself]
      exact (hstack j hj).symm
    · rw [hother his] at hi ⊢
      by_cases hjs : j = slot
      · rw [hjs, hself]
        exact hstack i hi
      · rw [hother hjs] at hj ⊢
        exact h.keys i j hij hi hj
  · by_cases his : i = slot
    · have hjs : j ≠ slot := fun hjs ↦ hij (his.trans hjs.symm)
      rw [hother hjs] at hj ⊢
      rw [his, hself]
      exact fun x hx ↦ hmetadata j hj x hx.symm
    · rw [hother his] at hi ⊢
      by_cases hjs : j = slot
      · rw [hjs, hself]
        exact hmetadata i hi
      · rw [hother hjs] at hj ⊢
        exact h.metadata i j hij hi hj
  · by_cases his : i = slot
    · rw [his, hself]
      exact hbounce
    · rw [hother his] at hi ⊢
      exact h.bounce i hi

/-- The slots after a call, by its outcome. -/
def SlotsAfter (core : Arm.Core) (before after : State) : Outcome → Prop
  | .completed slot _ =>
    ((before.pending slot).active ∧ (before.pending slot).keySp = core.r 13 ∧
      (before.pending slot).keyMode = core.cpsr &&& Arm.cpsrModeMask) ∧
      after.pending = update before.pending slot {}
  | .redirected slot =>
    (before.pending slot).active = false ∧ (after.pending slot).active ∧
      (after.pending slot).keySp = core.r 13 ∧
      ∀ i, i ≠ slot → after.pending i = before.pending i
  | _ => after.pending = before.pending

section Slots

variable {bus : Arm.Bus σ} {cancelled : dev.State → Bool} {m : Machine σ dev}

theorem find?_range_lt {count i : ℕ} {p : ℕ → Bool} (h : (List.range count).find? p = some i) :
    i < count ∧ p i = true :=
  ⟨mem_range.1 (mem_of_find?_eq_some h), find?_some h⟩

theorem pending_settleBounce (pending : Pending) (done : ℕ) :
    (settleBounce cfg cancelled m pending done).2.bridge.pending = m.bridge.pending := by
  unfold settleBounce
  split
  · rfl
  · unfold writeBounce
    dsimp only
    split <;> rfl

theorem completePending_spec (slot : ℕ) :
    (∃ code, (completePending cfg bus cancelled m slot).1 = .completed slot code) ∧
      (completePending cfg bus cancelled m slot).2.bridge.pending =
        update m.bridge.pending slot {} := by
  unfold completePending
  dsimp only
  split
  · exact ⟨⟨_, rfl⟩, rfl⟩
  split
  · exact ⟨⟨_, rfl⟩, rfl⟩
  split
  · exact ⟨⟨_, rfl⟩, rfl⟩
  split
  · exact ⟨⟨_, rfl⟩, rfl⟩
  split
  all_goals
    rename_i moved heq
    have hpending := congrArg (fun result ↦ result.2.bridge.pending) heq
    rw [pending_settleBounce] at hpending
    exact ⟨⟨_, rfl⟩, hpending.symm⟩

theorem pending_leave (exit : Exit) : (leave m exit).2.bridge = m.bridge := by
  cases exit <;> rfl

theorem pending_moveData {request : Request} {spans : List MappedSpan} :
    (moveData cfg cancelled m request spans).2.bridge.pending = m.bridge.pending := by
  unfold moveData
  split
  · unfold readDirect
    dsimp only
    split <;> rfl
  · unfold writeDirect
    dsimp only
    split <;> rfl

theorem pending_transfer {request : Request} {spans : List MappedSpan} :
    (transfer cfg cancelled m request spans).2.bridge.pending = m.bridge.pending := by
  have hmove := @pending_moveData cfg σ dev cancelled m request spans
  unfold transfer
  split
  case h_1 moved heq =>
    rw [heq] at hmove
    exact hmove
  case h_2 moved heq =>
    rw [heq] at hmove
    exact hmove

theorem transfer_outcome {request : Request} {spans : List MappedSpan} :
    (transfer cfg cancelled m request spans).1 = .failed .blockIo ∨
      (transfer cfg cancelled m request spans).1 = .direct request spans := by
  unfold transfer
  split
  · exact .inl rfl
  · exact .inr rfl

theorem sound_congr {bridge' : State} (h : Sound cfg bridge)
    (hpending : bridge'.pending = bridge.pending) : Sound cfg bridge' := by
  constructor
  all_goals rw [hpending]
  · exact h.clear
  · exact h.slots
  · exact h.keys
  · exact h.metadata
  · exact h.bounce

theorem setPending_clear (h : Sound cfg bridge) (hfree : (bridge.pending slot).active = false) :
    bridge.setPending slot {} = bridge := by
  unfold State.setPending
  rw [← h.clear slot hfree, update_eq_self]

theorem allocatePending_spec {sp : Word} (h : allocatePending cfg bridge sp = .ok slot) :
    slot < cfg.bounceSlotCount ∧ (bridge.pending slot).active = false := by
  unfold allocatePending at h
  split at h
  · cases h
  · split at h
    · cases h
    case h_2 found hfind =>
      obtain rfl := Except.ok.inj h
      obtain ⟨hlt, hfree⟩ := find?_range_lt hfind
      exact ⟨hlt, by simpa using hfree⟩

theorem not_pendingSpActive {sp : Word} (hsound : Sound cfg bridge)
    (h : pendingSpActive cfg bridge sp = false) (i : ℕ) (hi : (bridge.pending i).active) :
    (bridge.pending i).keySp ≠ sp := by
  unfold pendingSpActive at h
  rw [any_eq_false] at h
  intro hsp
  exact h i (mem_range.2 (hsound.slots i hi)) (by rw [hi, hsp]; simp)

theorem maxTransfer_le_stride (h : configValid cfg dev = true) :
    maxTransfer ≤ cfg.bounceStride := by
  unfold configValid at h
  simp only [Bool.and_eq_true, decide_eq_true_eq] at h
  omega

theorem startUiomove_spec {request : Request} (hconfig : configValid cfg dev = true)
    (hsound : Sound cfg m.bridge) (hrequest : Admitted cfg m.bridge bus m.cpu.core ram request) :
    SlotsAfter m.cpu.core m.bridge (startUiomove cfg cancelled m request).2.bridge
        (startUiomove cfg cancelled m request).1 ∧
      Sound cfg (startUiomove cfg cancelled m request).2.bridge := by
  unfold startUiomove
  split
  · exact ⟨rfl, hsound⟩
  case h_2 slot hslot =>
    obtain ⟨hlt, hfree⟩ := allocatePending_spec hslot
    have hclear := setPending_clear hsound hfree
    have hkept : SlotsAfter m.cpu.core m.bridge (m.bridge.setPending slot {})
        (.failed .uioRange) ∧ Sound cfg (m.bridge.setPending slot {}) := by
      rw [hclear]
      exact ⟨rfl, hsound⟩
    dsimp only
    split
    · exact hkept
    split
    case h_2 => exact hkept
    case h_1 pas rwPa hpas hrw =>
      split
      · exact hkept
      · have hpending : (m.bridge.setPending slot (pendingOf cfg m.cpu.core request pas rwPa
            slot)).pending slot = pendingOf cfg m.cpu.core request pas rwPa slot :=
          update_self ..
        change SlotsAfter m.cpu.core m.bridge (m.bridge.setPending slot _) (.redirected slot) ∧
          Sound cfg (m.bridge.setPending slot _)
        refine ⟨⟨hfree, ?_, ?_, fun i hi ↦ update_of_ne hi ..⟩, ?_⟩
        · rw [hpending]
          rfl
        · rw [hpending]
          rfl
        · apply sound_setPending hsound hlt rfl
          · exact not_pendingSpActive hsound hrequest.stack
          · intro i hi x hx
            exact hrequest.reserved x hx.2 (.inl ⟨i, hsound.slots i hi, hi, hx.1⟩)
          · exact ⟨rfl, hrequest.length_le.trans (maxTransfer_le_stride hconfig)⟩

theorem findPending_spec {sp mode : Word} (h : findPending cfg bridge sp mode = some slot) :
    (bridge.pending slot).active ∧ (bridge.pending slot).keySp = sp ∧
      (bridge.pending slot).keyMode = mode := by
  obtain ⟨-, hfound⟩ := find?_range_lt h
  simp only [Bool.and_eq_true, decide_eq_true_eq] at hfound
  exact ⟨hfound.1.1, hfound.1.2, hfound.2⟩

theorem handleSvc_spec (hsound : Sound cfg m.bridge) (pc encoding : Word) :
    SlotsAfter m.cpu.core m.bridge (handleSvc cfg bus cancelled m pc encoding).2.bridge
        (handleSvc cfg bus cancelled m pc encoding).1 ∧
      Sound cfg (handleSvc cfg bus cancelled m pc encoding).2.bridge := by
  unfold handleSvc
  rcases gate_cases cfg dev m.cpu.core pc encoding with
    hgate | ⟨code, hgate⟩ | ⟨hconfig, hgate | hgate⟩ <;> rw [hgate]
  · exact ⟨rfl, hsound⟩
  · exact ⟨rfl, hsound⟩
  · dsimp only
    unfold handleCompletion
    split
    · exact ⟨rfl, hsound⟩
    case h_2 slot hslot =>
      obtain ⟨⟨code, houtcome⟩, hpending⟩ := @completePending_spec cfg σ dev bus cancelled m slot
      refine ⟨?_, ?_⟩
      · rw [houtcome]
        exact ⟨findPending_spec hslot, hpending⟩
      · have hclear := sound_clear hsound slot
          (completePending cfg bus cancelled m slot).2.bridge.guardTail
        rw [← hpending] at hclear
        exact hclear
  · dsimp only
    rcases handleEntry_cases cfg bus cancelled m with
      ⟨exit, mmu, hentry⟩ | ⟨request, mmu, hplan, ⟨-, hentry⟩ | ⟨spans, -, hentry⟩⟩
    · rw [hentry, pending_leave]
      refine ⟨?_, hsound⟩
      cases exit <;> rfl
    · rw [hentry]
      exact startUiomove_spec hconfig hsound (admitted_of_planRequest hplan)
    · rw [hentry]
      have hpending := @pending_transfer cfg σ dev cancelled (m.setMmu mmu) request spans
      refine ⟨?_, sound_congr hsound hpending⟩
      rcases @transfer_outcome cfg σ dev cancelled (m.setMmu mmu) request spans with
        houtcome | houtcome
      · rw [houtcome]
        exact hpending
      · rw [houtcome]
        exact hpending

end Slots

/-- A direct call neither reads nor writes an octet of RAM that is reserved for suspended requests:
they keep their values, and with other values there the call does the same. -/
structure Confined (cfg : Config) (backing : Backing dev) (call : Call σ dev) (request : Request)
    (spans : List MappedSpan) : Prop where
  metadata : ∀ x, Covered (extents request.metadata) x → ¬Reserved cfg backing.bridge x
  data : ∀ x, Covered (extents spans) x → ¬Reserved cfg backing.bridge x
  kept : ∀ x, Reserved cfg backing.bridge x → (serve cfg backing call).2.ram x = call.ram x
  ignored : ∀ other, (∀ x, ¬Reserved cfg backing.bridge x → other x = call.ram x) →
    let result := serve cfg backing { call with ram := other }
    result.1 = .direct request spans ∧ result.2.cpu = (serve cfg backing call).2.cpu ∧
      result.2.disk = (serve cfg backing call).2.disk ∧
      result.2.bridge = (serve cfg backing call).2.bridge ∧
      ∀ x, ¬Reserved cfg backing.bridge x → result.2.ram x = (serve cfg backing call).2.ram x

section Confinement

variable {cancelled : dev.State → Bool} {m moved : Machine σ dev} {request : Request}
  {spans : List MappedSpan} {other : ℕ → Octet}

theorem storeU32_congr {pa x : ℕ} {value : Word} (h : other x = ram x) :
    storeU32 other pa value x = storeU32 ram pa value x := by
  unfold storeU32
  rw [overwrite_apply, overwrite_apply, h]

theorem commitUio_congr {x : ℕ} (h : other x = ram x) :
    commitUio request other x = commitUio request ram x := by
  have hfold (iovs : List IovPlan) {ram other : ℕ → Octet} (h : other x = ram x) :
      iovs.foldl commitIov other x = iovs.foldl commitIov ram x := by
    induction iovs generalizing ram other with
    | nil => exact h
    | cons iov rest ih =>
      rw [foldl_cons, foldl_cons]
      apply ih
      unfold commitIov
      split
      · exact h
      · exact storeU32_congr (storeU32_congr h)
  unfold commitUio
  dsimp only
  iterate 5 apply storeU32_congr
  exact hfold request.iovs h

theorem moveData_congr (h : moveData cfg cancelled m request spans = (true, moved))
    (hsame : ∀ x, Covered (extents spans) x → other x = m.ram x) :
    ∃ ram, moveData cfg cancelled { m with ram := other } request spans =
        (true, { moved with ram := ram }) ∧ ∀ x, other x = m.ram x → ram x = moved.ram x := by
  unfold moveData at h ⊢
  cases hdirection : request.direction with
  | read =>
    rw [hdirection] at h
    dsimp only at h ⊢
    unfold readDirect at h ⊢
    dsimp only at h ⊢
    split at h
    · cases h
    case isFalse hstatus =>
      obtain ⟨-, rfl⟩ := Prod.mk.inj h
      rw [if_neg hstatus]
      exact ⟨_, rfl, fun x hx ↦ scatter_congr hx⟩
  | write =>
    rw [hdirection] at h
    dsimp only at h ⊢
    unfold writeDirect at h ⊢
    dsimp only at h ⊢
    rw [gather_congr hsame]
    split at h
    · cases h
    case isFalse hstatus =>
      obtain ⟨-, rfl⟩ := Prod.mk.inj h
      rw [if_neg hstatus]
      exact ⟨_, rfl, fun x hx ↦ hx⟩

theorem confined_of_direct {backing : Backing dev} {call : Call σ dev}
    (h : (serve cfg backing call).1 = .direct request spans) :
    Confined cfg backing call request spans := by
  have hserved := served_of_direct h
  obtain ⟨mmu, hgate, hplan, hdata, hsvc⟩ := handleSvc_direct h
  have hrequest := admitted_of_planRequest hplan
  obtain ⟨-, -, hplanned⟩ := hrequest.data spans hdata
  have hspans (x : ℕ) (hx : Covered (extents spans) x) : ¬Reserved cfg backing.bridge x := by
    obtain ⟨e, he, hcovers⟩ := hx
    obtain ⟨span, hspan, rfl⟩ := mem_map.1 he
    exact (hplanned span hspan).reserved x hcovers
  refine ⟨hrequest.reserved, hspans, fun x hx ↦ ?_, fun other hother ↦ ?_⟩
  · have hmetadata : ¬Covered (extents request.metadata) x := fun h ↦ hrequest.reserved x h hx
    have hdataSpans : ¬Covered (extents spans) x := fun h ↦ hspans x h hx
    cases hdirection : request.direction with
    | read => rw [(hserved.read hdirection).1 x hmetadata, scatter_of_not_covered hdataSpans]
    | write => exact (hserved.write hdirection).1 x hmetadata
  · have hplan' := planRequest_congr hplan fun x hx ↦ hother x (hrequest.reserved x hx)
    rcases hmove : moveData cfg call.cancelled
      (Machine.setMmu ⟨call.cpu, call.ctx, call.ram, backing.disk, backing.bridge⟩ mmu)
      request spans with ⟨_ | _, moved⟩
    · unfold serve at h
      rw [hsvc, transfer, hmove] at h
      cases h
    obtain ⟨ram, hmove', hram⟩ := moveData_congr hmove fun x hx ↦ hother x (hspans x hx)
    change moveData cfg call.cancelled
      (Machine.setMmu ⟨call.cpu, call.ctx, other, backing.disk, backing.bridge⟩ mmu)
      request spans = _ at hmove'
    have hafter : serve cfg backing call = (.direct request spans,
        { moved with ram := commitUio request moved.ram }.answer 0 (moved.cpu.core.r 14)) := by
      unfold serve
      rw [hsvc, transfer, hmove]
    have hafter' : serve cfg backing { call with ram := other } = (.direct request spans,
        { moved with ram := commitUio request ram }.answer 0 (moved.cpu.core.r 14)) := by
      unfold serve handleSvc
      dsimp only at hgate ⊢
      rw [hgate]
      dsimp only
      unfold handleEntry
      dsimp only at hplan' ⊢
      rw [hplan']
      dsimp only
      rw [hdata]
      dsimp only
      unfold transfer
      rw [hmove']
    rw [hafter, hafter']
    exact ⟨rfl, rfl, rfl, rfl, fun x hx ↦ commitUio_congr (hram x (hother x hx))⟩

end Confinement

/-- What a call may do: its direct transfer is confined, a completion that finds its request comes
to an end with it, and the slots follow the outcome. -/
structure Keeps (cfg : Config) (backing : Backing dev) (call : Call σ dev)
    (after : Backing dev) : Prop where
  confined : ∀ request spans, (serve cfg backing call).1 = .direct request spans →
    Confined cfg backing call request spans
  completed : gate cfg dev call.cpu.core call.pc call.encoding = .completion → ∀ slot,
    findPending cfg backing.bridge (call.cpu.core.r 13)
      (call.cpu.core.cpsr &&& Arm.cpsrModeMask) = some slot →
    ∃ code, (serve cfg backing call).1 = .completed slot code
  slots : SlotsAfter call.cpu.core backing.bridge after.bridge (serve cfg backing call).1

theorem completed_of_findPending {backing : Backing dev} {call : Call σ dev}
    (hgate : gate cfg dev call.cpu.core call.pc call.encoding = .completion)
    (hslot : findPending cfg backing.bridge (call.cpu.core.r 13)
      (call.cpu.core.cpsr &&& Arm.cpsrModeMask) = some slot) :
    ∃ code, (serve cfg backing call).1 = .completed slot code := by
  unfold serve handleSvc
  rw [hgate]
  dsimp only
  unfold handleCompletion
  rw [hslot]
  exact (completePending_spec slot).1

/-- In every run of calls from any number of stacks, in any order, the suspended requests stay
apart, no direct transfer touches them and each completion clears the slot it matches. -/
theorem isolated_of_run (cfg : Config) (disk : dev.State) (calls : List (Call σ dev)) :
    Run.Throughout (step cfg) (fun backing ↦ Isolated cfg backing.bridge) (Keeps cfg)
      ⟨init, disk⟩ calls := by
  have hall (start : Backing dev) : Run.Within (step cfg) (fun _ _ ↦ True) start calls := by
    induction calls generalizing start with
    | nil => trivial
    | cons call rest ih => exact ⟨trivial, ih _⟩
  have hstep (backing : Backing dev) (call : Call σ dev) (h : Sound cfg backing.bridge) :=
    @handleSvc_spec cfg σ dev call.bus call.cancelled
      ⟨call.cpu, call.ctx, call.ram, backing.disk, backing.bridge⟩ h call.pc call.encoding
  apply @Run.throughout_of_within _ _ _ (fun _ _ ↦ True) (fun backing ↦ Sound cfg backing.bridge)
  · exact fun backing h ↦ isolated_of_sound h
  · exact fun backing call h _ ↦ (hstep backing call h).2
  · exact fun backing call h _ ↦
      ⟨fun _ _ hdirect ↦ confined_of_direct hdirect,
        fun hgate _ hslot ↦ completed_of_findPending hgate hslot, (hstep backing call h).1⟩
  · exact sound_init
  · exact hall _

end S5LBox.Bridge
