import S5LBox.Block.BridgePending

/-!
# Rejected requests

An entry that is turned down, with an error of its own or one for the guest, has changed nothing
that the guest can see of its storage: RAM, the octets of the device, the guard tail and the
requests that wait are what they were. Two failures are later than that: of a write to the device,
and of the read into a bounce slot, which is cleared before it.
-/

namespace S5LBox.Bridge

open Block Span

variable {cfg : Config} {σ : Type} {dev : Device} {bus : Arm.Bus σ}
  {cancelled : dev.State → Bool} {m : Machine σ dev}

/-- The call returned `ARM_SVC_ERROR` or a guest error. -/
def Outcome.rejects : Outcome → Bool
  | .failed _ => true
  | .guestError _ _ => true
  | _ => false

/-- The error that the call failed with. -/
def Outcome.failure : Outcome → Option ErrorCode
  | .failed code => some code
  | _ => none

/-- The request that waits in a slot. -/
def State.continuation (bridge : State) (slot : ℕ) : Option Pending :=
  if (bridge.pending slot).active then some (bridge.pending slot) else none

/-- A write to the device failed, or the read into a bounce slot did. -/
def LateFailure (cfg : Config) (bus : Arm.Bus σ) (m : Machine σ dev) (outcome : Outcome) : Prop :=
  outcome.failure = some .blockIo ∧ ∃ request mmu,
    planRequest cfg m.bridge bus m.cpu.core m.ram (m.cpu.caches, m.ctx) = (.ok request, mmu) ∧
      (request.direction = .write ∨ request.data = none)

/-- The storage of the guest is what it was. -/
structure Intact (before after : Machine σ dev) : Prop where
  ram : after.ram = before.ram
  disk : dev.bytes after.disk = dev.bytes before.disk
  guardTail : after.bridge.guardTail = before.bridge.guardTail
  continuations : after.bridge.continuation = before.bridge.continuation

theorem intact_refl (m : Machine σ dev) : Intact m m := ⟨rfl, rfl, rfl, rfl⟩

theorem intact_leave (m : Machine σ dev) (exit : Exit) : Intact m (leave m exit).2 := by
  cases exit <;> exact ⟨rfl, rfl, rfl, rfl⟩

theorem continuation_clear {bridge : State} {slot : ℕ}
    (hfree : (bridge.pending slot).active = false) :
    (bridge.setPending slot {}).continuation = bridge.continuation := by
  funext i
  unfold State.continuation State.setPending
  by_cases hsame : i = slot
  · subst hsame
    simp [hfree]
  · simp only [Function.update_of_ne hsame]

theorem startUiomove_rejects {request : Request} :
    (startUiomove cfg cancelled m request).1.rejects = true →
      (startUiomove cfg cancelled m request).1.failure ≠ some .blockIo →
        Intact m (startUiomove cfg cancelled m request).2 := by
  unfold startUiomove
  split
  · exact fun _ _ ↦ intact_leave m _
  case h_2 slot hslot =>
    have hcleared : Intact m { m with bridge := m.bridge.setPending slot {} } :=
      ⟨rfl, rfl, rfl, continuation_clear (allocatePending_spec hslot).2⟩
    dsimp only
    split
    · exact fun _ _ ↦ hcleared
    split
    · split
      · exact fun _ hearly ↦ absurd rfl hearly
      · exact fun hrejects _ ↦ absurd hrejects Bool.false_ne_true
    · exact fun _ _ ↦ hcleared

/-- A direct transfer that fails before any store is a read whose octets never left the device. -/
theorem transfer_rejects {request : Request} {spans : List MappedSpan}
    (hdirection : request.direction = .read) :
    (transfer cfg cancelled m request spans).1.rejects = true →
      Intact m (transfer cfg cancelled m request spans).2 := by
  have hkeeps := (@readMedia_spec dev cancelled m.disk request.offset
    (request.mediaLength cfg)).1
  unfold transfer moveData readDirect
  rw [hdirection]
  dsimp only
  split
  case h_1 moved hmoved =>
    split at hmoved
    · obtain ⟨-, rfl⟩ := Prod.mk.inj hmoved
      exact fun _ ↦ ⟨rfl, hkeeps, rfl, rfl⟩
    · cases hmoved
  case h_2 => exact fun hrejects ↦ absurd hrejects Bool.false_ne_true

theorem transfer_failure {request : Request} {spans : List MappedSpan}
    (hrejects : (transfer cfg cancelled m request spans).1.rejects = true) :
    (transfer cfg cancelled m request spans).1.failure = some .blockIo := by
  unfold transfer at hrejects ⊢
  split
  · rfl
  case h_2 hmoved =>
    rw [hmoved] at hrejects
    cases hrejects

theorem handleEntry_rejects
    (hrejects : (handleEntry cfg bus cancelled m).1.rejects = true)
    (hearly : ¬LateFailure cfg bus m (handleEntry cfg bus cancelled m).1) :
    Intact m (handleEntry cfg bus cancelled m).2 := by
  have hafter (mmu : Mmu σ) {after : Machine σ dev} (h : Intact (m.setMmu mmu) after) :
      Intact m after := ⟨h.ram, h.disk, h.guardTail, h.continuations⟩
  obtain ⟨exit, mmu, hleave⟩ | ⟨request, mmu, hplan, ⟨hdata, hstart⟩ | ⟨spans, hdata, hmove⟩⟩ :=
    handleEntry_cases cfg bus cancelled m
  · rw [hleave]
    exact hafter mmu (intact_leave _ exit)
  · rw [hstart] at hrejects hearly ⊢
    exact hafter mmu (startUiomove_rejects hrejects fun hlate ↦
      hearly ⟨hlate, request, mmu, hplan, .inr hdata⟩)
  · rw [hmove] at hrejects hearly ⊢
    have hdirection : request.direction = .read := by
      cases hwrite : request.direction with
      | read => rfl
      | write =>
        exact absurd ⟨transfer_failure hrejects, request, mmu, hplan, .inl hwrite⟩ hearly
    exact hafter mmu (transfer_rejects hdirection hrejects)

/-- For every core, RAM and configuration: an entry that is rejected, other than by a failed write
or a failed read into a bounce slot, leaves the storage of the guest as it was. -/
theorem handleSvc_rejects (cfg : Config) (bus : Arm.Bus σ) (cancelled : dev.State → Bool)
    (m : Machine σ dev) (pc encoding : Word) (hentry : pc ≠ cfg.completionSite.pc)
    (hrejects : (handleSvc cfg bus cancelled m pc encoding).1.rejects = true)
    (hearly : ¬LateFailure cfg bus m (handleSvc cfg bus cancelled m pc encoding).1) :
    Intact m (handleSvc cfg bus cancelled m pc encoding).2 := by
  have hgate : gate cfg dev m.cpu.core pc encoding ≠ .completion := by
    unfold gate
    repeat' split
    all_goals exact nofun
  unfold handleSvc at hrejects hearly ⊢
  cases hcase : gate cfg dev m.cpu.core pc encoding with
  | declined outcome => exact intact_refl m
  | completion => exact absurd hcase hgate
  | entry =>
    rw [hcase] at hrejects hearly
    exact handleEntry_rejects hrejects hearly

/-- The second iovec lies behind the user's addresses: its request is answered with EFAULT. -/
theorem handleSvc_rejects_userAddress :
    let call := smallCall 1
    let m : Machine Unit (ramDisk 4096 (by decide)) :=
      ⟨call.cpu, (), storeU32 call.ram 0x2008 0x50000000, smallBacking.disk, init⟩
    Intact m (handleSvc smallConfig flatBus call.cancelled m 0x1000 0xdfe3).2 :=
  handleSvc_rejects smallConfig flatBus _ _ 0x1000 0xdfe3 (by decide) (by decide +kernel)
    fun hlate ↦ absurd hlate.1 (by decide +kernel)

end S5LBox.Bridge
