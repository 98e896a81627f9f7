import S5LBox.Block.CowFiles
import S5LBox.Library.Run

/-!
# Recording of the armed overlay

`VMFirmwareBoot.c` around `VMSnapshotCow.c`: which descriptor a start hands to the two memory-disk
bridges, and what arming and re-arming do to the adapter behind it. The work image is opened once,
since a start that finds it open is refused, and an adapter that has been closed is gone. What has
been appended to an overlay counts as being in its file.
-/

namespace S5LBox.App

open Function Block
open Function (update)

variable {dev : Device}

/-- A path as the octets of its string. -/
abbrev Path := List Octet

def pathCapacity : ℕ := 1024

/-- What an open `vm_cow_t` keeps of its own; the disk and the overlay file are outside. -/
structure Adapter where
  path : Path
  overlayBytes : ℕ
  saved : ℕ → Bool
  poisoned : Bool

/-- A `vm_block_t` that may be borrowed: that of the work image, or that of an adapter. -/
inductive Descriptor where
  | media
  | facade (adapter : ℕ)
  deriving DecidableEq

/-- The descriptors in the configurations of the two bridges. -/
structure Bridges where
  strategy : Descriptor
  raw : Descriptor

/-- `struct vm_firmware_boot` with what it stands on: the work image and whether it is open, the
adapters by the order of their making, and the overlay files. -/
structure Boot (dev : Device) where
  disk : dev.State
  media : Bool
  adapters : ℕ → Option Adapter
  made : ℕ
  files : Path → Option (List Octet)
  bridges : Option Bridges
  cow : Option ℕ
  overlay : Path
  armed : Bool

/-- `vm_firmware_boot_create`. -/
def created (disk : dev.State) (files : Path → Option (List Octet)) : Boot dev :=
  ⟨disk, false, fun _ ↦ none, 0, files, none, none, [], false⟩

def Boot.file (boot : Boot dev) (path : Path) : List Octet := (boot.files path).getD []

/-- `vm_firmware_boot_arm_overlay`; no path is the empty one. -/
def armOverlay (boot : Boot dev) (path : Option Path) : Bool × Boot dev :=
  match path.getD [] with
  | [] => (true, { boot with overlay := [], armed := false })
  | name =>
    if pathCapacity ≤ name.length then (false, boot)
    else (true, { boot with overlay := name, armed := true })

/-- `vm_cow_open` into the slot of the boot object, over `file_block_get`. -/
def openCow (host : Host) (boot : Boot dev) : CowStatus × Boot dev :=
  if !boot.media then (.badArgument, boot)
  else
    match vmCowOpen host dev boot.disk (boot.files boot.overlay) with
    | (.error status, left) =>
      (status, { boot with
        cow := if status = .badArgument then boot.cow else none
        files := update boot.files boot.overlay left })
    | (.ok cow, left) =>
      (.ok, { boot with
        adapters := update boot.adapters boot.made
          (some ⟨boot.overlay, cow.overlayBytes, cow.saved, cow.poisoned⟩)
        made := boot.made + 1
        cow := some boot.made
        files := update boot.files boot.overlay left })

/-- `vm_cow_close` on the slot. -/
def closeCow (boot : Boot dev) : Boot dev :=
  match boot.cow with
  | none => boot
  | some adapter =>
    { boot with adapters := update boot.adapters adapter none, cow := none }

def rearmOverlay (host : Host) (boot : Boot dev) (path : Option Path) : Bool × Boot dev :=
  let boot := closeCow boot
  match path.getD [] with
  | [] => (true, { boot with overlay := [], armed := false })
  | name =>
    match armOverlay boot (some name) with
    | (false, boot) => (false, boot)
    | (true, boot) =>
      let (status, boot) := openCow host boot
      (decide (status = .ok), boot)

/-- What a start meets: whether the files are there and their paths fit, whether the work image can
be opened and the kernel and the tree read, and whether `s5l_bringup` ends well. -/
structure Surroundings where
  ready : Bool := true
  opens : Bool := true
  reads : Bool := true
  host : Host := {}
  brings : Bool := true

/-- `vm_firmware_boot_start` behind the overlay: both bridges borrow the descriptor chosen. -/
def bringUp (around : Surroundings) (boot : Boot dev) (root : Descriptor) : Bool × Boot dev :=
  if !around.brings then (false, { boot with media := false })
  else (true, { boot with bridges := some ⟨root, root⟩ })

/-- `vm_firmware_boot_start`. -/
def start (around : Surroundings) (boot : Boot dev) : Bool × Boot dev :=
  if !around.ready then (false, boot)
  else if boot.media || !around.opens then (false, boot)
  else if !around.reads then (false, boot)
  else
    let boot := { boot with media := true }
    if boot.armed then
      match openCow around.host boot with
      | (.ok, boot) => bringUp around boot (boot.cow.elim .media .facade)
      | (_, boot) => (false, { boot with media := false })
    else bringUp around boot .media

inductive Bridge where
  | strategy
  | raw

/-- A callback that a bridge makes on its descriptor. -/
inductive Access where
  | read (offset : DWord) (requested : ℕ)
  | write (host : Host) (offset : DWord) (data : List Octet)

def Bridges.descriptor (bridges : Bridges) : Bridge → Descriptor
  | .strategy => bridges.strategy
  | .raw => bridges.raw

/-- The facade of an open adapter. -/
def Boot.facade (boot : Boot dev) (adapter : Adapter) : Cow dev :=
  ⟨boot.disk, boot.file adapter.path, adapter.overlayBytes, adapter.saved, adapter.poisoned⟩

def Boot.putBack (boot : Boot dev) (number : ℕ) (adapter : Adapter) (cow : Cow dev) : Boot dev :=
  { boot with
    disk := cow.under
    files := update boot.files adapter.path (some cow.overlay)
    adapters := update boot.adapters number
      (some ⟨adapter.path, cow.overlayBytes, cow.saved, cow.poisoned⟩) }

/-- What a callback does. A write that does not lie inside the disk does not get here, and what
happens behind a closed adapter is not defined. -/
def serve (boot : Boot dev) (descriptor : Descriptor) (access : Access) : Boot dev :=
  match descriptor, access with
  | .media, .read offset requested =>
    { boot with disk := (dev.readAt boot.disk offset.toNat requested).2.2 }
  | .media, .write _ offset data =>
    if dev.size < offset.toNat + data.length then boot
    else { boot with disk := (dev.writeAt boot.disk offset.toNat data).2.2 }
  | .facade number, .read offset requested =>
    match boot.adapters number with
    | none => boot
    | some adapter =>
      { boot with disk := (cowReadAt (boot.facade adapter) offset requested).2.2.under }
  | .facade number, .write host offset data =>
    match boot.adapters number with
    | none => boot
    | some adapter =>
      if dev.size < offset.toNat + data.length then boot
      else boot.putBack number adapter (cowWriteAt host (boot.facade adapter) offset data).2.2

inductive Event where
  | arm (path : Option Path)
  | start (around : Surroundings)
  | rearm (host : Host) (path : Option Path)
  | request (bridge : Bridge) (access : Access)

def step (boot : Boot dev) : Event → Boot dev
  | .arm path => (armOverlay boot path).2
  | .start around => (start around boot).2
  | .rearm host path => (rearmOverlay host boot path).2
  | .request bridge access =>
    match boot.bridges with
    | none => boot
    | some bridges => serve boot (bridges.descriptor bridge) access

/-- A step records into the armed overlay only: what it overwrites has a record there, new records
are of what the blocks were, no other overlay changes, and no closed adapter is called. -/
structure Follows (boot : Boot dev) (event : Event) (boot' : Boot dev) : Prop where
  saved : boot.armed = true → ∀ x, dev.bytes boot'.disk x ≠ dev.bytes boot.disk x →
    page x ∈ recordedBlocks (boot.file boot.overlay) ∨
      Holds (dev.bytes boot.disk) (boot'.file boot.overlay) (page x)
  records : ∀ path, ∀ block ∈ recordedBlocks (boot'.file path),
    block ∈ recordedBlocks (boot.file path) ∨ Holds (dev.bytes boot.disk) (boot'.file path) block
  only : ∀ path file, boot.files path = some file → boot'.files path ≠ some file →
    (∃ bridge access, event = .request bridge access) ∧ boot.armed = true ∧ path = boot.overlay
  served : ∀ bridge access bridges number, event = .request bridge access →
    boot.bridges = some bridges → bridges.descriptor bridge = .facade number →
      (boot.adapters number).isSome = true

/-- Once the bridges are there, arming and re-arming ask for what is already so. -/
def Settled (boot : Boot dev) : Event → Prop
  | .arm path => boot.bridges.isSome → path.getD [] = if boot.armed then boot.overlay else []
  | .rearm _ path => boot.bridges.isSome → boot.armed = false ∧ path.getD [] = []
  | _ => True

/-- No disk and no overlay that exists is touched, and no record is made. -/
structure Still (boot boot' : Boot dev) : Prop where
  disk : boot'.disk = boot.disk
  kept : ∀ path file, boot.files path = some file → boot'.files path = some file
  records : ∀ path, ∀ block ∈ recordedBlocks (boot'.file path),
    block ∈ recordedBlocks (boot.file path)

theorem Still.refl (boot : Boot dev) : Still boot boot := ⟨rfl, fun _ _ h ↦ h, fun _ _ h ↦ h⟩

variable {boot boot' : Boot dev}

theorem Still.trans {next last : Boot dev} (h : Still boot next) (h' : Still next last) :
    Still boot last :=
  ⟨h'.disk.trans h.disk, fun path file hfile ↦ h'.kept path file (h.kept path file hfile),
    fun path block hblock ↦ h.records path block (h'.records path block hblock)⟩

theorem Still.follows (h : Still boot boot') {event : Event}
    (hevent : ∀ bridge access, event ≠ .request bridge access) : Follows boot event boot' where
  saved _ x hx := by
    rw [h.disk] at hx
    exact absurd rfl hx
  records path block hblock := Or.inl (h.records path block hblock)
  only path file hfile hne := absurd (h.kept path file hfile) hne
  served bridge access _ _ hrequest := absurd hrequest (hevent bridge access)

theorem still_armOverlay (boot : Boot dev) (path : Option Path) :
    Still boot (armOverlay boot path).2 := by
  unfold armOverlay
  split
  · exact ⟨rfl, fun _ _ h ↦ h, fun _ _ h ↦ h⟩
  · split
    · exact .refl boot
    · exact ⟨rfl, fun _ _ h ↦ h, fun _ _ h ↦ h⟩

theorem still_closeCow (boot : Boot dev) : Still boot (closeCow boot) := by
  unfold closeCow
  split
  · exact .refl boot
  · exact ⟨rfl, fun _ _ h ↦ h, fun _ _ h ↦ h⟩

theorem recordedBlocks_of_length_le {file : List Octet} (h : file.length ≤ headerBytes) :
    recordedBlocks file = [] := by
  have hcount : recordCount file = 0 := by
    rw [recordCount, Nat.sub_eq_zero_of_le h, Nat.zero_div]
  rw [recordedBlocks, hcount, List.range_zero, List.map_nil]

theorem still_update {left : Option (List Octet)} (hdisk : boot'.disk = boot.disk)
    (hfiles : boot'.files = update boot.files boot.overlay left)
    (hkept : ∀ file, boot.files boot.overlay = some file → left = some file)
    (hmade : boot.files boot.overlay = none → (left.getD []).length ≤ headerBytes) :
    Still boot boot' where
  disk := hdisk
  kept path file hfile := by
    rw [hfiles, update_apply]
    split
    case isTrue hpath => exact hkept file (hpath ▸ hfile)
    case isFalse => exact hfile
  records path block hblock := by
    rw [Boot.file, hfiles, update_apply] at hblock
    split at hblock
    case isTrue hpath =>
      subst hpath
      rcases hold : boot.files boot.overlay with _ | file
      · rw [recordedBlocks_of_length_le (hmade hold)] at hblock
        exact absurd hblock List.not_mem_nil
      · rw [hkept file hold] at hblock
        rw [Boot.file, hold]
        exact hblock
    case isFalse => exact hblock

/-- What is there once a `vm_cow_open` has ended well. -/
structure Opened (boot boot' : Boot dev) (number : ℕ) (adapter : Adapter) : Prop where
  cow : boot'.cow = some number
  there : boot'.adapters number = some adapter
  path : adapter.path = boot.overlay
  indexed : Indexed (boot'.facade adapter)

theorem openCow_spec {host : Host} {status : CowStatus}
    (hopen : openCow host boot = (status, boot')) :
    Still boot boot' ∧ boot'.media = boot.media ∧ boot'.bridges = boot.bridges ∧
      boot'.overlay = boot.overlay ∧ boot'.armed = boot.armed ∧
        (status = .ok → ∃ number adapter, Opened boot boot' number adapter) := by
  unfold openCow at hopen
  split at hopen
  case isTrue =>
    cases hopen
    exact ⟨.refl boot, rfl, rfl, rfl, rfl, fun h ↦ by cases h⟩
  case isFalse =>
    rcases hcow : vmCowOpen host dev boot.disk (boot.files boot.overlay) with ⟨refused | cow, left⟩
    · rw [hcow] at hopen
      cases hopen
      refine ⟨still_update rfl rfl ?_ ?_, rfl, rfl, rfl, rfl, ?_⟩
      · intro file hfile
        cases left with
        | none =>
          rw [hfile] at hcow
          exact absurd hcow vmCowOpen_keeps
        | some left =>
          rcases vmCowOpen_left hcow with hsame | ⟨hnone, -⟩
          · exact hsame.symm.trans hfile
          · rw [hfile] at hnone
            cases hnone
      · intro hnone
        cases left with
        | none => exact Nat.zero_le _
        | some left =>
          rcases vmCowOpen_left hcow with hsame | ⟨-, hpart, -⟩
          · rw [hnone] at hsame
            cases hsame
          · exact hpart.length_le
      · rintro rfl
        exact absurd hcow vmCowOpen_refused
    · rw [hcow] at hopen
      cases hopen
      obtain ⟨hunder, hindexed, -, rfl, hold⟩ := vmCowOpen_indexed hcow
      refine ⟨still_update rfl rfl ?_ ?_, rfl, rfl, rfl, rfl, fun _ ↦
        ⟨boot.made, ⟨boot.overlay, cow.overlayBytes, cow.saved, cow.poisoned⟩, rfl,
          update_self .., rfl, ?_⟩⟩
      · intro file hfile
        rw [hold file hfile]
      · intro hnone
        rw [hnone] at hcow
        exact vmCowOpen_made hcow
      · unfold Indexed Boot.facade Boot.file
        simp only [update_self, Option.getD_some]
        exact hindexed

/-- The descriptor of the adapter that records into the armed overlay, or that of the work image
when nothing is armed. -/
def Current (boot : Boot dev) (descriptor : Descriptor) : Prop :=
  if boot.armed then ∃ number adapter, descriptor = .facade number ∧
    boot.adapters number = some adapter ∧ adapter.path = boot.overlay ∧
      Indexed (boot.facade adapter)
  else descriptor = .media

/-- Both bridges borrow what they should. -/
structure Bound (boot : Boot dev) : Prop where
  named : boot.armed = true → boot.overlay ≠ []
  media : boot.bridges.isSome = true → boot.media = true
  current : ∀ bridges, boot.bridges = some bridges →
    ∃ descriptor, bridges = ⟨descriptor, descriptor⟩ ∧ Current boot descriptor

theorem bound_created (disk : dev.State) (files : Path → Option (List Octet)) :
    Bound (created disk files) :=
  ⟨nofun, nofun, nofun⟩

theorem armOverlay_named (h : boot.armed = true → boot.overlay ≠ []) (path : Option Path) :
    (armOverlay boot path).2.armed = true → (armOverlay boot path).2.overlay ≠ [] := by
  unfold armOverlay
  split
  · nofun
  case h_2 hname =>
    split
    · exact h
    · exact fun _ ↦ hname

theorem armOverlay_bridges (boot : Boot dev) (path : Option Path) :
    (armOverlay boot path).2.bridges = boot.bridges := by
  unfold armOverlay
  split
  · rfl
  · split <;> rfl

theorem closeCow_same (boot : Boot dev) :
    (closeCow boot).bridges = boot.bridges ∧ (closeCow boot).media = boot.media ∧
      (closeCow boot).overlay = boot.overlay ∧ (closeCow boot).armed = boot.armed := by
  unfold closeCow
  split <;> exact ⟨rfl, rfl, rfl, rfl⟩

theorem bound_of_none (hnamed : boot.armed = true → boot.overlay ≠ [])
    (hbridges : boot.bridges = none) : Bound boot where
  named := hnamed
  media h := by
    rw [hbridges] at h
    cases h
  current bridges h := by
    rw [hbridges] at h
    cases h

theorem bound_arm (h : Bound boot) {path : Option Path} (hsettled : Settled boot (.arm path)) :
    Bound (armOverlay boot path).2 := by
  rcases hbridges : boot.bridges with _ | bridges
  · exact bound_of_none (armOverlay_named h.named path)
      ((armOverlay_bridges boot path).trans hbridges)
  · have hpath := hsettled (by rw [hbridges]; rfl)
    rcases harmed : boot.armed with _ | _
    · rw [harmed, if_neg Bool.false_ne_true] at hpath
      unfold armOverlay
      rw [hpath]
      refine ⟨nofun, h.media, fun bridges hsome ↦ ?_⟩
      obtain ⟨descriptor, hboth, hcurrent⟩ := h.current bridges hsome
      rw [Current, harmed] at hcurrent
      exact ⟨descriptor, hboth, hcurrent⟩
    · rw [harmed, if_pos rfl] at hpath
      have hsame : (armOverlay boot path).2 = boot := by
        unfold armOverlay
        split
        case h_1 hnil => exact absurd (hpath.symm.trans hnil) (h.named harmed)
        case h_2 =>
          split
          · rfl
          · obtain ⟨disk, media, adapters, made, files, bridges, cow, overlay, armed⟩ := boot
            obtain rfl : armed = true := harmed
            rw [hpath]
      rw [hsame]
      exact h

theorem bringUp_still (around : Surroundings) (boot : Boot dev) (root : Descriptor) :
    Still boot (bringUp around boot root).2 := by
  unfold bringUp
  split <;> exact ⟨rfl, fun _ _ h ↦ h, fun _ _ h ↦ h⟩

theorem bound_bringUp {around : Surroundings} {root : Descriptor}
    (hnamed : boot.armed = true → boot.overlay ≠ []) (hbridges : boot.bridges = none)
    (hmedia : boot.media = true) (hcurrent : Current boot root) :
    Bound (bringUp around boot root).2 := by
  unfold bringUp
  split
  · exact bound_of_none hnamed hbridges
  · refine ⟨hnamed, fun _ ↦ hmedia, fun bridges h ↦ ?_⟩
    cases h
    exact ⟨root, rfl, hcurrent⟩

theorem start_spec {around : Surroundings} {boot : Boot dev} (h : Bound boot) :
    Still boot (start around boot).2 ∧ Bound (start around boot).2 := by
  unfold start
  split
  case isTrue => exact ⟨.refl boot, h⟩
  split
  case isTrue => exact ⟨.refl boot, h⟩
  case isFalse hready hclosed =>
    split
    case isTrue => exact ⟨.refl boot, h⟩
    case isFalse hreads =>
      have hbridges : boot.bridges = none := by
        rcases hsome : boot.bridges with _ | bridges
        · rfl
        · have hmedia := h.media (by rw [hsome]; rfl)
          rw [hmedia] at hclosed
          exact absurd rfl hclosed
      simp only
      have hopened : Still boot { boot with media := true } :=
        ⟨rfl, fun _ _ h ↦ h, fun _ _ h ↦ h⟩
      split
      case isTrue harmed =>
        rcases hopen : openCow around.host { boot with media := true } with ⟨status, next⟩
        obtain ⟨hstill, hmedia, hbridges', hoverlay, harmed', hok⟩ := openCow_spec hopen
        have hnamed : next.armed = true → next.overlay ≠ [] := by
          rw [harmed', hoverlay]
          exact h.named
        cases status with
        | ok =>
          obtain ⟨number, adapter, hcow, hthere, hpath, hindexed⟩ := hok rfl
          refine ⟨(hopened.trans hstill).trans (bringUp_still ..), ?_⟩
          refine bound_bringUp hnamed (hbridges'.trans hbridges) hmedia ?_
          rw [Current, if_pos (harmed'.trans harmed), hcow]
          exact ⟨number, adapter, rfl, hthere, hpath.trans hoverlay.symm, hindexed⟩
        | badArgument | io | badFormat | sizeMismatch | truncated | outOfMemory =>
          exact ⟨⟨hstill.disk, hstill.kept, hstill.records⟩,
            bound_of_none hnamed (hbridges'.trans hbridges)⟩
      case isFalse hunarmed =>
        refine ⟨hopened.trans (bringUp_still ..), bound_bringUp h.named hbridges rfl ?_⟩
        rw [Current, if_neg hunarmed]

theorem still_rearmOverlay (host : Host) (boot : Boot dev) (path : Option Path) :
    Still boot (rearmOverlay host boot path).2 := by
  have hclosed := still_closeCow boot
  unfold rearmOverlay
  simp only
  split
  case h_1 => exact hclosed.trans ⟨rfl, fun _ _ h ↦ h, fun _ _ h ↦ h⟩
  case h_2 name hname =>
    have harmed := still_armOverlay (closeCow boot) (some (path.getD []))
    split
    case h_1 next harm =>
      rw [harm] at harmed
      exact hclosed.trans harmed
    case h_2 next harm =>
      rw [harm] at harmed
      rcases hopen : openCow host next with ⟨status, last⟩
      exact (hclosed.trans harmed).trans (openCow_spec hopen).1

theorem bound_rearm {host : Host} (h : Bound boot) {path : Option Path}
    (hsettled : Settled boot (.rearm host path)) : Bound (rearmOverlay host boot path).2 := by
  obtain ⟨hbridges, hmedia, hoverlay, harmed⟩ := closeCow_same boot
  rcases hsome : boot.bridges with _ | bridges
  · have hnamed : (closeCow boot).armed = true → (closeCow boot).overlay ≠ [] := by
      rw [harmed, hoverlay]
      exact h.named
    unfold rearmOverlay
    simp only
    split
    case h_1 => exact bound_of_none nofun (hbridges.trans hsome)
    case h_2 name hname =>
      have hnext := armOverlay_named hnamed (some (path.getD []))
      have hnone := armOverlay_bridges (closeCow boot) (some (path.getD []))
      split
      case h_1 next harm =>
        rw [harm] at hnext hnone
        exact bound_of_none hnext (hnone.trans (hbridges.trans hsome))
      case h_2 next harm =>
        rw [harm] at hnext hnone
        rcases hopen : openCow host next with ⟨status, last⟩
        obtain ⟨-, -, hbridges', hoverlay', harmed', -⟩ := openCow_spec hopen
        refine bound_of_none ?_ (hbridges'.trans (hnone.trans (hbridges.trans hsome)))
        rw [harmed', hoverlay']
        exact hnext
  · obtain ⟨hunarmed, hpath⟩ := hsettled (by rw [hsome]; rfl)
    unfold rearmOverlay
    rw [hpath]
    refine ⟨nofun, ?_, fun bridges' hsome' ↦ ?_⟩
    · show (closeCow boot).bridges.isSome = true → (closeCow boot).media = true
      rw [hbridges, hmedia]
      exact h.media
    · obtain ⟨descriptor, hboth, hcurrent⟩ := h.current bridges' (hbridges.symm.trans hsome')
      rw [Current, hunarmed] at hcurrent
      exact ⟨descriptor, hboth, hcurrent⟩

theorem bridges_descriptor (descriptor : Descriptor) (bridge : Bridge) :
    (Bridges.mk descriptor descriptor).descriptor bridge = descriptor := by
  cases bridge <;> rfl

/-- A callback on the work image while nothing is armed. -/
theorem media_follows (h : Bound boot) (hunarmed : boot.armed = false) {bridges : Bridges}
    (hbridges : boot.bridges = some bridges) {bridge : Bridge}
    (hmedia : bridges.descriptor bridge = .media) (access : Access) :
    Follows boot (.request bridge access) (serve boot .media access) ∧
      Bound (serve boot .media access) := by
  have hsame (disk : dev.State) :
      Follows boot (.request bridge access) { boot with disk := disk } ∧
        Bound { boot with disk := disk } := by
    constructor
    · refine ⟨fun harmed ↦ ?_, fun _ _ hblock ↦ Or.inl hblock, fun _ _ hfile hne ↦
        absurd hfile hne, ?_⟩
      · rw [hunarmed] at harmed
        cases harmed
      · rintro _ _ bridges' number ⟨⟩ hsome hnumber
        obtain rfl := Option.some.inj (hbridges.symm.trans hsome)
        rw [hmedia] at hnumber
        cases hnumber
    · refine ⟨h.named, h.media, fun bridges' hsome ↦ ?_⟩
      obtain ⟨descriptor, hboth, hcurrent⟩ := h.current bridges' hsome
      rw [Current, hunarmed] at hcurrent
      exact ⟨descriptor, hboth, by rw [Current, hunarmed]; exact hcurrent⟩
  cases access with
  | read offset requested => exact hsame _
  | write host offset data =>
    unfold serve
    simp only
    split
    · exact hsame boot.disk
    · exact hsame _

theorem putBack_file (boot : Boot dev) (number : ℕ) (adapter : Adapter) (cow : Cow dev) :
    (boot.putBack number adapter cow).file adapter.path = cow.overlay := by
  show (update boot.files adapter.path (some cow.overlay) adapter.path).getD [] = _
  rw [update_self, Option.getD_some]

theorem putBack_facade (boot : Boot dev) (number : ℕ) (adapter : Adapter) (cow : Cow dev) :
    (boot.putBack number adapter cow).facade
      ⟨adapter.path, cow.overlayBytes, cow.saved, cow.poisoned⟩ = cow := by
  unfold Boot.facade
  rw [putBack_file]
  rfl

theorem facade_follows (h : Bound boot) (harmed : boot.armed = true) {bridges : Bridges}
    (hbridges : boot.bridges = some bridges) {number : ℕ}
    (hboth : bridges = ⟨.facade number, .facade number⟩) {adapter : Adapter}
    (hthere : boot.adapters number = some adapter) (hpath : adapter.path = boot.overlay)
    (hindexed : Indexed (boot.facade adapter)) (bridge : Bridge) (access : Access) :
    Follows boot (.request bridge access) (serve boot (.facade number) access) ∧
      Bound (serve boot (.facade number) access) := by
  have hserved : ∀ bridge' access' bridges' number',
      Event.request bridge access = .request bridge' access' → boot.bridges = some bridges' →
        bridges'.descriptor bridge' = .facade number' → (boot.adapters number').isSome = true := by
    rintro bridge' _ bridges' number' - hsome hnumber
    obtain rfl := Option.some.inj (hbridges.symm.trans hsome)
    rw [hboth, bridges_descriptor] at hnumber
    cases hnumber
    rw [hthere]
    rfl
  have hcurrent {boot' : Boot dev} {adapter' : Adapter} (hbridges' : boot'.bridges = boot.bridges)
      (harmed' : boot'.armed = true) (hthere' : boot'.adapters number = some adapter')
      (hpath' : adapter'.path = boot'.overlay) (hindexed' : Indexed (boot'.facade adapter')) :
      ∀ bridges', boot'.bridges = some bridges' →
        ∃ descriptor, bridges' = ⟨descriptor, descriptor⟩ ∧ Current boot' descriptor := by
    intro bridges' hsome
    obtain rfl := Option.some.inj (hbridges.symm.trans (hbridges'.symm.trans hsome))
    refine ⟨.facade number, hboth, ?_⟩
    rw [Current, if_pos harmed']
    exact ⟨number, adapter', rfl, hthere', hpath', hindexed'⟩
  have hsame (disk : dev.State) (hbytes : dev.bytes disk = dev.bytes boot.disk) :
      Follows boot (.request bridge access) { boot with disk := disk } ∧
        Bound { boot with disk := disk } := by
    refine ⟨⟨fun _ x hx ↦ absurd (congrFun hbytes x) hx, fun _ _ hblock ↦ Or.inl hblock,
      fun _ _ hfile hne ↦ absurd hfile hne, hserved⟩, h.named, h.media, ?_⟩
    exact hcurrent rfl harmed hthere hpath hindexed
  cases access with
  | read offset requested =>
    simp only [serve, hthere]
    exact hsame _ (dev.read_keeps ..)
  | write host offset data =>
    simp only [serve, hthere]
    split
    case isTrue => exact hsame boot.disk rfl
    case isFalse hinside =>
      rcases hwrite : cowWriteAt host (boot.facade adapter) offset data with ⟨status, done, cow⟩
      have hwritten := cowWriteAt_written hindexed (Nat.not_lt.1 hinside) hwrite
      have hfile : boot.file boot.overlay = (boot.facade adapter).overlay := by
        rw [← hpath]
        rfl
      have hfile' : (boot.putBack number adapter cow).file boot.overlay = cow.overlay := by
        rw [← hpath, putBack_file]
      have hother {path : Path} (hne : path ≠ boot.overlay) :
          (boot.putBack number adapter cow).files path = boot.files path := by
        rw [Boot.putBack, hpath]
        exact update_of_ne hne _ _
      constructor
      · constructor
        case saved =>
          intro _ x hx
          rw [hfile, hfile']
          exact hwritten.holds _ (hwritten.changed x hx)
        case records =>
          intro path block hblock
          by_cases hsame' : path = boot.overlay
          · subst hsame'
            rw [hfile'] at hblock ⊢
            rw [hfile]
            exact hwritten.holds block hblock
          · left
            rw [Boot.file, hother hsame'] at hblock
            exact hblock
        case only =>
          intro path file hold hne
          refine ⟨⟨bridge, _, rfl⟩, harmed, ?_⟩
          by_contra hsame'
          rw [hother hsame'] at hne
          exact hne hold
        case served => exact hserved
      · refine ⟨h.named, h.media, ?_⟩
        apply @hcurrent (boot.putBack number adapter cow)
          ⟨adapter.path, cow.overlayBytes, cow.saved, cow.poisoned⟩ rfl harmed
        · exact update_self ..
        · exact hpath
        · rw [putBack_facade]
          exact hwritten.indexed

theorem step_follows {event : Event} (h : Bound boot) (hsettled : Settled boot event) :
    Follows boot event (step boot event) ∧ Bound (step boot event) := by
  cases event with
  | arm path => exact ⟨(still_armOverlay boot path).follows nofun, bound_arm h hsettled⟩
  | start around =>
    obtain ⟨hstill, hbound⟩ := @start_spec dev around boot h
    exact ⟨hstill.follows nofun, hbound⟩
  | rearm host path =>
    exact ⟨(still_rearmOverlay host boot path).follows nofun, bound_rearm h hsettled⟩
  | request bridge access =>
    rcases hbridges : boot.bridges with _ | bridges
    · have hstep : step boot (.request bridge access) = boot := by simp only [step, hbridges]
      rw [hstep]
      refine ⟨⟨fun _ _ hx ↦ absurd rfl hx, fun _ _ hblock ↦ Or.inl hblock,
        fun _ _ hfile hne ↦ absurd hfile hne, fun _ _ _ _ _ hsome ↦ ?_⟩, h⟩
      rw [hbridges] at hsome
      cases hsome
    · have hstep : step boot (.request bridge access) =
          serve boot (bridges.descriptor bridge) access := by simp only [step, hbridges]
      obtain ⟨descriptor, hboth, hcurrent⟩ := h.current bridges hbridges
      have hdescriptor : bridges.descriptor bridge = descriptor := by
        rw [hboth, bridges_descriptor]
      rw [hstep, hdescriptor]
      rcases harmed : boot.armed with _ | _
      · rw [Current, harmed, if_neg Bool.false_ne_true] at hcurrent
        rw [hcurrent]
        exact media_follows h harmed hbridges (hdescriptor.trans hcurrent) access
      · rw [Current, if_pos harmed] at hcurrent
        obtain ⟨number, adapter, rfl, hthere, hpath, hindexed⟩ := hcurrent
        exact facade_follows h harmed hbridges hboth hthere hpath hindexed bridge access

/-- In a run that does not arm or re-arm under the bridges, every step follows the armed overlay. -/
theorem follows_of_settled (dev : Device) (disk : dev.State)
    (files : Path → Option (List Octet)) (events : List Event)
    (hsettled : Run.Within step Settled (created disk files) events) :
    Run.Throughout step (fun _ ↦ True) Follows (created disk files) events := by
  apply @Run.throughout_of_within (Boot dev) Event step Settled Bound
  · exact fun _ _ ↦ trivial
  · exact fun boot event hbound hsettled ↦ (step_follows hbound hsettled).2
  · exact fun boot event hbound hsettled ↦ (step_follows hbound hsettled).1
  · exact bound_created disk files
  · exact hsettled

/-- A disk of two blocks. -/
def twoBlocks : Device := ramDisk 8192 twoBlocks_lt

def zeros : twoBlocks.State := fun _ ↦ (0 : Octet)

/-- A write of an octet by the strategy bridge. -/
def touch : Event := .request .strategy (.write {} 0 [1])

/-- An overlay armed in time, and one armed for the first time after the start. -/
def armedInTime : List Event := [.arm (some [0x41]), .start {}, touch]

def armedLate : List Event := [.start {}, .rearm {} (some [0x41]), touch]

/-- The overlay replaced after the start. -/
def replaced : List Event := [.arm (some [0x41]), .start {}, .rearm {} (some [0x42]), touch]

theorem follows_armedInTime : Run.Throughout step (fun _ ↦ True) Follows
    (created zeros fun _ ↦ none) armedInTime :=
  follows_of_settled twoBlocks zeros _ armedInTime ⟨nofun, trivial, trivial, trivial⟩

/-- The bridges go on with the descriptor they have: of the work image, or of an adapter that has
been closed. -/
theorem not_follows_armedLate_replaced :
    ¬Run.Throughout step (fun _ ↦ True) Follows (created zeros fun _ ↦ none) armedLate ∧
      ¬Run.Throughout step (fun _ ↦ True) Follows (created zeros fun _ ↦ none) replaced := by
  constructor
  · rintro ⟨-, -, -, -, -, hfollows, -⟩
    have hsaved := hfollows.saved rfl 0 (by decide)
    rcases hsaved with hrecorded | ⟨i, hi, -⟩
    · exact List.not_mem_nil hrecorded
    · exact Nat.not_lt_zero i hi
  · rintro ⟨-, -, -, -, -, -, -, hfollows, -⟩
    have hserved := hfollows.served .strategy _ ⟨.facade 0, .facade 0⟩ 0 rfl rfl rfl
    cases hserved

end S5LBox.App
