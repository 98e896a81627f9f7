import S5LBox.Block.BridgePlan
import S5LBox.Library.Run

/-!
# The bridge as a byte array

The media and the guard tail behind it are one array of octets. A direct write lays the user's
octets over it and a direct read answers with what was written last, however the request is cut up
into iovecs, pages and the two halves of the array.
-/

namespace S5LBox.Bridge

open List Block Span

/-- The octets behind the bridge: the media, then the guard tail. -/
def aperture (cfg : Config) (media guardTail : ℕ → Octet) : ℕ → Octet := fun x ↦
  if x < cfg.mediaSize then media x else guardTail (x - cfg.mediaSize)

variable {cfg : Config}

theorem mediaPrefixLength_le (offset requested : ℕ) :
    mediaPrefixLength cfg offset requested ≤ requested := by
  unfold mediaPrefixLength
  split <;> omega

theorem window_aperture (media guardTail : ℕ → Octet) (offset length : ℕ) :
    window (aperture cfg media guardTail) offset length =
      window media offset (mediaPrefixLength cfg offset length) ++
        window guardTail (guardTailOffset cfg offset)
          (length - mediaPrefixLength cfg offset length) := by
  have hle := @mediaPrefixLength_le cfg offset length
  have hsplit : length = mediaPrefixLength cfg offset length +
      (length - mediaPrefixLength cfg offset length) := by omega
  conv_lhs => rw [hsplit, window_append]
  congr 1
  · apply window_congr
    intro i hi
    apply if_pos
    unfold mediaPrefixLength at hi
    split at hi <;> omega
  · unfold window
    apply map_congr_left
    intro i hi
    rw [mem_range] at hi
    have hpast : ¬offset + mediaPrefixLength cfg offset length + i < cfg.mediaSize := by
      unfold mediaPrefixLength at hi ⊢
      split at hi <;> split <;> omega
    have hat : offset + mediaPrefixLength cfg offset length + i - cfg.mediaSize =
        guardTailOffset cfg offset + i := by
      unfold mediaPrefixLength guardTailOffset at *
      split at hi <;> split <;> split <;> omega
    unfold aperture
    rw [if_neg hpast, hat]

theorem overwrite_aperture (media guardTail : ℕ → Octet) (offset : ℕ) (data : List Octet) :
    aperture cfg (overwrite media offset (data.take (mediaPrefixLength cfg offset data.length)))
        (overwrite guardTail (guardTailOffset cfg offset)
          (data.drop (mediaPrefixLength cfg offset data.length))) =
      overwrite (aperture cfg media guardTail) offset data := by
  funext x
  rw [overwrite_apply]
  unfold aperture
  by_cases hx : x < cfg.mediaSize
  · rw [if_pos hx, if_pos hx, overwrite_apply, getElem?_take]
    by_cases hlow : offset ≤ x
    · rw [if_pos hlow, if_pos hlow]
      by_cases hin : x - offset < data.length
      · rw [if_pos (by unfold mediaPrefixLength; split <;> omega)]
      · rw [getElem?_eq_none (by omega), ite_self]
    · rw [if_neg hlow, if_neg hlow]
  · rw [if_neg hx, if_neg hx, overwrite_apply, getElem?_drop]
    by_cases hlow : offset ≤ x
    · rw [if_pos hlow]
      by_cases hguard : guardTailOffset cfg offset ≤ x - cfg.mediaSize
      · rw [if_pos hguard]
        by_cases hin : x - offset < data.length
        · have hat : mediaPrefixLength cfg offset data.length +
              (x - cfg.mediaSize - guardTailOffset cfg offset) = x - offset := by
            unfold mediaPrefixLength guardTailOffset at *
            split <;> split <;> omega
          rw [hat]
        · have hout : data.length ≤ mediaPrefixLength cfg offset data.length +
              (x - cfg.mediaSize - guardTailOffset cfg offset) := by
            unfold mediaPrefixLength guardTailOffset at *
            split <;> split <;> omega
          rw [getElem?_eq_none hout, getElem?_eq_none (Nat.le_of_not_lt hin)]
      · exfalso
        apply hguard
        unfold guardTailOffset
        split <;> omega
    · rw [if_neg hlow, if_neg]
      unfold guardTailOffset
      split <;> omega

variable {σ : Type} {dev : Device}

/-- What the bridge brings along from one call to the next. -/
structure Backing (dev : Device) where
  bridge : State
  disk : dev.State

/-- A service call: the guest as it is then, and the host's answers to the cancel callback. -/
structure Call (σ : Type) (dev : Device) where
  bus : Arm.Bus σ
  cancelled : dev.State → Bool
  cpu : Arm.Cpu
  ctx : σ
  ram : ℕ → Octet
  pc : Word
  encoding : Word

variable {backing : Backing dev} {call : Call σ dev}

def serve (cfg : Config) (backing : Backing dev) (call : Call σ dev) : Outcome × Machine σ dev :=
  handleSvc cfg call.bus call.cancelled
    ⟨call.cpu, call.ctx, call.ram, backing.disk, backing.bridge⟩ call.pc call.encoding

def step (cfg : Config) (backing : Backing dev) (call : Call σ dev) : Backing dev :=
  ⟨(serve cfg backing call).2.bridge, (serve cfg backing call).2.disk⟩

def Backing.image (cfg : Config) (backing : Backing dev) : ℕ → Octet :=
  aperture cfg (dev.bytes backing.disk) backing.bridge.guardTail

section Words

variable {ram : ℕ → Octet} {pa : ℕ} {value : Word}

theorem storeU32_of_not_mem {x : ℕ} (h : ¬(pa ≤ x ∧ x < pa + 4)) :
    storeU32 ram pa value x = ram x := by
  apply overwrite_of_not_mem
  rwa [LittleEndian.length_put]

@[simp] theorem loadU32_storeU32 (value : Word) : loadU32 (storeU32 ram pa value) pa = value := by
  have hwindow := window_overwrite ram pa (LittleEndian.put 4 value.toNat)
  rw [LittleEndian.length_put] at hwindow
  unfold loadU32 storeU32
  rw [hwindow, LittleEndian.get_put value.isLt, BitVec.ofNat_toNat, BitVec.setWidth_eq]

theorem loadU32_storeU32_of_disjoint {pa' : ℕ} (h : pa + 4 ≤ pa' ∨ pa' + 4 ≤ pa) :
    loadU32 (storeU32 ram pa' value) pa = loadU32 ram pa := by
  unfold loadU32 storeU32
  rw [window_overwrite_of_disjoint (by rwa [LittleEndian.length_put])]

theorem storeU32_of_not_covered {spans : List MappedSpan} {x : ℕ} (hword : WordOf spans pa)
    (hx : ¬Covered (extents spans) x) : storeU32 ram pa value x = ram x :=
  storeU32_of_not_mem fun h ↦ hx (hword.covered h)

end Words

theorem uioPas_some {spans : List MappedSpan} {va : ℕ} {pas : UioPas}
    (h : uioPas spans va = some pas) : mappedPa spans (va + uioIovs) 4 = some pas.iovs ∧
      mappedPa spans (va + uioIovcnt) 4 = some pas.iovcnt ∧
      mappedPa spans (va + uioOffsetLo) 4 = some pas.offsetLo ∧
      mappedPa spans (va + uioOffsetHi) 4 = some pas.offsetHi ∧
      mappedPa spans (va + uioSegflg) 4 = some pas.segment ∧
      mappedPa spans (va + uioResid) 4 = some pas.resid := by
  simp only [uioPas, Option.bind_eq_bind, Option.bind_eq_some_iff, Option.pure_def,
    Option.some.injEq] at h
  obtain ⟨iovs, hiovs, iovcnt, hiovcnt, lo, hlo, hi, hhi, segment, hsegment, resid, hresid, rfl⟩ := h
  exact ⟨hiovs, hiovcnt, hlo, hhi, hsegment, hresid⟩

section Commit

variable {bridge : State} {bus : Arm.Bus σ} {core : Arm.Core} {ram : ℕ → Octet}
  {request : Request}

theorem WordOf.append {spans added : List MappedSpan} {va pa : ℕ}
    (h : mappedPa spans va 4 = some pa) : WordOf (spans ++ added) pa := by
  refine ⟨va, ?_⟩
  unfold mappedPa at h ⊢
  rw [Option.map_eq_some_iff] at h
  obtain ⟨span, hfind, rfl⟩ := h
  rw [find?_append, hfind]
  rfl

section

variable (hrequest : Admitted cfg bridge bus core ram request)

include hrequest

theorem Admitted.uioWord {va pa : ℕ} (h : mappedPa request.uioSpans va 4 = some pa) :
    WordOf request.metadata pa := by
  obtain ⟨added, hadded⟩ := hrequest.uioFirst
  rw [hadded]
  exact WordOf.append h

theorem Admitted.uioApart : (extents request.uioSpans).Pairwise Extent.Disjoint := by
  obtain ⟨added, hadded⟩ := hrequest.uioFirst
  have hapart := hrequest.apart
  rw [hadded] at hapart
  unfold extents at hapart ⊢
  rw [map_append] at hapart
  exact (pairwise_append.1 hapart).1

theorem Admitted.commitUio_frame {after : ℕ → Octet} {x : ℕ}
    (hx : ¬Covered (extents request.metadata) x) : commitUio request after x = after x := by
  obtain ⟨hiovs, hiovcnt, hlo, hhi, -, hresid⟩ := uioPas_some hrequest.pas
  have hfold {iovs : List IovPlan} (hsub : ∀ iov ∈ iovs, iov ∈ request.iovs)
      (after : ℕ → Octet) : iovs.foldl commitIov after x = after x := by
    induction iovs generalizing after with
    | nil => rfl
    | cons iov rest ih =>
      obtain ⟨hbase, hlength⟩ := hrequest.words iov (hsub iov mem_cons_self)
      rw [foldl_cons, ih fun iov h ↦ hsub iov (mem_cons_of_mem _ h)]
      unfold commitIov
      split
      case isTrue => rfl
      case isFalse =>
        rw [storeU32_of_not_covered hlength hx, storeU32_of_not_covered hbase hx]
  unfold commitUio
  dsimp only
  rw [storeU32_of_not_covered (hrequest.uioWord hresid) hx,
    storeU32_of_not_covered (hrequest.uioWord hhi) hx,
    storeU32_of_not_covered (hrequest.uioWord hlo) hx,
    storeU32_of_not_covered (hrequest.uioWord hiovcnt) hx,
    storeU32_of_not_covered (hrequest.uioWord hiovs) hx, hfold fun _ h ↦ h]

omit hrequest in
theorem guardedMediaEnd_le : guardedMediaEnd cfg ≤ 2 ^ 63 - 1 := by
  have htransfer : maxTransfer ≤ 2 ^ 63 - 1 := by decide
  unfold guardedMediaEnd
  split <;> omega

theorem Admitted.loadUio_commit (after : ℕ → Octet) :
    (loadUio (commitUio request after) request.uioSpans request.uioVa).offset =
        request.offset + request.transferLength ∧
      (loadUio (commitUio request after) request.uioSpans request.uioVa).resid.toNat =
        request.uio.resid.toNat - request.transferLength := by
  obtain ⟨-, -, hlo, hhi, -, hresid⟩ := uioPas_some hrequest.pas
  have hend := hrequest.inside.trans guardedMediaEnd_le
  have hlohi := disjoint_of_mappedPa hrequest.uioApart hlo hhi (.inl le_rfl)
  have hloresid := disjoint_of_mappedPa hrequest.uioApart hlo hresid
    (.inl (by unfold uioOffsetLo uioResid; omega))
  have hhiresid := disjoint_of_mappedPa hrequest.uioApart hhi hresid
    (.inl (by unfold uioOffsetHi uioResid; omega))
  unfold loadUio mappedLoadU32
  dsimp only
  rw [hlo, hhi, hresid]
  unfold commitUio
  simp only [Option.getD_some, loadU32_storeU32, loadU32_storeU32_of_disjoint hhiresid,
    loadU32_storeU32_of_disjoint hlohi, loadU32_storeU32_of_disjoint hloresid,
    BitVec.toNat_ofNat]
  have hresidual : request.uio.resid.toNat - request.transferLength = 0 := Nat.sub_self _
  rw [hresidual]
  omega

end

end Commit

section Transfer

variable {cancelled : dev.State → Bool} {m m' : Machine σ dev} {request : Request}
  {spans : List MappedSpan}

def Machine.image (cfg : Config) (m : Machine σ dev) : ℕ → Octet :=
  aperture cfg (dev.bytes m.disk) m.bridge.guardTail

theorem readMedia_spec {disk : dev.State} {offset length : ℕ} :
    dev.bytes (readMedia cancelled disk offset length).2.2 = dev.bytes disk ∧
      ((readMedia cancelled disk offset length).1 = .ok →
        (readMedia cancelled disk offset length).2.1 = window (dev.bytes disk) offset length) := by
  unfold readMedia
  split
  case isTrue =>
    obtain ⟨hkeeps, -, hdata⟩ := @vmBlockReadExact_spec dev cancelled disk offset length
    exact ⟨hkeeps, hdata⟩
  case isFalse h =>
    rw [not_not.1 h]
    exact ⟨rfl, fun _ ↦ rfl⟩

theorem writeMedia_spec {disk : dev.State} {offset length : ℕ} {source : List Octet}
    (h : (writeMedia cancelled disk offset length source).1 = .ok) :
    dev.bytes (writeMedia cancelled disk offset length source).2.2 =
      overwrite (dev.bytes disk) offset (source.take length) := by
  unfold writeMedia at h ⊢
  split
  case isTrue hlength =>
    rw [if_pos hlength] at h
    exact @vmBlockWriteExact_spec dev cancelled disk offset (source.take length) h
  case isFalse hlength => rw [not_not.1 hlength, take_zero, overwrite_nil]

theorem readDirect_spec (h : readDirect cfg cancelled m request spans = (true, m')) :
    m'.ram = scatter m.ram (extents spans)
        (window (m.image cfg) request.offset request.transferLength) ∧
      dev.bytes m'.disk = dev.bytes m.disk ∧ m'.bridge = m.bridge ∧ m'.cpu = m.cpu := by
  unfold readDirect at h
  dsimp only at h
  split at h
  · cases h
  case isFalse hstatus =>
    obtain ⟨-, rfl⟩ := Prod.mk.inj h
    obtain ⟨hkeeps, hdata⟩ := @readMedia_spec dev cancelled m.disk request.offset
      (request.mediaLength cfg)
    refine ⟨?_, hkeeps, rfl, rfl⟩
    unfold Machine.image
    rw [window_aperture]
    dsimp only
    rw [hdata (not_not.1 hstatus)]
    rfl

theorem writeDirect_spec (h : writeDirect cfg cancelled m request spans = (true, m'))
    (htotal : total (extents spans) = request.transferLength) :
    m'.ram = m.ram ∧ m'.cpu = m.cpu ∧ m'.bridge.pending = m.bridge.pending ∧
      dev.bytes m'.disk = overwrite (dev.bytes m.disk) request.offset
        ((gather m.ram (extents spans)).take (request.mediaLength cfg)) ∧
      m'.bridge.guardTail = overwrite m.bridge.guardTail (guardTailOffset cfg request.offset)
        ((gather m.ram (extents spans)).drop (request.mediaLength cfg)) := by
  unfold writeDirect at h
  dsimp only at h
  split at h
  · cases h
  case isFalse hstatus =>
    obtain ⟨-, rfl⟩ := Prod.mk.inj h
    refine ⟨rfl, rfl, rfl, writeMedia_spec (not_not.1 hstatus), ?_⟩
    have hlength : ((gather m.ram (extents spans)).drop (request.mediaLength cfg)).length =
        request.guardLength cfg := by
      rw [length_drop, length_gather, htotal]
      rfl
    dsimp only
    rw [take_of_length_le hlength.le]

theorem image_writeDirect (h : writeDirect cfg cancelled m request spans = (true, m'))
    (htotal : total (extents spans) = request.transferLength) :
    m'.image cfg = overwrite (m.image cfg) request.offset (gather m.ram (extents spans)) := by
  obtain ⟨-, -, -, hmedia, hguard⟩ := writeDirect_spec h htotal
  unfold Machine.image
  have hlength : request.mediaLength cfg =
      mediaPrefixLength cfg request.offset (gather m.ram (extents spans)).length := by
    rw [length_gather, htotal]
    rfl
  rw [hmedia, hguard, hlength, overwrite_aperture]

end Transfer

/-- What a direct call does, against the array `image` it finds behind the bridge. -/
structure Served (cfg : Config) (image : ℕ → Octet) (backing : Backing dev) (call : Call σ dev)
    (request : Request) (spans : List MappedSpan) : Prop where
  outcome : (serve cfg backing call).1 = .direct request spans
  uioVa : request.uioVa = (call.cpu.core.r 1).toNat
  uio : request.uio = loadUio call.ram request.uioSpans request.uioVa
  /-- The user spans are the first addresses that the iovecs name, in the order of the iovecs. -/
  user : spans.flatMap (fun span ↦ List.range' span.va span.length) =
    (iovAddresses call.ram request.metadata request.uio.iovs.toNat
      (List.range request.uio.iovcnt.toNat)).take request.transferLength
  translated : ∀ span ∈ spans, ∃ mmu, (translate call.bus call.cpu.core.cp15.stamp span.va
    (if request.direction = .read then .write else .read) false mmu).1 = some span.pa
  total : total (extents spans) = request.transferLength
  inside : request.offset + request.transferLength ≤ guardedMediaEnd cfg
  apart : ∀ x, Covered (extents spans) x → ¬Covered (extents request.metadata) x
  /-- A read delivers the array to the user's spans and leaves both halves of it alone. -/
  read : request.direction = .read →
    (∀ x, ¬Covered (extents request.metadata) x → (serve cfg backing call).2.ram x =
      scatter call.ram (extents spans) (window image request.offset request.transferLength) x) ∧
    dev.bytes (step cfg backing call).disk = dev.bytes backing.disk ∧
    (step cfg backing call).bridge.guardTail = backing.bridge.guardTail
  /-- A write lays the user's octets over the array: the media take what lies below their size,
  the guard tail what lies above. -/
  write : request.direction = .write →
    (∀ x, ¬Covered (extents request.metadata) x → (serve cfg backing call).2.ram x = call.ram x) ∧
    (∀ x, dev.bytes (step cfg backing call).disk x =
      if x < cfg.mediaSize then
        overwrite image request.offset (gather call.ram (extents spans)) x
      else dev.bytes backing.disk x) ∧
    (∀ x, (step cfg backing call).bridge.guardTail x =
      overwrite image request.offset (gather call.ram (extents spans)) (cfg.mediaSize + x))
  offset : (loadUio (serve cfg backing call).2.ram request.uioSpans request.uioVa).offset =
    request.offset + request.transferLength
  resid : (loadUio (serve cfg backing call).2.ram request.uioSpans request.uioVa).resid.toNat =
    request.uio.resid.toNat - request.transferLength

theorem served_of_direct {request : Request} {spans : List MappedSpan}
    (h : (serve cfg backing call).1 = .direct request spans) :
    Served cfg (backing.image cfg) backing call request spans := by
  obtain ⟨mmu, -, hplan, hdata, hsvc⟩ := handleSvc_direct h
  have hrequest := admitted_of_planRequest hplan
  obtain ⟨huser, htotal, hplanned⟩ := hrequest.data spans hdata
  have hserve : serve cfg backing call = transfer cfg call.cancelled
      (Machine.setMmu ⟨call.cpu, call.ctx, call.ram, backing.disk, backing.bridge⟩ mmu)
      request spans := hsvc
  generalize hstart : Machine.setMmu
    (⟨call.cpu, call.ctx, call.ram, backing.disk, backing.bridge⟩ : Machine σ dev) mmu = start
    at hserve
  have hram : start.ram = call.ram := by rw [← hstart]; rfl
  have himage : start.image cfg = backing.image cfg := by rw [← hstart]; rfl
  rcases hmove : moveData cfg call.cancelled start request spans with ⟨_ | _, moved⟩
  · rw [hserve, transfer, hmove] at h
    cases h
  have hmoved : serve cfg backing call = (.direct request spans,
      { moved with ram := commitUio request moved.ram }.answer 0 (moved.cpu.core.r 14)) := by
    rw [hserve, transfer, hmove]
  have hafter : (serve cfg backing call).2.ram = commitUio request moved.ram := by
    rw [hmoved]
    rfl
  have hdisk : (step cfg backing call).disk = moved.disk := by
    unfold step
    rw [hmoved]
    rfl
  have hguard : (step cfg backing call).bridge = moved.bridge := by
    unfold step
    rw [hmoved]
    rfl
  obtain ⟨hoffset, hresid⟩ := hrequest.loadUio_commit moved.ram
  refine ⟨h, hrequest.uioVa, hrequest.uio, huser, fun span hspan ↦ (hplanned span hspan).translated,
    htotal, hrequest.inside, ?_, ?_, ?_, by rwa [hafter], by rwa [hafter]⟩
  · rintro x ⟨e, he, hx⟩ ⟨f, hf, hx'⟩
    obtain ⟨span, hspan, rfl⟩ := mem_map.1 he
    exact (hplanned span hspan).metadata f hf x ⟨hx, hx'⟩
  · intro hdirection
    unfold moveData at hmove
    rw [hdirection] at hmove
    obtain ⟨hread, hmedia, hbridge, -⟩ := readDirect_spec hmove
    rw [hram, himage] at hread
    refine ⟨fun x hx ↦ ?_, ?_, ?_⟩
    · rw [hafter, hrequest.commitUio_frame hx, hread]
    · rw [hdisk, hmedia, ← hstart]
      rfl
    · rw [hguard, hbridge, ← hstart]
      rfl
  · intro hdirection
    unfold moveData at hmove
    rw [hdirection] at hmove
    obtain ⟨hkept, -, -, hmedia, hbridge⟩ := writeDirect_spec hmove htotal
    have harray := image_writeDirect hmove htotal
    rw [himage, hram] at harray
    rw [hram] at hkept hmedia
    refine ⟨fun x hx ↦ ?_, fun x ↦ ?_, fun x ↦ ?_⟩
    · rw [hafter, hrequest.commitUio_frame hx, hkept]
    · rw [hdisk]
      split
      case isTrue hx =>
        rw [← harray]
        unfold Machine.image aperture
        rw [if_pos hx]
      case isFalse hx =>
        have hpast : ¬(request.offset ≤ x ∧ x < request.offset +
            ((gather call.ram (extents spans)).take (request.mediaLength cfg)).length) := by
          rw [length_take]
          unfold Request.mediaLength mediaPrefixLength
          split <;> omega
        rw [hmedia, overwrite_of_not_mem hpast, ← hstart]
        rfl
    · rw [hguard, ← harray]
      unfold Machine.image aperture
      rw [if_neg (by omega), Nat.add_sub_cancel_left]

def Direct (cfg : Config) (backing : Backing dev) (call : Call σ dev) : Prop :=
  ∃ request spans, (serve cfg backing call).1 = .direct request spans

/-- What a call writes to the array: an offset and the user's octets. -/
def written (cfg : Config) (backing : Backing dev) (call : Call σ dev) : List (ℕ × List Octet) :=
  match (serve cfg backing call).1 with
  | .direct request spans =>
    if request.direction = .write then [(request.offset, gather call.ram (extents spans))] else []
  | _ => []

/-- The writes of a run, in order. -/
def writes (cfg : Config) : Backing dev → List (Call σ dev) → List (ℕ × List Octet)
  | _, [] => []
  | backing, call :: rest => written cfg backing call ++ writes cfg (step cfg backing call) rest

theorem image_step (h : Direct cfg backing call) :
    (step cfg backing call).image cfg = latest (backing.image cfg) (written cfg backing call) := by
  obtain ⟨request, spans, hdirect⟩ := h
  have hserved := served_of_direct hdirect
  unfold written
  rw [hdirect]
  dsimp only
  cases hdirection : request.direction with
  | read =>
    obtain ⟨-, hmedia, hguard⟩ := hserved.read hdirection
    unfold Backing.image
    rw [hmedia, hguard, if_neg (by decide)]
    rfl
  | write =>
    obtain ⟨-, hmedia, hguard⟩ := hserved.write hdirection
    rw [if_pos rfl]
    change _ = overwrite (backing.image cfg) request.offset (gather call.ram (extents spans))
    funext x
    change (if x < cfg.mediaSize then dev.bytes (step cfg backing call).disk x
      else (step cfg backing call).bridge.guardTail (x - cfg.mediaSize)) = _
    split
    case isTrue hx => rw [hmedia, if_pos hx]
    case isFalse hx => rw [hguard, Nat.add_sub_cancel' (Nat.le_of_not_lt hx)]

theorem image_run {calls : List (Call σ dev)}
    (h : Run.Within (step cfg) (Direct cfg) backing calls) :
    (Run.run (step cfg) backing calls).image cfg =
      latest (backing.image cfg) (writes cfg backing calls) := by
  induction calls generalizing backing with
  | nil => rfl
  | cons call rest ih =>
    rw [Run.run_cons, ih h.2, image_step h.1, writes]
    unfold latest
    rw [foldl_append]

/-- In every run of direct calls, each call is served by the array of the octets written last. -/
theorem served_of_run (cfg : Config) (start : Backing dev) (before : List (Call σ dev))
    (call : Call σ dev) (h : Run.Within (step cfg) (Direct cfg) start (before ++ [call])) :
    ∃ request spans, Served cfg (latest (start.image cfg) (writes cfg start before))
      (Run.run (step cfg) start before) call request spans := by
  rw [Run.within_append] at h
  obtain ⟨hbefore, ⟨request, spans, hdirect⟩, -⟩ := h
  refine ⟨request, spans, ?_⟩
  rw [← image_run hbefore]
  exact served_of_direct hdirect

def Outcome.isDirect : Outcome → Bool
  | .direct _ _ => true
  | _ => false

theorem direct_of_isDirect (h : (serve cfg backing call).1.isDirect = true) :
    Direct cfg backing call := by
  unfold Outcome.isDirect at h
  split at h
  case h_1 request spans houtcome => exact ⟨request, spans, houtcome⟩
  case h_2 => cases h

def smallConfig : Config where
  site := ⟨0x1000, 0xdfe3⟩
  completionSite := ⟨0x1002, 0xdfe4⟩
  uiomoveThumbPc := 0x2000
  expectedDevice := 0x09000000
  userAddressLimit := 0x30000000
  mediaSize := 4096
  ramBase := 0
  ramSize := 0x100000
  bounceBasePa := 0x80000
  bounceStride := 0x20000
  bounceSlotCount := 2

/-- Every section is mapped to the first megabyte. -/
def flatBus : Arm.Bus Unit where
  read32 := fun _ _ ↦ (0xc02, ())
  read16 := fun _ _ ↦ (0, ())
  read8 := fun _ _ ↦ (0, ())
  write32 := fun _ _ _ ↦ ()
  write16 := fun _ _ _ ↦ ()
  write8 := fun _ _ _ ↦ ()
  hostRam := none
  hostRamWrite := none
  hostLoad := fun _ _ ↦ 0
  hostStore := fun _ _ _ ↦ ()
  waitForInterrupt := none
  privilegedSvcHandler := none

/-- RAM with a uio for eight octets at the end of the media, split into two iovecs. -/
def smallRam (rw : Word) : ℕ → Octet :=
  [(0x1000, 0x2000), (0x1004, 2), (0x1008, 0x1000), (0x1014, rw), (0x1018, 8), (0x1020, 2),
    (0x1024, 1), (0x2000, 0x43fd), (0x2004, 5), (0x2008, 0x5000), (0x200c, 9),
    (0x4400, 0xfeedface)].foldl (fun ram word ↦ storeU32 ram word.1 word.2) fun _ ↦ 0

def smallCore : Arm.Core where
  r := fun n ↦ if n = 0 then 0x09000000 else if n = 1 then 0x1000
    else if n = 13 then 0x3000 else 0x6001
  cpsr := 0x33
  cp15 := { sctlr := 1, dacr := 3 }
  spsr := fun _ ↦ 0
  bankR13 := fun _ ↦ 0
  bankR14 := fun _ ↦ 0
  fiqR8_12 := fun _ ↦ 0
  usrR8_12 := fun _ ↦ 0
  vfpS := fun _ ↦ 0

def smallCall (rw : Word) : Call Unit (ramDisk 4096 (by decide)) where
  bus := flatBus
  cancelled := fun _ ↦ false
  cpu := ⟨smallCore, {}⟩
  ctx := ()
  ram := smallRam rw
  pc := 0x1000
  encoding := 0xdfe3

def smallBacking : Backing (ramDisk 4096 (by decide)) := ⟨init, fun _ ↦ 0⟩

theorem served_of_run_guardTail : ∃ request spans, Served smallConfig
      (latest (smallBacking.image smallConfig) (writes smallConfig smallBacking [smallCall 1]))
      (Run.run (step smallConfig) smallBacking [smallCall 1]) (smallCall 0) request spans :=
  served_of_run smallConfig smallBacking [smallCall 1] (smallCall 0)
    ⟨direct_of_isDirect (by decide +kernel), direct_of_isDirect (by decide +kernel), trivial⟩

end S5LBox.Bridge
