import S5LBox.Block.Bridge

/-!
# What a plan guarantees

The facts that hold of every request the bridge admits: where its metadata and its user data lie,
how they lie to each other, and that the plan depends on nothing in RAM but the metadata.
-/

namespace S5LBox.Bridge

open List Block Span
open Attempt (bind_ok pure_ok require_ok expect_ok mapError_ok lift_ok)

theorem permissionGranule_pos : 0 < permissionGranule := by decide

theorem chunk_pos {va remaining : ℕ} (h : remaining ≠ 0) :
    0 < min remaining (permissionGranule - va % permissionGranule) := by
  have hgranule : va % permissionGranule < permissionGranule :=
    Nat.mod_lt _ permissionGranule_pos
  omega

variable {va length pa x : ℕ} {spans : List MappedSpan} {iovs : List IovPlan} {request : Request}

theorem flatMap_granules {fuel remaining : ℕ} (h : remaining ≤ fuel) :
    (granules fuel va remaining).flatMap (fun piece ↦ List.range' piece.1 piece.2) =
      List.range' va remaining := by
  induction fuel generalizing va remaining with
  | zero =>
    obtain rfl := Nat.le_zero.1 h
    rfl
  | succ fuel ih =>
    rw [granules]
    split
    case isTrue hzero =>
      rw [hzero]
      rfl
    case isFalse hzero =>
      have hpos := @chunk_pos va remaining hzero
      have hle : min remaining (permissionGranule - va % permissionGranule) ≤ remaining :=
        Nat.min_le_left ..
      dsimp only
      rw [flatMap_cons, ih (by omega), range'_append_1, Nat.add_sub_cancel' hle]

theorem flatMap_pieces (va length : ℕ) :
    (pieces va length).flatMap (fun piece ↦ List.range' piece.1 piece.2) = List.range' va length :=
  flatMap_granules le_rfl

theorem exists_granule {fuel remaining word : ℕ} (hfuel : remaining ≤ fuel) (hva : va % 4 = 0)
    (hremaining : remaining % 4 = 0) (hword : word % 4 = 0) (hlow : va ≤ word)
    (hhigh : word + 4 ≤ va + remaining) :
    ∃ piece ∈ granules fuel va remaining, piece.1 ≤ word ∧ word + 4 ≤ piece.1 + piece.2 := by
  induction fuel generalizing va remaining with
  | zero => omega
  | succ fuel ih =>
    rw [granules, if_neg (by omega)]
    have hpos := @chunk_pos va remaining (by omega)
    have hchunk : min remaining (permissionGranule - va % permissionGranule) % 4 = 0 := by
      unfold permissionGranule
      omega
    generalize min remaining (permissionGranule - va % permissionGranule) = chunk at hpos hchunk
    by_cases hhere : word + 4 ≤ va + chunk
    · exact ⟨(va, chunk), mem_cons_self, hlow, hhere⟩
    · obtain ⟨piece, hmem, hpiece⟩ := @ih (va + chunk) (remaining - chunk) (by omega) (by omega)
        (by omega) (by omega) (by omega)
      exact ⟨piece, mem_cons_of_mem _ hmem, hpiece⟩

theorem mappedPa_some (h : mappedPa spans va length = some pa) :
    ∃ span ∈ spans, span.va ≤ va ∧ va + length ≤ span.va + span.length ∧
      pa = span.pa + (va - span.va) := by
  unfold mappedPa at h
  rw [Option.map_eq_some_iff] at h
  obtain ⟨span, hfind, rfl⟩ := h
  have hspan := find?_some hfind
  rw [decide_eq_true_eq] at hspan
  exact ⟨span, mem_of_find?_eq_some hfind, hspan.1, by omega, rfl⟩

theorem covered_of_mappedPa (h : mappedPa spans va length = some pa)
    (hx : pa ≤ x ∧ x < pa + length) : Covered (extents spans) x := by
  obtain ⟨span, hmem, hlow, hhigh, rfl⟩ := mappedPa_some h
  refine ⟨span.extent, mem_map_of_mem hmem, ?_⟩
  change span.pa ≤ x ∧ x < span.pa + span.length
  omega

theorem exists_mappedPa {span : MappedSpan} (hmem : span ∈ spans) (hlow : span.va ≤ va)
    (hhigh : va + 4 ≤ span.va + span.length) : ∃ pa, mappedPa spans va 4 = some pa := by
  unfold mappedPa
  have hfound : (spans.find? fun span ↦ span.va ≤ va ∧ va - span.va ≤ span.length ∧
      4 ≤ span.length - (va - span.va)).isSome = true := by
    rw [find?_isSome]
    refine ⟨span, hmem, ?_⟩
    rw [decide_eq_true_eq]
    omega
  obtain ⟨found, hfind⟩ := Option.isSome_iff_exists.1 hfound
  exact ⟨_, by rw [hfind]; rfl⟩

theorem disjoint_of_mappedPa {va' pa' : ℕ} (hapart : (extents spans).Pairwise Extent.Disjoint)
    (h : mappedPa spans va 4 = some pa) (h' : mappedPa spans va' 4 = some pa')
    (hva : va + 4 ≤ va' ∨ va' + 4 ≤ va) : pa + 4 ≤ pa' ∨ pa' + 4 ≤ pa := by
  obtain ⟨span, hmem, hlow, hhigh, rfl⟩ := mappedPa_some h
  obtain ⟨span', hmem', hlow', hhigh', rfl⟩ := mappedPa_some h'
  have hpairs : spans.Pairwise fun a b ↦ a.extent.Disjoint b.extent := pairwise_map.1 hapart
  have hsymm : Std.Symm fun a b : MappedSpan ↦ a.extent.Disjoint b.extent :=
    ⟨fun _ _ h ↦ h.symm⟩
  by_cases hsame : span = span'
  · subst hsame
    omega
  · have hdisjoint : span.extent.Disjoint span'.extent := hpairs.forall hmem hmem' hsame
    have hbounds := hdisjoint.bounds (by change 0 < span.length; omega)
      (by change 0 < span'.length; omega)
    change span.pa + span.length ≤ span'.pa ∨ span'.pa + span'.length ≤ span.pa at hbounds
    omega

variable {σ : Type} {cfg : Config} {bus : Arm.Bus σ} {stamp : Arm.TlbStamp} {mmu mmu' : Mmu σ}

theorem collectPieces_spec {list : List (ℕ × ℕ)} {result : List MappedSpan}
    (h : collectPieces cfg bus stamp list spans mmu = (.ok result, mmu')) :
    ∃ added, result = spans ++ added ∧ added.map (fun span ↦ (span.va, span.length)) = list ∧
      result.length ≤ max maxMetadataSpans spans.length := by
  induction list generalizing spans mmu with
  | nil =>
    rw [collectPieces, pure_ok] at h
    exact ⟨[], by rw [append_nil, h.1], rfl, by rw [← h.1]; exact le_max_right ..⟩
  | cons piece rest ih =>
    simp only [collectPieces, bind_ok, lift_ok, expect_ok,
      require_ok, and_assoc, exists_and_left, exists_eq_left', exists_const] at h
    obtain ⟨_, _, -, pa, -, -, hroom, h⟩ := h
    obtain ⟨added, rfl, hpieces, hlength⟩ := ih h
    refine ⟨⟨piece.1, pa, piece.2⟩ :: added, by simp, by simp [hpieces], ?_⟩
    simp only [length_append, length_singleton] at hlength ⊢
    omega

theorem collectMapping_spec {result : List MappedSpan}
    (h : collectMapping cfg bus stamp va length spans mmu = (.ok result, mmu')) :
    va + length ≤ addressSpaceSize ∧ ∃ added, result = spans ++ added ∧
      added.map (fun span ↦ (span.va, span.length)) = pieces va length ∧
      result.length ≤ max maxMetadataSpans spans.length := by
  simp only [collectMapping, bind_ok, require_ok, and_assoc, exists_and_left,
    exists_eq_left', exists_const] at h
  exact ⟨h.1, collectPieces_spec h.2⟩

theorem mappedPa_of_pieces {spans added : List MappedSpan} {va length word : ℕ}
    (hadded : added.map (fun span ↦ (span.va, span.length)) = pieces va length)
    (hsub : ∀ span ∈ added, span ∈ spans) (hva : va % 4 = 0) (hlength : length % 4 = 0)
    (hword : word % 4 = 0) (hlow : va ≤ word) (hhigh : word + 4 ≤ va + length) :
    ∃ pa, mappedPa spans word 4 = some pa := by
  obtain ⟨piece, hmem, hpiece⟩ := exists_granule le_rfl hva hlength hword hlow hhigh
  change piece ∈ pieces va length at hmem
  rw [← hadded, mem_map] at hmem
  obtain ⟨span, hspan, rfl⟩ := hmem
  exact exists_mappedPa (hsub span hspan) hpiece.1 hpiece.2

/-- Metadata that a suspended request waits on. -/
def PendingMetadata (cfg : Config) (bridge : State) (x : ℕ) : Prop :=
  ∃ i < cfg.bounceSlotCount, (bridge.pending i).active ∧ Covered (bridge.pending i).metadataSpans x

/-- The octets of RAM that belong to suspended requests or may be given to one. -/
def Reserved (cfg : Config) (bridge : State) (x : ℕ) : Prop :=
  PendingMetadata cfg bridge x ∨ cfg.reservation.Covers x

theorem disjoint_of_not_overlap {a b : Extent} (h : rangesOverlap a b = false) : a.Disjoint b := by
  apply Extent.disjoint_of_bounds
  intro hover
  unfold rangesOverlap at h
  rw [Bool.and_eq_false_iff, decide_eq_false_iff_not, decide_eq_false_iff_not] at h
  rcases h with h | h
  · exact h hover.1
  · exact h hover.2

theorem not_pendingMetadata {bridge : State} {spans : List Extent} {e : Extent}
    (h : pendingMetadataAlias cfg bridge spans = false) (hmem : e ∈ spans) (hx : e.Covers x) :
    ¬PendingMetadata cfg bridge x := by
  rintro ⟨i, hi, hactive, f, hf, hcovers⟩
  unfold pendingMetadataAlias at h
  rw [any_eq_false] at h
  have hslot := h i (mem_range.2 hi)
  rw [Bool.and_eq_true, not_and, any_eq_true, not_exists] at hslot
  have hspan := hslot hactive e
  rw [not_and, any_eq_true, not_exists] at hspan
  have hover : rangesOverlap e f = false := by
    have hf' := hspan hmem f
    rw [not_and] at hf'
    exact Bool.eq_false_iff.2 (hf' hf)
  exact disjoint_of_not_overlap hover x ⟨hx, hcovers⟩

/-- What holds of a span of user data. -/
structure Planned (cfg : Config) (bridge : State) (bus : Arm.Bus σ) (stamp : Arm.TlbStamp)
    (metadata : List Extent) (access : Arm.Access) (span : MappedSpan) : Prop where
  translated : ∃ mmu, (translate bus stamp span.va access false mmu).1 = some span.pa
  range : rangeContains cfg.ramBase cfg.ramSize span.pa span.length
  metadata : ∀ e ∈ metadata, span.extent.Disjoint e
  reserved : ∀ x, span.extent.Covers x → ¬Reserved cfg bridge x

variable {bridge : State} {metadata : List Extent} {access : Arm.Access}

theorem planPieces_spec {list : List (ℕ × ℕ)} {plan result : DataPlan}
    (h : planPieces cfg bridge bus stamp metadata access list plan mmu = (.ok result, mmu'))
    (hresident : result.needsRedirect = false) :
    plan.needsRedirect = false ∧ ∃ added, result.spans = plan.spans ++ added ∧
      added.map (fun span ↦ (span.va, span.length)) = list ∧
      ∀ span ∈ added, Planned cfg bridge bus stamp metadata access span := by
  induction list generalizing plan mmu with
  | nil =>
    rw [planPieces, pure_ok] at h
    obtain ⟨rfl, -⟩ := h
    exact ⟨hresident, [], by rw [append_nil], rfl, by simp⟩
  | cons piece rest ih =>
    rw [planPieces, bind_ok] at h
    obtain ⟨answer, u, htranslate, h⟩ := h
    rw [lift_ok] at htranslate
    cases answer with
    | none => exact absurd (ih h).1 (by simp)
    | some pa =>
      simp only [bind_ok, require_ok, and_assoc, exists_and_left,
        exists_eq_left', exists_const] at h
      obtain ⟨hrange, hmetadata, hpending, hbounce, -, h⟩ := h
      obtain ⟨hplan, added, hspans, hpieces, hplanned⟩ := ih h
      refine ⟨hplan, ⟨piece.1, pa, piece.2⟩ :: added, ?_, ?_, ?_⟩
      · rw [hspans, append_assoc]
        rfl
      · rw [map_cons, hpieces]
      · intro span hspan
        rw [mem_cons] at hspan
        rcases hspan with rfl | hspan
        · refine ⟨⟨mmu, by rw [htranslate]⟩, hrange, ?_, ?_⟩
          · intro e he
            unfold overlapsMetadata at hmetadata
            rw [any_eq_false] at hmetadata
            exact disjoint_of_not_overlap (Bool.eq_false_iff.2 (hmetadata e he))
          · rintro x hx (hreserved | hreserved)
            · exact not_pendingMetadata hpending (mem_singleton_self _) hx hreserved
            · exact disjoint_of_not_overlap hbounce x ⟨hx, hreserved⟩
        · exact hplanned span hspan

theorem planIovData_spec {plan result : DataPlan}
    (h : planIovData cfg bridge bus stamp metadata access iovs plan mmu = (.ok result, mmu'))
    (hresident : result.needsRedirect = false) :
    plan.needsRedirect = false ∧ ∃ added, result.spans = plan.spans ++ added ∧
      added.map (fun span ↦ (span.va, span.length)) =
        iovs.flatMap (fun iov ↦ pieces iov.base iov.consumed) ∧
      ∀ span ∈ added, Planned cfg bridge bus stamp metadata access span := by
  induction iovs generalizing plan mmu with
  | nil =>
    rw [planIovData, pure_ok] at h
    obtain ⟨rfl, -⟩ := h
    exact ⟨hresident, [], by rw [append_nil], rfl, by simp⟩
  | cons iov rest ih =>
    simp only [planIovData, bind_ok, require_ok, and_assoc, exists_and_left,
      exists_eq_left', exists_const] at h
    obtain ⟨-, middle, u, hpieces, hrest⟩ := h
    obtain ⟨hmiddle, last, hlast, hlastPieces, hlastPlanned⟩ := ih hrest
    obtain ⟨hplan, first, hfirst, hfirstPieces, hfirstPlanned⟩ := planPieces_spec hpieces hmiddle
    refine ⟨hplan, first ++ last, ?_, ?_, ?_⟩
    · rw [hlast, hfirst, append_assoc]
    · rw [map_append, hfirstPieces, hlastPieces, flatMap_cons]
    · intro span hspan
      rcases mem_append.1 hspan with hspan | hspan
      · exact hfirstPlanned span hspan
      · exact hlastPlanned span hspan

theorem planUserData_spec
    (h : planUserData cfg bridge bus stamp metadata access iovs mmu = (.ok (some spans), mmu')) :
    spans.flatMap (fun span ↦ List.range' span.va span.length) =
        iovs.flatMap (fun iov ↦ List.range' iov.base iov.consumed) ∧
      ∀ span ∈ spans, Planned cfg bridge bus stamp metadata access span := by
  simp only [planUserData, bind_ok, pure_ok] at h
  obtain ⟨plan, u, hplan, hspans, -⟩ := h
  by_cases hredirect : plan.needsRedirect
  · rw [if_pos hredirect] at hspans
    cases hspans
  · rw [if_neg hredirect] at hspans
    obtain ⟨-, added, hadded, hpieces, hplanned⟩ :=
      planIovData_spec hplan (Bool.eq_false_iff.2 hredirect)
    have hall : added = spans := by
      rw [← Option.some.inj hspans, hadded]
      rfl
    subst hall
    refine ⟨?_, hplanned⟩
    have hranges := congrArg (List.flatMap fun piece ↦ List.range' piece.1 piece.2) hpieces
    rw [flatMap_map, flatMap_assoc] at hranges
    simp only [flatMap_pieces] at hranges
    exact hranges

/-- A word of the mapped metadata. -/
def WordOf (spans : List MappedSpan) (pa : ℕ) : Prop := ∃ va, mappedPa spans va 4 = some pa

theorem WordOf.covered (h : WordOf spans pa) (hx : pa ≤ x ∧ x < pa + 4) :
    Covered (extents spans) x := by
  obtain ⟨va, hva⟩ := h
  exact covered_of_mappedPa hva hx

theorem take_range' (start n k : ℕ) :
    (List.range' start n).take k = List.range' start (min n k) := by
  rcases Nat.le_total n k with h | h
  · rw [take_range'_of_length_le h, Nat.min_eq_left h]
  · rw [take_range'_of_length_ge h, Nat.min_eq_right h]

/-- The virtual addresses that some entries of an iovec array name, in order. -/
def iovAddresses (ram : ℕ → Octet) (metadata : List MappedSpan) (iovVa : ℕ) (list : List ℕ) :
    List ℕ :=
  list.flatMap fun i ↦
    List.range' (mappedLoadU32 ram metadata (iovVa + i * userIovSize)).toNat
      (mappedLoadU32 ram metadata (iovVa + i * userIovSize + 4)).toNat

theorem planIovs_spec {ram : ℕ → Octet} {metadata : List MappedSpan} {iovVa left rest : ℕ}
    {list : List ℕ} (h : planIovs cfg ram metadata iovVa list left mmu = (.ok (iovs, rest), mmu')) :
    (iovs.map IovPlan.consumed).sum + rest = left ∧
      iovs.flatMap (fun iov ↦ List.range' iov.base iov.consumed) =
        (iovAddresses ram metadata iovVa list).take left ∧
      ∀ iov ∈ iovs, WordOf metadata iov.basePa ∧ WordOf metadata iov.lengthPa := by
  induction list generalizing left iovs mmu with
  | nil =>
    rw [planIovs, pure_ok] at h
    obtain ⟨h, -⟩ := h
    obtain ⟨rfl, rfl⟩ := Prod.mk.inj h
    exact ⟨by simp, by simp [iovAddresses], by simp⟩
  | cons i list ih =>
    simp only [planIovs, bind_ok, require_ok, expect_ok, pure_ok,
      and_assoc, exists_and_left, exists_eq_left', exists_const] at h
    obtain ⟨basePa, hbase, lengthPa, hlength, -, ⟨plans, after⟩, u, htail, hresult, rfl⟩ := h
    obtain ⟨rfl, rfl⟩ := Prod.mk.inj hresult
    obtain ⟨hsum, haddresses, hwords⟩ := ih htail
    refine ⟨?_, ?_, ?_⟩
    · rw [map_cons, sum_cons]
      dsimp only
      omega
    · generalize hlen : (mappedLoadU32 ram metadata (iovVa + i * userIovSize + 4)).toNat = length
        at haddresses
      have hleft : left - min length left = left - length := by omega
      rw [hleft] at haddresses
      unfold iovAddresses at haddresses ⊢
      rw [flatMap_cons, flatMap_cons, haddresses, hlen, take_append, length_range', take_range']
    · intro iov hiov
      rw [mem_cons] at hiov
      rcases hiov with rfl | hiov
      · exact ⟨⟨_, hbase⟩, ⟨_, hlength⟩⟩
      · exact hwords iov hiov

/-- What holds of a request that has been admitted. -/
structure Admitted (cfg : Config) (bridge : State) (bus : Arm.Bus σ) (core : Arm.Core)
    (ram : ℕ → Octet) (request : Request) : Prop where
  uioVa : request.uioVa = (core.r 1).toNat
  uioVa_aligned : request.uioVa % 4 = 0
  uioPieces : request.uioSpans.map (fun span ↦ (span.va, span.length)) =
    pieces request.uioVa uioSize
  uioFirst : ∃ added, request.metadata = request.uioSpans ++ added
  pas : Bridge.uioPas request.uioSpans request.uioVa = some request.pas
  uio : request.uio = loadUio ram request.uioSpans request.uioVa
  stack : pendingSpActive cfg bridge (core.r 13) = false
  apart : (extents request.metadata).Pairwise Extent.Disjoint
  reserved : ∀ x, Covered (extents request.metadata) x → ¬Reserved cfg bridge x
  length_pos : 0 < request.transferLength
  length_le : request.transferLength ≤ maxTransfer
  inside : request.offset + request.transferLength ≤ guardedMediaEnd cfg
  words : ∀ iov ∈ request.iovs, WordOf request.metadata iov.basePa ∧
    WordOf request.metadata iov.lengthPa
  data : ∀ spans, request.data = some spans →
    spans.flatMap (fun span ↦ List.range' span.va span.length) =
        (iovAddresses ram request.metadata request.uio.iovs.toNat
          (List.range request.uio.iovcnt.toNat)).take request.transferLength ∧
      total (extents spans) = request.transferLength ∧
      ∀ span ∈ spans, Planned cfg bridge bus core.cp15.stamp (extents request.metadata)
        (if request.direction = .read then .write else .read) span

theorem reserved_of_checks {spans : List Extent} (hbounce : spans.any (overlapsBounce cfg) = false)
    (hpending : pendingMetadataAlias cfg bridge spans = false) (hx : Covered spans x) :
    ¬Reserved cfg bridge x := by
  obtain ⟨e, hmem, hcovers⟩ := hx
  rintro (hreserved | hreserved)
  · exact not_pendingMetadata hpending hmem hcovers hreserved
  · rw [any_eq_false] at hbounce
    have hover : rangesOverlap e cfg.reservation = false := Bool.eq_false_iff.2 (hbounce e hmem)
    exact disjoint_of_not_overlap hover x ⟨hcovers, hreserved⟩

theorem mapUio_spec {pas : UioPas} (h : mapUio cfg bus stamp va mmu = (.ok (spans, pas), mmu')) :
    va % 4 = 0 ∧ spans.map (fun span ↦ (span.va, span.length)) = pieces va uioSize ∧
      uioPas spans va = some pas := by
  simp only [mapUio, bind_ok, require_ok, expect_ok, pure_ok,
    mapError_ok, and_assoc, exists_and_left, exists_eq_left', exists_const] at h
  obtain ⟨haligned, mapped, u, hmapping, -, found, hpas, hresult, -⟩ := h
  obtain ⟨rfl, rfl⟩ := Prod.mk.inj hresult
  obtain ⟨-, added, rfl, hpieces, -⟩ := collectMapping_spec hmapping
  exact ⟨haligned, hpieces, hpas⟩

theorem checkUio_spec {uio : Uio} {direction : Direction}
    (h : checkUio cfg uio mmu = (.ok direction, mmu')) :
    0 < uio.resid.toNat ∧ uio.resid.toNat ≤ maxTransfer ∧
      uio.offset + uio.resid.toNat ≤ guardedMediaEnd cfg := by
  simp only [checkUio, bind_ok, require_ok, expect_ok, pure_ok,
    and_assoc, exists_and_left, exists_eq_left', exists_const] at h
  obtain ⟨-, _, -, -, -, -, hresid, -, -, hlength, hend, hinside, -⟩ := h
  have hpos : uio.resid.toNat ≠ 0 := fun hzero ↦ hresid (BitVec.eq_of_toNat_eq hzero)
  omega

theorem mapIovs_spec {uio : Uio} {metadata : List MappedSpan}
    (h : mapIovs cfg bridge bus stamp uio spans mmu = (.ok metadata, mmu')) :
    (∃ added, metadata = spans ++ added) ∧ (extents metadata).Pairwise Extent.Disjoint ∧
      ∀ x, Covered (extents metadata) x → ¬Reserved cfg bridge x := by
  simp only [mapIovs, bind_ok, require_ok, pure_ok,
    mapError_ok, and_assoc, exists_and_left, exists_eq_left', exists_const] at h
  obtain ⟨mapped, u, hmapping, hapart, hbounce, hpending, rfl, -⟩ := h
  obtain ⟨-, added, hadded, -⟩ := collectMapping_spec hmapping
  exact ⟨⟨added, hadded⟩, hapart.imp fun h ↦ (disjoint_of_not_overlap h).symm,
    fun x hx ↦ reserved_of_checks hbounce hpending hx⟩

theorem admitted_of_planRequest {core : Arm.Core} {ram : ℕ → Octet}
    (h : planRequest cfg bridge bus core ram mmu = (.ok request, mmu')) :
    Admitted cfg bridge bus core ram request := by
  simp only [planRequest, bind_ok, require_ok, pure_ok, mapError_ok,
    and_assoc, exists_and_left, exists_eq_left', exists_const] at h
  obtain ⟨hstack, -, ⟨spans, pas⟩, u₁, huio, direction, u₂, hcheck, metadata, u₃, hiovs,
    ⟨iovs, left⟩, u₄, hplan, -, rfl, data, u₅, hdata, rfl, -⟩ := h
  obtain ⟨haligned, hpieces, hpas⟩ := mapUio_spec huio
  obtain ⟨hpos, hle, hinside⟩ := checkUio_spec hcheck
  obtain ⟨hfirst, hapart, hreserved⟩ := mapIovs_spec hiovs
  obtain ⟨hconsumed, haddresses, hwords⟩ := planIovs_spec hplan
  exact {
    uioVa := rfl
    uioVa_aligned := haligned
    uioPieces := hpieces
    uioFirst := hfirst
    pas := hpas
    uio := rfl
    stack := hstack
    apart := hapart
    reserved := hreserved
    length_pos := hpos
    length_le := hle
    inside := hinside
    words := hwords
    data := by
      rintro spans rfl
      obtain ⟨hranges, hplanned⟩ := planUserData_spec hdata
      refine ⟨hranges.trans haddresses, ?_, hplanned⟩
      have hlengths := congrArg List.length hranges
      simp only [length_flatMap, length_range'] at hlengths
      unfold total extents
      rw [map_map]
      exact hlengths.trans hconsumed }

section Reads

variable {ram other : ℕ → Octet}

theorem mappedLoadU32_congr (hmapped : mappedPa spans va 4 = some pa)
    (hsame : ∀ x, Covered (extents spans) x → other x = ram x) :
    mappedLoadU32 other spans va = mappedLoadU32 ram spans va := by
  have hwindow : window other pa 4 = window ram pa 4 := by
    apply window_congr
    intro i hi
    exact hsame _ (covered_of_mappedPa hmapped ⟨by omega, by omega⟩)
  unfold mappedLoadU32 loadU32
  rw [hmapped, Option.getD_some, hwindow]

theorem loadUio_congr (haligned : va % 4 = 0)
    (hpieces : spans.map (fun span ↦ (span.va, span.length)) = pieces va uioSize)
    (hsame : ∀ x, Covered (extents spans) x → other x = ram x) :
    loadUio other spans va = loadUio ram spans va := by
  have hword {field : ℕ} (hfield : field % 4 = 0) (hinside : field + 4 ≤ uioSize) :
      mappedLoadU32 other spans (va + field) = mappedLoadU32 ram spans (va + field) := by
    obtain ⟨pa, hpa⟩ := @mappedPa_of_pieces spans spans va uioSize (va + field) hpieces
      (fun _ h ↦ h) haligned (by decide) (by omega) (by omega) (by omega)
    exact mappedLoadU32_congr hpa hsame
  unfold loadUio
  rw [@hword uioIovs, @hword uioIovcnt, @hword uioOffsetLo, @hword uioOffsetHi, @hword uioSegflg,
    @hword uioRw, @hword uioResid, @hword uioMaxIovs, @hword uioFlags] <;> decide

theorem planIovs_congr {iovVa left : ℕ} {list : List ℕ} {result : List IovPlan × ℕ}
    (hsame : ∀ x, Covered (extents spans) x → other x = ram x)
    (h : planIovs cfg ram spans iovVa list left mmu = (.ok result, mmu')) :
    planIovs cfg other spans iovVa list left mmu = (.ok result, mmu') := by
  induction list generalizing left result mmu with
  | nil => exact h
  | cons i list ih =>
    simp only [planIovs, bind_ok, require_ok, expect_ok, pure_ok,
      and_assoc, exists_and_left, exists_eq_left', exists_const] at h ⊢
    obtain ⟨basePa, hbase, lengthPa, hlength, hlimit, tail, u, htail, hresult, rfl⟩ := h
    rw [mappedLoadU32_congr hbase hsame, mappedLoadU32_congr hlength hsame]
    exact ⟨basePa, hbase, lengthPa, hlength, hlimit, tail, u, ih htail, hresult, rfl⟩

theorem planRequest_congr {core : Arm.Core}
    (h : planRequest cfg bridge bus core ram mmu = (.ok request, mmu'))
    (hsame : ∀ x, Covered (extents request.metadata) x → other x = ram x) :
    planRequest cfg bridge bus core other mmu = (.ok request, mmu') := by
  simp only [planRequest, bind_ok, require_ok, pure_ok, mapError_ok,
    and_assoc, exists_and_left, exists_eq_left', exists_const] at h ⊢
  obtain ⟨hstack, hdevice, ⟨spans, pas⟩, u₁, huio, direction, u₂, hcheck, metadata, u₃, hiovs,
    ⟨iovs, left⟩, u₄, hplan, hsum, hleft, data, u₅, hdata, rfl, hmmu⟩ := h
  obtain ⟨haligned, hpieces, -⟩ := mapUio_spec huio
  obtain ⟨⟨added, rfl⟩, -⟩ := mapIovs_spec hiovs
  have hspans : ∀ x, Covered (extents spans) x → other x = ram x := by
    rintro x ⟨e, he, hx⟩
    apply hsame
    refine ⟨e, ?_, hx⟩
    change e ∈ (spans ++ added).map MappedSpan.extent
    rw [map_append]
    exact mem_append_left _ he
  refine ⟨hstack, hdevice, (spans, pas), u₁, huio, direction, u₂, ?_, spans ++ added, u₃, ?_,
    (iovs, left), u₄, ?_, ?_, hleft, data, u₅, hdata, ?_, hmmu⟩
  all_goals rw [loadUio_congr haligned hpieces hspans]
  · exact hcheck
  · exact hiovs
  · exact planIovs_congr hsame hplan
  · exact hsum

end Reads

section Calls

variable {dev : Device} {cancelled : dev.State → Bool} {m : Machine σ dev}

theorem gate_cases (cfg : Config) (dev : Device) (core : Arm.Core) (pc encoding : Word) :
    gate cfg dev core pc encoding = .declined .unhandled ∨
      (∃ code, gate cfg dev core pc encoding = .declined (.failed code)) ∨
      configValid cfg dev = true ∧ (gate cfg dev core pc encoding = .completion ∨
        gate cfg dev core pc encoding = .entry) := by
  unfold gate
  split
  · exact .inl rfl
  split
  · exact .inl rfl
  split
  · exact .inl rfl
  split
  · exact .inr (.inl ⟨_, rfl⟩)
  split
  · exact .inr (.inl ⟨_, rfl⟩)
  case isFalse hvalid =>
    have hconfig : configValid cfg dev = true := by simpa using hvalid
    split
    · exact .inr (.inl ⟨_, rfl⟩)
    split
    · exact .inr (.inr ⟨hconfig, .inl rfl⟩)
    · exact .inr (.inr ⟨hconfig, .inr rfl⟩)

theorem handleEntry_cases (cfg : Config) (bus : Arm.Bus σ) (cancelled : dev.State → Bool)
    (m : Machine σ dev) :
    (∃ exit mmu, handleEntry cfg bus cancelled m = leave (m.setMmu mmu) exit) ∨
    ∃ request mmu, planRequest cfg m.bridge bus m.cpu.core m.ram (m.cpu.caches, m.ctx) =
        (.ok request, mmu) ∧
      (request.data = none ∧
          handleEntry cfg bus cancelled m = startUiomove cfg cancelled (m.setMmu mmu) request ∨
        ∃ spans, request.data = some spans ∧
          handleEntry cfg bus cancelled m = transfer cfg cancelled (m.setMmu mmu) request spans) :=
  by
  unfold handleEntry
  rcases hplan : planRequest cfg m.bridge bus m.cpu.core m.ram (m.cpu.caches, m.ctx) with
    ⟨exit | request, mmu⟩
  · exact .inl ⟨exit, mmu, rfl⟩
  · refine .inr ⟨request, mmu, rfl, ?_⟩
    dsimp only
    cases hdata : request.data with
    | none => exact .inl ⟨rfl, rfl⟩
    | some spans => exact .inr ⟨spans, rfl, rfl⟩

theorem leave_ne_direct {exit : Exit} : (leave m exit).1 ≠ .direct request spans := by
  cases exit <;> exact nofun

theorem completePending_ne_direct {slot : ℕ} :
    (completePending cfg bus cancelled m slot).1 ≠ .direct request spans := by
  unfold completePending
  dsimp only
  repeat' split
  all_goals exact nofun

theorem handleCompletion_ne_direct :
    (handleCompletion cfg bus cancelled m).1 ≠ .direct request spans := by
  unfold handleCompletion
  split
  · exact nofun
  · exact completePending_ne_direct

theorem startUiomove_ne_direct {request' : Request} :
    (startUiomove cfg cancelled m request).1 ≠ .direct request' spans := by
  unfold startUiomove
  dsimp only
  repeat' split
  all_goals exact nofun

theorem transfer_request {request' : Request} {spans' : List MappedSpan}
    (h : (transfer cfg cancelled m request spans).1 = .direct request' spans') :
    request' = request ∧ spans' = spans := by
  unfold transfer at h
  split at h
  · cases h
  · exact ⟨(Outcome.direct.inj h).1.symm, (Outcome.direct.inj h).2.symm⟩

theorem handleSvc_direct {pc encoding : Word}
    (h : (handleSvc cfg bus cancelled m pc encoding).1 = .direct request spans) :
    ∃ mmu, gate cfg dev m.cpu.core pc encoding = .entry ∧
      planRequest cfg m.bridge bus m.cpu.core m.ram (m.cpu.caches, m.ctx) = (.ok request, mmu) ∧
      request.data = some spans ∧
      handleSvc cfg bus cancelled m pc encoding =
        transfer cfg cancelled (m.setMmu mmu) request spans := by
  unfold handleSvc at h ⊢
  rcases gate_cases cfg dev m.cpu.core pc encoding with
    hgate | ⟨code, hgate⟩ | ⟨-, hgate | hgate⟩ <;> rw [hgate] at h ⊢
  · cases h
  · cases h
  · exact absurd h handleCompletion_ne_direct
  · dsimp only at h ⊢
    rcases handleEntry_cases cfg bus cancelled m with
      ⟨exit, mmu, hentry⟩ | ⟨admitted, mmu, hplan, ⟨-, hentry⟩ | ⟨planned, hdata, hentry⟩⟩
    · rw [hentry] at h
      exact absurd h leave_ne_direct
    · rw [hentry] at h
      exact absurd h startUiomove_ne_direct
    · rw [hentry] at h
      obtain ⟨rfl, rfl⟩ := transfer_request h
      exact ⟨mmu, rfl, hplan, hdata, hentry⟩

end Calls

end S5LBox.Bridge
