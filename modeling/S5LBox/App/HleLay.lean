import S5LBox.App.HleMemory

/-!
# Publishing spans

Spans whose octets are granted, lie apart from the tables and have no second address are published
as the writes they are: what a user reads afterwards at an address is what was written there last.
-/

namespace S5LBox.Hle

open BitVec List S5LBox.Arm
open BitVec (ofNat)

variable {σ : Type} {bus : Bus σ} {dram : Dram} {host : HostPtr} {p : TlbStamp} {ctx base : σ}
  {uses : Word → Access → Prop} {dest : Word → Prop} {t : Caches × σ}

theorem userOffset_read {va : Word} {offset : ℕ}
    (h : userOffset bus dram p ctx .write va = some offset) :
    userOffset bus dram p ctx .read va = some offset := by
  have hbelow := walkVerdict_below bus p ctx va (subsumes_write false)
  unfold userOffset at *
  cases hverdict : (walkVerdict bus p ctx va .write false).1 with
  | fault fsr =>
    rw [hverdict] at h
    contradiction
  | frame frame mask =>
    rw [hbelow frame mask hverdict]
    exact h

/-- The octets of some spans. -/
def Covered (spans : List Span) (va : Word) : Prop :=
  ∃ span ∈ spans, ∃ i < span.src.length, va = span.va + ofNat 32 i

/-- A destination that the accesses of a call do not see but at its own addresses: no octet of it
is part of a table they are translated by, and no other address is read at one of its places. -/
structure Alone (bus : Bus σ) (dram : Dram) (p : TlbStamp) (base : σ) (uses : Word → Access → Prop)
    (dest : Word → Prop) : Prop where
  used : ∀ va acc, dest va → acc ≠ .fetch → uses va acc
  tables : ∀ va offset, dest va → userOffset bus dram p base .write va = some offset →
    TablesApart bus dram p base uses offset
  unaliased : ∀ va other offset, uses va .read → dest other →
    userOffset bus dram p base .read va = some offset →
    userOffset bus dram p base .write other = some offset → va = other

/-- A destination that may be written. -/
def Open (bus : Bus σ) (dram : Dram) (p : TlbStamp) (base : σ) (dest : Word → Prop) : Prop :=
  ∀ va, dest va → (userOffset bus dram p base .write va).isSome

theorem Open.place (h : Open bus dram p base dest) {va : Word} (hdest : dest va) :
    userOffset bus dram p base .write va = some (place bus dram p base va) := by
  obtain ⟨offset, hoffset⟩ := Option.isSome_iff_exists.1 (h va hdest)
  rw [Hle.place, hoffset, Option.getD_some]

theorem Open.readPlace (h : Open bus dram p base dest) {va : Word} (hdest : dest va) :
    userOffset bus dram p base .read va = some (Hle.place bus dram p base va) :=
  userOffset_read (h.place hdest)

theorem userView_store (hbus : HleBus bus dram host) (halone : Alone bus dram p base uses dest)
    (hopen : Open bus dram p base dest) (h : Kept bus dram p uses base t) {va : Word} (octet : Octet)
    (hdest : dest va) {a : ℕ} (ha : a < 2 ^ 32) (huse : uses (ofNat 32 a) .read) :
    userView bus dram host p (bus.hostStore t.2 (host + place bus dram p base va) octet) a =
      if a = va.toNat then some octet else userView bus dram host p t.2 a := by
  have hstored := h.store hbus octet (userOffset_lt (hopen.place hdest))
    (halone.tables _ _ hdest (hopen.place hdest))
  have hsame : ofNat 32 a = va ↔ a = va.toNat := by
    rw [← toNat_inj, toNat_ofNat, Nat.mod_eq_of_lt ha]
  rw [userView, userView, hstored.userOffset_eq huse, h.userOffset_eq huse]
  split
  · next heq =>
    rw [hsame.2 heq, hopen.readPlace hdest, Option.map_some, hbus.storeLoad, if_pos rfl]
  · next hne =>
    cases hoffset : userOffset bus dram p base .read (ofNat 32 a) with
    | none => rfl
    | some offset =>
      have hother : host + offset ≠ host + place bus dram p base va := by
        intro heq
        rw [Nat.add_left_cancel heq] at hoffset
        exact hne (hsame.1 (halone.unaliased _ va _ huse hdest hoffset (hopen.place hdest)))
      rw [Option.map_some, Option.map_some, hbus.storeLoad, if_neg hother]

theorem userView_lay (hbus : HleBus bus dram host) (halone : Alone bus dram p base uses dest)
    (hopen : Open bus dram p base dest) {va : Word} (data : List Octet) (i : ℕ)
    (h : Kept bus dram p uses base t) (hend : va.toNat + i + data.length ≤ 2 ^ 32)
    (hdest : ∀ k < data.length, dest (va + ofNat 32 (i + k))) {a : ℕ} (ha : a < 2 ^ 32)
    (huse : uses (ofNat 32 a) .read) :
    userView bus dram host p (layOctets bus dram host p base va data i t.2) a =
      Span.overwrite (userView bus dram host p t.2) (va.toNat + i) (data.map some) a := by
  induction data generalizing i t with
  | nil => rw [layOctets, map_nil, Span.overwrite_nil]
  | cons octet rest ih =>
    rw [length_cons] at hend
    have hfirst := hdest 0 (Nat.succ_pos _)
    rw [Nat.add_zero] at hfirst
    have hva : (va + ofNat 32 i).toNat = va.toNat + i := by
      rw [toNat_add, toNat_ofNat, Nat.add_mod_mod, Nat.mod_eq_of_lt (by omega)]
    have hview := userView_store hbus halone hopen h octet hfirst ha huse
    have hstored := h.store hbus octet (userOffset_lt (hopen.place hfirst))
      (halone.tables _ _ hfirst (hopen.place hfirst))
    rw [hva] at hview
    rw [layOctets, ih (i + 1) hstored (by omega) fun k hk ↦ by
      rw [show i + 1 + k = i + (k + 1) by omega]
      exact hdest (k + 1) (Nat.succ_lt_succ hk)]
    rw [map_cons, Span.overwrite_apply, Span.overwrite_apply, hview]
    by_cases hafter : va.toNat + (i + 1) ≤ a
    · rw [if_pos hafter, if_neg (by omega), if_pos (by omega),
        show a - (va.toNat + i) = (a - (va.toNat + (i + 1))) + 1 by omega,
        getElem?_cons_succ]
    · rw [if_neg hafter]
      by_cases heq : a = va.toNat + i
      · rw [if_pos heq, if_pos heq.ge, heq, Nat.sub_self]
        rfl
      · rw [if_neg heq, if_neg (by omega)]

/-- Spans laid one after the other. -/
def laySpans (bus : Bus σ) (dram : Dram) (host : HostPtr) (p : TlbStamp) (base : σ)
    (spans : List Span) (ctx : σ) : σ :=
  spans.foldl (fun ctx span ↦ layOctets bus dram host p base span.va span.src 0 ctx) ctx

/-- Spans over a store of octets that may be missing. -/
def written (view : ℕ → Option Octet) (spans : List Span) : ℕ → Option Octet :=
  Span.latest view (spans.map fun span ↦ (span.va.toNat, span.src.map some))

theorem written_cons (view : ℕ → Option Octet) (span : Span) (rest : List Span) :
    written view (span :: rest) =
      written (Span.overwrite view span.va.toNat (span.src.map some)) rest := rfl

theorem written_append (view : ℕ → Option Octet) (first second : List Span) :
    written view (first ++ second) = written (written view first) second := by
  rw [written, map_append, Span.latest, foldl_append]
  rfl

theorem laySpans_append (first second : List Span) (ctx : σ) :
    laySpans bus dram host p base (first ++ second) ctx =
      laySpans bus dram host p base second (laySpans bus dram host p base first ctx) :=
  foldl_append

/-- A span within the address space, all of whose octets are destination. -/
structure Lands (dest : Word → Prop) (span : Span) : Prop where
  nonzero : span.src ≠ [] → span.va ≠ 0
  fits : span.va.toNat + span.src.length ≤ 2 ^ 32
  inside : ∀ i < span.src.length, dest (span.va + ofNat 32 i)

theorem Lands.range {span : Span} (h : Lands dest span) (hsome : span.src ≠ []) :
    hleRange span.va span.src.length = true := by
  have hlength : span.src.length ≠ 0 := fun hzero ↦ hsome (length_eq_zero_iff.1 hzero)
  simp only [hleRange, Bool.and_eq_true, decide_eq_true_eq]
  exact ⟨⟨hlength, h.nonzero hsome⟩, h.fits⟩

section

variable (hbus : HleBus bus dram host)

include hbus

theorem kept_laySpan (halone : Alone bus dram p base uses dest)
    (hopen : Open bus dram p base dest) (h : Kept bus dram p uses base t) {span : Span}
    (hdest : ∀ i < span.src.length, dest (span.va + ofNat 32 i)) :
    Kept bus dram p uses base (t.1, layOctets bus dram host p base span.va span.src 0 t.2) := by
  apply h.lay hbus
  intro k hk
  rw [Nat.zero_add]
  exact ⟨hopen _ (hdest k hk), halone.tables _ _ (hdest k hk) (hopen.place (hdest k hk))⟩

theorem userView_laySpans (halone : Alone bus dram p base uses dest)
    (hopen : Open bus dram p base dest) (spans : List Span) (h : Kept bus dram p uses base t)
    (hlands : ∀ span ∈ spans, Lands dest span) {a : ℕ} (ha : a < 2 ^ 32)
    (huse : uses (ofNat 32 a) .read) :
    userView bus dram host p (laySpans bus dram host p base spans t.2) a =
      written (userView bus dram host p t.2) spans a := by
  suffices hfrom : ∀ view : ℕ → Option Octet, userView bus dram host p t.2 a = view a →
      userView bus dram host p (laySpans bus dram host p base spans t.2) a =
        written view spans a from hfrom _ rfl
  induction spans generalizing t with
  | nil => exact fun view hview ↦ hview
  | cons span rest ih =>
    intro view hview
    obtain ⟨hspan, hrest⟩ := forall_mem_cons.1 hlands
    apply ih (kept_laySpan hbus halone hopen h hspan.inside) hrest
    have hlay := userView_lay hbus halone hopen span.src 0 h hspan.fits
      (fun k hk ↦ (Nat.zero_add k).symm ▸ hspan.inside k hk) ha huse
    rw [hlay, Nat.add_zero, Span.overwrite_apply, hview]
    exact (Span.overwrite_apply _ _ _ _).symm

theorem hostLoad_layOctets {va : Word} (data : List Octet) (i : ℕ) (ctx : σ) {other : HostPtr}
    (h : ∀ k < data.length, other ≠ host + place bus dram p base (va + ofNat 32 (i + k))) :
    bus.hostLoad (layOctets bus dram host p base va data i ctx) other = bus.hostLoad ctx other := by
  induction data generalizing i ctx with
  | nil => rfl
  | cons octet rest ih =>
    have hfirst := h 0 (Nat.succ_pos _)
    rw [Nat.add_zero] at hfirst
    rw [layOctets, ih, hbus.storeLoad, if_neg hfirst]
    intro k hk
    rw [show i + 1 + k = i + (k + 1) by omega]
    exact h (k + 1) (Nat.succ_lt_succ hk)

theorem hostLoad_laySpans (spans : List Span) (ctx : σ) {other : HostPtr}
    (h : ∀ va, Covered spans va → other ≠ host + place bus dram p base va) :
    bus.hostLoad (laySpans bus dram host p base spans ctx) other = bus.hostLoad ctx other := by
  induction spans generalizing ctx with
  | nil => rfl
  | cons span rest ih =>
    have hrest := ih (layOctets bus dram host p base span.va span.src 0 ctx)
      fun va ⟨other, hmem, hva⟩ ↦ h va ⟨other, mem_cons_of_mem _ hmem, hva⟩
    refine hrest.trans (hostLoad_layOctets hbus span.src 0 ctx fun k hk ↦ ?_)
    rw [Nat.zero_add]
    exact h _ ⟨span, mem_cons_self, k, hk, rfl⟩

theorem hlePublish_spans (halone : Alone bus dram p base uses dest)
    (hopen : Open bus dram p base dest) (spans : List Span) (h : Kept bus dram p uses base t)
    (hlands : ∀ span ∈ spans, Lands dest span) :
    ∃ caches, spans.foldl (fun t span ↦ hlePublish bus dram p host span
        (hlePieces span.va span.src.length span.src.length 0) t) t =
          (caches, laySpans bus dram host p base spans t.2) ∧
      Kept bus dram p uses base (caches, laySpans bus dram host p base spans t.2) := by
  induction spans generalizing t with
  | nil => exact ⟨t.1, rfl, h⟩
  | cons span rest ih =>
    obtain ⟨hspan, hrest⟩ := forall_mem_cons.1 hlands
    obtain ⟨caches, hpublish, hkept⟩ := hlePublish_kept hbus span span.src.length 0 (by omega) h
      (fun i hi ↦ halone.used _ _ (hspan.inside i hi) (by decide))
      (fun i hi ↦ ⟨hopen _ (hspan.inside i hi),
        halone.tables _ _ (hspan.inside i hi) (hopen.place (hspan.inside i hi))⟩)
    obtain ⟨after, hfold, hafter⟩ := ih hkept hrest
    refine ⟨after, ?_, hafter⟩
    rw [foldl_cons, hpublish]
    exact hfold

theorem hlePublishSpans_lays (hhost : dram.host = some host)
    (halone : Alone bus dram p base uses dest) (hopen : Open bus dram p base dest)
    (spans : List Span) (h : Kept bus dram p uses base t)
    (hlength : spans.length ≤ oracleMaxSpans) (hlands : ∀ span ∈ spans, Lands dest span)
    (hsrc : ∀ span ∈ spans, span.src ≠ []) : ∃ caches, hlePublishSpans bus dram p spans t =
        (true, caches, laySpans bus dram host p base spans t.2) ∧
      Kept bus dram p uses base (caches, laySpans bus dram host p base spans t.2) := by
  rw [hlePublishSpans]
  split
  · next hempty =>
    subst hempty
    exact ⟨t.1, rfl, h⟩
  · next hsome =>
    have hused : ∀ span ∈ spans, ∀ i < span.src.length, uses (span.va + ofNat 32 i) .write :=
      fun span hspan i hi ↦ halone.used _ _ ((hlands span hspan).inside i hi) (by decide)
    obtain ⟨⟨caches, hstate, hsteady⟩, hgranted⟩ := hleValidateSpans_steady hbus spans h.steady hused
    have hvalid : (hleValidateSpans bus dram p spans t).1 = true := by
      apply hgranted.2
      intro span hspan
      refine ⟨(hlands span hspan).range (hsrc span hspan), fun i hi ↦ ?_⟩
      have hdest := (hlands span hspan).inside i hi
      rw [h.userOffset_eq (hused span hspan i hi)]
      exact hopen _ hdest
    have hvalidated : hleValidateSpans bus dram p spans t = (true, caches, t.2) :=
      Prod.ext hvalid hstate
    have hkept : Kept bus dram p uses base (caches, t.2) := ⟨hsteady, h.words⟩
    obtain ⟨after, hfold, hafter⟩ := hlePublish_spans hbus halone hopen spans hkept hlands
    refine ⟨after, ?_, hafter⟩
    simp only [hleWritev, hhost, hvalidated]
    rw [if_neg (not_or.2 ⟨hsome, hlength.not_gt⟩), hfold]

theorem granted_of_publishSpans {spans : List Span} (h : Steady bus dram p uses t)
    (hused : ∀ span ∈ spans, ∀ i < span.src.length, uses (span.va + ofNat 32 i) .write)
    (haccepted : (hlePublishSpans bus dram p spans t).1 = true) :
    spans.length ≤ oracleMaxSpans ∧ ∀ span ∈ spans, Granted bus dram p t.2 span := by
  rw [hlePublishSpans] at haccepted
  split at haccepted
  · next hempty =>
    subst hempty
    exact ⟨Nat.zero_le _, fun span hspan ↦ absurd hspan not_mem_nil⟩
  · rw [hleWritev] at haccepted
    split at haccepted
    · contradiction
    · split at haccepted
      · contradiction
      · next hlength =>
        obtain ⟨-, hgranted⟩ := hleValidateSpans_steady hbus spans h hused
        refine ⟨by omega, hgranted.1 ?_⟩
        generalize hleValidateSpans bus dram p spans t = answer at *
        obtain ⟨_ | _, after⟩ := answer
        · contradiction
        · rfl

end

end S5LBox.Hle
