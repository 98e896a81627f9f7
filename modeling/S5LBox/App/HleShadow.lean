import S5LBox.App.HleLay

/-!
# The facade of the rectangle

A routine that reads through the facade, with guest memory as it was at the call behind it, reads
what it would with the rows already in the scratch stored. A rectangle is drawn directly by the
scanline on guest memory, row by row and chunk by chunk; drawn through the facade and published at
the end it leaves the same memory.
-/

namespace S5LBox.Hle

open List S5LBox.Arm

section Scratch

variable {view : ℕ → Option Octet} {va : Word} {len : ℕ}

variable {data : List Octet} {spans : List Span}

theorem contained_eq_some {base : Word} {src : List Octet} : contained base src va len = some data ↔
      (base ≤ va ∧ va.toNat + len ≤ base.toNat + src.length) ∧
        (src.drop (va - base).toNat).take len = data := by
  rw [contained]
  split
  · next h => rw [Option.some.injEq, and_iff_right h]
  · next h => exact iff_of_false nofun fun hall ↦ h hall.1

theorem window_of_contained {span : Span} (h : contained span.va span.src va len = some data) :
    Span.window (Span.overwrite view span.va.toNat (span.src.map some)) va.toNat len =
      data.map some := by
  obtain ⟨⟨hle, hend⟩, hdata⟩ := contained_eq_some.1 h
  have hsub := BitVec.toNat_sub_of_le hle
  have hle : span.va.toNat ≤ va.toNat := hle
  have hall := Span.window_overwrite view span.va.toNat (span.src.map some)
  rw [length_map] at hall
  generalize Span.overwrite view span.va.toNat (span.src.map some) = laid at *
  rw [← hdata, map_take, map_drop, ← hall, Span.drop_window _ _ _ _ (by omega),
    Span.take_window _ _ _ _ (by omega), hsub, Nat.add_sub_cancel' hle]

theorem rangesOverlap_eq_false {a b : Word} {alen blen : ℕ} :
    rangesOverlap a alen b blen = false ↔ b.toNat + blen ≤ a.toNat ∨ a.toNat + alen ≤ b.toNat := by
  rw [rangesOverlap, Bool.and_eq_false_iff, decide_eq_false_iff_not, decide_eq_false_iff_not,
    Nat.not_lt, Nat.not_lt]

theorem window_of_apart {span : Span} (h : rangesOverlap span.va span.src.length va len = false) :
    Span.window (Span.overwrite view span.va.toNat (span.src.map some)) va.toNat len =
      Span.window view va.toNat len := by
  apply Span.window_overwrite_of_disjoint
  rw [length_map]
  exact rangesOverlap_eq_false.1 h

theorem map_overlayBytes {span : Span} (h : data.map some = Span.window view va.toNat len) :
    (overlayBytes va data span).map some =
      Span.window (Span.overwrite view span.va.toNat (span.src.map some)) va.toNat len := by
  apply ext_getElem?
  intro i
  have hget := congrArg (fun list ↦ list[i]?) h
  simp only [getElem?_map, Span.getElem?_window] at hget
  rw [overlayBytes, getElem?_map, getElem?_mapIdx, Span.getElem?_window]
  by_cases hi : i < len
  · rw [if_pos hi] at hget ⊢
    cases hoctet : data[i]? with
    | none =>
      rw [hoctet] at hget
      contradiction
    | some octet =>
      rw [hoctet, Option.map_some, Option.some.injEq] at hget
      rw [Option.map_some, Option.map_some, Option.some.injEq, Span.overwrite_apply]
      by_cases hle : span.va.toNat ≤ va.toNat + i
      · rw [if_pos hle]
        by_cases hlt : va.toNat + i < span.va.toNat + span.src.length
        · rw [if_pos ⟨hle, hlt⟩, getElem?_map, octetAt, getD_eq_getElem?_getD,
            getElem?_eq_getElem (by omega)]
          rfl
        · rw [if_neg fun hin ↦ hlt hin.2, getElem?_eq_none (by rw [length_map]; omega)]
          exact hget
      · rw [if_neg fun hin ↦ hle hin.1, if_neg hle]
        exact hget
  · rw [if_neg hi] at hget ⊢
    rw [Option.map_eq_none_iff] at hget
    rw [hget]
    rfl

/-- Spans none of which touches another. -/
def Apart (spans : List Span) : Prop :=
  spans.Pairwise fun a b ↦ rangesOverlap a.va a.src.length b.va b.src.length = false

theorem window_written_of_apart
    (h : ∀ span ∈ spans, rangesOverlap span.va span.src.length va len = false) :
    Span.window (written view spans) va.toNat len = Span.window view va.toNat len := by
  induction spans generalizing view with
  | nil => rfl
  | cons span rest ih =>
    obtain ⟨hspan, hrest⟩ := forall_mem_cons.1 h
    rw [written_cons, ih hrest, window_of_apart hspan]

theorem searchPrior_inl {spans : List Span} {overlapping : Bool} {data : List Octet}
    (hapart : Apart spans) (h : searchPrior va len overlapping spans = .inl data) :
    overlapping = false ∧ (∃ span ∈ spans, contained span.va span.src va len = some data) ∧
      Span.window (written view spans) va.toNat len = data.map some := by
  induction spans generalizing overlapping view with
  | nil => contradiction
  | cons span rest ih =>
    obtain ⟨hspan, hrest⟩ := pairwise_cons.1 hapart
    rw [searchPrior] at h
    split at h
    · next found hfound =>
      rw [Sum.inl.injEq] at h
      subst h
      split at hfound
      · contradiction
      · next hnot =>
        obtain ⟨⟨hle, hend⟩, -⟩ := contained_eq_some.1 hfound
        have hle : span.va.toNat ≤ va.toNat := hle
        refine ⟨by simpa using hnot, ⟨span, mem_cons_self, hfound⟩, ?_⟩
        rw [written_cons, window_written_of_apart, window_of_contained hfound]
        intro other hother
        have hdisjoint := rangesOverlap_eq_false.1 (hspan other hother)
        apply rangesOverlap_eq_false.2
        omega
    · obtain ⟨hflag, ⟨other, hmem, hother⟩, hwindow⟩ :=
        @ih (Span.overwrite view span.va.toNat (span.src.map some)) _ hrest h
      rw [Bool.or_eq_false_iff] at hflag
      exact ⟨hflag.1, ⟨other, mem_cons_of_mem _ hmem, hother⟩, hwindow⟩

theorem searchPrior_inr {overlapping : Bool}
    (h : searchPrior va len overlapping spans = .inr false) : overlapping = false ∧
      ∀ span ∈ spans, rangesOverlap span.va span.src.length va len = false := by
  induction spans generalizing overlapping with
  | nil =>
    rw [searchPrior, Sum.inr.injEq] at h
    exact ⟨h, fun span hspan ↦ absurd hspan not_mem_nil⟩
  | cons span rest ih =>
    rw [searchPrior] at h
    split at h
    · contradiction
    · obtain ⟨hflag, hrest⟩ := ih h
      rw [Bool.or_eq_false_iff] at hflag
      exact ⟨hflag.1, forall_mem_cons.2 ⟨hflag.2, hrest⟩⟩

/-- The rows and the octets of the current one, in the order they were written. -/
def Shadow.scratch (s : Shadow) : List Span := s.prior ++ [s.current]

theorem search_inl {s : Shadow} {data : List Octet} (hapart : Apart s.prior)
    (h : s.search va len = .inl data) :
    (∃ span ∈ s.scratch, contained span.va span.src va len = some data) ∧
      Span.window (written view s.scratch) va.toNat len = data.map some := by
  rw [Shadow.search] at h
  rw [Shadow.scratch, written_append, written_cons]
  split at h
  · next hempty =>
    obtain ⟨-, ⟨span, hspan, hcontained⟩, hwindow⟩ := searchPrior_inl hapart h
    refine ⟨⟨span, mem_append_left _ hspan, hcontained⟩, ?_⟩
    rw [hempty, map_nil, Span.overwrite_nil]
    exact hwindow
  · split at h
    · next found hfound =>
      rw [Sum.inl.injEq] at h
      subst h
      exact ⟨⟨s.current, mem_append_right _ (mem_singleton_self _), hfound⟩,
        window_of_contained hfound⟩
    · obtain ⟨hflag, ⟨span, hspan, hcontained⟩, hwindow⟩ :=
        @searchPrior_inl view va len _ _ _ hapart h
      refine ⟨⟨span, mem_append_left _ hspan, hcontained⟩, ?_⟩
      rw [← hwindow]
      exact window_of_apart hflag

theorem search_inr {s : Shadow} (h : s.search va len = .inr false) :
    Span.window (written view s.scratch) va.toNat len = Span.window view va.toNat len := by
  rw [Shadow.search] at h
  rw [Shadow.scratch, written_append, written_cons]
  split at h
  · next hempty =>
    rw [hempty, map_nil, Span.overwrite_nil]
    exact window_written_of_apart (searchPrior_inr h).2
  · split at h
    · contradiction
    · obtain ⟨hflag, hprior⟩ := searchPrior_inr h
      exact (window_of_apart hflag).trans (window_written_of_apart hprior)

theorem map_overlay (s : Shadow) (h : data.map some = Span.window view va.toNat len) :
    (s.overlay va data).map some = Span.window (written view s.scratch) va.toNat len := by
  have hprior (spans : List Span) {data : List Octet} {view : ℕ → Option Octet}
      (h : data.map some = Span.window view va.toNat len) :
      (spans.foldl (overlayBytes va) data).map some =
        Span.window (written view spans) va.toNat len := by
    induction spans generalizing data view with
    | nil => exact h
    | cons span rest ih => exact ih (map_overlayBytes h)
  rw [Shadow.scratch, written_append, written_cons]
  exact map_overlayBytes (hprior s.prior h)

theorem isSome_written
    (h : ∀ span ∈ spans, ∀ i < span.src.length, (view (span.va.toNat + i)).isSome) (a : ℕ) :
    (written view spans a).isSome = (view a).isSome := by
  suffices hfrom : ∀ view' : ℕ → Option Octet, (∀ a, (view' a).isSome = (view a).isSome) →
      (written view' spans a).isSome = (view a).isSome from hfrom view fun _ ↦ rfl
  induction spans with
  | nil => exact fun view' hview ↦ hview a
  | cons span rest ih =>
    intro view' hview
    obtain ⟨hspan, hrest⟩ := forall_mem_cons.1 h
    rw [written_cons]
    apply ih hrest
    intro b
    rw [Span.overwrite_apply, ← hview b]
    split
    · next hle =>
      by_cases hlt : b - span.va.toNat < span.src.length
      · have hsome := hspan _ hlt
        rw [Nat.add_sub_cancel' hle, ← hview b] at hsome
        rw [getElem?_map, getElem?_eq_getElem hlt, hsome]
        rfl
      · rw [getElem?_eq_none (by rw [length_map]; omega), Option.getD_none]
    · rfl

end Scratch

section Facade

variable {σ : Type} {bus : Bus σ} {dram : Dram} {host : HostPtr} {p : TlbStamp} {base : σ}
  {uses : Word → Access → Prop} {dest : Word → Prop} {t td : Caches × σ} {s : Shadow} {op : ReadOp}

/-- What the facade answers where guest memory with the scratch is seen as `view`. -/
def Shows (s : Shadow) (view : ℕ → Option Octet) (op : ReadOp) (data : List Octet) : Prop :=
  op.len ≠ 0 ∧
    match s.operands op.va op.len with
    | some known => known = data
    | none => op.va.toNat + op.len ≤ oglRectRealLimit ∧ op.va ≠ 0 ∧
        data.map some = Span.window view op.va.toNat op.len

/-- A read of octets that are used. -/
def Reads (uses : Word → Access → Prop) (op : ReadOp) : Prop :=
  ∀ i < op.len, uses (op.va + BitVec.ofNat 32 i) .read

/-- A program on steady memory is answered by the memory alone, and changes nothing in it. -/
theorem run_steady (hbus : HleBus bus dram host) (hhost : dram.host = some host) {α : Type}
    (program : Program hleInterface α) (h : Steady bus dram p uses t)
    (hd : Steady bus dram p uses td) (hsame : td.2 = t.2)
    (hasks : Program.Asks (hleRead bus dram p) (Reads uses) program t) :
    (Program.run (hleRead bus dram p) program td).1 =
        (Program.run (hleRead bus dram p) program t).1 ∧
      ∃ caches, (Program.run (hleRead bus dram p) program t).2 = (caches, t.2) ∧
        Steady bus dram p uses (caches, t.2) := by
  induction program generalizing t td with
  | done value => exact ⟨rfl, t.1, rfl, h⟩
  | request op next ih =>
    obtain ⟨hreads, hrest⟩ := hasks
    obtain ⟨⟨caches, hstate, hsteady⟩, hdata⟩ := hleRead_steady hbus hhost op h hreads
    obtain ⟨⟨cachesd, hstated, hsteadyd⟩, hdatad⟩ := hleRead_steady hbus hhost op hd hreads
    have hanswer : (hleRead bus dram p op td).1 = (hleRead bus dram p op t).1 := by
      apply Option.ext
      intro data
      rw [hdata, hdatad, hsame]
    rw [hstate] at hrest
    rw [Program.run, Program.run, hanswer, hstate, hstated]
    exact ih _ hsteady hsteadyd hsame hrest

theorem hleRange_of_limit {va : Word} {len : ℕ} (hlen : len ≠ 0)
    (hlimit : va.toNat + len ≤ oglRectRealLimit) : hleRange va len = true ↔ va ≠ 0 := by
  have hfits : va.toNat + len ≤ 2 ^ 32 := hlimit.trans (by decide)
  simp only [hleRange, Bool.and_eq_true, decide_eq_true_eq]
  tauto

theorem oglRectScanRead_steady (hbus : HleBus bus dram host) (hhost : dram.host = some host)
    (h : Steady bus dram p uses t) (hapart : Apart s.prior)
    (hscratch : ∀ span ∈ s.scratch, (span.src ≠ [] → span.va ≠ 0) ∧
      ∀ i < span.src.length, (userView bus dram host p t.2 (span.va.toNat + i)).isSome)
    (hasks : Program.Asks (hleRead bus dram p) (Reads uses) (oglRectScanRead s op) t) :
    (∃ caches, (Program.run (hleRead bus dram p) (oglRectScanRead s op) t).2 = (caches, t.2) ∧
      Steady bus dram p uses (caches, t.2)) ∧
    ∀ data, (Program.run (hleRead bus dram p) (oglRectScanRead s op) t).1 = some data ↔
      Shows s (written (userView bus dram host p t.2) s.scratch) op data := by
  rw [oglRectScanRead] at hasks ⊢
  split
  · next hzero => exact ⟨⟨t.1, rfl, h⟩, fun data ↦ iff_of_false nofun fun hall ↦ hall.1 hzero⟩
  next hlen =>
  rw [if_neg hlen] at hasks
  simp only [Shows, and_iff_right hlen]
  cases hoperands : s.operands op.va op.len with
  | some known => exact ⟨⟨t.1, rfl, h⟩, fun data ↦ by simp⟩
  | none =>
    simp only [hoperands] at hasks ⊢
    split
    · next hover =>
      exact ⟨⟨t.1, rfl, h⟩, fun data ↦ iff_of_false nofun fun hall ↦ hover.not_ge hall.1⟩
    next hlimit =>
    rw [if_neg hlimit] at hasks
    have hlimit := not_lt.1 hlimit
    simp only [and_iff_right hlimit]
    cases hsearch : s.search op.va op.len with
    | inl known =>
      obtain ⟨⟨span, hspan, hcontained⟩, hwindow⟩ :=
        @search_inl (userView bus dram host p t.2) _ _ _ _ hapart hsearch
      obtain ⟨⟨hle, hend⟩, -⟩ := contained_eq_some.1 hcontained
      have hle : span.va.toNat ≤ op.va.toNat := hle
      have hsrc : span.src ≠ [] := by
        intro hempty
        rw [hempty, length_nil] at hend
        omega
      have hva : op.va ≠ 0 := by
        intro hzero
        have hspanva := (hscratch span hspan).1 hsrc
        rw [hzero] at hle
        exact hspanva (BitVec.eq_of_toNat_eq (Nat.le_zero.1 hle))
      refine ⟨⟨t.1, rfl, h⟩, fun data ↦ ?_⟩
      rw [and_iff_right hva, hwindow]
      simp only [Program.run_pure, Option.some.injEq]
      rw [(map_injective_iff.2 (Option.some_injective Octet)).eq_iff, eq_comm]
    | inr overlapping =>
      rw [hsearch] at hasks
      have hreads : Reads uses op := hasks.1
      obtain ⟨hstate, hdata⟩ := hleRead_steady hbus hhost op h hreads
      refine ⟨hstate, fun data ↦ ?_⟩
      have hrun : (Program.run (hleRead bus dram p) (do
          let data ← Program.ask (I := hleInterface) op
          pure (data.map fun data ↦ if overlapping then s.overlay op.va data else data)) t).1 =
          (hleRead bus dram p op t).1.map
            fun data ↦ if overlapping then s.overlay op.va data else data := rfl
      rw [hrun, Option.map_eq_some_iff]
      simp only [hdata, hleRange_of_limit hlen hlimit]
      constructor
      · rintro ⟨raw, ⟨hva, hraw⟩, rfl⟩
        refine ⟨hva, ?_⟩
        cases overlapping with
        | false => exact hraw.trans (search_inr hsearch).symm
        | true => exact map_overlay s hraw
      · rintro ⟨hva, hshown⟩
        have hgaps : ∀ i < op.len, (userView bus dram host p t.2 (op.va.toNat + i)).isSome := by
          intro i hi
          rw [← isSome_written fun span hspan ↦ (hscratch span hspan).2]
          exact Span.exists_map_some_eq_window.1 ⟨data, hshown⟩ i hi
        obtain ⟨raw, hraw⟩ := Span.exists_map_some_eq_window.2 hgaps
        refine ⟨raw, ⟨hva, hraw⟩, map_injective_iff.2 (Option.some_injective Octet) ?_⟩
        rw [hshown]
        cases overlapping with
        | false => exact hraw.trans (search_inr hsearch).symm
        | true => exact map_overlay s hraw

/-- The facade with nothing in the scratch: the operands, and guest memory as it is. -/
def Shadow.bare (s : Shadow) : Shadow where
  stack := s.stack
  start := s.start
  delta := s.delta
  prior := []
  expectedLen := 0
  expectedWrites := 0

/-- A run on memory as it was at the call, and one on memory with the scratch stored. -/
structure Twin (bus : Bus σ) (dram : Dram) (host : HostPtr) (p : TlbStamp)
    (uses : Word → Access → Prop) (spans : List Span) (t td : Caches × σ) : Prop where
  steady : Steady bus dram p uses t
  kept : Kept bus dram p uses t.2 td
  laid : td.2 = laySpans bus dram host p t.2 spans t.2

theorem word_of_nat {va : Word} {a : ℕ} (ha : va.toNat + a < 2 ^ 32) :
    (va + BitVec.ofNat 32 a).toNat = va.toNat + a := by
  rw [BitVec.toNat_add, BitVec.toNat_ofNat, Nat.add_mod_mod, Nat.mod_eq_of_lt ha]

theorem reads_of_asks (halone : Alone bus dram p base uses dest)
    (hlands : ∀ span ∈ s.scratch, Lands dest span) (hapart : Apart s.prior) (hlen : op.len ≠ 0)
    (hoperands : s.operands op.va op.len = none) (hlimit : ¬oglRectRealLimit < op.va.toNat + op.len)
    (hasks : Program.Asks (hleRead bus dram p) (Reads uses) (oglRectScanRead s op) t) :
    Reads uses op := by
  rw [oglRectScanRead, if_neg hlen, hoperands] at hasks
  simp only [if_neg hlimit] at hasks
  cases hsearch : s.search op.va op.len with
  | inr overlapping =>
    rw [hsearch] at hasks
    exact hasks.1
  | inl known =>
    obtain ⟨⟨span, hspan, hcontained⟩, -⟩ :=
      @search_inl (fun _ ↦ none) _ _ _ _ hapart hsearch
    obtain ⟨⟨hle, hend⟩, -⟩ := contained_eq_some.1 hcontained
    have hle : span.va.toNat ≤ op.va.toNat := hle
    have hfits := (hlands span hspan).fits
    intro i hi
    have hinside := (hlands span hspan).inside (op.va.toNat - span.va.toNat + i) (by omega)
    have heq : span.va + BitVec.ofNat 32 (op.va.toNat - span.va.toNat + i) =
        op.va + BitVec.ofNat 32 i := by
      apply BitVec.eq_of_toNat_eq
      rw [word_of_nat (by omega), word_of_nat (by omega)]
      omega
    rw [heq] at hinside
    exact halone.used _ _ hinside (by decide)

/-- One request of the two runs. -/
theorem Twin.read (hbus : HleBus bus dram host) (hhost : dram.host = some host)
    (h : Twin bus dram host p uses s.scratch t td) (halone : Alone bus dram p t.2 uses dest)
    (hopen : Open bus dram p t.2 dest) (hapart : Apart s.prior)
    (hlands : ∀ span ∈ s.scratch, Lands dest span)
    (hasks : Program.Asks (hleRead bus dram p) (Reads uses) (oglRectScanRead s op) t) :
    (Program.run (hleRead bus dram p) (oglRectScanRead s.bare op) td).1 =
        (Program.run (hleRead bus dram p) (oglRectScanRead s op) t).1 ∧
      ∃ caches cachesd, (Program.run (hleRead bus dram p) (oglRectScanRead s op) t).2 =
          (caches, t.2) ∧
        (Program.run (hleRead bus dram p) (oglRectScanRead s.bare op) td).2 = (cachesd, td.2) ∧
        Twin bus dram host p uses s.scratch (caches, t.2) (cachesd, td.2) := by
  have hscratch : ∀ span ∈ s.scratch, (span.src ≠ [] → span.va ≠ 0) ∧
      ∀ i < span.src.length, (userView bus dram host p t.2 (span.va.toNat + i)).isSome := by
    intro span hspan
    refine ⟨(hlands span hspan).nonzero, fun i hi ↦ ?_⟩
    rw [userView, ofNat_toNat_add, hopen.readPlace ((hlands span hspan).inside i hi)]
    rfl
  obtain ⟨⟨caches, hstate, hsteady⟩, hshows⟩ :=
    oglRectScanRead_steady hbus hhost h.steady hapart hscratch hasks
  have hbare : ∀ span ∈ s.bare.scratch, (span.src ≠ [] → span.va ≠ 0) ∧
      ∀ i < span.src.length, (userView bus dram host p td.2 (span.va.toNat + i)).isSome := by
    intro span hspan
    rw [mem_singleton.1 hspan]
    exact ⟨fun hsome ↦ absurd rfl hsome, fun i hi ↦ absurd hi (Nat.not_lt_zero i)⟩
  have hreads (hlen : op.len ≠ 0) (hoperands : s.operands op.va op.len = none)
      (hlimit : ¬oglRectRealLimit < op.va.toNat + op.len) : Reads uses op :=
    reads_of_asks halone hlands hapart hlen hoperands hlimit hasks
  have hasksd : Program.Asks (hleRead bus dram p) (Reads uses) (oglRectScanRead s.bare op) td := by
    rw [oglRectScanRead]
    split
    · trivial
    next hlen =>
    change Program.Asks _ _ (match s.operands op.va op.len with | some data => _ | none => _) td
    cases hoperands : s.operands op.va op.len with
    | some known => trivial
    | none =>
      simp only
      split
      · trivial
      · next hlimit => exact ⟨hreads hlen hoperands hlimit, trivial⟩
  obtain ⟨⟨cachesd, hstated, hsteadyd⟩, hshowsd⟩ :=
    @oglRectScanRead_steady σ bus dram host p uses td s.bare op hbus hhost h.kept.steady
      List.Pairwise.nil hbare hasksd
  refine ⟨Option.ext fun data ↦ ?_, caches, cachesd, hstate, hstated,
    ⟨hsteady, ⟨hsteadyd, h.kept.words⟩, h.laid⟩⟩
  rw [hshows, hshowsd, Shows, Shows]
  apply and_congr_right
  intro hlen
  change (match s.operands op.va op.len with | some data => _ | none => _) ↔ _
  cases hoperands : s.operands op.va op.len with
  | some known => exact .rfl
  | none =>
    apply and_congr_right
    intro hlimit
    have hused := hreads hlen hoperands (not_lt.2 hlimit)
    have hview : Span.window (written (userView bus dram host p td.2) s.bare.scratch)
        op.va.toNat op.len =
          Span.window (written (userView bus dram host p t.2) s.scratch) op.va.toNat op.len := by
      apply Span.window_congr
      intro i hi
      have hlt : op.va.toNat + i < 2 ^ 32 := by
        have hreal : oglRectRealLimit < 2 ^ 32 := by decide
        omega
      change userView bus dram host p td.2 (op.va.toNat + i) = _
      rw [h.laid]
      exact userView_laySpans hbus halone hopen s.scratch h.steady.kept hlands hlt
        (by rw [ofNat_toNat_add]; exact hused i hi)
    rw [hview]

theorem Twin.run (hbus : HleBus bus dram host) (hhost : dram.host = some host)
    {α : Type} (routine : Program hleInterface α)
    (h : Twin bus dram host p uses s.scratch t td) (halone : Alone bus dram p t.2 uses dest)
    (hopen : Open bus dram p t.2 dest) (hapart : Apart s.prior)
    (hlands : ∀ span ∈ s.scratch, Lands dest span)
    (hasks : Program.Asks (hleRead bus dram p) (Reads uses)
      (Program.translate (I := hleInterface) (oglRectScanRead s) routine) t) :
    (Program.run (hleRead bus dram p)
        (Program.translate (I := hleInterface) (oglRectScanRead s.bare) routine) td).1 =
        (Program.run (hleRead bus dram p)
          (Program.translate (I := hleInterface) (oglRectScanRead s) routine) t).1 ∧
      ∃ caches cachesd, (Program.run (hleRead bus dram p)
          (Program.translate (I := hleInterface) (oglRectScanRead s) routine) t).2 = (caches, t.2) ∧
        (Program.run (hleRead bus dram p)
          (Program.translate (I := hleInterface) (oglRectScanRead s.bare) routine) td).2 =
            (cachesd, td.2) ∧
        Twin bus dram host p uses s.scratch (caches, t.2) (cachesd, td.2) := by
  induction routine generalizing t td with
  | done value => exact ⟨rfl, t.1, td.1, rfl, rfl, h⟩
  | request op next ih =>
    rw [Program.translate, Program.asks_bind] at hasks
    obtain ⟨hanswer, caches, cachesd, hstate, hstated, htwin⟩ :=
      h.read hbus hhost halone hopen hapart hlands hasks.1
    have hrest := hasks.2
    rw [Program.translate, Program.translate, Program.run_bind, Program.run_bind, hanswer, hstate,
      hstated]
    rw [hstate] at hrest
    exact ih _ htwin halone hopen hrest

end Facade

end S5LBox.Hle
