import S5LBox.App.HleShadow

/-!
# The rectangle drawn directly

The same scanline on guest memory: each chunk reads memory as the chunks before it left it, and
publishes its span before the next one starts. Only its operands are made up, as the root's are.
-/

namespace S5LBox.Hle

open List S5LBox.Arm

variable {σ : Type} (fpu : HostFpu) (bus : Bus σ) (dram : Dram) (p : TlbStamp)

/-- The operands of the call that draws the pixels of a row from `offset` on. -/
def Row.called (row : Row) (offset : ℕ) : Shadow where
  stack := row.stack
  start := startOctets (oglRectAdvancedStart fpu row.u row.du offset) row.v
  delta := row.delta
  prior := []
  expectedLen := 0
  expectedWrites := 0

def directChunk (row : Row) (chunk : ℕ × ℕ) (t : Caches × σ) : Bool × Caches × σ :=
  match Program.run (hleRead bus dram p) (shadowed (row.called fpu chunk.1)
      (hleSwScanlineKnownPaths fpu true (row.regs chunk.1 chunk.2))).run t with
  | (none, t) => (false, t)
  | (some spans, t) => hlePublishSpans bus dram p spans t

def directChunks (row : Row) : List (ℕ × ℕ) → Caches × σ → Bool × Caches × σ
  | [], t => (true, t)
  | chunk :: rest, t =>
    match directChunk fpu bus dram p row chunk t with
    | (false, t) => (false, t)
    | (true, t) => directChunks row rest t

/-- The rows that are left, in chunks where the texture asks for them. -/
def directRows (rect : Rect) (split : Bool) :
    (left index : ℕ) → (v : Word) → Caches × σ → Bool × Caches × σ
  | 0, _, _, t => (true, t)
  | left + 1, index, v, t =>
    match directChunks fpu bus dram p (rect.row index v) (rowChunks rect.width split) t with
    | (false, t) => (false, t)
    | (true, t) =>
      directRows rect split left (index + 1)
        (if rect.mask = 0x0308 then oglRectAdvancedStart fpu v rect.dv 1 else v) t

/-- Whether the rows of a rectangle are drawn in two chunks. -/
def Rect.split (rect : Rect) : Routine Bool :=
  if swScanlineChunkMax < rect.width then oglRectTexturedChunks rect.ctx rect.mask rect.width
  else pure false

/-- The rectangle a call describes, drawn directly. -/
def directRect (r : Reg → Word) (t : Caches × σ) : Bool × Caches × σ :=
  match Program.run (hleRead bus dram p) (readRect fpu r).run t with
  | (none, t) => (false, t)
  | (some rect, t) =>
    let split := (Program.run (hleRead bus dram p) rect.split.run t).1.getD false
    directRows fpu bus dram p rect split rect.height 0 rect.v t

section Routines

variable {fpu bus dram p} {α β : Type} {τ : Type} {handler : Program.Handler hleInterface τ}
  {good : ReadOp → Prop} {first : Routine α} {next : α → Routine β} {s s' : τ}

/-- A sequence that does not refuse is two routines that do not. -/
theorem run_bind_some {b : β} : Program.run handler (first >>= next).run s = (some b, s') ↔
      ∃ a middle, Program.run handler first.run s = (some a, middle) ∧
        Program.run handler (next a).run middle = (some b, s') := by
  have hrun : Program.run handler (first >>= next).run s =
      Program.run handler ((Program.run handler first.run s).1.elim (pure none) fun a ↦ (next a).run)
        (Program.run handler first.run s).2 := by
    rw [OptionT.run_bind, Option.elimM, Program.run_bind]
  rw [hrun]
  generalize Program.run handler first.run s = done
  obtain ⟨_ | a, middle⟩ := done
  · constructor
    · intro h
      exact absurd (congrArg Prod.fst h) (Option.some_ne_none b).symm
    · rintro ⟨a, middle, h, -⟩
      exact absurd (congrArg Prod.fst h) (Option.some_ne_none a).symm
  · constructor
    · intro h
      exact ⟨a, middle, rfl, h⟩
    · rintro ⟨a, middle, h, hnext⟩
      cases h
      exact hnext

theorem asks_bind_some {a : α} {middle : τ} (h : Program.Asks handler good (first >>= next).run s)
    (hfirst : Program.run handler first.run s = (some a, middle)) :
    Program.Asks handler good first.run s ∧ Program.Asks handler good (next a).run middle := by
  rw [OptionT.run_bind, Option.elimM, Program.asks_bind, hfirst] at h
  exact h

theorem run_require_some {condition : Bool} {u : Unit} :
    Program.run handler (require condition).run s = (some u, s') ↔ condition = true ∧ s = s' := by
  cases condition with
  | false =>
    refine iff_of_false (fun h ↦ ?_) nofun
    have hnone := congrArg Prod.fst h
    contradiction
  | true =>
    rw [and_iff_right rfl]
    exact ⟨fun h ↦ congrArg Prod.snd h, fun h ↦ congrArg (some u, ·) h⟩

theorem run_pure_some {a b : α} :
    Program.run handler (pure a : Routine α).run s = (some b, s') ↔ a = b ∧ s = s' := by
  change (some a, s) = (some b, s') ↔ _
  rw [Prod.mk.injEq, Option.some.injEq]

theorem run_mk_some {a : α} {value : Option α} :
    Program.run handler (OptionT.mk (pure value) : Routine α).run s = (some a, s') ↔
      value = some a ∧ s = s' := by
  change (value, s) = (some a, s') ↔ _
  rw [Prod.mk.injEq]

end Routines

section Caught

variable {s s' : Shadow} {span : Span} {spans : List Span}

/-- The scratch after it caught some spans: they lie one after the other from where the current row
starts. -/
structure Caught (s : Shadow) (spans : List Span) (s' : Shadow) : Prop where
  same : s'.stack = s.stack ∧ s'.delta = s.delta ∧ s'.prior = s.prior ∧
    s'.expectedWrites = s.expectedWrites
  opened : s'.writes = 0 → s'.current.src = []
  count : spans = [] ∨ s.writes + spans.length ≤ s.expectedWrites
  written : s'.writes = s.writes + spans.length
  sources : ∀ span ∈ spans, span.src ≠ []
  lands : ∀ dest, Lands dest s'.current → Lands dest s.current ∧ ∀ span ∈ spans, Lands dest span
  lays : ∀ (σ : Type) (bus : Bus σ) dram host p base ctx,
    laySpans bus dram host p base [s'.current] ctx =
      laySpans bus dram host p base spans (laySpans bus dram host p base [s.current] ctx)

theorem caught_nil (hopened : s.writes = 0 → s.current.src = []) : Caught s [] s where
  same := ⟨rfl, rfl, rfl, rfl⟩
  opened := hopened
  count := .inl rfl
  written := rfl
  sources _ hspan := absurd hspan not_mem_nil
  lands _ h := ⟨h, fun _ hspan ↦ absurd hspan not_mem_nil⟩
  lays _ _ _ _ _ _ _ := rfl

theorem Caught.trans {middle : Shadow} {rest : List Span} (h : Caught s [span] middle)
    (hrest : Caught middle rest s') : Caught s (span :: rest) s' where
  same := by
    obtain ⟨hstack, hdelta, hprior, hexpected⟩ := hrest.same
    obtain ⟨hstack', hdelta', hprior', hexpected'⟩ := h.same
    exact ⟨hstack.trans hstack', hdelta.trans hdelta', hprior.trans hprior',
      hexpected.trans hexpected'⟩
  opened := hrest.opened
  count := by
    have hcount := h.count.resolve_left (cons_ne_nil _ _)
    rw [length_singleton] at hcount
    right
    rcases hrest.count with hnil | hlength
    · rw [hnil, length_singleton]
      exact hcount
    · rw [h.written, h.same.2.2.2, length_singleton] at hlength
      rw [length_cons]
      omega
  written := by
    rw [hrest.written, h.written, length_singleton, length_cons]
    omega
  sources := forall_mem_cons.2 ⟨h.sources span (mem_singleton_self _), hrest.sources⟩
  lands dest hlands := by
    obtain ⟨hmiddle, hall⟩ := hrest.lands dest hlands
    obtain ⟨hfirst, hspan⟩ := h.lands dest hmiddle
    exact ⟨hfirst, forall_mem_cons.2 ⟨hspan span (mem_singleton_self _), hall⟩⟩
  lays σ bus dram host p base ctx := by
    rw [hrest.lays, h.lays]
    rfl

theorem place_of_write (h : oglRectScanWrite s span = some s')
    (hopened : s.writes = 0 → s.current.src = []) :
    span.va.toNat = s'.current.va.toNat + s.current.src.length ∧
      (s.current.src ≠ [] → s'.current.va = s.current.va) := by
  rw [oglRectScanWrite] at h
  split at h
  · contradiction
  split at h
  · contradiction
  next hnext =>
  rw [Option.some.injEq] at h
  subst h
  simp only
  by_cases hfirst : s.writes = 0
  · rw [if_pos hfirst, hopened hfirst]
    exact ⟨rfl, fun hne ↦ absurd rfl hne⟩
  · rw [if_neg hfirst]
    exact ⟨(not_not.1 fun hne ↦ hnext ⟨hfirst, hne⟩).symm, fun _ ↦ rfl⟩

theorem lands_of_write {dest : Word → Prop} (hsrc : s'.current.src = s.current.src ++ span.src)
    (hva : span.va.toNat = s'.current.va.toNat + s.current.src.length)
    (hsame : s.current.src ≠ [] → s'.current.va = s.current.va)
    (h : Lands dest s'.current) : Lands dest s.current ∧ Lands dest span := by
  have hfits := h.fits
  rw [hsrc, length_append] at hfits
  constructor
  · by_cases hempty : s.current.src = []
    · refine ⟨fun hne ↦ absurd hempty hne, ?_, fun i hi ↦ ?_⟩
      · rw [hempty]
        exact s.current.va.isLt.le
      · rw [hempty] at hi
        contradiction
    · have hbase := hsame hempty
      refine ⟨fun _ ↦ ?_, ?_, fun i hi ↦ ?_⟩
      · rw [← hbase]
        exact h.nonzero (by simp [hsrc, hempty])
      · rw [← hbase]
        omega
      · rw [← hbase]
        exact h.inside i (by rw [hsrc, length_append]; omega)
  · refine ⟨fun hne hzero ↦ ?_, by omega, fun i hi ↦ ?_⟩
    · have hnonzero := h.nonzero (by simp [hsrc, hne])
      rw [hzero] at hva
      have hnat : (0 : Word).toNat = 0 := rfl
      exact hnonzero (BitVec.eq_of_toNat_eq (by omega))
    · have hinside := h.inside (s.current.src.length + i)
        (by rw [hsrc, length_append]; omega)
      have heq : s'.current.va + BitVec.ofNat 32 (s.current.src.length + i) =
          span.va + BitVec.ofNat 32 i := by
        apply BitVec.eq_of_toNat_eq
        rw [word_of_nat (by omega), word_of_nat (by omega)]
        omega
      rwa [heq] at hinside

theorem caught_of_write (h : oglRectScanWrite s span = some s')
    (hopened : s.writes = 0 → s.current.src = []) : Caught s [span] s' := by
  obtain ⟨hva, hsame⟩ := place_of_write h hopened
  have hsrc : s'.current.src = s.current.src ++ span.src ∧ s'.writes = s.writes + 1 ∧
      span.src ≠ [] ∧ s.writes < s.expectedWrites ∧ s'.stack = s.stack ∧ s'.delta = s.delta ∧
      s'.prior = s.prior ∧ s'.expectedWrites = s.expectedWrites := by
    rw [oglRectScanWrite] at h
    split at h
    · contradiction
    next hrefused =>
    split at h
    · contradiction
    rw [Option.some.injEq] at h
    subst h
    exact ⟨rfl, rfl, fun hnil ↦ hrefused (.inl hnil),
      not_le.1 fun hle ↦ hrefused (.inr (.inr (.inl hle))), rfl, rfl, rfl, rfl⟩
  obtain ⟨hsrc, hwrites, hspan, hcount, hstack, hdelta, hprior, hexpected⟩ := hsrc
  refine ⟨⟨hstack, hdelta, hprior, hexpected⟩, fun hzero ↦ ?_, .inr hcount, hwrites, ?_, ?_, ?_⟩
  · omega
  · exact forall_mem_singleton.2 hspan
  · intro dest hlands
    obtain ⟨hcurrent, hlands⟩ := lands_of_write hsrc hva hsame hlands
    exact ⟨hcurrent, forall_mem_singleton.2 hlands⟩
  · intro σ bus dram host p base ctx
    have hstart : span.va = s'.current.va + BitVec.ofNat 32 s.current.src.length := by
      apply BitVec.eq_of_toNat_eq
      rw [word_of_nat (by have := span.va.isLt; omega), hva]
    change layOctets bus dram host p base s'.current.va s'.current.src 0 ctx =
      layOctets bus dram host p base span.va span.src 0
        (layOctets bus dram host p base s.current.va s.current.src 0 ctx)
    rw [hsrc, layOctets_append, hstart, layOctets_shift, Nat.zero_add, Nat.add_zero]
    by_cases hempty : s.current.src = []
    · rw [hempty]
      rfl
    · rw [hsame hempty]

theorem caught_of_writes (h : spans.foldlM oglRectScanWrite s = some s')
    (hopened : s.writes = 0 → s.current.src = []) : Caught s spans s' := by
  induction spans generalizing s with
  | nil =>
    rw [foldlM_nil] at h
    cases h
    exact caught_nil hopened
  | cons span rest ih =>
    rw [foldlM_cons, Option.bind_eq_bind, Option.bind_eq_some_iff] at h
    obtain ⟨middle, hwrite, hrest⟩ := h
    have hcaught := caught_of_write hwrite hopened
    exact hcaught.trans (ih hrest hcaught.opened)

end Caught

section Simulation

variable {fpu bus dram p} {host : HostPtr} {uses : Word → Access → Prop} {dest : Word → Prop}
  {t td t' : Caches × σ} {row : Row} {s s' : Shadow}

/-- The scratch of a row that is being drawn. -/
structure Drawing (row : Row) (dest : Word → Prop) (s : Shadow) : Prop where
  stack : s.stack = row.stack
  delta : s.delta = row.delta
  chunks : s.expectedWrites ≤ 2
  opened : s.writes = 0 → s.current.src = []
  apart : Apart s.prior
  lands : ∀ span ∈ s.prior, Lands dest span

theorem Drawing.caught {spans : List Span} (h : Drawing row dest s) (hcaught : Caught s spans s') :
    Drawing row dest s' where
  stack := hcaught.same.1.trans h.stack
  delta := hcaught.same.2.1.trans h.delta
  chunks := hcaught.same.2.2.2.le.trans h.chunks
  opened := hcaught.opened
  apart := hcaught.same.2.2.1 ▸ h.apart
  lands := hcaught.same.2.2.1 ▸ h.lands

theorem Drawing.scratch (h : Drawing row dest s) (hcurrent : Lands dest s.current) :
    ∀ span ∈ s.scratch, Lands dest span :=
  forall_mem_append.2 ⟨h.lands, forall_mem_singleton.2 hcurrent⟩

/-- What is relied on of the memory a call is made on, and of where it draws. -/
structure Setting (bus : Bus σ) (dram : Dram) (host : HostPtr) (p : TlbStamp) (base : σ)
    (uses : Word → Access → Prop) (dest : Word → Prop) : Prop where
  laws : HleBus bus dram host
  mapped : dram.host = some host
  alone : Alone bus dram p base uses dest
  granted : Open bus dram p base dest

theorem renderChunk_direct {chunk : ℕ × ℕ} (hdraw : Drawing row dest s)
    (hrun : Program.run (hleRead bus dram p) (renderChunk fpu row s chunk).run t = (some s', t'))
    (hasks : Program.Asks (hleRead bus dram p) (Reads uses) (renderChunk fpu row s chunk).run t) :
    Drawing row dest s' ∧ s'.prior = s.prior ∧ (Lands dest s'.current → Lands dest s.current ∧
      ∀ td, Twin bus dram host p uses s.scratch t td → Setting bus dram host p t.2 uses dest →
        t'.2 = t.2 ∧ ∃ td', directChunk fpu bus dram p row chunk td = (true, td') ∧
          Twin bus dram host p uses s'.scratch t' td') := by
  rw [renderChunk] at hrun hasks
  obtain ⟨spans, middle, hscan, hcatch⟩ := run_bind_some.1 hrun
  obtain ⟨hwrites, rfl⟩ := run_mk_some.1 hcatch
  obtain ⟨hasks, -⟩ := asks_bind_some hasks hscan
  have hcaught := caught_of_writes hwrites hdraw.opened
  have hstarted : Drawing row dest
      { s with start := startOctets (oglRectAdvancedStart fpu row.u row.du chunk.1) row.v } :=
    ⟨hdraw.stack, hdraw.delta, hdraw.chunks, hdraw.opened, hdraw.apart, hdraw.lands⟩
  have hcalled : Shadow.bare
      { s with start := startOctets (oglRectAdvancedStart fpu row.u row.du chunk.1) row.v } =
        row.called fpu chunk.1 := by
    rw [Shadow.bare, Row.called, hdraw.stack, hdraw.delta]
  have hscratch : s.scratch = Shadow.scratch
      { s with start := startOctets (oglRectAdvancedStart fpu row.u row.du chunk.1) row.v } := rfl
  have hprior : s'.prior = s.prior := hcaught.same.2.2.1
  have hlays (ctx : σ) : laySpans bus dram host p t.2 [s'.current] ctx =
      laySpans bus dram host p t.2 spans (laySpans bus dram host p t.2 [s.current] ctx) :=
    hcaught.lays σ bus dram host p t.2 ctx
  refine ⟨hstarted.caught hcaught, hprior, fun hlands ↦ ?_⟩
  obtain ⟨hcurrent, hspans⟩ := hcaught.lands dest hlands
  refine ⟨hcurrent, fun td htwin hsetting ↦ ?_⟩
  have hlaid := htwin.laid
  rw [Shadow.scratch, laySpans_append] at hlaid
  have hall := hstarted.scratch hcurrent
  rw [hscratch] at htwin
  generalize { s with start := startOctets (oglRectAdvancedStart fpu row.u row.du chunk.1) row.v } =
    started at *
  obtain ⟨hanswer, caches, cachesd, hstate, hstated, htwin⟩ :=
    Twin.run hsetting.laws hsetting.mapped _ htwin hsetting.alone hsetting.granted hstarted.apart
      hall hasks
  rw [shadowed, OptionT.run_mk] at hscan
  rw [hscan] at hanswer hstate
  have hmiddle : middle = (caches, t.2) := hstate
  subst hmiddle
  refine ⟨rfl, ?_⟩
  rw [hcalled] at hanswer hstated
  have hlength : spans.length ≤ oracleMaxSpans := by
    have hchunks := hstarted.chunks
    have hmax : 2 ≤ oracleMaxSpans := by decide
    rcases hcaught.count with hnil | hcount
    · rw [hnil]
      exact Nat.zero_le _
    · exact (Nat.le_add_left _ _).trans (hcount.trans (hchunks.trans hmax))
  obtain ⟨after, hpublish, hkept⟩ := hlePublishSpans_lays hsetting.laws hsetting.mapped hsetting.alone
    hsetting.granted spans htwin.kept hlength hspans hcaught.sources
  refine ⟨(after, laySpans bus dram host p t.2 spans td.2), ?_, htwin.steady, hkept, ?_⟩
  · have hdirect : Program.run (hleRead bus dram p) (shadowed (row.called fpu chunk.1)
        (hleSwScanlineKnownPaths fpu true (row.regs chunk.1 chunk.2))).run td =
          (some spans, cachesd, td.2) := by
      rw [shadowed, OptionT.run_mk]
      exact Prod.ext hanswer hstated
    unfold directChunk
    rw [hdirect]
    exact hpublish
  · rw [Shadow.scratch, laySpans_append, hprior, hlays, hlaid]

theorem directChunks_cons {chunk : ℕ × ℕ} {rest : List (ℕ × ℕ)}
    (h : directChunk fpu bus dram p row chunk t = (true, t')) :
    directChunks fpu bus dram p row (chunk :: rest) t =
      directChunks fpu bus dram p row rest t' := by
  change (match directChunk fpu bus dram p row chunk t with
    | (false, t) => (false, t)
    | (true, t) => directChunks fpu bus dram p row rest t) = _
  rw [h]

theorem renderChunks_direct (chunks : List (ℕ × ℕ)) (hdraw : Drawing row dest s)
    (hrun : Program.run (hleRead bus dram p) (chunks.foldlM (renderChunk fpu row) s).run t =
      (some s', t'))
    (hasks : Program.Asks (hleRead bus dram p) (Reads uses)
      (chunks.foldlM (renderChunk fpu row) s).run t) :
    s'.prior = s.prior ∧ (Lands dest s'.current → Lands dest s.current ∧
      ∀ td, Twin bus dram host p uses s.scratch t td → Setting bus dram host p t.2 uses dest →
        t'.2 = t.2 ∧ ∃ td', directChunks fpu bus dram p row chunks td = (true, td') ∧
          Twin bus dram host p uses s'.scratch t' td') := by
  induction chunks generalizing s t with
  | nil =>
    rw [foldlM_nil] at hrun
    obtain ⟨rfl, rfl⟩ := run_pure_some.1 hrun
    exact ⟨rfl, fun hlands ↦ ⟨hlands, fun td htwin _ ↦ ⟨rfl, td, rfl, htwin⟩⟩⟩
  | cons chunk rest ih =>
    rw [foldlM_cons] at hrun hasks
    obtain ⟨first, middle, hfirst, hrest⟩ := run_bind_some.1 hrun
    obtain ⟨hasksFirst, hasksRest⟩ := asks_bind_some hasks hfirst
    obtain ⟨hdrawn, hprior, hchunk⟩ := @renderChunk_direct _ _ _ _ _ host _ _ _ _ _ _ _ _ hdraw
      hfirst hasksFirst
    obtain ⟨hpriorRest, hchunks⟩ := ih hdrawn hrest hasksRest
    refine ⟨hpriorRest.trans hprior, fun hlands ↦ ?_⟩
    obtain ⟨hmiddle, hdirectRest⟩ := hchunks hlands
    obtain ⟨hcurrent, hdirect⟩ := hchunk hmiddle
    refine ⟨hcurrent, fun td htwin hsetting ↦ ?_⟩
    obtain ⟨hctx, after, hafter, htwinAfter⟩ := hdirect td htwin hsetting
    rw [← hctx] at hsetting
    obtain ⟨hctx', last, hlast, htwinLast⟩ := hdirectRest after htwinAfter hsetting
    exact ⟨hctx'.trans hctx, last, (directChunks_cons hafter).trans hlast, htwinLast⟩

theorem length_rowChunks (count : ℕ) (split : Bool) : (rowChunks count split).length ≤ 2 := by
  rw [rowChunks]
  split
  · exact le_rfl
  · exact Nat.le_succ 1

variable {rect : Rect} {prior spans : List Span} {split : Bool} {t₁ : Caches × σ}

theorem oglRectRenderRow_eq (rect : Rect) (index : ℕ) (v : Word) (prior : List Span) :
    oglRectRenderRow fpu (rect.row index v) prior = (rect.split >>= fun split ↦ do
      let chunks := rowChunks rect.width split
      let s ← chunks.foldlM (renderChunk fpu (rect.row index v))
        ((rect.row index v).shadow prior chunks.length)
      require (s.writes = chunks.length && s.current.src.length = s.expectedLen)
      pure s.current) := by
  unfold oglRectRenderRow Rect.split
  by_cases h : swScanlineChunkMax < rect.width
  · have hcount : swScanlineChunkMax < (rect.row index v).count := h
    rw [if_pos h, if_pos hcount]
    rfl
  · have hcount : ¬swScanlineChunkMax < (rect.row index v).count := h
    rw [if_neg h, if_neg hcount]
    rfl

/-- A row through the facade and the same row on the memory it shows. How it is split was read from
the memory at the call, and does not change while nothing is stored. -/
theorem oglRectRenderRow_direct {index : ℕ} {v : Word} {span : Span} (hapart : Apart prior)
    (hprior : ∀ span ∈ prior, Lands dest span) (h₁ : Steady bus dram p uses t₁) (hsame : t₁.2 = t.2)
    (hsplit : (Program.run (hleRead bus dram p) rect.split.run t₁).1.getD false = split)
    (hrun : Program.run (hleRead bus dram p)
      (oglRectRenderRow fpu (rect.row index v) prior).run t = (some span, t'))
    (hasks : Program.Asks (hleRead bus dram p) (Reads uses)
      (oglRectRenderRow fpu (rect.row index v) prior).run t)
    (hlands : Lands dest span) (htwin : Twin bus dram host p uses prior t td)
    (hsetting : Setting bus dram host p t.2 uses dest) :
    t'.2 = t.2 ∧ ∃ td', directChunks fpu bus dram p (rect.row index v)
        (rowChunks rect.width split) td = (true, td') ∧
      Twin bus dram host p uses (prior ++ [span]) t' td' := by
  rw [oglRectRenderRow_eq] at hrun hasks
  obtain ⟨decided, read, hread, hrun⟩ := run_bind_some.1 hrun
  obtain ⟨hasksSplit, hasks⟩ := asks_bind_some hasks hread
  obtain ⟨hanswer, caches, hstate, hsteady⟩ :=
    run_steady hsetting.laws hsetting.mapped _ htwin.steady h₁ hsame hasksSplit
  rw [hread] at hanswer hstate
  have hread : read = (caches, t.2) := hstate
  subst hread
  rw [hanswer, Option.getD_some] at hsplit
  subst hsplit
  obtain ⟨s, drawn, hchunks, hrun⟩ := run_bind_some.1 hrun
  obtain ⟨hasksChunks, -⟩ := asks_bind_some hasks hchunks
  obtain ⟨u, checked, hcheck, hspan⟩ := run_bind_some.1 hrun
  obtain ⟨-, rfl⟩ := run_require_some.1 hcheck
  obtain ⟨rfl, rfl⟩ := run_pure_some.1 hspan
  have hdraw : Drawing (rect.row index v) dest
      ((rect.row index v).shadow prior (rowChunks rect.width decided).length) :=
    ⟨rfl, rfl, length_rowChunks _ _, fun _ ↦ rfl, hapart, hprior⟩
  obtain ⟨hsamePrior, hdirect⟩ := @renderChunks_direct _ _ _ _ _ host _ _ _ _ _ _ _ _ hdraw
    hchunks hasksChunks
  obtain ⟨-, hdirect⟩ := hdirect hlands
  have hlaid := htwin.laid
  obtain ⟨hctx, after, hafter, htwinAfter⟩ := hdirect td ⟨hsteady, htwin.kept, by
    rw [hlaid, Shadow.scratch, laySpans_append]
    rfl⟩ hsetting
  rw [Shadow.scratch, hsamePrior] at htwinAfter
  exact ⟨hctx, after, hafter, htwinAfter⟩

theorem directRows_succ {left index : ℕ} {v : Word}
    (h : directChunks fpu bus dram p (rect.row index v) (rowChunks rect.width split) t =
      (true, t')) :
    directRows fpu bus dram p rect split (left + 1) index v t =
      directRows fpu bus dram p rect split left (index + 1)
        (if rect.mask = 0x0308 then oglRectAdvancedStart fpu v rect.dv 1 else v) t' := by
  change (match directChunks fpu bus dram p (rect.row index v) (rowChunks rect.width split) t with
    | (false, t) => (false, t)
    | (true, t) => directRows fpu bus dram p rect split left (index + 1) _ t) = _
  rw [h]

theorem rangesOverlap_comm (a : Word) (alen : ℕ) (b : Word) (blen : ℕ) :
    rangesOverlap a alen b blen = rangesOverlap b blen a alen := by
  rw [rangesOverlap, rangesOverlap, Bool.and_comm]

theorem renderRows_succ_some {left : ℕ} {v : Word}
    (hrun : Program.run (hleRead bus dram p) (renderRows fpu rect (left + 1) v prior).run t =
      (some spans, t')) :
    ∃ span drawn, Program.run (hleRead bus dram p)
        (oglRectRenderRow fpu (rect.row prior.length v) prior).run t = (some span, drawn) ∧
      (∀ earlier ∈ prior,
        rangesOverlap earlier.va earlier.src.length span.va span.src.length = false) ∧
      Program.run (hleRead bus dram p) (renderRows fpu rect left
        (if rect.mask = 0x0308 then oglRectAdvancedStart fpu v rect.dv 1 else v)
        (prior ++ [span])).run drawn = (some spans, t') ∧
      (Program.Asks (hleRead bus dram p) (Reads uses)
          (renderRows fpu rect (left + 1) v prior).run t →
        Program.Asks (hleRead bus dram p) (Reads uses)
          (oglRectRenderRow fpu (rect.row prior.length v) prior).run t ∧
        Program.Asks (hleRead bus dram p) (Reads uses) (renderRows fpu rect left
          (if rect.mask = 0x0308 then oglRectAdvancedStart fpu v rect.dv 1 else v)
          (prior ++ [span])).run drawn) := by
  rw [renderRows] at hrun ⊢
  obtain ⟨span, drawn, hrow, hrun⟩ := run_bind_some.1 hrun
  obtain ⟨u, checked, hlength, hrun⟩ := run_bind_some.1 hrun
  obtain ⟨-, rfl⟩ := run_require_some.1 hlength
  obtain ⟨w, checked, hcheck, hrun⟩ := run_bind_some.1 hrun
  obtain ⟨hdisjoint, rfl⟩ := run_require_some.1 hcheck
  refine ⟨span, drawn, hrow, fun earlier hearlier ↦ ?_, hrun, fun hasks ↦ ?_⟩
  · rw [rangesOverlap_comm]
    simpa using all_eq_true.1 hdisjoint earlier hearlier
  · obtain ⟨hasksRow, hasks⟩ := asks_bind_some hasks hrow
    obtain ⟨-, hasks⟩ := asks_bind_some hasks hlength
    exact ⟨hasksRow, (asks_bind_some hasks hcheck).2⟩

theorem renderRows_append {left : ℕ} {v : Word}
    (hrun : Program.run (hleRead bus dram p) (renderRows fpu rect left v prior).run t =
      (some spans, t')) : ∃ rest, spans = prior ++ rest := by
  induction left generalizing v prior t with
  | zero =>
    obtain ⟨rfl, rfl⟩ := run_pure_some.1 hrun
    exact ⟨[], (append_nil _).symm⟩
  | succ left ih =>
    obtain ⟨span, drawn, -, -, hrest, -⟩ := @renderRows_succ_some _ _ _ _ _
      (fun _ _ ↦ True) _ _ _ _ _ _ _ hrun
    obtain ⟨rest, hspans⟩ := ih hrest
    exact ⟨span :: rest, by rw [hspans, append_assoc, singleton_append]⟩

theorem renderRows_direct {left : ℕ} {v : Word} (hapart : Apart prior)
    (h₁ : Steady bus dram p uses t₁) (hsame : t₁.2 = t.2)
    (hsplit : (Program.run (hleRead bus dram p) rect.split.run t₁).1.getD false = split)
    (hrun : Program.run (hleRead bus dram p) (renderRows fpu rect left v prior).run t =
      (some spans, t'))
    (hasks : Program.Asks (hleRead bus dram p) (Reads uses)
      (renderRows fpu rect left v prior).run t)
    (hlands : ∀ span ∈ spans, Lands dest span) (htwin : Twin bus dram host p uses prior t td)
    (hsetting : Setting bus dram host p t.2 uses dest) :
    t'.2 = t.2 ∧ ∃ td', directRows fpu bus dram p rect split left prior.length v td =
      (true, td') ∧ Twin bus dram host p uses spans t' td' := by
  induction left generalizing v prior t td with
  | zero =>
    obtain ⟨rfl, rfl⟩ := run_pure_some.1 hrun
    exact ⟨rfl, td, rfl, htwin⟩
  | succ left ih =>
    obtain ⟨span, drawn, hrow, hdisjoint, hrest, hasked⟩ := renderRows_succ_some hrun
    obtain ⟨hasksRow, hasksRest⟩ := hasked hasks
    obtain ⟨rest, hspans⟩ := renderRows_append hrest
    have hdrawn : ∀ span' ∈ prior ++ [span], Lands dest span' :=
      fun span' hmem ↦ hlands span' (hspans ▸ mem_append_left _ hmem)
    have hapartRow : Apart (prior ++ [span]) := by
      refine pairwise_append.2 ⟨hapart, pairwise_singleton _ _, ?_⟩
      intro earlier hearlier last hlast
      rw [mem_singleton.1 hlast]
      exact hdisjoint earlier hearlier
    obtain ⟨hctx, after, hafter, htwinAfter⟩ := oglRectRenderRow_direct hapart
      (fun span' hmem ↦ hdrawn span' (mem_append_left _ hmem)) h₁ hsame hsplit hrow hasksRow
      (hdrawn span (mem_append_right _ (mem_singleton_self _))) htwin hsetting
    rw [← hctx] at hsame hsetting
    obtain ⟨hctxRest, last, hlast, htwinLast⟩ :=
      ih hapartRow hsame hrest hasksRest htwinAfter hsetting
    refine ⟨hctxRest.trans hctx, last, ?_, htwinLast⟩
    rw [length_append, length_singleton] at hlast
    exact (directRows_succ hafter).trans hlast

theorem directRect_lays {r : Reg → Word} (hsteady : Steady bus dram p uses t)
    (hrun : Program.run (hleRead bus dram p) (hleOglPolyScanKnownRect fpu r).run t =
      (some spans, t'))
    (hasks : Program.Asks (hleRead bus dram p) (Reads uses) (hleOglPolyScanKnownRect fpu r).run t)
    (hlands : ∀ span ∈ spans, Lands dest span) (hsetting : Setting bus dram host p t.2 uses dest) :
    ∃ caches, directRect fpu bus dram p r t =
      (true, caches, laySpans bus dram host p t.2 spans t.2) := by
  rw [hleOglPolyScanKnownRect] at hrun hasks
  obtain ⟨rect, read, hread, hrows⟩ := run_bind_some.1 hrun
  obtain ⟨hasksRead, hasksRows⟩ := asks_bind_some hasks hread
  obtain ⟨-, caches, hstate, hafter⟩ :=
    run_steady hsetting.laws hsetting.mapped _ hsteady hsteady rfl hasksRead
  rw [hread] at hstate
  have hstate : read = (caches, t.2) := hstate
  subst hstate
  obtain ⟨hctx, after, hdirect, htwin⟩ := renderRows_direct List.Pairwise.nil hafter rfl rfl hrows
    hasksRows hlands ⟨hafter, hafter.kept, rfl⟩ hsetting
  have hlaid : after.2 = laySpans bus dram host p t.2 spans t.2 := by
    rw [htwin.laid, hctx]
  refine ⟨after.1, ?_⟩
  rw [← hlaid]
  unfold directRect
  rw [hread]
  exact hdirect

end Simulation

end S5LBox.Hle
