import S5LBox.Word

/-!
# The block allocator

`catalog_bitmap_test` and `catalog_bitmap_alloc` of `rootfs_work.c`: one pass over the allocation
bitmap that begins at the cursor, wraps at the end of the volume and forgets its run there.
-/

namespace S5LBox.Tools

/-- `catalog_ctx_t`, as far as the allocator reads and writes it. -/
structure CatalogCtx where
  bitmap : List Octet
  bitmapDirty : Bool
  totalBlocks : ℕ
  freeBlocks : ℕ
  nextAlloc : ℕ

/-- `catalog_bitmap_test`: a block beyond the bitmap counts as used. -/
def catalogBitmapTest (ctx : CatalogCtx) (block : ℕ) : Bool :=
  match ctx.bitmap[block / 8]? with
  | none => true
  | some octet => octet.getLsbD (7 - block % 8)

/-- Sets the bit of one block. -/
def markBlock (bitmap : List Octet) (block : ℕ) : List Octet :=
  bitmap.modify (block / 8) fun octet ↦ octet ||| BitVec.twoPow 8 (7 - block % 8)

/-- The inner loop of `catalog_bitmap_alloc`: `count` blocks from `start` on. -/
def markRun (bitmap : List Octet) (start count : ℕ) : List Octet :=
  (List.range count).foldl (fun bitmap index ↦ markBlock bitmap (start + index)) bitmap

/-- The outer loop of `catalog_bitmap_alloc`, with the passes it has left. -/
def scanLoop (test : ℕ → Bool) (total cursor count : ℕ) : ℕ → ℕ → ℕ → ℕ → Option ℕ
  | 0, _, _, _ => none
  | left + 1, scanned, runStart, run =>
    let sum := cursor + scanned
    let block := if total ≤ sum then sum - total else sum
    let run := if sum = total then 0 else run
    if test block then scanLoop test total cursor count left (scanned + 1) runStart 0
    else
      let runStart := if run = 0 then block else runStart
      if run + 1 = count then some runStart
      else scanLoop test total cursor count left (scanned + 1) runStart (run + 1)

/-- Where the pass begins: a cursor outside the volume counts as 0. -/
def CatalogCtx.cursor (ctx : CatalogCtx) : ℕ :=
  if ctx.nextAlloc < ctx.totalBlocks then ctx.nextAlloc else 0

/-- `catalog_bitmap_alloc`: the start of the run, where there is one. -/
def catalogBitmapAlloc (ctx : CatalogCtx) (count : ℕ) : Option ℕ × CatalogCtx :=
  if count = 0 ∨ ctx.freeBlocks < count then (none, ctx)
  else
    match scanLoop (catalogBitmapTest ctx) ctx.totalBlocks ctx.cursor count
        ctx.totalBlocks 0 0 0 with
    | none => (none, ctx)
    | some start => (some start, { ctx with
        bitmap := markRun ctx.bitmap start count
        bitmapDirty := true
        freeBlocks := ctx.freeBlocks - count
        nextAlloc := if start + count < ctx.totalBlocks then start + count else 0 })

theorem test_mark (ctx : CatalogCtx) (block other : ℕ) (h : catalogBitmapTest ctx block = false) :
    catalogBitmapTest { ctx with bitmap := markBlock ctx.bitmap block } other =
      (catalogBitmapTest ctx other || decide (other = block)) := by
  simp only [catalogBitmapTest, markBlock, List.getElem?_modify] at h ⊢
  by_cases hbyte : block / 8 = other / 8
  · rw [← hbyte]
    cases hoctet : ctx.bitmap[block / 8]? with
    | none => simp [hoctet] at h
    | some octet =>
      have hsame : (7 - block % 8 < 8 ∧ 7 - block % 8 = 7 - other % 8) ↔ other = block := by omega
      simp [BitVec.getLsbD_twoPow, ← Bool.decide_and, hsame]
  · simp only [if_neg hbyte, decide_eq_false (show other ≠ block by rintro rfl; exact hbyte rfl),
      Bool.or_false]
    cases ctx.bitmap[other / 8]? <;> rfl

theorem length_markRun (bitmap : List Octet) (start count : ℕ) :
    (markRun bitmap start count).length = bitmap.length := by
  induction count with
  | zero => rfl
  | succ count ih =>
    rw [markRun, List.range_succ, List.foldl_append]
    exact (List.length_modify _ _ _).trans ih

/-- `count` blocks from `start` on are clear. -/
def Clear (ctx : CatalogCtx) (start count : ℕ) : Prop :=
  ∀ block, start ≤ block → block < start + count → catalogBitmapTest ctx block = false

theorem test_markRun (ctx : CatalogCtx) (start count : ℕ) (h : Clear ctx start count) (other : ℕ) :
    catalogBitmapTest { ctx with bitmap := markRun ctx.bitmap start count } other =
      (catalogBitmapTest ctx other || decide (start ≤ other ∧ other < start + count)) := by
  induction count generalizing other with
  | zero =>
    rw [decide_eq_false (by omega), Bool.or_false]
    rfl
  | succ count ih =>
    have ih := ih fun block hle hlt ↦ h block hle (by omega)
    have hclear : catalogBitmapTest { ctx with bitmap := markRun ctx.bitmap start count }
        (start + count) = false := by
      rw [ih, h _ (by omega) (by omega), decide_eq_false (by omega)]
      rfl
    rw [markRun, List.range_succ, List.foldl_append]
    refine (test_mark { ctx with bitmap := markRun ctx.bitmap start count } _ other hclear).trans ?_
    rw [ih, Bool.or_assoc, ← Bool.decide_or]
    congr 2
    exact propext (by omega)

/-- A pass over `n` blocks from `p` on, of which the last `run` before `p` were clear. -/
def sweep (test : ℕ → Bool) (count : ℕ) : ℕ → ℕ → ℕ → Option ℕ
  | 0, _, _ => none
  | n + 1, p, run =>
    if test p then sweep test count n (p + 1) 0
    else if run + 1 = count then some (p - run)
    else sweep test count n (p + 1) (run + 1)

variable {test : ℕ → Bool} {total cursor count : ℕ}

variable {n run start : ℕ} {ctx : CatalogCtx}

theorem sweep_some {p : ℕ} (hrun : run ≤ p)
    (hclear : ∀ block, p - run ≤ block → block < p → test block = false)
    (h : sweep test count n p run = some start) : start + count ≤ p + n ∧ p ≤ start + run ∧
      ∀ block, start ≤ block → block < start + count → test block = false := by
  induction n generalizing p run with
  | zero => cases h
  | succ n ih =>
    unfold sweep at h
    split_ifs at h with htest hcount
    · obtain ⟨hend, hstart, hfree⟩ := ih (by omega) (fun block hle hlt ↦ by omega) h
      exact ⟨by omega, by omega, hfree⟩
    · cases h
      refine ⟨by omega, by omega, fun block hle hlt ↦ ?_⟩
      obtain hlt | rfl : block < p ∨ block = p := by omega
      · exact hclear block hle hlt
      · simpa using htest
    · have hnext : ∀ block, p + 1 - (run + 1) ≤ block → block < p + 1 → test block = false := by
        intro block hle hlt
        obtain hlt | rfl : block < p ∨ block = p := by omega
        · exact hclear block (by omega) hlt
        · simpa using htest
      obtain ⟨hend, hstart, hfree⟩ := ih (by omega) hnext h
      exact ⟨by omega, by omega, hfree⟩

/-- A pass that finds nothing has seen a used block in every run it could have finished. -/
theorem sweep_none {p : ℕ} (hrun : run < count) (h : sweep test count n p run = none) {first : ℕ}
    (hfirst : p ≤ first + run) (hend : first + count ≤ p + n) :
    ∃ block, first ≤ block ∧ block < first + count ∧ test block = true := by
  induction n generalizing p run with
  | zero => omega
  | succ n ih =>
    unfold sweep at h
    split_ifs at h with htest hcount
    · by_cases hle : first ≤ p
      · exact ⟨p, hle, by omega, htest⟩
      · exact ih (by omega) h (by omega) (by omega)
    · exact ih (by omega) h (by omega) (by omega)

theorem scanLoop_wrapped {p scanned runStart r : ℕ} (hp : cursor + scanned = total + p)
    (hr : r = if p = 0 then 0 else run) (hstart : r ≠ 0 → runStart + r = p) :
    scanLoop test total cursor count n scanned runStart run = sweep test count n p r := by
  induction n generalizing p scanned runStart run r with
  | zero => rfl
  | succ n ih =>
    have hreset : (if cursor + scanned = total then 0 else run) = r := by
      rw [hr]
      exact if_congr (by omega) rfl rfl
    have hnext : (if r = 0 then p else runStart) = p - r := by
      split_ifs with hzero
      · omega
      · have := hstart hzero
        omega
    simp only [scanLoop, sweep, if_pos (show total ≤ cursor + scanned by omega),
      show cursor + scanned - total = p by omega, hreset, hnext]
    rw [ih (p := p + 1) (r := 0) (by omega) (by simp) (by simp),
      ih (p := p + 1) (r := r + 1) (by omega) (by simp) fun _ ↦ ?_]
    by_cases hzero : r = 0
    · omega
    · have := hstart hzero
      omega

/-- The wrapped pass is one pass up to the end of the volume, and then one over the rest. -/
theorem scanLoop_eq {m scanned runStart : ℕ} (hend : cursor + scanned + n = total)
    (hstart : run ≠ 0 → runStart + run = cursor + scanned) :
    scanLoop test total cursor count (n + m) scanned runStart run =
      (sweep test count n (cursor + scanned) run).or (sweep test count m 0 0) := by
  induction n generalizing scanned runStart run with
  | zero =>
    rw [Nat.zero_add, sweep, Option.none_or]
    exact scanLoop_wrapped (by omega) rfl (by simp)
  | succ n ih =>
    have hnext : (if run = 0 then cursor + scanned else runStart) = cursor + scanned - run := by
      split_ifs with hzero
      · omega
      · have := hstart hzero
        omega
    rw [Nat.succ_add]
    simp only [scanLoop, sweep, if_neg (show ¬total ≤ cursor + scanned by omega),
      if_neg (show cursor + scanned ≠ total by omega), hnext]
    rw [ih (by omega) (by simp), ih (by omega) fun _ ↦ ?_, ← Nat.add_assoc]
    · split_ifs <;> rfl
    · by_cases hzero : run = 0
      · omega
      · have := hstart hzero
        omega

/-- A run of free blocks in the volume. -/
def IsRun (ctx : CatalogCtx) (count start : ℕ) : Prop :=
  0 < count ∧ start + count ≤ ctx.totalBlocks ∧ Clear ctx start count

/-- A run that the pass cannot put together: it begins before the cursor and ends behind it. -/
def Straddles (ctx : CatalogCtx) (count start : ℕ) : Prop :=
  start < ctx.cursor ∧ ctx.cursor < start + count

/-- The blocks of the volume that are free. -/
def clearBlocks (ctx : CatalogCtx) : Finset ℕ :=
  (Finset.range ctx.totalBlocks).filter fun block ↦ catalogBitmapTest ctx block = false

/-- What an allocation promises: a run where there is one, and the marks that belong to it. -/
def AllocatesExactly (ctx : CatalogCtx) (count : ℕ) : Prop :=
  match catalogBitmapAlloc ctx count with
  | (none, after) => (∀ start, ¬IsRun ctx count start) ∧ after.bitmap = ctx.bitmap ∧
      after.freeBlocks = ctx.freeBlocks ∧ after.nextAlloc = ctx.nextAlloc
  | (some start, after) => IsRun ctx count start ∧ after.bitmap.length = ctx.bitmap.length ∧
      (∀ block, catalogBitmapTest after block =
        (catalogBitmapTest ctx block || decide (start ≤ block ∧ block < start + count))) ∧
      after.freeBlocks = (clearBlocks after).card ∧ after.nextAlloc < after.totalBlocks

theorem Ico_subset_clearBlocks {count : ℕ} (h : IsRun ctx count start) :
    Finset.Ico start (start + count) ⊆ clearBlocks ctx := by
  intro block hblock
  obtain ⟨hle, hlt⟩ := Finset.mem_Ico.1 hblock
  exact Finset.mem_filter.2 ⟨Finset.mem_range.2 (by have := h.2.1; omega), h.2.2 block hle hlt⟩

theorem IsRun.le_card {count : ℕ} (h : IsRun ctx count start) : count ≤ (clearBlocks ctx).card := by
  have := Finset.card_le_card (Ico_subset_clearBlocks h)
  rwa [Nat.card_Ico, Nat.add_sub_cancel_left] at this

theorem scan_eq (ctx : CatalogCtx) (count : ℕ) : ctx.cursor ≤ ctx.totalBlocks ∧
    scanLoop (catalogBitmapTest ctx) ctx.totalBlocks ctx.cursor count ctx.totalBlocks 0 0 0 =
      (sweep (catalogBitmapTest ctx) count (ctx.totalBlocks - ctx.cursor) ctx.cursor 0).or
        (sweep (catalogBitmapTest ctx) count ctx.cursor 0 0) := by
  have hcursor : ctx.cursor ≤ ctx.totalBlocks := by
    unfold CatalogCtx.cursor
    split_ifs <;> omega
  refine ⟨hcursor, ?_⟩
  conv_lhs => arg 5; rw [← Nat.sub_add_cancel hcursor]
  exact scanLoop_eq (by omega) (by simp)

theorem scan_some {count : ℕ} (hcount : 0 < count)
    (h : scanLoop (catalogBitmapTest ctx) ctx.totalBlocks ctx.cursor count ctx.totalBlocks 0 0 0 =
      some start) :
    IsRun ctx count start ∧ ¬Straddles ctx count start := by
  obtain ⟨hcursor, hscan⟩ := scan_eq ctx count
  obtain hfound | ⟨-, hfound⟩ := Option.or_eq_some_iff.1 (hscan.symm.trans h)
  · obtain ⟨hend, hstart, hfree⟩ := sweep_some (by omega) (fun block hle hlt ↦ by omega) hfound
    exact ⟨⟨hcount, by omega, hfree⟩, fun ⟨hlt, _⟩ ↦ by omega⟩
  · obtain ⟨hend, hstart, hfree⟩ := sweep_some (by omega) (fun block hle hlt ↦ by omega) hfound
    exact ⟨⟨hcount, by omega, hfree⟩, fun ⟨_, hlt⟩ ↦ by omega⟩

theorem scan_none {count : ℕ}
    (h : scanLoop (catalogBitmapTest ctx) ctx.totalBlocks ctx.cursor count ctx.totalBlocks 0 0 0 =
      none) (hrun : IsRun ctx count start) : Straddles ctx count start := by
  obtain ⟨hcursor, hscan⟩ := scan_eq ctx count
  obtain ⟨hupper, hlower⟩ := Option.or_eq_none_iff.1 (hscan.symm.trans h)
  obtain ⟨hcount, hend, hfree⟩ := hrun
  by_contra hcut
  obtain ⟨block, hle, hlt, hused⟩ : ∃ block, start ≤ block ∧ block < start + count ∧
      catalogBitmapTest ctx block = true := by
    obtain hafter | hbefore : ctx.cursor ≤ start ∨ start + count ≤ ctx.cursor := by
      unfold Straddles at hcut
      omega
    · exact sweep_none hcount hupper (by omega) (by omega)
    · exact sweep_none hcount hlower (by omega) (by omega)
  rw [hfree block hle hlt] at hused
  cases hused

/-- The allocator does what it promises unless every run lies across the cursor. -/
theorem catalogBitmapAlloc_exact (ctx : CatalogCtx) (count : ℕ)
    (hfree : ctx.freeBlocks = (clearBlocks ctx).card) :
    AllocatesExactly ctx count ↔ ((∃ start, IsRun ctx count start) →
      ∃ start, IsRun ctx count start ∧ ¬Straddles ctx count start) := by
  unfold AllocatesExactly catalogBitmapAlloc
  by_cases hrefused : count = 0 ∨ ctx.freeBlocks < count
  · have hnone (start : ℕ) : ¬IsRun ctx count start := by
      intro hrun
      have hcard := hrun.le_card
      have hpos := hrun.1
      omega
    rw [if_pos hrefused]
    exact iff_of_true ⟨hnone, rfl, rfl, rfl⟩ fun ⟨start, hrun⟩ ↦ absurd hrun (hnone start)
  · rw [if_neg hrefused]
    cases hscan : scanLoop (catalogBitmapTest ctx) ctx.totalBlocks ctx.cursor count
      ctx.totalBlocks 0 0 0 with
    | none =>
      constructor
      · rintro ⟨hnone, -⟩ ⟨start, hrun⟩
        exact absurd hrun (hnone start)
      · refine fun h ↦ ⟨fun start hrun ↦ ?_, rfl, rfl, rfl⟩
        obtain ⟨other, hother, hclear⟩ := h ⟨start, hrun⟩
        exact hclear (scan_none hscan hother)
    | some start =>
      obtain ⟨hrun, hstraddles⟩ := scan_some (by omega) hscan
      refine iff_of_true ⟨hrun, length_markRun _ _ _, ?_, ?_, ?_⟩ fun _ ↦ ⟨start, hrun, hstraddles⟩
      · exact test_markRun ctx start count hrun.2.2
      · have hblocks : clearBlocks { ctx with bitmap := markRun ctx.bitmap start count } =
            clearBlocks ctx \ Finset.Ico start (start + count) := by
          ext block
          simp only [clearBlocks, Finset.mem_filter, Finset.mem_sdiff, Finset.mem_Ico,
            test_markRun ctx start count hrun.2.2, Bool.or_eq_false_iff, decide_eq_false_iff_not,
            and_assoc]
        calc ctx.freeBlocks - count
            = (clearBlocks ctx \ Finset.Ico start (start + count)).card := by
              rw [Finset.card_sdiff_of_subset (Ico_subset_clearBlocks hrun), Nat.card_Ico, hfree,
                Nat.add_sub_cancel_left]
          _ = _ := congrArg Finset.card hblocks.symm
      · have := hrun.1
        have := hrun.2.1
        show (if _ then _ else _) < ctx.totalBlocks
        split_ifs <;> omega

/-- Four blocks, of which the two around the cursor are free. -/
def cutVolume : CatalogCtx where
  bitmap := [0x9f]
  bitmapDirty := false
  totalBlocks := 4
  freeBlocks := 2
  nextAlloc := 2

theorem catalogBitmapAlloc_exact_one :
    AllocatesExactly cutVolume 1 ↔ ((∃ start, IsRun cutVolume 1 start) →
      ∃ start, IsRun cutVolume 1 start ∧ ¬Straddles cutVolume 1 start) :=
  catalogBitmapAlloc_exact cutVolume 1 (by decide)

/-- The two blocks around the cursor are a run, and the allocator reports that there is none. -/
theorem catalogBitmapAlloc_misses :
    cutVolume.freeBlocks = (clearBlocks cutVolume).card ∧ ¬AllocatesExactly cutVolume 2 := by
  have hnone : catalogBitmapAlloc cutVolume 2 = (none, cutVolume) := rfl
  refine ⟨by decide, fun h ↦ ?_⟩
  unfold AllocatesExactly at h
  rw [hnone] at h
  refine h.1 1 ⟨by decide, by decide, fun block hle hlt ↦ ?_⟩
  obtain rfl | rfl : block = 1 ∨ block = 2 := by omega
  · rfl
  · rfl

end S5LBox.Tools
