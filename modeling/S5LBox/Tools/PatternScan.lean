import S5LBox.Library.Matcher
import S5LBox.Word

/-!
# The pattern scan

`pattern_scan_unique` and `fstab_rewrite` of `rootfs_work.c`: the matcher carried over the buffers
that the image is read in, and the rewrite of the one place it finds.
-/

namespace S5LBox.Tools

open List

/-- The positioned reads and writes of the image that fail. -/
structure ImageFaults where
  read : ℕ → ℕ → Bool
  write : ℕ → Bool

/-- `checked_read`, of a range inside the image. -/
def readAt (faults : ImageFaults) (image : List Octet) (offset amount : ℕ) : Option (List Octet) :=
  if faults.read offset amount then none else some ((image.drop offset).take amount)

/-- The locals of `pattern_scan_unique` that outlive a buffer. -/
structure PatternScan where
  matched : ℕ := 0
  hit : ℕ := 2 ^ 64 - 1
  hits : ℕ := 0

/-- The loop over the octets of one buffer, the next of which lies at `position`. -/
def scanOctets (pattern : List Octet) (table : List ℕ) : ℕ → List Octet → PatternScan → PatternScan
  | _, [], scan => scan
  | position, value :: rest, scan =>
    let matched := Matcher.advance (pattern.getD · 0) (fun m ↦ table.getD (m - 1) 0) value
      scan.matched scan.matched
    if matched = pattern.length then
      let hit := if scan.hits = 0 then position + 1 - pattern.length else scan.hit
      if 1 < scan.hits + 1 then ⟨matched, hit, scan.hits + 1⟩
      else scanOctets pattern table (position + 1) rest
        ⟨table.getD (matched - 1) 0, hit, scan.hits + 1⟩
    else scanOctets pattern table (position + 1) rest { scan with matched }

/-- The loop over the buffers; `none` where a read fails. -/
def scanBuffers (faults : ImageFaults) (image pattern : List Octet) (table : List ℕ)
    (bufferSize : ℕ) : ℕ → ℕ → PatternScan → Option PatternScan
  | 0, _, _ => none
  | fuel + 1, offset, scan =>
    if image.length ≤ offset then some scan
    else
      let amount := min bufferSize (image.length - offset)
      match readAt faults image offset amount with
      | none => none
      | some buffer =>
        let scan := scanOctets pattern table offset buffer scan
        if 1 < scan.hits then some scan
        else scanBuffers faults image pattern table bufferSize fuel (offset + amount) scan

/-- `pattern_scan_unique`: the first hit, and how many there are up to the second. -/
def patternScanUnique (faults : ImageFaults) (image pattern : List Octet) (bufferSize : ℕ) :
    Option (ℕ × ℕ) :=
  (scanBuffers faults image pattern (Matcher.borders (pattern.getD · 0) (pattern.length - 1))
    bufferSize (image.length + 1) 0 {}).map fun scan ↦ (scan.hit, scan.hits)

def fstabStock : List Octet :=
  ("/dev/disk0s1 / hfs ro 0 1\n/dev/disk0s2 /private/var hfs rw,nosuid,nodev 0 2\n").toList.map
    fun c ↦ BitVec.ofNat 8 c.toNat

/-- The statuses of `fstab_rewrite`. -/
inductive FstabStatus where
  | lineInvalid
  | readFailed
  | notUnique
  | writeFailed
  deriving DecidableEq

/-- The record that takes the place of the stock one: the line, and a comment that fills up. -/
def fstabReplacement (line : List Octet) : List Octet :=
  line ++ [0x0a] ++
    if line.length + 1 < fstabStock.length then
      List.replicate (fstabStock.length - line.length - 2) 0x23 ++ [0x0a]
    else []

/-- `fstab_rewrite`, with the line up to its NUL: where the record was, and the image after. -/
def fstabRewrite (faults : ImageFaults) (image : List Octet) (line : Option (List Octet))
    (bufferSize : ℕ) : Except FstabStatus (ℕ × List Octet) :=
  match line with
  | none => .error .lineInvalid
  | some line =>
    if (line.take fstabStock.length).any (fun octet ↦ octet = 0x0a || octet = 0x0d) then
      .error .lineInvalid
    else if line = [] ∨ fstabStock.length ≤ line.length then .error .lineInvalid
    else
      match patternScanUnique faults image fstabStock bufferSize with
      | none => .error .readFailed
      | some (hit, hits) =>
        if 1 < hits then .error .notUnique
        else if hits ≠ 1 then .error .notUnique
        else if faults.write hit then .error .writeFailed
        else .ok (hit, image.take hit ++ fstabReplacement line ++
          image.drop (hit + fstabStock.length))

/-- Where the pattern occurs, overlapping places included. -/
def occurrences (image pattern : List Octet) : ℕ → List ℕ
  | n => (List.range n).filter fun start ↦ (image.drop start).take pattern.length = pattern

/-- The places where a whole pattern can begin. -/
def places (image pattern : List Octet) : ℕ := image.length + 1 - pattern.length

variable {image pattern : List Octet}

/-- The scan reports the occurrences that begin before `n`. -/
def Reports (image pattern : List Octet) (n : ℕ) (scan : PatternScan) : Prop :=
  scan.hits = min 2 (occurrences image pattern n).length ∧
    scan.hit = (occurrences image pattern n).head?.getD (2 ^ 64 - 1)

theorem occurrences_succ (n : ℕ) : occurrences image pattern (n + 1) =
    occurrences image pattern n ++
      if (image.drop n).take pattern.length = pattern then [n] else [] := by
  simp only [occurrences, range_succ, filter_append, filter_singleton, Bool.cond_decide]

variable {scan : PatternScan} {faults : ImageFaults} {bufferSize offset : ℕ}

/-- Two occurrences stay two. -/
theorem Reports.mono {n m : ℕ} (h : Reports image pattern n scan) (htwo : 1 < scan.hits)
    (hle : n ≤ m) : Reports image pattern m scan := by
  induction hle with
  | refl => exact h
  | step _ ih =>
    obtain ⟨hhits, hhit⟩ := ih
    have hne : occurrences image pattern _ ≠ [] := ne_nil_of_length_pos
      (lt_of_lt_of_le (by omega) (hhits.le.trans (min_le_right _ _)))
    rw [Reports, occurrences_succ, head?_append_of_ne_nil _ hne, length_append]
    exact ⟨by omega, hhit⟩

theorem window_ends_iff {e : ℕ} (hsize : pattern.length ≤ e) (he : e ≤ image.length) :
    Matcher.Ends (pattern.getD · 0) (image.getD · 0) pattern.length e ↔
      (image.drop (e - pattern.length)).take pattern.length = pattern := by
  have hlength : ((image.drop (e - pattern.length)).take pattern.length).length =
      pattern.length := by
    rw [length_take, length_drop]
    omega
  constructor
  · rintro ⟨-, h⟩
    apply ext_getElem hlength
    intro i hi hi'
    have hitem := h i hi'
    simp only [getD_eq_getElem?_getD] at hitem
    rw [getElem?_eq_getElem (by omega), getElem?_eq_getElem hi'] at hitem
    rwa [getElem_take, getElem_drop]
  · refine fun h ↦ ⟨hsize, fun i hi ↦ ?_⟩
    conv_rhs => rw [← h]
    simp only [getD_eq_getElem?_getD, getElem?_take, getElem?_drop, if_pos hi]

/-- What holds between two octets: the scan reports what lies behind it and knows how much of the
pattern it stands in. -/
def Scanned (image pattern : List Octet) (e : ℕ) (scan : PatternScan) : Prop :=
  Reports image pattern (e + 1 - pattern.length) scan ∧ (scan.hits ≤ 1 →
      Matcher.Matched (pattern.getD · 0) (image.getD · 0) pattern.length e scan.matched)

theorem occurrences_next {e : ℕ} (he : e < image.length) :
    (Matcher.Ends (pattern.getD · 0) (image.getD · 0) pattern.length (e + 1) →
      occurrences image pattern (e + 2 - pattern.length) =
        occurrences image pattern (e + 1 - pattern.length) ++ [e + 1 - pattern.length]) ∧
    (¬Matcher.Ends (pattern.getD · 0) (image.getD · 0) pattern.length (e + 1) →
      occurrences image pattern (e + 2 - pattern.length) =
        occurrences image pattern (e + 1 - pattern.length)) := by
  by_cases hsize : pattern.length ≤ e + 1
  · rw [window_ends_iff hsize he, show e + 2 - pattern.length = e + 1 - pattern.length + 1 by omega,
      occurrences_succ]
    refine ⟨fun h ↦ by rw [if_pos h], fun h ↦ by rw [if_neg h, append_nil]⟩
  · refine ⟨fun h ↦ absurd h.1 hsize, fun _ ↦ ?_⟩
    congr 1
    omega

theorem isBorder_table (pattern : List Octet) (k : ℕ) (hpos : 0 < k) (hk : k ≤ pattern.length) :
    Matcher.IsBorder (pattern.getD · 0) k
      ((Matcher.borders (pattern.getD · 0) (pattern.length - 1)).getD (k - 1) 0) :=
  Matcher.isBorder_borders _ _ hpos (by omega)

theorem scanOctets_scanned {rest : List Octet} {e : ℕ} (hrest : rest <+: image.drop e)
    (hhits : scan.hits ≤ 1) (h : Scanned image pattern e scan) :
    Scanned image pattern (e + rest.length) (scanOctets pattern
      (Matcher.borders (pattern.getD · 0) (pattern.length - 1)) e rest scan) := by
  induction rest generalizing e scan with
  | nil => exact h
  | cons value rest ih =>
    obtain ⟨tail, htail⟩ := hrest
    have hvalue : image.getD e 0 = value := by
      rw [getD_eq_getElem?_getD, ← head?_drop, ← htail]
      rfl
    have he : e < image.length := by
      have := congrArg List.length htail
      simp only [cons_append, length_cons, length_drop] at this
      omega
    have hnext : rest <+: image.drop (e + 1) :=
      ⟨tail, by rw [← tail_drop, ← htail]; rfl⟩
    obtain ⟨hreports, hmatched⟩ := h
    have hmatched := hmatched hhits
    have hextends := hmatched.extends (isBorder_table pattern)
    have hwhole := hmatched.whole_iff hextends
    rw [hvalue] at hextends hwhole
    obtain ⟨hfound, hmissed⟩ := @occurrences_next image pattern e he
    have hlength : e + 1 + rest.length = e + (value :: rest).length := by
      rw [length_cons]
      omega
    unfold scanOctets
    dsimp only
    by_cases hfull : Matcher.advance (pattern.getD · 0) (fun m ↦ (Matcher.borders
        (pattern.getD · 0) (pattern.length - 1)).getD (m - 1) 0) value scan.matched
        scan.matched = pattern.length
    · have hends := hwhole.1 hfull
      have hnew (matched : ℕ) : Reports image pattern (e + 2 - pattern.length)
          ⟨matched, if scan.hits = 0 then e + 1 - pattern.length else scan.hit, scan.hits + 1⟩ := by
        obtain ⟨hcount, hhit⟩ := hreports
        rw [Reports, hfound hends, length_append, length_singleton]
        refine ⟨by dsimp only; omega, ?_⟩
        dsimp only
        cases hbefore : occurrences image pattern (e + 1 - pattern.length) with
        | nil => rw [if_pos (by simp [hcount, hbefore])]; rfl
        | cons first others =>
          rw [if_neg (by simp [hcount, hbefore]), hhit, hbefore]
          rfl
      rw [if_pos hfull]
      by_cases htwo : 1 < scan.hits + 1
      · rw [if_pos htwo]
        refine ⟨(hnew _).mono htwo ?_, fun hle ↦ absurd htwo (by simpa using hle)⟩
        omega
      · rw [if_neg htwo, ← hlength]
        refine ih hnext (by dsimp only; omega) ⟨hnew _, fun _ ↦ ?_⟩
        rw [hfull]
        have hpos := hmatched.1
        exact Matcher.Matched.of_border hends (isBorder_table pattern _ (by omega) le_rfl)
    · rw [if_neg hfull, ← hlength]
      refine ih hnext hhits ⟨?_, fun _ ↦ hmatched.next hextends hfull⟩
      unfold Reports at hreports ⊢
      rw [hmissed (mt hwhole.2 hfull)]
      exact hreports

theorem scanBuffers_scanned {fuel : ℕ} {after : PatternScan} (hoffset : offset ≤ image.length)
    (hhits : scan.hits ≤ 1) (h : Scanned image pattern offset scan)
    (hrun : scanBuffers faults image pattern (Matcher.borders (pattern.getD · 0)
      (pattern.length - 1)) bufferSize fuel offset scan = some after) :
    Reports image pattern (places image pattern) after := by
  induction fuel generalizing offset scan with
  | zero => cases hrun
  | succ fuel ih =>
    unfold scanBuffers readAt at hrun
    by_cases hend : image.length ≤ offset
    · rw [if_pos hend] at hrun
      cases hrun
      obtain rfl : offset = image.length := by omega
      exact h.1
    · have hlength : ((image.drop offset).take (min bufferSize (image.length - offset))).length =
          min bufferSize (image.length - offset) := by
        rw [length_take, length_drop]
        omega
      have hbuffer := scanOctets_scanned
        ⟨_, take_append_drop (min bufferSize (image.length - offset)) _⟩ hhits h
      rw [hlength] at hbuffer
      rw [if_neg hend] at hrun
      dsimp only at hrun
      by_cases hfault : faults.read offset (min bufferSize (image.length - offset)) = true
      · rw [if_pos hfault] at hrun
        cases hrun
      · rw [if_neg hfault] at hrun
        dsimp only at hrun
        split_ifs at hrun with htwo
        · cases hrun
          exact hbuffer.1.mono htwo (by unfold places; omega)
        · exact ih (by omega) (by omega) hbuffer hrun

theorem scanBuffers_isSome {fuel : ℕ} {table : List ℕ} (hbuffer : 0 < bufferSize)
    (hfaults : ∀ offset amount, faults.read offset amount = false)
    (hoffset : offset ≤ image.length) (hfuel : image.length < offset + fuel) :
    (scanBuffers faults image pattern table bufferSize fuel offset scan).isSome := by
  induction fuel generalizing offset scan with
  | zero => omega
  | succ fuel ih =>
    unfold scanBuffers readAt
    dsimp only
    by_cases hend : image.length ≤ offset
    · rw [if_pos hend]
      rfl
    · rw [if_neg hend, if_neg (by rw [hfaults]; exact Bool.false_ne_true)]
      dsimp only
      split_ifs
      · rfl
      · exact ih (by omega) (by omega)

theorem scanned_zero (hpattern : pattern ≠ []) : Scanned image pattern 0 {} := by
  have hpos := length_pos_of_ne_nil hpattern
  refine ⟨?_, fun _ ↦ ⟨hpos, Matcher.ends_zero _ _ _, fun k _ h ↦ h.1⟩⟩
  rw [Nat.sub_eq_zero_of_le hpos]
  exact ⟨rfl, rfl⟩

theorem length_fstabReplacement {line : List Octet} (h : line.length < fstabStock.length) :
    (fstabReplacement line).length = fstabStock.length := by
  unfold fstabReplacement
  split_ifs
  · simp only [length_append, length_replicate, length_singleton]
    omega
  · simp only [length_append, length_singleton, length_nil]
    omega

theorem patternScanUnique_reports {image pattern : List Octet} {hit hits : ℕ}
    (hpattern : pattern ≠ [])
    (h : patternScanUnique faults image pattern bufferSize = some (hit, hits)) :
    hits = min 2 (occurrences image pattern (places image pattern)).length ∧
      hit = (occurrences image pattern (places image pattern)).head?.getD (2 ^ 64 - 1) := by
  obtain ⟨scan, hscan, heq⟩ := Option.map_eq_some_iff.1 h
  obtain ⟨rfl, rfl⟩ := Prod.mk.inj heq
  exact scanBuffers_scanned (Nat.zero_le _) (Nat.zero_le _) (scanned_zero hpattern) hscan

theorem fstabStock_ne_nil : fstabStock ≠ [] := by decide

theorem fstabRewrite_ok {image line after : List Octet}
    (h : fstabRewrite faults image (some line) bufferSize = .ok (offset, after)) :
    line.length < fstabStock.length ∧
      occurrences image fstabStock (places image fstabStock) = [offset] ∧
      after = image.take offset ++ fstabReplacement line ++
        image.drop (offset + fstabStock.length) := by
  unfold fstabRewrite at h
  dsimp only at h
  split_ifs at h with hbreak hlength
  cases hscan : patternScanUnique faults image fstabStock bufferSize with
  | none =>
    rw [hscan] at h
    cases h
  | some found =>
    obtain ⟨hit, hits⟩ := found
    rw [hscan] at h
    dsimp only at h
    split_ifs at h with hmany hone hfault
    cases h
    obtain ⟨hhits, hhit⟩ := patternScanUnique_reports fstabStock_ne_nil hscan
    obtain ⟨first, hfirst⟩ := length_eq_one_iff.1
      (show (occurrences image fstabStock (places image fstabStock)).length = 1 by omega)
    rw [hfirst] at hhit ⊢
    exact ⟨by omega, congrArg (fun first ↦ [first]) hhit.symm, rfl⟩

end S5LBox.Tools
