import S5LBox.Block.VmBlock

/-!
# Exact transfers over any callbacks

The loop of `vm_block_read_exact` and `vm_block_write_exact` on callbacks nothing is promised of.
They may transfer in part, ask to be called again, fail, report progress together with a failure,
report more than was asked for, or answer with a value that is no status at all. The transfer over
a device that keeps its contract is a case of it.
-/

namespace S5LBox.Block

open List

/-- What a callback reports: its status, none where the value is outside `vm_block_io_status_t`,
and what it leaves in `*actual`. -/
structure Report where
  status : Option IoStatus
  actual : ℕ
  deriving DecidableEq

/-- What the loop makes of a report. -/
inductive Verdict where
  | take (count : ℕ)
  | idle
  | stop (status : BlockStatus)
  deriving DecidableEq

/-- The checks on a report. -/
def judge (requested : ℕ) (report : Report) : Verdict :=
  if requested < report.actual then .stop .protocol
  else
    match report.status with
    | some .ok => if report.actual ≠ 0 then .take report.actual else .idle
    | some .retry => if report.actual ≠ 0 then .stop .protocol else .idle
    | some .error => if report.actual ≠ 0 then .stop .protocol else .stop .backend
    | none => .stop .protocol

theorem judge_take {requested count : ℕ} {report : Report}
    (h : judge requested report = .take count) :
    0 < count ∧ count ≤ requested ∧ report.status = some .ok ∧ report.actual = count := by
  obtain ⟨status, actual⟩ := report
  rw [judge] at h
  split at h
  · contradiction
  next hmore =>
  have hle : actual ≤ requested := not_lt.1 hmore
  match status with
  | none => contradiction
  | some .ok =>
    simp only at h
    split at h
    · next hne =>
      rw [Verdict.take.injEq] at h
      subst h
      exact ⟨Nat.pos_of_ne_zero hne, hle, rfl, rfl⟩
    · contradiction
  | some .retry =>
    simp only at h
    split at h
    · contradiction
    · contradiction
  | some .error =>
    simp only at h
    split at h
    · contradiction
    · contradiction

variable {status : BlockStatus}

theorem judge_stop {requested : ℕ} {report : Report} (h : judge requested report = .stop status) :
    status ≠ .ok := by
  rintro rfl
  obtain ⟨answered, actual⟩ := report
  rw [judge] at h
  split at h
  · cases h
  match answered with
  | none => cases h
  | some .ok =>
    simp only at h
    split at h
    · contradiction
    · contradiction
  | some .retry =>
    simp only at h
    split at h
    · cases h
    · contradiction
  | some .error =>
    simp only at h
    split at h
    · cases h
    · cases h

section Loop

variable {τ : Type}

/-- A callback: what it reports of a request for a number of octets from an offset on. -/
abbrev Callback (τ : Type) := τ → (offset requested : ℕ) → Report × τ

/-- The size of a request. -/
def requestSize (length completed : ℕ) : ℕ := min (length - completed) maxCallbackBytes

/-- The loop both functions share: the octets transferred so far, and the calls in a row that
brought none. -/
def exactLoop (call : Callback τ) (cancelled : τ → Bool × τ) (offset length : ℕ) (s : τ)
    (completed noProgress : ℕ) : BlockStatus × ℕ × τ :=
  if length ≤ completed then (.ok, completed, s)
  else
    let polled := cancelled s
    if polled.1 then (.cancelled, completed, polled.2)
    else
      let answer := call polled.2 (offset + completed) (requestSize length completed)
      match hverdict : judge (requestSize length completed) answer.1 with
      | .stop status => (status, completed, answer.2)
      | .idle =>
        if hlimit : noProgressLimit ≤ noProgress + 1 then (.stalled, completed, answer.2)
        else exactLoop call cancelled offset length answer.2 completed (noProgress + 1)
      | .take count => exactLoop call cancelled offset length answer.2 (completed + count) 0
termination_by (length - completed, noProgressLimit - noProgress)
decreasing_by
  · exact Prod.Lex.right _ (by omega)
  · apply Prod.Lex.left
    have hcount := judge_take hverdict
    omega

/-- A call of the loop. -/
structure Entry where
  offset : ℕ
  requested : ℕ
  report : Report

/-- The octets a call brought. -/
def Entry.accepted (entry : Entry) : ℕ :=
  match judge entry.requested entry.report with
  | .take count => count
  | _ => 0

def accepted (log : List Entry) : ℕ := (log.map Entry.accepted).sum

@[simp] theorem accepted_nil : accepted [] = 0 := rfl

/-- A callback that keeps a log of what it was asked and what it answered. -/
def logged (call : Callback τ) : Callback (τ × List Entry) := fun s offset requested ↦
  let answer := call s.1 offset requested
  (answer.1, answer.2, s.2 ++ [⟨offset, requested, answer.1⟩])

def loggedPoll (cancelled : τ → Bool × τ) : τ × List Entry → Bool × τ × List Entry := fun s ↦
  let polled := cancelled s.1
  (polled.1, polled.2, s.2)

variable {call : Callback τ} {cancelled : τ → Bool × τ} {offset length : ℕ}

section Rounds

variable {s : τ} {completed noProgress : ℕ}

theorem exactLoop_done (h : length ≤ completed) :
    exactLoop call cancelled offset length s completed noProgress = (.ok, completed, s) := by
  rw [exactLoop, if_pos h]

theorem exactLoop_cancelled (hmore : ¬length ≤ completed) (h : (cancelled s).1 = true) :
    exactLoop call cancelled offset length s completed noProgress =
      (.cancelled, completed, (cancelled s).2) := by
  rw [exactLoop, if_neg hmore, if_pos h]

/-- The answer of the round. -/
abbrev answerAt (call : Callback τ) (cancelled : τ → Bool × τ) (offset length : ℕ) (s : τ)
    (completed : ℕ) : Report × τ :=
  call (cancelled s).2 (offset + completed) (requestSize length completed)

theorem exactLoop_stop (hmore : ¬length ≤ completed) (hgo : ¬(cancelled s).1 = true)
    (h : judge (requestSize length completed)
      (answerAt call cancelled offset length s completed).1 = .stop status) :
    exactLoop call cancelled offset length s completed noProgress =
      (status, completed, (answerAt call cancelled offset length s completed).2) := by
  rw [exactLoop, if_neg hmore, if_neg hgo]
  simp only
  split
  · next found hfound =>
    cases h.symm.trans hfound
    rfl
  · next hfound => cases h.symm.trans hfound
  · next hfound => cases h.symm.trans hfound

theorem exactLoop_idle (hmore : ¬length ≤ completed) (hgo : ¬(cancelled s).1 = true)
    (h : judge (requestSize length completed)
      (answerAt call cancelled offset length s completed).1 = .idle) :
    exactLoop call cancelled offset length s completed noProgress =
      if noProgressLimit ≤ noProgress + 1 then
        (.stalled, completed, (answerAt call cancelled offset length s completed).2)
      else exactLoop call cancelled offset length
        (answerAt call cancelled offset length s completed).2 completed (noProgress + 1) := by
  rw [exactLoop, if_neg hmore, if_neg hgo]
  simp only
  split
  · next hfound => cases h.symm.trans hfound
  · rfl
  · next hfound => cases h.symm.trans hfound

theorem exactLoop_take {count : ℕ} (hmore : ¬length ≤ completed) (hgo : ¬(cancelled s).1 = true)
    (h : judge (requestSize length completed)
      (answerAt call cancelled offset length s completed).1 = .take count) :
    exactLoop call cancelled offset length s completed noProgress =
      exactLoop call cancelled offset length
        (answerAt call cancelled offset length s completed).2 (completed + count) 0 := by
  rw [exactLoop, if_neg hmore, if_neg hgo]
  simp only
  split
  · next hfound => cases h.symm.trans hfound
  · next hfound => cases h.symm.trans hfound
  · next found hfound =>
    cases h.symm.trans hfound
    rfl

end Rounds

/-- What the log of a transfer says from a point on where some octets are there already: every
request starts where the accepted octets end, the count is theirs, and runs of calls that bring
nothing are bounded. -/
structure Transferred (offset length completed noProgress : ℕ) (result : BlockStatus × ℕ)
    (log : List Entry) : Prop where
  calls : log.length ≤ noProgressLimit * (length - completed) + (noProgressLimit - noProgress)
  requests : ∀ before entry after, log = before ++ entry :: after →
    entry.offset = offset + completed + accepted before ∧ 0 < entry.requested ∧
      entry.requested ≤ maxCallbackBytes ∧
      completed + accepted before + entry.requested ≤ length
  count : result.2 = completed + accepted log
  bounded : result.2 ≤ length
  status : result.1 = .ok ↔ result.2 = length

variable {completed noProgress : ℕ} {result : BlockStatus × ℕ} {log : List Entry} {entry : Entry}

theorem requestSize_bounds (hmore : ¬length ≤ completed) :
    0 < requestSize length completed ∧ requestSize length completed ≤ maxCallbackBytes ∧
      completed + requestSize length completed ≤ length := by
  have hmax : 0 < maxCallbackBytes := by decide
  rw [requestSize]
  omega

theorem transferred_nil (hle : completed ≤ length) (hstatus : status = .ok ↔ completed = length) :
    Transferred offset length completed noProgress (status, completed) [] where
  calls := Nat.zero_le _
  requests before entry after h := by
    have hlength := congrArg List.length h
    simp at hlength
  count := rfl
  bounded := hle
  status := hstatus

/-- One more call in front: it asks for what comes next, and what it brings is counted. -/
theorem Transferred.cons {idle : ℕ}
    (h : Transferred offset length (completed + entry.accepted) idle result log)
    (hmore : ¬length ≤ completed) (hoffset : entry.offset = offset + completed)
    (hrequested : entry.requested = requestSize length completed)
    (hcalls : noProgressLimit * (length - (completed + entry.accepted)) +
      (noProgressLimit - idle) + 1 ≤
        noProgressLimit * (length - completed) + (noProgressLimit - noProgress)) :
    Transferred offset length completed noProgress result (entry :: log) where
  calls := by
    rw [length_cons]
    exact (Nat.succ_le_succ h.calls).trans hcalls
  requests before other after hlog := by
    cases before with
    | nil =>
      obtain ⟨rfl, -⟩ := List.cons.inj hlog
      rw [accepted_nil, hrequested, hoffset]
      exact ⟨rfl, requestSize_bounds hmore⟩
    | cons first before =>
      obtain ⟨rfl, hrest⟩ := List.cons.inj hlog
      obtain ⟨hplace, hpos, hmax, hfits⟩ := h.requests before other after hrest
      have hsum : accepted (entry :: before) = entry.accepted + accepted before := rfl
      rw [hsum]
      exact ⟨by omega, hpos, hmax, by omega⟩
  count := by
    have hsum : accepted (entry :: log) = entry.accepted + accepted log := rfl
    rw [hsum, h.count]
    omega
  bounded := h.bounded
  status := h.status

theorem transferred_stop (hmore : ¬length ≤ completed) (hidle : noProgress < noProgressLimit)
    (hoffset : entry.offset = offset + completed)
    (hrequested : entry.requested = requestSize length completed) (haccepted : entry.accepted = 0)
    (hstatus : status ≠ .ok) :
    Transferred offset length completed noProgress (status, completed) [entry] := by
  have hend : Transferred offset length (completed + entry.accepted) noProgressLimit
      (status, completed) [] := by
    rw [haccepted]
    exact transferred_nil (by omega) (iff_of_false hstatus (by omega))
  apply hend.cons hmore hoffset hrequested
  have hsame : completed + entry.accepted = completed := by omega
  rw [hsame]
  omega

/-- The loop over callbacks that keep a log is the loop over the callbacks, and its log is that of
a transfer. -/
theorem exactLoop_logged (s : τ) (past : List Entry) (hle : completed ≤ length)
    (hidle : noProgress < noProgressLimit) :
    let plain := exactLoop call cancelled offset length s completed noProgress
    ∃ log, exactLoop (logged call) (loggedPoll cancelled) offset length (s, past) completed
        noProgress = (plain.1, plain.2.1, plain.2.2, past ++ log) ∧
      Transferred offset length completed noProgress (plain.1, plain.2.1) log := by
  have hentry (s : τ) (completed : ℕ) (past : List Entry) :
      answerAt (logged call) (loggedPoll cancelled) offset length (s, past) completed =
        ((answerAt call cancelled offset length s completed).1,
          (answerAt call cancelled offset length s completed).2,
          past ++ [⟨offset + completed, requestSize length completed,
            (answerAt call cancelled offset length s completed).1⟩]) := rfl
  induction hmeasure : noProgressLimit * (length - completed) + (noProgressLimit - noProgress)
    using Nat.strong_induction_on generalizing s past completed noProgress with
  | _ measure ih =>
  subst hmeasure
  by_cases hall : length ≤ completed
  · rw [exactLoop_done hall, exactLoop_done hall]
    exact ⟨[], by rw [append_nil], transferred_nil hle (iff_of_true rfl (by omega))⟩
  by_cases hcancelled : (cancelled s).1 = true
  · have hlogged : (loggedPoll cancelled (s, past)).1 = true := hcancelled
    rw [exactLoop_cancelled hall hcancelled, exactLoop_cancelled hall hlogged]
    refine ⟨[], ?_, transferred_nil hle (iff_of_false nofun (by omega))⟩
    rw [append_nil]
    rfl
  have hlogged : ¬(loggedPoll cancelled (s, past)).1 = true := hcancelled
  set answer := answerAt call cancelled offset length s completed
  let entry : Entry := ⟨offset + completed, requestSize length completed, answer.1⟩
  cases hverdict : judge (requestSize length completed) answer.1 with
  | stop status =>
    rw [exactLoop_stop hall hcancelled hverdict, exactLoop_stop hall hlogged hverdict, hentry]
    refine ⟨_, rfl, transferred_stop hall hidle rfl rfl ?_ (judge_stop hverdict)⟩
    rw [Entry.accepted, hverdict]
  | idle =>
    have haccepted : entry.accepted = 0 := by simp only [Entry.accepted, entry, hverdict]
    rw [exactLoop_idle hall hcancelled hverdict, exactLoop_idle hall hlogged hverdict, hentry]
    by_cases hlimit : noProgressLimit ≤ noProgress + 1
    · rw [if_pos hlimit, if_pos hlimit]
      exact ⟨_, rfl, transferred_stop hall hidle rfl rfl haccepted nofun⟩
    · rw [if_neg hlimit, if_neg hlimit]
      obtain ⟨log, hrun, htransferred⟩ := ih _ (by omega) answer.2 (past ++ [entry]) hle
        (not_le.1 hlimit) rfl
      refine ⟨_ :: log, by rw [hrun, append_assoc, singleton_append], ?_⟩
      refine @Transferred.cons _ _ _ _ _ _ _ (noProgress + 1) ?_ hall rfl rfl ?_
      · rw [haccepted]
        exact htransferred
      · rw [haccepted]
        change noProgressLimit * (length - completed) + (noProgressLimit - (noProgress + 1)) + 1 ≤ _
        omega
  | take count =>
    obtain ⟨hpos, hcount, -, -⟩ := judge_take hverdict
    have hsize := (requestSize_bounds hall).2.2
    have haccepted : entry.accepted = count := by simp only [Entry.accepted, entry, hverdict]
    have hless : noProgressLimit * (length - (completed + count)) + noProgressLimit ≤
        noProgressLimit * (length - completed) := by
      rw [← Nat.mul_succ]
      exact Nat.mul_le_mul_left _ (by omega)
    rw [exactLoop_take hall hcancelled hverdict, exactLoop_take hall hlogged hverdict, hentry]
    obtain ⟨log, hrun, htransferred⟩ := ih
      (noProgressLimit * (length - (completed + count)) + (noProgressLimit - 0)) (by omega)
      answer.2 (past ++ [entry]) (by omega) (by decide) rfl
    refine ⟨_ :: log, by rw [hrun, append_assoc, singleton_append], ?_⟩
    refine @Transferred.cons _ _ _ _ _ _ _ 0 ?_ hall rfl rfl ?_
    · rw [haccepted]
      exact htransferred
    · rw [haccepted]
      omega

end Loop

section Functions

variable {τ : Type}

/-- A callback that is also given the octets its source pointer leads to. -/
abbrev SourceCallback (τ : Type) := τ → (offset : ℕ) → List Octet → (requested : ℕ) → Report × τ

/-- `vm_block_t` with callbacks nothing is promised of. A null callback is none. -/
structure RawBlock (τ : Type) where
  size : ℕ
  readAt : Option (Callback τ)
  writeAt : Option (SourceCallback τ)

/-- `vm_block_check_range`, on an offset below `2 ^ 64`. -/
def checkRange (size offset length : ℕ) : BlockStatus :=
  if 2 ^ 64 - 1 - offset < length then .overflow
  else if size < offset ∨ size - offset < length then .bounds
  else .ok

/-- What both functions do with a block; the callback is none where it or the buffer is null. -/
def transferExact (size : ℕ) (call : Option (Callback τ)) (cancelled : τ → Bool × τ) (s : τ)
    (offset length : ℕ) : BlockStatus × ℕ × τ :=
  let status := checkRange size offset length
  if status ≠ .ok then (status, 0, s)
  else if length = 0 then (.ok, 0, s)
  else
    match call with
    | none => (.invalidArgument, 0, s)
    | some call => exactLoop call cancelled offset length s 0 0

/-- The callback of a write, whose pointer goes forward with the offset. -/
def fromSource (writeAt : SourceCallback τ) (offset : ℕ) (source : List Octet) : Callback τ :=
  fun s place requested ↦ writeAt s place (source.drop (place - offset)) requested

/-- `vm_block_read_exact`; `destination` is whether there is a buffer. -/
def RawBlock.readExact (block : Option (RawBlock τ)) (destination : Bool)
    (cancelled : τ → Bool × τ) (s : τ) (offset length : ℕ) : BlockStatus × ℕ × τ :=
  match block with
  | none => (.invalidArgument, 0, s)
  | some block =>
    transferExact block.size (if destination then block.readAt else none) cancelled s offset length

/-- `vm_block_write_exact`; `present` is whether the source is no null pointer. -/
def RawBlock.writeExact (block : Option (RawBlock τ)) (present : Bool)
    (cancelled : τ → Bool × τ) (s : τ) (offset : ℕ) (source : List Octet) : BlockStatus × ℕ × τ :=
  match block with
  | none => (.invalidArgument, 0, s)
  | some block =>
    transferExact block.size
      (if present then block.writeAt.map fun writeAt ↦ fromSource writeAt offset source else none)
      cancelled s offset source.length

/-- The block whose callbacks keep a log. -/
def RawBlock.logged (block : RawBlock τ) : RawBlock (τ × List Entry) where
  size := block.size
  readAt := block.readAt.map Block.logged
  writeAt := block.writeAt.map fun writeAt s offset source requested ↦
    let answer := writeAt s.1 offset source requested
    (answer.1, answer.2, s.2 ++ [⟨offset, requested, answer.1⟩])

/-- What is promised of a transfer by its log: how many calls there were, where each of them asked
for how much, that the count is the sum of what was accepted, and when the status is OK. -/
structure Served (size : Option ℕ) (offset length : ℕ) (result : BlockStatus × ℕ)
    (log : List Entry) : Prop where
  calls : log.length ≤ length + 64 * (length + 1)
  requests : ∀ before entry after, log = before ++ entry :: after →
    entry.offset = offset + accepted before ∧ 1 ≤ entry.requested ∧ entry.requested ≤ 2 ^ 20 ∧
      ∃ bytes, size = some bytes ∧ entry.offset + entry.requested ≤ bytes
  transferred : result.2 = accepted log
  status : result.1 = .ok ↔
    (∃ bytes, size = some bytes ∧ checkRange bytes offset length = .ok) ∧ accepted log = length

theorem le_of_checkRange {size offset length : ℕ} (h : checkRange size offset length = .ok) :
    offset + length ≤ size := by
  rw [checkRange] at h
  split at h
  · contradiction
  split at h
  · contradiction
  · omega

theorem served_nil {size : Option ℕ} {offset length : ℕ} (hstatus : status = .ok ↔
      (∃ bytes, size = some bytes ∧ checkRange bytes offset length = .ok) ∧ 0 = length) :
    Served size offset length (status, 0) [] where
  calls := Nat.zero_le _
  requests before entry after h := by
    have hlength := congrArg List.length h
    simp at hlength
  transferred := rfl
  status := hstatus

theorem Transferred.served {size offset length : ℕ} {result : BlockStatus × ℕ} {log : List Entry}
    (hrange : checkRange size offset length = .ok)
    (h : Transferred offset length 0 0 result log) : Served (some size) offset length result log where
  calls := by
    have hcalls := h.calls
    simp only [noProgressLimit] at hcalls
    omega
  requests before entry after hlog := by
    obtain ⟨hoffset, hpos, hmax, hfits⟩ := h.requests before entry after hlog
    have hinside := le_of_checkRange hrange
    refine ⟨by omega, hpos, hmax, size, rfl, by omega⟩
  transferred := by
    rw [h.count, Nat.zero_add]
  status := by
    have hcount := h.count
    rw [Nat.zero_add] at hcount
    rw [h.status, hcount]
    exact (and_iff_right ⟨size, rfl, hrange⟩).symm

theorem transferExact_served (size : ℕ) (call : Option (Callback τ)) (cancelled : τ → Bool × τ)
    (s : τ) (offset length : ℕ) :
    let plain := transferExact size call cancelled s offset length
    ∃ log, transferExact size (call.map logged) (loggedPoll cancelled) (s, []) offset length =
        (plain.1, plain.2.1, plain.2.2, log) ∧
      Served (some size) offset length (plain.1, plain.2.1) log := by
  unfold transferExact
  simp only
  by_cases hrange : checkRange size offset length = .ok
  · rw [if_neg (not_not.2 hrange), if_neg (not_not.2 hrange)]
    by_cases hzero : length = 0
    · rw [if_pos hzero, if_pos hzero]
      exact ⟨[], rfl, served_nil (iff_of_true rfl ⟨⟨size, rfl, hrange⟩, hzero.symm⟩)⟩
    · rw [if_neg hzero, if_neg hzero]
      cases call with
      | none => exact ⟨[], rfl, served_nil (iff_of_false nofun fun h ↦ hzero h.2.symm)⟩
      | some call =>
        obtain ⟨log, hrun, htransferred⟩ := @exactLoop_logged τ call cancelled offset length 0 0 s []
          (Nat.zero_le _) (by decide)
        exact ⟨log, hrun, htransferred.served hrange⟩
  · rw [if_pos hrange, if_pos hrange]
    refine ⟨[], rfl, served_nil (iff_of_false hrange ?_)⟩
    rintro ⟨⟨bytes, hbytes, hok⟩, -⟩
    cases hbytes
    exact hrange hok

/-- Whatever the callbacks of a block answer and whenever the host cancels, an exact read and an
exact write make a bounded number of calls, each inside the block and starting where the accepted
octets end, report the number of octets that were accepted, and are OK exactly when the range was
good and these are all. -/
theorem exact_transfers (block : Option (RawBlock τ)) (present : Bool) (cancelled : τ → Bool × τ)
    (s : τ) (offset length : ℕ) (source : List Octet) :
    (let plain := RawBlock.readExact block present cancelled s offset length
      ∃ log, RawBlock.readExact (block.map RawBlock.logged) present (loggedPoll cancelled) (s, [])
          offset length = (plain.1, plain.2.1, plain.2.2, log) ∧
        Served (block.map RawBlock.size) offset length (plain.1, plain.2.1) log) ∧
    (let plain := RawBlock.writeExact block present cancelled s offset source
      ∃ log, RawBlock.writeExact (block.map RawBlock.logged) present (loggedPoll cancelled) (s, [])
          offset source = (plain.1, plain.2.1, plain.2.2, log) ∧
        Served (block.map RawBlock.size) offset source.length (plain.1, plain.2.1) log) := by
  cases block with
  | none =>
    have hnone (length : ℕ) : Served none offset length (.invalidArgument, 0) [] := by
      have hstatus : BlockStatus.invalidArgument ≠ .ok := nofun
      refine served_nil (iff_of_false hstatus ?_)
      rintro ⟨⟨bytes, hbytes, -⟩, -⟩
      contradiction
    exact ⟨⟨[], rfl, hnone length⟩, ⟨[], rfl, hnone source.length⟩⟩
  | some block =>
    obtain ⟨size, readAt, writeAt⟩ := block
    constructor
    · have hserved := transferExact_served size (if present then readAt else none) cancelled s offset
        length
      cases present with
      | false => exact hserved
      | true => exact hserved
    · have hserved := transferExact_served size (if present then writeAt.map fun writeAt ↦
        fromSource writeAt offset source else none) cancelled s offset source.length
      cases present with
      | false => exact hserved
      | true =>
        cases writeAt with
        | none => exact hserved
        | some writeAt => exact hserved

/-- A transfer of nothing past the end of the block transfers all of it and is not OK. -/
theorem not_ok_of_all_transferred : ¬∀ (block : RawBlock Unit) (offset length : ℕ),
      let result := RawBlock.readExact (some block) true (fun s ↦ (false, s)) () offset length
      result.1 = .ok ↔ result.2.1 = length := by
  intro h
  have hempty := h ⟨0, some fun s _ _ ↦ (⟨some .ok, 0⟩, s), none⟩ 1 0
  contradiction

end Functions

section Contract

/-- What a device reports of a read. -/
def Device.readCallback (dev : Device) : Callback dev.State := fun s offset requested ↦
  let answer := dev.readAt s offset requested
  (⟨some answer.1, answer.2.1.length⟩, answer.2.2)

/-- What a device reports of a write. -/
def Device.writeCallback (dev : Device) : SourceCallback dev.State := fun s offset source requested ↦
  let answer := dev.writeAt s offset (source.take requested)
  (⟨some answer.1, answer.2.1⟩, answer.2.2)

/-- A poll that leaves the state alone. -/
def polls {τ : Type} (cancelled : τ → Bool) : τ → Bool × τ := fun s ↦ (cancelled s, s)

theorem exactLoop_report {τ : Type} {call : Callback τ} {cancelled : τ → Bool × τ}
    {offset length actual completed noProgress : ℕ} {s t : τ} {status : IoStatus}
    (hmore : ¬length ≤ completed) (hgo : ¬(cancelled s).1 = true)
    (hanswer : answerAt call cancelled offset length s completed = (⟨some status, actual⟩, t)) :
    exactLoop call cancelled offset length s completed noProgress =
      if requestSize length completed < actual then (.protocol, completed, t)
      else if status ≠ .ok ∧ actual ≠ 0 then (.protocol, completed, t)
      else if status = .error then (.backend, completed, t)
      else if actual = 0 then
        if noProgressLimit ≤ noProgress + 1 then (.stalled, completed, t)
        else exactLoop call cancelled offset length t completed (noProgress + 1)
      else exactLoop call cancelled offset length t (completed + actual) 0 := by
  have hstate : (answerAt call cancelled offset length s completed).2 = t := by rw [hanswer]
  rw [← hstate]
  by_cases hover : requestSize length completed < actual
  · rw [if_pos hover]
    exact exactLoop_stop hmore hgo (by rw [hanswer]; exact if_pos hover)
  rw [if_neg hover]
  by_cases hzero : actual = 0
  · rw [if_neg fun h ↦ h.2 hzero, if_pos hzero]
    cases status with
    | error => exact exactLoop_stop hmore hgo (by rw [hanswer]; simp [judge, hzero])
    | _ => exact exactLoop_idle hmore hgo (by rw [hanswer]; simp [judge, hzero])
  · cases status with
    | ok =>
      rw [if_neg fun h ↦ h.1 rfl, if_neg nofun, if_neg hzero]
      exact exactLoop_take hmore hgo (by rw [hanswer]; simp [judge, hover, hzero])
    | _ =>
      rw [if_pos ⟨nofun, hzero⟩]
      exact exactLoop_stop hmore hgo (by rw [hanswer]; simp [judge, hzero])

variable {dev : Device} {cancelled : dev.State → Bool}

theorem readLoop_eq_exactLoop (s : dev.State) (offset length : ℕ) (completed : List Octet)
    (noProgress : ℕ) :
    let read := readLoop dev cancelled s offset length completed noProgress
    exactLoop dev.readCallback (polls cancelled) offset length s completed.length noProgress =
      (read.1, read.2.1.length, read.2.2) := by
  have hanswer (s : dev.State) (completed : List Octet) :
      answerAt dev.readCallback (polls cancelled) offset length s completed.length =
      let answer := dev.readAt s (offset + completed.length) (requestSize length completed.length)
      (⟨some answer.1, answer.2.1.length⟩, answer.2.2) := rfl
  fun_induction readLoop dev cancelled s offset length completed noProgress with
  | case1 s completed noProgress hall => exact exactLoop_done hall
  | case2 s completed noProgress hmore hgo => exact exactLoop_cancelled hmore hgo
  | case3 s completed noProgress hmore hgo requested answer hover =>
    exact (exactLoop_report hmore hgo (hanswer s completed)).trans (if_pos hover)
  | case4 s completed noProgress hmore hgo requested answer hover hmixed =>
    exact (exactLoop_report hmore hgo (hanswer s completed)).trans
      ((if_neg hover).trans (if_pos hmixed))
  | case5 s completed noProgress hmore hgo requested answer hover hmixed herror =>
    exact (exactLoop_report hmore hgo (hanswer s completed)).trans
      ((if_neg hover).trans ((if_neg hmixed).trans (if_pos herror)))
  | case6 s completed noProgress hmore hgo requested answer hover hmixed herror hnone hlimit =>
    exact (exactLoop_report hmore hgo (hanswer s completed)).trans ((if_neg hover).trans
      ((if_neg hmixed).trans ((if_neg herror).trans ((if_pos hnone).trans (if_pos hlimit)))))
  | case7 s completed noProgress hmore hgo requested answer hover hmixed herror hnone hlimit ih =>
    exact (exactLoop_report hmore hgo (hanswer s completed)).trans ((if_neg hover).trans
      ((if_neg hmixed).trans ((if_neg herror).trans ((if_pos hnone).trans
        ((if_neg hlimit).trans ih)))))
  | case8 s completed noProgress hmore hgo requested answer hover hmixed herror hsome ih =>
    rw [length_append] at ih
    exact (exactLoop_report hmore hgo (hanswer s completed)).trans ((if_neg hover).trans
      ((if_neg hmixed).trans ((if_neg herror).trans ((if_neg hsome).trans ih))))

theorem writeLoop_eq_exactLoop (s : dev.State) (offset : ℕ) (source : List Octet)
    (completed noProgress : ℕ) : writeLoop dev cancelled s offset source completed noProgress =
      exactLoop (fromSource dev.writeCallback offset source) (polls cancelled) offset source.length s
        completed noProgress := by
  have hanswer (s : dev.State) (completed : ℕ) :
      answerAt (fromSource dev.writeCallback offset source) (polls cancelled) offset source.length s
        completed =
      let answer := dev.writeAt s (offset + completed)
        ((source.drop completed).take (requestSize source.length completed))
      (⟨some answer.1, answer.2.1⟩, answer.2.2) := by
    have hplace : offset + completed - offset = completed := by omega
    simp only [answerAt, polls, fromSource, Device.writeCallback, hplace]
  fun_induction writeLoop dev cancelled s offset source completed noProgress with
  | case1 s completed noProgress hall => exact (exactLoop_done hall).symm
  | case2 s completed noProgress hmore hgo =>
    have hstop : (polls cancelled s).1 = true := hgo
    exact (exactLoop_cancelled hmore hstop).symm
  | case3 s completed noProgress hmore hgo requested answer hover =>
    exact ((exactLoop_report hmore hgo (hanswer s completed)).trans (if_pos hover)).symm
  | case4 s completed noProgress hmore hgo requested answer hover hmixed =>
    exact ((exactLoop_report hmore hgo (hanswer s completed)).trans
      ((if_neg hover).trans (if_pos hmixed))).symm
  | case5 s completed noProgress hmore hgo requested answer hover hmixed herror =>
    exact ((exactLoop_report hmore hgo (hanswer s completed)).trans
      ((if_neg hover).trans ((if_neg hmixed).trans (if_pos herror)))).symm
  | case6 s completed noProgress hmore hgo requested answer hover hmixed herror hnone hlimit =>
    exact ((exactLoop_report hmore hgo (hanswer s completed)).trans ((if_neg hover).trans
      ((if_neg hmixed).trans ((if_neg herror).trans ((if_pos hnone).trans (if_pos hlimit)))))).symm
  | case7 s completed noProgress hmore hgo requested answer hover hmixed herror hnone hlimit ih =>
    exact ih.trans ((exactLoop_report hmore hgo (hanswer s completed)).trans ((if_neg hover).trans
      ((if_neg hmixed).trans ((if_neg herror).trans ((if_pos hnone).trans (if_neg hlimit)))))).symm
  | case8 s completed noProgress hmore hgo requested answer hover hmixed herror hsome ih =>
    exact ih.trans ((exactLoop_report hmore hgo (hanswer s completed)).trans ((if_neg hover).trans
      ((if_neg hmixed).trans ((if_neg herror).trans (if_neg hsome))))).symm

end Contract

end S5LBox.Block
