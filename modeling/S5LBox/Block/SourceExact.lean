import S5LBox.Block.Exact

/-!
# The exact reader of a byte source

`vm_source_read_exact` beside `vm_block_read_exact`. It asks for all that is left at once, takes a
read of nothing for the end of the source, and asks again as often as it is told to. Where none of
the three shows, the two read the same.
-/

namespace S5LBox.Block

open List

inductive SourceStatus where
  | ok
  | invalidArgument
  | range
  | eof
  | io
  | cancelled
  | protocol
  deriving DecidableEq

inductive SourceVerdict where
  | take (count : ℕ)
  | retry
  | stop (status : SourceStatus)

/-- The checks on a report. -/
def sourceJudge (remaining : ℕ) (report : Report) : SourceVerdict :=
  if remaining < report.actual then .stop .protocol
  else
    match report.status with
    | some .ok => if report.actual = 0 then .stop .eof else .take report.actual
    | some .retry => if report.actual ≠ 0 then .stop .protocol else .retry
    | some .error => if report.actual ≠ 0 then .stop .protocol else .stop .io
    | none => .stop .protocol

variable {τ : Type}

/-- The loop up to a number of calls; there is no status while it is not over. -/
def sourceLoop (call : Callback τ) (cancelled : τ → Bool × τ) (offset length : ℕ) :
    (calls : ℕ) → τ → (completed : ℕ) → Option SourceStatus × ℕ × τ
  | calls, s, completed =>
    if length ≤ completed then (some .ok, completed, s)
    else if (cancelled s).1 then (some .cancelled, completed, (cancelled s).2)
    else
      match calls with
      | 0 => (none, completed, s)
      | calls + 1 =>
        let answer := call (cancelled s).2 (offset + completed) (length - completed)
        match sourceJudge (length - completed) answer.1 with
        | .stop status => (some status, completed, answer.2)
        | .retry => sourceLoop call cancelled offset length calls answer.2 completed
        | .take count => sourceLoop call cancelled offset length calls answer.2 (completed + count)

/-- `vm_source_t`. -/
structure Source (τ : Type) where
  size : DWord
  readAt : Option (Callback τ)

/-- What the function does with a source; the callback is none where it or the buffer is null. -/
def pullExact (size : DWord) (call : Option (Callback τ)) (cancelled : τ → Bool × τ) (calls : ℕ)
    (s : τ) (offset length : ℕ) : Option SourceStatus × ℕ × τ :=
  if size.toNat < offset ∨ size.toNat - offset < length then (some .range, 0, s)
  else if length = 0 then (some .ok, 0, s)
  else
    match call with
    | none => (some .invalidArgument, 0, s)
    | some call => sourceLoop call cancelled offset length calls s 0

/-- `vm_source_read_exact` up to a number of calls; `destination` is whether there is a buffer. -/
def Source.readExact (source : Option (Source τ)) (destination : Bool) (cancelled : τ → Bool × τ)
    (calls : ℕ) (s : τ) (offset length : ℕ) : Option SourceStatus × ℕ × τ :=
  match source with
  | none => (some .invalidArgument, 0, s)
  | some source =>
    pullExact source.size (if destination then source.readAt else none) cancelled calls s offset
      length

/-- A call that was told to ask again. -/
def Entry.retried (entry : Entry) : Bool := entry.report = ⟨some .retry, 0⟩

/-- What is promised of a read by its log, from a point on where some octets are there already:
there are as many calls at most as octets left and answers that said to ask again, each for all that
is left, in range and where the accepted octets end. -/
structure Pulled (size offset length completed calls : ℕ) (result : Option SourceStatus × ℕ)
    (log : List Entry) : Prop where
  bound : log.length ≤ length - completed + log.countP Entry.retried
  unfinished : result.1 = none → log.length = calls
  requests : ∀ before entry after, log = before ++ entry :: after →
    entry.offset = offset + completed + accepted before ∧ 0 < entry.requested ∧
      completed + accepted before + entry.requested = length ∧
      entry.offset + entry.requested ≤ size
  count : result.2 = completed + accepted log
  status : result.1 = some .ok ↔ offset + length ≤ size ∧ result.2 = length

variable {call : Callback τ} {cancelled : τ → Bool × τ} {size offset length completed calls : ℕ}
  {result : Option SourceStatus × ℕ} {log : List Entry} {entry : Entry} {report : Report}

/-- The status of a source for that of a block; a source does not stall. -/
def sourceStatusOf : BlockStatus → Option SourceStatus
  | .ok => some .ok
  | .invalidArgument => some .invalidArgument
  | .overflow => some .range
  | .bounds => some .range
  | .backend => some .io
  | .cancelled => some .cancelled
  | .stalled => none
  | .protocol => some .protocol

/-- What the two readers make of one report. -/
def Judged (requested : ℕ) (report : Report) : SourceVerdict → Prop
  | .take count => judge requested report = .take count
  | .retry => judge requested report = .idle ∧ report = ⟨some .retry, 0⟩
  | .stop status => status ≠ .ok ∧
      (judge requested report = .idle ∧ report = ⟨some .ok, 0⟩ ∨
        ∃ verdict, judge requested report = .stop verdict ∧ sourceStatusOf verdict = some status)

theorem judged (requested : ℕ) (report : Report) :
    Judged requested report (sourceJudge requested report) := by
  obtain ⟨status, actual⟩ := report
  unfold sourceJudge
  by_cases hmore : requested < actual
  · simp [Judged, hmore, judge, sourceStatusOf]
  · by_cases hzero : actual = 0
    · rcases status with _ | _ | _ | _ <;> simp [Judged, hzero, judge, sourceStatusOf]
    · rcases status with _ | _ | _ | _ <;> simp [Judged, hmore, hzero, judge, sourceStatusOf]

theorem retried_iff : entry.retried = true ↔ entry.report = ⟨some .retry, 0⟩ := decide_eq_true_iff

theorem accepted_of_ne_take (h : ∀ count, judge entry.requested entry.report ≠ .take count) :
    entry.accepted = 0 := by
  unfold Entry.accepted
  split
  · next count hcount => exact absurd hcount (h count)
  · rfl

theorem pulled_nil (hstatus : result.1 = some .ok ↔ offset + length ≤ size ∧ completed = length)
    (hcount : result.2 = completed) (hcalls : result.1 = none → calls = 0) :
    Pulled size offset length completed calls result [] where
  bound := Nat.zero_le _
  unfinished h := (hcalls h).symm
  requests before entry after h := absurd h (by simp)
  count := hcount
  status := hcount ▸ hstatus

theorem pulled_end {status : SourceStatus}
    (hstatus : status = .ok ↔ offset + length ≤ size ∧ completed = length) :
    Pulled size offset length completed calls (some status, completed) [] :=
  pulled_nil (by rw [← hstatus, Option.some_inj]) rfl fun h ↦ absurd h (Option.some_ne_none _)

theorem Pulled.cons (h : Pulled size offset length (completed + entry.accepted) calls result log)
    (hrange : offset + length ≤ size) (hmore : ¬length ≤ completed)
    (hoffset : entry.offset = offset + completed)
    (hrequested : entry.requested = length - completed)
    (hbound : log.length < length - completed + (entry :: log).countP Entry.retried) :
    Pulled size offset length completed (calls + 1) result (entry :: log) where
  bound := hbound
  unfinished hnone := congrArg Nat.succ (h.unfinished hnone)
  requests before other after hlog := by
    cases before with
    | nil =>
      obtain ⟨rfl, -⟩ := List.cons.inj hlog
      rw [accepted_nil]
      omega
    | cons first before =>
      obtain ⟨rfl, hrest⟩ := List.cons.inj hlog
      have hrequest := h.requests before other after hrest
      have hsum : accepted (entry :: before) = entry.accepted + accepted before := rfl
      rw [hsum]
      omega
  count := by
    have hsum : accepted (entry :: log) = entry.accepted + accepted log := rfl
    rw [hsum, h.count, Nat.add_assoc]
  status := h.status

/-- Bounded runs of retries from a point on where some are there already, and no read of nothing. -/
def Calm : (idle : ℕ) → List Entry → Prop
  | _, [] => True
  | idle, entry :: rest =>
    entry.report ≠ ⟨some .ok, 0⟩ ∧
      if entry.retried then idle + 1 < noProgressLimit ∧ Calm (idle + 1) rest else Calm 0 rest

/-- What a calm log says of a read from a point on: its calls are bounded, and a block that may ask
for all of it at once reads the same. -/
def Agreed (call : Callback τ) (cancelled : τ → Bool × τ) (offset length : ℕ) (s : τ)
    (completed : ℕ) (result : Option SourceStatus × ℕ × τ) (log : List Entry) : Prop :=
  ∀ idle < noProgressLimit, Calm idle log →
    log.length ≤ noProgressLimit * (length - completed) + (noProgressLimit - idle) ∧
      (length ≤ maxCallbackBytes → ∀ status, result.1 = some status →
        ∃ verdict, sourceStatusOf verdict = some status ∧
          exactLoop call cancelled offset length s completed idle = (verdict, result.2))

section Agreement

variable {s t : τ} {actual count : ℕ}

theorem agreed_done (h : length ≤ completed) :
    Agreed call cancelled offset length s completed (some .ok, completed, s) [] :=
  fun _ _ _ ↦ ⟨Nat.zero_le _, fun _ _ h' ↦ ⟨.ok, h', exactLoop_done h⟩⟩

section

variable (hmore : ¬length ≤ completed)

include hmore

theorem agreed_cancelled (h : (cancelled s).1 = true) :
    Agreed call cancelled offset length s completed
      (some .cancelled, completed, (cancelled s).2) [] :=
  fun _ _ _ ↦ ⟨Nat.zero_le _, fun _ _ h' ↦ ⟨.cancelled, h', exactLoop_cancelled hmore h⟩⟩

omit hmore in
/-- The question both readers ask where a block may ask for all that is left. -/
theorem requestSize_whole (h : length ≤ maxCallbackBytes) :
    requestSize length completed = length - completed :=
  min_eq_left ((Nat.sub_le _ _).trans h)

theorem sourceLoop_turn {past : List Entry} {verdict : SourceVerdict}
    (hgo : ¬(cancelled s).1 = true)
    (hanswer : call (cancelled s).2 (offset + completed) (length - completed) = (report, t)) :
    sourceJudge (length - completed) report = verdict →
    sourceLoop (logged call) (loggedPoll cancelled) offset length (calls + 1) (s, past) completed =
      let kept := (t, past ++ [⟨offset + completed, length - completed, report⟩])
      match verdict with
      | .stop status => (some status, completed, kept)
      | .retry => sourceLoop (logged call) (loggedPoll cancelled) offset length calls kept completed
      | .take count =>
        sourceLoop (logged call) (loggedPoll cancelled) offset length calls kept
          (completed + count) := by
  rintro rfl
  have hlogged : ¬(loggedPoll cancelled (s, past)).1 = true := hgo
  rw [sourceLoop, if_neg hmore, if_neg hlogged]
  simp only [logged, loggedPoll, hanswer]

theorem agreed_stop {status : SourceStatus} (hgo : ¬(cancelled s).1 = true)
    (hanswer : call (cancelled s).2 (offset + completed) (length - completed) = (entry.report, t))
    (hjudged : Judged (length - completed) entry.report (.stop status)) :
    Agreed call cancelled offset length s completed (some status, completed, t) [entry] := by
  refine fun idle hidle hcalm ↦ ⟨?_, fun hchunk other hother ↦ ?_⟩
  · simp only [noProgressLimit, length_singleton] at hidle ⊢
    omega
  obtain rfl := Option.some.inj hother
  obtain ⟨-, ⟨-, heof⟩ | ⟨verdict, hblock, hstatus⟩⟩ := hjudged
  · exact absurd heof hcalm.1
  have hrun := @exactLoop_stop verdict τ call cancelled offset length s completed idle hmore hgo
  rw [answerAt, requestSize_whole hchunk, hanswer] at hrun
  exact ⟨verdict, hstatus, hrun hblock⟩

theorem Agreed.retry {result : Option SourceStatus × ℕ × τ} (hgo : ¬(cancelled s).1 = true)
    (hanswer : call (cancelled s).2 (offset + completed) (length - completed) = (entry.report, t))
    (hjudged : Judged (length - completed) entry.report .retry)
    (h : Agreed call cancelled offset length t completed result log) :
    Agreed call cancelled offset length s completed result (entry :: log) := by
  intro idle hlimit hcalm
  have hrest := hcalm.2
  rw [if_pos (retried_iff.2 hjudged.2)] at hrest
  obtain ⟨hcalls, hsame⟩ := h (idle + 1) hrest.1 hrest.2
  refine ⟨?_, fun hchunk status hstatus ↦ ?_⟩
  · rw [length_cons]
    omega
  obtain ⟨verdict, hverdict, hrun⟩ := hsame hchunk status hstatus
  have hidle := @exactLoop_idle τ call cancelled offset length s completed idle hmore hgo
  rw [answerAt, requestSize_whole hchunk, hanswer, if_neg (not_le.2 hrest.1)] at hidle
  exact ⟨verdict, hverdict, (hidle hjudged.1).trans hrun⟩

theorem Agreed.take {result : Option SourceStatus × ℕ × τ} (hgo : ¬(cancelled s).1 = true)
    (hanswer : call (cancelled s).2 (offset + completed) (length - completed) = (entry.report, t))
    (hjudged : Judged (length - completed) entry.report (.take count))
    (h : Agreed call cancelled offset length t (completed + count) result log) :
    Agreed call cancelled offset length s completed result (entry :: log) := by
  intro idle hlimit hcalm
  obtain ⟨hpos, hcount, hok, -⟩ := judge_take hjudged
  have hretried : ¬entry.retried = true := by
    intro hretry
    rw [retried_iff.1 hretry] at hok
    cases hok
  have hrest := hcalm.2
  rw [if_neg hretried] at hrest
  obtain ⟨hcalls, hsame⟩ := h 0 (by decide) hrest
  refine ⟨?_, fun hchunk status hstatus ↦ ?_⟩
  · simp only [noProgressLimit, length_cons] at hlimit hcalls ⊢
    omega
  obtain ⟨verdict, hstatusOf, hrun⟩ := hsame hchunk status hstatus
  have htake := @exactLoop_take τ call cancelled offset length s completed idle count hmore hgo
  rw [answerAt, requestSize_whole hchunk, hanswer] at htake
  exact ⟨verdict, hstatusOf, (htake hjudged).trans hrun⟩

end

end Agreement

theorem sourceLoop_logged (calls : ℕ) (s : τ) (past : List Entry)
    (hrange : offset + length ≤ size) (hle : completed ≤ length) :
    let plain := sourceLoop call cancelled offset length calls s completed
    ∃ log, sourceLoop (logged call) (loggedPoll cancelled) offset length calls (s, past) completed =
        (plain.1, plain.2.1, plain.2.2, past ++ log) ∧
      Pulled size offset length completed calls (plain.1, plain.2.1) log ∧
      Agreed call cancelled offset length s completed plain log := by
  fun_induction sourceLoop call cancelled offset length calls s completed generalizing past with
  | case1 calls s completed hdone =>
    refine ⟨[], ?_, pulled_nil (iff_of_true rfl (by omega)) rfl nofun, agreed_done hdone⟩
    unfold sourceLoop
    rw [if_pos hdone, append_nil]
  | case2 calls s completed hdone hstop =>
    have hlogged : (loggedPoll cancelled (s, past)).1 = true := hstop
    refine ⟨[], ?_, pulled_nil (iff_of_false nofun (by omega)) rfl nofun,
      agreed_cancelled hdone hstop⟩
    unfold sourceLoop
    rw [if_neg hdone, if_pos hlogged, append_nil]
    rfl
  | case3 s completed hdone hgo =>
    have hlogged : ¬(loggedPoll cancelled (s, past)).1 = true := hgo
    refine ⟨[], ?_, pulled_nil (iff_of_false nofun (by omega)) rfl fun _ ↦ rfl,
      fun _ _ _ ↦ ⟨Nat.zero_le _, nofun⟩⟩
    rw [sourceLoop, if_neg hdone, if_neg hlogged, append_nil]
  | case4 s completed hdone hgo calls answer status hverdict =>
    let entry : Entry := ⟨offset + completed, length - completed, answer.1⟩
    have hjudged : Judged (length - completed) entry.report (.stop status) := hverdict ▸ judged _ _
    have haccepted : entry.accepted = 0 := accepted_of_ne_take fun count hcount ↦ by
      rcases hjudged.2 with ⟨h, -⟩ | ⟨verdict, h, -⟩ <;> cases h.symm.trans hcount
    refine ⟨[entry], sourceLoop_turn hdone hgo rfl hverdict, ?_, agreed_stop hdone hgo rfl hjudged⟩
    · refine Pulled.cons (pulled_nil ?_ ?_ nofun) hrange hdone rfl rfl ?_
      · exact iff_of_false (fun h ↦ hjudged.1 (Option.some.inj h)) (by omega)
      · rw [haccepted]
        rfl
      · exact Nat.lt_add_right _ (by simp only [length_nil]; omega)
  | case5 s completed hdone hgo calls answer hverdict ih =>
    let entry : Entry := ⟨offset + completed, length - completed, answer.1⟩
    have hjudged : Judged (length - completed) entry.report .retry := hverdict ▸ judged _ _
    have haccepted : entry.accepted = 0 := accepted_of_ne_take fun count hcount ↦ by
      cases hjudged.1.symm.trans hcount
    obtain ⟨log, hrun, hpulled, hagreed⟩ := ih (past ++ [entry]) hle
    refine ⟨entry :: log, ?_, ?_, hagreed.retry hdone hgo rfl hjudged⟩
    · rw [sourceLoop_turn hdone hgo rfl hverdict]
      exact hrun.trans (by rw [append_assoc]; rfl)
    · refine Pulled.cons (haccepted.symm ▸ hpulled) hrange hdone rfl rfl ?_
      rw [countP_cons_of_pos (retried_iff.2 hjudged.2)]
      exact Nat.lt_succ_of_le hpulled.bound
  | case6 s completed hdone hgo calls answer count hverdict ih =>
    let entry : Entry := ⟨offset + completed, length - completed, answer.1⟩
    have hjudged : Judged (length - completed) entry.report (.take count) := hverdict ▸ judged _ _
    have haccepted : entry.accepted = count := by rw [Entry.accepted, hjudged]
    have htake := judge_take hjudged
    obtain ⟨log, hrun, hpulled, hagreed⟩ := ih (past ++ [entry]) (by omega)
    refine ⟨entry :: log, ?_, ?_, hagreed.take hdone hgo rfl hjudged⟩
    · rw [sourceLoop_turn hdone hgo rfl hverdict]
      exact hrun.trans (by rw [append_assoc]; rfl)
    · refine Pulled.cons (haccepted.symm ▸ hpulled) hrange hdone rfl rfl ?_
      have hbound := hpulled.bound
      rw [countP_cons]
      omega

/-- The source whose callback keeps a log. -/
def Source.logged (source : Source τ) : Source (τ × List Entry) where
  size := source.size
  readAt := source.readAt.map Block.logged

/-- The block that answers as the source does. -/
def Source.block (source : Source τ) : RawBlock τ := ⟨source.size.toNat, source.readAt, none⟩

theorem checkRange_source (size : DWord) (offset length : ℕ) :
    if size.toNat < offset ∨ size.toNat - offset < length then
      ∃ verdict, checkRange size.toNat offset length = verdict ∧
        verdict ≠ .ok ∧ sourceStatusOf verdict = some .range
    else checkRange size.toNat offset length = .ok := by
  have hsize := size.isLt
  rw [checkRange]
  split_ifs with hrange hwrap hwrap
  · exact ⟨_, rfl, by decide, rfl⟩
  · exact ⟨_, rfl, by decide, rfl⟩
  · omega
  · rfl

theorem pullExact_served (size : DWord) (call : Option (Callback τ)) (cancelled : τ → Bool × τ)
    (s : τ) (offset length calls : ℕ) :
    let plain := pullExact size call cancelled calls s offset length
    ∃ log, pullExact size (call.map logged) (loggedPoll cancelled) calls (s, []) offset length =
        (plain.1, plain.2.1, plain.2.2, log) ∧
      Pulled size.toNat offset length 0 calls (plain.1, plain.2.1) log ∧
      (length ≤ maxCallbackBytes → Calm 0 log → log.length ≤ 64 * (length + 1) ∧
        ∀ status, plain.1 = some status → ∃ verdict, sourceStatusOf verdict = some status ∧
          transferExact size.toNat call cancelled s offset length = (verdict, plain.2)) := by
  have hrange := checkRange_source size offset length
  unfold pullExact transferExact
  by_cases hout : size.toNat < offset ∨ size.toNat - offset < length
  · simp only [if_pos hout] at hrange ⊢
    obtain ⟨verdict, hcheck, hbad, hstatus⟩ := hrange
    rw [hcheck, if_pos hbad]
    exact ⟨[], rfl, pulled_end (iff_of_false (by decide) (by omega)), fun _ _ ↦
      ⟨Nat.zero_le _, fun status h ↦ ⟨verdict, hstatus.trans h, rfl⟩⟩⟩
  simp only [if_neg hout] at hrange ⊢
  rw [hrange, if_neg (not_not.2 rfl)]
  by_cases hzero : length = 0
  · simp only [if_pos hzero]
    exact ⟨[], rfl, pulled_end (iff_of_true rfl (by omega)), fun _ _ ↦
      ⟨Nat.zero_le _, fun status h ↦ ⟨.ok, h, rfl⟩⟩⟩
  simp only [if_neg hzero]
  cases call with
  | none =>
    exact ⟨[], rfl, pulled_end (iff_of_false (by decide) (by omega)), fun _ _ ↦
      ⟨Nat.zero_le _, fun status h ↦ ⟨.invalidArgument, h, rfl⟩⟩⟩
  | some call =>
    have hread : offset + length ≤ size.toNat := by omega
    obtain ⟨log, hrun, hpulled, hagreed⟩ := @sourceLoop_logged τ call cancelled size.toNat offset
      length 0 calls s [] hread (Nat.zero_le _)
    refine ⟨log, hrun, hpulled, fun hchunk hcalm ↦ ?_⟩
    obtain ⟨hcalls, hsame⟩ := hagreed 0 (by decide) hcalm
    exact ⟨hcalls, hsame hchunk⟩

/-- Whatever the callback answers, an exact read of a source ends after as many calls at most as it
asks for octets and was told to ask again, each in range and after the octets before; it counts
these octets and is OK exactly when they are all and in range. The block with the same callback ends
after a bounded number of calls, and reads the same where no answer is an OK of nothing, the runs of
retries stay below its limit and it may ask for all at once. -/
theorem source_read_exact (source : Source τ) (destination : Bool) (cancelled : τ → Bool × τ)
    (s : τ) (offset length calls : ℕ) :
    let plain := Source.readExact (some source) destination cancelled calls s offset length
    let block := RawBlock.readExact (some source.block) destination cancelled s offset length
    (∃ log, RawBlock.readExact (some source.block.logged) destination (loggedPoll cancelled) (s, [])
        offset length = (block.1, block.2.1, block.2.2, log) ∧
      Served (some source.size.toNat) offset length (block.1, block.2.1) log) ∧
    ∃ log, Source.readExact (some source.logged) destination (loggedPoll cancelled) calls (s, [])
        offset length = (plain.1, plain.2.1, plain.2.2, log) ∧
      Pulled source.size.toNat offset length 0 calls (plain.1, plain.2.1) log ∧
      (length ≤ maxCallbackBytes → Calm 0 log → log.length ≤ 64 * (length + 1) ∧
        ∀ status, plain.1 = some status →
          ∃ verdict, sourceStatusOf verdict = some status ∧ block = (verdict, plain.2)) := by
  have hblock := transferExact_served source.size.toNat
    (if destination then source.readAt else none) cancelled s offset length
  have hsource := pullExact_served source.size (if destination then source.readAt else none)
    cancelled s offset length calls
  cases destination with
  | false => exact ⟨hblock, hsource⟩
  | true => exact ⟨hblock, hsource⟩

/-- A source that always says to ask again keeps its reader asking, and an octet after a read of
nothing is read from the block and not from the source. -/
theorem source_reads_differ :
    (¬∃ bound : ℕ → ℕ, ∀ (source : Source ℕ) (length : ℕ),
      (Source.readExact (some source) true (fun s ↦ (false, s)) (bound length) 0 0 length).1 ≠
        none) ∧
    ∃ source : Source ℕ,
      (Source.readExact (some source) true (fun s ↦ (false, s)) 2 0 0 1).1 = some .eof ∧
        RawBlock.readExact (some source.block) true (fun s ↦ (false, s)) 0 0 1 = (.ok, 1, 2) := by
  refine ⟨fun ⟨bound, h⟩ ↦ h ⟨1, some fun s _ _ ↦ (⟨some .retry, 0⟩, s)⟩ 1 ?_,
    ⟨1, some fun s _ _ ↦ (⟨some .ok, s⟩, s + 1)⟩, rfl, ?_⟩
  · have hasks (calls : ℕ) : (sourceLoop (fun s _ _ ↦ (⟨some .retry, 0⟩, s)) (fun s ↦ (false, s)) 0
        1 calls (0 : ℕ) 0).1 = none := by
      induction calls with
      | zero => rfl
      | succ calls ih => exact ih
    exact hasks (bound 1)
  · have hidle := @exactLoop_idle ℕ (fun s _ _ ↦ (⟨some .ok, s⟩, s + 1)) (fun s ↦ (false, s)) 0 1 0
      0 0 (by decide) nofun rfl
    have htake := @exactLoop_take ℕ (fun s _ _ ↦ (⟨some .ok, s⟩, s + 1)) (fun s ↦ (false, s)) 0 1 1
      0 1 1 (by decide) nofun rfl
    exact hidle.trans (htake.trans (exactLoop_done le_rfl))

end S5LBox.Block
