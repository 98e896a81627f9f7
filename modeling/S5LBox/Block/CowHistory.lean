import S5LBox.Block.CowRecords

/-!
# Histories of a disk

A history is a sequence of intervals, each recorded by one overlay over one or more sessions of the
facade. Replaying the overlays of the last intervals, the newest first, takes the disk back to what
it was when the first of them began.
-/

namespace S5LBox.Block

open List Span UndoLog

variable {dev : Device}

/-- The host's calls do what they are asked to. -/
structure Host.Sound (host : Host) : Prop where
  memory : host.memory = true
  opens : host.opens = true
  reads : host.reads = true
  seeks : host.seeks = true
  closes : host.closes = true
  accepts : ∀ n, recordBytes ≤ host.accepts n

theorem sound_default : Host.Sound {} := ⟨rfl, rfl, rfl, rfl, rfl, fun _ ↦ le_rfl⟩

/-- The overlay file takes the disk back to `start`. -/
def Recorded (dev : Device) (start now : ℕ → Octet) (overlay : List Octet) : Prop :=
  ∃ log, overlay = encode dev.size log ∧ WellFormed dev log ∧
    Undoes page (log.map imageOf) start now

variable {start : ℕ → Octet} {cow : Cow dev} {under : dev.State}
  {state : dev.State × Option (List Octet)} {sessions : List Session}
  {intervals : List (List Session)}

theorem Records.recorded {log : List BlockRecord} (h : Records start cow log) :
    Recorded dev start (dev.bytes cow.under) cow.overlay :=
  ⟨log, h.overlay, h.wellFormed, h.undoes⟩

/-- The first session of an interval starts an empty log. -/
theorem vmCowOpen_fresh {host : Host} {file : Option (List Octet)}
    (hopen : vmCowOpen host dev under none = (.ok cow, file)) :
    cow.under = under ∧ Records (dev.bytes under) cow [] := by
  rcases vmCowOpen_cases hopen with ⟨_, -, hcow, -⟩ |
    ⟨-, overlay, saved, hcow, -, ⟨-, rfl, rfl⟩ | ⟨hfile, -⟩⟩
  · cases hcow
  · cases hcow
    refine ⟨rfl, ?_, fun _ h ↦ absurd h not_mem_nil, fun b ↦ by simp, .nil _⟩
    exact (append_nil _).symm
  · cases hfile

/-- A later session goes on with the log of the earlier ones. -/
theorem vmCowOpen_again {host : Host} {overlay : List Octet} {file : Option (List Octet)}
    (hrecorded : Recorded dev start (dev.bytes under) overlay)
    (hopen : vmCowOpen host dev under (some overlay) = (.ok cow, file)) :
    cow.under = under ∧ ∃ log, Records start cow log := by
  obtain ⟨log, rfl, hlog, hundoes⟩ := hrecorded
  rcases vmCowOpen_cases hopen with ⟨_, -, hcow, -⟩ |
    ⟨-, overlay, saved, hcow, -, ⟨hfile, -⟩ | ⟨hfile, -, -, hindex⟩⟩
  · cases hcow
  · cases hfile
  · cases hcow
    cases hfile
    refine ⟨rfl, log, rfl, hlog, fun b ↦ ?_, hundoes⟩
    obtain ⟨saved', hloop, hsaved⟩ := @indexRecords_encode dev dev.size [] log (fun _ ↦ false) hlog
    rw [records_encode dev.size hlog, range_eq_range'] at hindex
    rw [nil_append, length_nil, hindex] at hloop
    cases hloop
    rw [hsaved]
    simp

theorem page_eq_iff (x b : ℕ) :
    b * blockBytes ≤ x ∧ x < b * blockBytes + blockBytes ↔ page x = b := by
  have hmod : x % blockBytes < blockBytes := Nat.mod_lt _ (by decide)
  have hdiv : page x * blockBytes + x % blockBytes = x := Nat.div_add_mod' x blockBytes
  constructor
  · rintro ⟨hlow, hhigh⟩
    apply Nat.div_eq_of_lt_le
    · exact hlow
    · rw [Nat.succ_mul]
      exact hhigh
  · rintro rfl
    omega

theorem window_imageOf {record : BlockRecord} (h : record.2.length = blockBytes) :
    window (imageOf record).2 (record.1 * blockBytes) blockBytes = record.2 := by
  apply ext_getElem?
  intro i
  rw [getElem?_window]
  split
  case isTrue hi =>
    have hmod : (record.1 * blockBytes + i) % blockBytes = i := by
      rw [Nat.mul_add_mod', Nat.mod_eq_of_lt hi]
    show some (record.2.getD ((record.1 * blockBytes + i) % blockBytes) 0) = record.2[i]?
    rw [hmod, getD_eq_getElem?_getD, getElem?_eq_getElem (by omega), Option.getD_some]
  case isFalse hi => rw [getElem?_eq_none (by omega)]

theorem overwrite_block (bytes : ℕ → Octet) {record : BlockRecord}
    (h : record.2.length = blockBytes) :
    overwrite bytes (record.1 * blockBytes) record.2 = restore page bytes (imageOf record) := by
  funext x
  rw [← window_imageOf h, overwrite_window]
  exact if_congr (page_eq_iff x record.1) rfl rfl

/-- What a replay promises: if it ends well the disk is what it was, and it ends well unless the
host lets it down. -/
structure Replays (dev : Device) (start : ℕ → Octet) (sound : Prop)
    (result : CowStatus × dev.State) : Prop where
  bytes : result.1 = .ok → dev.bytes result.2 = start
  ends : sound → result.1 = .ok

theorem Replays.failed {sound : Prop} {status : CowStatus} {onto : dev.State}
    (hstatus : status ≠ .ok) (hsound : ¬sound) : Replays dev start sound (status, onto) where
  bytes h := absurd h hstatus
  ends h := absurd h hsound

theorem replayRecords_spec {host : Host} {log rest : List BlockRecord} {onto : dev.State}
    (hlog : WellFormed dev (log ++ rest)) :
    Replays dev (UndoLog.replay page (rest.map imageOf) (dev.bytes onto))
      (dev.Reliable ∧ host.reads = true)
      (replayRecords host dev (encode dev.size (log ++ rest))
        (List.range' log.length rest.length) onto) := by
  induction rest generalizing log onto with
  | nil => exact ⟨fun _ ↦ rfl, fun _ ↦ rfl⟩
  | cons record rest ih =>
    have hsize := dev.size_lt
    have hdone : WellFormed dev log := fun old hold ↦ hlog old (mem_append_left _ hold)
    obtain ⟨hblock, hlength⟩ := hlog record (by simp)
    have hinside := block_lt hblock
    have hindex : recordIndex (encode dev.size (log ++ record :: rest)) log.length = record.1 :=
      recordIndex_encode dev.size hdone (index_lt hblock)
    have hoctets := @recordBlock_encode dev dev.size log rest record hdone hlength
    have hsplit : log ++ record :: rest = (log ++ [record]) ++ rest := by simp
    have hoffset : record.1 * blockBytes % 2 ^ 64 = record.1 * blockBytes :=
      Nat.mod_eq_of_lt (by omega)
    have hend : (record.1 * blockBytes + blockBytes) % 2 ^ 64 =
        record.1 * blockBytes + blockBytes := Nat.mod_eq_of_lt (by omega)
    rw [length_cons, range'_succ, replayRecords]
    split
    case isTrue hreads =>
      refine .failed (by decide) fun hsound ↦ ?_
      rw [hsound.2] at hreads
      cases hreads
    case isFalse hreads =>
      simp only [hindex, hoctets, hoffset, hend]
      rw [if_neg (by omega)]
      have hexact := @writeExact_spec dev onto (record.1 * blockBytes) record.2 0 0
        (Nat.zero_le _) (by omega)
      rcases hresult : writeExact dev onto (record.1 * blockBytes) record.2 0 0
        with ⟨ok, count, next⟩
      rw [hresult] at hexact
      obtain ⟨-, hbytes, -, hall⟩ := hexact
      cases ok with
      | false =>
        refine .failed (by decide) fun hsound ↦ ?_
        have hok := @writeExact_reliable dev hsound.1 onto (record.1 * blockBytes) record.2 0 0
          (Nat.zero_le _) (by omega)
        rw [hresult] at hok
        cases hok
      | true =>
        have hcount : count = record.2.length := hall rfl
        simp only [hcount, drop_zero, Nat.sub_zero, take_length, Nat.add_zero] at hbytes
        rw [overwrite_block _ hlength] at hbytes
        have hnext := @ih (log ++ [record]) next (hsplit ▸ hlog)
        rw [hbytes, ← hsplit, length_append, length_singleton] at hnext
        exact hnext

theorem vmCowReplay_spec {host : Host} {start : ℕ → Octet} {onto : dev.State}
    {overlay : List Octet} (hrecorded : Recorded dev start (dev.bytes onto) overlay) :
    Replays dev start (dev.Reliable ∧ host.Sound)
      (vmCowReplay host dev onto (some overlay)) := by
  obtain ⟨log, rfl, hlog, hundoes⟩ := hrecorded
  unfold vmCowReplay
  simp only [formatOk_encode, getLe_encode dev.size_lt, whole_encode dev.size hlog,
    records_encode dev.size hlog]
  split
  case isTrue hopens => exact .failed (by decide) fun h ↦ by simp [h.2.opens] at hopens
  split
  case isTrue hreads => exact .failed (by decide) fun h ↦ by simp [h.2.reads] at hreads
  rw [if_neg (by simp)]
  split
  case isTrue hseeks => exact .failed (by decide) fun h ↦ by simp [h.2.seeks] at hseeks
  rw [if_neg (by simp)]
  split
  case isTrue hmemory => exact .failed (by decide) fun h ↦ by simp [h.2.memory] at hmemory
  rw [range_eq_range']
  have hloop := @replayRecords_spec dev host [] log onto hlog
  simp only [nil_append, length_nil, hundoes.replay] at hloop
  rcases hresult : replayRecords host dev (encode dev.size log) (List.range' 0 log.length) onto
    with ⟨status, next⟩
  rw [hresult] at hloop
  cases status with
  | ok =>
    have hflush := dev.flush_keeps next
    refine ⟨fun _ ↦ ?_, fun h ↦ ?_⟩
    · show dev.bytes (dev.flush next).2 = start
      rw [hflush]
      exact hloop.bytes rfl
    · exact if_pos (h.1.flush next)
  | badArgument | io | badFormat | sizeMismatch | truncated | outOfMemory =>
    exact .failed (by decide) fun h ↦ by cases hloop.ends ⟨h.1, h.2.reads⟩

/-- What the machine does to the facade. -/
inductive FacadeOp where
  | read (offset : DWord) (requested : ℕ)
  | write (host : Host) (offset : DWord) (source : List Octet)
  | flush (host : Host)

/-- One call; a write counts only if it ends well and whole. -/
def facadeOp (cow : Cow dev) : FacadeOp → Option (Cow dev)
  | .read offset requested => some (cowReadAt cow offset requested).2.2
  | .write host offset source =>
    match cowWriteAt host cow offset source with
    | (.ok, done, cow) => if done = source.length then some cow else none
    | _ => none
  | .flush host => some (cowFlush host cow).2

/-- An open facade, what the machine does to it, and the close. -/
structure Session where
  host : Host := {}
  ops : List FacadeOp

/-- A session on the disk and the overlay file as it finds them. -/
def Session.run (session : Session) (state : dev.State × Option (List Octet)) :
    Option (dev.State × Option (List Octet)) :=
  match vmCowOpen session.host dev state.1 state.2 with
  | (.ok cow, _) =>
    match session.ops.foldlM facadeOp cow with
    | some cow =>
      match vmCowClose session.host cow with
      | (.ok, under, overlay) => some (under, some overlay)
      | _ => none
    | none => none
  | _ => none

/-- An interval: sessions on one overlay, which does not exist before the first. -/
def interval (dev : Device) (under : dev.State) (sessions : List Session) :
    Option (dev.State × List Octet) :=
  match sessions.foldlM (fun state session ↦ session.run state) (under, none) with
  | some (under, some overlay) => some (under, overlay)
  | _ => none

/-- A history, in the order of time: the disk at its end and the overlays it has left. -/
def history (dev : Device) : dev.State → List (List Session) →
    Option (dev.State × List (List Octet))
  | under, [] => some (under, [])
  | under, sessions :: rest =>
    match interval dev under sessions with
    | none => none
    | some (next, overlay) =>
      match history dev next rest with
      | none => none
      | some (last, overlays) => some (last, overlay :: overlays)

/-- Replaying overlays given in the order of time, the newest first, until one fails. -/
def replayNewestFirst (host : ℕ → Host) (dev : Device) : List (List Octet) → dev.State →
    CowStatus × dev.State
  | [], onto => (.ok, onto)
  | overlay :: newer, onto =>
    match replayNewestFirst host dev newer onto with
    | (.ok, onto) => vmCowReplay (host newer.length) dev onto (some overlay)
    | refused => refused

theorem records_facadeOp {cow' : Cow dev} {op : FacadeOp} (h : ∃ log, Records start cow log)
    (hop : facadeOp cow op = some cow') : ∃ log, Records start cow' log := by
  obtain ⟨log, hlog⟩ := h
  cases op with
  | read offset requested =>
    cases hop
    have hkeeps := dev.read_keeps cow.under offset.toNat requested
    exact ⟨log, hlog.overlay, hlog.wellFormed, hlog.saved, hkeeps ▸ hlog.undoes⟩
  | write host offset source =>
    unfold facadeOp at hop
    rcases hwrite : cowWriteAt host cow offset source with ⟨status, done, next⟩
    simp only [hwrite] at hop
    cases status with
    | ok =>
      simp only at hop
      split at hop
      · cases hop
        exact (cowWriteAt_spec hlog hwrite).1
      · cases hop
    | retry | error => cases hop
  | flush host =>
    cases hop
    unfold cowFlush
    split
    · exact ⟨log, hlog⟩
    · have hkeeps := dev.flush_keeps cow.under
      exact ⟨log, hlog.overlay, hlog.wellFormed, hlog.saved, hkeeps ▸ hlog.undoes⟩

theorem records_ops {ops : List FacadeOp} {cow' : Cow dev} (h : ∃ log, Records start cow log)
    (hops : ops.foldlM facadeOp cow = some cow') : ∃ log, Records start cow' log := by
  induction ops generalizing cow with
  | nil =>
    cases hops
    exact h
  | cons op rest ih =>
    rw [foldlM_cons] at hops
    obtain ⟨next, hnext, hrest⟩ := Option.bind_eq_some_iff.1 hops
    exact ih (records_facadeOp h hnext) hrest

/-- What the overlay file says about the disk: nothing yet, or how to take it back. -/
def Kept (dev : Device) (start : ℕ → Octet) (state : dev.State × Option (List Octet)) : Prop :=
  match state.2 with
  | none => dev.bytes state.1 = start
  | some overlay => Recorded dev start (dev.bytes state.1) overlay

theorem kept_session {session : Session} {state' : dev.State × Option (List Octet)}
    (h : Kept dev start state) (hrun : session.run state = some state') :
    Kept dev start state' := by
  unfold Session.run at hrun
  rcases hopen : vmCowOpen session.host dev state.1 state.2 with ⟨_ | cow, file⟩
  · rw [hopen] at hrun
    cases hrun
  have hrecords : ∃ log, Records start cow log := by
    rcases state with ⟨under, _ | overlay⟩
    · obtain ⟨hunder, hlog⟩ := vmCowOpen_fresh hopen
      exact ⟨[], h ▸ hlog⟩
    · exact (vmCowOpen_again h hopen).2
  simp only [hopen] at hrun
  rcases hops : session.ops.foldlM facadeOp cow with _ | last
  · rw [hops] at hrun
    cases hrun
  obtain ⟨log, hlog⟩ := records_ops hrecords hops
  simp only [hops, vmCowClose] at hrun
  by_cases hcloses : session.host.closes = true
  · rw [if_pos hcloses] at hrun
    cases hrun
    exact hlog.recorded
  · rw [if_neg hcloses] at hrun
    cases hrun

theorem kept_sessions {state' : dev.State × Option (List Octet)} (h : Kept dev start state)
    (hrun : sessions.foldlM (fun state (session : Session) ↦ session.run state) state =
      some state') : Kept dev start state' := by
  induction sessions generalizing state with
  | nil =>
    cases hrun
    exact h
  | cons session rest ih =>
    rw [foldlM_cons] at hrun
    obtain ⟨next, hnext, hrest⟩ := Option.bind_eq_some_iff.1 hrun
    exact ih (kept_session h hnext) hrest

theorem recorded_interval {next : dev.State} {overlay : List Octet}
    (h : interval dev under sessions = some (next, overlay)) :
    Recorded dev (dev.bytes under) (dev.bytes next) overlay := by
  unfold interval at h
  rcases hrun : sessions.foldlM (fun state (session : Session) ↦ session.run state)
    (under, none) with _ | ⟨last, _ | file⟩
  · rw [hrun] at h
    cases h
  · rw [hrun] at h
    cases h
  · rw [hrun] at h
    cases h
    have hstart : Kept dev (dev.bytes under) (under, none) := rfl
    exact kept_sessions hstart hrun

theorem replays_history {host : ℕ → Host} {began final : dev.State} {overlays : List (List Octet)}
    (h : history dev began intervals = some (final, overlays)) : Replays dev (dev.bytes began)
      (dev.Reliable ∧ ∀ n, (host n).Sound)
      (replayNewestFirst host dev overlays final) := by
  induction intervals generalizing began overlays with
  | nil =>
    cases h
    exact ⟨fun _ ↦ rfl, fun _ ↦ rfl⟩
  | cons sessions rest ih =>
    unfold history at h
    rcases hinterval : interval dev began sessions with _ | ⟨next, overlay⟩
    · rw [hinterval] at h
      cases h
    rcases hrest : history dev next rest with _ | ⟨last, newer⟩
    · simp only [hinterval, hrest] at h
      cases h
    simp only [hinterval, hrest] at h
    cases h
    have hnewer := ih hrest
    have hrecorded := recorded_interval hinterval
    unfold replayNewestFirst
    rcases hreplay : replayNewestFirst host dev newer final with ⟨status, onto⟩
    rw [hreplay] at hnewer
    cases status with
    | ok =>
      have hbytes : dev.bytes onto = dev.bytes next := hnewer.bytes rfl
      rw [← hbytes] at hrecorded
      have hreplays := @vmCowReplay_spec dev (host newer.length) _ onto overlay hrecorded
      exact ⟨hreplays.bytes, fun hsound ↦ hreplays.ends ⟨hsound.1, hsound.2 newer.length⟩⟩
    | badArgument | io | badFormat | sizeMismatch | truncated | outOfMemory =>
      exact .failed (by decide) fun hsound ↦ by cases hnewer.ends hsound

theorem history_take {start began final : dev.State} {before overlays : List (List Octet)} {i : ℕ}
    (hbegan : history dev start (intervals.take i) = some (began, before))
    (hfinal : history dev start intervals = some (final, overlays)) :
    history dev began (intervals.drop i) = some (final, overlays.drop i) := by
  induction i generalizing start intervals before overlays with
  | zero =>
    rw [take_zero] at hbegan
    cases hbegan
    exact hfinal
  | succ i ih =>
    cases intervals with
    | nil =>
      rw [take_nil] at hbegan
      cases hbegan
      cases hfinal
      rfl
    | cons sessions rest =>
      rw [take_succ_cons] at hbegan
      unfold history at hbegan hfinal
      rcases hinterval : interval dev start sessions with _ | ⟨next, overlay⟩
      · rw [hinterval] at hfinal
        cases hfinal
      rcases htaken : history dev next (rest.take i) with _ | ⟨last, newer⟩
      · simp only [hinterval, htaken] at hbegan
        cases hbegan
      rcases hrest : history dev next rest with _ | ⟨last', newer'⟩
      · simp only [hinterval, hrest] at hfinal
        cases hfinal
      simp only [hinterval, htaken] at hbegan
      simp only [hinterval, hrest] at hfinal
      cases hbegan
      cases hfinal
      exact ih htaken hrest

theorem saveBlock_reliable {host : Host} (hdev : dev.Reliable) (hhost : host.Sound)
    {cow : Cow dev} {b : ℕ} (hb : b < blockCount dev) :
    ∃ cow', saveBlock host cow b = (true, cow') ∧ cow'.poisoned = cow.poisoned := by
  have hinside := block_lt hb
  have hsize := dev.size_lt
  unfold saveBlock
  split
  case isTrue => exact ⟨cow, rfl, rfl⟩
  case isFalse =>
    have hsome := @readExact_reliable dev hdev cow.under (b * blockBytes) blockBytes [] 0
      (Nat.zero_le _) hinside
    have hread := @readExact_spec dev cow.under (b * blockBytes) blockBytes [] 0 rfl
      (Nat.zero_le _) (by omega)
    rcases hresult : readExact dev cow.under (b * blockBytes) blockBytes [] 0 with ⟨_ | scratch, under⟩
    · rw [hresult] at hsome
      cases hsome
    rw [hresult] at hread
    have hlength : scratch.length = blockBytes := by rw [hread.2 scratch rfl, length_window]
    have hrecord : (recordOctets (b, scratch)).length = recordBytes := length_recordOctets hlength
    have htaken : ((recordOctets (b, scratch)).take (host.accepts cow.overlay.length)).length =
        recordBytes := by
      have haccepts := hhost.accepts cow.overlay.length
      rw [length_take]
      omega
    have hoctets : LittleEndian.put indexBytes b ++ scratch = recordOctets (b, scratch) := rfl
    simp only [hoctets]
    rw [if_neg (not_not.2 htaken)]
    exact ⟨_, rfl, rfl⟩

theorem saveBlocks_reliable {host : Host} (hdev : dev.Reliable) (hhost : host.Sound)
    {blocks : List ℕ} {cow : Cow dev} (hblocks : ∀ b ∈ blocks, b < blockCount dev) :
    ∃ cow', saveBlocks host blocks cow = (true, cow') ∧ cow'.poisoned = cow.poisoned := by
  induction blocks generalizing cow with
  | nil => exact ⟨cow, rfl, rfl⟩
  | cons b rest ih =>
    obtain ⟨next, hnext, hpoisoned⟩ :=
      @saveBlock_reliable dev host hdev hhost cow b (hblocks b mem_cons_self)
    obtain ⟨last, hlast, hpoisoned'⟩ :=
      @ih next fun c hc ↦ hblocks c (mem_cons_of_mem _ hc)
    refine ⟨last, ?_, hpoisoned'.trans hpoisoned⟩
    unfold saveBlocks
    rw [hnext]
    exact hlast

theorem cowWriteAt_reliable {host : Host} (hdev : dev.Reliable) (hhost : host.Sound)
    (hblocks : dev.size % blockBytes = 0) {offset : DWord} {source : List Octet}
    (hpoisoned : cow.poisoned = false) (hinside : offset.toNat + source.length ≤ dev.size) :
    ∃ cow', cowWriteAt host cow offset source = (.ok, source.length, cow') ∧
      cow'.poisoned = false := by
  have hsize := dev.size_lt
  unfold cowWriteAt
  rw [if_neg (by simp [hpoisoned])]
  split
  case isTrue hempty => exact ⟨cow, by rw [hempty], hpoisoned⟩
  case isFalse hsome =>
    have hmod : (offset.toNat + source.length - 1) % 2 ^ 64 = offset.toNat + source.length - 1 :=
      Nat.mod_eq_of_lt (by omega)
    have hlast : (offset.toNat + source.length - 1) / blockBytes < blockCount dev := by
      rw [Nat.div_lt_iff_lt_mul (by decide), blockCount_mul hblocks]
      omega
    have hfirst : offset.toNat / blockBytes ≤ (offset.toNat + source.length - 1) / blockBytes :=
      Nat.div_le_div_right (by omega)
    simp only [hmod]
    rw [if_neg (Nat.not_le.2 hlast)]
    obtain ⟨saving, hsaving, hkept⟩ := @saveBlocks_reliable dev host hdev hhost
      (List.range' (offset.toNat / blockBytes)
        ((offset.toNat + source.length - 1) / blockBytes + 1 - offset.toNat / blockBytes)) cow
      (fun b hb ↦ by
        have hle := (mem_range'_1.1 hb).2
        omega)
    rw [hsaving]
    have hok := @writeExact_reliable dev hdev saving.under offset.toNat source 0 0
      (Nat.zero_le _) hinside
    have hexact := @writeExact_spec dev saving.under offset.toNat source 0 0 (Nat.zero_le _)
      offset.isLt
    rcases hresult : writeExact dev saving.under offset.toNat source 0 0 with ⟨ok, count, under⟩
    rw [hresult] at hok hexact
    obtain rfl : ok = true := hok
    have hcount : count = source.length := hexact.2.2.2 rfl
    simp only [hresult, hcount]
    exact ⟨_, rfl, hkept.trans hpoisoned⟩

/-- The calls that can be satisfied: writes inside the disk, and all others. -/
def FacadeOp.Inside (dev : Device) : FacadeOp → Prop
  | .write host offset source => host.Sound ∧ offset.toNat + source.length ≤ dev.size
  | _ => True

theorem facadeOp_reliable (hdev : dev.Reliable) (hblocks : dev.size % blockBytes = 0)
    {op : FacadeOp} (hpoisoned : cow.poisoned = false) (hop : op.Inside dev) :
    ∃ cow', facadeOp cow op = some cow' ∧ cow'.poisoned = false := by
  cases op with
  | read offset requested => exact ⟨_, rfl, hpoisoned⟩
  | write host offset source =>
    obtain ⟨cow', hwrite, hkept⟩ := cowWriteAt_reliable hdev hop.1 hblocks hpoisoned hop.2
    refine ⟨cow', ?_, hkept⟩
    unfold facadeOp
    simp only [hwrite, if_true]
  | flush host =>
    refine ⟨_, rfl, ?_⟩
    unfold cowFlush
    split <;> exact hpoisoned

theorem facadeOps_reliable (hdev : dev.Reliable) (hblocks : dev.size % blockBytes = 0)
    {ops : List FacadeOp} (hpoisoned : cow.poisoned = false) (hops : ∀ op ∈ ops, op.Inside dev) :
    ∃ cow', ops.foldlM facadeOp cow = some cow' := by
  induction ops generalizing cow with
  | nil => exact ⟨cow, rfl⟩
  | cons op rest ih =>
    obtain ⟨next, hnext, hkept⟩ :=
      facadeOp_reliable hdev hblocks hpoisoned (hops op mem_cons_self)
    obtain ⟨last, hlast⟩ := ih hkept fun op hop ↦ hops op (mem_cons_of_mem _ hop)
    refine ⟨last, ?_⟩
    rw [foldlM_cons, hnext]
    exact hlast

theorem vmCowOpen_reliable {host : Host} (hhost : host.Sound) (hsize : dev.size ≠ 0)
    (hblocks : dev.size % blockBytes = 0) {start : ℕ → Octet}
    {state : dev.State × Option (List Octet)} (h : Kept dev start state) :
    ∃ cow file, vmCowOpen host dev state.1 state.2 = (.ok cow, file) ∧ cow.poisoned = false := by
  obtain ⟨under, file⟩ := state
  have hdisk : ¬(dev.size = 0 ∨ dev.size % blockBytes ≠ 0) := by
    rintro (h | h)
    · exact hsize h
    · exact h hblocks
  unfold vmCowOpen
  rw [if_neg hdisk, if_neg (by simp [hhost.memory]), if_neg (by simp [hhost.opens])]
  cases file with
  | none =>
    have hlength : ((header dev.size).take (host.accepts 0)).length = headerBytes := by
      have haccepts := hhost.accepts 0
      have hroom : headerBytes ≤ recordBytes := by decide
      rw [length_take, length_header]
      omega
    simp only
    rw [if_neg (not_not.2 hlength), if_neg (by simp [hhost.seeks])]
    exact ⟨_, _, rfl, rfl⟩
  | some overlay =>
    obtain ⟨log, hoverlay, hlog, -⟩ := h
    change overlay = _ at hoverlay
    subst hoverlay
    obtain ⟨saved, hloop, -⟩ := @indexRecords_encode dev dev.size [] log (fun _ ↦ false) hlog
    rw [nil_append, length_nil] at hloop
    have hindex : indexExisting host dev (encode dev.size log) = .ok saved := by
      unfold indexExisting
      rw [if_neg (by simp [hhost.seeks]), if_neg (by rw [length_encode dev.size hlog]; omega),
        if_neg (not_not.2 (whole_encode dev.size hlog)), if_neg (by simp [hhost.reads]),
        records_encode dev.size hlog, range_eq_range', hloop]
    simp [formatOk_encode, hhost.reads, getLe_encode dev.size_lt, hindex]

/-- A session that can be satisfied. -/
def Session.Inside (dev : Device) (session : Session) : Prop :=
  session.host.Sound ∧ ∀ op ∈ session.ops, op.Inside dev

theorem session_reliable (hdev : dev.Reliable) (hsize : dev.size ≠ 0)
    (hblocks : dev.size % blockBytes = 0) {session : Session} (h : Kept dev start state)
    (hsession : session.Inside dev) :
    ∃ under overlay, session.run state = some (under, some overlay) := by
  obtain ⟨cow, file, hopen, hpoisoned⟩ := vmCowOpen_reliable hsession.1 hsize hblocks h
  obtain ⟨last, hops⟩ := facadeOps_reliable hdev hblocks hpoisoned hsession.2
  refine ⟨last.under, last.overlay, ?_⟩
  unfold Session.run
  simp only [hopen, hops, vmCowClose, hsession.1.closes, if_true]

theorem sessions_reliable (hdev : dev.Reliable) (hsize : dev.size ≠ 0)
    (hblocks : dev.size % blockBytes = 0) (h : Kept dev start state)
    (hsessions : ∀ session ∈ sessions, session.Inside dev)
    (hsome : sessions ≠ [] ∨ state.2 ≠ none) :
    ∃ under overlay, sessions.foldlM (fun state (session : Session) ↦ session.run state) state =
      some (under, some overlay) := by
  induction sessions generalizing state with
  | nil =>
    obtain ⟨under, _ | overlay⟩ := state
    · rcases hsome with h | h <;> exact absurd rfl h
    · exact ⟨under, overlay, rfl⟩
  | cons session rest ih =>
    obtain ⟨under, overlay, hrun⟩ :=
      session_reliable hdev hsize hblocks h (hsessions session mem_cons_self)
    rw [foldlM_cons, hrun]
    exact ih (kept_session h hrun) (fun other hother ↦ hsessions other (mem_cons_of_mem _ hother))
      (Or.inr (by simp))

theorem history_reliable (hdev : dev.Reliable) (hsize : dev.size ≠ 0)
    (hblocks : dev.size % blockBytes = 0) (hintervals : ∀ sessions ∈ intervals,
      sessions ≠ [] ∧ ∀ session ∈ sessions, session.Inside dev) (start : dev.State) :
    ∃ final overlays, history dev start intervals = some (final, overlays) := by
  induction intervals generalizing start with
  | nil => exact ⟨start, [], rfl⟩
  | cons sessions rest ih =>
    obtain ⟨hsome, hsessions⟩ := hintervals sessions mem_cons_self
    have hstart : Kept dev (dev.bytes start) (start, none) := rfl
    obtain ⟨next, overlay, hrun⟩ :=
      sessions_reliable hdev hsize hblocks hstart hsessions (Or.inl hsome)
    obtain ⟨final, overlays, hrest⟩ :=
      ih (fun other hother ↦ hintervals other (mem_cons_of_mem _ hother)) next
    have hinterval : interval dev start sessions = some (next, overlay) := by
      unfold interval
      rw [hrun]
    refine ⟨final, overlay :: overlays, ?_⟩
    unfold history
    simp only [hinterval, hrest]

/-- Replaying the overlays from interval `i` on, the newest first, onto the disk at the end gives
the disk as it was when interval `i` began, and ends well unless the host lets it down. -/
theorem replay_of_history (dev : Device) (host : ℕ → Host) (start began final : dev.State)
    (intervals : List (List Session)) (before overlays : List (List Octet)) (i : ℕ)
    (hbegan : history dev start (intervals.take i) = some (began, before))
    (hfinal : history dev start intervals = some (final, overlays)) :
    Replays dev (dev.bytes began) (dev.Reliable ∧ ∀ n, (host n).Sound)
      (replayNewestFirst host dev (overlays.drop i) final) :=
  replays_history (history_take hbegan hfinal)

theorem ramDisk_reliable (size : ℕ) (hsize : size < 2 ^ 64) : (ramDisk size hsize).Reliable where
  read s offset requested hsome hinside := by
    have hread : (ramDisk size hsize).readAt s offset requested =
        (.ok, window s offset requested, s) := if_pos hinside
    rw [hread]
    refine ⟨rfl, fun hnil ↦ ?_⟩
    have hlength := length_window s offset requested
    change window s offset requested = [] at hnil
    rw [hnil, length_nil] at hlength
    omega
  write s offset data hsome hinside := by
    have hwrite : (ramDisk size hsize).writeAt s offset data =
        (.ok, data.length, overwrite s offset data) := if_pos hinside
    rw [hwrite]
    exact ⟨rfl, fun hnil ↦ hsome (length_eq_zero_iff.1 hnil)⟩
  flush s := rfl

/-- Two intervals on a disk of two blocks: a write in each of two sessions, and one across the
blocks. -/
def twoIntervals : List (List Session) :=
  [[{ ops := [.write {} 0 [1, 2, 3]] }, { ops := [.write {} 2 [4]] }],
    [{ ops := [.write {} 4095 [5, 6]] }]]

theorem replay_of_twoIntervals : ∃ began final before overlays,
    let disk := ramDisk 8192 (by decide)
    history disk (fun _ ↦ 0) (twoIntervals.take 1) = some (began, before) ∧
      history disk (fun _ ↦ 0) twoIntervals = some (final, overlays) ∧
        Replays disk (disk.bytes began) (disk.Reliable ∧ ∀ _ : ℕ, Host.Sound {})
          (replayNewestFirst (fun _ ↦ {}) disk (overlays.drop 1) final) := by
  have hdev := ramDisk_reliable 8192 (by decide)
  have hinside : ∀ sessions ∈ twoIntervals,
      sessions ≠ [] ∧ ∀ session ∈ sessions, session.Inside (ramDisk 8192 (by decide)) := by
    simp [twoIntervals, Session.Inside, FacadeOp.Inside, sound_default, ramDisk]
  obtain ⟨final, overlays, hfinal⟩ := history_reliable hdev (by decide) (by decide) hinside
    (fun _ ↦ (0 : Octet))
  obtain ⟨began, before, hbegan⟩ := history_reliable hdev (by decide) (by decide)
    (fun sessions h ↦ hinside sessions (mem_of_mem_take h)) (fun _ ↦ (0 : Octet))
  exact ⟨began, final, before, overlays, hbegan, hfinal,
    replay_of_history _ _ _ _ _ _ _ _ _ hbegan hfinal⟩

end S5LBox.Block
