import S5LBox.Block.CowRecords
import S5LBox.Block.Exact

/-!
# The facade under the block layer

What `vm_block.h` asks of one write, and when the facade of an overlay does it. The facade passes
a request on in pieces. A device that takes some of them and fails on a later one makes it answer
with an error and with the octets taken, which the header forbids and which the block layer turns
away as a breach of the protocol. There is no other way for it to break its word.
-/

namespace S5LBox.Block

open List Span

variable {dev : Device}

/-- What `vm_block.h` asks of a write: a refusal has written nothing, and OK comes with what has
been written, which is not nothing. -/
structure Honours (before after : ℕ → Octet) (offset : ℕ) (source : List Octet)
    (status : IoStatus) (actual : ℕ) : Prop where
  refused : status ≠ .ok → actual = 0 ∧ after = before
  transferred : status = .ok →
    0 < actual ∧ actual ≤ source.length ∧ after = overwrite before offset (source.take actual)

/-- The device takes pieces of the octets until it has `taken` of them, and then fails: it answers
with an error, or sixty-five times in a row with nothing. -/
inductive Breaks (dev : Device) (offset : ℕ) (source : List Octet) :
    dev.State → (done stalls taken : ℕ) → Prop
  | error {s : dev.State} {done stalls : ℕ} (hmore : done < source.length)
      (hanswer : (dev.writeAt s ((offset + done) % 2 ^ 64) (source.drop done)).1 = .error) :
      Breaks dev offset source s done stalls done
  | stalled {s : dev.State} {done stalls : ℕ} (hmore : done < source.length)
      (hanswer : (dev.writeAt s ((offset + done) % 2 ^ 64) (source.drop done)).1 ≠ .error)
      (hnone : (dev.writeAt s ((offset + done) % 2 ^ 64) (source.drop done)).2.1 = 0)
      (hlimit : 64 < stalls + 1) : Breaks dev offset source s done stalls done
  | again {s : dev.State} {done stalls taken : ℕ} (hmore : done < source.length)
      (hanswer : (dev.writeAt s ((offset + done) % 2 ^ 64) (source.drop done)).1 ≠ .error)
      (hnone : (dev.writeAt s ((offset + done) % 2 ^ 64) (source.drop done)).2.1 = 0)
      (hlimit : ¬64 < stalls + 1)
      (hrest : Breaks dev offset source
        (dev.writeAt s ((offset + done) % 2 ^ 64) (source.drop done)).2.2 done (stalls + 1) taken) :
      Breaks dev offset source s done stalls taken
  | more {s : dev.State} {done stalls taken : ℕ} (hmore : done < source.length)
      (hanswer : (dev.writeAt s ((offset + done) % 2 ^ 64) (source.drop done)).1 ≠ .error)
      (hsome : (dev.writeAt s ((offset + done) % 2 ^ 64) (source.drop done)).2.1 ≠ 0)
      (hrest : Breaks dev offset source
        (dev.writeAt s ((offset + done) % 2 ^ 64) (source.drop done)).2.2
        (done + (dev.writeAt s ((offset + done) % 2 ^ 64) (source.drop done)).2.1) 0 taken) :
      Breaks dev offset source s done stalls taken

theorem breaks_of_writeExact {s : dev.State} {offset : ℕ} {source : List Octet} {done stalls : ℕ}
    (h : (writeExact dev s offset source done stalls).1 = false) :
    Breaks dev offset source s done stalls (writeExact dev s offset source done stalls).2.1 := by
  fun_induction writeExact dev s offset source done stalls with
  | case1 s done stalls hall => cases h
  | case2 s done stalls hall answer herror => exact .error (not_le.1 hall) herror
  | case3 s done stalls hall answer herror hnone hlimit =>
    exact .stalled (not_le.1 hall) herror hnone hlimit
  | case4 s done stalls hall answer herror hnone hlimit ih =>
    exact .again (not_le.1 hall) herror hnone hlimit (ih h)
  | case5 s done stalls hall answer herror hsome ih =>
    exact .more (not_le.1 hall) herror hsome (ih h)

theorem Breaks.writeExact {s : dev.State} {offset : ℕ} {source : List Octet}
    {done stalls taken : ℕ} (h : Breaks dev offset source s done stalls taken) :
    ∃ left, writeExact dev s offset source done stalls = (false, taken, left) := by
  induction h with
  | error hmore hanswer =>
    rw [Block.writeExact, if_neg (not_le.2 hmore)]
    exact ⟨_, if_pos hanswer⟩
  | stalled hmore hanswer hnone hlimit =>
    rw [Block.writeExact, if_neg (not_le.2 hmore)]
    simp only
    rw [if_neg hanswer, if_pos hnone, if_pos hlimit]
    exact ⟨_, rfl⟩
  | again hmore hanswer hnone hlimit hrest ih =>
    rw [Block.writeExact, if_neg (not_le.2 hmore)]
    simp only
    rw [if_neg hanswer, if_pos hnone, if_neg hlimit]
    exact ih
  | more hmore hanswer hsome hrest ih =>
    rw [Block.writeExact, if_neg (not_le.2 hmore)]
    simp only
    rw [if_neg hanswer, if_neg hsome]
    exact ih

theorem Breaks.ne_nil {s : dev.State} {offset : ℕ} {source : List Octet} {done stalls taken : ℕ}
    (h : Breaks dev offset source s done stalls taken) : source ≠ [] := by
  rintro rfl
  cases h with
  | error hmore | stalled hmore | again hmore | more hmore => exact Nat.not_lt_zero _ hmore

/-- The blocks a request touches, as `cow_write_at` counts them. -/
def lastBlock (offset : DWord) (source : List Octet) : ℕ :=
  ((offset.toNat + source.length - 1) % 2 ^ 64) / blockBytes

def touched (offset : DWord) (source : List Octet) : List ℕ :=
  List.range' (offset.toNat / blockBytes)
    (lastBlock offset source + 1 - offset.toNat / blockBytes)

/-- The blocks under a request get saved, and then the device takes a part of it and fails. -/
def Torn (host : Host) (cow : Cow dev) (offset : DWord) (source : List Octet) : Prop :=
  cow.poisoned = false ∧ lastBlock offset source < blockCount dev ∧
    ∃ kept, saveBlocks host (touched offset source) cow = (true, kept) ∧
      ∃ taken, 0 < taken ∧ Breaks dev offset.toNat source kept.under 0 0 taken

theorem readExact_keeps (s : dev.State) (offset want : ℕ) (done : List Octet) (stalls : ℕ) :
    dev.bytes (readExact dev s offset want done stalls).2 = dev.bytes s := by
  fun_induction readExact dev s offset want done stalls with
  | case1 => rfl
  | case2 | case3 => exact dev.read_keeps ..
  | case4 s done stalls hmore answer herror hnone hlimit ih => exact ih.trans (dev.read_keeps ..)
  | case5 s done stalls hmore answer herror hsome ih => exact ih.trans (dev.read_keeps ..)

theorem saveBlock_keeps {host : Host} {cow cow' : Cow dev} {block : ℕ} {ok : Bool}
    (h : saveBlock host cow block = (ok, cow')) : dev.bytes cow'.under = dev.bytes cow.under := by
  have hread := readExact_keeps cow.under (block * blockBytes) blockBytes [] 0
  unfold saveBlock at h
  split at h
  case isTrue =>
    cases h
    rfl
  case isFalse =>
    rcases hresult : readExact dev cow.under (block * blockBytes) blockBytes [] 0
      with ⟨_ | scratch, under⟩
    · rw [hresult] at h hread
      cases h
      exact hread
    · rw [hresult] at h hread
      simp only at h
      split at h
      · cases h
        exact hread
      · cases h
        exact hread

/-- Saving reads the disk and leaves it as it is, however it ends. -/
theorem saveBlocks_keeps {host : Host} {blocks : List ℕ} {cow cow' : Cow dev} {ok : Bool}
    (h : saveBlocks host blocks cow = (ok, cow')) : dev.bytes cow'.under = dev.bytes cow.under := by
  induction blocks generalizing cow with
  | nil =>
    cases h
    rfl
  | cons block rest ih =>
    rw [saveBlocks] at h
    rcases hsave : saveBlock host cow block with ⟨_ | _, next⟩
    · rw [hsave] at h
      cases h
      exact saveBlock_keeps hsave
    · rw [hsave] at h
      exact (ih h).trans (saveBlock_keeps hsave)

section Write

variable {host : Host} {cow : Cow dev} {offset : DWord} {source : List Octet}

/-- A write the facade turns away before it has touched the disk. -/
theorem honours_refused {cow' : Cow dev} (hkeeps : dev.bytes cow'.under = dev.bytes cow.under) :
    Honours (dev.bytes cow.under) (dev.bytes cow'.under) offset.toNat source .error 0 :=
  ⟨fun _ ↦ ⟨rfl, hkeeps⟩, nofun⟩

theorem cowWriteAt_checked (hpoisoned : cow.poisoned = false) (hsome : source ≠ [])
    (hlast : lastBlock offset source < blockCount dev) : cowWriteAt host cow offset source =
      match saveBlocks host (touched offset source) cow with
      | (false, cow) => (.error, 0, cow)
      | (true, cow) =>
        let (ok, done, under) := writeExact dev cow.under offset.toNat source 0 0
        (if ok then .ok else .error, done, { cow with under := under }) := by
  have hlength : source.length ≠ 0 := fun h ↦ hsome (length_eq_zero_iff.1 h)
  have hpoisoned' : ¬cow.poisoned = true := by simp [hpoisoned]
  rw [cowWriteAt, if_neg hpoisoned', if_neg hlength]
  exact if_neg (not_le.2 hlast)

theorem Torn.cowWriteAt (h : Torn host cow offset source) :
    ∃ taken next, 0 < taken ∧ cowWriteAt host cow offset source = (.error, taken, next) := by
  obtain ⟨hpoisoned, hlast, kept, hsave, taken, hpos, hbreaks⟩ := h
  obtain ⟨left, hwrite⟩ := hbreaks.writeExact
  refine ⟨taken, { kept with under := left }, hpos, ?_⟩
  rw [cowWriteAt_checked hpoisoned hbreaks.ne_nil hlast, hsave]
  simp only
  rw [hwrite]
  rfl

/-- The write behind the saving keeps the contract unless the device tears it. -/
theorem honours_writeExact (kept : Cow dev) (hsome : source ≠ []) :
    let result := writeExact dev kept.under offset.toNat source 0 0
    Honours (dev.bytes kept.under) (dev.bytes result.2.2) offset.toNat source
        (if result.1 then .ok else .error) result.2.1 ↔
      ¬∃ taken, 0 < taken ∧ Breaks dev offset.toNat source kept.under 0 0 taken := by
  intro result
  have hlength : source.length ≠ 0 := fun h ↦ hsome (length_eq_zero_iff.1 h)
  obtain ⟨⟨-, hle⟩, hbytes, -, hall⟩ := @writeExact_spec dev kept.under offset.toNat source 0 0
    (Nat.zero_le _) (by have hoffset := offset.isLt; omega)
  have hwritten : dev.bytes result.2.2 =
      overwrite (dev.bytes kept.under) offset.toNat (source.take result.2.1) := hbytes
  cases hok : result.1 with
  | true =>
    refine iff_of_true ⟨fun h ↦ absurd rfl h, fun _ ↦ ?_⟩ ?_
    · have hcount : result.2.1 = source.length := hall hok
      exact ⟨by omega, hle, hwritten⟩
    · rintro ⟨taken, -, hbreaks⟩
      obtain ⟨left, hleft⟩ := hbreaks.writeExact
      have hfails : result = (false, taken, left) := hleft
      rw [hfails] at hok
      contradiction
  | false =>
    constructor
    · rintro hhonours ⟨taken, hpos, hbreaks⟩
      obtain ⟨left, hleft⟩ := hbreaks.writeExact
      have hfails : result = (false, taken, left) := hleft
      have hzero := (hhonours.refused nofun).1
      rw [hfails] at hzero
      simp only at hzero
      omega
    · intro hwhole
      have hzero : result.2.1 = 0 := by
        by_contra hne
        exact hwhole ⟨result.2.1, Nat.pos_of_ne_zero hne, breaks_of_writeExact hok⟩
      rw [hzero, take_zero, overwrite_nil] at hwritten
      exact ⟨fun _ ↦ ⟨hzero, hwritten⟩, nofun⟩

/-- A write through the facade keeps the contract exactly when it is no empty one, which a facade
in order answers with OK, and the device does not tear it. -/
theorem honours_cowWriteAt (host : Host) (cow : Cow dev) (offset : DWord) (source : List Octet) :
    Honours (dev.bytes cow.under) (dev.bytes (cowWriteAt host cow offset source).2.2.under)
        offset.toNat source (cowWriteAt host cow offset source).1
        (cowWriteAt host cow offset source).2.1 ↔
      (cow.poisoned = true ∨ source ≠ []) ∧ ¬Torn host cow offset source := by
  by_cases hpoisoned : cow.poisoned = true
  · have hanswer : cowWriteAt host cow offset source = (.error, 0, cow) := if_pos hpoisoned
    have hwhole : ¬Torn host cow offset source := fun h ↦ Bool.false_ne_true (h.1.symm.trans hpoisoned)
    rw [hanswer]
    exact iff_of_true (honours_refused rfl) ⟨.inl hpoisoned, hwhole⟩
  have hsound : cow.poisoned = false := Bool.eq_false_iff.2 hpoisoned
  by_cases hsome : source = []
  · subst hsome
    have hanswer : cowWriteAt host cow offset [] = (.ok, 0, cow) := by
      rw [cowWriteAt, if_neg hpoisoned]
      rfl
    rw [hanswer]
    refine iff_of_false (fun h ↦ ?_) fun h ↦ ?_
    · exact lt_irrefl 0 (h.transferred rfl).1
    · rcases h.1 with h | h
      · exact hpoisoned h
      · exact h rfl
  rw [and_iff_right (Or.inr hsome)]
  by_cases hlast : lastBlock offset source < blockCount dev
  · rw [cowWriteAt_checked hsound hsome hlast]
    rcases hsave : saveBlocks host (touched offset source) cow with ⟨_ | _, kept⟩
    · refine iff_of_true (honours_refused (saveBlocks_keeps hsave)) ?_
      rintro ⟨-, -, other, hother, -⟩
      cases hsave.symm.trans hother
    · have hkeeps := saveBlocks_keeps hsave
      rw [← hkeeps]
      refine (honours_writeExact kept hsome).trans (not_congr ⟨fun h ↦ ?_, ?_⟩)
      · exact ⟨hsound, hlast, kept, hsave, h⟩
      · rintro ⟨-, -, other, hother, h⟩
        cases hsave.symm.trans hother
        exact h
  · have hlength : source.length ≠ 0 := fun h ↦ hsome (length_eq_zero_iff.1 h)
    have hanswer : cowWriteAt host cow offset source = (.error, 0, cow) := by
      rw [cowWriteAt, if_neg hpoisoned, if_neg hlength]
      exact if_pos (not_lt.1 hlast)
    rw [hanswer]
    exact iff_of_true (honours_refused rfl) fun h ↦ hlast h.2.1

end Write

section Transfer

variable {κ : Type}

/-- The facade of an overlay as a block, beside whatever state the host polls. -/
def facade (host : Host) (dev : Device) (κ : Type) : RawBlock (Cow dev × κ) where
  size := dev.size
  readAt := some fun s offset requested ↦
    let (status, data, cow) := cowReadAt s.1 (.ofNat 64 offset) requested
    (⟨some status, data.length⟩, cow, s.2)
  writeAt := some fun s offset source requested ↦
    let (status, actual, cow) := cowWriteAt host s.1 (.ofNat 64 offset) (source.take requested)
    (⟨some status, actual⟩, cow, s.2)

def pollHost (cancelled : κ → Bool × κ) : Cow dev × κ → Bool × Cow dev × κ := fun s ↦
  ((cancelled s.2).1, s.1, (cancelled s.2).2)

/-- What a transfer asks for behind the octets it has completed. -/
def piece (source : List Octet) (completed : ℕ) : List Octet :=
  (source.drop completed).take (requestSize source.length completed)

/-- The transfer comes to make this request of the facade. -/
inductive Requests (host : Host) (cancelled : κ → Bool × κ) (offset : ℕ) (source : List Octet) :
    Cow dev × κ → ℕ → Cow dev → DWord → List Octet → Prop
  | now {s : Cow dev × κ} {completed : ℕ} (hmore : ¬source.length ≤ completed)
      (hgo : ¬(cancelled s.2).1 = true) :
      Requests host cancelled offset source s completed s.1 (.ofNat 64 (offset + completed))
        (piece source completed)
  | later {s : Cow dev × κ} {completed actual : ℕ} {next cow : Cow dev} {place : DWord}
      {request : List Octet} (hmore : ¬source.length ≤ completed)
      (hgo : ¬(cancelled s.2).1 = true)
      (hanswer : cowWriteAt host s.1 (.ofNat 64 (offset + completed)) (piece source completed) =
        (.ok, actual, next))
      (hrest : Requests host cancelled offset source (next, (cancelled s.2).2)
        (completed + actual) cow place request) :
      Requests host cancelled offset source s completed cow place request

/-- The transfer comes to a request the device tears. -/
def ComesTorn (host : Host) (cancelled : κ → Bool × κ) (offset : ℕ) (source : List Octet)
    (s : Cow dev × κ) (completed : ℕ) : Prop :=
  ∃ cow place request, Requests host cancelled offset source s completed cow place request ∧
    Torn host cow place request

variable {host : Host} {cancelled : κ → Bool × κ} {offset : ℕ} {source : List Octet}
  {s : Cow dev × κ} {completed noProgress : ℕ}

theorem answerAt_facade {writeAt : SourceCallback (Cow dev × κ)}
    (h : (facade host dev κ).writeAt = some writeAt) :
    answerAt (fromSource writeAt offset source) (pollHost cancelled) offset source.length s
        completed =
      let (status, actual, cow) := cowWriteAt host s.1 (.ofNat 64 (offset + completed))
        (piece source completed)
      (⟨some status, actual⟩, cow, (cancelled s.2).2) := by
  have hplace : offset + completed - offset = completed := by omega
  rw [← Option.some.inj h]
  simp only [answerAt, pollHost, fromSource, hplace]
  rfl

theorem cowWriteAt_cases {cow next : Cow dev} {place : DWord} {request : List Octet}
    {status : IoStatus} {actual : ℕ} (hsome : request ≠ [])
    (h : cowWriteAt host cow place request = (status, actual, next)) :
    actual ≤ request.length ∧ status = .error ∨ status = .ok ∧ actual = request.length ∧
      dev.bytes next.under = overwrite (dev.bytes cow.under) place.toNat request := by
  by_cases hpoisoned : cow.poisoned = true
  · have hanswer : cowWriteAt host cow place request = (.error, 0, cow) := if_pos hpoisoned
    cases hanswer.symm.trans h
    exact .inl ⟨Nat.zero_le _, rfl⟩
  have hsound : cow.poisoned = false := Bool.eq_false_iff.2 hpoisoned
  by_cases hlast : lastBlock place request < blockCount dev
  · rw [cowWriteAt_checked hsound hsome hlast] at h
    rcases hsave : saveBlocks host (touched place request) cow with ⟨_ | _, kept⟩
    · rw [hsave] at h
      cases h
      exact .inl ⟨Nat.zero_le _, rfl⟩
    · have hspec := @writeExact_spec dev kept.under place.toNat request 0 0 (Nat.zero_le _)
        place.isLt
      rw [hsave] at h
      simp only at h
      rcases hwrite : writeExact dev kept.under place.toNat request 0 0 with ⟨_ | _, done, under⟩
      · rw [hwrite] at h hspec
        cases h
        exact .inl ⟨hspec.1.2, rfl⟩
      · rw [hwrite] at h hspec
        obtain ⟨-, hbytes, -, hall⟩ := hspec
        have hdone : done = request.length := hall rfl
        cases h
        refine .inr ⟨rfl, hdone, ?_⟩
        simp only [Nat.sub_zero, Nat.add_zero, drop_zero, hdone, take_length] at hbytes
        rw [← saveBlocks_keeps hsave]
        exact hbytes
  · have hlength : request.length ≠ 0 := fun h ↦ hsome (length_eq_zero_iff.1 h)
    have hanswer : cowWriteAt host cow place request = (.error, 0, cow) := by
      rw [cowWriteAt, if_neg hpoisoned, if_neg hlength]
      exact if_pos (not_lt.1 hlast)
    cases hanswer.symm.trans h
    exact .inl ⟨Nat.zero_le _, rfl⟩

theorem not_comesTorn_of_done (h : source.length ≤ completed) :
    ¬ComesTorn host cancelled offset source s completed := by
  rintro ⟨cow, place, request, hrequest, -⟩
  cases hrequest with
  | now hmore => exact hmore h
  | later hmore => exact hmore h

theorem not_comesTorn_of_cancelled (h : (cancelled s.2).1 = true) :
    ¬ComesTorn host cancelled offset source s completed := by
  rintro ⟨cow, place, request, hrequest, -⟩
  cases hrequest with
  | now _ hgo => exact hgo h
  | later _ hgo => exact hgo h

/-- One round of a transfer: the request it makes, and where it goes on. -/
theorem comesTorn_iff {status : IoStatus} {actual : ℕ} {next : Cow dev}
    (hmore : ¬source.length ≤ completed) (hgo : ¬(cancelled s.2).1 = true)
    (hanswer : cowWriteAt host s.1 (.ofNat 64 (offset + completed)) (piece source completed) =
      (status, actual, next)) :
    ComesTorn host cancelled offset source s completed ↔
      Torn host s.1 (.ofNat 64 (offset + completed)) (piece source completed) ∨
        status = .ok ∧ ComesTorn host cancelled offset source (next, (cancelled s.2).2)
          (completed + actual) := by
  constructor
  · rintro ⟨cow, place, request, hrequest, htorn⟩
    cases hrequest with
    | now => exact .inl htorn
    | later _ _ hok hrest =>
      cases hanswer.symm.trans hok
      exact .inr ⟨rfl, cow, place, request, hrest, htorn⟩
  · rintro (htorn | ⟨rfl, cow, place, request, hrest, htorn⟩)
    · exact ⟨_, _, _, .now hmore hgo, htorn⟩
    · exact ⟨cow, place, request, .later hmore hgo hanswer hrest, htorn⟩

/-- A transfer reports a breach of the protocol, or its count says what is on the disk. -/
theorem exactLoop_facade {writeAt : SourceCallback (Cow dev × κ)}
    (hfacade : (facade host dev κ).writeAt = some writeAt)
    (hinside : offset + source.length ≤ dev.size) (hle : completed ≤ source.length) :
    let result := exactLoop (fromSource writeAt offset source) (pollHost cancelled) offset
      source.length s completed noProgress
    (ComesTorn host cancelled offset source s completed → result.1 = .protocol) ∧
      (¬ComesTorn host cancelled offset source s completed → result.1 ≠ .protocol ∧
        (completed ≤ result.2.1 ∧ result.2.1 ≤ source.length) ∧
          dev.bytes result.2.2.1.under = overwrite (dev.bytes s.1.under)
            (offset + completed) ((source.drop completed).take (result.2.1 - completed))) := by
  have hsize := dev.size_lt
  induction hrest : source.length - completed using Nat.strong_induction_on
    generalizing s completed noProgress with
  | _ rest ih =>
  have hnothing : dev.bytes s.1.under = overwrite (dev.bytes s.1.under) (offset + completed)
      ((source.drop completed).take (completed - completed)) := by
    rw [Nat.sub_self, take_zero, overwrite_nil]
  by_cases hmore : source.length ≤ completed
  · rw [exactLoop_done hmore]
    exact ⟨fun h ↦ absurd h (not_comesTorn_of_done hmore), fun _ ↦ ⟨nofun, ⟨le_rfl, hle⟩, hnothing⟩⟩
  by_cases hgo : (cancelled s.2).1 = true
  · have hstop : (pollHost cancelled s).1 = true := hgo
    rw [exactLoop_cancelled hmore hstop]
    exact ⟨fun h ↦ absurd h (not_comesTorn_of_cancelled hgo), fun _ ↦ ⟨nofun, ⟨le_rfl, hle⟩, hnothing⟩⟩
  have hgo' : ¬(pollHost cancelled s).1 = true := hgo
  have hbounds := @requestSize_bounds source.length completed hmore
  have hpiece : (piece source completed).length = requestSize source.length completed := by
    rw [piece, length_take, length_drop]
    omega
  have hsome : piece source completed ≠ [] := fun h ↦ by
    rw [h, length_nil] at hpiece
    omega
  have hplace : (BitVec.ofNat 64 (offset + completed)).toNat = offset + completed :=
    Nat.mod_eq_of_lt (by omega)
  have hround := @answerAt_facade dev κ host cancelled offset source s completed writeAt hfacade
  have hhonours := honours_cowWriteAt host s.1 (.ofNat 64 (offset + completed))
    (piece source completed)
  rw [and_iff_right (Or.inr hsome)] at hhonours
  rcases hanswer : cowWriteAt host s.1 (.ofNat 64 (offset + completed)) (piece source completed)
    with ⟨status, actual, next⟩
  rw [hanswer] at hround hhonours
  simp only at hround
  rw [comesTorn_iff hmore hgo hanswer, exactLoop_report hmore hgo' hround]
  rcases cowWriteAt_cases hsome hanswer with ⟨hactual, rfl⟩ | ⟨rfl, hactual, hbytes⟩
  · rw [or_iff_left (fun h ↦ nomatch h.1)]
    by_cases htorn : Torn host s.1 (.ofNat 64 (offset + completed)) (piece source completed)
    · obtain ⟨taken, left, hpos, htaken⟩ := htorn.cowWriteAt
      cases hanswer.symm.trans htaken
      have hmixed : IoStatus.error ≠ .ok ∧ actual ≠ 0 := ⟨nofun, Nat.pos_iff_ne_zero.1 hpos⟩
      rw [if_pos hmixed, ite_self]
      exact ⟨fun _ ↦ rfl, fun h ↦ absurd htorn h⟩
    · obtain ⟨rfl, hkeeps⟩ := (hhonours.2 htorn).refused nofun
      rw [if_neg (Nat.not_lt_zero _), if_neg (fun h ↦ h.2 rfl), if_pos rfl]
      exact ⟨fun h ↦ absurd h htorn, fun _ ↦ ⟨nofun, ⟨le_rfl, hle⟩, hkeeps.trans hnothing⟩⟩
  · obtain rfl : actual = requestSize source.length completed := hactual.trans hpiece
    have hwhole : ¬Torn host s.1 (.ofNat 64 (offset + completed)) (piece source completed) := by
      refine hhonours.1 ⟨fun h ↦ absurd rfl h, fun _ ↦ ⟨hbounds.1, hactual.le, ?_⟩⟩
      rw [hactual, take_length, hbytes]
    rw [or_iff_right hwhole, and_iff_right rfl, if_neg (lt_irrefl _), if_neg (fun h ↦ h.1 rfl),
      if_neg nofun, if_neg (Nat.pos_iff_ne_zero.1 hbounds.1)]
    obtain ⟨htorn, hgood⟩ := @ih (source.length - (completed + requestSize source.length completed))
      (by omega) (next, (cancelled s.2).2) (completed + requestSize source.length completed) 0
      hbounds.2.2 rfl
    refine ⟨htorn, fun h ↦ ?_⟩
    obtain ⟨hprotocol, hcount, hdisk⟩ := hgood h
    refine ⟨hprotocol, ⟨by omega, hcount.2⟩, ?_⟩
    rw [hdisk, hbytes, hplace, piece, overwrite_take _ _ hbounds.2.2 hcount.1]

/-- The transfer's range is inside the disk, and it comes to a request the device tears. -/
def TornTransfer (host : Host) (cancelled : κ → Bool × κ) (offset : DWord) (source : List Octet)
    (s : Cow dev × κ) : Prop :=
  checkRange dev.size offset.toNat source.length = .ok ∧
    ComesTorn host cancelled offset.toNat source s 0

/-- What a transfer through the facade amounts to: no breach of the protocol, and a count of the
leading octets that are on the disk. -/
structure Accounted (before : ℕ → Octet) (offset : DWord) (source : List Octet)
    (result : BlockStatus × ℕ × Cow dev × κ) : Prop where
  lawful : result.1 ≠ .protocol
  counted : result.2.1 ≤ source.length
  disk : dev.bytes result.2.2.1.under = overwrite before offset.toNat (source.take result.2.1)

theorem accounted_nothing {offset : DWord} {status : BlockStatus} (hstatus : status ≠ .protocol) :
    Accounted (dev.bytes s.1.under) offset source (status, 0, s) where
  lawful := hstatus
  counted := Nat.zero_le _
  disk := by rw [take_zero, overwrite_nil]

theorem writeExact_facade (host : Host) (cancelled : κ → Bool × κ) (offset : DWord)
    (source : List Octet) (s : Cow dev × κ) :
    let result := RawBlock.writeExact (some (facade host dev κ)) true (pollHost cancelled) s
      offset.toNat source
    (TornTransfer host cancelled offset source s → result.1 = .protocol) ∧
      (¬TornTransfer host cancelled offset source s →
        Accounted (dev.bytes s.1.under) offset source result) := by
  obtain ⟨writeAt, hfacade⟩ : ∃ writeAt, (facade host dev κ).writeAt = some writeAt := ⟨_, rfl⟩
  rw [RawBlock.writeExact]
  simp only [if_true]
  rw [hfacade, Option.map_some, transferExact]
  by_cases hrange : checkRange dev.size offset.toNat source.length = .ok
  · have hfits : checkRange (facade host dev κ).size offset.toNat source.length = .ok := hrange
    rw [hfits, if_neg (not_not.2 rfl), TornTransfer, and_iff_right hrange]
    by_cases hzero : source.length = 0
    · rw [if_pos hzero]
      exact ⟨fun h ↦ absurd h (not_comesTorn_of_done hzero.le), fun _ ↦ accounted_nothing (by decide)⟩
    · rw [if_neg hzero]
      obtain ⟨htorn, hgood⟩ := @exactLoop_facade dev κ host cancelled offset.toNat source s 0 0
        writeAt hfacade (le_of_checkRange hrange) (Nat.zero_le _)
      refine ⟨htorn, fun h ↦ ?_⟩
      obtain ⟨hlawful, ⟨-, hcounted⟩, hdisk⟩ := hgood h
      exact ⟨hlawful, hcounted, hdisk⟩
  · have hstatus : checkRange dev.size offset.toNat source.length ≠ .protocol := by
      rw [checkRange]
      split
      · decide
      split
      · decide
      · decide
    have hrefused : checkRange (facade host dev κ).size offset.toNat source.length ≠ .ok := hrange
    rw [if_pos hrefused]
    exact ⟨fun h ↦ absurd h.1 hrange, fun _ ↦ accounted_nothing hstatus⟩

theorem accounted_writeExact (host : Host) (cancelled : κ → Bool × κ) (offset : DWord)
    (source : List Octet) (s : Cow dev × κ) :
    Accounted (dev.bytes s.1.under) offset source (RawBlock.writeExact
        (some (facade host dev κ)) true (pollHost cancelled) s offset.toNat source) ↔
      ¬TornTransfer host cancelled offset source s := by
  obtain ⟨htorn, hgood⟩ := writeExact_facade host cancelled offset source s
  exact ⟨fun haccounted h ↦ haccounted.lawful (htorn h), hgood⟩

/-- A write through the facade keeps the contract of the block layer exactly when it is no empty
one and the device does not tear it, and a transfer of the block layer through the facade is
accounted for exactly when it comes to no torn request. -/
theorem cow_honours (dev : Device) (κ : Type) (host : Host) (offset : DWord) (source : List Octet) :
    (∀ cow : Cow dev, Honours (dev.bytes cow.under)
        (dev.bytes (cowWriteAt host cow offset source).2.2.under) offset.toNat source
        (cowWriteAt host cow offset source).1 (cowWriteAt host cow offset source).2.1 ↔
      (cow.poisoned = true ∨ source ≠ []) ∧ ¬Torn host cow offset source) ∧
    ∀ (cancelled : κ → Bool × κ) (s : Cow dev × κ),
      Accounted (dev.bytes s.1.under) offset source (RawBlock.writeExact
          (some (facade host dev κ)) true (pollHost cancelled) s offset.toNat source) ↔
        ¬TornTransfer host cancelled offset source s :=
  ⟨fun cow ↦ honours_cowWriteAt host cow offset source,
    fun cancelled s ↦ accounted_writeExact host cancelled offset source s⟩

end Transfer

/-- A disk of one block that takes one octet of its first write and fails from then on. -/
def tearingDisk : Device where
  State := Bool × (ℕ → Octet)
  size := blockBytes
  bytes s := s.2
  readAt s offset requested :=
    if offset + requested ≤ blockBytes then (.ok, window s.2 offset requested, s) else (.error, [], s)
  writeAt s offset data :=
    if s.1 ∧ data ≠ [] ∧ offset + 1 ≤ blockBytes then
      (.ok, 1, false, overwrite s.2 offset (data.take 1))
    else (.error, 0, s)
  flush s := (.ok, s)
  size_lt := blockBytes_lt
  read_keeps s offset requested := by split <;> rfl
  read_data s offset requested := by split <;> simp
  read_le s offset requested := by split <;> simp
  read_idle s offset requested := by split <;> simp
  read_inside s offset requested := by split <;> simp_all
  write_bytes s offset data := by split <;> simp
  write_le s offset data := by
    split
    next h => exact length_pos_of_ne_nil h.2.1
    next => exact Nat.zero_le _
  write_idle s offset data := by split <;> simp
  write_inside s offset data := by
    split
    next h => exact fun _ ↦ h.2.2
    next => exact fun h ↦ absurd rfl h
  flush_keeps s := rfl

/-- Its facade, with the block saved. -/
def tearingCow : Cow tearingDisk where
  under := (true, fun _ ↦ 0)
  overlay := encode blockBytes [(0, List.replicate blockBytes 0)]
  overlayBytes := headerBytes + recordBytes
  saved := fun block ↦ block = 0
  poisoned := false

theorem torn_tearingCow : Torn {} tearingCow 0 [1, 2] := by
  refine ⟨rfl, by decide, tearingCow, rfl, 1, Nat.one_pos, ?_⟩
  refine .more (by decide) nofun nofun (.error (by decide) ?_)
  rfl

/-- A request of two octets of which the device takes one is answered with an error and that one,
and the block layer reports a breach of the protocol. -/
theorem not_honours_tearingCow :
    (¬∀ (dev : Device) (host : Host) (cow : Cow dev) (offset : DWord) (source : List Octet),
      source ≠ [] → Honours (dev.bytes cow.under)
        (dev.bytes (cowWriteAt host cow offset source).2.2.under) offset.toNat source
        (cowWriteAt host cow offset source).1 (cowWriteAt host cow offset source).2.1) ∧
    ¬∀ (dev : Device) (host : Host) (cow : Cow dev) (offset : DWord) (source : List Octet),
      (RawBlock.writeExact (some (facade host dev Unit)) true
        (pollHost fun poll ↦ (false, poll)) (cow, ()) offset.toNat source).1 ≠ .protocol := by
  constructor
  · intro h
    have hhonours := h tearingDisk {} tearingCow 0 [1, 2] nofun
    exact ((honours_cowWriteAt ..).1 hhonours).2 torn_tearingCow
  · intro h
    have hcomes : TornTransfer {} (fun poll ↦ (false, poll)) 0 [1, 2] (tearingCow, ()) :=
      ⟨by decide, _, _, _, .now (by decide) nofun, torn_tearingCow⟩
    exact h tearingDisk {} tearingCow 0 [1, 2] ((writeExact_facade ..).1 hcomes)

end S5LBox.Block
