import S5LBox.Tools.RootfsWork

/-!
# The publication of a work image

However the calls of the file layer turn out: a name that had a file keeps it, the destination gets
one only once everything before the publication has ended well, and an image that is not published
is removed or reported as left.
-/

namespace S5LBox.Tools

open Function List Attempt
open Function (update)

variable {around : Surrounding} {orig : Files} {created target : Option FileName}

/-- Only the temporary file is not as it was, and only it may be written to. -/
structure Held (orig : Files) (created target : Option FileName) (w : Work) : Prop where
  files : ∀ name, created ≠ some name → w.files name = orig name
  handle : ∀ name, w.temporary = some name → created = some name
  created : w.created = created
  target : w.target = target
  unpublished : w.result.published = false

/-- It has been so from the start. -/
structure Kept (orig : Files) (created target : Option FileName) (w : Work) : Prop where
  held : Held orig created target w
  history : ∀ moment ∈ w.history, ∀ name, moment name ≠ orig name → created = some name
  last : w.history.getLast? = some w.files

/-- A call that keeps what is held. -/
def Keeps {α : Type} (act : Fault → Work → α × Work) : Prop :=
  ∀ orig created target fault w, Held orig created target w →
    Held orig created target (act fault w).2

variable {α : Type} {act : Fault → Work → α × Work} {w : Work} {step : Step α} {result : WorkResult}

theorem kept_call (hact : Keeps act) (h : Kept orig created target w) :
    Kept orig created target (Work.call around act w).2 := by
  have hheld := hact orig created target (around.faults w.calls) w h.held
  refine ⟨⟨hheld.files, hheld.handle, hheld.created, hheld.target, hheld.unpublished⟩, ?_, ?_⟩
  · intro moment hmoment name hne
    rcases mem_append.1 hmoment with hold | hnew
    · exact h.history moment hold name hne
    · obtain rfl := mem_singleton.1 hnew
      by_contra hother
      exact hne (hheld.files name hother)
  · exact getLast?_concat

theorem steady_ask (hact : Keeps act) : Steady (Kept orig created target) (ask around act) :=
  steady_lift fun _ h ↦ kept_call hact h

theorem steady_must {act : Fault → Work → Except ℕ α × Work} (hact : Keeps act)
    {status : WorkStatus} {stage : WorkStage} :
    Steady (Kept orig created target) (must around status stage act) := by
  apply (steady_ask hact).bind
  rintro (error | value)
  · exact steady_refuse
  · exact steady_pure

theorem keeps_observe : Keeps observe := fun _ _ _ _ _ h ↦ h

theorem steady_probes (list : List (WorkStatus × WorkStage)) :
    Steady (Kept orig created target) (probes around list) := by
  induction list with
  | nil => exact steady_pure
  | cons probe rest ih =>
    rw [probes]
    exact (steady_must keeps_observe).seq ih

variable (handle : Handle) (path : List Octet)

theorem keeps_hostFileRead (offset length : ℕ) : Keeps (hostFileRead handle offset length) := by
  intro orig created target fault w h
  unfold hostFileRead
  split
  · exact h
  · simp only
    split <;> exact h

theorem keeps_hostFileStamp : Keeps (hostFileStamp handle) := by
  intro orig created target fault w h
  unfold hostFileStamp
  split
  · exact h
  · split <;> exact h

theorem keeps_hostFileClose : Keeps (hostFileClose handle) := by
  intro orig created target fault w h
  cases handle with
  | source => exact ⟨h.files, h.handle, h.created, h.target, h.unpublished⟩
  | temporary => exact ⟨h.files, nofun, h.created, h.target, h.unpublished⟩

theorem held_update (h : Held orig created target w) {name : FileName}
    (hname : w.temporary = some name) (octets : Option (List Octet)) :
    Held orig created target { w with files := update w.files name octets } := by
  refine ⟨fun other hother ↦ ?_, h.handle, h.created, h.target, h.unpublished⟩
  have hne : other ≠ name := by
    rintro rfl
    exact hother (h.handle other hname)
  show update w.files name octets other = orig other
  rw [update_of_ne hne]
  exact h.files other hother

theorem keeps_hostFileWrite (offset : ℕ) (data : List Octet) :
    Keeps (hostFileWrite handle offset data) := by
  intro orig created target fault w h
  unfold hostFileWrite
  split
  case h_1 name hname => exact held_update h hname _
  case h_2 => exact h

theorem keeps_hostFileResize (size : ℕ) : Keeps (hostFileResize handle size) := by
  intro orig created target fault w h
  unfold hostFileResize
  split
  case h_1 name hname =>
    split
    · exact h
    · exact held_update h hname _
  case h_2 => exact h

theorem keeps_openForReading (name : FileName) : Keeps (openForReading name) := by
  intro orig created target fault w h
  unfold openForReading
  split
  · exact h
  · exact ⟨h.files, h.handle, h.created, h.target, h.unpublished⟩

theorem keeps_lookFor (name : FileName) : Keeps (lookFor name) := by
  intro orig created target fault w h
  unfold lookFor
  split <;> exact h

theorem steady_report (change : WorkResult → WorkResult)
    (hchange : ∀ result, (change result).published = result.published) :
    Steady (Kept orig created target) (report change) := by
  refine steady_modify fun w h ↦ ⟨⟨h.held.files, h.held.handle, h.held.created, h.held.target, ?_⟩,
    h.history, h.last⟩
  show (change w.result).published = false
  rw [hchange]
  exact h.held.unpublished

theorem steady_openDirectory (status : WorkStatus) (stage : WorkStage) (parent : List Octet) :
    Steady (Kept orig created target) (openDirectory around status stage parent) := by
  apply (steady_must keeps_observe).bind
  intro _
  split
  · exact steady_pure
  · exact steady_refuse

theorem steady_posixOpenSource :
    Steady (Kept orig created target) (posixOpenSource around path) := by
  apply steady_expect.bind
  rintro ⟨parent, leaf⟩
  apply (steady_openDirectory ..).bind
  intro directory
  apply (steady_probes _).seq
  apply (steady_must (keeps_openForReading _)).seq
  apply (steady_probes _).seq
  exact steady_must (keeps_hostFileStamp _)

theorem steady_windowsOpenSource :
    Steady (Kept orig created target) (windowsOpenSource around path) := by
  apply (steady_probes _).seq
  apply steady_expect.bind
  rintro ⟨parent, leaf⟩
  apply (steady_openDirectory ..).bind
  intro directory
  apply (steady_must (keeps_openForReading _)).seq
  apply (steady_probes _).seq
  exact steady_must (keeps_hostFileStamp _)

theorem steady_orRefuse (answer : Except WorkFailure α) :
    Steady (Kept orig created target) (orRefuse answer) := by
  cases answer with
  | error failure => exact steady_refuse
  | ok value => exact steady_pure

theorem steady_check (pass : Program Reads (Except WorkFailure α)) :
    Steady (Kept orig created target) (check around handle pass) := by
  apply Steady.bind _ steady_orRefuse
  apply steady_lift
  intro w h
  refine Program.run_invariant (Kept orig created target) ?_ pass h
  rintro ⟨offset, length⟩ w h
  exact kept_call (keeps_hostFileRead handle offset length) h

/-- Whatever an edit is, it stays within the temporary file. -/
theorem steady_edit (pass : Program Edits (Except WorkFailure α)) :
    Steady (Kept orig created target) (edit around pass) := by
  apply Steady.bind _ steady_orRefuse
  apply steady_lift
  intro w h
  refine Program.run_invariant (Kept orig created target) ?_ pass h
  rintro (⟨offset, length⟩ | ⟨offset, data⟩ | size) w h
  · exact kept_call (keeps_hostFileRead .temporary offset length) h
  · exact kept_call (keeps_hostFileWrite .temporary offset data) h
  · exact kept_call (keeps_hostFileResize .temporary size) h

theorem steady_checkedRead (size offset length : ℕ) (stage : WorkStage) :
    Steady (Kept orig created target) (checkedRead around handle size offset length stage) :=
  steady_require.seq (steady_must (keeps_hostFileRead _ _ _))

theorem steady_checkedWrite (size offset : ℕ) (data : List Octet) (stage : WorkStage) :
    Steady (Kept orig created target) (checkedWrite around handle size offset data stage) :=
  steady_require.seq (steady_must (keeps_hostFileWrite _ _ _))

theorem steady_copySource (passes : Passes) (size : ℕ) (turns : List (ℕ × ℕ))
    (digest : passes.Digest) :
    Steady (Kept orig created target) (copySource around passes size turns digest) := by
  induction turns generalizing digest with
  | nil => exact steady_pure
  | cons turn rest ih =>
    obtain ⟨offset, amount⟩ := turn
    rw [copySource]
    apply (steady_checkedRead ..).bind
    intro data
    apply steady_expect.bind
    intro digest
    apply (steady_checkedWrite ..).seq
    refine (steady_report _ ?_).seq (ih digest)
    exact fun _ ↦ rfl

theorem steady_verifyIdentity (options : WorkOptions) (sha256 : List Octet) :
    Steady (Kept orig created target) (verifyIdentity options sha256) := by
  unfold verifyIdentity
  split
  · exact steady_pure
  · apply steady_require.seq
    exact steady_report _ fun _ ↦ rfl

theorem steady_copyVerified (passes : Passes) (options : WorkOptions) (before : FileStamp)
    (volume : passes.Volume) :
    Steady (Kept orig created target) (copyVerified around passes options before volume) := by
  apply (steady_must (keeps_hostFileResize _ _)).seq
  apply steady_expect.bind
  intro digest
  apply (steady_copySource ..).bind
  intro digest
  apply (steady_must (keeps_hostFileStamp _)).bind
  intro after
  apply steady_require.seq
  apply steady_expect.bind
  intro sha256
  refine (steady_report _ ?_).seq ?_
  · exact fun _ ↦ rfl
  apply (steady_verifyIdentity ..).seq
  apply (steady_must (keeps_hostFileStamp _)).bind
  intro stamp
  apply steady_require.seq
  apply (steady_check ..).bind
  intro copied
  apply steady_require.seq
  exact steady_must (keeps_hostFileClose _)

theorem steady_optionally {wanted : Bool} {step : Step Unit}
    (h : Steady (Kept orig created target) step) :
    Steady (Kept orig created target) (optionally wanted step) := by
  unfold optionally
  split
  · exact h
  · exact steady_pure

theorem steady_transform (passes : Passes) (options : WorkOptions) (size : ℕ)
    (copied : passes.Volume) :
    Steady (Kept orig created target) (transform around passes options size copied) := by
  apply (steady_edit _).seq
  apply (steady_optionally (steady_edit _)).seq
  apply (steady_optionally (steady_edit _)).seq
  apply (steady_edit _).bind
  intro size
  have hprovision : Steady (Kept orig created target) (provision around passes size) := by
    apply (steady_check ..).bind
    intro grown
    exact steady_edit _
  exact (steady_optionally hprovision).seq steady_pure

/-- A refusal before the publication: only a temporary file is there, and it has a name that was
free and is not the destination's. -/
def Unpublished (orig : Files) (w : Work) : Prop :=
  ∃ created target, Kept orig created target w ∧
    ∀ name, created = some name → orig name = none ∧ target ≠ some name

theorem Kept.unpublished (h : Kept orig none target w) : Unpublished orig w :=
  ⟨none, target, h, nofun⟩

/-- The destination has been found absent. -/
def Absent (orig : Files) (target : FileName) (w : Work) : Prop := Kept orig none (some target) w

theorem ends_of_steady (h : Steady (Kept orig none target) step) (hw : Kept orig none target w) :
    Ends (fun _ ↦ Kept orig none target) (fun _ ↦ Unpublished orig) step w :=
  (h.ends hw).mono (fun _ _ h ↦ h) fun _ _ h ↦ h.unpublished

theorem absent_ends (name : FileName) (h : Kept orig none none w) :
    Ends (Absent orig) (fun _ ↦ Unpublished orig) (absent around name) w := by
  apply (ends_of_steady (steady_ask (keeps_lookFor name)) h).bind
  rintro ((_ | _) | error) t ht
  · apply ends_bind.2
    apply ends_modify.2
    apply ends_pure.2
    exact ⟨⟨ht.held.files, ht.held.handle, ht.held.created, rfl, ht.held.unpublished⟩,
      ht.history, ht.last⟩
  · exact ends_refuse.2 ht.unpublished
  · exact ends_refuse.2 ht.unpublished

theorem posixOpenDestination_ends (h : Kept orig none none w) :
    Ends (Absent orig) (fun _ ↦ Unpublished orig) (posixOpenDestination around path) w := by
  apply (ends_of_steady steady_expect h).bind
  rintro ⟨parent, leaf⟩ t ht
  apply (ends_of_steady (steady_openDirectory ..) ht).bind
  intro directory t ht
  exact absent_ends _ ht

theorem windowsSplitDestination_ends (h : Kept orig none none w) :
    Ends (Absent orig) (fun _ ↦ Unpublished orig) (windowsSplitDestination around path) w := by
  apply (ends_of_steady (steady_probes _) h).bind
  intro _ t ht
  apply (ends_of_steady steady_expect ht).bind
  rintro ⟨parent, leaf⟩ t ht
  apply (ends_of_steady (steady_probes _) ht).bind
  intro _ t ht
  apply (ends_of_steady (steady_openDirectory ..) ht).bind
  intro directory t ht
  apply (absent_ends _ ht).bind
  intro name t ht
  apply (ends_of_steady (steady_probes _) ht).bind
  intro _ t ht
  exact ends_pure.2 ht

theorem openDestination_ends (h : Kept orig none none w) :
    Ends (Absent orig) (fun _ ↦ Unpublished orig) (openDestination around path) w := by
  unfold openDestination
  split
  · exact posixOpenDestination_ends path h
  · exact windowsSplitDestination_ends path h

/-- The temporary file is there, under a name that was free and is not the destination's. -/
structure Made (orig : Files) (target name : FileName) (w : Work) : Prop where
  kept : Kept orig (some name) (some target) w
  free : orig name = none
  apart : name ≠ target

theorem Made.unpublished {target name : FileName} (h : Made orig target name w) :
    Unpublished orig w := by
  refine ⟨some name, some target, h.kept, ?_⟩
  rintro other hother
  obtain rfl := Option.some.inj hother
  refine ⟨h.free, fun hsame ↦ h.apart ?_⟩
  exact (Option.some.inj hsame).symm

theorem ends_of_made {target name : FileName}
    (h : Steady (Kept orig (some name) (some target)) step) (hw : Made orig target name w) :
    Ends (fun _ ↦ Made orig target name) (fun _ ↦ Unpublished orig) step w := by
  apply (h.ends hw.kept).mono
  · exact fun _ t ht ↦ ⟨ht, hw.free, hw.apart⟩
  · exact fun _ t ht ↦ Made.unpublished ⟨ht, hw.free, hw.apart⟩

theorem createNew_ends {target name : FileName} (hname : name ≠ target) (h : Absent orig target w) :
    Ends (fun creation t ↦ (creation = .made ∧ Made orig target name t) ∨
      creation ≠ .made ∧ Absent orig target t) (fun _ ↦ Unpublished orig)
      (ask around (createNew name)) w := by
  have hcall : Absent orig target (Work.call around observe w).2 := kept_call keeps_observe h
  rw [ends_iff]
  constructor
  case right =>
    intro e t hrun
    cases (Prod.mk.inj hrun).1
  intro creation t hrun
  have hrun' := lift_ok.1 hrun
  unfold Work.call createNew at hrun'
  split_ifs at hrun' with hfails htaken
  · cases hrun'
    exact Or.inr ⟨nofun, hcall⟩
  · cases hrun'
    exact Or.inr ⟨nofun, hcall⟩
  · cases hrun'
    have hfree : orig name = none := by
      rw [← h.held.files name nofun]
      exact Option.not_isSome_iff_eq_none.1 htaken
    left
    refine ⟨rfl, ⟨⟨?_, ?_, rfl, h.held.target, h.held.unpublished⟩, ?_, ?_⟩, hfree, hname⟩
    · intro other hother
      have hne : other ≠ name := fun hsame ↦ hother (congrArg some hsame.symm)
      show update w.files name (some []) other = orig other
      rw [update_of_ne hne]
      exact h.held.files other nofun
    · exact fun other hother ↦ hother
    · intro moment hmoment other hother
      rcases mem_append.1 hmoment with hold | hnew
      · cases h.history moment hold other hother
      · obtain rfl := mem_singleton.1 hnew
        by_contra hne
        have hne' : other ≠ name := fun hsame ↦ hne (congrArg some hsame.symm)
        apply hother
        show update w.files name (some []) other = orig other
        rw [update_of_ne hne']
        exact h.held.files other nofun
    · exact getLast?_concat

theorem steady_onWindows (list : List (WorkStatus × WorkStage)) :
    Steady (Kept orig created target) (onWindows around list) := by
  unfold onWindows
  split
  · exact steady_pure
  · exact steady_probes _

theorem tempCreateLoop_ends {target : FileName} (attempts : List ℕ) (h : Absent orig target w) :
    Ends (fun _ t ↦ ∃ name, Made orig target name t) (fun _ ↦ Unpublished orig)
      (tempCreateLoop around target attempts) w := by
  induction attempts generalizing w with
  | nil => exact ends_refuse.2 h.unpublished
  | cons attempt rest ih =>
    rw [tempCreateLoop]
    apply (ends_of_steady (steady_onWindows _) h).bind
    intro _ t ht
    dsimp only
    split_ifs with hname
    · exact ih ht
    apply (createNew_ends hname ht).bind
    rintro creation u (⟨rfl, hu⟩ | ⟨hne, hu⟩)
    · apply (ends_of_made (steady_onWindows _) hu).weaken
      exact fun _ v hv ↦ ⟨_, hv⟩
    · cases creation with
      | made => exact absurd rfl hne
      | taken => exact ih hu
      | failed error => exact ends_refuse.2 hu.unpublished

theorem destinationTempCreate_ends {target : FileName} (h : Absent orig target w) :
    Ends (fun _ t ↦ ∃ name, Made orig target name t) (fun _ ↦ Unpublished orig)
      (destinationTempCreate around target) w := by
  apply (ends_of_steady (steady_onWindows _) h).bind
  intro _ t ht
  exact tempCreateLoop_ends _ ht

theorem steady_openSource : Steady (Kept orig created target) (openSource around path) := by
  unfold openSource
  split
  · exact steady_posixOpenSource path
  · exact steady_windowsOpenSource path

/-- What follows the creation of the temporary file. -/
theorem prepare_ends (passes : Passes) (source destination : List Octet) (options : WorkOptions)
    {w : Work} (h : Kept orig none none w) :
    Ends (fun _ t ↦ ∃ target name, Made orig target name t) (fun _ ↦ Unpublished orig)
      (prepare around passes source destination options) w := by
  apply (ends_of_steady steady_require h).bind
  intro _ t ht
  refine (ends_of_steady (steady_report _ ?_) ht).bind ?_
  · exact fun _ ↦ rfl
  intro _ t ht
  apply (ends_of_steady (steady_must keeps_observe) ht).bind
  intro _ t ht
  apply (ends_of_steady (steady_openSource _) ht).bind
  intro before t ht
  apply (openDestination_ends destination ht).bind
  intro target t ht
  refine (ends_of_steady (steady_report _ ?_) ht).bind ?_
  · exact fun _ ↦ rfl
  intro _ t ht
  apply (ends_of_steady steady_require ht).bind
  intro _ t ht
  apply (ends_of_steady steady_require ht).bind
  intro _ t ht
  apply (ends_of_steady (steady_check ..) ht).bind
  intro volume t ht
  apply (destinationTempCreate_ends ht).bind
  rintro _ t ⟨name, ht⟩
  apply (ends_of_made (steady_copyVerified ..) ht).bind
  intro _ t ht
  apply (ends_of_made (steady_transform ..) ht).bind
  intro size t ht
  apply (ends_of_made (steady_check ..) ht).bind
  intro final t ht
  apply (ends_of_made steady_require ht).bind
  intro _ t ht
  refine (ends_of_made (steady_report _ ?_) ht).bind ?_
  · exact fun _ ↦ rfl
  intro _ t ht
  apply (ends_of_made (steady_must keeps_observe) ht).bind
  intro _ t ht
  apply (ends_of_made (steady_must (keeps_hostFileClose _)) ht).weaken
  exact fun _ u hu ↦ ⟨target, name, hu⟩

/-- The destination has been given the file that was prepared, and nothing else. -/
structure Published (orig : Files) (prepared : Work) (target name : FileName) (w : Work) : Prop where
  vacant : orig target = none
  others : ∀ moment ∈ w.history, ∀ other, moment other ≠ orig other → other = name ∨ other = target
  content : ∀ moment ∈ w.history, moment target ≠ none → moment target = prepared.files name
  last : w.history.getLast? = some w.files
  created : w.created = some name
  target : w.target = some target
  published : w.result.published = true

/-- A call that changes no file but the temporary one. -/
structure Spares {α : Type} (act : Fault → Work → α × Work) : Prop where
  files : ∀ fault w name, w.created ≠ some name → (act fault w).2.files name = w.files name
  created : ∀ fault w, (act fault w).2.created = w.created
  target : ∀ fault w, (act fault w).2.target = w.target
  published : ∀ fault w, (act fault w).2.result.published = w.result.published

theorem spares_observe : Spares observe :=
  ⟨fun _ _ _ _ ↦ rfl, fun _ _ ↦ rfl, fun _ _ ↦ rfl, fun _ _ ↦ rfl⟩

theorem spares_hostFileClose : Spares (hostFileClose handle) := by
  cases handle with
  | source => exact ⟨fun _ _ _ _ ↦ rfl, fun _ _ ↦ rfl, fun _ _ ↦ rfl, fun _ _ ↦ rfl⟩
  | temporary => exact ⟨fun _ _ _ _ ↦ rfl, fun _ _ ↦ rfl, fun _ _ ↦ rfl, fun _ _ ↦ rfl⟩

theorem spares_removeTemporary : Spares removeTemporary := by
  constructor
  case files =>
    intro fault w name hname
    unfold removeTemporary
    split
    · rfl
    · split
      · rfl
      · rename_i other hother _
        have hne : name ≠ other := by
          rintro rfl
          exact hname hother
        exact update_of_ne hne none w.files
  all_goals
    intro fault w
    unfold removeTemporary
    split
    · rfl
    · split <;> rfl

theorem keeps_of_spares (hact : Spares act)
    (hhandle : ∀ fault w, (act fault w).2.temporary = w.temporary) : Keeps act := by
  intro orig created target fault w h
  constructor
  · intro name hname
    rw [hact.files fault w name (h.created ▸ hname)]
    exact h.files name hname
  · rw [hhandle]
    exact h.handle
  · rw [hact.created]
    exact h.created
  · rw [hact.target]
    exact h.target
  · rw [hact.published]
    exact h.unpublished

theorem keeps_removeTemporary : Keeps removeTemporary := by
  apply keeps_of_spares spares_removeTemporary
  intro fault w
  unfold removeTemporary
  split
  · rfl
  · split <;> rfl

variable {prepared : Work} {place name : FileName}

theorem published_call (hact : Spares act) (happart : name ≠ place)
    (h : Published orig prepared place name w) :
    Published orig prepared place name (Work.call around act w).2 := by
  have hlast : w.files ∈ w.history := mem_of_getLast? h.last
  have hfiles : ∀ other, other ≠ name →
      (act (around.faults w.calls) w).2.files other = w.files other := by
    intro other hne
    apply hact.files
    rw [h.created]
    exact fun hsame ↦ hne (Option.some.inj hsame).symm
  constructor
  case vacant => exact h.vacant
  case others =>
    intro moment hmoment other hother
    rcases mem_append.1 hmoment with hold | hnew
    · exact h.others moment hold other hother
    · obtain rfl := mem_singleton.1 hnew
      by_cases hname : other = name
      · exact Or.inl hname
      · rw [hfiles other hname] at hother
        exact h.others w.files hlast other hother
  case content =>
    intro moment hmoment hthere
    rcases mem_append.1 hmoment with hold | hnew
    · exact h.content moment hold hthere
    · obtain rfl := mem_singleton.1 hnew
      rw [hfiles place happart.symm] at hthere ⊢
      exact h.content w.files hlast hthere
  case last => exact getLast?_concat
  case created => exact (hact.created _ _).trans h.created
  case target => exact (hact.target _ _).trans h.target
  case published => exact (hact.published _ _).trans h.published

theorem steady_ask_published (hact : Spares act) (happart : name ≠ place) :
    Steady (Published orig prepared place name) (ask around act) :=
  steady_lift fun _ h ↦ published_call hact happart h

theorem published_report (hresult : result.published = w.result.published)
    (h : Published orig prepared place name w) :
    Published orig prepared place name { w with result := result } :=
  ⟨h.vacant, h.others, h.content, h.last, h.created, h.target, hresult.trans h.published⟩

theorem published_of_update {t : Work} (h : Made orig place name w)
    (hfiles : w.files = prepared.files) (hvacant : w.files place = none)
    (hnew : ∀ other, other ≠ name → t.files other = update w.files place (w.files name) other)
    (hhistory : t.history = w.history ++ [t.files]) (hcreated : t.created = some name)
    (htarget : t.target = some place) (hpublished : t.result.published = true) :
    Published orig prepared place name t := by
  have hvacant' : orig place = none := by
    rw [← h.kept.held.files place fun hsame ↦ h.apart (Option.some.inj hsame)]
    exact hvacant
  have hold : ∀ moment ∈ w.history, ∀ other, moment other ≠ orig other → other = name :=
    fun moment hmoment other hother ↦
      (Option.some.inj (h.kept.history moment hmoment other hother)).symm
  constructor
  case vacant => exact hvacant'
  case others =>
    intro moment hmoment other hother
    rw [hhistory] at hmoment
    rcases mem_append.1 hmoment with hmem | hmem
    · exact Or.inl (hold moment hmem other hother)
    · obtain rfl := mem_singleton.1 hmem
      by_cases hname : other = name
      · exact Or.inl hname
      by_cases hplace : other = place
      · exact Or.inr hplace
      rw [hnew other hname, update_of_ne hplace] at hother
      have hsame := h.kept.held.files other fun hsame ↦ hname (Option.some.inj hsame).symm
      exact absurd hsame hother
  case content =>
    intro moment hmoment hthere
    rw [hhistory] at hmoment
    rcases mem_append.1 hmoment with hmem | hmem
    · rw [← hvacant'] at hthere
      exact absurd (hold moment hmem place hthere).symm h.apart
    · obtain rfl := mem_singleton.1 hmem
      rw [hnew place h.apart.symm, update_self, hfiles]
  case last =>
    rw [hhistory]
    exact getLast?_concat
  case created => exact hcreated
  case target => exact htarget
  case published => exact hpublished

/-- The publication has not taken place, or it has. -/
def Either (orig : Files) (prepared : Work) (place name : FileName) (w : Work) : Prop :=
  Made orig place name w ∨ Published orig prepared place name w

/-- What the call that publishes leaves. -/
def Answers (orig : Files) (prepared : Work) (place name : FileName) (publication : Publication)
    (w : Work) : Prop :=
  match publication with
  | .done => Published orig prepared place name w
  | _ => Made orig place name w

theorem made_call (hact : Keeps act) (h : Made orig place name w) :
    Made orig place name (Work.call around act w).2 :=
  ⟨kept_call hact h.kept, h.free, h.apart⟩

theorem linkTemporary_answers (h : Made orig place name w) (hfiles : w.files = prepared.files) :
    Answers orig prepared place name (Work.call around linkTemporary w).1
      (Work.call around linkTemporary w).2 := by
  have hstay : Made orig place name (Work.call around observe w).2 := made_call keeps_observe h
  unfold Work.call linkTemporary
  rw [h.kept.held.created, h.kept.held.target]
  dsimp only
  split_ifs with hfails hthere
  · exact hstay
  · exact hstay
  · apply published_of_update h hfiles (Option.not_isSome_iff_eq_none.1 hthere)
    · exact fun _ _ ↦ rfl
    all_goals rfl

theorem moveTemporary_answers (h : Made orig place name w) (hfiles : w.files = prepared.files) :
    Answers orig prepared place name (Work.call around moveTemporary w).1
      (Work.call around moveTemporary w).2 := by
  have hstay : Made orig place name (Work.call around observe w).2 := made_call keeps_observe h
  unfold Work.call moveTemporary
  rw [h.kept.held.created, h.kept.held.target]
  dsimp only
  split_ifs with hfails hthere
  · exact hstay
  · exact hstay
  · apply published_of_update h hfiles (Option.not_isSome_iff_eq_none.1 hthere)
    · intro other hother
      show update (update w.files place (w.files name)) name none other = _
      rw [update_of_ne hother]
    all_goals rfl

theorem ends_ask {post : α → Work → Prop} {fail : WorkFailure → Work → Prop}
    (h : post (Work.call around act w).1 (Work.call around act w).2) :
    Ends post fail (ask around act) w := by
  rw [ends_iff]
  constructor
  · intro a t hrun
    have hcall := lift_ok.1 hrun
    rwa [hcall] at h
  · intro e t hrun
    cases (Prod.mk.inj hrun).1

theorem ends_of_published (h : Steady (Published orig prepared place name) step)
    (hw : Published orig prepared place name w) : Ends (fun _ ↦ Published orig prepared place name)
      (fun _ ↦ Either orig prepared place name) step w :=
  (h.ends hw).mono (fun _ _ h ↦ h) fun _ _ h ↦ Or.inr h

theorem publish_ends {w : Work} (h : Made orig place name w) :
    Ends (fun _ ↦ Published orig w place name) (fun _ ↦ Either orig w place name)
      (publish around) w := by
  have happart := h.apart
  have hask {α : Type} {act : Fault → Work → α × Work} (hact : Spares act) :
      Steady (Published orig w place name) (ask around act) := steady_ask_published hact happart
  have hleave (failure : WorkFailure) :
      Steady (Published orig w place name) (leave >>= fun _ ↦ (refuse failure : Step Unit)) := by
    apply Steady.seq _ steady_refuse
    apply steady_modify
    intro t ht
    exact published_report rfl ht
  have hlook : Steady (fun t ↦ Made orig place name t ∧ t.files = w.files)
      (must around .pathUnsafe .publish observe) := by
    apply Steady.bind
    · apply steady_lift
      exact fun t ht ↦ ⟨made_call keeps_observe ht.1, ht.2⟩
    · rintro (error | _)
      · exact steady_refuse
      · exact steady_pure
  unfold publish
  split
  case h_1 =>
    have hlooked := (hlook.ends ⟨h, rfl⟩).mono (fun _ _ ht ↦ ht)
      (fun _ _ ht ↦ (Or.inl ht.1 : Either orig w place name _))
    apply hlooked.bind
    rintro _ t ⟨ht, hfiles⟩
    apply (ends_ask (moveTemporary_answers ht hfiles)).bind
    rintro (_ | _ | error) u hu
    · exact ends_pure.2 hu
    · exact ends_refuse.2 (Or.inl hu)
    · exact ends_refuse.2 (Or.inl hu)
  case h_2 =>
    apply (ends_ask (linkTemporary_answers h rfl)).bind
    rintro (_ | _ | error) u hu
    case done =>
      apply (ends_of_published (hask spares_observe) hu).bind
      rintro (error | _) u hu
      · exact ((hleave _).ends hu).mono (fun _ _ h ↦ h) fun _ _ h ↦ Or.inr h
      apply (ends_of_published (hask spares_removeTemporary) hu).bind
      rintro (error | _) u hu
      · exact ((hleave _).ends hu).mono (fun _ _ h ↦ h) fun _ _ h ↦ Or.inr h
      apply ends_of_published _ hu
      apply (hask spares_observe).bind
      rintro (error | _)
      · exact steady_refuse
      · exact steady_pure
    all_goals exact ends_refuse.2 (Or.inl hu)

/-- What the end of the creation does about the handles keeps whatever their closing keeps. -/
theorem close_both {P : Work → Prop}
    (hclose : ∀ handle w, P w → P (Work.call around (hostFileClose handle) w).2)
    (hnote : ∀ w result, result.published = w.result.published → P w →
      P { w with result := result }) (h : P w) :
    P (closeTemporary around (closeSource around w)) := by
  have hpublished (result : WorkResult) (error : ℕ) :
      (result.noteCleanup error).published = result.published := by
    unfold WorkResult.noteCleanup
    split <;> rfl
  have hsource : P (closeSource around w) := by
    have hcall := hclose .source w h
    unfold closeSource
    split
    · exact h
    · rcases hrun : Work.call around (hostFileClose .source) w with ⟨error | _, t⟩
      · rw [hrun] at hcall
        exact hnote t _ (hpublished ..) hcall
      · rwa [hrun] at hcall
  have hcall := hclose .temporary _ hsource
  unfold closeTemporary
  split
  · exact hsource
  · rcases hrun : Work.call around (hostFileClose .temporary) (closeSource around w) with
      ⟨error | _, t⟩
    · rw [hrun] at hcall
      exact hnote t _ (hpublished ..) hcall
    · rwa [hrun] at hcall

theorem Kept.report (hresult : result.published = w.result.published)
    (h : Kept orig created target w) : Kept orig created target { w with result := result } :=
  ⟨⟨h.held.files, h.held.handle, h.held.created, h.held.target,
    hresult.trans h.held.unpublished⟩, h.history, h.last⟩

theorem Unpublished.report (hresult : result.published = w.result.published)
    (h : Unpublished orig w) : Unpublished orig { w with result := result } := by
  obtain ⟨created, target, hkept, hfree⟩ := h
  exact ⟨created, target, hkept.report hresult, hfree⟩

theorem unpublished_call (hact : Keeps act) (h : Unpublished orig w) :
    Unpublished orig (Work.call around act w).2 := by
  obtain ⟨created, target, hkept, hfree⟩ := h
  exact ⟨created, target, kept_call hact hkept, hfree⟩

theorem cleanupUnpublished_clean (h : Unpublished orig w) :
    Unpublished orig (cleanupUnpublished around w) ∧ ((cleanupUnpublished around w).files = orig ∨
        (cleanupUnpublished around w).result.temporaryLeft = true) := by
  obtain ⟨created, target, hkept, hfree⟩ := h
  have hcall : Unpublished orig (Work.call around removeTemporary w).2 :=
    unpublished_call keeps_removeTemporary ⟨created, target, hkept, hfree⟩
  unfold cleanupUnpublished
  rw [hkept.held.created, hkept.held.unpublished]
  cases created with
  | none =>
    refine ⟨⟨none, target, hkept, hfree⟩, Or.inl ?_⟩
    funext name
    exact hkept.held.files name nofun
  | some name =>
    have hremoved (t : Work) (hrun : Work.call around removeTemporary w = (.ok (), t)) :
        t.files = orig := by
      unfold Work.call removeTemporary at hrun
      rw [hkept.held.created] at hrun
      dsimp only at hrun
      split_ifs at hrun
      · cases (Prod.mk.inj hrun).1
      obtain rfl := (Prod.mk.inj hrun).2
      funext other
      show update w.files name none other = orig other
      by_cases hother : other = name
      · rw [hother, update_self, (hfree name rfl).1]
      · rw [update_of_ne hother]
        exact hkept.held.files other fun hsame ↦ hother (Option.some.inj hsame).symm
    rw [if_neg (by simp)]
    rcases hrun : Work.call around removeTemporary w with ⟨error | _, t⟩
    · rw [hrun] at hcall
      refine ⟨hcall.report ?_, Or.inr rfl⟩
      show (t.result.noteCleanup error).published = _
      unfold WorkResult.noteCleanup
      split <;> rfl
    · rw [hrun] at hcall
      exact ⟨hcall, Or.inl (hremoved t hrun)⟩

/-- A creation as a whole, told from the files as they were, the preparation and the end. -/
structure Atomic (orig : Files) (prepared : Except WorkFailure Unit × Work) (final : Work) :
    Prop where
  continues : prepared.2.history <+: final.history
  last : final.history.getLast? = some final.files
  /-- A name that had a file keeps it, the source included. -/
  kept : ∀ moment ∈ final.history, ∀ name octets, orig name = some octets →
    moment name = some octets
  before : ∀ moment ∈ prepared.2.history, ∀ target, final.target = some target →
    moment target = orig target
  /-- The destination gets the file that has gone through every validation and edit. -/
  gives : ∀ moment ∈ final.history, ∀ target, final.target = some target →
    moment target ≠ orig target →
      prepared.1 = .ok () ∧ final.result.published = true ∧ orig target = none ∧
        ∃ name, final.created = some name ∧ moment target = prepared.2.files name
  others : ∀ moment ∈ final.history, ∀ name, moment name ≠ orig name →
    final.created = some name ∨ final.target = some name
  unpublished : final.result.published = false →
    final.files = orig ∨ final.result.temporaryLeft = true

theorem atomic_of_unpublished {prepared : Except WorkFailure Unit × Work} {final : Work}
    (hcontinues : prepared.2.history <+: final.history) (h : Unpublished orig final)
    (hclean : final.files = orig ∨ final.result.temporaryLeft = true) :
    Atomic orig prepared final := by
  obtain ⟨created, target, hkept, hfree⟩ := h
  have hsame : ∀ moment ∈ final.history, ∀ place, final.target = some place →
      moment place = orig place := by
    intro moment hmoment place hplace
    by_contra hne
    apply (hfree place (hkept.history moment hmoment place hne)).2
    exact hkept.held.target.symm.trans hplace
  constructor
  case continues => exact hcontinues
  case last => exact hkept.last
  case kept =>
    intro moment hmoment name octets hname
    by_contra hne
    have hcreated := hkept.history moment hmoment name (hname ▸ hne)
    have hnone := (hfree name hcreated).1
    rw [hname] at hnone
    cases hnone
  case before => exact fun moment hmoment ↦ hsame moment (hcontinues.subset hmoment)
  case gives =>
    intro moment hmoment place hplace hne
    exact absurd (hsame moment hmoment place hplace) hne
  case others =>
    intro moment hmoment name hne
    exact Or.inl (hkept.held.created.trans (hkept.history moment hmoment name hne))
  case unpublished => exact fun _ ↦ hclean

theorem atomic_of_published {prepared : Work} {final : Work}
    (hcontinues : prepared.history <+: final.history) (hmade : Made orig place name prepared)
    (h : Published orig prepared place name final) : Atomic orig (.ok (), prepared) final := by
  constructor
  case continues => exact hcontinues
  case last => exact h.last
  case kept =>
    intro moment hmoment other octets hother
    by_contra hne
    rcases h.others moment hmoment other (hother ▸ hne) with rfl | rfl
    · rw [hmade.free] at hother
      cases hother
    · rw [h.vacant] at hother
      cases hother
  case before =>
    intro moment hmoment target htarget
    obtain rfl := Option.some.inj (h.target.symm.trans htarget)
    by_contra hne
    exact hmade.apart (Option.some.inj (hmade.kept.history moment hmoment _ hne))
  case gives =>
    intro moment hmoment target htarget hne
    obtain rfl := Option.some.inj (h.target.symm.trans htarget)
    rw [h.vacant] at hne
    exact ⟨rfl, h.published, h.vacant, name, h.created, h.content moment hmoment hne⟩
  case others =>
    intro moment hmoment other hne
    rcases h.others moment hmoment other hne with rfl | rfl
    · exact Or.inl h.created
    · exact Or.inr h.target
  case unpublished =>
    intro hfalse
    rw [h.published] at hfalse
    cases hfalse

variable {past : List Files}

theorem steady_past (act : Fault → Work → α × Work) :
    Steady (fun t ↦ past <+: t.history) (ask around act) :=
  steady_lift fun _ h ↦ h.trans (prefix_append _ _)

theorem publish_past : Steady (fun t ↦ past <+: t.history) (publish around) := by
  have hleave (failure : WorkFailure) : Steady (fun t : Work ↦ past <+: t.history)
      (leave >>= fun _ ↦ (refuse failure : Step Unit)) := by
    apply Steady.seq _ steady_refuse
    apply steady_modify
    exact fun _ h ↦ h
  have hmust (status : WorkStatus) (stage : WorkStage) :
      Steady (fun t ↦ past <+: t.history) (must around status stage observe) := by
    apply (steady_past observe).bind
    rintro (error | _)
    · exact steady_refuse
    · exact steady_pure
  unfold publish
  split
  case h_1 =>
    apply (hmust _ _).seq
    apply (steady_past _).bind
    rintro (_ | _ | error)
    · exact steady_pure
    · exact steady_refuse
    · exact steady_refuse
  case h_2 =>
    apply (steady_past _).bind
    rintro (_ | _ | error)
    case done =>
      apply (steady_past _).bind
      rintro (error | _)
      · exact hleave _
      apply (steady_past _).bind
      rintro (error | _)
      · exact hleave _
      exact hmust _ _
    all_goals exact steady_refuse

theorem finish_past {success : Bool} (h : past <+: w.history) :
    past <+: (finish around success w).history := by
  have hcall {α : Type} (act : Fault → Work → α × Work) (t : Work) (ht : past <+: t.history) :
      past <+: (Work.call around act t).2.history := ht.trans (prefix_append _ _)
  have hclosed : past <+: (closeTemporary around (closeSource around w)).history := by
    apply close_both (P := fun t ↦ past <+: t.history) _ _ h
    · exact fun handle t ht ↦ hcall _ t ht
    · exact fun _ _ _ ht ↦ ht
  unfold finish
  dsimp only
  split
  · exact hclosed
  · have hremove := hcall removeTemporary _ hclosed
    unfold cleanupUnpublished
    split
    · exact hclosed
    · rcases hrun : Work.call around removeTemporary (closeTemporary around (closeSource around w))
        with ⟨error | _, t⟩
      · rwa [hrun] at hremove
      · rwa [hrun] at hremove

theorem finish_unpublished {w : Work} (h : Unpublished orig w) :
    Unpublished orig (finish around false w) ∧ ((finish around false w).files = orig ∨
      (finish around false w).result.temporaryLeft = true) := by
  apply cleanupUnpublished_clean
  apply close_both (P := Unpublished orig) _ _ h
  · exact fun handle t ht ↦ unpublished_call (keeps_hostFileClose handle) ht
  · exact fun t result hresult ht ↦ ht.report hresult

theorem finish_published {success : Bool} (happart : name ≠ place)
    (h : Published orig prepared place name w) :
    Published orig prepared place name (finish around success w) := by
  have hclosed : Published orig prepared place name
      (closeTemporary around (closeSource around w)) := by
    apply close_both (P := Published orig prepared place name) _ _ h
    · exact fun handle t ht ↦ published_call (spares_hostFileClose handle) happart ht
    · exact fun t result hresult ht ↦ published_report hresult ht
  unfold finish
  dsimp only
  split
  · exact hclosed
  · unfold cleanupUnpublished
    rw [hclosed.published, if_pos (Or.inr rfl)]
    exact hclosed

theorem rootfsWorkCreate_refused {passes : Passes} {source destination : List Octet}
    {options : WorkOptions} {files : Files} {failure : WorkFailure}
    (hrun : prepare around passes source destination options.selected (.first files) =
      (.error failure, w)) :
    rootfsWorkCreate around passes source destination options files =
      finish around false { w with result := w.result.fail failure } := by
  unfold rootfsWorkCreate
  simp only [bind, andThen, hrun]

theorem rootfsWorkCreate_prepared {passes : Passes} {source destination : List Octet}
    {options : WorkOptions} {files : Files}
    (hrun : prepare around passes source destination options.selected (.first files) =
      (.ok (), w)) :
    rootfsWorkCreate around passes source destination options files =
      match publish around w with
      | (.error failure, w) => finish around false { w with result := w.result.fail failure }
      | (.ok (), w) =>
        finish around true { w with
          result := { w.result with status := .ok, stage := .none, systemError := 0 } } := by
  unfold rootfsWorkCreate
  rcases hpublish : publish around w with ⟨failure | _, t⟩ <;>
    simp only [bind, andThen, hrun, hpublish]

end S5LBox.Tools
