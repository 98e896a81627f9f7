import S5LBox.App.TouchQueue

/-!
# Delivery of touch reports

The tracker's reports go through the queue to a consumer that peeks and then pops. Every report that
was pushed is delivered, or was a move that a newer move superseded, or was refused and counted; so
a gesture arrives whole where none of its edges met a full ring.
-/

namespace S5LBox.App

open Option

/-- What became of a report that was pushed. -/
inductive Fate
  | kept | superseded | dropped
deriving DecidableEq

/-- Whether the contact is down after a report. -/
def contactAfter (down : Bool) (c : MtContact) : Bool :=
  if c.phase = phaseMakeTouch then true
  else if c.phase = phaseBreakTouch then false
  else down

def contactDown (down : Bool) (reports : List MtContact) : Bool := reports.foldl contactAfter down

/-- Only a contact that was put down is moved or lifted. -/
def Gestures : Bool → List MtContact → Prop
  | _, [] => True
  | down, c :: rest =>
    (c.phase ≠ phaseMakeTouch → down = true) ∧ Gestures (contactAfter down c) rest

theorem gestures_append {down : Bool} {first second : List MtContact} :
    Gestures down (first ++ second) ↔
      Gestures down first ∧ Gestures (contactDown down first) second := by
  induction first generalizing down with
  | nil => exact (iff_of_eq (true_and _)).symm
  | cons c first ih =>
    rw [List.cons_append, Gestures, Gestures, ih, and_assoc]
    rfl

def kept (log : List (MtContact × Fate)) : List MtContact :=
  (log.filter (·.2 = .kept)).map Prod.fst

theorem gestures_kept {log : List (MtContact × Fate)} {down lost : Bool}
    (hdown : down = true → lost = true)
    (hmake : ∀ entry ∈ log, entry.2 ≠ .kept → entry.1.phase ≠ phaseMakeTouch)
    (h : Gestures down (log.map Prod.fst)) : Gestures lost (kept log) := by
  induction log generalizing down lost with
  | nil => trivial
  | cons entry log ih =>
    obtain ⟨hfirst, hrest⟩ := h
    have hmake' := fun e he ↦ hmake e (List.mem_cons_of_mem _ he)
    by_cases hkept : entry.2 = .kept
    · rw [kept, List.filter_cons_of_pos (by exact decide_eq_true hkept), List.map_cons]
      refine ⟨fun hne ↦ hdown (hfirst hne), ih (fun hafter ↦ ?_) hmake' hrest⟩
      unfold contactAfter at hafter ⊢
      split_ifs at hafter ⊢ with hphase hbreak
      · rfl
      · exact hdown hafter
    · rw [kept, List.filter_cons_of_neg (by simpa using hkept)]
      refine ih (fun hafter ↦ ?_) hmake' hrest
      unfold contactAfter at hafter
      rw [if_neg (hmake entry List.mem_cons_self hkept)] at hafter
      split_ifs at hafter
      exact hdown hafter

/-- Without a lift, a gesture loses nothing that says the contact is up. -/
theorem contactDown_kept {log : List (MtContact × Fate)} {down lost : Bool}
    (hdown : lost = true → down = true)
    (hbreak : ∀ entry ∈ log, entry.2 ≠ .kept → entry.1.phase ≠ phaseBreakTouch)
    (h : contactDown lost (kept log) = true) : contactDown down (log.map Prod.fst) = true := by
  induction log generalizing down lost with
  | nil => exact hdown h
  | cons entry log ih =>
    have hbreak' := fun e he ↦ hbreak e (List.mem_cons_of_mem _ he)
    by_cases hkept : entry.2 = .kept
    · rw [kept, List.filter_cons_of_pos (by exact decide_eq_true hkept), List.map_cons] at h
      refine ih (fun hafter ↦ ?_) hbreak' h
      unfold contactAfter at hafter ⊢
      split_ifs at hafter ⊢ with hphase hlift
      · rfl
      · exact hdown hafter
    · rw [kept, List.filter_cons_of_neg (by simpa using hkept)] at h
      refine ih (fun hlost ↦ ?_) hbreak' h
      unfold contactAfter
      split_ifs with hphase hlift
      · rfl
      · exact absurd hlift (hbreak entry List.mem_cons_self hkept)
      · exact hdown hlost

/-- The entry after the dropped ones. -/
def next (log : List (MtContact × Fate)) : Option (MtContact × Fate) :=
  log.find? (·.2 ≠ .dropped)

/-- A report that was superseded is a move, and so is the one that came for it. -/
def Superseded : List (MtContact × Fate) → Prop
  | [] => True
  | entry :: rest => (entry.2 = .superseded → entry.1.phase = phaseTouching ∧
      ∃ newer, next rest = some newer ∧ newer.1.phase = phaseTouching) ∧ Superseded rest

/-- Where every report that was pushed has gone. -/
structure Accounts (q : TouchQueue) (popped pushed refused : List MtContact)
    (log : List (MtContact × Fate)) : Prop where
  pushed : log.map Prod.fst = pushed
  kept : kept log = popped ++ q.contents
  queued : q.queued = BitVec.ofNat 64 (log.countP (·.2 = .kept))
  coalesced : q.coalesced = BitVec.ofNat 64 (log.countP (·.2 = .superseded))
  losses : (log.filter (·.2 = .dropped)).map Prod.fst = refused
  dropped : q.dropped = BitVec.ofNat 64 refused.length
  superseded : Superseded log

theorem phase_of_superseded {log : List (MtContact × Fate)} (h : Superseded log) :
    ∀ entry ∈ log, entry.2 = .superseded → entry.1.phase = phaseTouching := by
  induction log with
  | nil => exact fun entry he ↦ absurd he List.not_mem_nil
  | cons first log ih =>
    rintro entry (_ | ⟨_, he⟩) hfate
    · exact (h.1 hfate).1
    · exact ih h.2 entry he hfate

theorem next_append {log later : List (MtContact × Fate)} :
    next (log ++ later) = (next log).or (next later) := List.find?_append

/-- Entries behind the log keep what it says, if none is a superseded one that lacks its move. -/
theorem superseded_append {log later : List (MtContact × Fate)} (h : Superseded log)
    (hlater : Superseded later) : Superseded (log ++ later) := by
  induction log with
  | nil => exact hlater
  | cons entry log ih =>
    refine ⟨fun hentry ↦ ?_, ih h.2⟩
    obtain ⟨hphase, newer, hnewer, hmove⟩ := h.1 hentry
    exact ⟨hphase, newer, next_append.trans (by rw [hnewer]; rfl), hmove⟩

theorem kept_cons (entry : MtContact × Fate) (log : List (MtContact × Fate)) :
    kept (entry :: log) = if entry.2 = .kept then entry.1 :: kept log else kept log := by
  unfold kept
  rw [List.filter_cons]
  split <;> simp_all

theorem kept_append (log later : List (MtContact × Fate)) :
    kept (log ++ later) = kept log ++ kept later := by
  unfold kept
  rw [List.filter_append, List.map_append]

theorem dropped_of_kept_nil {log : List (MtContact × Fate)} (hkept : kept log = [])
    (h : Superseded log) : ∀ entry ∈ log, entry.2 = .dropped := by
  induction log with
  | nil => exact fun entry he ↦ absurd he List.not_mem_nil
  | cons entry log ih =>
    rw [kept_cons] at hkept
    split at hkept
    case isTrue => cases hkept
    case isFalse hne =>
      have hrest := ih hkept h.2
      rintro e (_ | ⟨_, he⟩)
      · cases hfate : entry.2 with
        | kept => exact absurd hfate hne
        | dropped => rfl
        | superseded =>
          obtain ⟨_, newer, hnewer, _⟩ := h.1 hfate
          have hmem := List.mem_of_find?_eq_some hnewer
          exact absurd (hrest newer hmem) (by simpa using List.find?_some hnewer)
      · exact hrest e he

theorem exists_last_kept {log : List (MtContact × Fate)} {front : List MtContact} {c : MtContact}
    (hkept : kept log = front ++ [c]) (h : Superseded log) :
    ∃ before gap, log = before ++ (c, .kept) :: gap ∧ kept before = front ∧
      ∀ entry ∈ gap, entry.2 = .dropped := by
  induction log generalizing front with
  | nil => exact absurd (congrArg List.length hkept) (by simp [kept])
  | cons entry log ih =>
    rw [kept_cons] at hkept
    split at hkept
    case isTrue hentry =>
      cases front with
      | nil =>
        obtain ⟨hc, hrest⟩ := List.cons.inj hkept
        exact ⟨[], log, by rw [← hc, ← hentry]; rfl, rfl, dropped_of_kept_nil hrest h.2⟩
      | cons first front =>
        obtain ⟨hfirst, hrest⟩ := List.cons.inj hkept
        obtain ⟨before, gap, rfl, hbefore, hgap⟩ := ih hrest h.2
        exact ⟨entry :: before, gap, rfl, by rw [kept_cons, if_pos hentry, hbefore, hfirst], hgap⟩
    case isFalse hentry =>
      obtain ⟨before, gap, rfl, hbefore, hgap⟩ := ih hkept h.2
      exact ⟨entry :: before, gap, rfl, by rw [kept_cons, if_neg hentry, hbefore], hgap⟩

theorem superseded_replace {before gap : List (MtContact × Fate)} {back c : MtContact}
    (h : Superseded (before ++ (back, .kept) :: gap)) (hgap : ∀ entry ∈ gap, entry.2 = .dropped)
    (hback : back.phase = phaseTouching) (hc : c.phase = phaseTouching) :
    Superseded (before ++ (back, .superseded) :: (gap ++ [(c, .kept)])) := by
  have hdropped : next gap = none := List.find?_eq_none.2 fun entry he ↦ by simp [hgap entry he]
  have hnext : next (gap ++ [(c, .kept)]) = some (c, .kept) := by
    rw [next_append, hdropped]
    rfl
  induction before with
  | nil =>
    refine ⟨fun _ ↦ ⟨hback, (c, .kept), hnext, hc⟩, superseded_append h.2 ⟨fun hne ↦ ?_, trivial⟩⟩
    cases hne
  | cons entry before ih =>
    refine ⟨fun hentry ↦ ?_, ih h.2⟩
    obtain ⟨hphase, newer, hnewer, hmove⟩ := h.1 hentry
    change next (before ++ (back, .kept) :: gap) = some newer at hnewer
    refine ⟨hphase, ?_⟩
    change ∃ newer, next (before ++ (back, .superseded) :: (gap ++ [(c, .kept)])) = some newer ∧ _
    rw [next_append] at hnewer ⊢
    cases hbefore : next before with
    | some found =>
      rw [hbefore] at hnewer
      exact ⟨newer, hnewer, hmove⟩
    | none => exact ⟨(back, .superseded), rfl, hback⟩

theorem countP_replace (before gap : List (MtContact × Fate)) (back c : MtContact) (fate : Fate) :
    (before ++ (back, Fate.superseded) :: (gap ++ [(c, Fate.kept)])).countP (·.2 = fate) =
      (before ++ (back, Fate.kept) :: gap).countP (·.2 = fate) +
        if fate = .superseded then 1 else 0 := by
  simp only [List.countP_append, List.countP_cons, List.countP_nil]
  cases fate <;> simp
  omega

variable {q : TouchQueue} {popped pushed refused : List MtContact} {log : List (MtContact × Fate)}

theorem accounts_push (h : Accounts q popped pushed refused log) (c : MtContact) :
    ∃ log', Accounts (q.push c).2 popped (pushed ++ [c])
      (if (q.push c).1 then refused else refused ++ [c]) log' := by
  by_cases hroom : q.count < vmTouchQueueCap
  · obtain ⟨hcontents, hkeep, hqueued, hcoalesced, hdropped⟩ := q.push_room hroom
    rw [hkeep, if_pos rfl]
    refine ⟨log ++ [(c, .kept)], ?_, ?_, ?_, ?_, ?_, hdropped.trans h.dropped, ?_⟩
    · rw [List.map_append, h.pushed]
      rfl
    · rw [kept_append, h.kept, hcontents, List.append_assoc]
      rfl
    · rw [hqueued, h.queued, List.countP_append, BitVec.ofNat_add]
      rfl
    · rw [hcoalesced, h.coalesced, List.countP_append]
      rfl
    · rw [List.filter_append, List.map_append, h.losses]
      exact List.append_nil _
    · exact superseded_append h.superseded ⟨fun hne ↦ (nomatch hne), trivial⟩
  · by_cases hmoves : c.phase = phaseTouching ∧ (q.slot q.back).phase = phaseTouching
    · obtain ⟨⟨front, hfront, _, hcontents⟩, hkeep, hqueued, hcoalesced, hdropped⟩ :=
        q.push_moved hroom hmoves.1 hmoves.2
      rw [hkeep, if_pos rfl]
      have hkept := h.kept
      rw [hfront, ← List.append_assoc] at hkept
      obtain ⟨before, gap, rfl, hbefore, hgap⟩ := exists_last_kept hkept h.superseded
      have hlost : kept gap = [] := by
        unfold kept
        rw [List.filter_eq_nil_iff.2 fun entry he ↦ by simp [hgap entry he]]
        rfl
      refine ⟨before ++ (q.slot q.back, .superseded) :: (gap ++ [(c, .kept)]), ?_, ?_, ?_, ?_, ?_,
        hdropped.trans h.dropped, superseded_replace h.superseded hgap hmoves.2 hmoves.1⟩
      · rw [← h.pushed]
        simp only [List.map_append, List.map_cons, List.map_nil, List.append_assoc,
          List.cons_append]
      · rw [kept_append, kept_cons, if_neg Fate.noConfusion, kept_append, hlost, hbefore, hcontents,
          List.append_assoc]
        rfl
      · rw [hqueued, h.queued, countP_replace]
        rfl
      · rw [hcoalesced, h.coalesced, countP_replace, BitVec.ofNat_add]
        rfl
      · rw [← h.losses]
        simp [List.filter_append]
    · rw [q.push_full hroom hmoves, if_neg Bool.false_ne_true]
      refine ⟨log ++ [(c, .dropped)], ?_, ?_, ?_, ?_, ?_, ?_, ?_⟩
      · rw [List.map_append, h.pushed]
        rfl
      · rw [kept_append, h.kept]
        exact List.append_nil _
      · rw [h.queued, List.countP_append]
        rfl
      · rw [h.coalesced, List.countP_append]
        rfl
      · rw [List.filter_append, List.map_append, h.losses]
        rfl
      · rw [h.dropped, List.length_append, BitVec.ofNat_add]
        rfl
      · exact superseded_append h.superseded ⟨fun hne ↦ (nomatch hne), trivial⟩

theorem accounts_pop {c : MtContact} (h : Accounts q popped pushed refused log)
    (hc : q.contents.head? = some c) : Accounts q.pop (popped ++ [c]) pushed refused log := by
  have hkept : kept log = popped ++ [c] ++ q.pop.contents := by
    rw [h.kept, q.contents_pop, List.append_assoc, List.singleton_append,
      ← List.eq_cons_of_mem_head? hc]
  have hcounts : q.pop.queued = q.queued ∧ q.pop.coalesced = q.coalesced ∧
      q.pop.dropped = q.dropped := by
    unfold TouchQueue.pop
    split <;> exact ⟨rfl, rfl, rfl⟩
  exact ⟨h.pushed, hkept, hcounts.1.trans h.queued, hcounts.2.1.trans h.coalesced,
    h.losses, hcounts.2.2.trans h.dropped, h.superseded⟩

inductive TouchStep
  | track (phase : TouchPhase) (mapped : TouchPoint)
  | push
  | peek
  | pop

/-- The producer and the consumer. `pending` are reports the tracker has emitted that are not pushed
yet, `peeked` is the one the consumer is busy with, and the lists record what has happened. -/
structure TouchRun where
  tracker : TouchTracker
  pending : List MtContact
  queue : TouchQueue
  peeked : Option MtContact
  emitted : List MtContact
  pushed : List MtContact
  refused : List MtContact
  popped : List MtContact

def touchStart : TouchRun := ⟨⟨false, 0, 0⟩, [], vmTouchQueueReset, none, [], [], [], []⟩

/-- The report an event of the finger leads to. -/
def trackReport (tracker : TouchTracker) (phase : TouchPhase) (mapped : TouchPoint) :
    Option MtContact :=
  (vmTouchTrack tracker phase mapped).2.bind fun point ↦ vmTouchContactFromUi phase point.1 point.2

/-- A pop is made for the report that was peeked at. -/
def TouchRun.step (s : TouchRun) : TouchStep → TouchRun
  | .track phase mapped =>
    let report := (trackReport s.tracker phase mapped).toList
    { s with
      tracker := (vmTouchTrack s.tracker phase mapped).1
      pending := s.pending ++ report
      emitted := s.emitted ++ report }
  | .push =>
    match s.pending with
    | [] => s
    | c :: rest =>
      { s with
        pending := rest
        queue := (s.queue.push c).2
        pushed := s.pushed ++ [c]
        refused := if (s.queue.push c).1 then s.refused else s.refused ++ [c] }
  | .peek => { s with peeked := s.queue.peek }
  | .pop =>
    match s.peeked with
    | none => s
    | some c => { s with queue := s.queue.pop, peeked := none, popped := s.popped ++ [c] }

def TouchRun.run (s : TouchRun) (steps : List TouchStep) : TouchRun := steps.foldl step s

/-- The tracker between events: a point it would report is on the panel, and while it is active the
contact of what it has emitted is down. -/
structure Tracked (tracker : TouchTracker) (emitted : List MtContact) : Prop where
  gestures : Gestures false emitted
  active : tracker.active = true → contactDown false emitted = true
  onPanel : tracker.active = true →
    0 ≤ tracker.x ∧ 0 ≤ tracker.y ∧ tracker.x < panelWidth ∧ tracker.y < panelHeight

structure Delivers (s : TouchRun) : Prop where
  tracked : Tracked s.tracker s.emitted
  pending : s.pushed ++ s.pending = s.emitted
  accounts : ∃ log, Accounts s.queue s.popped s.pushed s.refused log
  peeked : ∀ c, s.peeked = some c → s.queue.contents.head? = some c

theorem contactFromUi_of_onPanel (phase : TouchPhase) {x y : ℤ}
    (h : 0 ≤ x ∧ 0 ≤ y ∧ x < panelWidth ∧ y < panelHeight) :
    ∃ c, vmTouchContactFromUi phase x y = some c ∧ c.phase = match phase with
      | .began => phaseMakeTouch
      | .moved => phaseTouching
      | .ended | .cancelled => phaseBreakTouch := by
  unfold vmTouchContactFromUi
  dsimp only
  rw [if_neg (by omega)]
  refine ⟨_, rfl, ?_⟩
  cases phase <;> rfl

theorem contactDown_append (down : Bool) (first second : List MtContact) :
    contactDown down (first ++ second) = contactDown (contactDown down first) second :=
  List.foldl_append

theorem gestures_emit {emitted : List MtContact} {c : MtContact} (h : Gestures false emitted)
    (hc : c.phase ≠ phaseMakeTouch → contactDown false emitted = true) :
    Gestures false (emitted ++ [c]) :=
  gestures_append.2 ⟨h, hc, trivial⟩

theorem Tracked.track {tracker : TouchTracker} {emitted : List MtContact}
    (h : Tracked tracker emitted) (phase : TouchPhase) (mapped : TouchPoint) :
    Tracked (vmTouchTrack tracker phase mapped).1
      (emitted ++ (trackReport tracker phase mapped).toList) := by
  unfold trackReport vmTouchTrack
  split
  case isTrue hbegan =>
    subst hbegan
    split
    case isTrue hinside =>
      have hout : mapped.inside = false := by simpa using hinside
      dsimp only [bind_none, toList_none]
      rw [List.append_nil, hout]
      exact ⟨h.gestures, fun hactive ↦ (nomatch hactive), fun hactive ↦ (nomatch hactive)⟩
    case isFalse hinside =>
      have hin : mapped.inside = true := by simpa using hinside
      obtain ⟨c, hc, hphase⟩ := contactFromUi_of_onPanel .began (mapped.onPanel hin)
      dsimp only at hphase
      dsimp only [bind_some]
      rw [hc]
      refine ⟨gestures_emit h.gestures fun hne ↦ absurd hphase hne, fun _ ↦ ?_,
        fun _ ↦ mapped.onPanel hin⟩
      rw [contactDown_append]
      exact if_pos hphase
  case isFalse hbegan =>
    split
    case isTrue =>
      rw [bind_none, toList_none, List.append_nil]
      exact h
    case isFalse hidle =>
      have hactive : tracker.active = true := by simpa using hidle
      split
      case isTrue =>
        rw [bind_none, toList_none, List.append_nil]
        exact h
      case isFalse hreport =>
        have hdown := h.active hactive
        generalize hmoved : (if mapped.inside then { tracker with x := mapped.x, y := mapped.y }
          else tracker) = moved
        have hpanel : 0 ≤ moved.x ∧ 0 ≤ moved.y ∧ moved.x < panelWidth ∧ moved.y < panelHeight := by
          rw [← hmoved]
          split
          case isTrue hin => exact mapped.onPanel hin
          case isFalse => exact h.onPanel hactive
        have hemit {c : MtContact} : Gestures false (emitted ++ [c]) :=
          gestures_emit h.gestures fun _ ↦ hdown
        obtain ⟨c, hc, hphase⟩ := contactFromUi_of_onPanel phase hpanel
        cases phase with
        | began => exact absurd rfl hbegan
        | moved =>
          dsimp only [bind_some] at hphase ⊢
          rw [if_neg (by decide), hc]
          refine ⟨hemit, fun _ ↦ ?_, fun _ ↦ hpanel⟩
          rw [contactDown_append, hdown]
          change contactAfter true c = true
          rw [contactAfter, hphase]
          rfl
        | ended | cancelled =>
          dsimp only [bind_some]
          rw [if_pos (by decide), hc]
          exact ⟨hemit, fun hfalse ↦ (nomatch hfalse), fun hfalse ↦ (nomatch hfalse)⟩

theorem delivers_step {s : TouchRun} (h : Delivers s) (step : TouchStep) :
    Delivers (s.step step) := by
  cases step with
  | track phase mapped =>
    refine ⟨h.tracked.track phase mapped, ?_, h.accounts, h.peeked⟩
    calc s.pushed ++ (s.pending ++ (trackReport s.tracker phase mapped).toList)
        = s.pushed ++ s.pending ++ (trackReport s.tracker phase mapped).toList :=
          (List.append_assoc _ _ _).symm
      _ = s.emitted ++ (trackReport s.tracker phase mapped).toList := by rw [h.pending]
  | push =>
    obtain ⟨log, hlog⟩ := h.accounts
    unfold TouchRun.step
    cases hpending : s.pending with
    | nil => exact h
    | cons c rest =>
      refine ⟨h.tracked, ?_, accounts_push hlog c, fun front hfront ↦ ?_⟩
      · calc s.pushed ++ [c] ++ rest
            = s.pushed ++ s.pending := by rw [hpending, List.append_assoc]; rfl
          _ = s.emitted := h.pending
      · exact TouchQueue.head?_push (h.peeked front hfront) c
  | peek => exact ⟨h.tracked, h.pending, h.accounts, fun c hc ↦ s.queue.contents_peek ▸ hc⟩
  | pop =>
    obtain ⟨log, hlog⟩ := h.accounts
    unfold TouchRun.step
    cases hpeeked : s.peeked with
    | none => exact h
    | some c =>
      exact ⟨h.tracked, h.pending, ⟨log, accounts_pop hlog (h.peeked c hpeeked)⟩,
        fun front hfront ↦ (nomatch hfront)⟩

theorem delivers_run (steps : List TouchStep) : Delivers (touchStart.run steps) := by
  have hrun (s : TouchRun) (h : Delivers s) : Delivers (s.run steps) := by
    induction steps generalizing s with
    | nil => exact h
    | cons step steps ih => exact ih _ (delivers_step h step)
  refine hrun touchStart ⟨⟨trivial, fun h ↦ (nomatch h), fun h ↦ (nomatch h)⟩, rfl,
    ⟨[], rfl, rfl, rfl, rfl, rfl, rfl, trivial⟩, fun c hc ↦ (nomatch hc)⟩

/-- Every run delivers what is pushed in order, less the moves that were superseded and what was
refused and counted; the gestures arrive whole where no edge of theirs was refused, and a full ring
alone refuses an edge. -/
theorem touch_delivery (steps : List TouchStep) :
    let s := touchStart.run steps
    (∃ log, Accounts s.queue s.popped s.pushed s.refused log) ∧ s.pushed ++ s.pending = s.emitted ∧
      (∀ c : MtContact, c.phase ≠ phaseTouching →
        ((s.queue.push c).1 = false ↔ s.queue.count = vmTouchQueueCap)) ∧
      ((∀ c ∈ s.refused, c.phase ≠ phaseMakeTouch) → Gestures false s.popped) ∧
      ((∀ c ∈ s.refused, c.phase ≠ phaseBreakTouch) →
        contactDown false (s.popped ++ s.queue.contents) = true →
          contactDown false s.pushed = true) := by
  intro s
  have h : Delivers s := delivers_run steps
  obtain ⟨log, hlog⟩ := h.accounts
  have hmoves {edge : ℕ} (hedge : phaseTouching ≠ edge)
      (hrefused : ∀ c ∈ s.refused, c.phase ≠ edge) :
      ∀ entry ∈ log, entry.2 ≠ .kept → entry.1.phase ≠ edge := by
    intro entry he hkept
    cases hfate : entry.2 with
    | kept => exact absurd hfate hkept
    | dropped =>
      apply hrefused
      rw [← hlog.losses]
      exact List.mem_map_of_mem (List.mem_filter.2 ⟨he, decide_eq_true hfate⟩)
    | superseded => rwa [phase_of_superseded hlog.superseded entry he hfate]
  have hpushed : Gestures false s.pushed := (gestures_append.1 (h.pending ▸ h.tracked.gestures)).1
  refine ⟨⟨log, hlog⟩, h.pending, fun c hc ↦ TouchQueue.push_edge hc, fun hrefused ↦ ?_,
    fun hrefused hdown ↦ ?_⟩
  · have hkept := gestures_kept id (hmoves (by decide) hrefused) (hlog.pushed ▸ hpushed)
    exact (gestures_append.1 (hlog.kept ▸ hkept)).1
  · rw [← hlog.kept] at hdown
    rw [← hlog.pushed]
    exact contactDown_kept id (hmoves (by decide) hrefused) hdown

def thumb : TouchPoint := ⟨10, 10, true, by decide⟩

/-- A drag of seven moves, pushed before the consumer comes, and then all of it consumed. -/
def floodSteps : List TouchStep :=
  .track .began thumb :: List.replicate 7 (.track .moved thumb) ++ [.track .ended thumb] ++
    List.replicate 9 .push ++ (List.replicate 8 [.peek, .pop]).flatten

/-- The lift is lost although moves are queued, and the guest is left with the contact down. -/
theorem touch_lift_lost :
    let s := touchStart.run floodSteps
    s.pending = [] ∧ s.queue.count = 0 ∧ contactDown false s.pushed = false ∧
      contactDown false s.popped = true ∧ s.refused.map MtContact.phase = [phaseBreakTouch] ∧
        s.popped.map MtContact.phase = phaseMakeTouch :: List.replicate 7 phaseTouching := by
  decide

end S5LBox.App
