import S5LBox.Boot.TreeEdits

/-!
# The tree that the kernel gets

What the bring-up does to the tree in RAM, from the clocks to the nodes that are un-matched, is one
sequence of edits of the blob. A bring-up that stops on the way has made the first of them.
-/

namespace S5LBox.Boot

open Attempt

def clockEdits (table : List (String × String × ℕ)) : List DtEdit :=
  table.map fun (path, prop, value) ↦ .setU32 (ascii path) (ascii prop) value

/-- The edits that a request asks for, with the RAM disk where it was reserved. -/
def bringupEdits (request : Request) (plan : Plan) (ramDisk : ℕ × ℕ) : List DtEdit :=
  clockEdits clocks ++
  ((if request.wantFb && !request.noLcdPanelId then
      [.setU32 lcdNode (ascii "lcd-panel-id") lcdPanelId] else []) ++
  ((if !request.noMemoryNode then
      [.setReg (ascii "memory") (ascii "reg") physBase ramSize] else []) ++
  ((if request.wantFb then
      [.setReg (ascii "vram") (ascii "reg") (plan.framebuffer.start % 2 ^ 32) vramBytes] else []) ++
  ((if request.wantRoot then
      [.memmapAdd (ascii "RAMDisk") zero_notMem_ramDisk ramDisk.1 ramDisk.2] else []) ++
  request.unmatch.map .unmatch))))

def Bringup.rootDt (b : Bringup) : ℕ × ℕ := (b.result.rootDtAddress, b.result.rootDtSize)

variable {plan : Plan} {length : ℕ} {s : Bringup} {p : Step Unit} {run run' : List DtEdit}

/-- A step makes all of some edits, or stops behind the first of them. -/
def Makes (plan : Plan) (length : ℕ) (run : List DtEdit) (p : Step Unit) (s : Bringup) : Prop :=
  Ends (fun _ t ↦ t.tree plan length = dtRun (s.tree plan length) run ∧ t.rootDt = s.rootDt)
    (fun _ t ↦ ∃ done, done <+: run ∧ t.tree plan length = dtRun (s.tree plan length) done) p s

theorem dtRun_append (b : List Octet) (first second : List DtEdit) :
    dtRun b (first ++ second) = dtRun (dtRun b first) second := List.foldl_append

theorem makes_nothing : Makes plan length [] (pure ()) s := ends_pure.2 ⟨rfl, rfl⟩

theorem Makes.seq {q : Step Unit} (h : Makes plan length run p s)
    (next : ∀ t, t.rootDt = s.rootDt → Makes plan length run' q t) :
    Makes plan length (run ++ run') (p >>= fun _ ↦ q) s := by
  rw [Makes, ends_iff] at h
  rw [Makes, ends_bind]
  refine ends_iff.2 ⟨fun _ t ht ↦ ?_, fun e t ht ↦ ?_⟩
  · obtain ⟨htree, hroot⟩ := h.1 _ t ht
    refine (next t hroot).mono (fun _ u hu ↦ ?_) fun _ u hu ↦ ?_
    · exact ⟨by rw [hu.1, htree, dtRun_append], hu.2.trans hroot⟩
    · obtain ⟨done, hdone, hu⟩ := hu
      exact ⟨run ++ done, (List.prefix_append_right_inj run).2 hdone,
        by rw [hu, htree, dtRun_append]⟩
  · obtain ⟨done, hdone, htree⟩ := h.2 e t ht
    exact ⟨done, hdone.trans (List.prefix_append _ _), htree⟩

theorem makes_report {change : BringupResult → BringupResult}
    (hroot : ((change s.result).rootDtAddress, (change s.result).rootDtSize) = s.rootDt) :
    Makes plan length [] (report change) s := ends_modify.2 ⟨rfl, hroot⟩

theorem storeEdits_done (plan : Plan) (edits : List Edit) (s : Bringup) :
    ∃ t, storeEdits plan edits s = (.ok (), t) ∧ t.rootDt = s.rootDt := by
  induction edits generalizing s with
  | nil => exact ⟨s, rfl, rfl⟩
  | cons edit edits ih =>
    obtain ⟨t, ht, hroot⟩ := ih (s.store .tree (plan.statics.tree.start + edit.1) edit.2)
    exact ⟨t, ht, hroot⟩

theorem patch_eq (plan : Plan) (length : ℕ) (find : List Octet → Option (List Edit))
    (s : Bringup) : patch plan length find s =
      (expect (find (s.tree plan length)) (.devicetreePatchFailed, .devicetreePatch) >>=
        storeEdits plan) s := rfl

theorem makes_patch {find : List Octet → Option (List Edit)} (e : DtEdit)
    (hedits : ∀ b, find b = e.edits b ∨ find b = none) :
    Makes plan length [e] (patch plan length find) s := by
  cases hfind : find (s.tree plan length) with
  | none =>
    have hfailed : patch plan length find s =
        (.error (.devicetreePatchFailed, .devicetreePatch), s) := by
      rw [patch_eq, hfind]
      rfl
    rw [Makes, Ends, hfailed]
    exact ⟨[], List.nil_prefix, rfl⟩
  | some edits =>
    have hsame : find (s.tree plan length) = e.edits (s.tree plan length) :=
      (hedits _).resolve_right (by simp [hfind])
    obtain ⟨t, ht, hroot⟩ := storeEdits_done plan edits s
    have hmade : patch plan length e.edits s = (.ok (), t) := by
      rw [patch_eq, ← hsame, hfind]
      exact ht
    rw [Makes, Ends, patch_eq, hsame, ← patch_eq, hmade]
    exact ⟨e.patch_eq_apply hmade, hroot⟩

theorem makes_patchIf {find : List Octet → Option (List Edit)} (wanted : Bool) (e : DtEdit)
    (hedits : ∀ b, find b = e.edits b ∨ find b = none) :
    Makes plan length (if wanted then [e] else []) (patchIf wanted plan length find) s := by
  cases wanted with
  | false => exact makes_nothing
  | true => exact (makes_patch e hedits).seq fun _ _ ↦ makes_report rfl

theorem makes_patchClocks (table : List (String × String × ℕ)) :
    Makes plan length (clockEdits table) (patchClocks plan length table) s := by
  induction table generalizing s with
  | nil => exact makes_nothing
  | cons row rest ih =>
    obtain ⟨path, prop, value⟩ := row
    exact (makes_patch (.setU32 (ascii path) (ascii prop) value) fun _ ↦ .inl rfl).seq fun _ _ ↦
      (makes_report rfl).seq fun _ _ ↦ ih

theorem makes_unmatchLoop (paths : List (List Octet)) :
    Makes plan length (paths.map .unmatch) (unmatchLoop plan length paths) s := by
  induction paths generalizing s with
  | nil => exact makes_nothing
  | cons path rest ih =>
    exact (makes_patch (.unmatch path) fun _ ↦ .inl rfl).seq fun _ _ ↦
      (makes_report rfl).seq fun _ _ ↦ ih

/-- The tree in RAM becomes the blob with the edits of the request made in their order; where an
edit fails the bring-up stops, with those before it made and nothing else changed. -/
theorem patchTree_makes (request : Request) (plan : Plan) (s : Bringup) :
    Makes plan request.devicetree.length (bringupEdits request plan s.rootDt)
      (patchTree request plan) s := by
  refine (makes_patchClocks clocks).seq fun s₁ h₁ ↦ ?_
  refine (makes_patchIf _ (.setU32 lcdNode (ascii "lcd-panel-id") lcdPanelId) fun b ↦ ?_).seq
    fun s₂ h₂ ↦ ?_
  · exact (ite_eq_or_eq _ _ _)
  refine (makes_patchIf _ (.setReg (ascii "memory") (ascii "reg") physBase ramSize)
    fun _ ↦ .inl rfl).seq fun s₃ h₃ ↦ ?_
  refine (makes_patchIf _ (.setReg (ascii "vram") (ascii "reg")
    (plan.framebuffer.start % 2 ^ 32) vramBytes) fun _ ↦ .inl rfl).seq fun s₄ h₄ ↦ ?_
  rw [Makes, ends_bind, ends_get, ← h₁, ← h₂, ← h₃, ← h₄]
  exact (makes_patchIf _ (.memmapAdd (ascii "RAMDisk") zero_notMem_ramDisk _ _) fun _ ↦ .inl rfl).seq
    fun _ _ ↦ makes_unmatchLoop request.unmatch

end S5LBox.Boot
