import Mathlib.Logic.Function.Basic
import S5LBox.Word

/-!
# Adopting the shared work image

A machine without a work image takes the one that all machines shared before. Whether a name has an
image is found out by a probe that opens the file and measures it, and to the probe an absent, an
empty, an unreadable and an unmeasurable file are the same.
-/

namespace S5LBox.App

open Function
open Function (update)

/-- What each name holds. -/
abbrev WorkFiles := String → Option (List Octet)

structure WorkPaths where
  workImage : String
  legacyWorkImage : String

/-- How the calls turn out: the two probes, the removal and the rename. -/
structure AdoptFaults where
  workOpens : Bool
  workMeasured : Bool
  legacyOpens : Bool
  legacyMeasured : Bool
  removed : Bool
  renamed : Bool

def regularFileSize (files : WorkFiles) (opens measured : Bool) (name : String) : ℕ :=
  match files name with
  | none => 0
  | some octets => if opens ∧ measured then octets.length else 0

inductive WorkPlan where
  | provision
  | own
  | adopt
  deriving DecidableEq

def vmInstanceWorkPlan (files : WorkFiles) (paths : WorkPaths) (faults : AdoptFaults) : WorkPlan :=
  if paths.workImage = "" then .provision
  else if 0 < regularFileSize files faults.workOpens faults.workMeasured paths.workImage then .own
  else if paths.legacyWorkImage ≠ "" ∧
      0 < regularFileSize files faults.legacyOpens faults.legacyMeasured paths.legacyWorkImage then
    .adopt
  else .provision

/-- `rename`: a file that is there takes the place of what the new name had. -/
def renameFile (files : WorkFiles) (old new : String) : Option WorkFiles :=
  (files old).map fun octets ↦
    update (update files old none) new (some octets)

def vmInstanceWorkAdopt (files : WorkFiles) (paths : WorkPaths) (faults : AdoptFaults) :
    Bool × WorkFiles :=
  if vmInstanceWorkPlan files paths faults ≠ .adopt then (false, files)
  else
    let files := if faults.removed then update files paths.workImage none else files
    match renameFile files paths.legacyWorkImage paths.workImage with
    | some moved => if faults.renamed then (true, moved) else (false, files)
    | none => (false, files)

variable {files : WorkFiles} {paths : WorkPaths} {faults : AdoptFaults}

/-- The machine has an image of its own. -/
def Owned (files : WorkFiles) (paths : WorkPaths) : Prop :=
  ∃ octets, octets ≠ [] ∧ files paths.workImage = some octets

/-- No image is lost, the private one is neither removed nor replaced, and what is returned is
whether the shared one has become it. -/
structure Adopts (before : WorkFiles) (paths : WorkPaths) (adopted : Bool) (after : WorkFiles) :
    Prop where
  kept : ∀ name, name = paths.workImage ∨ name = paths.legacyWorkImage →
    ∀ octets, octets ≠ [] → before name = some octets →
      after paths.workImage = some octets ∨ after paths.legacyWorkImage = some octets
  own : Owned before paths → after paths.workImage = before paths.workImage
  moved : adopted = true ↔ before paths.legacyWorkImage ≠ none ∧
    after paths.workImage = before paths.legacyWorkImage ∧ after paths.legacyWorkImage = none

/-- The probe takes the private image for no image, and the calls then destroy it. -/
def Destroys (files : WorkFiles) (paths : WorkPaths) (faults : AdoptFaults) : Prop :=
  Owned files paths ∧ vmInstanceWorkPlan files paths faults = .adopt ∧
    if faults.renamed then
      paths.workImage = paths.legacyWorkImage ∨ files paths.workImage ≠ files paths.legacyWorkImage
    else faults.removed

theorem legacy_of_adopt (h : vmInstanceWorkPlan files paths faults = .adopt) :
    ∃ octets, octets ≠ [] ∧ files paths.legacyWorkImage = some octets := by
  unfold vmInstanceWorkPlan at h
  split_ifs at h with _ _ hlegacy
  have hsize := hlegacy.2
  unfold regularFileSize at hsize
  split at hsize
  · exact absurd hsize (lt_irrefl 0)
  · next octets heq =>
    split_ifs at hsize
    · exact ⟨octets, List.ne_nil_of_length_pos hsize, heq⟩
    · exact absurd hsize (lt_irrefl 0)

theorem adopts_refl : Adopts files paths false files where
  kept := by
    rintro name (rfl | rfl) octets - hname
    · exact .inl hname
    · exact .inr hname
  own := fun _ ↦ rfl
  moved := ⟨nofun, fun h ↦ absurd h.2.2 h.1⟩

variable {shared : List Octet} (hshared : shared ≠ [])
  (hlegacy : files paths.legacyWorkImage = some shared)

include hshared hlegacy

/-- The private name was cleared, and nothing came of it. -/
theorem adopts_removed : Adopts files paths false (update files paths.workImage none) ↔
      ¬Owned files paths := by
  constructor
  · rintro h ⟨octets, hoctets, hown⟩
    have hlost := h.own ⟨octets, hoctets, hown⟩
    rw [update_self, hown] at hlost
    exact nomatch hlost
  · intro hown
    have hne : paths.legacyWorkImage ≠ paths.workImage := fun heq ↦
      hown ⟨shared, hshared, heq ▸ hlegacy⟩
    refine ⟨?_, fun h ↦ absurd h hown, ⟨nofun, fun h ↦ ?_⟩⟩
    · rintro name (rfl | rfl) octets hoctets hname
      · exact absurd ⟨octets, hoctets, hname⟩ hown
      · exact .inr ((update_of_ne hne _ _).trans hname)
    · rw [update_self] at h
      exact absurd h.2.1.symm h.1

theorem adopts_moved {after : WorkFiles} (hwork : after paths.workImage = some shared)
    (hgone : paths.workImage ≠ paths.legacyWorkImage → after paths.legacyWorkImage = none) :
    Adopts files paths true after ↔ ¬(Owned files paths ∧ (paths.workImage = paths.legacyWorkImage ∨
        files paths.workImage ≠ files paths.legacyWorkImage)) := by
  constructor
  · rintro h ⟨hown, heq | hdiffers⟩
    · have hnone := (h.moved.1 rfl).2.2
      rw [← heq, hwork] at hnone
      exact nomatch hnone
    · exact hdiffers ((h.own hown).symm.trans (hwork.trans hlegacy.symm))
  · intro h
    have hsame : Owned files paths → files paths.workImage = some shared := fun hown ↦
      (not_not.1 fun hne ↦ h ⟨hown, .inr hne⟩).trans hlegacy
    have hne : paths.workImage ≠ paths.legacyWorkImage := fun heq ↦
      h ⟨⟨shared, hshared, heq ▸ hlegacy⟩, .inl heq⟩
    refine ⟨?_, fun hown ↦ hwork.trans (hsame hown).symm, ⟨fun _ ↦ ?_, fun _ ↦ rfl⟩⟩
    · rintro name (rfl | rfl) octets hoctets hname
      · exact .inl (hwork.trans ((hsame ⟨octets, hoctets, hname⟩).symm.trans hname))
      · exact .inl (hwork.trans (hlegacy.symm.trans hname))
    · exact ⟨hlegacy ▸ Option.some_ne_none shared, hwork.trans hlegacy.symm, hgone hne⟩

omit hshared hlegacy

end S5LBox.App
