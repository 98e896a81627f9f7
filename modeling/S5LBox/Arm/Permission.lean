import S5LBox.Arm.Tlb

/-!
# The order of permissions

A walk that permits one access permits every weaker one of the same address, and finds the same
frame for it: what User mode may do a privileged mode may do, and what may be written or fetched
may be read.
-/

namespace S5LBox.Arm

variable {σ : Type} {bus : Bus σ} {p : TlbStamp} {ctx : σ} {va : Word} {acc acc' : Access}
  {priv priv' : Bool}

/-- Whoever may make the first access may make the second. -/
structure Subsumes (acc : Access) (priv : Bool) (acc' : Access) (priv' : Bool) : Prop where
  permits : ∀ p ap apx, apPermits p ap apx (acc = .write) priv = true →
    apPermits p ap apx (acc' = .write) priv' = true
  fetch : acc' = .fetch → acc = .fetch

theorem apPermits_priv (p : TlbStamp) (ap : Word) (apx write : Bool)
    (h : apPermits p ap apx write false = true) : apPermits p ap apx write true = true := by
  unfold apPermits at *
  dsimp only at *
  split_ifs at * <;> simp_all

theorem apPermits_read (p : TlbStamp) (ap : Word) (apx priv : Bool)
    (h : apPermits p ap apx true priv = true) : apPermits p ap apx false priv = true := by
  unfold apPermits at *
  dsimp only at *
  split_ifs at * <;> simp_all

theorem subsumes_priv (acc : Access) : Subsumes acc false acc true :=
  ⟨fun p ap apx ↦ apPermits_priv p ap apx _, id⟩

theorem subsumes_write (priv : Bool) : Subsumes .write priv .read priv :=
  ⟨fun p ap apx ↦ apPermits_read p ap apx priv, fun h ↦ nomatch h⟩

theorem subsumes_fetch (priv : Bool) : Subsumes .fetch priv .read priv :=
  ⟨fun _ _ _ h ↦ h, fun h ↦ nomatch h⟩

theorem checkAccess_eq_none {domain dac ap accessFlag domainFault permission : Word}
    {apx xn : Bool} :
    checkAccess p acc priv domain dac ap apx xn accessFlag domainFault permission = none ↔
      accessFlagFaults p (p.flag sctlrXp) ap apx = false ∧ ¬(dac = 0 ∨ dac = 2) ∧
        (dac = 3 ∨ apPermits p ap apx (acc = .write) priv = true) ∧
        xnForbidsFetch p acc dac xn = false := by
  unfold checkAccess
  dsimp only
  split_ifs with hflag hdomain hpermission hxn
  · simp [hflag]
  · exact iff_of_false (fun h ↦ nomatch h) fun h ↦ h.2.1 hdomain
  · have hdenied : ¬(dac = 3 ∨ apPermits p ap apx (acc = .write) priv = true) := by
      rintro (h | h)
      · exact hpermission.1 h
      · rw [h] at hpermission
        cases hpermission.2
    exact iff_of_false (fun h ↦ nomatch h) fun h ↦ hdenied h.2.2.1
  · simp [hxn]
  · have hgranted : dac = 3 ∨ apPermits p ap apx (acc = .write) priv = true := by
      by_contra h
      rw [not_or] at h
      refine hpermission ⟨h.1, ?_⟩
      rw [Bool.not_eq_true] at h
      rw [h.2]
      rfl
    exact iff_of_true rfl ⟨Bool.eq_false_of_not_eq_true hflag, hdomain, hgranted,
      Bool.eq_false_of_not_eq_true hxn⟩

theorem xnForbidsFetch_of_subsumes (h : Subsumes acc priv acc' priv') {dac : Word} {xn : Bool}
    (hxn : xnForbidsFetch p acc dac xn = false) : xnForbidsFetch p acc' dac xn = false := by
  unfold xnForbidsFetch at *
  by_cases hfetch : acc' = .fetch
  · rw [h.fetch hfetch] at hxn
    rwa [hfetch]
  · rw [decide_eq_false hfetch]
    rfl

theorem checkAccess_of_subsumes (h : Subsumes acc priv acc' priv')
    {domain dac ap accessFlag domainFault permission : Word} {apx xn : Bool}
    (hpass : checkAccess p acc priv domain dac ap apx xn accessFlag domainFault permission = none) :
    checkAccess p acc' priv' domain dac ap apx xn accessFlag domainFault permission = none := by
  rw [checkAccess_eq_none] at *
  obtain ⟨hflag, hdomain, hpermits, hxn⟩ := hpass
  exact ⟨hflag, hdomain, hpermits.imp_right (h.permits p ap apx), xnForbidsFetch_of_subsumes h hxn⟩

/-- A frame that the first verdict finds the second one finds as well. -/
def Verdict.Below (v v' : Verdict) : Prop := ∀ base mask, v = .frame base mask → v' = v

theorem Verdict.below_fault (fsr : Word) (v' : Verdict) : (Verdict.fault fsr).Below v' :=
  fun _ _ h ↦ nomatch h

theorem Verdict.Below.refl (v : Verdict) : v.Below v := fun _ _ _ ↦ rfl

theorem sectionVerdict_below (h : Subsumes acc priv acc' priv') (domain dac l1 : Word)
    (supersection : Bool) : (sectionVerdict p acc priv domain dac l1 supersection).Below
      (sectionVerdict p acc' priv' domain dac l1 supersection) := by
  unfold sectionVerdict
  dsimp only
  split
  · apply Verdict.below_fault
  · rename_i hpass
    rw [checkAccess_of_subsumes h hpass]
    exact .refl _

theorem pageVerdict_below (h : Subsumes acc priv acc' priv') (va domain dac l2 : Word) :
    (pageVerdict p va acc priv domain dac l2).Below
      (pageVerdict p va acc' priv' domain dac l2) := by
  unfold pageVerdict
  dsimp only
  split
  · apply Verdict.below_fault
  · split
    · apply Verdict.below_fault
    · rename_i hpass
      rw [checkAccess_of_subsumes h hpass]
      exact .refl _

theorem ite_related {α : Type} {R : α → α → Prop} {c : Prop} [Decidable c] {x x' y y' : α}
    (hthen : R x x') (helse : R y y') : R (if c then x else y) (if c then x' else y') := by
  by_cases h : c
  · rwa [if_pos h, if_pos h]
  · rwa [if_neg h, if_neg h]

theorem walkVerdict_below (bus : Bus σ) (p : TlbStamp) (ctx : σ) (va : Word)
    (h : Subsumes acc priv acc' priv') :
    (walkVerdict bus p ctx va acc priv).1.Below (walkVerdict bus p ctx va acc' priv').1 := by
  let below (x x' : Verdict × σ) : Prop := x.1.Below x'.1
  show below (walkVerdict bus p ctx va acc priv) (walkVerdict bus p ctx va acc' priv')
  apply ite_related (R := below) (Verdict.Below.refl _)
  apply ite_related (R := below) (Verdict.below_fault _ _)
  apply ite_related (R := below) (Verdict.below_fault _ _)
  apply ite_related (R := below)
  · apply sectionVerdict_below h
  · apply pageVerdict_below h

/-- A frame covers whole pages. -/
def Verdict.Paged : Verdict → Prop
  | .fault fsr => fsr ≠ 0
  | .frame base mask => base &&& 0xfff = 0 ∧ mask &&& 0xfff = 0xfff

theorem paged_sectionVerdict (domain dac l1 : Word) (supersection : Bool) :
    (sectionVerdict p acc priv domain dac l1 supersection).Paged := by
  unfold sectionVerdict
  dsimp only
  split
  · rename_i hfault
    refine checkAccess_ne_zero ?_ ?_ ?_ hfault <;> decide
  · split
    · exact ⟨and_and_disjoint (by decide), by decide⟩
    · exact ⟨and_and_disjoint (by decide), by decide⟩

theorem paged_pageVerdict (domain dac l2 : Word) :
    (pageVerdict p va acc priv domain dac l2).Paged := by
  unfold pageVerdict
  dsimp only
  split
  · refine fsrMake_ne_zero ?_ _ _
    decide
  · split
    · rename_i hfault
      refine checkAccess_ne_zero ?_ ?_ ?_ hfault <;> decide
    · split
      · exact ⟨and_and_disjoint (by decide), by decide⟩
      · exact ⟨and_and_disjoint (by decide), by decide⟩

theorem paged_walkVerdict (bus : Bus σ) (p : TlbStamp) (ctx : σ) (va : Word) (acc : Access)
    (priv : Bool) : (walkVerdict bus p ctx va acc priv).1.Paged := by
  let paged (x : Verdict × σ) : Prop := x.1.Paged
  have hfault (x : σ) : paged (.fault (fsrMake fsrSectionTranslation 0 (acc = .write)), x) := by
    apply fsrMake_ne_zero
    decide
  show paged (walkVerdict bus p ctx va acc priv)
  refine iteInduction (motive := paged) (fun _ ↦ ⟨by decide, by decide⟩) fun _ ↦ ?_
  refine iteInduction (motive := paged) (fun _ ↦ hfault _) fun _ ↦ ?_
  refine iteInduction (motive := paged) (fun _ ↦ hfault _) fun _ ↦ ?_
  refine iteInduction (motive := paged) (fun _ ↦ ?_) fun _ ↦ ?_
  · apply paged_sectionVerdict
  · apply paged_pageVerdict

theorem frame_and_page {base mask : Word} (hbase : base &&& 0xfff = 0)
    (hmask : mask &&& 0xfff = 0xfff) : (base ||| (va &&& mask)) &&& 0xfff = va &&& 0xfff := by
  have hoffset : va &&& mask &&& 0xfff = va &&& 0xfff := by rw [BitVec.and_assoc, hmask]
  rw [BitVec.or_comm, or_and_of_disjoint _ hbase, hoffset]

/-- Of one address, a walk that permits an unprivileged access permits the privileged one of the
same kind, and one that permits a write or a fetch permits the read, each time with the same
physical address; and a physical address has the low twelve bits of its virtual one. -/
theorem mmuWalk_monotone (bus : Bus σ) (p : TlbStamp) (ctx : σ) (va pa : Word) :
    (∀ acc, (mmuWalk bus p ctx va acc false pa).1.1 = 0 →
      (mmuWalk bus p ctx va acc true pa).1 = (mmuWalk bus p ctx va acc false pa).1) ∧
    (∀ priv, (mmuWalk bus p ctx va .write priv pa).1.1 = 0 →
      (mmuWalk bus p ctx va .read priv pa).1 = (mmuWalk bus p ctx va .write priv pa).1) ∧
    (∀ priv, (mmuWalk bus p ctx va .fetch priv pa).1.1 = 0 →
      (mmuWalk bus p ctx va .read priv pa).1 = (mmuWalk bus p ctx va .fetch priv pa).1) ∧
    ∀ acc priv, (mmuWalk bus p ctx va acc priv pa).1.1 = 0 →
      (mmuWalk bus p ctx va acc priv pa).1.2 &&& 0xfff = va &&& 0xfff := by
  have hframe {acc priv} (hpass : (mmuWalk bus p ctx va acc priv pa).1.1 = 0) :
      ∃ base mask, (walkVerdict bus p ctx va acc priv).1 = .frame base mask := by
    have hpaged := paged_walkVerdict bus p ctx va acc priv
    unfold mmuWalk at hpass
    dsimp only at hpass
    generalize (walkVerdict bus p ctx va acc priv).1 = verdict at *
    cases verdict with
    | fault fsr => exact absurd hpass hpaged
    | frame base mask => exact ⟨base, mask, rfl⟩
  have hcovered {acc priv acc' priv'} (h : Subsumes acc priv acc' priv')
      (hpass : (mmuWalk bus p ctx va acc priv pa).1.1 = 0) :
      (mmuWalk bus p ctx va acc' priv' pa).1 = (mmuWalk bus p ctx va acc priv pa).1 := by
    obtain ⟨base, mask, hverdict⟩ := hframe hpass
    unfold mmuWalk
    dsimp only
    rw [walkVerdict_below bus p ctx va h base mask hverdict]
  refine ⟨fun acc ↦ hcovered (subsumes_priv acc), fun priv ↦ hcovered (subsumes_write priv),
    fun priv ↦ hcovered (subsumes_fetch priv), ?_⟩
  intro acc priv hpass
  obtain ⟨base, mask, hverdict⟩ := hframe hpass
  have hpaged := paged_walkVerdict bus p ctx va acc priv
  unfold mmuWalk
  dsimp only
  rw [hverdict] at hpaged ⊢
  exact frame_and_page hpaged.1 hpaged.2

end S5LBox.Arm
