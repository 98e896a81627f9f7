import Mathlib.Tactic

/-!
# Tables with generations

A table whose entries carry the generation they were filled in. Only entries of the current
generation are valid, so counting the generation up empties the table at once; when the counter
wraps round, the table is really cleared. Generation zero is never current: it marks an entry that
was never filled.
-/

namespace Generation

variable {Slot Entry : Type} {width : ℕ} {gen : Entry → BitVec width}
  {good good' : Entry → Prop} {now : BitVec width} {table : Slot → Entry}

/-- No entry is from the future, and every valid entry is `good`. -/
structure Live (gen : Entry → BitVec width) (good : Entry → Prop) (now : BitVec width)
    (table : Slot → Entry) : Prop where
  current : now ≠ 0
  past : ∀ slot, gen (table slot) ≤ now
  valid : ∀ slot, gen (table slot) = now → good (table slot)

namespace Live

theorem clear {empty : Entry} (hempty : gen empty = 0) (hcurrent : now ≠ 0) :
    Live gen good now fun _ : Slot ↦ empty where
  current := hcurrent
  past _ := by
    rw [hempty]
    exact Nat.zero_le _
  valid _ h := absurd (h.symm.trans hempty) hcurrent

theorem next (h : Live gen good now table) (hwrap : now + 1 ≠ 0) :
    Live gen good' (now + 1) table := by
  have hstep : now.toNat + 1 = (now + 1).toNat := by
    have hsum : (now + 1).toNat = (now.toNat + (1 : BitVec width).toNat) % 2 ^ width :=
      BitVec.toNat_add now 1
    have hpos : (now + 1).toNat ≠ 0 := fun hz ↦ hwrap (BitVec.eq_of_toNat_eq (by simpa using hz))
    have hone : (1 : BitVec width).toNat = 1 % 2 ^ width := BitVec.toNat_ofNat 1 width
    have hlt := now.isLt
    by_cases hw : 2 ^ width = 1
    · rw [hsum, hw, Nat.mod_one] at hpos
      exact absurd rfl hpos
    · have htwo : 1 < 2 ^ width := by
        have := Nat.pos_of_ne_zero (show 2 ^ width ≠ 0 by positivity)
        omega
      rw [hone, Nat.mod_eq_of_lt htwo] at hsum
      by_cases hle : now.toNat + 1 < 2 ^ width
      · rw [hsum, Nat.mod_eq_of_lt hle]
      · have heq : now.toNat + 1 = 2 ^ width := by omega
        rw [hsum, heq, Nat.mod_self] at hpos
        exact absurd rfl hpos
  refine ⟨hwrap, fun slot ↦ ?_, fun slot hslot ↦ ?_⟩
  · have hpast : (gen (table slot)).toNat ≤ now.toNat := h.past slot
    exact BitVec.le_def.2 (by omega)
  · have hpast : (gen (table slot)).toNat ≤ now.toNat := h.past slot
    rw [hslot] at hpast
    omega

/-- A fill of the current generation. -/
theorem set [DecidableEq Slot] (h : Live gen good now table) {entry : Entry} (slot : Slot)
    (hgen : gen entry = now) (hgood : good entry) :
    Live gen good now (Function.update table slot entry) := by
  refine ⟨h.current, fun other ↦ ?_, fun other hother ↦ ?_⟩
  · by_cases heq : other = slot
    · rw [heq, Function.update_self, hgen]
      exact Nat.le_refl _
    · rw [Function.update_of_ne heq]
      exact h.past other
  · by_cases heq : other = slot
    · rwa [heq, Function.update_self]
    · rw [Function.update_of_ne heq] at hother ⊢
      exact h.valid other hother

end Live

end Generation
