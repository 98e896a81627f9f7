import Mathlib.Tactic

/-!
# Reflected cyclic redundancy checks

One step of a reflected CRC register shifts it right by a bit and, when the bit that falls out is
set, adds the polynomial. A step is linear; with the top bit of the polynomial set nothing is lost,
so it is injective too. Whatever a string leaves in the register is therefore determined by the
difference of the register and the string, which is all that the residue test of a frame needs.
-/

namespace Crc

open BitVec

variable {w : ℕ} (poly : BitVec w)

/-- One step of the register. -/
def step (x : BitVec w) : BitVec w :=
  if x.getLsbD 0 then (x >>> 1) ^^^ poly else x >>> 1

/-- `count` steps of the register. -/
def steps (count : ℕ) : BitVec w → BitVec w := (step poly)^[count]

@[simp] theorem steps_zero (x : BitVec w) : steps poly 0 x = x := rfl

theorem steps_succ (count : ℕ) (x : BitVec w) :
    steps poly (count + 1) x = step poly (steps poly count x) :=
  Function.iterate_succ_apply' _ _ _

theorem steps_add (first second : ℕ) (x : BitVec w) :
    steps poly (first + second) x = steps poly first (steps poly second x) :=
  Function.iterate_add_apply _ _ _ _

theorem step_xor (x y : BitVec w) : step poly (x ^^^ y) = step poly x ^^^ step poly y := by
  unfold step
  rw [getLsbD_xor, ushiftRight_xor_distrib]
  have hcancel : (x >>> 1 ^^^ poly) ^^^ (y >>> 1 ^^^ poly) = x >>> 1 ^^^ y >>> 1 := by
    rw [BitVec.xor_comm (y >>> 1), BitVec.xor_assoc, ← BitVec.xor_assoc poly, BitVec.xor_self,
      BitVec.zero_xor]
  have hcomm : (x >>> 1 ^^^ y >>> 1) ^^^ poly = (x >>> 1 ^^^ poly) ^^^ y >>> 1 := by
    rw [BitVec.xor_assoc, BitVec.xor_comm (y >>> 1), BitVec.xor_assoc]
  cases x.getLsbD 0 <;> cases y.getLsbD 0
  · rfl
  · exact BitVec.xor_assoc ..
  · exact hcomm
  · exact hcancel.symm

theorem steps_xor (count : ℕ) (x y : BitVec w) :
    steps poly count (x ^^^ y) = steps poly count x ^^^ steps poly count y := by
  induction count with
  | zero => rfl
  | succ count ih => rw [steps_succ, ih, step_xor, ← steps_succ, ← steps_succ]

variable {poly}

theorem eq_zero_of_step {x : BitVec w} (htop : poly.getLsbD (w - 1) = true)
    (h : step poly x = 0) : x = 0 := by
  have hshift : (x >>> 1).getLsbD (w - 1) = false := by
    rw [getLsbD_ushiftRight]
    exact getLsbD_of_ge _ _ (by omega)
  unfold step at h
  cases hlow : x.getLsbD 0 with
  | true =>
    rw [hlow, if_pos rfl] at h
    have htrue := congrArg (fun y ↦ y.getLsbD (w - 1)) h
    simp [hshift, htop] at htrue
  | false =>
    rw [hlow, if_neg Bool.false_ne_true] at h
    apply eq_of_getLsbD_eq
    intro i hi
    cases i with
    | zero => simpa using hlow
    | succ i =>
      have hbit := congrArg (fun y ↦ y.getLsbD i) h
      simpa [Nat.add_comm] using hbit

theorem step_injective (htop : poly.getLsbD (w - 1) = true) : Function.Injective (step poly) := by
  intro x y h
  have hzero : step poly (x ^^^ y) = 0 := by rw [step_xor, h, BitVec.xor_self]; rfl
  have hxor := eq_zero_of_step htop hzero
  exact BitVec.xor_eq_zero_iff.1 hxor

theorem steps_injective (htop : poly.getLsbD (w - 1) = true) (count : ℕ) :
    Function.Injective (steps poly count) := (step_injective htop).iterate count

theorem steps_of_clear {x : BitVec w} {count : ℕ} (h : ∀ i < count, x.getLsbD i = false) :
    steps poly count x = x >>> count := by
  induction count with
  | zero => rw [steps_zero, ushiftRight_zero]
  | succ count ih =>
    have hlow : (x >>> count).getLsbD 0 = false := by
      rw [getLsbD_ushiftRight]
      exact h count (Nat.lt_succ_self count)
    rw [steps_succ, ih fun i hi ↦ h i (Nat.lt_succ_of_lt hi), step, hlow,
      if_neg Bool.false_ne_true, shiftRight_add]

end Crc
