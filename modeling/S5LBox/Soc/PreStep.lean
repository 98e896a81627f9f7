import S5LBox.Word

/-!
# The pre-step hook

The addresses at which `s5l8900_run` offers a step to a host callback first. A 64-bit filter in
front of the list is a superset of it, which is the one thing a lookup relies on.
-/

namespace S5LBox.Soc

def preStepTargetMax : ℕ := 16

def preStepFilterBit (pc : Word) : ℕ :=
  let word := pc >>> 1
  ((word ^^^ (word >>> 10) ^^^ (word >>> 20)) &&& 63).toNat

/-- The filter `s5l8900_set_pre_step_hook` builds for a list of targets. -/
def preStepFilter (targets : List Word) : BitVec 64 :=
  targets.foldl (fun filter target ↦ filter ||| BitVec.twoPow 64 (preStepFilterBit target)) 0

theorem noTarget_covered : ∀ pc ∈ ([] : List Word),
    (0 : BitVec 64).getLsbD (preStepFilterBit pc) = true := by simp

/-- The hook fields of the machine; the filter lets every target through. -/
structure PreStep where
  installed : Bool := false
  target : List Word := []
  filter : BitVec 64 := 0
  covers : ∀ pc ∈ target, filter.getLsbD (preStepFilterBit pc) = true := by exact noTarget_covered

def PreStep.targetMatches (hook : PreStep) (pc : Word) : Bool :=
  hook.installed && !hook.target.isEmpty && hook.filter.getLsbD (preStepFilterBit (pc &&& ~~~1)) &&
    hook.target.contains (pc &&& ~~~1)

theorem preStepFilterBit_lt (pc : Word) : preStepFilterBit pc < 64 := by
  rw [preStepFilterBit, BitVec.toNat_and]
  exact Nat.lt_succ_of_le Nat.and_le_right

theorem getLsbD_foldl_twoPow (targets : List Word) (filter : BitVec 64) (i : ℕ) :
    (targets.foldl (fun filter target ↦
        filter ||| BitVec.twoPow 64 (preStepFilterBit target)) filter).getLsbD i =
      (filter.getLsbD i || targets.any fun target ↦ decide (preStepFilterBit target = i)) := by
  induction targets generalizing filter with
  | nil => simp
  | cons target rest ih =>
    have hlt := preStepFilterBit_lt target
    rw [List.foldl_cons, ih, BitVec.getLsbD_or, BitVec.getLsbD_twoPow, List.any_cons, Bool.or_assoc]
    simp only [hlt, decide_true, Bool.true_and]

theorem preStepFilter_covers (targets : List Word) :
    ∀ pc ∈ targets, (preStepFilter targets).getLsbD (preStepFilterBit pc) = true := by
  intro pc hpc
  rw [preStepFilter, getLsbD_foldl_twoPow, Bool.or_eq_true]
  exact Or.inr (List.any_eq_true.mpr ⟨pc, hpc, by simp⟩)

/-- `s5l8900_set_pre_step_hook`; the list is empty where the caller passes no targets. -/
def setPreStepHook (hook : PreStep) (fn : Bool) (targets : List Word) : Bool × PreStep :=
  if !fn then if targets.isEmpty then (true, {}) else (false, hook)
  else if targets.isEmpty ∨ preStepTargetMax < targets.length then (false, hook)
  else if targets.any (fun target ↦ target &&& 1 ≠ 0) ∨ ¬targets.Nodup then (false, hook)
  else
    (true, {
      installed := true, target := targets, filter := preStepFilter targets
      covers := preStepFilter_covers targets })

end S5LBox.Soc
