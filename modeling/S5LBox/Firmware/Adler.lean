import S5LBox.Firmware.Inflate

/-!
# The checksum

The decoder keeps two sums of 32 bits and reduces them only now and then; no sum overflows in
between, so the result is the Adler-32 of what went through.
-/

namespace S5LBox.Firmware

open BitVec List

def adlerModulus : ℕ := 65521

/-- One octet, reduced at once. -/
def adlerReduced (sums : ℕ × ℕ) (octet : Octet) : ℕ × ℕ :=
  ((sums.1 + octet.toNat) % adlerModulus,
    (sums.2 + (sums.1 + octet.toNat) % adlerModulus) % adlerModulus)

/-- The two sums of Adler-32. -/
def adlerSums (data : List Octet) : ℕ × ℕ := data.foldl adlerReduced (1, 0)

/-- The Adler-32 of a string of octets. -/
def adler32 (data : List Octet) : Word :=
  BitVec.ofNat 32 (adlerSums data).2 <<< 16 ||| BitVec.ofNat 32 (adlerSums data).1

/-- One octet, not reduced. -/
def adlerPlain (sums : ℕ × ℕ) (octet : Octet) : ℕ × ℕ :=
  (sums.1 + octet.toNat, sums.2 + (sums.1 + octet.toNat))

theorem adlerPlain_le (data : List Octet) (a b : ℕ) :
    a ≤ (data.foldl adlerPlain (a, b)).1 ∧ b ≤ (data.foldl adlerPlain (a, b)).2 ∧
      (data.foldl adlerPlain (a, b)).1 ≤ a + 255 * data.length ∧
      2 * (data.foldl adlerPlain (a, b)).2 ≤
        2 * b + 2 * data.length * a + 255 * (data.length * (data.length + 1)) := by
  induction data generalizing a b with
  | nil => simp
  | cons octet rest ih =>
    have hoctet := octet.isLt
    obtain ⟨ha, hb, ha', hb'⟩ := ih (a + octet.toNat) (b + (a + octet.toNat))
    have hstep : adlerPlain (a, b) octet = (a + octet.toNat, b + (a + octet.toNat)) := rfl
    rw [foldl_cons, length_cons, hstep]
    refine ⟨by omega, by omega, by omega, hb'.trans ?_⟩
    have hle : octet.toNat ≤ 255 := by omega
    have hmul : (rest.length + 1) * octet.toNat ≤ (rest.length + 1) * 255 :=
      Nat.mul_le_mul_left _ hle
    nlinarith

theorem adlerStep_eq (data : List Octet) (a b : Word)
    (hb : (data.foldl adlerPlain (a.toNat, b.toNat)).2 < 2 ^ 32) :
    ((data.foldl adlerStep (a, b)).1.toNat, (data.foldl adlerStep (a, b)).2.toNat) =
      data.foldl adlerPlain (a.toNat, b.toNat) := by
  induction data generalizing a b with
  | nil => rfl
  | cons octet rest ih =>
    have hoctet := octet.isLt
    rw [foldl_cons] at hb
    have hstep : adlerPlain (a.toNat, b.toNat) octet =
        (a.toNat + octet.toNat, b.toNat + (a.toNat + octet.toNat)) := rfl
    have hgrow := adlerPlain_le rest (a.toNat + octet.toNat) (b.toNat + (a.toNat + octet.toNat))
    rw [hstep] at hb
    have ha' : (a + octet.setWidth 32).toNat = a.toNat + octet.toNat := by
      rw [toNat_add, toNat_setWidth, Nat.mod_eq_of_lt (by omega : octet.toNat < 2 ^ 32),
        Nat.mod_eq_of_lt (by omega)]
    have hb' : (b + (a + octet.setWidth 32)).toNat = b.toNat + (a.toNat + octet.toNat) := by
      rw [toNat_add, ha', Nat.mod_eq_of_lt (by omega)]
    have hrest := ih (a + octet.setWidth 32) (b + (a + octet.setWidth 32)) (by rwa [ha', hb'])
    rw [ha', hb'] at hrest
    rw [foldl_cons, foldl_cons, hstep]
    exact hrest

theorem adlerPlain_mod (data : List Octet) (a b : ℕ) :
    ((data.foldl adlerPlain (a, b)).1 % adlerModulus,
      (data.foldl adlerPlain (a, b)).2 % adlerModulus) =
      data.foldl adlerReduced (a % adlerModulus, b % adlerModulus) := by
  induction data generalizing a b with
  | nil => rfl
  | cons octet rest ih =>
    have hstep : adlerReduced (a % adlerModulus, b % adlerModulus) octet =
        ((a + octet.toNat) % adlerModulus, (b + (a + octet.toNat)) % adlerModulus) := by
      unfold adlerReduced
      dsimp only
      rw [Nat.mod_add_mod, Nat.mod_add_mod, Nat.add_mod_mod]
    rw [foldl_cons, foldl_cons, hstep, ← ih]
    rfl

theorem adlerUpdate_eq {turns : ℕ} {data : List Octet} {a b : Word} (hturns : data.length ≤ turns)
    (ha : a.toNat < adlerModulus) (hb : b.toNat < adlerModulus) :
    ((adlerUpdate turns (a, b) data).1.toNat, (adlerUpdate turns (a, b) data).2.toNat) =
      data.foldl adlerReduced (a.toNat, b.toNat) := by
  induction turns generalizing data a b with
  | zero =>
    obtain rfl := eq_nil_of_length_eq_zero (Nat.le_zero.1 hturns)
    rfl
  | succ turns ih =>
    rw [adlerUpdate]
    split
    case isTrue hnil =>
      rw [hnil]
      rfl
    case isFalse hmore =>
      have hlength : (data.take 5552).length ≤ 5552 := length_take_le _ _
      have hgrow := adlerPlain_le (data.take 5552) a.toNat b.toNat
      have hmod : adlerModulus = 65521 := rfl
      generalize hfirst : data.take 5552 = first at *
      have hfits : (first.foldl adlerPlain (a.toNat, b.toNat)).2 < 2 ^ 32 := by
        have hsquare : first.length * (first.length + 1) ≤ 5552 * 5553 :=
          Nat.mul_le_mul hlength (by omega)
        have hprod : 2 * first.length * a.toNat ≤ 2 * 5552 * 65520 :=
          Nat.mul_le_mul (by omega) (by omega)
        omega
      have hwords := adlerStep_eq first a b hfits
      have hreduced := adlerPlain_mod first a.toNat b.toNat
      rw [← hwords, Nat.mod_eq_of_lt ha, Nat.mod_eq_of_lt hb] at hreduced
      dsimp only at hreduced ⊢
      have hdrop : (data.drop 5552).length ≤ turns := by
        rw [length_drop]
        omega
      have hvalue (w : Word) : (w % 65521).toNat = w.toNat % adlerModulus := by
        rw [toNat_umod]
        rfl
      have hrest := @ih _ ((first.foldl adlerStep (a, b)).1 % 65521)
        ((first.foldl adlerStep (a, b)).2 % 65521) hdrop
        (by rw [hvalue]; exact Nat.mod_lt _ (by decide))
        (by rw [hvalue]; exact Nat.mod_lt _ (by decide))
      rw [hrest, hvalue, hvalue, hreduced, ← foldl_append, ← hfirst, take_append_drop]

theorem adlerSums_lt (data : List Octet) :
    (adlerSums data).1 < adlerModulus ∧ (adlerSums data).2 < adlerModulus := by
  have hpos : 0 < adlerModulus := by decide
  have hall (sums : ℕ × ℕ) (hsums : sums.1 < adlerModulus ∧ sums.2 < adlerModulus) :
      (data.foldl adlerReduced sums).1 < adlerModulus ∧
        (data.foldl adlerReduced sums).2 < adlerModulus := by
    induction data generalizing sums with
    | nil => exact hsums
    | cons octet rest ih => exact ih _ ⟨Nat.mod_lt _ hpos, Nat.mod_lt _ hpos⟩
  exact hall (1, 0) ⟨by decide, hpos⟩

/-- The two words are the sums of `data`. -/
def Summed (a b : Word) (data : List Octet) : Prop := (a.toNat, b.toNat) = adlerSums data

theorem summed_nil : Summed 1 0 [] := rfl

theorem Summed.append {a b : Word} {data : List Octet} (h : Summed a b data) (more : List Octet) :
    Summed (adlerUpdate more.length (a, b) more).1 (adlerUpdate more.length (a, b) more).2
      (data ++ more) := by
  have hlt := adlerSums_lt data
  unfold Summed at *
  rw [← h] at hlt
  rw [adlerUpdate_eq le_rfl hlt.1 hlt.2, h]
  unfold adlerSums
  rw [foldl_append]

theorem Summed.eq_adler32 {a b : Word} {data : List Octet} (h : Summed a b data) :
    b <<< 16 ||| a = adler32 data := by
  unfold Summed at h
  unfold adler32
  rw [← h, ofNat_toNat, ofNat_toNat, setWidth_eq, setWidth_eq]

end S5LBox.Firmware
