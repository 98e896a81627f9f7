import S5LBox.Library.Words
import S5LBox.Tools.Hle

/-!
# Packed pixels

The pixel arithmetic of `mbx.c`: bilinear filtering, modulation and the blend of premultiplied
pixels, one channel at a time against two channels in one register, and the packed blend of
`ios3_hle.c`.
-/

namespace S5LBox.Tools

open BitVec S5LBox.Hle

/-- One channel of a pixel, the alpha being the last. -/
def octetOf (pixel : Word) (c : ℕ) : Octet := pixel.extractLsb' (c * 8) 8

/-- The loop that puts four channels together. -/
def perChannel (value : ℕ → Word) : Word :=
  [0, 8, 16, 24].foldl (fun out shift ↦ out ||| (value shift <<< shift)) 0

def mbxPremultipliedOver (dst src : Word) : Word :=
  let inv := 256 - (src >>> 24)
  perChannel fun shift ↦
    let s := (src >>> shift) &&& 0xff
    let d := (dst >>> shift) &&& 0xff
    s + ((d * inv) >>> 8)

def mbxModulateVertexAlpha (src alpha : Word) : Word :=
  perChannel fun shift ↦
    let component := (src >>> shift) &&& 0xff
    ((component + 1) * alpha) >>> 8

def mbxLinearBgra8 (first second weight : Word) : Word :=
  let lanes : Word := 0x00ff00ff
  let firstEven := first &&& lanes
  let secondEven := second &&& lanes
  let firstOdd := (first >>> 8) &&& lanes
  let secondOdd := (second >>> 8) &&& lanes
  let even := firstEven + ((weight * (secondEven - firstEven)) >>> 8)
  let odd := firstOdd + ((weight * (secondOdd - firstOdd)) >>> 8)
  (even &&& lanes) ||| ((odd &&& lanes) <<< 8)

/-- The filter of the sprite loop: the left and the right column, then between the two. -/
def bilinear (topLeft bottomLeft topRight bottomRight yWeight xWeight : Word) : Word :=
  mbxLinearBgra8 (mbxLinearBgra8 topLeft bottomLeft yWeight)
    (mbxLinearBgra8 topRight bottomRight yWeight) xWeight

theorem toNat_octetOf (pixel : Word) (c : ℕ) :
    (octetOf pixel c).toNat = pixel.toNat / 2 ^ (c * 8) % 256 := by
  rw [octetOf, extractLsb'_toNat, Nat.shiftRight_eq_div_pow]

theorem toNat_eq_octets (pixel : Word) : pixel.toNat = (octetOf pixel 0).toNat +
    (octetOf pixel 1).toNat * 2 ^ 8 + (octetOf pixel 2).toNat * 2 ^ 16 +
      (octetOf pixel 3).toNat * 2 ^ 24 := by
  simp only [toNat_octetOf]
  have := pixel.isLt
  omega

theorem octetOf_eq_of_toNat {pixel : Word} {a b c d : ℕ} (ha : a < 256) (hb : b < 256)
    (hc : c < 256) (hd : d < 256) (h : pixel.toNat = a + b * 2 ^ 8 + c * 2 ^ 16 + d * 2 ^ 24) :
    (octetOf pixel 0).toNat = a ∧ (octetOf pixel 1).toNat = b ∧ (octetOf pixel 2).toNat = c ∧
      (octetOf pixel 3).toNat = d := by
  simp only [toNat_octetOf, h]
  omega

theorem octetOf_and (x y : Word) (c : ℕ) : octetOf (x &&& y) c = octetOf x c &&& octetOf y c :=
  extractLsb'_and

theorem octetOf_or (x y : Word) (c : ℕ) : octetOf (x ||| y) c = octetOf x c ||| octetOf y c :=
  extractLsb'_or

theorem toNat_and_lanes (x : Word) : (x &&& 0x00ff00ff).toNat =
    (octetOf x 0).toNat + (octetOf x 2).toNat * 2 ^ 16 := by
  rw [toNat_eq_octets]
  simp only [octetOf_and, show octetOf 0x00ff00ff 0 = BitVec.allOnes 8 from rfl,
    show octetOf 0x00ff00ff 1 = 0#8 from rfl, show octetOf 0x00ff00ff 2 = BitVec.allOnes 8 from rfl,
    show octetOf 0x00ff00ff 3 = 0#8 from rfl, and_allOnes, and_zero]
  simp

theorem toNat_and_lanes_high (x : Word) : (x &&& 0xff00ff00).toNat =
    (octetOf x 1).toNat * 2 ^ 8 + (octetOf x 3).toNat * 2 ^ 24 := by
  rw [toNat_eq_octets]
  simp only [octetOf_and, show octetOf 0xff00ff00 0 = 0#8 from rfl,
    show octetOf 0xff00ff00 1 = BitVec.allOnes 8 from rfl, show octetOf 0xff00ff00 2 = 0#8 from rfl,
    show octetOf 0xff00ff00 3 = BitVec.allOnes 8 from rfl, and_allOnes, and_zero]
  simp

theorem or_lanes (x y : Word) : (x &&& 0x00ff00ff) ||| (y &&& 0xff00ff00) =
    (x &&& 0x00ff00ff) + (y &&& 0xff00ff00) := by
  symm
  apply add_eq_or_of_and_eq_zero
  calc (x &&& 0x00ff00ff) &&& (y &&& 0xff00ff00)
      = (x &&& y) &&& (0x00ff00ff &&& 0xff00ff00) := by ac_rfl
    _ = 0 := and_zero

theorem octetOf_perChannel {value : ℕ → Word} (h : ∀ i, (value (i * 8)).toNat < 256) (c : Fin 4) :
    (octetOf (perChannel value) c).toNat = (value (c * 8)).toNat := by
  have hrow : perChannel value = Words.row 8 (fun i ↦ value (i * 8)) 4 := rfl
  have hlane (i k : ℕ) (hk : 8 ≤ k) : (value (i * 8)).getLsbD k = false :=
    Nat.testBit_lt_two_pow ((h i).trans_le (Nat.pow_le_pow_right Nat.two_pos hk))
  rw [hrow, octetOf, Words.extractLsb'_row (n := 32) (Nat.succ_pos 7) hlane c.isLt le_rfl,
    toNat_setWidth, Nat.mod_eq_of_lt (h c)]

theorem toNat_channel (pixel : Word) (i : ℕ) :
    ((pixel >>> (i * 8)) &&& 0xff).toNat = (octetOf pixel i).toNat := by
  rw [toNat_octetOf, toNat_and, toNat_ushiftRight, Nat.shiftRight_eq_div_pow]
  exact Nat.and_two_pow_sub_one_eq_mod _ 8

/-- A channel between two, rounded down. -/
def lerp (a b weight : ℕ) : ℤ := a + (weight : ℤ) * (b - a) / 256

theorem lerp_bounds {a b weight top : ℕ} (hweight : weight < 256) (ha : a ≤ top) (hb : b ≤ top) :
    0 ≤ lerp a b weight ∧ lerp a b weight ≤ top := by
  unfold lerp
  have hlow : 0 ≤ (a : ℤ) * (256 - weight) + weight * b := by
    have : (0 : ℤ) ≤ 256 - weight := by omega
    positivity
  have hhigh : (a : ℤ) * (256 - weight) + weight * b ≤ top * (256 - weight) + weight * top := by
    gcongr
    omega
  have hsum : (weight : ℤ) * (b - a) = a * (256 - weight) + weight * b - 256 * a := by ring
  rw [hsum]
  rw [show (top : ℤ) * (256 - weight) + weight * top = 256 * top by ring] at hhigh
  omega

theorem lerp_mono {a b a' b' weight : ℕ} (hweight : weight < 256) (ha : a ≤ a') (hb : b ≤ b') :
    lerp a b weight ≤ lerp a' b' weight := by
  have hle : (a : ℤ) * (256 - weight) + weight * b ≤ a' * (256 - weight) + weight * b' := by
    gcongr
    omega
  have hsum (a b : ℕ) : (weight : ℤ) * (b - a) = a * (256 - weight) + weight * b - 256 * a := by
    ring
  unfold lerp
  rw [hsum, hsum]
  omega

/-- Two channels in one register: what the lower one borrows does not reach the upper one. -/
theorem lanes_exact {first second weight : Word} {f₀ f₂ s₀ s₂ : ℕ} (hweight : weight.toNat < 256)
    (hf₀ : f₀ ≤ 255) (hf₂ : f₂ ≤ 255) (hs₀ : s₀ ≤ 255) (hs₂ : s₂ ≤ 255)
    (hfirst : first.toNat = f₀ + f₂ * 2 ^ 16) (hsecond : second.toNat = s₀ + s₂ * 2 ^ 16) :
    ((octetOf (first + ((weight * (second - first)) >>> 8)) 0).toNat : ℤ) =
        lerp f₀ s₀ weight.toNat ∧
      ((octetOf (first + ((weight * (second - first)) >>> 8)) 2).toNat : ℤ) =
        lerp f₂ s₂ weight.toNat := by
  have hbounds₀ := lerp_bounds hweight hf₀ hs₀
  have hbounds₂ := lerp_bounds hweight hf₂ hs₂
  have hproduct : ((weight * (second - first)).toNat : ℤ) =
      ((weight.toNat : ℤ) * (s₀ - f₀) + weight.toNat * (s₂ - f₂) * 2 ^ 16) % 2 ^ 32 := by
    rw [toNat_mul, toNat_sub, hfirst, hsecond]
    push_cast
    rw [Nat.cast_sub (by omega), Int.mul_emod, Int.emod_emod_of_dvd _ dvd_rfl, ← Int.mul_emod]
    conv_rhs => rw [← Int.add_mul_emod_self_right _ (weight.toNat : ℤ)]
    congr 1
    push_cast
    ring
  simp only [toNat_octetOf, toNat_add, toNat_ushiftRight, Nat.shiftRight_eq_div_pow, hfirst]
  unfold lerp at hbounds₀ hbounds₂ ⊢
  have hlt := (weight * (second - first)).isLt
  generalize (weight * (second - first)).toNat = m at hproduct hlt ⊢
  generalize (weight.toNat : ℤ) * (s₀ - f₀) = p₀ at hproduct hbounds₀ ⊢
  generalize (weight.toNat : ℤ) * (s₂ - f₂) = p₂ at hproduct hbounds₂ ⊢
  constructor
  · omega
  · omega

theorem octetOf_mbxLinearBgra8 (first second weight : Word) (hweight : weight.toNat < 256)
    (c : Fin 4) : ((octetOf (mbxLinearBgra8 first second weight) c).toNat : ℤ) =
      lerp (octetOf first c).toNat (octetOf second c).toNat weight.toNat := by
  have hle (o : Octet) : o.toNat ≤ 255 := Nat.le_of_lt_succ o.isLt
  have hshift (pixel : Word) : ((pixel >>> 8) &&& 0x00ff00ff).toNat =
      (octetOf pixel 1).toNat + (octetOf pixel 3).toNat * 2 ^ 16 := by
    rw [toNat_and_lanes]
    simp only [toNat_octetOf, toNat_ushiftRight, Nat.shiftRight_eq_div_pow]
    omega
  obtain ⟨heven₀, heven₂⟩ := lanes_exact hweight (hle _) (hle _) (hle _) (hle _)
    (toNat_and_lanes first) (toNat_and_lanes second)
  obtain ⟨hodd₀, hodd₂⟩ := lanes_exact hweight (hle _) (hle _) (hle _) (hle _)
    (hshift first) (hshift second)
  unfold mbxLinearBgra8
  dsimp only
  generalize (first &&& 0x00ff00ff) + _ = even at heven₀ heven₂ ⊢
  generalize (first >>> 8 &&& 0x00ff00ff) + _ = odd at hodd₀ hodd₂ ⊢
  have hsum : ((even &&& (0x00ff00ff : Word)) ||| ((odd &&& (0x00ff00ff : Word)) <<< 8)).toNat =
      (octetOf even 0).toNat + (octetOf odd 0).toNat * 2 ^ 8 + (octetOf even 2).toNat * 2 ^ 16 +
        (octetOf odd 2).toNat * 2 ^ 24 := by
    have hmask : (odd &&& 0x00ff00ff) <<< 8 = (odd <<< 8) &&& 0xff00ff00 :=
      shiftLeft_and_distrib odd _ 8
    have heven := toNat_and_lanes even
    have hodd : ((odd &&& 0x00ff00ff) <<< 8).toNat =
        (octetOf odd 0).toNat * 2 ^ 8 + (octetOf odd 2).toNat * 2 ^ 24 := by
      rw [toNat_shiftLeft, toNat_and_lanes, Nat.shiftLeft_eq, Nat.add_mul]
      omega
    rw [hmask, or_lanes, ← hmask, toNat_add, heven, hodd]
    omega
  obtain ⟨h₀, h₁, h₂, h₃⟩ := octetOf_eq_of_toNat (octetOf even 0).isLt (octetOf odd 0).isLt
    (octetOf even 2).isLt (octetOf odd 2).isLt hsum
  fin_cases c
  · exact h₀ ▸ heven₀
  · exact h₁ ▸ hodd₀
  · exact h₂ ▸ heven₂
  · exact h₃ ▸ hodd₂

/-- No colour of the pixel is brighter than its alpha. -/
def Premultiplied (pixel : Word) : Prop :=
  ∀ c : Fin 4, (octetOf pixel c).toNat ≤ (octetOf pixel 3).toNat

theorem premultiplied_linear {first second weight : Word} (hweight : weight.toNat < 256)
    (hfirst : Premultiplied first) (hsecond : Premultiplied second) :
    Premultiplied (mbxLinearBgra8 first second weight) := by
  intro c
  apply Int.ofNat_le.1
  calc ((octetOf (mbxLinearBgra8 first second weight) c).toNat : ℤ)
      = lerp (octetOf first c).toNat (octetOf second c).toNat weight.toNat :=
        octetOf_mbxLinearBgra8 first second weight hweight c
    _ ≤ lerp (octetOf first 3).toNat (octetOf second 3).toNat weight.toNat :=
        lerp_mono hweight (hfirst c) (hsecond c)
    _ = _ := (octetOf_mbxLinearBgra8 first second weight hweight 3).symm

/-- Past the alpha there is nothing. -/
theorem octetOf_le {pixel : Word} {top : ℕ} (h : ∀ c : Fin 4, (octetOf pixel c).toNat ≤ top)
    (c : ℕ) : (octetOf pixel c).toNat ≤ top := by
  by_cases hc : c < 4
  · exact h ⟨c, hc⟩
  · rw [toNat_octetOf, Nat.div_eq_of_lt (pixel.isLt.trans_le
      (Nat.pow_le_pow_right Nat.two_pos (by omega)))]
    exact Nat.zero_le _

theorem octetOf_modulate (src : Word) (alpha : Octet) (c : Fin 4) :
    (octetOf (mbxModulateVertexAlpha src (alpha.setWidth 32)) c).toNat =
      ((octetOf src c).toNat + 1) * alpha.toNat / 256 := by
  have halpha := alpha.isLt
  have hvalue (i : ℕ) : (((((src >>> (i * 8)) &&& 0xff) + 1) * alpha.setWidth 32) >>> 8).toNat =
      ((octetOf src i).toNat + 1) * alpha.toNat / 256 := by
    have hi := (octetOf src i).isLt
    rw [toNat_ushiftRight, toNat_mul, toNat_add, toNat_channel,
      toNat_setWidth, Nat.shiftRight_eq_div_pow,
      Nat.mod_eq_of_lt (a := alpha.toNat) (by omega), Nat.mod_eq_of_lt (a := _ + _) (by simp; omega),
      Nat.mod_eq_of_lt]
    · rfl
    · calc ((octetOf src i).toNat + 1) * alpha.toNat ≤ 256 * 255 :=
            Nat.mul_le_mul (by omega) (by omega)
        _ < 2 ^ 32 := by decide
  refine (octetOf_perChannel (fun i ↦ ?_) c).trans (hvalue c)
  rw [hvalue]
  apply Nat.div_lt_of_lt_mul
  calc ((octetOf src i).toNat + 1) * alpha.toNat ≤ 256 * 255 :=
        Nat.mul_le_mul (octetOf src i).isLt (by omega)
    _ < 256 * 256 := by decide

theorem toNat_inv (src : Word) :
    ((256 : Word) - (src >>> 24)).toNat = 256 - (octetOf src 3).toNat := by
  rw [toNat_sub, toNat_ushiftRight, Nat.shiftRight_eq_div_pow, toNat_octetOf]
  have := src.isLt
  show (2 ^ 32 - src.toNat / 2 ^ 24 + 256) % 2 ^ 32 = _
  omega

theorem blend_le {s d alpha : ℕ} (hs : s ≤ alpha) (halpha : alpha < 256) (hd : d < 256) :
    d * (256 - alpha) / 256 < 256 - alpha ∧ s + d * (256 - alpha) / 256 ≤ 255 := by
  have hlt : d * (256 - alpha) / 256 < 256 - alpha := by
    apply Nat.div_lt_of_lt_mul
    exact Nat.mul_lt_mul_of_pos_right hd (by omega)
  exact ⟨hlt, by omega⟩

theorem octetOf_over (dst : Word) {src : Word} (hsrc : Premultiplied src) (c : Fin 4) :
    (octetOf (mbxPremultipliedOver dst src) c).toNat =
      (octetOf src c).toNat + (octetOf dst c).toNat * (256 - (octetOf src 3).toNat) / 256 := by
  have hblend (i : ℕ) := blend_le (octetOf_le hsrc i) (octetOf src 3).isLt (octetOf dst i).isLt
  have hvalue (i : ℕ) : (((src >>> (i * 8)) &&& (0xff : Word)) +
      ((((dst >>> (i * 8)) &&& (0xff : Word)) * ((256 : Word) - (src >>> 24))) >>> 8)).toNat =
      (octetOf src i).toNat + (octetOf dst i).toNat * (256 - (octetOf src 3).toNat) / 256 := by
    have hproduct : (octetOf dst i).toNat * (256 - (octetOf src 3).toNat) < 2 ^ 32 := by
      calc (octetOf dst i).toNat * (256 - (octetOf src 3).toNat) ≤ 256 * 256 :=
            Nat.mul_le_mul (octetOf dst i).isLt.le (Nat.sub_le _ _)
        _ < 2 ^ 32 := by decide
    have := (hblend i).2
    rw [toNat_add, toNat_ushiftRight, toNat_mul, toNat_channel, toNat_channel,
      toNat_inv, Nat.shiftRight_eq_div_pow, Nat.mod_eq_of_lt hproduct]
    exact Nat.mod_eq_of_lt (by omega)
  refine (octetOf_perChannel (fun i ↦ ?_) c).trans (hvalue c)
  have := (hblend i).2
  exact (hvalue i).trans_lt (by omega)

theorem octetOf_ror8 (x : Word) :
    octetOf (ror8 x) 0 = octetOf x 1 ∧ octetOf (ror8 x) 2 = octetOf x 3 := by
  have hleft (c : ℕ) (hc : c = 0 ∨ c = 2) : octetOf (x <<< 24) c = 0#8 := by
    apply eq_of_toNat_eq
    rw [toNat_octetOf, toNat_shiftLeft, Nat.shiftLeft_eq]
    obtain rfl | rfl := hc
    · show _ = 0
      omega
    · show _ = 0
      omega
  have hright (c : ℕ) (hc : c = 0 ∨ c = 2) : octetOf (x >>> 8) c = octetOf x (c + 1) := by
    apply eq_of_toNat_eq
    rw [toNat_octetOf, toNat_octetOf, toNat_ushiftRight, Nat.shiftRight_eq_div_pow,
      Nat.div_div_eq_div_mul, ← pow_add, show 8 + c * 8 = (c + 1) * 8 by ring]
  unfold ror8
  rw [octetOf_or, octetOf_or, hleft 0 (.inl rfl), hleft 2 (.inr rfl), hright 0 (.inl rfl),
    hright 2 (.inr rfl), or_zero, or_zero]
  exact ⟨rfl, rfl⟩

/-- Two channels by one weight stay apart, as the lower one does not reach the upper. -/
theorem octetOf_mul {x inv : Word} {a b : ℕ} (ha : a < 256) (hb : b < 256)
    (hinv : inv.toNat ≤ 256) (hx : x.toNat = a + b * 2 ^ 16) :
    (octetOf (x * inv) 1).toNat = a * inv.toNat / 256 ∧
      (octetOf (x * inv) 3).toNat = b * inv.toNat / 256 := by
  have ha' : a * inv.toNat ≤ 255 * 256 := Nat.mul_le_mul (by omega) hinv
  have hb' : b * inv.toNat ≤ 255 * 256 := Nat.mul_le_mul (by omega) hinv
  rw [toNat_octetOf, toNat_octetOf, toNat_mul, hx, Nat.add_mul, Nat.mul_right_comm]
  generalize a * inv.toNat = p at ha' ⊢
  generalize b * inv.toNat = q at hb' ⊢
  omega

theorem swBlend_eq {dst src : Word} (hsrc : Premultiplied src) :
    swBlendPremultipliedOver dst src = mbxPremultipliedOver dst src := by
  have hblend (c : ℕ) := blend_le (octetOf_le hsrc c) (octetOf src 3).isLt (octetOf dst c).isLt
  have hinv : ((256 : Word) - (src >>> 24)).toNat ≤ 256 := (toNat_inv src).trans_le (Nat.sub_le _ _)
  obtain ⟨heven₀, heven₂⟩ := octetOf_mul (octetOf dst 0).isLt (octetOf dst 2).isLt hinv
    (toNat_and_lanes dst)
  obtain ⟨hodd₀, hodd₂⟩ := octetOf_mul (octetOf (ror8 dst) 0).isLt (octetOf (ror8 dst) 2).isLt hinv
    (toNat_and_lanes (ror8 dst))
  obtain ⟨hturn₀, hturn₂⟩ := octetOf_ror8 dst
  rw [hturn₀, toNat_inv] at hodd₀
  rw [hturn₂, toNat_inv] at hodd₂
  rw [toNat_inv] at heven₀ heven₂
  have h₀ := octetOf_over dst hsrc 0
  have h₁ := octetOf_over dst hsrc 1
  have h₂ := octetOf_over dst hsrc 2
  have h₃ := octetOf_over dst hsrc 3
  have hb₀ := hblend 0
  have hb₁ := hblend 1
  have hb₂ := hblend 2
  have hb₃ := hblend 3
  apply eq_of_toNat_eq
  unfold swBlendPremultipliedOver
  dsimp only
  generalize (dst &&& 0x00ff00ff) * _ = even at heven₀ heven₂ ⊢
  generalize (ror8 dst &&& 0x00ff00ff) * _ = odd at hodd₀ hodd₂ ⊢
  rw [or_lanes, toNat_add, toNat_add, toNat_and_lanes, toNat_and_lanes_high,
    (octetOf_ror8 even).1, (octetOf_ror8 even).2, heven₀, heven₂, hodd₀, hodd₂,
    toNat_eq_octets (mbxPremultipliedOver dst src), toNat_eq_octets src]
  change (octetOf _ 0).toNat = _ at h₀
  change (octetOf _ 1).toNat = _ at h₁
  change (octetOf _ 2).toNat = _ at h₂
  change (octetOf _ 3).toNat = _ at h₃
  rw [h₀, h₁, h₂, h₃]
  change _ = (octetOf src 0).toNat + (octetOf dst 0).toNat * (256 - (octetOf src 3).toNat) / 256 +
    ((octetOf src 1).toNat + (octetOf dst 1).toNat * (256 - (octetOf src 3).toNat) / 256) * 2 ^ 8 +
    ((octetOf src 2).toNat + (octetOf dst 2).toNat * (256 - (octetOf src 3).toNat) / 256) * 2 ^ 16 +
    ((octetOf src 3).toNat + (octetOf dst 3).toNat * (256 - (octetOf src 3).toNat) / 256) * 2 ^ 24
  omega

/-- Filter, modulation and blend are exact in each channel, keep pixels premultiplied and never
carry, so that the packed blend gives the same pixel. -/
theorem pixels_exact (topLeft bottomLeft topRight bottomRight src dst : Word)
    (yWeight xWeight alpha : Octet) : (∀ c : Fin 4,
      ((octetOf (mbxLinearBgra8 topLeft bottomLeft (yWeight.setWidth 32)) c).toNat : ℤ) =
      (octetOf topLeft c).toNat + (yWeight.toNat : ℤ) *
        ((octetOf bottomLeft c).toNat - (octetOf topLeft c).toNat) / 256) ∧
    (Premultiplied topLeft → Premultiplied bottomLeft → Premultiplied topRight →
      Premultiplied bottomRight → Premultiplied (bilinear topLeft bottomLeft topRight bottomRight
        (yWeight.setWidth 32) (xWeight.setWidth 32))) ∧
    (Premultiplied src → Premultiplied (mbxModulateVertexAlpha src (alpha.setWidth 32))) ∧
    (Premultiplied src → (∀ c : Fin 4, (octetOf (mbxPremultipliedOver dst src) c).toNat =
        (octetOf src c).toNat + (octetOf dst c).toNat * (256 - (octetOf src 3).toNat) / 256 ∧
      (octetOf src c).toNat + (octetOf dst c).toNat * (256 - (octetOf src 3).toNat) / 256 ≤ 255) ∧
      swBlendPremultipliedOver dst src = mbxPremultipliedOver dst src) := by
  have hweight (weight : Octet) : (weight.setWidth 32).toNat = weight.toNat := by
    rw [toNat_setWidth, Nat.mod_eq_of_lt (weight.isLt.trans (by decide))]
  have hlt (weight : Octet) : (weight.setWidth 32).toNat < 256 :=
    (hweight weight).trans_lt weight.isLt
  refine ⟨fun c ↦ ?_, fun htl hbl htr hbr ↦ ?_, fun hsrc c ↦ ?_, fun hsrc ↦ ⟨fun c ↦ ?_, ?_⟩⟩
  · rw [octetOf_mbxLinearBgra8 _ _ _ (hlt yWeight), hweight]
    rfl
  · exact premultiplied_linear (hlt xWeight) (premultiplied_linear (hlt yWeight) htl hbl)
      (premultiplied_linear (hlt yWeight) htr hbr)
  · rw [octetOf_modulate, show (3 : ℕ) = ((3 : Fin 4) : ℕ) from rfl, octetOf_modulate]
    exact Nat.div_le_div_right (Nat.mul_le_mul_right _ (Nat.succ_le_succ (hsrc c)))
  · exact ⟨octetOf_over dst hsrc c, (blend_le (hsrc c) (octetOf src 3).isLt (octetOf dst c).isLt).2⟩
  · exact swBlend_eq hsrc

/-- A pixel of a status sprite, over white. -/
theorem pixels_exact_status : Premultiplied 0xbf8900bf ∧
    swBlendPremultipliedOver 0xffffffff 0xbf8900bf = mbxPremultipliedOver 0xffffffff 0xbf8900bf := by
  have hsrc : Premultiplied 0xbf8900bf := by
    unfold Premultiplied
    decide
  exact ⟨hsrc, ((pixels_exact 0 0 0 0 0xbf8900bf 0xffffffff 0 0 0).2.2.2 hsrc).2⟩

end S5LBox.Tools
