import S5LBox.Firmware.Plist

/-!
# Base64

The decoder for the data elements of a property list. White space is passed over; everything else
outside of the alphabet is refused, and so is a quantum that is not whole.
-/

namespace S5LBox.Firmware

open List
open BitVec (eq_of_toNat_eq ofNat toNat_ofNat)

def b64Val (c : Octet) : Option ℕ :=
  if 0x41 ≤ c ∧ c ≤ 0x5a then some (c.toNat - 0x41)
  else if 0x61 ≤ c ∧ c ≤ 0x7a then some (c.toNat - 0x61 + 26)
  else if 0x30 ≤ c ∧ c ≤ 0x39 then some (c.toNat - 0x30 + 52)
  else if c = 0x2b then some 62
  else if c = 0x2f then some 63
  else none

/-- The 24 bits of a quantum; padding counts as zero. -/
def quantum (g : List Octet) : ℕ := g.foldl (fun v c ↦ v * 64 + (b64Val c).getD 0) 0

/-- Decode a quantum behind what is decoded already, into a buffer of `cap` octets. -/
def b64Emit (g : List Octet) (pad cap : ℕ) (out : List Octet) : Except PlistStatus (List Octet) :=
  let v := quantum g
  if pad = 1 ∧ v % 256 ≠ 0 then .error .badBase64
  else if pad = 2 ∧ v % 65536 ≠ 0 then .error .badBase64
  else
    let b := [ofNat 8 (v / 65536), ofNat 8 (v / 256), ofNat 8 v].take (3 - pad)
    if cap < out.length + b.length then .error .tooLong else .ok (out ++ b)

/-- The loop of `vmfw_base64_decode`, with the unfinished quantum and the padding seen so far. -/
def b64Loop (cap : ℕ) : List Octet → List Octet → ℕ → List Octet → Except PlistStatus (List Octet)
  | [], grp, _, out => if grp = [] then .ok out else .error .badBase64
  | c :: rest, grp, pad, out =>
    if isWs c then b64Loop cap rest grp pad out
    else
      let pad' := if c = 0x3d then pad + 1 else pad
      if c = 0x3d ∧ 2 < pad' then .error .badBase64
      else if c ≠ 0x3d ∧ (pad ≠ 0 ∨ b64Val c = none) then .error .badBase64
      else if grp.length = 3 then
        match b64Emit (grp ++ [c]) pad' cap out with
        | .error e => .error e
        | .ok out => b64Loop cap rest [] pad' out
      else b64Loop cap rest (grp ++ [c]) pad' out

theorem b64Loop_nil (cap : ℕ) (grp : List Octet) (pad : ℕ) (out : List Octet) :
    b64Loop cap [] grp pad out = if grp = [] then .ok out else .error .badBase64 := by
  rw [b64Loop]

/-- Decode into a buffer of `cap` octets. -/
def vmfwBase64Decode (input : List Octet) (cap : ℕ) : Except PlistStatus (List Octet) :=
  b64Loop cap input [] 0 []

/-- The size of what a text decodes to, from its characters of the alphabet alone. -/
def vmfwBase64DecodedSize (input : List Octet) : ℕ :=
  let n := input.countP fun c ↦ (b64Val c).isSome
  n / 4 * 3 + n % 4 * 3 / 4

/-- The text up to and with its character number `need`, white space not counted. -/
def charPrefix : List Octet → (need : ℕ) → Option (List Octet)
  | _, 0 => some []
  | [], _ + 1 => none
  | c :: rest, need + 1 =>
    (charPrefix rest (if isWs c then need + 1 else need)).map (c :: ·)

/-- Decode the first `want` octets, and with them what completes their last group of three. -/
def decodeB64Prefix (b64 : List Octet) (cap want : ℕ) : Except PlistStatus (List Octet) :=
  let groups := (want + 2) / 3
  match charPrefix b64 (groups * 4) with
  | none => .error .badBase64
  | some chars =>
    match vmfwBase64Decode chars cap with
    | .error e => .error e
    | .ok out => if want ≤ out.length then .ok out else .error .badBase64

/-- The character of six bits. -/
def b64Char (v : ℕ) : Octet :=
  if v < 26 then ofNat 8 (v + 0x41)
  else if v < 52 then ofNat 8 (v - 26 + 0x61)
  else if v < 62 then ofNat 8 (v - 52 + 0x30)
  else if v = 62 then 0x2b
  else 0x2f

/-- Groups of three octets as four characters each; a last group is padded. -/
def b64Encode : List Octet → List Octet
  | [] => []
  | [a] => [b64Char (a.toNat / 4), b64Char (a.toNat % 4 * 16), 0x3d, 0x3d]
  | [a, b] =>
    [b64Char (a.toNat / 4), b64Char (a.toNat % 4 * 16 + b.toNat / 16), b64Char (b.toNat % 16 * 4),
      0x3d]
  | a :: b :: c :: rest =>
    b64Char (a.toNat / 4) :: b64Char (a.toNat % 4 * 16 + b.toNat / 16) ::
      b64Char (b.toNat % 16 * 4 + c.toNat / 64) :: b64Char (c.toNat % 64) :: b64Encode rest

/-- A text without its white space. -/
def compact (text : List Octet) : List Octet := text.filter fun c ↦ !isWs c

/-- A character of the alphabet with its value. -/
def Denotes (c : Octet) (v : ℕ) : Prop := b64Val c = some v ∧ c ≠ 0x3d ∧ isWs c = false

theorem denotes_b64Char {v : ℕ} (h : v < 64) : Denotes (b64Char v) v := by
  have hall : ∀ v < 64, b64Val (b64Char v) = some v ∧ b64Char v ≠ 0x3d ∧
      isWs (b64Char v) = false := by
    decide +kernel
  exact hall v h

theorem Denotes.getD {c : Octet} {v : ℕ} (h : Denotes c v) : (b64Val c).getD 0 = v := by
  rw [h.1, Option.getD_some]

theorem getD_pad : (b64Val 0x3d).getD 0 = 0 := by decide

theorem denotes_of_b64Val {c : Octet} {v : ℕ} (h : b64Val c = some v) :
    Denotes c v ∧ v < 64 ∧ c = b64Char v := by
  have hall : ∀ c : Octet, ∀ v ∈ b64Val c, c ≠ 0x3d ∧ isWs c = false ∧ v < 64 ∧ c = b64Char v := by
    decide +kernel
  obtain ⟨hpad, hws, hlt, hchar⟩ := hall c v h
  exact ⟨⟨h, hpad, hws⟩, hlt, hchar⟩

/-- White space counts for nothing. -/
theorem b64Loop_compact (cap : ℕ) (text grp : List Octet) (pad : ℕ) (out : List Octet) :
    b64Loop cap text grp pad out = b64Loop cap (compact text) grp pad out := by
  induction text generalizing grp pad out with
  | nil => rfl
  | cons c rest ih =>
    by_cases hws : isWs c
    · rw [b64Loop, if_pos hws, ih, compact, compact, filter_cons_of_neg (by simp [hws])]
    · rw [compact, filter_cons_of_pos (by simp [hws]), b64Loop, b64Loop, if_neg hws, if_neg hws]
      simp only [ih, compact]

variable {cap pad v : ℕ} {c : Octet} {rest grp out r : List Octet}

theorem b64Loop_take (hc : Denotes c v) (hgrp : grp.length ≠ 3) :
    b64Loop cap (c :: rest) grp 0 out = b64Loop cap rest (grp ++ [c]) 0 out := by
  obtain ⟨hval, hpad, hws⟩ := hc
  rw [b64Loop, if_neg (by rw [hws]; exact Bool.false_ne_true)]
  simp only [hpad, hval, hgrp, if_false, false_and, ne_eq, not_true_eq_false, reduceCtorEq,
    or_self, and_false]

theorem b64Loop_last (hc : Denotes c v) (hgrp : grp.length = 3) :
    b64Loop cap (c :: rest) grp 0 out =
      match b64Emit (grp ++ [c]) 0 cap out with
      | .error e => .error e
      | .ok out => b64Loop cap rest [] 0 out := by
  obtain ⟨hval, hpad, hws⟩ := hc
  rw [b64Loop, if_neg (by rw [hws]; exact Bool.false_ne_true)]
  simp only [hpad, hval, hgrp, if_false, if_true, false_and, ne_eq, not_true_eq_false,
    reduceCtorEq, or_self, and_false]

theorem b64Loop_pad (hpad : pad < 2) (hgrp : grp.length ≠ 3) :
    b64Loop cap (0x3d :: rest) grp pad out = b64Loop cap rest (grp ++ [0x3d]) (pad + 1) out := by
  rw [b64Loop, if_neg (by decide)]
  have hle : ¬2 < pad + 1 := by omega
  simp only [hgrp, hle, if_true, if_false, and_false, ne_eq, not_true_eq_false, false_and]

theorem b64Loop_padLast (hpad : pad < 2) (hgrp : grp.length = 3) :
    b64Loop cap (0x3d :: rest) grp pad out =
      match b64Emit (grp ++ [0x3d]) (pad + 1) cap out with
      | .error e => .error e
      | .ok out => b64Loop cap rest [] (pad + 1) out := by
  rw [b64Loop, if_neg (by decide)]
  have hle : ¬2 < pad + 1 := by omega
  simp only [hgrp, hle, if_true, if_false, and_false, ne_eq, not_true_eq_false, false_and]

theorem b64Loop_cons_ok (hws : isWs c = false) (h : b64Loop cap (c :: rest) grp pad out = .ok r) :
    (c = 0x3d ∧ pad < 2) ∨ (pad = 0 ∧ ∃ v, Denotes c v ∧ v < 64 ∧ c = b64Char v) := by
  rw [b64Loop, if_neg (by rw [hws]; exact Bool.false_ne_true)] at h
  dsimp only at h
  by_cases heq : c = 0x3d
  · rw [if_pos heq] at h
    by_cases hlt : pad < 2
    · exact .inl ⟨heq, hlt⟩
    · rw [if_pos ⟨heq, by omega⟩] at h
      cases h
  · rw [if_neg fun hboth ↦ heq hboth.1] at h
    by_cases hbad : pad ≠ 0 ∨ b64Val c = none
    · rw [if_pos ⟨heq, hbad⟩] at h
      cases h
    · obtain ⟨hzero, hval⟩ := not_or.1 hbad
      obtain ⟨v, hv⟩ := Option.ne_none_iff_exists'.1 hval
      exact .inr ⟨not_not.1 hzero, v, denotes_of_b64Val hv⟩

theorem b64Loop_nil_ok (h : b64Loop cap [] grp pad out = .ok r) : grp = [] ∧ out = r := by
  rw [b64Loop_nil] at h
  split at h
  case isTrue hgrp => exact ⟨hgrp, Except.ok.inj h⟩
  case isFalse => cases h

theorem isWs_head (hws : ∀ c' ∈ c :: rest, isWs c' = false) :
    isWs c = false ∧ ∀ c' ∈ rest, isWs c' = false :=
  ⟨hws c mem_cons_self, fun c' hmem ↦ hws c' (mem_cons_of_mem _ hmem)⟩

theorem b64Loop_padded_twice (hws : ∀ c ∈ rest, isWs c = false)
    (h : b64Loop cap rest grp 2 out = .ok r) : rest = [] ∧ grp = [] ∧ out = r := by
  cases rest with
  | nil => exact ⟨rfl, b64Loop_nil_ok h⟩
  | cons c rest =>
    rcases b64Loop_cons_ok (isWs_head hws).1 h with ⟨-, hlt⟩ | ⟨hzero, -⟩
    · exact absurd hlt (by decide)
    · exact absurd hzero (by decide)

theorem b64Loop_padded (hws : ∀ c ∈ rest, isWs c = false) (hpad : 0 < pad)
    (h : b64Loop cap rest [] pad out = .ok r) : rest = [] ∧ out = r := by
  cases rest with
  | nil => exact ⟨rfl, (b64Loop_nil_ok h).2⟩
  | cons c rest =>
    obtain ⟨hc, hrest⟩ := isWs_head hws
    rcases b64Loop_cons_ok hc h with ⟨rfl, hlt⟩ | ⟨hzero, -⟩
    · obtain rfl : pad = 1 := by omega
      rw [b64Loop_pad (by decide) (by decide)] at h
      exact absurd (b64Loop_padded_twice hrest h).2.1 (by decide)
    · omega

theorem quantum_four {c₀ c₁ c₂ c₃ : Octet} {v₀ v₁ v₂ v₃ : ℕ} (h₀ : (b64Val c₀).getD 0 = v₀)
    (h₁ : (b64Val c₁).getD 0 = v₁) (h₂ : (b64Val c₂).getD 0 = v₂) (h₃ : (b64Val c₃).getD 0 = v₃) :
    quantum [c₀, c₁, c₂, c₃] = ((v₀ * 64 + v₁) * 64 + v₂) * 64 + v₃ := by
  simp only [quantum, foldl_cons, foldl_nil, h₀, h₁, h₂, h₃, zero_mul, zero_add]

/-- The octets of a quantum. -/
def quantumOctets (v : ℕ) : List Octet :=
  [ofNat 8 (v / 65536), ofNat 8 (v / 256), ofNat 8 v]

theorem quantumOctets_eq (a b c : Octet) :
    quantumOctets (a.toNat * 65536 + b.toNat * 256 + c.toNat) = [a, b, c] := by
  have ha := a.isLt
  have hb := b.isLt
  have hc := c.isLt
  have hfirst : ofNat 8 ((a.toNat * 65536 + b.toNat * 256 + c.toNat) / 65536) = a := by
    refine eq_of_toNat_eq ?_
    rw [toNat_ofNat]
    omega
  have hsecond : ofNat 8 ((a.toNat * 65536 + b.toNat * 256 + c.toNat) / 256) = b := by
    refine eq_of_toNat_eq ?_
    rw [toNat_ofNat]
    omega
  have hthird : ofNat 8 (a.toNat * 65536 + b.toNat * 256 + c.toNat) = c := by
    refine eq_of_toNat_eq ?_
    rw [toNat_ofNat]
    omega
  rw [quantumOctets, hfirst, hsecond, hthird]

theorem b64Emit_clear {data : List Octet} (hv : quantum grp = v) (hone : pad = 1 → v % 256 = 0)
    (htwo : pad = 2 → v % 65536 = 0) (hdata : (quantumOctets v).take (3 - pad) = data) :
    b64Emit grp pad cap out =
      if cap < out.length + data.length then .error .tooLong else .ok (out ++ data) := by
  unfold b64Emit
  rw [hv, ← hdata]
  dsimp only
  rw [if_neg fun h ↦ h.2 (hone h.1), if_neg fun h ↦ h.2 (htwo h.1)]
  rfl

theorem b64Emit_ok (h : b64Emit grp pad cap out = .ok r) :
    (pad = 1 → quantum grp % 256 = 0) ∧ (pad = 2 → quantum grp % 65536 = 0) ∧
      r = out ++ (quantumOctets (quantum grp)).take (3 - pad) := by
  unfold b64Emit at h
  dsimp only at h
  by_cases hone : pad = 1 ∧ quantum grp % 256 ≠ 0
  · rw [if_pos hone] at h
    cases h
  rw [if_neg hone] at h
  by_cases htwo : pad = 2 ∧ quantum grp % 65536 ≠ 0
  · rw [if_pos htwo] at h
    cases h
  rw [if_neg htwo] at h
  refine ⟨fun hpad ↦ ?_, fun hpad ↦ ?_, ?_⟩
  · exact not_not.1 fun hne ↦ hone ⟨hpad, hne⟩
  · exact not_not.1 fun hne ↦ htwo ⟨hpad, hne⟩
  · split at h
    case isTrue => cases h
    case isFalse => exact (Except.ok.inj h).symm

section Groups

variable {c₀ c₁ c₂ c₃ : Octet} {v₀ v₁ v₂ v₃ : ℕ}

theorem b64Loop_group (h₀ : Denotes c₀ v₀) (h₁ : Denotes c₁ v₁) (h₂ : Denotes c₂ v₂)
    (h₃ : Denotes c₃ v₃) : b64Loop cap (c₀ :: c₁ :: c₂ :: c₃ :: rest) [] 0 out =
      match b64Emit [c₀, c₁, c₂, c₃] 0 cap out with
      | .error e => .error e
      | .ok out => b64Loop cap rest [] 0 out := by
  rw [b64Loop_take h₀ (by decide), b64Loop_take h₁ (by simp), b64Loop_take h₂ (by simp),
    b64Loop_last h₃ rfl]
  rfl

theorem b64Loop_groupPad (h₀ : Denotes c₀ v₀) (h₁ : Denotes c₁ v₁) (h₂ : Denotes c₂ v₂) :
    b64Loop cap (c₀ :: c₁ :: c₂ :: 0x3d :: rest) [] 0 out =
      match b64Emit [c₀, c₁, c₂, 0x3d] 1 cap out with
      | .error e => .error e
      | .ok out => b64Loop cap rest [] 1 out := by
  rw [b64Loop_take h₀ (by decide), b64Loop_take h₁ (by simp), b64Loop_take h₂ (by simp),
    b64Loop_padLast (by decide) rfl]
  rfl

theorem b64Loop_groupPads (h₀ : Denotes c₀ v₀) (h₁ : Denotes c₁ v₁) :
    b64Loop cap (c₀ :: c₁ :: 0x3d :: 0x3d :: rest) [] 0 out =
      match b64Emit [c₀, c₁, 0x3d, 0x3d] 2 cap out with
      | .error e => .error e
      | .ok out => b64Loop cap rest [] 2 out := by
  rw [b64Loop_take h₀ (by decide), b64Loop_take h₁ (by simp), b64Loop_pad (by decide) (by simp),
    b64Loop_padLast (by decide) rfl]
  rfl

end Groups

theorem b64Loop_encode (data out : List Octet) (hcap : out.length ≤ cap) :
    b64Loop cap (b64Encode data) [] 0 out =
      if cap < out.length + data.length then .error .tooLong else .ok (out ++ data) := by
  induction data using b64Encode.induct generalizing out with
  | case1 =>
    rw [b64Encode, b64Loop, if_pos rfl, append_nil]
    exact (if_neg (Nat.not_lt.2 hcap)).symm
  | case2 a =>
    have ha := a.isLt
    have hzero : (0 : Octet).toNat = 0 := rfl
    have hfirst := @denotes_b64Char (a.toNat / 4) (by omega)
    have hsecond := @denotes_b64Char (a.toNat % 4 * 16) (by omega)
    have hv := quantum_four hfirst.getD hsecond.getD getD_pad getD_pad
    have hq : ((a.toNat / 4 * 64 + a.toNat % 4 * 16) * 64 + 0) * 64 + 0 =
        a.toNat * 65536 + (0 : Octet).toNat * 256 + (0 : Octet).toNat := by omega
    have hemit : b64Emit _ 2 cap out =
        if cap < out.length + [a].length then .error .tooLong else .ok (out ++ [a]) :=
      b64Emit_clear (hv.trans hq) (fun h ↦ absurd h (by decide)) (fun _ ↦ by omega)
        (by rw [quantumOctets_eq]; rfl)
    rw [b64Encode, b64Loop_groupPads hfirst hsecond, hemit]
    by_cases hfits : cap < out.length + [a].length
    · rw [if_pos hfits]
    · rw [if_neg hfits]
      rfl
  | case3 a b =>
    have ha := a.isLt
    have hb := b.isLt
    have hzero : (0 : Octet).toNat = 0 := rfl
    have hfirst := @denotes_b64Char (a.toNat / 4) (by omega)
    have hsecond := @denotes_b64Char (a.toNat % 4 * 16 + b.toNat / 16) (by omega)
    have hthird := @denotes_b64Char (b.toNat % 16 * 4) (by omega)
    have hv := quantum_four hfirst.getD hsecond.getD hthird.getD getD_pad
    have hq : ((a.toNat / 4 * 64 + (a.toNat % 4 * 16 + b.toNat / 16)) * 64 +
        b.toNat % 16 * 4) * 64 + 0 = a.toNat * 65536 + b.toNat * 256 + (0 : Octet).toNat := by omega
    have hemit : b64Emit _ 1 cap out =
        if cap < out.length + [a, b].length then .error .tooLong else .ok (out ++ [a, b]) :=
      b64Emit_clear (hv.trans hq) (fun _ ↦ by omega) (fun h ↦ absurd h (by decide))
        (by rw [quantumOctets_eq]; rfl)
    rw [b64Encode, b64Loop_groupPad hfirst hsecond hthird, hemit]
    by_cases hfits : cap < out.length + [a, b].length
    · rw [if_pos hfits]
    · rw [if_neg hfits]
      rfl
  | case4 a b c rest ih =>
    have ha := a.isLt
    have hb := b.isLt
    have hc := c.isLt
    have hfirst := @denotes_b64Char (a.toNat / 4) (by omega)
    have hsecond := @denotes_b64Char (a.toNat % 4 * 16 + b.toNat / 16) (by omega)
    have hthird := @denotes_b64Char (b.toNat % 16 * 4 + c.toNat / 64) (by omega)
    have hfourth := @denotes_b64Char (c.toNat % 64) (by omega)
    have hv := quantum_four hfirst.getD hsecond.getD hthird.getD hfourth.getD
    have hq : ((a.toNat / 4 * 64 + (a.toNat % 4 * 16 + b.toNat / 16)) * 64 +
        (b.toNat % 16 * 4 + c.toNat / 64)) * 64 + c.toNat % 64 =
          a.toNat * 65536 + b.toNat * 256 + c.toNat := by omega
    have hemit : b64Emit _ 0 cap out =
        if cap < out.length + [a, b, c].length then .error .tooLong else .ok (out ++ [a, b, c]) :=
      b64Emit_clear (hv.trans hq) (fun h ↦ absurd h (by decide))
        (fun h ↦ absurd h (by decide)) (by rw [quantumOctets_eq]; rfl)
    rw [b64Encode, b64Loop_group hfirst hsecond hthird hfourth, hemit]
    have hwhole : (a :: b :: c :: rest).length = [a, b, c].length + rest.length := by
      simp only [length_cons, length_nil]
      omega
    by_cases hfits : cap < out.length + [a, b, c].length
    · rw [if_pos hfits]
      exact (if_pos (by omega)).symm
    · rw [if_neg hfits]
      have hnext := ih (out ++ [a, b, c]) (by rw [length_append]; omega)
      rw [length_append, append_assoc, add_assoc, ← hwhole] at hnext
      exact hnext

theorem b64Encode_octets {v₀ v₁ v₂ v₃ : ℕ} (h₀ : v₀ < 64) (h₁ : v₁ < 64) (h₂ : v₂ < 64)
    (h₃ : v₃ < 64) (rest : List Octet) :
    b64Encode (quantumOctets (((v₀ * 64 + v₁) * 64 + v₂) * 64 + v₃) ++ rest) =
      b64Char v₀ :: b64Char v₁ :: b64Char v₂ :: b64Char v₃ :: b64Encode rest := by
  have hfirst : (((v₀ * 64 + v₁) * 64 + v₂) * 64 + v₃) / 65536 % 2 ^ 8 / 4 = v₀ := by omega
  have hsecond : (((v₀ * 64 + v₁) * 64 + v₂) * 64 + v₃) / 65536 % 2 ^ 8 % 4 * 16 +
      (((v₀ * 64 + v₁) * 64 + v₂) * 64 + v₃) / 256 % 2 ^ 8 / 16 = v₁ := by omega
  have hthird : (((v₀ * 64 + v₁) * 64 + v₂) * 64 + v₃) / 256 % 2 ^ 8 % 16 * 4 +
      (((v₀ * 64 + v₁) * 64 + v₂) * 64 + v₃) % 2 ^ 8 / 64 = v₂ := by omega
  have hfourth : (((v₀ * 64 + v₁) * 64 + v₂) * 64 + v₃) % 2 ^ 8 % 64 = v₃ := by omega
  simp only [quantumOctets, cons_append, nil_append, b64Encode, toNat_ofNat,
    hfirst, hsecond, hthird, hfourth]

theorem b64Encode_octets_one {v₀ v₁ : ℕ} (h₀ : v₀ < 64) (h₁ : v₁ < 64)
    (hclear : ((v₀ * 64 + v₁) * 64 + 0) * 64 % 65536 = 0) :
    b64Encode ((quantumOctets (((v₀ * 64 + v₁) * 64 + 0) * 64 + 0)).take 1) =
      [b64Char v₀, b64Char v₁, 0x3d, 0x3d] := by
  have hfirst : (((v₀ * 64 + v₁) * 64 + 0) * 64 + 0) / 65536 % 2 ^ 8 / 4 = v₀ := by omega
  have hsecond : (((v₀ * 64 + v₁) * 64 + 0) * 64 + 0) / 65536 % 2 ^ 8 % 4 * 16 = v₁ := by omega
  rw [quantumOctets, take_succ_cons, take_zero, b64Encode, toNat_ofNat, hfirst, hsecond]

theorem b64Encode_octets_two {v₀ v₁ v₂ : ℕ} (h₀ : v₀ < 64) (h₁ : v₁ < 64) (h₂ : v₂ < 64)
    (hclear : ((v₀ * 64 + v₁) * 64 + v₂) * 64 % 256 = 0) :
    b64Encode ((quantumOctets (((v₀ * 64 + v₁) * 64 + v₂) * 64 + 0)).take 2) =
      [b64Char v₀, b64Char v₁, b64Char v₂, 0x3d] := by
  have hfirst : (((v₀ * 64 + v₁) * 64 + v₂) * 64 + 0) / 65536 % 2 ^ 8 / 4 = v₀ := by omega
  have hsecond : (((v₀ * 64 + v₁) * 64 + v₂) * 64 + 0) / 65536 % 2 ^ 8 % 4 * 16 +
      (((v₀ * 64 + v₁) * 64 + v₂) * 64 + 0) / 256 % 2 ^ 8 / 16 = v₁ := by omega
  have hthird : (((v₀ * 64 + v₁) * 64 + v₂) * 64 + 0) / 256 % 2 ^ 8 % 16 * 4 = v₂ := by omega
  rw [quantumOctets, take_succ_cons, take_succ_cons, take_zero, b64Encode,
    toNat_ofNat, toNat_ofNat, hfirst, hsecond, hthird]

/-- A quantum with its result, and what is left of the text after it. -/
theorem emit_then {k : ℕ} (h : (match b64Emit grp pad cap out with
      | .error e => .error e
      | .ok out => b64Loop cap rest [] k out) = Except.ok r) :
    ∃ next, b64Emit grp pad cap out = .ok next ∧ b64Loop cap rest [] k next = .ok r := by
  split at h
  case h_1 => cases h
  case h_2 next hemit => exact ⟨next, hemit, h⟩

theorem b64Loop_padded_early (hws : ∀ c ∈ rest, isWs c = false) (hgrp : grp.length < 2) :
    b64Loop cap rest (grp ++ [0x3d]) 1 out ≠ .ok r := by
  intro h
  cases rest with
  | nil => exact append_ne_nil_of_right_ne_nil _ (cons_ne_nil _ _) (b64Loop_nil_ok h).1
  | cons c rest =>
    obtain ⟨hc, hrest⟩ := isWs_head hws
    rcases b64Loop_cons_ok hc h with ⟨rfl, -⟩ | ⟨hzero, -⟩
    · rw [b64Loop_pad (by decide) (by rw [length_append, length_singleton]; omega)] at h
      have hnil := (b64Loop_padded_twice hrest h).2.1
      exact append_ne_nil_of_right_ne_nil _ (cons_ne_nil _ _) hnil
    · exact absurd hzero (by decide)

section Accepted

variable {v₀ v₁ v₂ v₃ : ℕ}

/-- Padding in the third place: one octet, and the text is over. -/
theorem b64Loop_ok_one (h₀ : Denotes (b64Char v₀) v₀) (h₁ : Denotes (b64Char v₁) v₁)
    (hlt₀ : v₀ < 64) (hlt₁ : v₁ < 64) (hws : ∀ c ∈ rest, isWs c = false)
    (h : b64Loop cap rest [b64Char v₀, b64Char v₁, 0x3d] 1 out = .ok r) :
    ∃ data, b64Char v₀ :: b64Char v₁ :: 0x3d :: rest = b64Encode data ∧ r = out ++ data := by
  cases rest with
  | nil => exact absurd (b64Loop_nil_ok h).1 (cons_ne_nil _ _)
  | cons c rest =>
    obtain ⟨hc, hrest⟩ := isWs_head hws
    rcases b64Loop_cons_ok hc h with ⟨rfl, -⟩ | ⟨hzero, -⟩
    case inr => exact absurd hzero (by decide)
    rw [b64Loop_padLast (by decide) rfl] at h
    obtain ⟨next, hemit, hnext⟩ := emit_then h
    obtain ⟨rfl, rfl⟩ := b64Loop_padded hrest (by decide) hnext
    obtain ⟨-, hclear, rfl⟩ := b64Emit_ok hemit
    have hquantum : quantum ([b64Char v₀, b64Char v₁, 0x3d] ++ [0x3d]) = _ :=
      quantum_four h₀.getD h₁.getD getD_pad getD_pad
    rw [hquantum] at hclear ⊢
    exact ⟨_, (b64Encode_octets_one hlt₀ hlt₁ (hclear rfl)).symm, rfl⟩

/-- Padding in the fourth place: two octets, and the text is over. -/
theorem b64Loop_ok_two (h₀ : Denotes (b64Char v₀) v₀) (h₁ : Denotes (b64Char v₁) v₁)
    (h₂ : Denotes (b64Char v₂) v₂) (hlt₀ : v₀ < 64) (hlt₁ : v₁ < 64) (hlt₂ : v₂ < 64)
    (hws : ∀ c ∈ rest, isWs c = false)
    (h : b64Loop cap (0x3d :: rest) [b64Char v₀, b64Char v₁, b64Char v₂] 0 out = .ok r) :
    ∃ data, b64Char v₀ :: b64Char v₁ :: b64Char v₂ :: 0x3d :: rest = b64Encode data ∧
      r = out ++ data := by
  rw [b64Loop_padLast (by decide) rfl] at h
  obtain ⟨next, hemit, hnext⟩ := emit_then h
  obtain ⟨rfl, rfl⟩ := b64Loop_padded hws (by decide) hnext
  obtain ⟨hclear, -, rfl⟩ := b64Emit_ok hemit
  have hquantum : quantum ([b64Char v₀, b64Char v₁, b64Char v₂] ++ [0x3d]) = _ :=
    quantum_four h₀.getD h₁.getD h₂.getD getD_pad
  rw [hquantum] at hclear ⊢
  exact ⟨_, (b64Encode_octets_two hlt₀ hlt₁ hlt₂ (hclear rfl)).symm, rfl⟩

end Accepted

theorem b64Loop_ok (n : ℕ) : ∀ text out : List Octet, text.length ≤ n →
    (∀ c ∈ text, isWs c = false) → b64Loop cap text [] 0 out = .ok r →
    ∃ data, text = b64Encode data ∧ r = out ++ data := by
  induction n with
  | zero =>
    intro text out hlength _ h
    obtain rfl := eq_nil_of_length_eq_zero (Nat.le_zero.1 hlength)
    exact ⟨[], rfl, by rw [(b64Loop_nil_ok h).2, append_nil]⟩
  | succ n ih =>
    intro text out hlength hws h
    cases text with
    | nil => exact ⟨[], rfl, by rw [(b64Loop_nil_ok h).2, append_nil]⟩
    | cons c₀ text =>
    obtain ⟨hc₀, hws₁⟩ := isWs_head hws
    rcases b64Loop_cons_ok hc₀ h with ⟨rfl, -⟩ | ⟨-, v₀, h₀, hlt₀, rfl⟩
    · rw [b64Loop_pad (by decide) (by decide)] at h
      exact absurd h (b64Loop_padded_early hws₁ (by decide))
    rw [b64Loop_take h₀ (by decide)] at h
    cases text with
    | nil => exact absurd (b64Loop_nil_ok h).1 (cons_ne_nil _ _)
    | cons c₁ text =>
    obtain ⟨hc₁, hws₂⟩ := isWs_head hws₁
    rcases b64Loop_cons_ok hc₁ h with ⟨rfl, -⟩ | ⟨-, v₁, h₁, hlt₁, rfl⟩
    · rw [b64Loop_pad (by decide) (by simp)] at h
      exact absurd h (b64Loop_padded_early hws₂ (Nat.lt_succ_self 1))
    rw [b64Loop_take h₁ (by simp)] at h
    cases text with
    | nil => exact absurd (b64Loop_nil_ok h).1 (cons_ne_nil _ _)
    | cons c₂ text =>
    obtain ⟨hc₂, hws₃⟩ := isWs_head hws₂
    rcases b64Loop_cons_ok hc₂ h with ⟨rfl, -⟩ | ⟨-, v₂, h₂, hlt₂, rfl⟩
    · rw [b64Loop_pad (by decide) (by simp)] at h
      exact b64Loop_ok_one h₀ h₁ hlt₀ hlt₁ hws₃ h
    rw [b64Loop_take h₂ (by simp)] at h
    cases text with
    | nil => exact absurd (b64Loop_nil_ok h).1 (cons_ne_nil _ _)
    | cons c₃ text =>
    obtain ⟨hc₃, hws₄⟩ := isWs_head hws₃
    rcases b64Loop_cons_ok hc₃ h with ⟨rfl, -⟩ | ⟨-, v₃, h₃, hlt₃, rfl⟩
    · exact b64Loop_ok_two h₀ h₁ h₂ hlt₀ hlt₁ hlt₂ hws₄ h
    rw [b64Loop_last h₃ rfl] at h
    obtain ⟨next, hemit, hrest⟩ := emit_then h
    obtain ⟨-, -, rfl⟩ := b64Emit_ok hemit
    simp only [length_cons] at hlength
    obtain ⟨data, rfl, rfl⟩ := ih text _ (by omega) hws₄ hrest
    have hquantum : quantum ([b64Char v₀, b64Char v₁, b64Char v₂] ++ [b64Char v₃]) = _ :=
      quantum_four h₀.getD h₁.getD h₂.getD h₃.getD
    refine ⟨quantumOctets (quantum ([b64Char v₀, b64Char v₁, b64Char v₂] ++ [b64Char v₃])) ++ data,
      ?_, append_assoc _ _ _⟩
    rw [hquantum]
    exact (b64Encode_octets hlt₀ hlt₁ hlt₂ hlt₃ data).symm

theorem isSome_b64Char {v : ℕ} (h : v < 64) : (b64Val (b64Char v)).isSome = true := by
  rw [(denotes_b64Char h).1]
  rfl

theorem countP_b64Encode (data : List Octet) :
    (b64Encode data).countP (fun c ↦ (b64Val c).isSome) = (4 * data.length + 2) / 3 := by
  have hpad : (b64Val 0x3d).isSome = false := by decide
  induction data using b64Encode.induct with
  | case1 => rfl
  | case2 a =>
    have ha := a.isLt
    simp only [b64Encode, countP_cons, countP_nil, hpad,
      @isSome_b64Char (a.toNat / 4) (by omega), @isSome_b64Char (a.toNat % 4 * 16) (by omega),
      Bool.false_eq_true, if_true, if_false, length_cons, length_nil]
  | case3 a b =>
    have ha := a.isLt
    have hb := b.isLt
    simp only [b64Encode, countP_cons, countP_nil, hpad, @isSome_b64Char (a.toNat / 4) (by omega),
      @isSome_b64Char (a.toNat % 4 * 16 + b.toNat / 16) (by omega),
      @isSome_b64Char (b.toNat % 16 * 4) (by omega), Bool.false_eq_true, if_true, if_false,
      length_cons, length_nil]
  | case4 a b c rest ih =>
    have ha := a.isLt
    have hb := b.isLt
    have hc := c.isLt
    simp only [b64Encode, countP_cons, ih, length_cons, if_true,
      @isSome_b64Char (a.toNat / 4) (by omega),
      @isSome_b64Char (a.toNat % 4 * 16 + b.toNat / 16) (by omega),
      @isSome_b64Char (b.toNat % 16 * 4 + c.toNat / 64) (by omega),
      @isSome_b64Char (c.toNat % 64) (by omega)]
    omega

theorem countP_compact (text : List Octet) : (compact text).countP (fun c ↦ (b64Val c).isSome) =
      text.countP fun c ↦ (b64Val c).isSome := by
  rw [compact, countP_filter]
  refine countP_congr fun c _ ↦ ?_
  simp only [Bool.and_eq_true, Bool.not_eq_true']
  refine and_iff_left_of_imp fun hsome ↦ ?_
  obtain ⟨v, hv⟩ := Option.isSome_iff_exists.1 hsome
  exact (denotes_of_b64Val hv).1.2.2

theorem isWs_compact (text : List Octet) : ∀ c ∈ compact text, isWs c = false := by
  intro c hmem
  have hkept := (mem_filter.1 hmem).2
  simpa using hkept

/-- The decoder and the standard encoding are inverse to each other up to white space, and the
size is told from the text. -/
theorem vmfwBase64Decode_oneToOne (text data : List Octet) (cap : ℕ) :
    (compact text = b64Encode data →
      vmfwBase64Decode text cap = if data.length ≤ cap then .ok data else .error .tooLong) ∧
    (vmfwBase64Decode text cap = .ok data →
      compact text = b64Encode data ∧ vmfwBase64DecodedSize text = data.length) := by
  rw [vmfwBase64Decode, b64Loop_compact]
  constructor
  · intro htext
    rw [htext, b64Loop_encode data [] (Nat.zero_le _), length_nil, zero_add]
    by_cases hfits : data.length ≤ cap
    · rw [if_neg (Nat.not_lt.2 hfits), if_pos hfits]
      rfl
    · rw [if_pos (Nat.lt_of_not_le hfits), if_neg hfits]
  · intro h
    obtain ⟨data', htext, hdata⟩ := b64Loop_ok _ (compact text) [] le_rfl (isWs_compact text) h
    obtain rfl : data = data' := hdata
    refine ⟨htext, ?_⟩
    rw [vmfwBase64DecodedSize, ← countP_compact, htext, countP_b64Encode]
    omega

/-- The text "TWE= " with a line break in it. -/
theorem vmfwBase64Decode_oneToOne_broken :
    vmfwBase64Decode [0x54, 0x57, 0x0a, 0x45, 0x3d, 0x20] 2 = .ok [0x4d, 0x61] ∧
      compact [0x54, 0x57, 0x0a, 0x45, 0x3d, 0x20] = b64Encode [0x4d, 0x61] ∧
      vmfwBase64DecodedSize [0x54, 0x57, 0x0a, 0x45, 0x3d, 0x20] = 2 :=
  have hdecoded := (vmfwBase64Decode_oneToOne [0x54, 0x57, 0x0a, 0x45, 0x3d, 0x20] [0x4d, 0x61] 2).1
    (by decide +kernel)
  ⟨hdecoded, (vmfwBase64Decode_oneToOne _ _ 2).2 hdecoded⟩

end S5LBox.Firmware
