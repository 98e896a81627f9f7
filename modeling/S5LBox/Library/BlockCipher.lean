import Mathlib.Tactic

/-!
# Block ciphers

A cipher that runs a state through rounds is undone by the rounds in the other order, and a chain of
blocks, each mixed with the ciphertext before it, is undone block by block. Both hold whatever the
rounds and the mixing are, as long as single steps are undone.
-/

namespace BlockCipher

open List

variable {ι σ τ β : Type}

theorem foldl_reverse_cancel {forth : ι → σ → σ} {back : ι → τ → τ} {φ : σ → τ}
    (h : ∀ r s, back r (φ (forth r s)) = φ s) (rounds : List ι) (s : σ) :
    rounds.reverse.foldl (fun t r ↦ back r t) (φ (rounds.foldl (fun t r ↦ forth r t) s)) = φ s := by
  induction rounds generalizing s with
  | nil => rfl
  | cons r rounds ih =>
    rw [foldl_cons, reverse_cons, foldl_append, ih]
    exact h r s

section

variable (f g : β → β) (mix : β → β → β)

def chainEncrypt : β → List β → List β
  | _, [] => []
  | prev, m :: rest => f (mix m prev) :: chainEncrypt (f (mix m prev)) rest

def chainDecrypt : β → List β → List β
  | _, [] => []
  | prev, c :: rest => mix (g c) prev :: chainDecrypt c rest

end

variable {f g : β → β} {mix : β → β → β}

theorem chainDecrypt_chainEncrypt (hgf : ∀ b, g (f b) = b) (hmix : ∀ a b, mix (mix a b) b = a)
    (iv : β) (message : List β) :
    chainDecrypt g mix iv (chainEncrypt f mix iv message) = message := by
  induction message generalizing iv with
  | nil => rfl
  | cons m rest ih => rw [chainEncrypt, chainDecrypt, hgf, hmix, ih]

theorem chainEncrypt_chainDecrypt (hfg : ∀ b, f (g b) = b) (hmix : ∀ a b, mix (mix a b) b = a)
    (iv : β) (blocks : List β) : chainEncrypt f mix iv (chainDecrypt g mix iv blocks) = blocks := by
  induction blocks generalizing iv with
  | nil => rfl
  | cons c rest ih => rw [chainDecrypt, chainEncrypt, hmix, hfg, ih]

theorem chainDecrypt_append (iv : β) (first second : List β) :
    chainDecrypt g mix iv (first ++ second) =
      chainDecrypt g mix iv first ++ chainDecrypt g mix (first.getLastD iv) second := by
  induction first generalizing iv with
  | nil => rfl
  | cons c rest ih =>
    rw [cons_append, chainDecrypt, chainDecrypt, ih, cons_append, getLastD_cons]

@[simp] theorem length_chainEncrypt (iv : β) (message : List β) :
    (chainEncrypt f mix iv message).length = message.length := by
  induction message generalizing iv with
  | nil => rfl
  | cons m rest ih => rw [chainEncrypt, length_cons, length_cons, ih]

@[simp] theorem length_chainDecrypt (iv : β) (blocks : List β) :
    (chainDecrypt g mix iv blocks).length = blocks.length := by
  induction blocks generalizing iv with
  | nil => rfl
  | cons c rest ih => rw [chainDecrypt, length_cons, length_cons, ih]

end BlockCipher
