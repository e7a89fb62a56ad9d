import Portlyn.Go.Base64

/-! # Authenticated encryption

AES-GCM and the functions that turn secrets into keys, as far as a program can rely on them: a
sealed text opens under its own key and nonce, to what was sealed, and what opens was sealed. -/
namespace Portlyn.Go
set_option autoImplicit false

class Aead where
  sha256 : GoString → GoString
  argon2IDKey : (secret salt : GoString) → GoString
  sealBytes : (key nonce plaintext : GoString) → GoString
  openBytes : (key nonce ciphertext : GoString) → Option GoString
  open_seal : ∀ key nonce plaintext, openBytes key nonce (sealBytes key nonce plaintext) =
    some plaintext
  seal_of_open : ∀ key nonce ciphertext plaintext,
    openBytes key nonce ciphertext = some plaintext → ciphertext = sealBytes key nonce plaintext
  key_of_seal : ∀ key key' nonce plaintext plaintext',
    sealBytes key nonce plaintext = sealBytes key' nonce plaintext' → key = key'
  length_le_seal : ∀ key nonce plaintext, plaintext.length ≤ (sealBytes key nonce plaintext).length

namespace Aead
variable [Aead]

theorem eq_of_open_seal {key key' nonce plaintext plaintext' : GoString}
    (h : openBytes key' nonce (sealBytes key nonce plaintext) = some plaintext') :
    plaintext' = plaintext := by
  have hseal := seal_of_open key' nonce _ plaintext' h
  obtain rfl := key_of_seal key key' nonce plaintext plaintext' hseal
  rw [open_seal, Option.some.injEq] at h
  exact h.symm

theorem length_le_of_open {key nonce ciphertext plaintext : GoString}
    (h : openBytes key nonce ciphertext = some plaintext) :
    plaintext.length ≤ ciphertext.length := by
  rw [seal_of_open key nonce ciphertext plaintext h]
  exact length_le_seal key nonce plaintext

end Aead

/-! ## A cipher to compute with

It keeps the laws and hides nothing: the key stands before the text, after its length in unary. -/

def plainHeader (key : GoString) : GoString := List.replicate key.length 1 ++ 0 :: key

theorem plainHeader_inj {key key' s s' : GoString}
    (h : plainHeader key ++ s = plainHeader key' ++ s') : key = key' := by
  have hlength : ∀ (n n' : ℕ) (t t' : GoString),
      List.replicate n 1 ++ 0 :: t = List.replicate n' 1 ++ 0 :: t' → n = n' ∧ t = t' := by
    intro n
    induction n with
    | zero =>
      intro n' t t' heq
      cases n' with
      | zero => exact ⟨rfl, List.tail_eq_of_cons_eq heq⟩
      | succ n' => exact absurd (List.head_eq_of_cons_eq heq) (by decide)
    | succ n ih =>
      intro n' t t' heq
      cases n' with
      | zero => exact absurd (List.head_eq_of_cons_eq heq) (by decide)
      | succ n' =>
        obtain ⟨hn, ht⟩ := ih n' t t' (List.tail_eq_of_cons_eq heq)
        exact ⟨congrArg _ hn, ht⟩
  rw [plainHeader, plainHeader, List.append_assoc, List.append_assoc] at h
  obtain ⟨hn, ht⟩ := hlength _ _ _ _ h
  exact (List.append_inj ht hn).1

@[reducible] def plainAead : Aead where
  sha256 := id
  argon2IDKey secret salt := secret ++ salt
  sealBytes key _ plaintext := plainHeader key ++ plaintext
  openBytes key _ ciphertext :=
    if (plainHeader key).isPrefixOf ciphertext then some (ciphertext.drop (plainHeader key).length) else none
  open_seal key _ plaintext := by
    have hpre : (plainHeader key).isPrefixOf (plainHeader key ++ plaintext) = true :=
      List.isPrefixOf_iff_prefix.mpr (List.prefix_append _ _)
    rw [if_pos hpre, List.drop_left]
  seal_of_open key _ ciphertext plaintext h := by
    split at h
    · rename_i hpre
      obtain ⟨rest, rfl⟩ := List.isPrefixOf_iff_prefix.mp hpre
      rw [List.drop_left, Option.some.injEq] at h
      rw [h]
    · cases h
  key_of_seal key key' _ plaintext plaintext' h := plainHeader_inj h
  length_le_seal key _ plaintext := by
    rw [List.length_append]
    exact Nat.le_add_left _ _

end Portlyn.Go
