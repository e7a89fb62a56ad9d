import Portlyn.Go.Aead
import Portlyn.Go.StringMap

/-! # Package `secureconfig`

Encrypted values carry a prefix with the version of their format; values of the first format of DNS
provider configurations carry none. Whether a value is encrypted is told from its text. -/
namespace Portlyn.Secureconfig
open Go
set_option autoImplicit false

inductive SecretErr
  | random
  | notEncrypted
  | base64
  | tooShort
  | authentication
  | noSecrets
  | json
deriving DecidableEq

def encryptedPrefixV1 : GoString := str "enc:v1:"
def encryptedPrefixV2 : GoString := str "enc:v2:"

def argon2SaltLen : ℕ := 16
def nonceSize : ℕ := 12

/-- What `rand.Read` gives to one encryption. -/
structure Entropy where
  salt : GoString
  nonce : GoString
  salt_length : salt.length = argon2SaltLen
  nonce_length : nonce.length = nonceSize

def isEncryptedValueV1 (value : GoString) : Bool := hasPrefix (trimSpace value) encryptedPrefixV1
def isEncryptedValueV2 (value : GoString) : Bool := hasPrefix (trimSpace value) encryptedPrefixV2
def isEncryptedValue (value : GoString) : Bool := isEncryptedValueV1 value ||
    isEncryptedValueV2 value

theorem encryptedPrefix_notSpace :
    (∀ b ∈ encryptedPrefixV1, NotSpace b) ∧ ∀ b ∈ encryptedPrefixV2, NotSpace b := by
  decide +kernel

/-! ## Trying secrets -/

/-- The loops over the secrets: the first that decrypts counts, empty ones are skipped, and the last
error is kept. -/
def trySecrets (decrypt : GoString → Except SecretErr GoString) (lastErr : Option SecretErr) :
    List GoString → Except SecretErr GoString
  | [] => .error (lastErr.getD .noSecrets)
  | secret :: rest =>
    if secret = [] then trySecrets decrypt lastErr rest
    else
      match decrypt secret with
      | .ok out => .ok out
      | .error e => trySecrets decrypt (some e) rest

theorem trySecrets_eq_ok {decrypt : GoString → Except SecretErr GoString} {secrets : List GoString}
    {secret value : GoString} (hothers : ∀ other out, decrypt other = .ok out → out = value)
    (hsecret : decrypt secret = .ok value) (hmem : secret ∈ secrets) (hne : secret ≠ [])
    (lastErr : Option SecretErr) : trySecrets decrypt lastErr secrets = .ok value := by
  induction secrets generalizing lastErr with
  | nil => cases hmem
  | cons other rest ih =>
    rw [trySecrets]
    by_cases hempty : other = []
    · rw [if_pos hempty]
      exact ih ((List.mem_cons.mp hmem).resolve_left fun heq => hne (heq.trans hempty)) lastErr
    · rw [if_neg hempty]
      cases hother : decrypt other with
      | ok out =>
        rw [hothers other out hother]
      | error e =>
        refine ih ((List.mem_cons.mp hmem).resolve_left fun heq => ?_) (some e)
        rw [heq, hother] at hsecret
        cases hsecret

theorem exists_of_trySecrets {decrypt : GoString → Except SecretErr GoString}
    {secrets : List GoString} {out : GoString} {lastErr : Option SecretErr}
    (h : trySecrets decrypt lastErr secrets = .ok out) :
    ∃ secret ∈ secrets, decrypt secret = .ok out := by
  induction secrets generalizing lastErr with
  | nil => cases h
  | cons secret rest ih =>
    rw [trySecrets] at h
    split at h
    · obtain ⟨found, hmem, hfound⟩ := ih h
      exact ⟨found, List.mem_cons_of_mem _ hmem, hfound⟩
    · split at h
      · rename_i hok
        cases h
        exact ⟨secret, List.mem_cons_self, hok⟩
      · obtain ⟨found, hmem, hfound⟩ := ih h
        exact ⟨found, List.mem_cons_of_mem _ hmem, hfound⟩

section Values
variable [Aead]

/-! ## One secret -/

/-- The keys have the length that `aes.NewCipher` asks for, so that only `rand.Read` can fail. -/
def encryptStringV2 (fresh : Option Entropy) (secret value : GoString) :
    Except SecretErr GoString :=
  match fresh with
  | none => .error .random
  | some ⟨salt, nonce, _, _⟩ =>
    let ciphertext := Aead.sealBytes (Aead.argon2IDKey secret salt) nonce value
    .ok (encryptedPrefixV2 ++ Base64.encodeToString (salt ++ (nonce ++ ciphertext)))

def decryptStringV2 (secret value : GoString) : Except SecretErr GoString :=
  let trimmed := trimSpace value
  if isEncryptedValueV2 trimmed then
    match Base64.decodeString (trimmed.drop encryptedPrefixV2.length) with
    | none => .error .base64
    | some raw =>
      if raw.length < argon2SaltLen + nonceSize then .error .tooShort
      else
        let key := Aead.argon2IDKey secret (raw.take argon2SaltLen)
        match Aead.openBytes key ((raw.drop argon2SaltLen).take nonceSize) (raw.drop (argon2SaltLen + nonceSize)) with
        | none => .error .authentication
        | some plaintext => .ok plaintext
  else .error .notEncrypted

def decryptString (secret value : GoString) : Except SecretErr GoString :=
  match Base64.decodeString value with
  | none => .error .base64
  | some raw =>
    if raw.length < nonceSize then .error .tooShort
    else
      match Aead.openBytes (Aead.sha256 secret) (raw.take nonceSize) (raw.drop nonceSize) with
      | none => .error .authentication
      | some plaintext => .ok plaintext

/-! ## Lists of secrets -/

def decryptStringV2WithSecrets (secrets : List GoString) (value : GoString) :
    Except SecretErr GoString :=
  trySecrets (fun secret => decryptStringV2 secret value) none secrets

def decryptStringWithSecrets (secrets : List GoString) (value : GoString) :
    Except SecretErr GoString :=
  trySecrets (fun secret => decryptString secret value) none secrets

def decryptStringV1WithSecrets (secrets : List GoString) (value : GoString) :
    Except SecretErr GoString :=
  let trimmed := trimSpace value
  if isEncryptedValueV1 trimmed then
    decryptStringWithSecrets secrets (trimmed.drop encryptedPrefixV1.length)
  else .error .notEncrypted

def decryptStringAuto (secrets : List GoString) (value : GoString) : Except SecretErr GoString :=
  let trimmed := trimSpace value
  if isEncryptedValueV2 trimmed then decryptStringV2WithSecrets secrets trimmed
  else if isEncryptedValueV1 trimmed then decryptStringV1WithSecrets secrets trimmed
  else .error .notEncrypted

/-! ## Maps of strings -/

def encryptJSONV2 (fresh : Option Entropy) (secret : GoString) (value : StringMap) :
    Except SecretErr GoString :=
  encryptStringV2 fresh secret (value.marshal)

def isEncryptedJSONLatest (value : GoString) : Bool := isEncryptedValueV2 value

def decryptJSONAuto (secrets : List GoString) (value : GoString) : Except SecretErr StringMap :=
  let trimmed := trimSpace value
  if trimmed = [] then .ok []
  else
    match if isEncryptedValueV2 trimmed then decryptStringV2WithSecrets secrets trimmed
    else decryptStringWithSecrets secrets trimmed with
    | .error e => .error e
    | .ok plaintext =>
      match StringMap.unmarshal plaintext with
      | none => .error .json
      | some out => .ok out

/-! ## What is encrypted is decrypted again -/

/-- The text that `encryptStringV2` makes. -/
def sealedTextV2 (entropy : Entropy) (secret value : GoString) : GoString :=
  encryptedPrefixV2 ++ Base64.encodeToString
    (entropy.salt ++ (entropy.nonce ++ Aead.sealBytes (Aead.argon2IDKey secret entropy.salt) entropy.nonce value))

variable {secret value : GoString}

theorem encryptStringV2_eq_ok {fresh : Option Entropy} {text : GoString}
    (h : encryptStringV2 fresh secret value = .ok text) :
    ∃ entropy, fresh = some entropy ∧ text = sealedTextV2 entropy secret value := by
  cases fresh with
  | none => cases h
  | some entropy =>
    cases h
    exact ⟨entropy, rfl, rfl⟩

theorem trimSpace_sealedTextV2 (entropy : Entropy) (secret value : GoString) :
    trimSpace (sealedTextV2 entropy secret value) = sealedTextV2 entropy secret value := by
  refine trimSpace_eq_self_of_notSpace fun b hb => ?_
  rcases List.mem_append.mp hb with hb | hb
  · exact encryptedPrefix_notSpace.2 b hb
  · exact Base64.encodeToString_notSpace _ b hb

theorem isEncryptedValueV2_sealedTextV2 (entropy : Entropy) (secret value : GoString) :
    isEncryptedValueV2 (sealedTextV2 entropy secret value) = true := by
  rw [isEncryptedValueV2, trimSpace_sealedTextV2]
  exact List.isPrefixOf_iff_prefix.mpr (List.prefix_append _ _)

theorem isEncryptedValue_sealedTextV2 (entropy : Entropy) (secret value : GoString) :
    isEncryptedValue (sealedTextV2 entropy secret value) = true := by
  rw [isEncryptedValue, isEncryptedValueV2_sealedTextV2, Bool.or_true]

theorem decryptStringV2_sealedTextV2 (entropy : Entropy) (secret other value : GoString) :
    decryptStringV2 other (sealedTextV2 entropy secret value) =
      match Aead.openBytes (Aead.argon2IDKey other entropy.salt) entropy.nonce
        (Aead.sealBytes (Aead.argon2IDKey secret entropy.salt) entropy.nonce value) with
      | none => .error .authentication
      | some plaintext => .ok plaintext := by
  have henc := isEncryptedValueV2_sealedTextV2 entropy secret value
  have htrim := trimSpace_sealedTextV2 entropy secret value
  obtain ⟨salt, nonce, hsalt, hnonce⟩ := entropy
  have hdecoded : Base64.decodeString
      ((sealedTextV2 ⟨salt, nonce, hsalt, hnonce⟩ secret value).drop encryptedPrefixV2.length) =
      some (salt ++ (nonce ++ Aead.sealBytes (Aead.argon2IDKey secret salt) nonce value)) := by
    rw [sealedTextV2, List.drop_left, Base64.decodeString_encodeToString]
  have hlong : ¬ (salt ++
    (nonce ++ Aead.sealBytes (Aead.argon2IDKey secret salt) nonce value)).length < argon2SaltLen +
    nonceSize := by
    rw [List.length_append, List.length_append]
    omega
  have hafter : ∀ rest : GoString, (salt ++ (nonce ++ rest)).drop (argon2SaltLen + nonceSize) =
    rest := by
    intro rest
    rw [← List.drop_drop, ← hsalt, List.drop_left, ← hnonce, List.drop_left]
  rw [decryptStringV2]
  simp only [htrim, henc, if_true, hdecoded, hlong, if_false, hafter]
  rw [← hsalt, List.take_left, List.drop_left, ← hnonce, List.take_left]

theorem decryptStringAuto_sealedTextV2 {secrets : List GoString} (hmem : secret ∈ secrets)
    (hne : secret ≠ []) (entropy : Entropy) (value : GoString) :
    decryptStringAuto secrets (sealedTextV2 entropy secret value) = .ok value := by
  rw [decryptStringAuto, trimSpace_sealedTextV2]
  rw [if_pos (isEncryptedValueV2_sealedTextV2 entropy secret value)]
  refine trySecrets_eq_ok (fun other out hother => ?_) ?_ hmem hne none
  · rw [decryptStringV2_sealedTextV2] at hother
    split at hother
    · cases hother
    · rename_i plaintext hopen
      cases hother
      exact Aead.eq_of_open_seal hopen
  · rw [decryptStringV2_sealedTextV2, Aead.open_seal]

/-! ## No value is the encryption of itself -/

variable {plaintext : GoString}

theorem length_of_decryptString (h : decryptString secret value = .ok plaintext) :
    plaintext.length ≤ value.length := by
  rw [decryptString] at h
  split at h
  · cases h
  · rename_i raw hraw
    split at h
    · cases h
    · split at h
      · cases h
      · rename_i out hopen
        cases h
        have hopened := Aead.length_le_of_open hopen
        have hdecoded := Base64.length_decodeString hraw
        rw [List.length_drop] at hopened
        omega

theorem length_of_decryptStringV2 (h : decryptStringV2 secret value = .ok plaintext) :
    plaintext.length + encryptedPrefixV2.length ≤ (trimSpace value).length := by
  rw [decryptStringV2] at h
  dsimp only at h
  split at h
  · rename_i henc
    rw [isEncryptedValueV2, trimSpace_trimSpace] at henc
    have hpre := (List.isPrefixOf_iff_prefix.mp henc).length_le
    split at h
    · cases h
    · rename_i raw hraw
      split at h
      · cases h
      · split at h
        · cases h
        · rename_i out hopen
          cases h
          have hopened := Aead.length_le_of_open hopen
          have hdecoded := Base64.length_decodeString hraw
          rw [List.length_drop] at hopened hdecoded
          omega
  · cases h

theorem length_of_decryptStringAuto {secrets : List GoString}
    (h : decryptStringAuto secrets value = .ok plaintext) : plaintext.length < value.length := by
  have hpositive : 0 < encryptedPrefixV1.length ∧ 0 < encryptedPrefixV2.length := by decide +kernel
  have htrim := length_trimSpace_le value
  rw [decryptStringAuto] at h
  split at h
  · obtain ⟨secret, -, hsecret⟩ := exists_of_trySecrets h
    have hlength := length_of_decryptStringV2 hsecret
    rw [trimSpace_trimSpace] at hlength
    omega
  · split at h
    · rename_i henc
      rw [isEncryptedValueV1, trimSpace_trimSpace] at henc
      have hpre := (List.isPrefixOf_iff_prefix.mp henc).length_le
      rw [decryptStringV1WithSecrets, trimSpace_trimSpace] at h
      split at h
      · obtain ⟨secret, -, hsecret⟩ := exists_of_trySecrets h
        have hlength := length_of_decryptString hsecret
        rw [List.length_drop] at hlength
        omega
      · cases h
    · cases h

end Values
end Portlyn.Secureconfig
