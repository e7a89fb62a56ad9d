import Portlyn.Store.StoredSecrets

/-! # Rotation of the data key (`security_rotation.go`, `data_crypto.go`)

The active key encrypts and the legacy keys are tried for decryption. The handlers walk the DNS
providers: one counts the configurations that the active key does not decrypt, the other encrypts
them anew. The settings, the webhooks and the certificates hold values under the same keys, which
neither of them looks at. -/
namespace Portlyn.Http
open Go Lib Secureconfig Store Acme
set_option autoImplicit false

/-! ## Keys -/

/-- The keys of the configuration. `config.Load` trims the active one. -/
structure DataKeys where
  dataEncryptionSecret : GoString
  dataEncryptionLegacySecrets : List GoString
  trimmed : trimSpace dataEncryptionSecret = dataEncryptionSecret

namespace DataKeys

/-- `DataEncryptionSecrets`. -/
def secrets (keys : DataKeys) : List GoString :=
  (if trimSpace keys.dataEncryptionSecret ≠ [] then [trimSpace keys.dataEncryptionSecret] else []) ++
    (keys.dataEncryptionLegacySecrets.map trimSpace).filter (· ≠ [])

def withoutLegacy (keys : DataKeys) : DataKeys := { keys with dataEncryptionLegacySecrets := [] }

theorem secrets_cases (keys : DataKeys) :
    keys.dataEncryptionSecret = [] ∧ keys.withoutLegacy.secrets = [] ∨
      keys.dataEncryptionSecret ≠ [] ∧ keys.withoutLegacy.secrets = [keys.dataEncryptionSecret] ∧
        ∃ legacy, keys.secrets = keys.dataEncryptionSecret :: legacy := by
  have htrim := keys.trimmed
  by_cases hactive : keys.dataEncryptionSecret = []
  · left
    refine ⟨hactive, ?_⟩
    rw [secrets, withoutLegacy, if_neg]
    · rfl
    · rw [htrim]
      exact not_not_intro hactive
  · right
    refine ⟨hactive, ?_, (keys.dataEncryptionLegacySecrets.map trimSpace).filter (· ≠ []), ?_⟩
    · rw [secrets, withoutLegacy, if_pos]
      · exact congrArg (· :: []) htrim
      · rw [htrim]
        exact hactive
    · rw [secrets, if_pos]
      · rw [htrim]
        rfl
      · rw [htrim]
        exact hactive

end DataKeys

/-! ## DNS providers -/

structure DNSProvider where
  name : GoString
  configEncrypted : GoString
deriving DecidableEq

def listDNSProviders (providers : Table DNSProvider) : List (ℕ × DNSProvider) :=
  providers.rows.insertionSort fun a b => bytesLE a.2.name b.2.name = true

section Handlers
variable [Aead]

def dataEncryptJSON (keys : DataKeys) (fresh : Option Entropy) (value : StringMap) : Except SecretErr GoString :=
  encryptJSONV2 fresh keys.dataEncryptionSecret value

def dataDecryptJSON (keys : DataKeys) (value : GoString) : Except SecretErr StringMap :=
  decryptJSONAuto keys.secrets value

def dataDecryptJSONWithActiveKey (keys : DataKeys) (value : GoString) : Except SecretErr StringMap :=
  decryptJSONAuto [keys.dataEncryptionSecret] value

def isCurrent (keys : DataKeys) (value : GoString) : Bool :=
  isEncryptedJSONLatest value && (dataDecryptJSONWithActiveKey keys value).isOk

/-! ## The status -/

structure RotationStatus where
  legacyKeysConfigured : ℕ
  dnsProviderTotal : ℕ
  reEncryptCandidates : ℕ
  decryptFailures : ℕ
deriving DecidableEq

def handleRotationStatus (keys : DataKeys) (ok : Bool) (providers : Table DNSProvider) : Option RotationStatus :=
  if ok then
    let items := listDNSProviders providers
    let old := items.filter fun item => trimSpace item.2.configEncrypted ≠ [] && !isCurrent keys item.2.configEncrypted
    some {
      legacyKeysConfigured := keys.secrets.length - 1
      dnsProviderTotal := items.length
      reEncryptCandidates := old.countP fun item => (dataDecryptJSON keys item.2.configEncrypted).isOk
      decryptFailures := old.countP fun item => !(dataDecryptJSON keys item.2.configEncrypted).isOk }
  else none

/-! ## The run -/

structure ReencryptReport where
  processed : ℕ
  updated : ℕ
  skipped : ℕ
  failures : ℕ
  failedIDs : List ℕ
deriving DecidableEq

/-- What one turn of the loop depends on: the randomness, and whether the provider can be saved. -/
structure ReencryptChance where
  fresh : Option Entropy
  saved : Bool

/-- One turn of the loop of `handleReencryptDataKey`. -/
def reencryptItem (keys : DataKeys) (dryRun : Bool) (chance : ℕ → ReencryptChance)
    (state : ReencryptReport × Table DNSProvider)
    (item : ℕ × DNSProvider) : ReencryptReport × Table DNSProvider :=
  let (report, providers) := state
  let value := item.2.configEncrypted
  let failed := { report with
    processed := report.processed + 1, failures := report.failures + 1, failedIDs := report.failedIDs ++ [item.1] }
  let done := { report with processed := report.processed + 1, updated := report.updated + 1 }
  if trimSpace value = [] then ({ report with skipped := report.skipped + 1 }, providers)
  else if isCurrent keys value then
    ({ report with processed := report.processed + 1, skipped := report.skipped + 1 }, providers)
  else
    match dataDecryptJSON keys value with
    | .error _ => (failed, providers)
    | .ok config =>
      if dryRun then (done, providers)
      else
        match dataEncryptJSON keys (chance item.1).fresh config with
        | .error _ => (failed, providers)
        | .ok encrypted =>
          if (chance item.1).saved then
            (done, providers.update (fun id _ => id = item.1) fun _ => { item.2 with configEncrypted := encrypted })
          else (failed, providers)

/-- The loop of `handleReencryptDataKey`, with the rows that it leaves. At most twenty of the failed
providers are named. -/
def reencryptDataKey (keys : DataKeys) (ok dryRun : Bool) (chance : ℕ → ReencryptChance)
    (providers : Table DNSProvider) :
    Option ReencryptReport × Table DNSProvider :=
  if ok then
    let (report, providers) := (listDNSProviders providers).foldl
      (reencryptItem keys dryRun chance) (⟨0, 0, 0, 0, []⟩, providers)
    (some { report with failedIDs := report.failedIDs.take 20 }, providers)
  else (none, providers)

/-- `handleReencryptDataKey`, with the flag in the body of the request and the one in its query,
which replaces it. -/
def handleReencryptDataKey [UnicodeTables] (keys : DataKeys) (ok body : Bool) (query : GoString)
    (chance : ℕ → ReencryptChance)
    (providers : Table DNSProvider) : Option ReencryptReport × Table DNSProvider :=
  let query := trimSpace query
  let dryRun := if query ≠ [] then equalFold query (str "true") || query = [0x31] else body
  reencryptDataKey keys ok dryRun chance providers

/-! ## The active key alone -/

theorem dataDecryptJSONWithActiveKey_eq (keys : DataKeys) (value : GoString) :
    dataDecryptJSONWithActiveKey keys value = decryptJSONAuto keys.withoutLegacy.secrets value := by
  rcases keys.secrets_cases with ⟨hactive, hsecrets⟩ | ⟨-, hsecrets, -⟩
  · -- an empty key is skipped, as if there were none
    have hskip : ∀ decrypt : GoString → Except SecretErr GoString, trySecrets decrypt none [[]] =
      trySecrets decrypt none [] :=
      fun decrypt => rfl
    rw [dataDecryptJSONWithActiveKey, hsecrets, hactive]
    simp only [decryptJSONAuto, decryptStringV2WithSecrets, decryptStringWithSecrets, hskip]
  · rw [dataDecryptJSONWithActiveKey, hsecrets]

theorem decryptJSONAuto_blank (secrets : List GoString) {value : GoString}
    (h : trimSpace value = []) : decryptJSONAuto secrets value = .ok [] := by
  exact if_pos h

theorem current_of_status {keys : DataKeys} {ok : Bool} {providers : Table DNSProvider}
    {status : RotationStatus} (h : handleRotationStatus keys ok providers = some status)
    (hcandidates : status.reEncryptCandidates = 0) (hfailures : status.decryptFailures = 0) {id : ℕ}
    {item : DNSProvider} (hget : providers.get id = some item) :
    trimSpace item.configEncrypted = [] ∨ isCurrent keys item.configEncrypted = true := by
  rw [handleRotationStatus] at h
  split at h
  · cases h
    rw [List.countP_eq_zero] at hcandidates hfailures
    by_contra hneither
    rw [not_or, Bool.not_eq_true] at hneither
    have hlisted : (id, item) ∈ listDNSProviders providers :=
      (List.mem_insertionSort _).mpr (Table.get_eq_some.mp hget)
    have hold : (id, item) ∈ (listDNSProviders providers).filter fun item =>
        trimSpace item.2.configEncrypted ≠ [] && !isCurrent keys item.2.configEncrypted := by
      refine List.mem_filter.mpr ⟨hlisted, ?_⟩
      rw [hneither.2, decide_eq_true hneither.1]
      rfl
    have hnot := hfailures _ hold
    rw [Bool.not_eq_true', Bool.not_eq_false] at hnot
    exact hcandidates _ hold hnot
  · cases h

theorem isOk_of_current {keys : DataKeys} {value : GoString} (h : isCurrent keys value = true) :
    (decryptJSONAuto keys.withoutLegacy.secrets value).isOk = true := by
  rw [isCurrent, Bool.and_eq_true, dataDecryptJSONWithActiveKey_eq] at h
  exact h.2

end Handlers

/-! ## Everything that is encrypted -/

structure StoredTLSCertificate where
  domain : GoString
  privateKey : GoString

structure EncryptedData where
  dnsProviders : Table DNSProvider
  settings : Option AppSettings
  webhooks : Table AuditWebhook
  certificates : Table StoredTLSCertificate
  files : KVTable

section Rotation
variable [Aead]

def Readable (secrets : List GoString) (value : GoString) : Prop :=
  isEncryptedValue value = true → (decryptStringAuto secrets value).isOk = true

instance decidableReadable (secrets : List GoString) (value : GoString) : Decidable (Readable secrets value) :=
  inferInstanceAs (Decidable (_ → _))

variable [UnicodeTables]

/-- The values of the tables that the rotation does not walk can be used with these secrets. -/
structure OthersDecrypt (secrets : List GoString) (data : EncryptedData) : Prop where
  settings : ∀ item ∈ data.settings, ∀ c ∈ secretColumns, Readable secrets (item.text c)
  webhooks : ∀ r ∈ data.webhooks.rows, Readable secrets r.2.secretEncrypted
  certificates : ∀ r ∈ data.certificates.rows, Readable secrets r.2.privateKey
  files : ∀ row ∈ data.files.rows, isCertMagicPrivateKeyPath row.key = true → Readable secrets row.value

structure AllDecrypt (secrets : List GoString) (data : EncryptedData) : Prop where
  dnsProviders : ∀ r ∈ data.dnsProviders.rows, (decryptJSONAuto secrets r.2.configEncrypted).isOk = true
  others : OthersDecrypt secrets data

/-- The documented procedure, from one database to the next: a run without failures, then a clean
status. -/
structure RotationRun (keys : DataKeys) (data data' : EncryptedData) (body : Bool)
    (query : GoString) (chance : ℕ → ReencryptChance)
    (report : ReencryptReport) (status : RotationStatus) : Prop where
  run : handleReencryptDataKey keys true body query chance data.dnsProviders = (some report, data'.dnsProviders)
  noFailures : report.failures = 0
  kept : data' = { data with dnsProviders := data'.dnsProviders }
  answered : handleRotationStatus keys true data'.dnsProviders = some status
  noCandidates : status.reEncryptCandidates = 0
  noDecryptFailures : status.decryptFailures = 0

/-- The active key alone decrypts everything after the rotation exactly if it already decrypted what
the rotation does not walk: the settings, the webhooks and the certificates. -/
theorem rotation_complete_iff {keys : DataKeys} {data data' : EncryptedData} {body : Bool}
    {query : GoString} {chance : ℕ → ReencryptChance} {report : ReencryptReport}
    {status : RotationStatus} (hrun : RotationRun keys data data' body query chance report status) :
    AllDecrypt keys.withoutLegacy.secrets data' ↔
      OthersDecrypt keys.withoutLegacy.secrets data := by
  have hothers : OthersDecrypt keys.withoutLegacy.secrets data' ↔ OthersDecrypt keys.withoutLegacy.secrets data := by
    rw [hrun.kept]
    exact ⟨fun h => ⟨h.settings, h.webhooks, h.certificates, h.files⟩,
      fun h => ⟨h.settings, h.webhooks, h.certificates, h.files⟩⟩
  refine ⟨fun h => hothers.mp h.others, fun h => ⟨fun r hr => ?_, hothers.mpr h⟩⟩
  have hget : data'.dnsProviders.get r.1 = some r.2 := Table.get_eq_some.mpr hr
  rcases current_of_status hrun.answered hrun.noCandidates hrun.noDecryptFailures hget with hblank | hcurrent
  · rw [decryptJSONAuto_blank _ hblank]
    rfl
  · exact isOk_of_current hcurrent

end Rotation

/-! ## A webhook under the old key -/

def rotatedKeys : DataKeys := ⟨str "new", [str "old"], by decide +kernel⟩

def sampleHook (secret : GoString) : AuditWebhook where
  name := str "chat"
  url := str "https://hooks.example.com"
  format := str "generic"
  secretEncrypted := @sealedTextV2 plainAead sampleEntropy secret (str "signing-secret")
  secretPreview := []
  eventTypes := []
  active := true
  lastFiredAt := none
  lastStatus := 0
  lastError := []

def sampleData (secret : GoString) : EncryptedData where
  dnsProviders := Table.empty.insert ⟨str "dns", @sealedTextV2 plainAead sampleEntropy (str "old")
    (str "\x7b\"api_token\":\"secret\"\x7d")⟩
  settings := none
  webhooks := Table.empty.insert (sampleHook secret)
  certificates := Table.empty
  files := KVTable.empty

def sampleRun (secret : GoString) : Option ReencryptReport × Table DNSProvider :=
  @handleReencryptDataKey plainAead asciiTables rotatedKeys true false []
    (fun _ => ⟨some sampleEntropy, true⟩) (sampleData secret).dnsProviders

def rotatedData (secret : GoString) : EncryptedData :=
  { sampleData secret with dnsProviders := (sampleRun secret).2 }

theorem sampleRotation {secret : GoString} (h : secret = str "new" ∨ secret = str "old") :
    @RotationRun plainAead asciiTables rotatedKeys (sampleData secret) (rotatedData secret) false []
      (fun _ => ⟨some sampleEntropy, true⟩) ⟨1, 1, 0, 0, []⟩ ⟨1, 1, 0, 0⟩ := by
  rcases h with rfl | rfl
  · apply @RotationRun.mk plainAead asciiTables
    · exact Prod.ext (by decide +kernel) rfl
    all_goals first | rfl | decide +kernel
  · apply @RotationRun.mk plainAead asciiTables
    · exact Prod.ext (by decide +kernel) rfl
    all_goals first | rfl | decide +kernel

theorem rotation_complete_sample :
    @AllDecrypt plainAead asciiTables rotatedKeys.withoutLegacy.secrets (rotatedData (str "new")) := by
  refine (@rotation_complete_iff plainAead asciiTables _ _ _ _ _ _ _ _ (sampleRotation (Or.inl rfl))).mpr ?_
  apply @OthersDecrypt.mk plainAead asciiTables
  · nofun
  all_goals decide +kernel

/-- The keys decrypt everything, the run and the status find nothing wrong, and the active key alone
does not decrypt the secret of the webhook. -/
theorem webhook_secret_lost :
    @AllDecrypt plainAead asciiTables rotatedKeys.secrets (sampleData (str "old")) ∧
    @RotationRun plainAead asciiTables rotatedKeys (sampleData (str "old")) (rotatedData (str "old")) false []
      (fun _ => ⟨some sampleEntropy, true⟩) ⟨1, 1, 0, 0, []⟩ ⟨1, 1, 0, 0⟩ ∧
    ¬ @AllDecrypt plainAead asciiTables rotatedKeys.withoutLegacy.secrets (rotatedData (str "old")) := by
  refine ⟨?_, sampleRotation (Or.inr rfl), fun h => ?_⟩
  · apply @AllDecrypt.mk plainAead asciiTables
    · decide +kernel
    · apply @OthersDecrypt.mk plainAead asciiTables
      · nofun
      all_goals decide +kernel
  · have hlost : ¬ ∀ r ∈ (rotatedData (str "old")).webhooks.rows,
        @Readable plainAead rotatedKeys.withoutLegacy.secrets r.2.secretEncrypted := by
      decide +kernel
    have hothers := @AllDecrypt.others plainAead asciiTables _ _ h
    exact hlost (@OthersDecrypt.webhooks plainAead asciiTables _ _ hothers)

end Portlyn.Http
