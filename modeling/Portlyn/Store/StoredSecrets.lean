import Portlyn.Acme.Storage

/-! # What is read back of a stored secret

The settings, the webhooks and the storage of certmagic tell from the text of a value whether it is
encrypted. A value that only looks so is saved as it is: the settings and the file cannot be read
any more, while the secret of a webhook is handed out as it is stored. `secrets_read_back_iff` says
exactly which values are read back unchanged. -/
namespace Portlyn.Store
open Go Lib Secureconfig Acme
set_option autoImplicit false

/-- The secrets that are configured when a value is written and when it is read, after a rotation
maybe. The one that was in force then is still there. -/
structure SecretLists where
  written : List GoString
  reading : List GoString
  kept : ∀ secret ∈ (dataEncryptionBytes written).head?, secret ∈ dataEncryptionBytes reading

theorem secretColumns_withDefaults (item : AppSettings) {c : TextColumn} (hc : c ∈ secretColumns) :
    item.withDefaults.text c = item.text c := by
  simp only [secretColumns, List.mem_cons, List.not_mem_nil, or_false] at hc
  rcases hc with rfl | rfl | rfl | rfl <;> rfl

section ReadBack
variable [Aead] (lists : SecretLists)

def SettingsReadBack (item stored : AppSettings) : Prop :=
  ∃ settings, AppSettings.get (dataEncryptionBytes lists.reading) true (some stored) =
    .ok settings ∧
    ∀ c ∈ secretColumns, settings.text c = item.text c

def WebhookReadBack (item : AuditWebhook) (id : ℕ) (hooks : Table AuditWebhook) : Prop :=
  ∃ hook, getWebhookByID (dataEncryptionBytes lists.reading) id hooks = some hook ∧
    hook.secretEncrypted = item.secretEncrypted

def SecretLists.writer (dialect : Dialect) : CertMagicStorage :=
  ⟨dialect, dataEncryptionBytes lists.written⟩

def SecretLists.reader (dialect : Dialect) : CertMagicStorage :=
  ⟨dialect, dataEncryptionBytes lists.reading⟩

def FileReadBack [UnicodeTables] (dialect : Dialect) (key value : GoString) (t : KVTable) : Prop :=
  (lists.reader dialect).load true key t = .ok value

variable {lists}

/-! ## The settings -/

variable {secrets : List GoString}

theorem upsert_eq_ok {fresh : TextColumn → Option Entropy} {ok : Bool} {item stored : AppSettings}
    {row : Option AppSettings} (h : AppSettings.upsert secrets fresh ok item row = .ok stored) :
    ∀ c ∈ secretColumns, encryptText secrets (fresh c) (item.text c) = .ok (stored.text c) := by
  rw [AppSettings.upsert] at h
  split at h
  · cases h
  · rename_i encrypted hencrypted
    have hcolumns := (encryptSecretFields_eq_ok.mp hencrypted).1
    split at h
    · cases h
    · cases h
      intro c hc
      rw [secretColumns_withDefaults encrypted hc]
      exact hcolumns c hc
    · cases h
      exact hcolumns

theorem get_eq_ok {item settings : AppSettings} :
    AppSettings.get secrets true (some item) = .ok settings ↔ decryptSecretFields secrets item = .ok settings := by
  rw [AppSettings.get]
  split
  · rename_i e he
    rw [he]
    simp
  · rename_i decrypted hdecrypted
    rw [hdecrypted, Except.ok.injEq, Except.ok.injEq]

theorem settings_read_back {fresh : TextColumn → Option Entropy} {ok : Bool}
    {item stored : AppSettings} {row : Option AppSettings}
    (h : AppSettings.upsert (dataEncryptionBytes lists.written) fresh ok item row = .ok stored) :
    SettingsReadBack lists item stored ↔ ∀ c ∈ secretColumns, isEncryptedValue (item.text c) =
      false := by
  have hcolumns := upsert_eq_ok h
  constructor
  · rintro ⟨settings, hget, hsame⟩ c hc
    have hread := (decryptSecretFields_eq_ok.mp (get_eq_ok.mp hget)).1 c hc
    rw [hsame c hc] at hread
    exact (decryptText_encryptText_iff (hcolumns c hc) lists.kept).mp hread
  · intro hplain
    refine ⟨{ stored with text := fun c => if c ∈ secretColumns then item.text c else stored.text c },
      ?_, fun c hc => if_pos hc⟩
    refine get_eq_ok.mpr (decryptSecretFields_eq_ok.mpr ⟨fun c hc => ?_, fun c hc => if_neg hc, rfl, rfl, rfl⟩)
    dsimp only
    rw [if_pos hc]
    exact decryptText_encryptText (hcolumns c hc) lists.kept (hplain c hc)

/-! ## Webhooks -/

variable {item : AuditWebhook}

theorem decryptSecret_eq {value : GoString} :
    (decryptSecret secrets item).secretEncrypted = value ↔
      decryptText secrets item.secretEncrypted = .ok value ∨
        item.secretEncrypted = value ∧ ∀ plain, decryptText secrets item.secretEncrypted ≠ .ok plain := by
  rw [decryptSecret]
  cases decryptText secrets item.secretEncrypted with
  | error e => simp
  | ok plain => simp

variable {fresh : Option Entropy}

theorem secret_read_back {stored : AuditWebhook}
    (h : encryptSecret (dataEncryptionBytes lists.written) fresh item = .ok stored) :
    (decryptSecret (dataEncryptionBytes lists.reading) stored).secretEncrypted = item.secretEncrypted ↔
      isEncryptedValue item.secretEncrypted = false ∨
        ∀ plain, decryptStringAuto (dataEncryptionBytes lists.reading) item.secretEncrypted ≠ .ok plain := by
  rw [encryptSecret] at h
  split at h
  · cases h
  · rename_i text htext
    cases h
    rw [decryptSecret_eq]
    rw [decryptText_encryptText_iff htext lists.kept]
    refine or_congr_right' fun henc => ?_
    rw [Bool.not_eq_false] at henc
    rw [encryptText_encrypted htext henc, decryptText_encrypted henc]
    exact and_iff_right rfl

theorem webhook_read_back {stored : AuditWebhook} {id : ℕ} {hooks : Table AuditWebhook}
    (h : encryptSecret (dataEncryptionBytes lists.written) fresh item = .ok stored)
    (hrow : ∃ row, hooks.get id = some row ∧ row.secretEncrypted = stored.secretEncrypted) :
    WebhookReadBack lists item id hooks ↔
      isEncryptedValue item.secretEncrypted = false ∨
        ∀ plain, decryptStringAuto (dataEncryptionBytes lists.reading) item.secretEncrypted ≠ .ok plain := by
  obtain ⟨row, hget, hsecret⟩ := hrow
  have hsame : (decryptSecret (dataEncryptionBytes lists.reading) row).secretEncrypted =
      (decryptSecret (dataEncryptionBytes lists.reading) stored).secretEncrypted := by
    rw [decryptSecret, decryptSecret, hsecret]
    cases decryptText (dataEncryptionBytes lists.reading) stored.secretEncrypted with
    | error e => exact hsecret
    | ok plain => rfl
  rw [← secret_read_back h, ← hsame, WebhookReadBack, getWebhookByID, hget, Option.map_some]
  simp only [Option.some.injEq, exists_eq_left']

theorem created_row {hooks hooks' : Table AuditWebhook} {id : ℕ}
    (h : createWebhook secrets fresh item hooks = .ok (id, hooks')) :
    ∃ stored, encryptSecret secrets fresh item = .ok stored ∧
      ∃ row, hooks'.get id = some row ∧ row.secretEncrypted = stored.secretEncrypted := by
  rw [createWebhook] at h
  split at h
  · cases h
  · rename_i stored hstored
    cases h
    exact ⟨stored, hstored, _, Table.get_insert_self _ _, rfl⟩

theorem saved_row {hooks hooks' : Table AuditWebhook} {id : ℕ}
    (hid : 0 < id) (h : updateWebhook secrets fresh id item hooks = .ok hooks') :
    ∃ stored, encryptSecret secrets fresh item = .ok stored ∧
      ∃ row, hooks'.get id = some row ∧ row.secretEncrypted = stored.secretEncrypted := by
  rw [updateWebhook] at h
  split at h
  · cases h
  · rename_i stored hstored
    cases h
    refine ⟨stored, hstored, if (hooks.get id).isSome then stored else stored.withDefaults, ?_, ?_⟩
    · rw [saveWebhook, dif_pos hid, Table.get_put_self]
    · split <;> rfl

/-! ## Files of certmagic -/

variable [UnicodeTables]

theorem file_read_back {dialect : Dialect} {ok : Bool} {now : Instant} {key value : GoString}
    {t t' : KVTable} (hkey : isCertMagicPrivateKeyPath (cleanKey key) = true)
    (h : (lists.writer dialect).store fresh ok now key value t = .ok t') :
    FileReadBack lists dialect key value t' ↔ isEncryptedValue value = false := by
  obtain ⟨stored, hstored, rfl⟩ := CertMagicStorage.store_eq_ok h
  have hfind : (t.replace ⟨cleanKey key, stored, now⟩).find (cleanKey key) =
    some ⟨cleanKey key, stored, now⟩ := by
    rw [KVTable.find_replace, if_pos rfl]
  rw [FileReadBack, CertMagicStorage.load_eq_ok hfind]
  rcases CertMagicStorage.storedValue_cases hstored with rfl
    | ⟨-, hplain, active, hactive, entropy, rfl⟩
  · cases henc : isEncryptedValue stored with
    | true =>
      rw [CertMagicStorage.loadedValue_encrypted ⟨cleanKey key, stored, now⟩ hkey henc]
      refine iff_of_false (fun hread => ?_) (by decide)
      exact Nat.lt_irrefl _ (length_of_decryptStringAuto hread)
    | false => exact iff_of_true (CertMagicStorage.loadedValue_plain _ henc) rfl
  · have hsealed := isEncryptedValue_sealedTextV2 entropy active value
    rw [CertMagicStorage.loadedValue_encrypted ⟨cleanKey key, sealedTextV2 entropy active value, now⟩ hkey hsealed]
    have hne : active ≠ [] := ne_nil_of_mem_dataEncryptionBytes (List.mem_of_mem_head? hactive)
    exact iff_of_true (decryptStringAuto_sealedTextV2 (lists.kept active hactive) hne entropy value) hplain

/-! ## All of them -/

/-- A settings record is readable again with its secrets unchanged exactly if none of them looks
encrypted; a webhook secret reads unchanged exactly if it does not look encrypted or no secret
decrypts it; a private key file reads unchanged exactly if it does not look encrypted. -/
theorem secrets_read_back_iff (lists : SecretLists) :
    (∀ fresh ok item row stored, AppSettings.upsert (dataEncryptionBytes lists.written)
      fresh ok item row = .ok stored →
      (SettingsReadBack lists item stored ↔ ∀ c ∈ secretColumns, isEncryptedValue (item.text c) =
        false)) ∧
    (∀ fresh item hooks id hooks', createWebhook (dataEncryptionBytes lists.written)
      fresh item hooks = .ok (id, hooks') →
      (WebhookReadBack lists item id hooks' ↔ isEncryptedValue item.secretEncrypted = false ∨
        ∀ plain, decryptStringAuto (dataEncryptionBytes lists.reading) item.secretEncrypted ≠
          .ok plain)) ∧
    (∀ fresh item hooks id hooks', 0 < id →
      updateWebhook (dataEncryptionBytes lists.written) fresh id item hooks = .ok hooks' →
      (WebhookReadBack lists item id hooks' ↔ isEncryptedValue item.secretEncrypted = false ∨
        ∀ plain, decryptStringAuto (dataEncryptionBytes lists.reading) item.secretEncrypted ≠
          .ok plain)) ∧
    ∀ dialect fresh ok now key value t t', isCertMagicPrivateKeyPath (cleanKey key) = true →
      (lists.writer dialect).store fresh ok now key value t = .ok t' →
      (FileReadBack lists dialect key value t' ↔ isEncryptedValue value = false) := by
  refine ⟨?_, ?_, ?_, ?_⟩
  · intro fresh ok item row stored h
    exact settings_read_back h
  · intro fresh item hooks id hooks' h
    obtain ⟨stored, hstored, hrow⟩ := created_row h
    exact webhook_read_back hstored hrow
  · intro fresh item hooks id hooks' hid h
    obtain ⟨stored, hstored, hrow⟩ := saved_row hid h
    exact webhook_read_back hstored hrow
  · intro dialect fresh ok now key value t t' hkey h
    exact file_read_back hkey h

end ReadBack

theorem sampleSalt_length : (List.replicate 16 (0 : UInt8)).length = argon2SaltLen := rfl
theorem sampleNonce_length : (List.replicate 12 (0 : UInt8)).length = nonceSize := rfl

def sampleEntropy : Entropy :=
  ⟨List.replicate 16 0, List.replicate 12 0, sampleSalt_length, sampleNonce_length⟩

def rotated : SecretLists := ⟨[str "old"], [str "new", str "old"], by decide +kernel⟩

def settingsWithSecret (secret : GoString) : AppSettings where
  text c := if c = .oidcClientSecret then secret else []
  flag _ := false
  number _ := 0
  oidcAllowedEmailDomains := []

def saveSecret (secret : GoString) : Except SettingsErr AppSettings :=
  @AppSettings.upsert plainAead (dataEncryptionBytes rotated.written)
    (fun _ => some sampleEntropy) true (settingsWithSecret secret)
    (some (settingsWithSecret []))

theorem secrets_read_back_rotated :
    ∃ stored, saveSecret (str "hunter2") = .ok stored ∧
      @SettingsReadBack plainAead rotated (settingsWithSecret (str "hunter2")) stored := by
  have hok : (saveSecret (str "hunter2")).isOk = true := by decide +kernel
  cases h : saveSecret (str "hunter2") with
  | error e =>
    rw [h] at hok
    cases hok
  | ok stored =>
    refine ⟨stored, rfl, ?_⟩
    have hplain : ∀ c ∈ secretColumns,
      isEncryptedValue ((settingsWithSecret (str "hunter2")).text c) = false := by decide +kernel
    exact ((@secrets_read_back_iff plainAead asciiTables rotated).1 _ _ _ _ _ h).mpr hplain

/-- A client secret that begins like an encrypted value is saved, and the settings cannot be read
any more. -/
theorem prefixed_secret_locks_settings :
    ∃ stored, saveSecret (str "enc:v1:hunter2") = .ok stored ∧
      (@AppSettings.get plainAead (dataEncryptionBytes rotated.reading) true (some stored)).isOk = false := by
  have hok : (saveSecret (str "enc:v1:hunter2")).isOk = true := by decide +kernel
  have hread : ∀ stored ∈ (saveSecret (str "enc:v1:hunter2")).toOption,
      (@AppSettings.get plainAead (dataEncryptionBytes rotated.reading) true (some stored)).isOk = false := by
    decide +kernel
  cases h : saveSecret (str "enc:v1:hunter2") with
  | error e =>
    rw [h] at hok
    cases hok
  | ok stored =>
    rw [h] at hread
    exact ⟨stored, rfl, hread stored rfl⟩

end Portlyn.Store
