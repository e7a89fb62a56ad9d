import Portlyn.Go.Time
import Portlyn.Lib.Table
import Portlyn.Secureconfig

/-! # The settings of the application (`app_settings_store.go`)

There is one row of settings. It is read and saved as a whole; four of its columns are encrypted on
the way to the database and decrypted on the way back. The times of its creation and of its last
write, which the database keeps by itself, are left out. -/
namespace Portlyn.Store
open Go Lib Secureconfig
set_option autoImplicit false

/-! ## Columns -/

inductive TextColumn
  | frontendBaseURL | authBrandName | authLogoURL | authBackgroundColor | authBackgroundAccent | authPanelColor
  | authButtonColor | authTextColor | authMutedTextColor | authLoginTitle | authLoginSubtitle | authRouteLoginTitle
  | authRouteLoginSubtitle | authForbiddenTitle | authForbiddenSubtitle | authLoginPasswordLabel | authLoginOIDCLabel
  | authLoginOTPRequestLabel | authLoginOTPVerifyLabel | authRouteContinueLabel | authRouteOIDCLabel
  | authRoutePINLabel | authRouteEmailSendLabel | authRouteEmailVerifyLabel | authForbiddenRetryLabel | oidcIssuerURL
  | oidcClientID | oidcClientSecret | oidcRedirectURL | oidcAdminRoleClaimPath | oidcAdminRoleValue
  | oidcProviderLabel | smtpHost | smtpUsername | smtpPassword | smtpFromEmail | smtpFromName | smtpEncryption
  | tunnelServerPrivateKey | tunnelServerPublicKey | tunnelServerEndpoint | tunnelCIDR | tunnelServerTunnelIP
  | tunnelConfigPath | geoIPDBPath | crowdSecAPIURL | crowdSecAPIKeyEncrypted
deriving DecidableEq

inductive FlagColumn
  | oidcEnabled | oidcAllowEmailLinking | oidcRequireVerifiedEmail | localLoginDisabled | otpEnabled
  | requireMFAForAdmins | smtpEnabled | smtpInsecureSkipVerify | tunnelEnabled | crowdSecEnabled
  | updateCheckDisabled
deriving DecidableEq

inductive NumberColumn
  | otpTokenTTLSeconds | otpRequestLimit | otpRequestWindowSeconds | smtpPort | tunnelListenPort
  | crowdSecPollIntervalSecs
deriving DecidableEq

structure AppSettings where
  text : TextColumn → GoString
  flag : FlagColumn → Bool
  number : NumberColumn → ℤ
  oidcAllowedEmailDomains : List GoString

def secretColumns : List TextColumn :=
  [.oidcClientSecret, .smtpPassword, .tunnelServerPrivateKey, .crowdSecAPIKeyEncrypted]

theorem secretColumns_nodup : secretColumns.Nodup := by decide

/-- What a column gets instead of a zero value when its row is created, from the tags of
`domain.AppSettings`. -/
def AppSettings.withDefaults (item : AppSettings) : AppSettings where
  text
    | .smtpEncryption => if item.text .smtpEncryption = [] then str "starttls" else item.text .smtpEncryption
    | .tunnelCIDR => if item.text .tunnelCIDR = [] then str "10.42.0.0/16" else item.text .tunnelCIDR
    | .tunnelServerTunnelIP =>
      if item.text .tunnelServerTunnelIP = [] then str "10.42.0.1"
        else item.text .tunnelServerTunnelIP
    | c => item.text c
  flag
    | .oidcRequireVerifiedEmail => true
    | .otpEnabled => true
    | c => item.flag c
  number
    | .otpTokenTTLSeconds => if item.number .otpTokenTTLSeconds = 0 then 600 else item.number .otpTokenTTLSeconds
    | .otpRequestLimit => if item.number .otpRequestLimit = 0 then 5 else item.number .otpRequestLimit
    | .otpRequestWindowSeconds =>
      if item.number .otpRequestWindowSeconds = 0 then 900 else item.number .otpRequestWindowSeconds
    | .smtpPort => if item.number .smtpPort = 0 then 587 else item.number .smtpPort
    | .tunnelListenPort => if item.number .tunnelListenPort = 0 then 51820 else item.number .tunnelListenPort
    | .crowdSecPollIntervalSecs =>
      if item.number .crowdSecPollIntervalSecs = 0 then 60
        else item.number .crowdSecPollIntervalSecs
  oidcAllowedEmailDomains := item.oidcAllowedEmailDomains

def updateEach {κ α ε : Type} [DecidableEq κ] (f : κ → α → Except ε α) : List κ → (κ → α) →
    Except ε (κ → α)
  | [], row => .ok row
  | c :: rest, row =>
    match f c (row c) with
    | .error e => .error e
    | .ok a => updateEach f rest (Function.update row c a)

theorem updateEach_eq_ok {κ α ε : Type} [DecidableEq κ] {f : κ → α → Except ε α} {columns : List κ}
    (hnodup : columns.Nodup) {row row' : κ → α} :
    updateEach f columns row = .ok row' ↔ (∀ c ∈ columns, f c (row c) = .ok (row' c)) ∧
      ∀ c, c ∉ columns → row' c = row c := by
  induction columns generalizing row with
  | nil =>
    rw [updateEach, Except.ok.injEq]
    constructor
    · rintro rfl
      exact ⟨List.forall_mem_nil _, fun _ _ => rfl⟩
    · rintro ⟨-, h⟩
      exact (funext fun c => h c List.not_mem_nil).symm
  | cons c rest ih =>
    obtain ⟨hc, hnodup⟩ := List.nodup_cons.mp hnodup
    rw [updateEach]
    cases hfc : f c (row c) with
    | error e =>
      constructor
      · intro h
        cases h
      · rintro ⟨hall, -⟩
        have hok := hall c List.mem_cons_self
        rw [hfc] at hok
        cases hok
    | ok a =>
      rw [ih hnodup]
      -- the columns that follow are other ones
      have hother : ∀ d ∈ rest, Function.update row c a d = row d := by
        intro d hd
        refine Function.update_of_ne ?_ _ _
        rintro rfl
        exact hc hd
      constructor
      · rintro ⟨hrest, hkept⟩
        have hrow : row' c = a := (hkept c hc).trans (Function.update_self ..)
        refine ⟨fun d hd => ?_, fun d hd => ?_⟩
        · rcases List.mem_cons.mp hd with rfl | hd
          · rw [hfc, hrow]
          · rw [← hother d hd]
            exact hrest d hd
        · obtain ⟨hne, hd⟩ := not_or.mp (mt List.mem_cons.mpr hd)
          exact (hkept d hd).trans (Function.update_of_ne hne _ _)
      · rintro ⟨hall, hkept⟩
        have hrow : row' c = a := Except.ok.inj ((hall c List.mem_cons_self).symm.trans hfc)
        refine ⟨fun d hd => ?_, fun d hd => ?_⟩
        · rw [hother d hd]
          exact hall d (List.mem_cons_of_mem _ hd)
        · by_cases hdc : d = c
          · subst hdc
            rw [hrow, Function.update_self]
          · rw [Function.update_of_ne hdc]
            exact hkept d fun hmem => (List.mem_cons.mp hmem).elim hdc hd

/-! ## One value -/

/-- `SetDataEncryptionSecrets`, and the same loop in the constructors of the certificate stores. -/
def dataEncryptionBytes (values : List GoString) : List GoString :=
  (values.map trimSpace).filter (· ≠ [])

theorem ne_nil_of_mem_dataEncryptionBytes {values : List GoString} {secret : GoString}
    (h : secret ∈ dataEncryptionBytes values) :
    secret ≠ [] := of_decide_eq_true (List.mem_filter.mp h).2

theorem trimSpace_ne_nil_of_isEncryptedValue {value : GoString}
    (h : isEncryptedValue value = true) : trimSpace value ≠ [] := by
  intro hblank
  rw [isEncryptedValue, isEncryptedValueV1, isEncryptedValueV2, hblank] at h
  have hfalse : (hasPrefix [] encryptedPrefixV1 || hasPrefix [] encryptedPrefixV2) = false := by
    decide +kernel
  rw [hfalse] at h
  cases h

section Secrets
variable [Aead]

/-- How a secret is encrypted before it is saved: blank values and those that look encrypted stay as
they are. -/
def encryptText (secrets : List GoString) (fresh : Option Entropy) (value : GoString) :
    Except SecretErr GoString :=
  match secrets with
  | [] => .ok value
  | active :: _ =>
    if trimSpace value ≠ [] ∧ isEncryptedValue value = false then encryptStringV2 fresh active value else .ok value

def decryptText (secrets : List GoString) (value : GoString) : Except SecretErr GoString :=
  if trimSpace value ≠ [] ∧ isEncryptedValue value = true then decryptStringAuto secrets value
    else .ok value

variable {secrets : List GoString} {value : GoString}

theorem decryptText_plain (h : isEncryptedValue value = false) :
    decryptText secrets value = .ok value := by
  rw [decryptText, if_neg]
  rintro ⟨-, henc⟩
  rw [h] at henc
  cases henc

theorem decryptText_encrypted (h : isEncryptedValue value = true) :
    decryptText secrets value = decryptStringAuto secrets value := by
  rw [decryptText, if_pos ⟨trimSpace_ne_nil_of_isEncryptedValue h, h⟩]

variable {fresh : Option Entropy} {stored : GoString}

theorem encryptText_cases (h : encryptText secrets fresh value = .ok stored) :
    stored = value ∨
      isEncryptedValue value = false ∧ ∃ active ∈ secrets.head?, ∃ entropy, stored =
        sealedTextV2 entropy active value := by
  cases secrets with
  | nil =>
    cases h
    exact Or.inl rfl
  | cons active rest =>
    rw [encryptText] at h
    split at h
    · rename_i hplain
      obtain ⟨entropy, -, rfl⟩ := encryptStringV2_eq_ok h
      exact Or.inr ⟨hplain.2, active, rfl, entropy, rfl⟩
    · cases h
      exact Or.inl rfl

theorem decryptText_encryptText {written reading : List GoString}
    (h : encryptText (dataEncryptionBytes written) fresh value = .ok stored)
    (hforce : ∀ secret ∈ (dataEncryptionBytes written).head?, secret ∈ reading)
    (hplain : isEncryptedValue value = false) : decryptText reading stored = .ok value := by
  rcases encryptText_cases h with rfl | ⟨-, active, hactive, entropy, rfl⟩
  · exact decryptText_plain hplain
  · have hne : active ≠ [] := ne_nil_of_mem_dataEncryptionBytes (List.mem_of_mem_head? hactive)
    rw [decryptText_encrypted (isEncryptedValue_sealedTextV2 entropy active value)]
    exact decryptStringAuto_sealedTextV2 (hforce active hactive) hne entropy value

theorem encryptText_encrypted (h : encryptText secrets fresh value = .ok stored)
    (henc : isEncryptedValue value = true) : stored = value := by
  rcases encryptText_cases h with rfl | ⟨hplain, -⟩
  · rfl
  · rw [henc] at hplain
    cases hplain

theorem decryptText_encryptText_iff {written reading : List GoString}
    (h : encryptText (dataEncryptionBytes written) fresh value = .ok stored)
    (hforce : ∀ secret ∈ (dataEncryptionBytes written).head?, secret ∈ reading) :
    decryptText reading stored = .ok value ↔ isEncryptedValue value = false := by
  constructor
  · intro hread
    by_contra henc
    rw [Bool.not_eq_false] at henc
    rw [encryptText_encrypted h henc, decryptText_encrypted henc] at hread
    exact Nat.lt_irrefl _ (length_of_decryptStringAuto hread)
  · exact decryptText_encryptText h hforce

/-! ## Rows -/

def encryptSecretFields (secrets : List GoString) (fresh : TextColumn → Option Entropy)
    (item : AppSettings) :
    Except SecretErr AppSettings :=
  match updateEach (fun c value => encryptText secrets (fresh c) value) secretColumns item.text with
  | .error e => .error e
  | .ok text => .ok { item with text := text }

def decryptSecretFields (secrets : List GoString) (item : AppSettings) :
    Except SecretErr AppSettings :=
  match updateEach (fun _ value => decryptText secrets value) secretColumns item.text with
  | .error e => .error e
  | .ok text => .ok { item with text := text }

inductive SettingsErr
  | notFound
  | database
  | secret (e : SecretErr)
deriving DecidableEq

def AppSettings.get (secrets : List GoString) (ok : Bool) (row : Option AppSettings) :
    Except SettingsErr AppSettings :=
  match ok, row with
  | false, _ => .error .database
  | true, none => .error .notFound
  | true, some item =>
    match decryptSecretFields secrets item with
    | .error e => .error (.secret e)
    | .ok item => .ok item

/-- `Upsert`, with the row that it leaves. `Save` writes all columns, and creates the row if it is
not there. -/
def AppSettings.upsert (secrets : List GoString) (fresh : TextColumn → Option Entropy) (ok : Bool)
    (item : AppSettings)
    (row : Option AppSettings) : Except SettingsErr AppSettings :=
  match encryptSecretFields secrets fresh item with
  | .error e => .error (.secret e)
  | .ok encrypted =>
    match ok, row with
    | false, _ => .error .database
    | true, none => .ok encrypted.withDefaults
    | true, some _ => .ok encrypted

theorem encryptSecretFields_eq_ok {fresh : TextColumn → Option Entropy}
    {item encrypted : AppSettings} :
    encryptSecretFields secrets fresh item = .ok encrypted ↔
      (∀ c ∈ secretColumns, encryptText secrets (fresh c) (item.text c) = .ok (encrypted.text c)) ∧
      (∀ c, c ∉ secretColumns → encrypted.text c = item.text c) ∧
      encrypted.flag = item.flag ∧ encrypted.number = item.number ∧
      encrypted.oidcAllowedEmailDomains = item.oidcAllowedEmailDomains := by
  rw [encryptSecretFields, ← and_assoc, ← updateEach_eq_ok secretColumns_nodup]
  obtain ⟨text, flag, number, domains⟩ := encrypted
  cases updateEach (fun c value => encryptText secrets (fresh c) value) secretColumns item.text with
  | error e => simp
  | ok row => simp [eq_comm]

theorem decryptSecretFields_eq_ok {item decrypted : AppSettings} :
    decryptSecretFields secrets item = .ok decrypted ↔
      (∀ c ∈ secretColumns, decryptText secrets (item.text c) = .ok (decrypted.text c)) ∧
      (∀ c, c ∉ secretColumns → decrypted.text c = item.text c) ∧
      decrypted.flag = item.flag ∧ decrypted.number = item.number ∧
      decrypted.oidcAllowedEmailDomains = item.oidcAllowedEmailDomains := by
  rw [decryptSecretFields, ← and_assoc, ← updateEach_eq_ok secretColumns_nodup]
  obtain ⟨text, flag, number, domains⟩ := decrypted
  cases updateEach (fun _ value => decryptText secrets value) secretColumns item.text with
  | error e => simp
  | ok row => simp [eq_comm]

/-! ## Audit webhooks (`audit_webhook_store.go`)

The secret of a webhook is encrypted as those of the settings are. A secret that cannot be decrypted
is handed out as it is stored. -/

structure AuditWebhook where
  name : GoString
  url : GoString
  format : GoString
  secretEncrypted : GoString
  secretPreview : GoString
  eventTypes : List GoString
  active : Bool
  lastFiredAt : Option Instant
  lastStatus : ℤ
  lastError : GoString
deriving DecidableEq

def AuditWebhook.withDefaults (item : AuditWebhook) : AuditWebhook :=
  { item with format := if item.format = [] then str "generic" else item.format, active := true }

def encryptSecret (secrets : List GoString) (fresh : Option Entropy) (item : AuditWebhook) :
    Except SecretErr AuditWebhook :=
  match encryptText secrets fresh item.secretEncrypted with
  | .error e => .error e
  | .ok stored => .ok { item with secretEncrypted := stored }

def decryptSecret (secrets : List GoString) (item : AuditWebhook) : AuditWebhook :=
  match decryptText secrets item.secretEncrypted with
  | .error _ => item
  | .ok plain => { item with secretEncrypted := plain }

def getWebhookByID (secrets : List GoString) (id : ℕ) (hooks : Table AuditWebhook) :
    Option AuditWebhook :=
  (hooks.get id).map (decryptSecret secrets)

def createWebhook (secrets : List GoString) (fresh : Option Entropy) (item : AuditWebhook)
    (hooks : Table AuditWebhook) :
    Except SecretErr (ℕ × Table AuditWebhook) :=
  match encryptSecret secrets fresh item with
  | .error e => .error e
  | .ok encrypted => .ok (hooks.nextID, hooks.insert encrypted.withDefaults)

/-- `Save`: all columns of the row are written, and the row is created again if it is not there. -/
def saveWebhook (id : ℕ) (item : AuditWebhook) (hooks : Table AuditWebhook) : Table AuditWebhook :=
  if hid : 0 < id then hooks.put id (if (hooks.get id).isSome then item else item.withDefaults) hid
  else hooks.insert item.withDefaults

def updateWebhook (secrets : List GoString) (fresh : Option Entropy) (id : ℕ) (item : AuditWebhook)
    (hooks : Table AuditWebhook) :
    Except SecretErr (Table AuditWebhook) :=
  match encryptSecret secrets fresh item with
  | .error e => .error e
  | .ok encrypted => .ok (saveWebhook id encrypted hooks)

end Secrets
end Portlyn.Store
