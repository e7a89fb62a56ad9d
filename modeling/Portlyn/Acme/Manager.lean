import Portlyn.Acme.Tree
import Portlyn.Lib.Mutex

/-! # Certificates and their issuance (`manager.go`, `worker.go`, `retry.go`,
`certificate_store.go`)

A run of `SyncCertificate` holds a copy of the row of its certificate while certmagic obtains the
certificate, and then saves the copy. The handler that deletes a certificate deletes the row and
then what is stored for the names of the certificate. Every statement of the database is a statement
of the model; certmagic is any program of calls of its storage. -/
namespace Portlyn.Acme
open Go Lib Lib.Interleave Secureconfig Store
set_option autoImplicit false

/-! ## Certificates -/

inductive CertificateStatus
  | pending
  | issued
  | failed
  | expiringSoon
  | renewing
deriving DecidableEq

inductive ChallengeType
  | http01
  | dns01
deriving DecidableEq

/-- `domain.Certificate` without its id. A zero time is `none`; `domainName` is the name of the
domain that was loaded with the row, and no column of it. -/
structure Certificate where
  domainID : ℕ
  domainName : GoString
  primaryDomain : GoString
  sans : List GoString
  status : CertificateStatus
  lastError : GoString
  challengeType : ChallengeType
  issuer : GoString
  issuedAt : Option Instant
  expiresAt : Option Instant
  lastCheckedAt : Option Instant
  nextRenewalAt : Option Instant
  renewalWindowDays : ℤ
  isAutoRenew : Bool
  failureCount : ℤ
  nextAttemptAt : Option Instant
  dnsProviderID : Option ℕ
deriving DecidableEq

structure StoredTLSCertificate where
  issuerKey : GoString
  certificate : GoString
  privateKey : GoString
  metadataJSON : GoString
  notBefore : Instant
  notAfter : Instant
deriving DecidableEq

section Names
variable [UnicodeTables]

def normalizeDomain (value : GoString) : GoString := toLower (trimSpace value)

def certificateDomainNames (item : Certificate) : List GoString :=
  (if trimSpace item.primaryDomain ≠ [] then [trimSpace item.primaryDomain]
    else if trimSpace item.domainName ≠ [] then [trimSpace item.domainName] else []) ++
  (item.sans.map trimSpace).filter (· ≠ [])

def certificateNames (item : Certificate) : List GoString :=
  (if trimSpace item.primaryDomain ≠ [] then [item.primaryDomain]
    else if trimSpace item.domainName ≠ [] then [item.domainName] else []) ++
  (item.sans.map trimSpace).filter (· ≠ [])

def firstCertificateName (item : Certificate) : GoString := (certificateNames item).headD []

def certificateAuthorityURL (issuer override : GoString) : GoString :=
  if issuer = str "letsencrypt_staging" then str "https://acme-staging-v02.api.letsencrypt.org/directory"
  else if trimSpace override ≠ [] then trimSpace override
  else str "https://acme-v02.api.letsencrypt.org/directory"

end Names

/-! ## Times -/

def hour : ℤ := 3600000000000
def day : ℤ := 24 * hour

def renewalTime (expiresAt : Option Instant) (renewalWindowDays : ℤ) : Option Instant :=
  if renewalWindowDays ≤ 0 then none else expiresAt.map (· - renewalWindowDays * day)

section Times
variable [UnicodeTables]

def derivedCertificateStatus (item : Certificate) (now : Instant) : CertificateStatus :=
  if trimSpace item.lastError ≠ [] then .failed
  else
    match item.expiresAt with
    | some expiresAt => if now < expiresAt - item.renewalWindowDays * day then .issued else .expiringSoon
    | none => .issued

end Times

def retryBaseDelay : ℤ := 300000000000
def retryMaxDelay : ℤ := 24 * hour

/-- The result of an operation on `int64`, and on `int` where it has 64 bits. -/
def int64 (z : ℤ) : ℤ := z.bmod (2 ^ 64)

def retryDelay (failures : ℤ) : ℤ := double retryBaseDelay (failures - 1).toNat
where
  double (delay : ℤ) : ℕ → ℤ
    | 0 => delay
    | n + 1 =>
      let delay := int64 (delay * 2)
      if retryMaxDelay ≤ delay then retryMaxDelay else double delay n

def nextRetryState (item : Certificate) (now : Instant) (renewWithin : ℤ) : ℤ × Option Instant :=
  if item.status = .failed then
    let failures := int64 (item.failureCount + 1)
    (failures, some (now + retryDelay failures))
  else
    match item.expiresAt with
    | some expiresAt => if expiresAt < now + renewWithin then (0, some (now + hour)) else (0, none)
    | none => (0, none)

/-! ## Statements -/

structure CertStore where
  certificates : Table Certificate
  tls : GoString → Option StoredTLSCertificate
  kv : KVTable

inductive CertErr
  | notFound
  | database
deriving DecidableEq

/-- `deleteTLS` and `purge` are the statements that delete what is stored for a name of the
certificate `id`; `storage` is a call by certmagic. -/
inductive CertOp
  | now
  | getByID (id : ℕ)
  | listPending (dueBy : Instant) (limit : ℕ)
  | listExpiringBefore (before dueBy : Instant)
  | domainByID (id : ℕ)
  | dnsProvider (id : ℕ)
  | update (id : ℕ) (item : Certificate)
  | updateRetryState (id : ℕ) (failureCount : ℤ) (nextAttemptAt : Option Instant)
  | delete (id : ℕ)
  | deleteTLS (id : ℕ) (name : GoString)
  | listKeys
  | purge (id : ℕ) (name folder : GoString)
  | load (key : GoString)
  | storePEM (name issuerKey certPEM keyPEM metadata : GoString)
  | loadExpiry (name : GoString)
  | storage (call : StorageCall)

@[reducible]
def CertOp.Ans : CertOp → Type
  | .now => Instant
  | .getByID _ => Except CertErr Certificate
  | .listPending _ _ | .listExpiringBefore _ _ => Option (List (ℕ × Certificate))
  | .domainByID _ => Except GoString GoString
  | .dnsProvider _ | .update _ _ | .storePEM _ _ _ _ _ => Except GoString Unit
  | .updateRetryState _ _ _ | .deleteTLS _ _ | .purge _ _ _ => Bool
  | .delete _ => Except CertErr Unit
  | .listKeys => Except StorageErr (List GoString)
  | .load _ => Except GoString GoString
  | .loadExpiry _ => Except GoString Instant
  | .storage _ => StorageAnswer

abbrev CertProg := Prog CertOp.Ans
abbrev CertEntry := Entry CertOp.Ans
abbrev CertWorld := World CertOp.Ans CertStore

/-- What the store leaves to chance; `text` is the text of an error of the database or of a
provider. -/
structure CertChance where
  storage : StorageChance
  text : GoString

/-- The configuration, the domains, and certmagic and the libraries for keys. `keyPair` answers with
the validity of the certificate, and `visit` is the order in which the folders of a name are
deleted. -/
structure CertEnv where
  storage : CertMagicStorage
  acmeEnabled : Bool
  acmeCAURL : GoString
  staticNotAfter : Option Instant
  renewWithin : ℤ
  domains : ℕ → Option GoString
  dnsProvider : ℕ → Except GoString Unit
  issuerKey : GoString → GoString
  siteCert : GoString → GoString → GoString
  sitePrivateKey : GoString → GoString → GoString
  siteMeta : GoString → GoString → GoString
  keyPair : GoString → GoString → Except GoString (Instant × Instant)
  storageText : StorageErr → GoString
  visit : GoString → CertMagicStorage.MapOrder
  manageSync : Certificate → List GoString → CertProg (Except GoString Unit)
  manageSync_storage : ∀ item names, (manageSync item names).All fun op => ∃ call, op = .storage call

def CertEnv.preload (env : CertEnv) (item : Certificate) : Certificate :=
  { item with domainName := (env.domains item.domainID).getD [] }

def due (dueBy : Instant) (item : Certificate) : Bool := item.nextAttemptAt.all (· ≤ dueBy)

/-- `ORDER BY expires_at`, where the zero time is before all others. -/
def expiresBefore (a b : ℕ × Certificate) : Bool :=
  match a.2.expiresAt, b.2.expiresAt with
  | none, _ => true
  | some _, none => false
  | some x, some y => x ≤ y

/-- `Save`, which inserts a row that is not there. -/
def saveRow (certificates : Table Certificate) (id : ℕ) (item : Certificate) : Table Certificate :=
  if hid : 0 < id then certificates.put id item hid else certificates.insert item

section Exec
variable [UnicodeTables] [Aead] (env : CertEnv)

/-- `StorePEM`: the record that is stored. -/
def pemRecord (fresh : Option Entropy) (issuerKey certPEM keyPEM metadata : GoString) :
    Except GoString StoredTLSCertificate :=
  let storedKey : Except SecretErr GoString :=
    match env.storage.dataSecrets with
    | [] => .ok keyPEM
    | active :: _ => if isEncryptedValue keyPEM then .ok keyPEM else encryptStringV2 fresh active keyPEM
  match storedKey with
  | .error e => .error (env.storageText (.secret e))
  | .ok storedKey => (env.keyPair certPEM keyPEM).map fun validity =>
      ⟨issuerKey, certPEM, storedKey, metadata, validity.1, validity.2⟩

/-- `LoadCertificate` and the expiry of what it has loaded. -/
def storedExpiry (row : StoredTLSCertificate) : Except GoString Instant :=
  let privateKey :=
    if isEncryptedValue row.privateKey then decryptStringAuto env.storage.dataSecrets row.privateKey
      else .ok row.privateKey
  match privateKey with
  | .error e => .error (env.storageText (.secret e))
  | .ok privateKey => (env.keyPair row.certificate privateKey).map Prod.snd

def CertStore.exec : Semantics CertOp.Ans CertStore CertChance
  | .now, i, s => (i.storage.now, s)
  | .getByID id, i, s =>
    (if i.storage.ok then
      match s.certificates.get id with
      | some item => .ok (env.preload item)
      | none => .error .notFound
    else .error .database, s)
  | .listPending dueBy limit, i, s =>
    (if i.storage.ok then
      let rows := s.certificates.rows.filter fun r => r.2.status = .pending && due dueBy r.2
      some ((rows.take limit).map fun r => (r.1, env.preload r.2))
    else none, s)
  | .listExpiringBefore before dueBy, i, s =>
    (if i.storage.ok then
      let rows := s.certificates.rows.filter fun r => r.2.expiresAt.all (· ≤ before) && due dueBy r.2
      some ((rows.insertionSort fun a b => expiresBefore a b = true).map fun r => (r.1, env.preload r.2))
    else none, s)
  | .domainByID id, i, s =>
    (if i.storage.ok then
      match env.domains id with
      | some name => .ok name
      | none => .error (str "resource not found")
    else .error i.text, s)
  | .dnsProvider id, i, s => (if i.storage.ok then env.dnsProvider id else .error i.text, s)
  | .update id item, i, s =>
    if i.storage.ok then (.ok (), { s with certificates := saveRow s.certificates id item }) else (.error i.text, s)
  | .updateRetryState id failureCount nextAttemptAt, i, s =>
    if i.storage.ok then
      (true, { s with
        certificates := s.certificates.update (fun id' _ => id' = id) fun item =>
          { item with failureCount := failureCount, nextAttemptAt := nextAttemptAt } })
    else (false, s)
  | .delete id, i, s =>
    if i.storage.ok then
      match s.certificates.get id with
      | some _ => (.ok (), { s with certificates := s.certificates.delete id })
      | none => (.error .notFound, s)
    else (.error .database, s)
  | .deleteTLS _ name, i, s =>
    if i.storage.ok then (true, { s with tls := Function.update s.tls name none }) else (false, s)
  | .listKeys, i, s => (env.storage.list i.storage.ok (str "certificates") true s.kv, s)
  | .purge _ _ folder, i, s =>
    match env.storage.delete i.storage.ok folder s.kv with
    | .ok kv => (true, { s with kv := kv })
    | .error _ => (false, s)
  | .load key, i, s => ((env.storage.load i.storage.ok key s.kv).mapError env.storageText, s)
  | .storePEM name issuerKey certPEM keyPEM metadata, i, s =>
    match pemRecord env i.storage.fresh issuerKey certPEM keyPEM metadata with
    | .error e => (.error e, s)
    | .ok record =>
      if i.storage.ok then (.ok (), { s with tls := Function.update s.tls (normalizeDomain name) (some record) })
      else (.error i.text, s)
  | .loadExpiry name, i, s =>
    (if i.storage.ok then
      match s.tls (normalizeDomain name) with
      | none => .error (str "record not found")
      | some row => storedExpiry env row
    else .error i.text, s)
  | .storage call, i, s =>
    let (answer, kv) := env.storage.call i.storage call s.kv
    (answer, { s with kv := kv })

end Exec

/-! ## Issuance -/

def certStmt (op : CertOp) : CertProg op.Ans := Prog.op op

section Calls
variable [UnicodeTables] (env : CertEnv)

def configForCertificate (item : Certificate) : CertProg (Except GoString Unit) :=
  match item.challengeType, item.dnsProviderID with
  | .http01, _ => return .ok ()
  | .dns01, none | .dns01, some 0 => return .error (str "dns-01 requires a dns provider")
  | .dns01, some id => certStmt (.dnsProvider id)

def persistManagedCertificate (issuerKey : GoString) : List GoString → CertProg (Except GoString Unit)
  | [] => return .ok ()
  | raw :: names => do
    let name := normalizeDomain raw
    (certStmt (.load (env.siteCert issuerKey name))).attempt fun certPEM =>
      (certStmt (.load (env.sitePrivateKey issuerKey name))).attempt fun keyPEM => do
        let metadata ← certStmt (.load (env.siteMeta issuerKey name))
        (certStmt (.storePEM name issuerKey certPEM keyPEM (metadata.toOption.getD []))).attempt fun _ =>
          persistManagedCertificate issuerKey names

def saveCertificate (id : ℕ) (item : Certificate) : CertProg (Certificate × Except GoString Unit) :=
  do
  let result ← certStmt (.update id item)
  return (item, result)

def saveFailure (id : ℕ) (item : Certificate) (e : GoString) : CertProg (Certificate × Except GoString Unit) :=
  saveCertificate id { item with status := .failed, lastError := e }

def obtained (item : Certificate) (now expiresAt : Instant) : Certificate :=
  let item := { item with
    status := .issued, lastError := [], issuedAt := item.issuedAt.or (some now), expiresAt := some expiresAt,
    nextRenewalAt := renewalTime (some expiresAt) item.renewalWindowDays }
  { item with status := derivedCertificateStatus item now }

def syncStatic (id : ℕ) (item : Certificate) (now : Instant) : CertProg (Certificate × Except GoString Unit) :=
  match env.staticNotAfter with
  | some notAfter => saveCertificate id { item with
      status := .issued, lastError := [], issuedAt := some now, expiresAt := some notAfter,
      nextRenewalAt := renewalTime (some notAfter) item.renewalWindowDays }
  | none => saveFailure id item (str "acme and static tls are not configured")

def obtainCertificate (item : Certificate) : CertProg (Except GoString Instant) :=
  (configForCertificate item).attempt fun _ =>
    (env.manageSync item (certificateNames item)).attempt fun _ =>
      (persistManagedCertificate env
        (env.issuerKey (certificateAuthorityURL item.issuer env.acmeCAURL))
        (certificateNames item)).attempt
        fun _ => certStmt (.loadExpiry (firstCertificateName item))

def syncLoaded (id : ℕ) (item : Certificate) (now : Instant) : CertProg (Certificate × Except GoString Unit) := do
  if env.acmeEnabled then
    match ← obtainCertificate env item with
    | .error e => saveFailure id item e
    | .ok expiresAt => saveCertificate id (obtained item now expiresAt)
  else syncStatic env id item now

def recordRetryState (id : ℕ) (item : Certificate) : CertProg Certificate := do
  if id = 0 then return item
  else
    let now ← certStmt .now
    let (failures, next) := nextRetryState item now env.renewWithin
    let recorded ← certStmt (.updateRetryState id failures next)
    return if recorded then { item with failureCount := failures, nextAttemptAt := next } else item

def syncCertificate (id : ℕ) (item : Certificate) : CertProg (Certificate × Except GoString Unit) :=
  do
  let now ← certStmt .now
  let item := { item with lastCheckedAt := some now }
  let (item, result) ← (if item.domainName = [] then do
      match ← certStmt (.domainByID item.domainID) with
      | .error e => return (item, .error e)
      | .ok name => syncLoaded env id { item with domainName := name } now
    else syncLoaded env id item now : CertProg (Certificate × Except GoString Unit))
  let item ← recordRetryState env id item
  return (item, result)

/-! ## The worker -/

def syncAll : List (ℕ × Certificate) → CertProg Unit
  | [] => return ()
  | (id, item) :: rest => do
    let _ ← syncCertificate env id item
    syncAll rest

def runOnce : CertProg Unit := do
  let now ← certStmt .now
  match ← certStmt (.listPending now 32) with
  | none => return ()
  | some pending =>
    syncAll env pending
    let renewWithin := if env.renewWithin ≤ 0 then 30 * day else env.renewWithin
    match ← certStmt (.listExpiringBefore (now + renewWithin) now) with
    | none => return ()
    | some expiring => syncAll env (expiring.filter fun r => r.2.isAutoRenew)

/-! ## Handlers -/

inductive CertAnswer
  | notFound
  | internalError
  | noContent
  | synced (id : ℕ) (item : Certificate)
  | done
deriving DecidableEq

def CertErr.answer : CertErr → CertAnswer
  | .notFound => .notFound
  | .database => .internalError

/-- The handlers that retry, renew or synchronise a certificate; the first two set its failures
back. -/
def handleSyncCertificate (id : ℕ) (resets : Bool) : CertProg CertAnswer := do
  match ← certStmt (.getByID id) with
  | .error e => return e.answer
  | .ok item =>
    let (item, result) ← syncCertificate env id (if resets then { item with failureCount := 0 } else item)
    match result with
    | .error _ => return .internalError
    | .ok _ => return .synced id item

/-- The end of `DeleteCertificatesForDomain`: whether all folders were deleted. -/
def deleteFolders (id : ℕ) (name : GoString) : List GoString → CertProg Bool
  | [] => return true
  | folder :: rest => do
    let deleted ← certStmt (.purge id name folder)
    if deleted then deleteFolders id name rest else return false

def deleteCertificatesForDomain (id : ℕ) (name : GoString) : CertProg Bool := do
  let folder := CertMagicStorage.safeCertFolder name
  if folder = [] then return true
  else
    match ← certStmt .listKeys with
    | .error _ => return false
    | .ok keys => deleteFolders id name ((env.visit name).order (CertMagicStorage.folderPrefixes folder keys).dedup)

/-- `PurgeCertificateData`: whether all went well. A failure does not stop the loop. -/
def purgeCertificateData (id : ℕ) : List GoString → CertProg Bool
  | [] => return true
  | raw :: names => do
    let name := normalizeDomain raw
    if name = [] then purgeCertificateData id names
    else
      let deleted ← certStmt (.deleteTLS id name)
      let purged ← deleteCertificatesForDomain env id name
      let rest ← purgeCertificateData id names
      return deleted && purged && rest

def handleDeleteCertificate (id : ℕ) : CertProg CertAnswer := do
  match ← certStmt (.getByID id) with
  | .error e => return e.answer
  | .ok item =>
    match ← certStmt (.delete id) with
    | .error e => return e.answer
    | .ok _ =>
      -- a failure is logged only
      let _ ← purgeCertificateData env id (certificateDomainNames item)
      return .noContent

inductive CertRequest
  | delete (id : ℕ)
  | sync (id : ℕ) (resets : Bool)
  | worker
deriving DecidableEq

def certHandler : CertRequest → CertProg CertAnswer
  | .delete id => handleDeleteCertificate env id
  | .sync id resets => handleSyncCertificate env id resets
  | .worker => do
    runOnce env
    return .done

variable [Aead]

def certSystem : System CertOp.Ans CertStore CertChance CertRequest CertAnswer where
  exec := CertStore.exec env
  prog := fun _ => certHandler env

end Calls
end Portlyn.Acme
