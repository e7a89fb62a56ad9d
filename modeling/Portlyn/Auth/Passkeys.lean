import Portlyn.Auth.Store

/-! # Passkeys (`webauthn.go`, `webauthn_redis.go`, `user_credential_store.go`, `passkeys.go`)

A ceremony begins with a random session id, under which what the second half needs is kept: in the
session store that the processes share or, where there is none or it fails, in a map of the process.
The second half takes it out again and then registers a credential or signs the user in.

The calls are given by their statements. What the library computes is a part of the environment; of
its check of a login the search for the credential and the sign counter are spelled out. -/
namespace Portlyn.Auth.Passkeys
open Go Domain Lib Lib.Interleave
set_option autoImplicit false

/-! ## Rows and entries -/

/-- The columns of `user_credentials` that the code writes. -/
structure CredentialRow where
  userID : ℕ
  credentialID : GoString
  publicKey : GoString
  attestationType : GoString
  aaguid : GoString
  signCount : ℕ
  label : GoString
  userVerified : Bool
  backupEligible : Bool
  backupState : Bool
  lastUsedAt : Option Instant
deriving DecidableEq

inductive Purpose
  | register
  | login
deriving DecidableEq

/-- `webauthn.SessionData`: the challenge, the user's handle and the credentials that may answer. -/
structure SessionData where
  challenge : GoString
  userHandle : GoString
  allowedCredentials : List GoString
deriving DecidableEq

/-- `webauthnSessionEntry`. -/
structure Ceremony where
  userID : ℕ
  session : SessionData
  purpose : Purpose
  expires : Instant
deriving DecidableEq

def ceremonyTTL : ℤ := 300 * 1000000000

/-! ## Statements -/

/-- `save` and `pop` go to the shared store; `storeLocal` and `popLocal` hold the lock of the map.
-/
inductive PasskeyOp
  | now
  | tick (d : ℕ)
  | getUser (id : ℕ)
  | userByEmail (email : GoString)
  | listByUser (userID : ℕ)
  | getByCredentialID (credentialID : GoString)
  | create (item : CredentialRow)
  | update (id : ℕ) (item : CredentialRow)
  | delete (userID id : ℕ)
  | save (id : GoString) (entry : Ceremony)
  | pop (id : GoString)
  | storeLocal (process : ℕ) (id : GoString) (entry : Ceremony)
  | popLocal (process : ℕ) (id : GoString) (purpose : Purpose)

/-- The answer of `popLocal` has, for the record, the time at which the expiry was checked. -/
@[reducible] def PasskeyAns : PasskeyOp → Type
  | .now => Instant
  | .tick _ => Unit
  | .getUser _ => Except StoreError (ℕ × UserRow)
  | .userByEmail _ => Except StoreError (ℕ × UserRow)
  | .listByUser _ => Except StoreError (List (ℕ × CredentialRow))
  | .getByCredentialID _ => Except StoreError (ℕ × CredentialRow)
  | .create _ => Except StoreError ℕ
  | .update _ _ => Except StoreError Unit
  | .delete _ _ => Except StoreError Unit
  | .save _ _ => Bool
  | .pop _ => Option Ceremony
  | .storeLocal _ _ _ => Unit
  | .popLocal _ _ _ => Option (Ceremony × Instant)

/-- The entries of the shared store expire by themselves; `sessions` has the map of each process. -/
structure PasskeyStore where
  users : Table UserRow
  credentials : Table CredentialRow
  shared : GoString → Option (Ceremony × Instant)
  sessions : (process : ℕ) → GoString → Option Ceremony
  clock : Instant

/-- Whether a statement succeeds, and whether one of the shared store that fails was carried out all
the same. -/
structure Luck where
  ok : Bool
  applied : Bool
deriving DecidableEq

/-- What the library returns for a login that it accepts. -/
structure ValidatedLogin where
  credentialID : GoString
  signCount : ℕ
  cloneWarning : Bool
  backupState : Bool

/-- What the service takes from its configuration, from the library and from the random source: the
ids of the ceremonies are new. -/
structure PasskeyEnv where
  /-- The process has a shared store. -/
  hasStore : (process : ℕ) → Bool
  /-- `instance` finds a frontend URL with a host. -/
  configured : Bool
  sqlLower : GoString → GoString
  sessionID : (call : ℕ) → GoString
  sessionID_injective : Function.Injective sessionID
  challenge : (call : ℕ) → GoString
  /-- The encoded HMAC of a text with the decoy secret of the process. -/
  decoyMac : (process : ℕ) → (text : GoString) → GoString
  /-- The verified answer to a registration. -/
  registered : (user : UserRow) → (credentials : List (ℕ × CredentialRow)) → SessionData → (response : GoString) →
    Option CredentialRow
  /-- The library's own `FinishLogin`. -/
  validateLogin : (userID : ℕ) → (credentials : List (ℕ × CredentialRow)) → SessionData → (response : GoString) →
    Option ValidatedLogin
  /-- It accepts only credentials of the user, and a counter that went back is a warning. -/
  validateLogin_listed : ∀ {userID credentials session response login},
    validateLogin userID credentials session response = some login →
    ∃ seen, credentials.find? (fun row => row.2.credentialID = login.credentialID) = some seen ∧
      (login.cloneWarning = false → seen.2.signCount ≤ login.signCount)

def credentialTaken (credentials : Table CredentialRow) (id : ℕ) (item : CredentialRow) : Bool :=
  (credentials.first fun id' row => id' ≠ id && row.credentialID = item.credentialID).isSome

/-- GORM's `Save` of a row that was read: it writes the row, and inserts it if it is gone. -/
def saveCredential (credentials : Table CredentialRow) (id : ℕ) (item : CredentialRow) :
    Except StoreError Unit × Table CredentialRow :=
  if credentialTaken credentials id item then (.error .failed, credentials)
  else if h : 0 < id then (.ok (), credentials.put id item h)
  else (.ok (), credentials.insert item)

def deleteCredentialRow (credentials : Table CredentialRow) (userID id : ℕ) :
    Except StoreError Unit × Table CredentialRow :=
  match credentials.get id with
  | none => (.error .notFound, credentials)
  | some row => if row.userID = userID then (.ok (), credentials.delete id) else (.error .notFound, credentials)

def PasskeyStore.held (s : PasskeyStore) (id : GoString) : Option Ceremony :=
  ((s.shared id).filter fun kept => s.clock < kept.2).map Prod.fst

def PasskeyStore.addLocal (s : PasskeyStore) (process : ℕ) (id : GoString) (entry : Ceremony) :
    GoString → Option Ceremony :=
  fun key => (Function.update (s.sessions process) id (some entry) key).filter fun kept => !(kept.expires < s.clock)

def PasskeyStore.takeLocal (s : PasskeyStore) (process : ℕ) (id : GoString) (purpose : Purpose) :
    Option (Ceremony × Instant) :=
  match s.sessions process id with
  | none => none
  | some entry => if entry.purpose ≠ purpose ∨ entry.expires < s.clock then none else some (entry, s.clock)

def PasskeyOp.exec [UnicodeTables] (env : PasskeyEnv) : Semantics PasskeyAns PasskeyStore Luck
  | .now, _, s => (s.clock, s)
  | .tick d, _, s => ((), { s with clock := s.clock + d })
  | .getUser id, i, s => (if i.ok then orNotFound ((s.users.get id).map (id, ·)) else .error .failed, s)
  | .userByEmail email, i, s =>
    (if i.ok then orNotFound (s.users.first fun _ row => env.sqlLower row.email = toLower email) else .error .failed, s)
  | .listByUser userID, i, s =>
    (if i.ok then .ok (s.credentials.rows.filter fun row => row.2.userID = userID) else .error .failed, s)
  | .getByCredentialID credentialID, i, s =>
    (if i.ok then orNotFound (s.credentials.first fun _ row => row.credentialID = credentialID) else .error .failed, s)
  | .create item, i, s =>
    if !i.ok || credentialTaken s.credentials 0 item then (.error .failed, s)
    else (.ok s.credentials.nextID, { s with credentials := s.credentials.insert item })
  | .update id item, i, s =>
    let result := orFailed i.ok s.credentials (saveCredential s.credentials id item)
    (result.1, { s with credentials := result.2 })
  | .delete userID id, i, s =>
    let result := orFailed i.ok s.credentials (deleteCredentialRow s.credentials userID id)
    (result.1, { s with credentials := result.2 })
  | .save id entry, i, s =>
    (i.ok, if i.ok || i.applied then
      { s with shared := Function.update s.shared id (some (entry, s.clock + ceremonyTTL)) } else s)
  | .pop id, i, s =>
    (if i.ok then s.held id else none,
      if i.ok || i.applied then { s with shared := Function.update s.shared id none } else s)
  | .storeLocal process id entry, _, s =>
    ((), { s with sessions := Function.update s.sessions process (s.addLocal process id entry) })
  | .popLocal process id purpose, _, s =>
    (s.takeLocal process id purpose,
      { s with sessions := Function.update s.sessions process (Function.update (s.sessions process) id none) })

/-! ## Calls -/

abbrev PasskeyCall := Prog PasskeyAns

def timeNow : PasskeyCall Instant := Prog.op PasskeyOp.now

def getUser (id : ℕ) : PasskeyCall (Except StoreError (ℕ × UserRow)) :=
  Prog.op (PasskeyOp.getUser id)

def userByEmail (email : GoString) : PasskeyCall (Except StoreError (ℕ × UserRow)) :=
  Prog.op (PasskeyOp.userByEmail email)

def listByUser (userID : ℕ) : PasskeyCall (Except StoreError (List (ℕ × CredentialRow))) :=
  Prog.op (PasskeyOp.listByUser userID)

def getByCredentialID (credentialID : GoString) : PasskeyCall (Except StoreError (ℕ × CredentialRow)) :=
  Prog.op (PasskeyOp.getByCredentialID credentialID)

def createCredential (item : CredentialRow) : PasskeyCall (Except StoreError ℕ) :=
  Prog.op (PasskeyOp.create item)

def updateCredential (id : ℕ) (item : CredentialRow) : PasskeyCall (Except StoreError Unit) :=
  Prog.op (PasskeyOp.update id item)

def deleteCredential (userID id : ℕ) : PasskeyCall (Except StoreError Unit) :=
  Prog.op (PasskeyOp.delete userID id)

def save (id : GoString) (entry : Ceremony) : PasskeyCall Bool := Prog.op (PasskeyOp.save id entry)

def pop (id : GoString) : PasskeyCall (Option Ceremony) := Prog.op (PasskeyOp.pop id)

def storeLocal (process : ℕ) (id : GoString) (entry : Ceremony) : PasskeyCall Unit :=
  Prog.op (PasskeyOp.storeLocal process id entry)

def popLocal (process : ℕ) (id : GoString) (purpose : Purpose) : PasskeyCall (Option (Ceremony × Instant)) :=
  Prog.op (PasskeyOp.popLocal process id purpose)

section Calls
variable (env : PasskeyEnv) (process t : ℕ)

def storeSession (id : GoString) (userID : ℕ) (session : SessionData) (purpose : Purpose) : PasskeyCall Unit := do
  let now ← timeNow
  let entry : Ceremony := ⟨userID, session, purpose, now + ceremonyTTL⟩
  if env.hasStore process then
    let saved ← save id entry
    if saved then return () else storeLocal process id entry
  else storeLocal process id entry

/-- The end of `popSession`, in the map of the process. -/
def popSessionLocal (id : GoString) (purpose : Purpose) : PasskeyCall (Option Ceremony) := do
  let taken ← popLocal process id purpose
  return taken.map Prod.fst

def popSession (id : GoString) (purpose : Purpose) : PasskeyCall (Option Ceremony) := do
  if env.hasStore process then
    match ← pop id with
    | some entry =>
      if entry.purpose ≠ purpose then return none
      else
        let now ← timeNow
        if entry.expires < now then return none else return some entry
    | none => popSessionLocal process id purpose
  else popSessionLocal process id purpose

inductive PasskeyError
  | webauthn (message : GoString)
  | missingSession
  | store (e : StoreError)
deriving DecidableEq

def unknownSession : PasskeyError := .webauthn (str "webauthn: unknown or expired session")

def notConfigured : PasskeyError := .webauthn (str "webauthn: frontend base url not configured")

structure BeginResult where
  challenge : GoString
  allowCredentials : List GoString
  sessionID : GoString
  expiresAt : Instant
deriving DecidableEq

def userHandle (userID : ℕ) : GoString := str "user-" ++ decimal userID

def beginCeremony (userID : ℕ) (session : SessionData) (purpose : Purpose) :
    PasskeyCall (Except PasskeyError BeginResult) := do
  storeSession env process (env.sessionID t) userID session purpose
  let now ← timeNow
  return .ok ⟨session.challenge, session.allowedCredentials, env.sessionID t, now + ceremonyTTL⟩

def beginRegistration (userID : ℕ) : PasskeyCall (Except PasskeyError BeginResult) := do
  if !env.configured then return .error notConfigured
  else
    match ← getUser userID with
    | .error e => return .error (.store e)
    | .ok _ =>
      match ← listByUser userID with
      | .error e => return .error (.store e)
      | .ok _ => beginCeremony env process t userID ⟨env.challenge t, userHandle userID, []⟩ .register

def finishRegistration (sessionID label response : GoString) : PasskeyCall (Except PasskeyError CredentialRow) := do
  match ← popSession env process sessionID .register with
  | none => return .error unknownSession
  | some entry =>
    if !env.configured then return .error notConfigured
    else
      match ← getUser entry.userID with
      | .error e => return .error (.store e)
      | .ok (_, user) =>
        match ← listByUser entry.userID with
        | .error e => return .error (.store e)
        | .ok credentials =>
          match env.registered user credentials entry.session response with
          | none => return .error (.webauthn (str "registration failed"))
          | some credential =>
            let item := { credential with userID := entry.userID, label := trimSpace label, lastUsedAt := none }
            match ← createCredential item with
            | .error e => return .error (.store e)
            | .ok _ => return .ok item

def beginLogin (userID : ℕ) : PasskeyCall (Except PasskeyError BeginResult) := do
  if !env.configured then return .error notConfigured
  else
    match ← getUser userID with
    | .error e => return .error (.store e)
    | .ok _ =>
      match ← listByUser userID with
      | .error e => return .error (.store e)
      | .ok credentials =>
        if credentials = [] then return .error (.webauthn (str "no credentials registered"))
        else
          beginCeremony env process t userID ⟨env.challenge t, userHandle userID,
            credentials.map fun row => row.2.credentialID⟩ .login

def decoyCredentialID [UnicodeTables] (email : GoString) : GoString :=
  env.decoyMac process (toLower (trimSpace email))

def beginLoginDecoy [UnicodeTables] (email : GoString) : PasskeyCall (Except PasskeyError BeginResult) := do
  if !env.configured then return .error notConfigured
  else beginCeremony env process t 0 ⟨env.challenge t, userHandle 0, [decoyCredentialID env process email]⟩ .login

def finishLogin (sessionID response : GoString) : PasskeyCall (Except PasskeyError ℕ) := do
  match ← popSession env process sessionID .login with
  | none => return .error unknownSession
  | some entry =>
    if !env.configured then return .error notConfigured
    else
      match ← getUser entry.userID with
      | .error e => return .error (.store e)
      | .ok _ =>
        match ← listByUser entry.userID with
        | .error e => return .error (.store e)
        | .ok credentials =>
          match env.validateLogin entry.userID credentials entry.session response with
          | none => return .error (.webauthn (str "login failed"))
          | some login =>
            if login.cloneWarning then
              return .error (.webauthn (str "webauthn: authenticator clone detected"))
            else
              match ← getByCredentialID login.credentialID with
              | .error .notFound => return .error (.webauthn (str "credential not found"))
              | .error e => return .error (.store e)
              | .ok (id, stored) =>
                let now ← timeNow
                match ← updateCredential id { stored with
                  signCount := login.signCount, backupState := login.backupState, lastUsedAt := some now } with
                | .error e => return .error (.store e)
                | .ok _ => return .ok entry.userID

/-! ## Handlers -/

/-- The requests; `user` is who is authenticated. A response is the body that the browser sends. -/
inductive PasskeyRequest
  | pass (d : ℕ)
  | beginRegistration (user : ℕ)
  | finishRegistration (user : ℕ) (sessionID label response : GoString)
  | beginLogin (email : GoString)
  | finishLogin (sessionID response : GoString)
  | deletePasskey (user id : ℕ)

structure ServedRequest where
  process : ℕ
  request : PasskeyRequest

inductive PasskeyReply
  | passed
  | begun (result : BeginResult)
  | registered (credential : CredentialRow)
  | loggedIn (userID : ℕ)
  | deleted
  | failed (e : PasskeyError)

def replyOf {α : Type} (reply : α → PasskeyReply) : Except PasskeyError α → PasskeyReply
  | .ok a => reply a
  | .error e => .failed e

def writePasskeyLoginDecoy [UnicodeTables] (email : GoString) : PasskeyCall PasskeyReply := do
  let result ← beginLoginDecoy env process t email
  return replyOf .begun result

def handleBeginPasskeyLogin [UnicodeTables] (email : GoString) : PasskeyCall PasskeyReply := do
  match ← userByEmail (toLower (trimSpace email)) with
  | .error _ => writePasskeyLoginDecoy env process t email
  | .ok (id, _) =>
    match ← beginLogin env process t id with
    | .error _ => writePasskeyLoginDecoy env process t email
    | .ok result => return .begun result

def handleFinishPasskeyRegistration (sessionID label response : GoString) : PasskeyCall PasskeyReply := do
  if trimSpace sessionID = [] then return .failed .missingSession
  else
    let result ← finishRegistration env process (trimSpace sessionID) (trimSpace label) response
    return replyOf .registered result

def handleFinishPasskeyLogin (sessionID response : GoString) : PasskeyCall PasskeyReply := do
  if trimSpace sessionID = [] then return .failed .missingSession
  else
    let result ← finishLogin env process (trimSpace sessionID) response
    return replyOf .loggedIn result

def passkeyCallOf [UnicodeTables] : PasskeyRequest → PasskeyCall PasskeyReply
  | .pass d => do
    let _ ← Prog.op (PasskeyOp.tick d)
    return .passed
  | .beginRegistration user => do
    let result ← beginRegistration env process t user
    return replyOf .begun result
  | .finishRegistration _ sessionID label response =>
    handleFinishPasskeyRegistration env process sessionID label response
  | .beginLogin email => handleBeginPasskeyLogin env process t email
  | .finishLogin sessionID response => handleFinishPasskeyLogin env process sessionID response
  | .deletePasskey user id => do
    match ← deleteCredential user id with
    | .error e => return .failed (.store e)
    | .ok _ => return .deleted

end Calls

def passkeys [UnicodeTables] (env : PasskeyEnv) : System PasskeyAns PasskeyStore Luck ServedRequest PasskeyReply where
  exec := PasskeyOp.exec env
  prog := fun t served => passkeyCallOf env served.process t served.request

abbrev PasskeyWorld := World PasskeyAns PasskeyStore
abbrev PasskeyEntry := Entry PasskeyAns
abbrev PasskeyConfig := Config PasskeyAns PasskeyStore ServedRequest PasskeyReply

/-! ## What a request asks for -/

def PasskeyRequest.finishes : PasskeyRequest → Option (GoString × Purpose)
  | .finishRegistration _ sessionID _ _ => some (trimSpace sessionID, .register)
  | .finishLogin sessionID _ => some (trimSpace sessionID, .login)
  | _ => none

def PasskeyRequest.begins : PasskeyRequest → Option Purpose
  | .beginRegistration _ => some .register
  | .beginLogin _ => some .login
  | _ => none

def MayBegin (request : PasskeyRequest) (entry : Ceremony) : Prop :=
  request.begins = some entry.purpose ∧ ∀ user, request = .beginRegistration user → entry.userID = user

def Runs (request : PasskeyRequest) : PasskeyOp → Prop
  | .save _ entry => MayBegin request entry
  | .storeLocal _ _ entry => MayBegin request entry
  | .pop id => ∃ purpose, request.finishes = some (id, purpose)
  | .popLocal _ id _ => ∃ purpose, request.finishes = some (id, purpose)
  | .create _ => ∃ user sessionID label response, request = .finishRegistration user sessionID label response
  | .update _ _ => ∃ sessionID response, request = .finishLogin sessionID response
  | .delete userID id => request = .deletePasskey userID id
  | _ => True

section Requests
variable {env : PasskeyEnv} {process t : ℕ} {request : PasskeyRequest}

variable {purpose : Purpose}

theorem storeSession_all {id : GoString} {userID : ℕ} {session : SessionData}
    (h : ∀ expires, MayBegin request ⟨userID, session, purpose, expires⟩) :
    (storeSession env process id userID session purpose).All (Runs request) := by
  refine all_op trivial fun begun => all_ite (all_op (h _) fun saved => ?_) ⟨h _, fun _ => trivial⟩
  cases saved with
  | true => trivial
  | false => exact ⟨h _, fun _ => trivial⟩

theorem beginCeremony_all {userID : ℕ} {session : SessionData}
    (h : ∀ expires, MayBegin request ⟨userID, session, purpose, expires⟩) :
    (beginCeremony env process t userID session purpose).All (Runs request) :=
  all_bind (storeSession_all h) fun _ => all_op trivial fun _ => trivial

theorem beginRegistration_all (user : ℕ) :
    (beginRegistration env process t user).All (Runs (.beginRegistration user)) := by
  refine all_ite trivial (all_op trivial fun row => ?_)
  obtain _ | row := row
  · trivial
  refine all_op trivial fun credentials => ?_
  cases credentials with
  | error e => trivial
  | ok credentials => exact beginCeremony_all fun _ => ⟨rfl, fun _ h => PasskeyRequest.beginRegistration.inj h⟩

theorem mayBegin_login (email : GoString) (userID : ℕ) (session : SessionData) (expires : Instant) :
    MayBegin (.beginLogin email) ⟨userID, session, .login, expires⟩ := ⟨rfl, fun _ h => PasskeyRequest.noConfusion h⟩

theorem beginLogin_all (email : GoString) (userID : ℕ) :
    (beginLogin env process t userID).All (Runs (.beginLogin email)) := by
  refine all_ite trivial (all_op trivial fun row => ?_)
  obtain _ | row := row
  · trivial
  refine all_op trivial fun credentials => ?_
  cases credentials with
  | error e => trivial
  | ok credentials => exact all_ite trivial (beginCeremony_all (mayBegin_login email _ _))

theorem popSession_all {P : PasskeyOp → Prop} {id : GoString} (hpop : P (.pop id)) (hnow : P .now)
    (hpopLocal : P (.popLocal process id purpose)) : (popSession env process id purpose).All P := by
  have hlocal : (popSessionLocal process id purpose).All P := all_op hpopLocal fun _ => trivial
  refine all_ite (all_op hpop fun popped => ?_) hlocal
  cases popped with
  | none => exact hlocal
  | some entry => exact all_ite trivial (all_op hnow fun now => all_ite trivial trivial)

theorem finishRegistration_all (user : ℕ) (sessionID label label' response : GoString) :
    (finishRegistration env process (trimSpace sessionID) label response).All
      (Runs (.finishRegistration user sessionID label' response)) := by
  refine all_bind (popSession_all ⟨_, rfl⟩ trivial ⟨_, rfl⟩) fun result => ?_
  cases result with
  | none => trivial
  | some entry =>
    refine all_ite trivial (all_op trivial fun row => ?_)
    obtain _ | row := row
    · trivial
    refine all_op trivial fun credentials => ?_
    obtain _ | credentials := credentials
    · trivial
    dsimp only
    split
    · trivial
    · refine all_op ⟨user, sessionID, label', response, rfl⟩ fun created => ?_
      cases created <;> trivial

theorem finishLogin_all (sessionID response : GoString) :
    (finishLogin env process (trimSpace sessionID) response).All (Runs (.finishLogin sessionID response)) := by
  refine all_bind (popSession_all ⟨_, rfl⟩ trivial ⟨_, rfl⟩) fun result => ?_
  cases result with
  | none => trivial
  | some entry =>
    refine all_ite trivial (all_op trivial fun row => ?_)
    obtain _ | row := row
    · trivial
    refine all_op trivial fun credentials => ?_
    obtain _ | credentials := credentials
    · trivial
    dsimp only
    split
    · trivial
    · refine all_ite trivial (all_op trivial fun stored => ?_)
      split
      · trivial
      · trivial
      · refine all_op trivial fun now => all_op ⟨sessionID, response, rfl⟩ fun updated => ?_
        cases updated <;> trivial

variable [UnicodeTables]

theorem writePasskeyLoginDecoy_all (email email' : GoString) :
    (writePasskeyLoginDecoy env process t email).All (Runs (.beginLogin email')) := by
  refine all_bind (all_ite trivial ?_) fun _ => trivial
  exact beginCeremony_all (mayBegin_login email' _ _)

theorem passkeyCallOf_all (request : PasskeyRequest) : (passkeyCallOf env process t request).All (Runs request) := by
  cases request with
  | pass d => exact all_op trivial fun _ => trivial
  | beginRegistration user => exact all_bind (beginRegistration_all user) fun _ => trivial
  | finishRegistration user sessionID label response =>
    exact all_ite trivial (all_bind (finishRegistration_all user sessionID _ label response) fun _ => trivial)
  | beginLogin email =>
    refine all_op trivial fun user => ?_
    obtain _ | user := user
    · exact writePasskeyLoginDecoy_all email email
    refine all_bind (beginLogin_all email user.1) fun result => ?_
    cases result with
    | error e => exact writePasskeyLoginDecoy_all email email
    | ok result => trivial
  | finishLogin sessionID response =>
    exact all_ite trivial (all_bind (finishLogin_all sessionID response) fun _ => trivial)
  | deletePasskey user id =>
    refine all_op rfl fun result => ?_
    cases result <;> trivial

end Requests

/-! ## Sample data -/

/-- `Authenticator.UpdateCounter` of the library. -/
def updateCounter (row : CredentialRow) (count : ℕ) : ValidatedLogin :=
  if count ≤ row.signCount ∧ (count ≠ 0 ∨ row.signCount ≠ 0) then ⟨row.credentialID, row.signCount, true, false⟩
  else ⟨row.credentialID, count, false, false⟩

theorem updateCounter_spec (row : CredentialRow) (count : ℕ) :
    (updateCounter row count).credentialID = row.credentialID ∧
      ((updateCounter row count).cloneWarning = false → row.signCount ≤ (updateCounter row count).signCount) := by
  rw [updateCounter]
  split
  · exact ⟨rfl, fun h => nomatch h⟩
  · rename_i hgrown
    refine ⟨rfl, fun _ => ?_⟩
    show row.signCount ≤ count
    omega

/-- An authenticator answers with the credential `k`, and counts the length of its answers. -/
def samplePasskeyEnv (hasStore : Bool) : PasskeyEnv where
  hasStore := fun _ => hasStore
  configured := true
  sqlLower := id
  sessionID := fun t => List.replicate (t + 1) 0x61
  sessionID_injective := fun t u h => by simpa using congrArg List.length h
  challenge := fun _ => []
  decoyMac := fun _ text => text
  registered := fun _ _ _ response => some ⟨0, response, [], [], [], 0, [], true, false, false, none⟩
  validateLogin := fun _ credentials _ response =>
    (credentials.find? fun row => row.2.credentialID = [0x6b]).map fun row => updateCounter row.2 response.length
  validateLogin_listed := by
    intro userID credentials session response login h
    obtain ⟨row, hfind, rfl⟩ := Option.map_eq_some_iff.mp h
    obtain ⟨hid, hcount⟩ := updateCounter_spec row.2 response.length
    have hrow := List.find?_some hfind
    rw [decide_eq_true_eq] at hrow
    rw [hid, hrow]
    exact ⟨row, hfind, hcount⟩

def passkeySteps (t n : ℕ) : List (Event ServedRequest Luck) :=
  List.replicate n (.step t ⟨true, true⟩)

end Portlyn.Auth.Passkeys
