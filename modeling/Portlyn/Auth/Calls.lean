import Portlyn.Auth.Store

/-! # The calls of the auth service (`internal/auth`)

Each function of the service as the statements it runs, in order, with what it makes of the answers.
`t` is the number of the call, from which its random values come; a call draws each of them once.
Metrics, e-mails and log lines are left out, and so is `InvalidateUser`: `cachedAuthResult` may
answer anything at any time. -/
namespace Portlyn.Auth
open Go Domain Lib Lib.Interleave
set_option autoImplicit false

abbrev Call := Prog Ans

/-! ## Statements as calls -/

def ask (op : Op) : Call (Ans op) := Prog.op op

def timeNow : Call Instant := ask .now

def isRateLimited (key : GoString) : Call Bool := ask (.isRateLimited key)

def getCachedAuthResult : Call (Option (User × List ℕ)) := ask .cachedAuthResult

def getUserGroupIDs (userID : ℕ) : Call (Except StoreError (List ℕ)) := ask (.groupIDs userID)

def getSettings : Call (Option AppSettings) := ask .settings

def userHasPasskey (userID : ℕ) : Call Bool := ask (.hasPasskey userID)

namespace Users

def getByID (id : ℕ) : Call (Except StoreError (ℕ × UserRow)) := ask (.users (.getByID id))

def getByEmail (email : GoString) : Call (Except StoreError (ℕ × UserRow)) :=
  ask (.users (.getByEmail email))

def getByProviderRef (provider : AuthProvider) (ref : GoString) : Call (Except StoreError (ℕ × UserRow)) :=
  ask (.users (.getByProviderRef provider ref))

def updateFieldsIf (id : ℕ) (user : UserRow) (guard : List UserColumn) (expected : UserRow) (fields : List UserColumn) :
    Call (Except StoreError Unit) := ask (.users (.updateFieldsIf id user guard expected fields))

def updateFields (id : ℕ) (user : UserRow) (fields : List UserColumn) : Call (Except StoreError Unit) :=
  updateFieldsIf id user [] user fields

def updateColumns (id : ℕ) (values : UserRow) (fields : List UserColumn) : Call (Except StoreError Unit) :=
  ask (.users (.updateColumns id values fields))

def updateLastLogin (id : ℕ) (time : Instant) : Call (Except StoreError Unit) :=
  ask (.users (.updateLastLogin id time))

def create (user : UserRow) : Call (Except StoreError ℕ) := ask (.users (.create user))

def delete (id : ℕ) : Call (Except StoreError Unit) := ask (.users (.delete id))

def countActiveAdmins (excludeUserID : ℕ) : Call (Except StoreError ℕ) :=
  ask (.users (.countActiveAdmins excludeUserID))

end Users

namespace LoginTokens

def create (item : LoginToken) : Call (Except StoreError ℕ) := ask (.loginTokens (.create item))

def getValidTokenByScope (email token : GoString) (scope : TokenScope) (serviceID : Option ℕ) :
    Call (Except StoreError (ℕ × LoginToken)) := ask (.loginTokens (.getValidTokenByScope email token scope serviceID))

def getValidToken (email token : GoString) : Call (Except StoreError (ℕ × LoginToken)) :=
  getValidTokenByScope email token .accountLogin none

def getMagicLink (serviceID : ℕ) (token : GoString) : Call (Except StoreError (ℕ × LoginToken)) :=
  ask (.loginTokens (.getMagicLink serviceID token))

def invalidateOutstandingByUserScope (userID : ℕ) (scope : TokenScope) (usedAt : Instant) :
    Call (Except StoreError Unit) :=
  ask (.loginTokens (.invalidateOutstandingByUserScope userID scope usedAt))

def markUsed (id : ℕ) (usedAt : Instant) : Call (Except StoreError Unit) :=
  ask (.loginTokens (.markUsed id usedAt))

def addAttempt (id : ℕ) : Call (Except StoreError Unit) := ask (.loginTokens (.addAttempt id))

def attempts (id : ℕ) : Call (Except StoreError ℕ) := ask (.loginTokens (.attempts id))

def incrementAttempts (id : ℕ) : Call (Except StoreError ℕ) := do
  match ← addAttempt id with
  | .error e => return .error e
  | .ok _ => attempts id

end LoginTokens

namespace Sessions

def create (item : SessionRow) : Call (Except StoreError ℕ) := ask (.sessions (.create item))

def getByRefreshHash (refreshHash : GoString) : Call (Except StoreError (ℕ × SessionRow)) :=
  ask (.sessions (.getByRefreshHash refreshHash))

def getByID (id : ℕ) : Call (Except StoreError (ℕ × SessionRow)) := ask (.sessions (.getByID id))

def getByTokenID (tokenID : GoString) : Call (Except StoreError (ℕ × SessionRow)) :=
  ask (.sessions (.getByTokenID tokenID))

def rotate (id : ℕ) (item : SessionRow) (previousRefreshHash : GoString) : Call (Except StoreError Unit) :=
  ask (.sessions (.rotate id item previousRefreshHash))

def touch (id : ℕ) (time : Instant) : Call (Except StoreError Unit) :=
  ask (.sessions (.touch id time))

def revoke (id : ℕ) (revokedAt : Instant) : Call (Except StoreError Unit) :=
  ask (.sessions (.revoke id revokedAt))

def revokeByUser (userID : ℕ) (revokedAt : Instant) : Call (Except StoreError Unit) :=
  ask (.sessions (.revokeByUser userID revokedAt))

def revokeByUserExcept (userID exceptSessionID : ℕ) (revokedAt : Instant) : Call (Except StoreError Unit) :=
  ask (.sessions (.revokeByUserExcept userID exceptSessionID revokedAt))

end Sessions

/-! ## Results -/

inductive CallError
  | inactiveUser
  | invalidCredentials
  | invalidToken
  | localLoginDisabled
  | otpDisabled
  | rateLimited
  | otpExpired
  | otpUsed
  | sessionRevoked
  | refreshExpired
  | mfaCodeInvalid
  | mfaSetupRequired
  | breakGlassRejected
  | accountSetupDone
  | magicLinkUsed
  | magicLinkExpired
  | passwordHash
  | store (e : StoreError)
deriving DecidableEq

structure RequestMetadata where
  remoteAddr : GoString
  userAgent : GoString

inductive LoginResult
  | session (token : Claims) (refreshToken : GoString) (user : UserRow) (session : SessionRow)
      (bootstrapRequired : Bool)
  | mfaRequired (user : UserRow) (mfaToken : GoString) (mfaExpiresAt : Instant)

structure MFAStatus where
  enabled : Bool
  pendingSetup : Bool
  recoveryCodeCount : ℕ
  requireForAdmins : Bool
  requiredForCurrent : Bool

section Tables
variable [UnicodeTables] (env : Env) (t : ℕ)

/-! ## Logins -/

def rateLimitRemoteAddr (remoteAddr : GoString) : GoString :=
  match splitHostPort (trimSpace remoteAddr) with
  | some (host, _) => host
  | none => trimSpace remoteAddr

/-- The draws of a call: `randomCode(16)` and `randomCode(24)` of a session, `randomCode(18)` of a
challenge, and the eight of a set of recovery codes. -/
def Env.newTokenID : GoString := env.randomCode t 0
def Env.newRefreshToken : GoString := env.randomCode t 1
def Env.newChallengeToken : GoString := env.randomCode t 2

def Env.newRecoveryCode (k : ℕ) : GoString :=
  let value := env.randomCode t (3 + k)
  value.take 5 ++ 0x2D :: (value.drop 5).take 5

def Env.generateRecoveryCodes : List GoString := (List.range 8).map (env.newRecoveryCode t)

def issueToken (userID sessionID : ℕ) (session : SessionRow) : Claims :=
  ⟨userID, sessionID, session.tokenID⟩

def createSession (userID : ℕ) (metadata : RequestMetadata) : Call (Except CallError (ℕ × SessionRow × GoString)) := do
  let now ← timeNow
  let session : SessionRow := {
    userID := userID
    tokenID := env.newTokenID t
    refreshTokenHash := env.hashToken (env.newRefreshToken t)
    userAgent := trimSpace metadata.userAgent
    remoteAddr := rateLimitRemoteAddr metadata.remoteAddr
    lastSeenAt := some now
    expiresAt := now + env.refreshTokenTTL
    revokedAt := none
    bootstrapDismissed := false }
  match ← Sessions.create session with
  | .error e => return .error (.store e)
  | .ok id => return .ok (id, session, env.newRefreshToken t)

def bootstrapRequiredCall (userID : ℕ) (user : UserRow) : Call Bool := do
  if user.mustChangePassword then return true
  else if user.mfaEnabled then return false
  else if user.role ≠ .admin then return false
  else
    match ← getSettings with
    | none => return false
    | some settings =>
      if settings.requireMFAForAdmins then
        let passkey ← userHasPasskey userID
        return !passkey
      else return false

def completeSuccessfulLogin (userID : ℕ) (user : UserRow) (metadata : RequestMetadata) :
    Call (Except CallError LoginResult) := do
  let now ← timeNow
  match ← Users.updateLastLogin userID now with
  | .error e => return .error (.store e)
  | .ok _ =>
    let user := { user with lastLoginAt := some now }
    match ← createSession env t userID metadata with
    | .error e => return .error e
    | .ok (sessionID, session, refreshToken) =>
      let required ← bootstrapRequiredCall userID user
      return .ok (.session (issueToken userID sessionID session) refreshToken user session required)

def mfaChallengeTTL : ℤ := 600 * 1000000000

def beginMFAChallenge (userID : ℕ) (user : UserRow) : Call (Except CallError LoginResult) := do
  if !user.mfaEnabled then return .error .mfaSetupRequired
  else
    let now ← timeNow
    match ← LoginTokens.invalidateOutstandingByUserScope userID .mfaLogin now with
    | .error e => return .error (.store e)
    | .ok _ =>
      let item : LoginToken := {
        userID := some userID
        serviceID := none
        email := user.email
        token := env.hashToken (env.newChallengeToken t)
        scope := .mfaLogin
        expiresAt := now + mfaChallengeTTL
        usedAt := none
        attemptCount := 0 }
      match ← LoginTokens.create item with
      | .error e => return .error (.store e)
      | .ok _ => return .ok (.mfaRequired user (env.newChallengeToken t) item.expiresAt)

def completePrimaryLogin (userID : ℕ) (user : UserRow) (metadata : RequestMetadata) :
    Call (Except CallError LoginResult) :=
  if user.mfaEnabled then beginMFAChallenge env t userID user else completeSuccessfulLogin env t userID user metadata

def checkPassword (hash password : GoString) : Bool := hash ≠ [] && env.bcryptMatches hash password

def localLoginDisabled : Call Bool := do
  match ← getSettings with
  | none => return false
  | some settings => return settings.localLoginDisabled

def login (email password : GoString) (metadata : RequestMetadata) : Call (Except CallError LoginResult) := do
  let email := toLower (trimSpace email)
  if ← localLoginDisabled then return .error .localLoginDisabled
  else if ← isRateLimited (str "pwd:" ++ email) then return .error .rateLimited
  else if ← isRateLimited (str "pwd-ip:" ++ rateLimitRemoteAddr metadata.remoteAddr) then return .error .rateLimited
  else
    match ← Users.getByEmail email with
    | .error .notFound => return .error .invalidCredentials
    | .error e => return .error (.store e)
    | .ok (id, user) =>
      if user.passwordHash = [] then return .error .invalidCredentials
      else if !checkPassword env user.passwordHash password then return .error .invalidCredentials
      else if !user.active then return .error .inactiveUser
      else completePrimaryLogin env t id user metadata

def loginBreakGlass (email password : GoString) (metadata : RequestMetadata) : Call (Except CallError LoginResult) := do
  let email := toLower (trimSpace email)
  if ← isRateLimited (str "breakglass:" ++ email) then return .error .rateLimited
  else if ← isRateLimited (str "breakglass-ip:" ++ rateLimitRemoteAddr metadata.remoteAddr) then
    return .error .rateLimited
  else
    match ← Users.getByEmail email with
    | .error .notFound => return .error .invalidCredentials
    | .error e => return .error (.store e)
    | .ok (id, user) =>
      if user.role ≠ .admin ∨ user.authProvider ≠ .password then return .error .breakGlassRejected
      else if !checkPassword env user.passwordHash password then return .error .invalidCredentials
      else if !user.active then return .error .inactiveUser
      else completeSuccessfulLogin env t id user metadata

def completePasskeyLogin (userID : ℕ) (metadata : RequestMetadata) : Call (Except CallError LoginResult) := do
  match ← Users.getByID userID with
  | .error e => return .error (.store e)
  | .ok (id, user) =>
    if !user.active then return .error .inactiveUser else completeSuccessfulLogin env t id user metadata

/-- `currentOTPConfig(ctx).Enabled`. -/
def otpEnabled : Call Bool := do
  match ← getSettings with
  | none => return env.fallbackOTPEnabled
  | some settings => return settings.otpEnabled

/-! ## One-time tokens -/

def verifyOTP (email token : GoString) (metadata : RequestMetadata) : Call (Except CallError LoginResult) := do
  if !(← otpEnabled env) then return .error .otpDisabled
  else
    let email := toLower (trimSpace email)
    let now ← timeNow
    if ← isRateLimited (str "otp-verify:" ++ email) then return .error .rateLimited
    else if ← isRateLimited (str "otp-verify-ip:" ++ rateLimitRemoteAddr metadata.remoteAddr) then
      return .error .rateLimited
    else
      match ← LoginTokens.getValidToken email token with
      | .error .notFound => return .error .invalidCredentials
      | .error e => return .error (.store e)
      | .ok (id, item) =>
        if item.usedAt ≠ none then return .error .otpUsed
        else if item.expiresAt < now then return .error .otpExpired
        else
          match item.userID with
          | none => return .error .invalidCredentials
          | some userID =>
            match ← Users.getByID userID with
            | .error e => return .error (.store e)
            | .ok (userID, user) =>
              if !user.active then return .error .inactiveUser
              else
                match ← LoginTokens.markUsed id now with
                | .error e => return .error (.store e)
                | .ok _ => completePrimaryLogin env t userID user metadata

def verifyRouteEmailCode (serviceID : ℕ) (email code : GoString) : Call (Except CallError Unit) :=
  do
  let email := toLower (trimSpace email)
  let now ← timeNow
  match ← LoginTokens.getValidTokenByScope email code .routeAccess (some serviceID) with
  | .error .notFound => return .error .invalidCredentials
  | .error e => return .error (.store e)
  | .ok (id, item) =>
    if item.usedAt ≠ none then return .error .otpUsed
    else if item.expiresAt < now then return .error .otpExpired
    else
      match ← LoginTokens.markUsed id now with
      | .error e => return .error (.store e)
      | .ok _ => return .ok ()

def consumeMagicLink (serviceID : ℕ) (token remoteAddr : GoString) : Call (Except CallError Unit) :=
  do
  if serviceID = 0 ∨ trimSpace token = [] then return .error .invalidToken
  else if ← isRateLimited (str "magic-consume:" ++ rateLimitRemoteAddr remoteAddr) then return .error .rateLimited
  else
    match ← LoginTokens.getMagicLink serviceID token with
    | .error .notFound => return .error .invalidToken
    | .error e => return .error (.store e)
    | .ok (id, item) =>
      let now ← timeNow
      if item.usedAt ≠ none then return .error .magicLinkUsed
      else if item.expiresAt < now then return .error .magicLinkExpired
      else
        match ← LoginTokens.markUsed id now with
        | .error e => return .error (.store e)
        | .ok _ => return .ok ()

/-! ## Second factors -/

def maxMFAAttempts : ℕ := 5

def mfaColumns : List UserColumn :=
  [.mfaEnabled, .mfaSecret, .mfaPendingSecret, .mfaRecoveryCodes, .mfaPendingRecoveryCodes, .mfaLastTOTPCounter]

/-- The guard of `CompleteMFA` and `RegenerateRecoveryCodes`, with `true` for `mfa_enabled`. -/
def mfaGuard : List UserColumn := [.mfaEnabled, .mfaSecret, .mfaLastTOTPCounter]

/-- A wrong code is counted, and the challenge is used up by the last one that is allowed. -/
def countWrongCode (id : ℕ) (now : Instant) : Call Unit := do
  match ← LoginTokens.incrementAttempts id with
  | .error _ => return ()
  | .ok attempts =>
    if maxMFAAttempts ≤ attempts then
      let _ ← LoginTokens.markUsed id now
      return ()
    else return ()

/-- What `CompleteMFA` does once the challenge is used: it stores what is left of the codes and the
counter. -/
def saveMFAFactor (userID : ℕ) (user : UserRow) (verdict : Verdict) (metadata : RequestMetadata) :
    Call (Except CallError LoginResult) := do
  let user' := { user with mfaLastTOTPCounter := verdict.counter }
  if verdict.remaining.length ≠ user.mfaRecoveryCodes.length ∨ verdict.counter ≠ user.mfaLastTOTPCounter then
    let user' := { user' with mfaRecoveryCodes := verdict.remaining }
    match ← Users.updateFieldsIf userID user' mfaGuard { user with mfaEnabled := true }
      [.mfaRecoveryCodes, .mfaLastTOTPCounter] with
    | .error .stale => return .error .mfaCodeInvalid
    | .error e => return .error (.store e)
    | .ok _ => completeSuccessfulLogin env t userID user' metadata
  else completeSuccessfulLogin env t userID user' metadata

def completeMFA (mfaToken code : GoString) (metadata : RequestMetadata) : Call (Except CallError LoginResult) := do
  let now ← timeNow
  if ← isRateLimited (str "mfa-ip:" ++ rateLimitRemoteAddr metadata.remoteAddr) then return .error .rateLimited
  else
    match ← LoginTokens.getValidTokenByScope [] mfaToken .mfaLogin none with
    | .error _ => return .error .invalidToken
    | .ok (id, item) =>
      if item.usedAt ≠ none then return .error .invalidToken
      else if item.expiresAt < now then return .error .invalidToken
      else
        match item.userID with
        | none => return .error .invalidToken
        | some userID =>
          if ← isRateLimited (str "mfa-user:" ++ decimal userID) then return .error .rateLimited
          else if maxMFAAttempts ≤ item.attemptCount then
            let _ ← LoginTokens.markUsed id now
            return .error .rateLimited
          else
            match ← Users.getByID userID with
            | .error e => return .error (.store e)
            | .ok (userID, user) =>
              if !user.active then return .error .inactiveUser
              else
                let verdict ← (ask (.verifyMFAFactor userID user code) : Call Verdict)
                match verdict.factor with
                | none =>
                  countWrongCode id now
                  return .error .mfaCodeInvalid
                | some _ =>
                  match ← LoginTokens.markUsed id now with
                  | .error e => return .error (.store e)
                  | .ok _ => saveMFAFactor env t userID user verdict metadata

def mfaStatusForUser (userID : ℕ) : Call (Except CallError MFAStatus) := do
  match ← Users.getByID userID with
  | .error e => return .error (.store e)
  | .ok (_, user) =>
    let settings ← getSettings
    let requireForAdmins := settings.any fun settings => settings.requireMFAForAdmins
    return .ok {
      enabled := user.mfaEnabled
      pendingSetup := trimSpace user.mfaPendingSecret ≠ []
      recoveryCodeCount := user.mfaRecoveryCodes.length
      requireForAdmins := requireForAdmins
      requiredForCurrent := requireForAdmins && user.role = .admin }

/-! ## Sessions -/

def revokeAllUserSessions (userID : ℕ) : Call (Except CallError Unit) := do
  let now ← timeNow
  match ← Sessions.revokeByUser userID now with
  | .error e => return .error (.store e)
  | .ok _ => return .ok ()

def revokeOtherUserSessions (userID keepSessionID : ℕ) : Call (Except CallError Unit) := do
  let now ← timeNow
  match ← Sessions.revokeByUserExcept userID keepSessionID now with
  | .error e => return .error (.store e)
  | .ok _ => return .ok ()

/-- What follows a change of credentials: the sessions but the caller's own end. Errors are ignored.
-/
def endOtherSessions (userID : ℕ) (current : Option ℕ) : Call Unit := do
  match current with
  | some sessionID =>
    let _ ← revokeOtherUserSessions userID sessionID
    return ()
  | none =>
    let _ ← revokeAllUserSessions userID
    return ()

def revokeSession (userID sessionID : ℕ) : Call (Except CallError Unit) := do
  match ← Sessions.getByID sessionID with
  | .error e => return .error (.store e)
  | .ok (_, session) =>
    if session.userID ≠ userID then return .error (.store .notFound)
    else
      let now ← timeNow
      match ← Sessions.revoke sessionID now with
      | .error e => return .error (.store e)
      | .ok _ => return .ok ()

def firstNonEmpty (a b : GoString) : GoString := if trimSpace a ≠ [] then trimSpace a else trimSpace b

def refreshSession (refreshToken : GoString) (metadata : RequestMetadata) : Call (Except CallError LoginResult) := do
  match ← Sessions.getByRefreshHash (env.hashToken refreshToken) with
  | .error _ => return .error .invalidToken
  | .ok (id, session) =>
    let now ← timeNow
    if session.revokedAt ≠ none then return .error .sessionRevoked
    else if session.expiresAt < now then return .error .refreshExpired
    else
      match ← Users.getByID session.userID with
      | .error e => return .error (.store e)
      | .ok (userID, user) =>
        if !user.active then return .error .inactiveUser
        else
          let rotated : SessionRow := { session with
            tokenID := env.newTokenID t
            refreshTokenHash := env.hashToken (env.newRefreshToken t)
            userAgent := firstNonEmpty (trimSpace metadata.userAgent) session.userAgent
            remoteAddr := firstNonEmpty (rateLimitRemoteAddr metadata.remoteAddr) session.remoteAddr
            lastSeenAt := some now
            expiresAt := now + env.refreshTokenTTL }
          match ← Sessions.rotate id rotated session.refreshTokenHash with
          | .error .notFound => return .error .sessionRevoked
          | .error e => return .error (.store e)
          | .ok _ => return .ok (.session (issueToken userID id rotated) (env.newRefreshToken t) user rotated false)

abbrev CallIdentity := User × List ℕ × Option (ℕ × SessionRow)

def checkSessionRow (session : SessionRow) : Call (Except CallError Instant) := do
  if session.revokedAt ≠ none then return .error .sessionRevoked
  else
    let now ← timeNow
    if session.expiresAt < now then return .error .refreshExpired else return .ok now

/-- The session of an access token. On the path without a cached result its use is recorded
(`touch`), and only `ErrNotFound` of that statement counts. -/
def accessTokenSessionCall (claims : Claims) (touch : Bool) : Call (Except CallError (Option (ℕ × SessionRow))) := do
  if claims.sessionID = 0 then return .ok none
  else
    match ← Sessions.getByTokenID claims.tokenID with
    | .error _ => return .error .invalidToken
    | .ok (id, session) =>
      match ← checkSessionRow session with
      | .error e => return .error e
      | .ok now =>
        if touch then
          match ← Sessions.touch id now with
          | .error .notFound => return .error .sessionRevoked
          | _ => return .ok (some (id, { session with lastSeenAt := some now }))
        else return .ok (some (id, session))

/-- `AuthenticateAccessToken`, once the signature of the token has been verified. -/
def authenticateAccessTokenCall (claims : Claims) : Call (Except CallError CallIdentity) := do
  match ← getCachedAuthResult with
  | some (user, groupIDs) =>
    if !user.active then return .error .inactiveUser
    else
      match ← accessTokenSessionCall claims false with
      | .error e => return .error e
      | .ok session => return .ok (user, groupIDs, session)
  | none =>
    match ← Users.getByID claims.userID with
    | .error e => return .error (.store e)
    | .ok (id, user) =>
      if !user.active then return .error .inactiveUser
      else
        match ← accessTokenSessionCall claims true with
        | .error e => return .error e
        | .ok session =>
          match ← getUserGroupIDs id with
          | .error e => return .error (.store e)
          | .ok groupIDs => return .ok (user.toUser id, groupIDs, session)

def hostSessionForCall (claims : HostSessionClaims) : Call (Except CallError (ℕ × SessionRow)) := do
  if claims.sessionID = 0 then return .error .invalidToken
  else
    match ← Sessions.getByID claims.sessionID with
    | .error _ => return .error .invalidToken
    | .ok (id, session) =>
      if session.userID ≠ claims.userID then return .error .invalidToken
      else
        match ← checkSessionRow session with
        | .error e => return .error e
        | .ok _ => return .ok (id, session)

/-- `AuthenticateHostSessionToken`, once the signature and the host of the token have been verified.
-/
def authenticateHostSessionTokenCall (claims : HostSessionClaims) : Call (Except CallError CallIdentity) := do
  match ← hostSessionForCall claims with
  | .error e => return .error e
  | .ok session =>
    match ← getCachedAuthResult with
    | some (user, groupIDs) =>
      if !user.active then return .error .inactiveUser else return .ok (user, groupIDs, some session)
    | none =>
      match ← Users.getByID claims.userID with
      | .error e => return .error (.store e)
      | .ok (id, user) =>
        if !user.active then return .error .inactiveUser
        else
          match ← getUserGroupIDs id with
          | .error e => return .error (.store e)
          | .ok groupIDs => return .ok (user.toUser id, groupIDs, some session)

/-! ## Changes of credentials -/

def enableTOTP (userID : ℕ) (code : GoString) (current : Option ℕ) : Call (Except CallError MFAStatus) := do
  match ← Users.getByID userID with
  | .error e => return .error (.store e)
  | .ok (id, user) =>
    match decryptSecret env user.mfaPendingSecret with
    | none => return .error .invalidToken
    | some secret =>
      if secret = [] then return .error .invalidToken
      else
        match ← (ask (.validateTOTP id secret code) : Call (Option ℕ)) with
        | none => return .error .mfaCodeInvalid
        | some counter =>
          let user' := { user with
            mfaLastTOTPCounter := counter
            mfaEnabled := true
            mfaSecret := user.mfaPendingSecret
            mfaPendingSecret := []
            mfaRecoveryCodes := user.mfaPendingRecoveryCodes
            mfaPendingRecoveryCodes := [] }
          match ← Users.updateFieldsIf id user' [.mfaPendingSecret] user mfaColumns with
          | .error .stale => return .error .invalidToken
          | .error e => return .error (.store e)
          | .ok _ =>
            endOtherSessions id current
            mfaStatusForUser userID

def disableMFA (userID : ℕ) (code : GoString) : Call (Except CallError MFAStatus) := do
  match ← Users.getByID userID with
  | .error e => return .error (.store e)
  | .ok (id, user) =>
    if !user.mfaEnabled then mfaStatusForUser userID
    else
      let verdict ← (ask (.verifyMFAFactor id user code) : Call Verdict)
      match verdict.factor with
      | none => return .error .mfaCodeInvalid
      | some _ =>
        let user' := { user with
          mfaLastTOTPCounter := verdict.counter
          mfaEnabled := false
          mfaSecret := []
          mfaPendingSecret := []
          mfaRecoveryCodes := verdict.remaining
          mfaPendingRecoveryCodes := [] }
        match ← Users.updateFieldsIf id user' [.mfaSecret, .mfaEnabled] { user with mfaEnabled := true } mfaColumns with
        -- a row that has changed is taken for one where MFA is off already
        | .error .stale => mfaStatusForUser userID
        | .error e => return .error (.store e)
        | .ok _ => mfaStatusForUser userID

def regenerateRecoveryCodes (userID : ℕ) (code : GoString) : Call (Except CallError (List GoString)) := do
  match ← Users.getByID userID with
  | .error e => return .error (.store e)
  | .ok (id, user) =>
    let verdict ← (ask (.verifyMFAFactor id user code) : Call Verdict)
    match verdict.factor with
    | none => return .error .mfaCodeInvalid
    | some _ =>
      let recoveryCodes := env.generateRecoveryCodes t
      let user' := { user with
        mfaLastTOTPCounter := verdict.counter
        mfaRecoveryCodes := recoveryCodes.map env.hashToken }
      match ← Users.updateFieldsIf id user' mfaGuard { user with mfaEnabled := true }
        [.mfaRecoveryCodes, .mfaLastTOTPCounter] with
      | .error .stale => return .error .mfaCodeInvalid
      | .error e => return .error (.store e)
      | .ok _ => return .ok recoveryCodes

/-- What `CompleteAccountSetup` does once the e-mail is known to be free. -/
def saveAccountSetup (id : ℕ) (user : UserRow) (email password : GoString) (current : Option ℕ) :
    Call (Except CallError UserRow) := do
  match env.bcryptHash t password with
  | none => return .error .passwordHash
  | some hash =>
    let user' := { user with email := email, passwordHash := hash, mustChangePassword := false }
    match ← Users.updateFieldsIf id user' [.mustChangePassword] { user with mustChangePassword := true }
      [.email, .passwordHash, .mustChangePassword] with
    | .error .stale => return .error .accountSetupDone
    | .error e => return .error (.store e)
    | .ok _ =>
      endOtherSessions id current
      return .ok user'

def completeAccountSetup (userID : ℕ) (email password : GoString) (current : Option ℕ) :
    Call (Except CallError UserRow) := do
  match ← Users.getByID userID with
  | .error e => return .error (.store e)
  | .ok (id, user) =>
    if !user.mustChangePassword then return .error .accountSetupDone
    else
      let email := toLower (trimSpace email)
      if email = [] then return .error .invalidCredentials
      else
        match ← Users.getByEmail email with
        | .error .notFound => saveAccountSetup env t id user email password current
        | .error e => return .error (.store e)
        | .ok (existingID, _) =>
          if existingID ≠ id then return .error (.store .conflict)
          else saveAccountSetup env t id user email password current

def changeOwnPassword (userID : ℕ) (currentPassword newPassword : GoString) (current : Option ℕ) :
    Call (Except CallError Unit) := do
  match ← Users.getByID userID with
  | .error e => return .error (.store e)
  | .ok (id, user) =>
    if user.authProvider ≠ .other [] ∧ user.authProvider ≠ .password ∧ user.passwordHash = [] then
      return .error .invalidCredentials
    else if !checkPassword env user.passwordHash currentPassword then return .error .invalidCredentials
    else
      match env.bcryptHash t newPassword with
      | none => return .error .passwordHash
      | some hash =>
        let user' := { user with passwordHash := hash, mustChangePassword := false }
        match ← Users.updateFieldsIf id user' [.passwordHash] user [.passwordHash, .mustChangePassword] with
        | .error .stale => return .error .invalidCredentials
        | .error e => return .error (.store e)
        | .ok _ =>
          endOtherSessions id current
          return .ok ()

/-! ## Requests -/

inductive Reply
  | done
  | login (result : LoginResult)
  | session (created : ℕ × SessionRow × GoString)
  | status (status : MFAStatus)
  | recoveryCodes (codes : List GoString)
  | account (user : UserRow)
  | identity (identity : CallIdentity)

/-- `current` is the session of the request that makes the call, if it has one. `tick` lets time
pass. -/
inductive ServiceRequest
  | tick (d : ℕ)
  | login (email password : GoString) (metadata : RequestMetadata)
  | loginBreakGlass (email password : GoString) (metadata : RequestMetadata)
  | completePasskeyLogin (userID : ℕ) (metadata : RequestMetadata)
  | verifyOTP (email token : GoString) (metadata : RequestMetadata)
  | verifyRouteEmailCode (serviceID : ℕ) (email code : GoString)
  | consumeMagicLink (serviceID : ℕ) (token remoteAddr : GoString)
  | beginMFAChallenge (userID : ℕ) (user : UserRow)
  | completeMFA (mfaToken code : GoString) (metadata : RequestMetadata)
  | enableTOTP (userID : ℕ) (code : GoString) (current : Option ℕ)
  | disableMFA (userID : ℕ) (code : GoString)
  | regenerateRecoveryCodes (userID : ℕ) (code : GoString)
  | completeAccountSetup (userID : ℕ) (email password : GoString) (current : Option ℕ)
  | changeOwnPassword (userID : ℕ) (currentPassword newPassword : GoString) (current : Option ℕ)
  | createSession (userID : ℕ) (metadata : RequestMetadata)
  | refreshSession (refreshToken : GoString) (metadata : RequestMetadata)
  | revokeSession (userID sessionID : ℕ)
  | revokeAllUserSessions (userID : ℕ)
  | revokeOtherUserSessions (userID keepSessionID : ℕ)
  | authenticateAccessToken (claims : Claims)
  | authenticateHostSessionToken (claims : HostSessionClaims)

def replying {α : Type} (reply : α → Reply) (call : Call (Except CallError α)) : Call (Except CallError Reply) := do
  let result ← call
  return result.map reply

def callOf : ServiceRequest → Call (Except CallError Reply)
  | .tick d => do
    let _ ← ask (.tick d)
    return .ok .done
  | .login email password metadata => replying .login (login env t email password metadata)
  | .loginBreakGlass email password metadata => replying .login (loginBreakGlass env t email password metadata)
  | .completePasskeyLogin userID metadata => replying .login (completePasskeyLogin env t userID metadata)
  | .verifyOTP email token metadata => replying .login (verifyOTP env t email token metadata)
  | .verifyRouteEmailCode serviceID email code => replying (fun _ => .done) (verifyRouteEmailCode serviceID email code)
  | .consumeMagicLink serviceID token remoteAddr =>
    replying (fun _ => .done) (consumeMagicLink serviceID token remoteAddr)
  | .beginMFAChallenge userID user => replying .login (beginMFAChallenge env t userID user)
  | .completeMFA mfaToken code metadata => replying .login (completeMFA env t mfaToken code metadata)
  | .enableTOTP userID code current => replying .status (enableTOTP env userID code current)
  | .disableMFA userID code => replying .status (disableMFA userID code)
  | .regenerateRecoveryCodes userID code => replying .recoveryCodes (regenerateRecoveryCodes env t userID code)
  | .completeAccountSetup userID email password current =>
    replying .account (completeAccountSetup env t userID email password current)
  | .changeOwnPassword userID currentPassword newPassword current =>
    replying (fun _ => .done) (changeOwnPassword env t userID currentPassword newPassword current)
  | .createSession userID metadata => replying .session (createSession env t userID metadata)
  | .refreshSession refreshToken metadata => replying .login (refreshSession env t refreshToken metadata)
  | .revokeSession userID sessionID => replying (fun _ => .done) (revokeSession userID sessionID)
  | .revokeAllUserSessions userID => replying (fun _ => .done) (revokeAllUserSessions userID)
  | .revokeOtherUserSessions userID keepSessionID =>
    replying (fun _ => .done) (revokeOtherUserSessions userID keepSessionID)
  | .authenticateAccessToken claims => replying .identity (authenticateAccessTokenCall claims)
  | .authenticateHostSessionToken claims => replying .identity (authenticateHostSessionTokenCall claims)

def service (env : Env) : System Ans Store Chance ServiceRequest (Except CallError Reply) where
  exec := Op.exec env
  prog := fun t request => callOf env t request

end Tables

/-! ## What completes a login -/

section Completion
variable (env : Env) {t : ℕ}

/-- The statements that follow the check of the credentials: a session is created, or a challenge in
place of the older ones. -/
def Op.completesLogin : Op → Bool
  | .now => true
  | .settings => true
  | .hasPasskey _ => true
  | .users (.updateLastLogin ..) => true
  | .loginTokens (.invalidateOutstandingByUserScope ..) => true
  | .loginTokens (.create _) => true
  | .sessions (.create _) => true
  | _ => false

def CompletesLogin (op : Op) : Prop := op.completesLogin = true

theorem all_createSession (userID : ℕ) (metadata : RequestMetadata) :
    (createSession env t userID metadata).All CompletesLogin := by
  refine all_op rfl fun now => all_op rfl fun stored => ?_
  cases stored <;> trivial

theorem all_bootstrapRequiredCall (userID : ℕ) (user : UserRow) :
    (bootstrapRequiredCall userID user).All CompletesLogin := by
  refine all_ite trivial (all_ite trivial (all_ite trivial (all_op rfl fun settings => ?_)))
  cases settings with
  | none => trivial
  | some settings => exact all_ite (all_op rfl fun _ => trivial) trivial

theorem all_completeSuccessfulLogin (userID : ℕ) (user : UserRow) (metadata : RequestMetadata) :
    (completeSuccessfulLogin env t userID user metadata).All CompletesLogin := by
  refine all_op rfl fun now => all_op rfl fun saved => ?_
  cases saved with
  | error e => trivial
  | ok _ =>
    refine all_bind (all_createSession env userID metadata) fun created => ?_
    cases created with
    | error e => trivial
    | ok created => exact all_bind (all_bootstrapRequiredCall userID _) fun _ => trivial

theorem all_beginMFAChallenge (userID : ℕ) (user : UserRow) :
    (beginMFAChallenge env t userID user).All CompletesLogin := by
  refine all_ite trivial (all_op rfl fun now => all_op rfl fun invalidated => ?_)
  cases invalidated with
  | error e => trivial
  | ok _ =>
    refine all_op rfl fun created => ?_
    cases created <;> trivial

theorem all_completePrimaryLogin (userID : ℕ) (user : UserRow) (metadata : RequestMetadata) :
    (completePrimaryLogin env t userID user metadata).All CompletesLogin :=
  all_ite (all_beginMFAChallenge env userID user) (all_completeSuccessfulLogin env userID user metadata)

end Completion

/-! ## A service to run -/

def sampleEnv : Env where
  hashToken := id
  decrypt := some
  hotp := fun _ counter => [counter.toUInt8]
  bcryptMatches := fun hash password => hash = password
  bcryptHash := fun _ password => some password
  sqlLower := id
  toUpper := id
  randomCode := fun call draw => [call.toUInt8, draw.toUInt8]
  refreshTokenTTL := 3600 * 1000000000
  fallbackOTPEnabled := false

def sampleUser : UserRow where
  email := [0x61]
  passwordHash := [0x70]
  role := .viewer
  active := true
  mustChangePassword := false
  mfaEnabled := true
  mfaSecret := [0x73]
  mfaPendingSecret := []
  mfaRecoveryCodes := []
  mfaPendingRecoveryCodes := []
  mfaLastTOTPCounter := 0
  authProvider := .password
  authProviderRef := []
  authIssuer := []
  displayName := []
  username := []
  lastLoginAt := none

def sampleStore (user : UserRow) (tokens : Table LoginToken) : Store where
  users := Table.empty.insert user
  loginTokens := tokens
  sessions := .empty
  appSettings := { requireMFAForAdmins := false, localLoginDisabled := false, otpEnabled := true }
  groups := fun _ => []
  passkeys := fun _ => false
  clock := 0

def fine : Chance := ⟨true, false, none⟩

def sampleMetadata : RequestMetadata := ⟨[], []⟩

/-- The next `n` statements of a call. -/
def steps (t n : ℕ) : List (Event ServiceRequest Chance) := List.replicate n (.step t fine)

end Portlyn.Auth
