import Portlyn.Domain
import Portlyn.Go.Http

/-! # Who a request comes from (`internal/auth`)

`AuthService` holds what the functions read: the answers of the stores, the results of verifying a
signed token with each key, and the clock. Verification itself, hashing, and the writes that record
a use (last seen, cache fill) are not modelled.

Whoever is authenticated is an active user, and its session, where there is one, is neither revoked
nor expired (`authenticateHostRequest_live`). -/
namespace Portlyn.Auth
open Go Domain
set_option autoImplicit false

/-! ## Tokens and stores -/

inductive AuthError
  | invalidToken
  | inactiveUser
  | sessionRevoked
  | refreshExpired
  | notFound
deriving DecidableEq

structure Claims where
  userID : ℕ
  sessionID : ℕ
  tokenID : GoString

structure HostSessionClaims where
  userID : ℕ
  sessionID : ℕ
  tokenType : GoString

structure RouteAccessClaims where
  serviceID : ℕ
  method : GoString
  email : GoString
deriving DecidableEq

/-- `touched` is false when recording the use finds that the session is gone. -/
structure SessionStore where
  getByTokenID : GoString → Option Session
  getByID : ℕ → Option Session
  touched : ℕ → Bool

structure Settings where
  requireMFAForAdmins : Bool

structure AuthService where
  now : Instant
  /-- `FindActiveByPrefix` of the API token store, if one is configured. -/
  apiTokens : Option (GoString → Option APIToken)
  hashAPIToken : GoString → GoString
  /-- Signature and expiry of an access token. -/
  verifyAccess : GoString → Option Claims
  /-- Signature, audience and expiry of a host session token. -/
  verifyHostSession : (token host : GoString) → Option HostSessionClaims
  /-- Signature and expiry of a route access cookie. -/
  verifyRouteAccess : GoString → Option RouteAccessClaims
  sessions : Option SessionStore
  getUser : ℕ → Option User
  getUserGroupIDs : ℕ → Option (List ℕ)
  getCachedAuthResult : GoString → Option (User × List ℕ)
  settings : Option Settings
  userHasPasskey : ℕ → Bool
  /-- A token with a valid signature of this installation, whatever it claims. -/
  signedHere : GoString → Bool

abbrev Identity := User × List ℕ × Option Session

/-! ## Access tokens -/

def checkSession (now : Instant) (session : Session) : Except AuthError Session :=
  if session.revokedAt ≠ none then .error .sessionRevoked
  else if session.expiresAt < now then .error .refreshExpired
  else .ok session

def accessTokenSession (s : AuthService) (claims : Claims) : Except AuthError (Option Session) :=
  match s.sessions with
  | none => .ok none
  | some store =>
    if claims.sessionID = 0 then .ok none
    else
      match store.getByTokenID claims.tokenID with
      | none => .error .invalidToken
      | some session => (checkSession s.now session).map some

/-- On a cache miss the use of the session is recorded, which fails for a session that is gone. -/
def touchSession (s : AuthService) (session : Option Session) : Except AuthError Unit :=
  match s.sessions, session with
  | some store, some session => if store.touched session.id then .ok () else .error .sessionRevoked
  | _, _ => .ok ()

def authenticateAccessToken (s : AuthService) (token : GoString) : Except AuthError Identity := do
  match s.verifyAccess token with
  | none => .error .invalidToken
  | some claims =>
    match s.getCachedAuthResult token with
    | some (user, groupIDs) =>
      if !user.active then .error .inactiveUser
      else
        let session ← accessTokenSession s claims
        .ok (user, groupIDs, session)
    | none =>
      match s.getUser claims.userID with
      | none => .error .notFound
      | some user =>
        if !user.active then .error .inactiveUser
        else
          let session ← accessTokenSession s claims
          touchSession s session
          match s.getUserGroupIDs user.id with
          | none => .error .notFound
          | some groupIDs => .ok (user, groupIDs, session)

/-! ## API tokens -/

def apiTokenScheme : GoString := str "plyn"

def looksLikeAPIToken (token : GoString) : Bool := hasPrefix (trimSpace token) (apiTokenScheme ++ [0x5F])

def apiTokenPrefix (token : GoString) : Option GoString :=
  match (trimSpace token).splitOn 0x5F with
  | scheme :: ident :: secret :: rest =>
    if scheme = apiTokenScheme ∧ ident ≠ [] ∧ [0x5F].intercalate (secret :: rest) ≠ [] then
      some (scheme ++ 0x5F :: ident)
    else none
  | _ => none

def authenticateAPIToken (s : AuthService) (find : GoString → Option APIToken) (token : GoString) :
    Except AuthError Identity :=
  match (apiTokenPrefix token).bind find with
  | none => .error .invalidToken
  | some rec =>
    if s.hashAPIToken token ≠ rec.tokenHash then .error .invalidToken
    else if rec.revokedAt ≠ none ∨ rec.expiresAt.any (· ≤ s.now) then .error .invalidToken
    else
      .ok ({
        id := rec.createdByID.getD 0
        email := str "api-token:" ++ rec.name
        role := if rec.role = .admin then .admin else .viewer
        active := true
        mustChangePassword := false
        mfaEnabled := false
        authProvider := .other [] }, [], none)

/-! ## Host sessions -/

section Tables

theorem checkSession_ok {now : Instant} {session session' : Session} (h : checkSession now session = .ok session') :
    session' = session ∧ session.revokedAt = none ∧ now ≤ session.expiresAt := by
  unfold checkSession at h
  split_ifs at h with h1 h2
  rw [Except.ok.injEq] at h
  exact ⟨h.symm, not_not.mp h1, not_lt.mp h2⟩

theorem bind_eq_ok {ε α β : Type} {x : Except ε α} {f : α → Except ε β} {b : β}
    (h : (x >>= f) = .ok b) : ∃ a, x = .ok a ∧ f a = .ok b := by
  cases x with
  | error e => cases h
  | ok a => exact ⟨a, rfl, h⟩

variable [UnicodeTables]

def normalizeBridgeHost (host : GoString) : GoString := cutBefore colon (toLower (trimSpace host))

def hostSessionTokenType : GoString := str "host_session"

def parseHostSessionToken (s : AuthService) (token host : GoString) : Option HostSessionClaims :=
  let host := normalizeBridgeHost host
  if host = [] then none
  else
    match s.verifyHostSession token host with
    | none => none
    | some claims => if claims.tokenType ≠ hostSessionTokenType ∨ claims.userID = 0 then none else some claims

def hostSessionFor (s : AuthService) (claims : HostSessionClaims) : Except AuthError (Option Session) :=
  match s.sessions with
  | none => .ok none
  | some store =>
    if claims.sessionID = 0 then .error .invalidToken
    else
      match store.getByID claims.sessionID with
      | none => .error .invalidToken
      | some session =>
        if session.userID ≠ claims.userID then .error .invalidToken else (checkSession s.now session).map some

def authenticateHostSessionToken (s : AuthService) (token host : GoString) : Except AuthError Identity := do
  match parseHostSessionToken s token host with
  | none => .error .invalidToken
  | some claims =>
    let session ← hostSessionFor s claims
    match s.getCachedAuthResult token with
    | some (user, groupIDs) => if !user.active then .error .inactiveUser else .ok (user, groupIDs, session)
    | none =>
      match s.getUser claims.userID with
      | none => .error .notFound
      | some user =>
        if !user.active then .error .inactiveUser
        else
          match s.getUserGroupIDs user.id with
          | none => .error .notFound
          | some groupIDs => .ok (user, groupIDs, session)

/-! ## Requests -/

def sessionCookieName : GoString := str "portlyn_session"

def bearerTokenFromHeader (header : GoString) : GoString :=
  let header := trimSpace header
  if hasPrefix header (str "Bearer ") then trimSpace (header.drop 7) else []

def bearerOf (r : Request) : GoString :=
  trimSpace (bearerTokenFromHeader (r.header.get (str "Authorization")))

def authenticateHostRequest (s : AuthService) (r : Request) (host : GoString) : Except AuthError Identity :=
  let bearer := bearerOf r
  if bearer ≠ [] then
    match s.apiTokens, looksLikeAPIToken bearer with
    | some find, true => authenticateAPIToken s find bearer
    | _, _ =>
      match authenticateHostSessionToken s bearer host with
      | .ok identity => .ok identity
      | .error _ => authenticateAccessToken s bearer
  else
    match r.cookie sessionCookieName with
    | none => .error .invalidToken
    | some value =>
      if trimSpace value = [] then .error .invalidToken else authenticateHostSessionToken s (trimSpace value) host

def authenticateRequest (s : AuthService) (r : Request) : Except AuthError Identity :=
  let bearer := bearerOf r
  let token := if bearer ≠ [] then bearer else ((r.cookie sessionCookieName).map trimSpace).getD []
  if token = [] then .error .invalidToken
  else
    match s.apiTokens, looksLikeAPIToken token with
    | some find, true => authenticateAPIToken s find token
    | _, _ => authenticateAccessToken s token

/-! ## What authentication guarantees -/

/-- An active user, with a session that is neither revoked nor expired if there is one. -/
structure Live (now : Instant) (identity : Identity) : Prop where
  active : identity.1.active = true
  session : ∀ session, identity.2.2 = some session → session.revokedAt = none ∧ now ≤ session.expiresAt

variable {s : AuthService}

omit [UnicodeTables] in
theorem accessTokenSession_ok {claims : Claims} {session : Option Session}
    (h : accessTokenSession s claims = .ok session) :
    ∀ x, session = some x → x.revokedAt = none ∧ s.now ≤ x.expiresAt := by
  rintro x rfl
  unfold accessTokenSession at h
  cases hs : s.sessions with
  | none => simp [hs] at h
  | some store =>
    simp only [hs] at h
    split_ifs at h
    · cases h
    · cases hg : store.getByTokenID claims.tokenID with
      | none => simp [hg] at h
      | some y =>
        simp only [hg] at h
        cases hc : checkSession s.now y with
        | error e => simp [hc, Except.map] at h
        | ok z =>
          simp only [hc, Except.map, Except.ok.injEq, Option.some.injEq] at h
          obtain ⟨rfl, hr, he⟩ := checkSession_ok hc
          exact h ▸ ⟨hr, he⟩

omit [UnicodeTables] in
theorem hostSessionFor_ok {claims : HostSessionClaims} {session : Option Session}
    (h : hostSessionFor s claims = .ok session) :
    ∀ x, session = some x → x.revokedAt = none ∧ s.now ≤ x.expiresAt := by
  rintro x rfl
  unfold hostSessionFor at h
  cases hs : s.sessions with
  | none => simp [hs] at h
  | some store =>
    simp only [hs] at h
    split_ifs at h
    cases hg : store.getByID claims.sessionID with
    | none => simp [hg] at h
    | some y =>
      simp only [hg] at h
      split_ifs at h
      cases hc : checkSession s.now y with
      | error e => simp [hc, Except.map] at h
      | ok z =>
        simp only [hc, Except.map, Except.ok.injEq, Option.some.injEq] at h
        obtain ⟨rfl, hr, he⟩ := checkSession_ok hc
        exact h ▸ ⟨hr, he⟩

variable {token : GoString} {identity : Identity}

omit [UnicodeTables] in
theorem authenticateAccessToken_live (h : authenticateAccessToken s token = .ok identity) : Live s.now identity := by
  unfold authenticateAccessToken at h
  split at h
  · cases h
  · split at h
    · -- the cached user
      split_ifs at h with hact
      obtain ⟨session, hs, h⟩ := bind_eq_ok h
      cases h
      exact ⟨by simpa using hact, accessTokenSession_ok hs⟩
    · split at h
      · cases h
      · split_ifs at h with hact
        obtain ⟨session, hs, h⟩ := bind_eq_ok h
        obtain ⟨-, -, h⟩ := bind_eq_ok h
        split at h
        · cases h
        · cases h
          exact ⟨by simpa using hact, accessTokenSession_ok hs⟩

omit [UnicodeTables] in
theorem authenticateAPIToken_live {find : GoString → Option APIToken}
    (h : authenticateAPIToken s find token = .ok identity) : Live s.now identity := by
  unfold authenticateAPIToken at h
  split at h
  · cases h
  · split_ifs at h <;> cases h <;> exact ⟨rfl, by simp⟩

theorem authenticateHostSessionToken_live {host : GoString}
    (h : authenticateHostSessionToken s token host = .ok identity) : Live s.now identity := by
  unfold authenticateHostSessionToken at h
  split at h
  · cases h
  · obtain ⟨session, hs, h⟩ := bind_eq_ok h
    split at h
    · split_ifs at h with hact
      cases h
      exact ⟨by simpa using hact, hostSessionFor_ok hs⟩
    · split at h
      · cases h
      · split_ifs at h with hact
        split at h
        · cases h
        · cases h
          exact ⟨by simpa using hact, hostSessionFor_ok hs⟩

theorem authenticateHostRequest_live {r : Request} {host : GoString}
    (h : authenticateHostRequest s r host = .ok identity) : Live s.now identity := by
  unfold authenticateHostRequest at h
  dsimp only at h
  split_ifs at h
  · split at h
    · exact authenticateAPIToken_live h
    · split at h
      · rename_i hhost
        cases h
        exact authenticateHostSessionToken_live hhost
      · exact authenticateAccessToken_live h
  · split at h
    · cases h
    · split_ifs at h
      exact authenticateHostSessionToken_live h

end Tables

/-! ## Bootstrap duties -/

def bootstrapRequired (s : AuthService) (user : User) : Bool :=
  if user.mustChangePassword then true
  else if user.mfaEnabled then false
  else if user.role ≠ .admin then false
  else
    match s.settings with
    | none => false
    | some settings => if settings.requireMFAForAdmins then !s.userHasPasskey user.id else false

def mfaRequiredForUser (s : AuthService) (user : User) : Bool :=
  if user.role ≠ .admin then false
  else
    match s.settings with
    | none => false
    | some settings => settings.requireMFAForAdmins

def bootstrapDismissAllowed (s : AuthService) (user : User) : Bool :=
  if user.mustChangePassword then true else !mfaRequiredForUser s user

def bootstrapAccessAllowed (s : AuthService) (user : User) (session : Option Session) : Bool :=
  if !bootstrapRequired s user then true
  else
    match session with
    | some session => session.bootstrapDismissed && bootstrapDismissAllowed s user
    | none => false

/-! ## Route access cookies -/

def sessionCookieNameForService (serviceID : ℕ) : GoString := str "portlyn_route_access_" ++ decimal serviceID

def routeAccessCookieClaims (s : AuthService) (r : Request) (serviceID : ℕ) : Option RouteAccessClaims :=
  match r.cookie (sessionCookieNameForService serviceID) with
  | none => none
  | some value =>
    match s.verifyRouteAccess value with
    | none => none
    | some claims => if claims.serviceID ≠ serviceID then none else some claims

def isPortlynCredential (s : AuthService) (token : GoString) : Bool :=
  let token := trimSpace token
  token ≠ [] && (looksLikeAPIToken token || s.signedHere token)

end Portlyn.Auth
